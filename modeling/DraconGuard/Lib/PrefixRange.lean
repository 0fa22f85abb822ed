import Mathlib.Data.List.Lex
import Mathlib.Data.List.Nodup
import Mathlib.Order.Lattice

/-!
# Prefix queries on an ordered index

An index files rows under keys that are lists, in lexicographic order. The keys that a key is a
prefix of stand together, from that key on (`prefix_of_between`), so a scan that starts there and
stops at the first key outside misses nothing (`range_eq_filter`). `insideOf` asks for the key
itself and scans the rest; it finds the rows that a search of the whole index finds
(`mem_insideOf`), which are those filed (`mem_fileAll`).
-/

namespace PrefixRange

variable {α β : Type} [LinearOrder α]

/-! ## The order -/

theorem not_lt_of_prefix {p q : List α} (h : p <+: q) : ¬ q < p := by
  induction p generalizing q with
  | nil => exact List.not_lt_nil q
  | cons a p ih =>
    cases q with
    | nil => exact absurd (List.prefix_nil.mp h) (List.cons_ne_nil a p)
    | cons b q =>
      obtain ⟨rfl, htail⟩ := List.cons_prefix_cons.mp h
      intro hlt
      rcases List.cons_lt_cons_iff.mp hlt with hlt | ⟨-, hlt⟩
      · exact lt_irrefl _ hlt
      · exact ih htail hlt

/-- **Extensions stand together**: between a key and one it is a prefix of there are no others. -/
theorem prefix_of_between {p q r : List α} (hp : ¬ r < p) (hq : ¬ q < r) (h : p <+: q) :
    p <+: r := by
  induction p generalizing q r with
  | nil => exact List.nil_prefix
  | cons a p ih =>
    cases q with
    | nil => exact absurd (List.prefix_nil.mp h) (List.cons_ne_nil a p)
    | cons b q =>
      obtain ⟨rfl, htail⟩ := List.cons_prefix_cons.mp h
      cases r with
      | nil => exact absurd (List.nil_lt_cons a p) hp
      | cons c r =>
        rw [List.cons_lt_cons_iff, not_or, not_and] at hp hq
        have hca : c = a := le_antisymm (not_lt.mp hq.1) (not_lt.mp hp.1)
        subst hca
        exact List.cons_prefix_cons.mpr ⟨rfl, ih (hp.2 rfl) (hq.2 rfl) htail⟩

/-! ## The scan -/

/-- The key is `p` or lies inside it. -/
def within (p : List α) (e : List α × List β) : Bool := p.isPrefixOf e.1

theorem within_iff {p : List α} {e : List α × List β} : within p e = true ↔ p <+: e.1 :=
  List.isPrefixOf_iff_prefix

/-- Keys in order, each once. -/
def Sorted (index : List (List α × List β)) : Prop := index.Pairwise fun a b => a.1 < b.1

/-- From a key that is not below `p` on, the scan stops where the last extension is passed. -/
theorem takeWhile_eq_filter {p : List α} {index : List (List α × List β)} (hsorted : Sorted index)
    (hfrom : ∀ e ∈ index, ¬ e.1 < p) :
    index.takeWhile (within p) = index.filter (within p) := by
  induction index with
  | nil => rfl
  | cons e index ih =>
    obtain ⟨hbelow, hrest⟩ := List.pairwise_cons.mp hsorted
    by_cases hprefix : within p e = true
    · rw [List.takeWhile_cons_of_pos hprefix, List.filter_cons_of_pos hprefix,
        ih hrest fun f hf => hfrom f (List.mem_cons_of_mem e hf)]
    · rw [List.takeWhile_cons_of_neg hprefix, List.filter_cons_of_neg hprefix]
      refine (List.filter_eq_nil_iff.mpr fun f hf hin => hprefix ?_).symm
      have hbetween := prefix_of_between (hfrom e (List.mem_cons_self ..)) (hbelow f hf).asymm
        (within_iff.mp hin)
      exact within_iff.mpr hbetween

/-- **The scan misses nothing.** -/
theorem range_eq_filter {index : List (List α × List β)} (hsorted : Sorted index) (p : List α) :
    (index.dropWhile fun e => e.1 < p).takeWhile (within p) = index.filter (within p) := by
  induction index with
  | nil => rfl
  | cons e index ih =>
    obtain ⟨hbelow, hrest⟩ := List.pairwise_cons.mp hsorted
    by_cases hlt : e.1 < p
    · have hno : ¬ within p e = true := fun hin => not_lt_of_prefix (within_iff.mp hin) hlt
      rw [List.dropWhile_cons_of_pos (by simpa using hlt), List.filter_cons_of_neg hno]
      exact ih hrest
    · rw [List.dropWhile_cons_of_neg (by simpa using hlt)]
      refine takeWhile_eq_filter hsorted fun f hf => ?_
      rcases List.mem_cons.mp hf with rfl | hf
      · exact hlt
      · exact fun hfp => hlt ((hbelow f hf).trans hfp)

/-! ## The index -/

/-- `entry(key).or_default().push(row)`. -/
def fileRow (key : List α) (row : β) : List (List α × List β) → List (List α × List β)
  | [] => [(key, [row])]
  | (k, rows) :: index =>
    if key < k then (key, [row]) :: (k, rows) :: index
    else if key = k then (k, rows ++ [row]) :: index
    else (k, rows) :: fileRow key row index

theorem mem_fileRow {key : List α} {row r : β} {index : List (List α × List β)} {q : List α → Prop} :
    (∃ e ∈ fileRow key row index, q e.1 ∧ r ∈ e.2) ↔
      (q key ∧ r = row) ∨ ∃ e ∈ index, q e.1 ∧ r ∈ e.2 := by
  induction index with
  | nil => simp [fileRow]
  | cons e index ih =>
    obtain ⟨k, rows⟩ := e
    unfold fileRow
    split
    · simp
    split
    · next heq =>
      subst heq
      simp only [List.exists_mem_cons_iff, List.mem_append, List.mem_singleton]
      grind
    · simp only [List.exists_mem_cons_iff]
      rw [ih]
      grind

/-- A key of the index after filing is the one filed or was there. -/
theorem key_mem_fileRow {key : List α} {row : β} {index : List (List α × List β)}
    {e : List α × List β} (h : e ∈ fileRow key row index) :
    e.1 = key ∨ ∃ f ∈ index, f.1 = e.1 := by
  induction index with
  | nil => exact Or.inl (congrArg Prod.fst (List.mem_singleton.mp h))
  | cons f index ih =>
    obtain ⟨k, rows⟩ := f
    unfold fileRow at h
    split at h
    · rcases List.mem_cons.mp h with rfl | h
      · exact Or.inl rfl
      · exact Or.inr ⟨e, h, rfl⟩
    split at h
    · rcases List.mem_cons.mp h with rfl | h
      · exact Or.inr ⟨(k, rows), List.mem_cons_self .., rfl⟩
      · exact Or.inr ⟨e, List.mem_cons_of_mem _ h, rfl⟩
    · rcases List.mem_cons.mp h with rfl | h
      · exact Or.inr ⟨(k, rows), List.mem_cons_self .., rfl⟩
      · rcases ih h with heq | ⟨f, hf, heq⟩
        · exact Or.inl heq
        · exact Or.inr ⟨f, List.mem_cons_of_mem _ hf, heq⟩

theorem sorted_fileRow {index : List (List α × List β)} (h : Sorted index) (key : List α)
    (row : β) : Sorted (fileRow key row index) := by
  induction index with
  | nil => exact List.pairwise_singleton _ _
  | cons e index ih =>
    obtain ⟨k, rows⟩ := e
    obtain ⟨hbelow, hrest⟩ := List.pairwise_cons.mp h
    unfold fileRow
    split
    · next hlt =>
      refine List.pairwise_cons.mpr ⟨fun f hf => ?_, h⟩
      rcases List.mem_cons.mp hf with rfl | hf
      · exact hlt
      · exact hlt.trans (hbelow f hf)
    · next hge =>
      split
      · exact List.pairwise_cons.mpr ⟨hbelow, hrest⟩
      · next hne =>
        refine List.pairwise_cons.mpr ⟨fun f hf => ?_, ih hrest⟩
        rcases key_mem_fileRow hf with heq | ⟨g, hg, heq⟩
        · rw [heq]
          exact lt_of_le_of_ne (not_lt.mp hge) (Ne.symm hne)
        · rw [← heq]
          exact hbelow g hg

/-- An index of the rows. -/
def fileAll (rows : List (List α × β)) : List (List α × List β) :=
  rows.foldl (fun index row => fileRow row.1 row.2 index) []

theorem sorted_fileAll (rows : List (List α × β)) : Sorted (fileAll rows) := by
  refine List.foldlRecOn (motive := Sorted) rows _ List.Pairwise.nil ?_
  exact fun index h row _ => sorted_fileRow h row.1 row.2

theorem mem_fileAll {rows : List (List α × β)} {r : β} {q : List α → Prop} :
    (∃ e ∈ fileAll rows, q e.1 ∧ r ∈ e.2) ↔ ∃ row ∈ rows, q row.1 ∧ r = row.2 := by
  have hgen : ∀ index : List (List α × List β),
      (∃ e ∈ rows.foldl (fun index row => fileRow row.1 row.2 index) index, q e.1 ∧ r ∈ e.2) ↔
        (∃ row ∈ rows, q row.1 ∧ r = row.2) ∨ ∃ e ∈ index, q e.1 ∧ r ∈ e.2 := by
    induction rows with
    | nil => simp
    | cons row rows ih =>
      intro index
      rw [List.foldl_cons, ih, mem_fileRow, List.exists_mem_cons_iff]
      grind
  rw [fileAll, hgen []]
  simp

/-! ## The query -/

/-- The loop behind the key: the key itself is passed over, and the first key outside ends it. -/
def insideLoop (p : List α) : List (List α × List β) → List β
  | [] => []
  | (k, rows) :: index =>
    if k = p then insideLoop p index
    else if p.isPrefixOf k then rows ++ insideLoop p index
    else []

/-- The rows of the key, then those strictly inside it. -/
def insideOf (p : List α) (index : List (List α × List β)) : List β :=
  ((index.find? fun e => e.1 = p).map Prod.snd).getD [] ++
    insideLoop p (index.dropWhile fun e => e.1 < p)

theorem mem_insideLoop {p : List α} {index : List (List α × List β)} {r : β} :
    r ∈ insideLoop p index ↔
      ∃ e ∈ index.takeWhile (within p), e.1 ≠ p ∧ r ∈ e.2 := by
  induction index with
  | nil => simp [insideLoop]
  | cons e index ih =>
    obtain ⟨k, rows⟩ := e
    unfold insideLoop
    by_cases heq : k = p
    · subst heq
      have hself : within k (k, rows) = true := within_iff.mpr List.prefix_rfl
      rw [if_pos rfl, ih, List.takeWhile_cons_of_pos hself, List.exists_mem_cons_iff]
      simp
    · rw [if_neg heq]
      by_cases hprefix : within p (k, rows) = true
      · have hk : p.isPrefixOf k = true := hprefix
        rw [if_pos hk, List.takeWhile_cons_of_pos hprefix, List.exists_mem_cons_iff,
          List.mem_append, ih]
        simp [heq]
      · have hk : ¬ p.isPrefixOf k = true := hprefix
        rw [if_neg hk, List.takeWhile_cons_of_neg hprefix]
        simp

/-- **The query finds what is filed at the key or inside it.** -/
theorem mem_insideOf {p : List α} {index : List (List α × List β)} (hsorted : Sorted index)
    {r : β} : r ∈ insideOf p index ↔ ∃ e ∈ index, p <+: e.1 ∧ r ∈ e.2 := by
  unfold insideOf
  rw [List.mem_append, mem_insideLoop, range_eq_filter hsorted]
  have hexact : r ∈ ((index.find? fun e => e.1 = p).map Prod.snd).getD [] ↔
      ∃ e ∈ index, e.1 = p ∧ r ∈ e.2 := by
    cases hfind : index.find? fun e => e.1 = p with
    | none =>
      rw [List.find?_eq_none] at hfind
      simp only [Option.map_none, Option.getD_none, List.not_mem_nil, false_iff]
      rintro ⟨e, he, heq, -⟩
      exact hfind e he (by simpa using heq)
    | some e =>
      have heq : e.1 = p := by simpa using List.find?_some hfind
      have hmem : e ∈ index := List.mem_of_find?_eq_some hfind
      simp only [Option.map_some, Option.getD_some]
      constructor
      · exact fun hr => ⟨e, hmem, heq, hr⟩
      · rintro ⟨f, hf, hfp, hr⟩
        -- keys in order are different
        have hkeys : (index.map Prod.fst).Nodup :=
          List.pairwise_map.mpr (hsorted.imp fun hlt => ne_of_lt hlt)
        have hsame := List.inj_on_of_nodup_map hkeys hf hmem (hfp.trans heq.symm)
        rwa [← hsame]
  rw [hexact]
  simp only [List.mem_filter, within_iff]
  constructor
  · rintro (⟨e, he, rfl, hr⟩ | ⟨e, ⟨he, hin⟩, -, hr⟩)
    · exact ⟨e, he, List.prefix_rfl, hr⟩
    · exact ⟨e, he, hin, hr⟩
  · rintro ⟨e, he, hin, hr⟩
    by_cases heq : e.1 = p
    · exact Or.inl ⟨e, he, heq, hr⟩
    · exact Or.inr ⟨e, ⟨he, hin⟩, heq, hr⟩

end PrefixRange
