import DraconGuard.Lib.EditDistance
import DraconGuard.Lib.Text
import Mathlib.Data.List.Sort
import Mathlib.Data.List.Dedup

/-!
# Hints for a mistyped policy key

A key of the policy file that nothing reads is reported with a hint (`hint_for`, policy.rs:2060):
the table it belongs in, a section of nearly that name, or the keys nearest to it by
`edit_distance` (policy.rs:2206). The keys come out of hash maps, so that their order is any.

**`editDistance_isLeast`**: the two rows of the table compute the least number of edits.
**`hintOf_nearMiss`** and **`hintOf_nothing`** are what the loop over the keys comes to: no hint
takes one knob of a family for another, and a key two edits away is not missed.

| here                   | there                                                             |
|------------------------|-------------------------------------------------------------------|
| `editCell`, `editRow`  | the two loops of `edit_distance` (policy.rs:2211-2218)            |
| `KnownKeys`            | `known_policy_keys` (policy.rs:1946), listed in some order        |
| `NearMiss`             | the five variables of the last search (policy.rs:2112-2116)       |
| `Hint`, `Hint.text`    | the strings that `hint_for` returns                               |
-/

namespace DraconGuard

open EditDistance

/-! ## `edit_distance` -/

/-- One cell of the current row (policy.rs:2214-2215). -/
def editCell (a b : List Char) (prev : List Nat) (i : Nat) (cur : List Nat) (j : Nat) : List Nat :=
  let cost := if a[i - 1]? = b[j - 1]? then 0 else 1
  cur.set j
    (min (min (prev.getD j 0 + 1) (cur.getD (j - 1) 0 + 1)) (prev.getD (j - 1) 0 + cost))

/-- One row, and the swap of the two (policy.rs:2211-2217). -/
def editRow (a b : List Char) (rows : List Nat × List Nat) (i : Nat) : List Nat × List Nat :=
  ((List.range' 1 b.length).foldl (editCell a b rows.1 i) (rows.2.set 0 i), rows.1)

/-- `edit_distance` (policy.rs:2206). -/
def editDistance (a b : String) : Nat :=
  let a := a.toList
  let b := b.toList
  let rows := (List.range' 1 a.length).foldl (editRow a b)
    (List.range (b.length + 1), List.replicate (b.length + 1) 0)
  rows.1.getD b.length 0

/-- What a row of the table should hold up to a column. -/
def RowOf (a b : List Char) (i j : Nat) (row : List Nat) : Prop :=
  row.length = b.length + 1 ∧ ∀ k ≤ j, row.getD k 0 = dist (a.take i) (b.take k)

variable {a b : List Char} {i j : Nat} {prev cur : List Nat}

/-- The recurrence of the table. -/
theorem dist_take_succ (hi : i < a.length) (hj : j < b.length) :
    dist (a.take (i + 1)) (b.take (j + 1)) =
      min (min (dist (a.take i) (b.take (j + 1)) + 1) (dist (a.take (i + 1)) (b.take j) + 1))
        (dist (a.take i) (b.take j) + if a[i]? = b[j]? then 0 else 1) := by
  have ha : a.take (i + 1) = a.take i ++ [a[i]] := (List.take_concat_get' a i hi).symm
  have hb : b.take (j + 1) = b.take j ++ [b[j]] := (List.take_concat_get' b j hj).symm
  rw [ha, hb, dist_concat, List.getElem?_eq_getElem hi, List.getElem?_eq_getElem hj]
  simp only [Option.some.injEq]

theorem editCell_row (hi : i < a.length) (hj : j < b.length)
    (hprev : RowOf a b i b.length prev) (hcur : RowOf a b (i + 1) j cur) :
    RowOf a b (i + 1) (j + 1) (editCell a b prev (i + 1) cur (j + 1)) := by
  obtain ⟨hlen, hcells⟩ := hcur
  refine ⟨by simp [editCell, hlen], ?_⟩
  intro k hk
  rcases Nat.lt_or_eq_of_le hk with hlt | rfl
  · rw [editCell, List.getD_eq_getElem?_getD, List.getElem?_set_ne (by omega),
      ← List.getD_eq_getElem?_getD]
    exact hcells k (by omega)
  · rw [editCell, List.getD_eq_getElem?_getD, List.getElem?_set_self (by omega), Option.getD_some,
      Nat.add_sub_cancel, Nat.add_sub_cancel, hprev.2 (j + 1) (by omega), hprev.2 j (by omega),
      hcells j le_rfl]
    exact (dist_take_succ hi hj).symm

theorem foldl_editCell_row (hi : i < a.length) (hprev : RowOf a b i b.length prev)
    (hcur : RowOf a b (i + 1) 0 cur) (n : Nat) (hn : n ≤ b.length) :
    RowOf a b (i + 1) n ((List.range' 1 n).foldl (editCell a b prev (i + 1)) cur) := by
  induction n with
  | zero => exact hcur
  | succ n ih =>
    rw [List.range'_1_concat, List.foldl_append, Nat.add_comm 1 n]
    exact editCell_row hi (by omega) hprev (ih (by omega))

/-- **One row from the one before**; of the other row only the length counts. -/
theorem editRow_rows (hi : i < a.length) (hprev : RowOf a b i b.length prev)
    (hcur : cur.length = b.length + 1) :
    RowOf a b (i + 1) b.length (editRow a b (prev, cur) (i + 1)).1 ∧
      (editRow a b (prev, cur) (i + 1)).2.length = b.length + 1 := by
  refine ⟨foldl_editCell_row hi hprev ⟨by simp [hcur], ?_⟩ b.length le_rfl, hprev.1⟩
  intro k hk
  obtain rfl : k = 0 := by omega
  rw [List.getD_eq_getElem?_getD, List.getElem?_set_self (by simp [hcur]), Option.getD_some,
    List.take_zero, dist_nil_right, List.length_take, Nat.min_eq_left hi]

theorem foldl_editRow_rows (n : Nat) (hn : n ≤ a.length) :
    let rows := (List.range' 1 n).foldl (editRow a b)
      (List.range (b.length + 1), List.replicate (b.length + 1) 0)
    RowOf a b n b.length rows.1 ∧ rows.2.length = b.length + 1 := by
  induction n with
  | zero =>
    refine ⟨⟨by simp, ?_⟩, by simp⟩
    intro k hk
    simp [List.getD_eq_getElem?_getD, List.getElem?_range (Nat.lt_succ_of_le hk)]
    omega
  | succ n ih =>
    obtain ⟨hprev, hcur⟩ := ih (by omega)
    rw [List.range'_1_concat, List.foldl_append, Nat.add_comm 1 n]
    exact editRow_rows (by omega) hprev hcur

theorem editDistance_eq_dist (a b : String) : editDistance a b = dist a.toList b.toList := by
  have hrows := (foldl_editRow_rows (b := b.toList) a.toList.length le_rfl).1.2 _ le_rfl
  rw [List.take_length, List.take_length] at hrows
  exact hrows

/-- **The table computes the least number of edits** between two keys. -/
theorem editDistance_isLeast (a b : String) :
    IsLeast {n | Edits n a.toList b.toList} (editDistance a b) :=
  editDistance_eq_dist a b ▸ dist_isLeast a.toList b.toList

example : editDistance "disk_warn_persent" "disk_warn_percent" = 1 := by decide +kernel

/-! ## Families and tiers -/

/-- The endings that bound an age. -/
def ageSuffixes : List String := ["_min_age_days", "_max_age_days"]

/-- `policy_tier` (policy.rs:2169): the knob a name refers to, inside its family. -/
def policyTier (key : String) : Option String :=
  match Text.stripPrefix key.toList "rust_target".toList with
  | some rest =>
    if rest = "_max_age_days".toList then some "rust_target_max"
    else if rest = "_action_min_age_days".toList then some "rust_target_action"
    else some "rust_target_other"
  | none => if ageSuffixes.any (fun s => s.toList.isSuffixOf key.toList) then some key else none

/-- `policy_family` (policy.rs:2189). -/
def policyFamily (key : String) : Option String :=
  match Text.stripPrefix key.toList "rust_target".toList with
  | some rest => if "_age_days".toList.isSuffixOf rest then some "rust_target" else none
  | none =>
    (ageSuffixes.findSome? fun s => Text.stripSuffix key.toList s.toList).map String.ofList

/-- Two names of one family that are different decisions. -/
def CrossesTier (typed key : String) : Prop :=
  policyFamily typed ≠ none ∧ policyFamily key = policyFamily typed ∧
    policyTier key ≠ policyTier typed

instance (typed key : String) : Decidable (CrossesTier typed key) := by
  unfold CrossesTier
  infer_instance

/-! ## `hint_for` -/

abbrev KnownKeys := List (String × List String)

def KnownKeys.keys (known : KnownKeys) : List String := known.flatMap (·.2)

/-- What the loop over all keys collects (policy.rs:2112-2116). -/
structure NearMiss where
  close : Nat × List String
  closeSameTier : Nat × List String
  familyMembers : List String

/-- `usize::MAX`, where both searches start. -/
def usizeMax : Nat := 18446744073709551615

def NearMiss.start : NearMiss := ⟨(usizeMax, []), (usizeMax, []), []⟩

/-- One candidate (policy.rs:2118-2142): a key of the typed tier, a sibling of another tier, or a
key of no consequence to either. -/
def NearMiss.visit (base : String) (acc : NearMiss) (candidate : String) : NearMiss :=
  let d := editDistance base
  let typedFamily := policyFamily base
  let acc :=
    if typedFamily.isSome ∧ policyFamily candidate = typedFamily then
      { acc with familyMembers := acc.familyMembers ++ [candidate] }
    else acc
  if (policyTier base).isSome ∧ policyTier candidate = policyTier base then
    { acc with closeSameTier := nearer d 2 acc.closeSameTier candidate }
  else if typedFamily.isSome ∧ policyFamily candidate = typedFamily then acc
  else { acc with close := nearer d 2 acc.close candidate }

/-- The two nested loops (policy.rs:2117-2143). -/
def nearMisses (known : KnownKeys) (base : String) : NearMiss :=
  known.foldl (fun acc section_ => section_.2.foldl (NearMiss.visit base) acc) NearMiss.start

inductive Hint
  | belongs (base name : String)
  | sections (names : List String)
  | nearMiss (keys : List String)
  | family (members : List String)
  | nothing
  deriving DecidableEq, Repr

def Hint.text : Hint → String
  | .belongs base name => " — `" ++ base ++ "` belongs under [" ++ name ++ "]"
  | .sections names => " — did you mean [" ++ "] or [".intercalate names ++ "]?"
  | .nearMiss keys => " — did you mean " ++ " or ".intercalate keys ++ "?"
  | .family members =>
    " — did you mean one of " ++ ", ".intercalate members ++ "? (they are different settings)"
  | .nothing => ""

/-- `key.split_once('.')`: the section, if there is one, and the name in it. -/
def splitKey (key : String) : Option String × String :=
  if '.' ∈ key.toList then
    (some (String.ofList (key.toList.takeWhile (· ≠ '.'))),
      String.ofList ((key.toList.dropWhile (· ≠ '.')).drop 1))
  else (none, key)

/-- The nearest section names (policy.rs:2084-2093). -/
def nearSections (known : KnownKeys) (base : String) : List String :=
  ((known.map (·.1)).foldl (nearer (editDistance base) 2) (usizeMax, [])).2

/-- The last part of `hint_for` (policy.rs:2144-2158). -/
def hintOfMisses (misses : NearMiss) : Hint :=
  let members := (misses.familyMembers.insertionSort (· ≤ ·)).dedup
  if misses.closeSameTier.2 ≠ [] then .nearMiss misses.closeSameTier.2
  else if members ≠ [] ∧ members.length ≤ 4 then .family members
  else if misses.close.2 = [] then .nothing
  else .nearMiss misses.close.2

/-- `hint_for` (policy.rs:2060) before the text is put together. -/
def hintOf (known : KnownKeys) (key : String) : Hint :=
  let (section_, base) := splitKey key
  match known.find? fun s => decide (some s.1 ≠ section_ ∧ base ∈ s.2) with
  | some s => .belongs base s.1
  | none =>
    let close := nearSections known base
    if section_ = none ∧ close ≠ [] then .sections close
    else hintOfMisses (nearMisses known base)

def hintFor (known : KnownKeys) (key : String) : String := (hintOf known key).text

/-! ## What the loop collects -/

/-- The candidates of the typed tier. -/
def SameTier (typed key : String) : Prop :=
  (policyTier typed).isSome ∧ policyTier key = policyTier typed

instance (typed key : String) : Decidable (SameTier typed key) := by
  unfold SameTier
  infer_instance

variable {known : KnownKeys} {base key k : String} {ks : List String}

/-- A family has tiers. -/
theorem policyTier_isSome_of_family (h : policyFamily key ≠ none) : (policyTier key).isSome := by
  unfold policyFamily at h
  unfold policyTier
  cases hrest : Text.stripPrefix key.toList "rust_target".toList with
  | some rest => simp only; split <;> [rfl; split <;> rfl]
  | none =>
    simp only [hrest] at h ⊢
    split
    · rfl
    · next hany =>
      refine absurd ?_ h
      rw [Option.map_eq_none_iff, List.findSome?_eq_none_iff]
      intro s hs
      have hnot : ¬ s.toList.isSuffixOf key.toList = true := fun hsuf =>
        hany (List.any_eq_true.mpr ⟨s, hs, hsuf⟩)
      simp [Text.stripSuffix, hnot]

/-- The middle branch of the loop is for the keys that cross. -/
theorem sibling_iff_crossesTier (hother : ¬ SameTier base k) :
    ((policyFamily base).isSome ∧ policyFamily k = policyFamily base) ↔ CrossesTier base k := by
  rw [Option.isSome_iff_ne_none]
  constructor
  · rintro ⟨hfamily, hsame⟩
    exact ⟨hfamily, hsame, fun htier =>
      hother ⟨policyTier_isSome_of_family hfamily, htier⟩⟩
  · rintro ⟨hfamily, hsame, -⟩
    exact ⟨hfamily, hsame⟩

/-- The three collections are taken each from its own candidates. -/
theorem foldl_visit (base : String) (xs : List String) (acc : NearMiss) :
    (xs.foldl (NearMiss.visit base) acc).closeSameTier =
        (xs.filter fun k => SameTier base k).foldl (nearer (editDistance base) 2)
          acc.closeSameTier ∧
      (xs.foldl (NearMiss.visit base) acc).close =
        (xs.filter fun k => ¬ SameTier base k ∧ ¬ CrossesTier base k).foldl
          (nearer (editDistance base) 2) acc.close ∧
      (xs.foldl (NearMiss.visit base) acc).familyMembers =
        acc.familyMembers ++
          xs.filter fun k => (policyFamily base).isSome ∧ policyFamily k = policyFamily base := by
  induction xs generalizing acc with
  | nil => simp
  | cons k xs ih =>
    obtain ⟨htier, hclose, hfamily⟩ := ih (NearMiss.visit base acc k)
    rw [List.foldl_cons, htier, hclose, hfamily]
    by_cases hsame : SameTier base k
    · have hsame' := hsame
      unfold SameTier at hsame'
      by_cases hsibling : (policyFamily base).isSome ∧ policyFamily k = policyFamily base <;>
        simp [NearMiss.visit, hsame, hsame', hsibling]
    · have hsame' := hsame
      unfold SameTier at hsame'
      by_cases hsibling : (policyFamily base).isSome ∧ policyFamily k = policyFamily base
      · have hcross := (sibling_iff_crossesTier hsame).mp hsibling
        simp [NearMiss.visit, hsame, hsame', hsibling, hcross]
      · have hcross := mt (sibling_iff_crossesTier hsame).mpr hsibling
        simp [NearMiss.visit, hsame, hsame', hsibling, hcross]

theorem nearMisses_eq (known : KnownKeys) (base : String) :
    nearMisses known base = known.keys.foldl (NearMiss.visit base) NearMiss.start :=
  List.foldl_flatMap.symm

theorem closeSameTier_eq (known : KnownKeys) (base : String) :
    (nearMisses known base).closeSameTier =
      (known.keys.filter fun k => SameTier base k).foldl (nearer (editDistance base) 2)
        (usizeMax, []) :=
  nearMisses_eq known base ▸ (foldl_visit base known.keys NearMiss.start).1

theorem close_eq (known : KnownKeys) (base : String) :
    (nearMisses known base).close =
      (known.keys.filter fun k => ¬ SameTier base k ∧ ¬ CrossesTier base k).foldl
        (nearer (editDistance base) 2) (usizeMax, []) :=
  nearMisses_eq known base ▸ (foldl_visit base known.keys NearMiss.start).2.1

private theorem two_lt_usizeMax : 2 < usizeMax := by decide

theorem mem_closeSameTier_iff :
    k ∈ (nearMisses known base).closeSameTier.2 ↔
      k ∈ known.keys ∧ SameTier base k ∧ editDistance base k ≤ 2 ∧
        ∀ k' ∈ known.keys, SameTier base k' → editDistance base k ≤ editDistance base k' := by
  rw [closeSameTier_eq, foldl_nearer two_lt_usizeMax]
  simp only [List.mem_filter, decide_eq_true_eq]
  constructor
  · rintro ⟨⟨hk, htier⟩, htwo, hleast⟩
    exact ⟨hk, htier, htwo, fun k' hk' htier' => hleast k' ⟨hk', htier'⟩⟩
  · rintro ⟨hk, htier, htwo, hleast⟩
    exact ⟨⟨hk, htier⟩, htwo, fun k' hk' => hleast k' hk'.1 hk'.2⟩

theorem mem_close_iff :
    k ∈ (nearMisses known base).close.2 ↔
      k ∈ known.keys ∧ (¬ SameTier base k ∧ ¬ CrossesTier base k) ∧ editDistance base k ≤ 2 ∧
        ∀ k' ∈ known.keys, ¬ SameTier base k' → ¬ CrossesTier base k' →
          editDistance base k ≤ editDistance base k' := by
  rw [close_eq, foldl_nearer two_lt_usizeMax]
  simp only [List.mem_filter, decide_eq_true_eq]
  constructor
  · rintro ⟨⟨hk, hother⟩, htwo, hleast⟩
    exact ⟨hk, hother, htwo, fun k' hk' hsame hcross => hleast k' ⟨hk', hsame, hcross⟩⟩
  · rintro ⟨hk, hother, htwo, hleast⟩
    exact ⟨⟨hk, hother⟩, htwo, fun k' hk' => hleast k' hk'.1 hk'.2.1 hk'.2.2⟩

/-- A key of the typed tier within two edits leaves something of that tier. -/
theorem two_lt_of_closeSameTier (hnone : (nearMisses known base).closeSameTier.2 = [])
    (hk : k ∈ known.keys) (htier : SameTier base k) : 2 < editDistance base k := by
  by_contra hle
  rw [closeSameTier_eq] at hnone
  exact foldl_nearer_ne_nil two_lt_usizeMax
    (List.mem_filter.mpr ⟨hk, decide_eq_true htier⟩) (not_lt.mp hle) hnone

theorem two_lt_of_close (hnone : (nearMisses known base).close.2 = [])
    (hk : k ∈ known.keys) (hother : ¬ SameTier base k) (hcross : ¬ CrossesTier base k) :
    2 < editDistance base k := by
  by_contra hle
  rw [close_eq] at hnone
  exact foldl_nearer_ne_nil two_lt_usizeMax
    (List.mem_filter.mpr ⟨hk, decide_eq_true ⟨hother, hcross⟩⟩) (not_lt.mp hle) hnone

/-! ## What is suggested -/

/-- No key that may be suggested is nearer, unless it is passed over for the typed tier. -/
def NearestOf (known : KnownKeys) (base k : String) : Prop :=
  ∀ k' ∈ known.keys, ¬ CrossesTier base k' → (SameTier base k → SameTier base k') →
    editDistance base k ≤ editDistance base k'

theorem hintOfMisses_nearMiss (h : hintOfMisses (nearMisses known base) = .nearMiss ks) :
    ks ≠ [] ∧ ∀ k ∈ ks, k ∈ known.keys ∧ editDistance base k ≤ 2 ∧ ¬ CrossesTier base k ∧
      NearestOf known base k := by
  unfold hintOfMisses at h
  by_cases htier : (nearMisses known base).closeSameTier.2 = []
  · have hks : (nearMisses known base).close.2 = ks ∧ ks ≠ [] := by
      simp only [htier, ne_eq, not_true_eq_false, if_false] at h
      split at h
      · cases h
      · split at h
        · cases h
        · next hne =>
          obtain rfl := Hint.nearMiss.inj h
          exact ⟨rfl, hne⟩
    obtain ⟨rfl, hne⟩ := hks
    refine ⟨hne, fun k hk => ?_⟩
    obtain ⟨hkeys, ⟨hother, hcross⟩, htwo, hleast⟩ := mem_close_iff.mp hk
    refine ⟨hkeys, htwo, hcross, fun k' hk' hcross' _ => ?_⟩
    -- a nearer key of the typed tier would have been suggested before
    by_cases hsame : SameTier base k'
    · have := two_lt_of_closeSameTier htier hk' hsame
      omega
    · exact hleast k' hk' hsame hcross'
  · simp only [ne_eq, htier, not_false_eq_true, if_true] at h
    obtain rfl := Hint.nearMiss.inj h
    refine ⟨htier, fun k hk => ?_⟩
    obtain ⟨hkeys, hsame, htwo, hleast⟩ := mem_closeSameTier_iff.mp hk
    exact ⟨hkeys, htwo, fun hcross => hcross.2.2 hsame.2,
      fun k' hk' _ htier' => hleast k' hk' (htier' hsame)⟩

theorem hintOfMisses_nothing (h : hintOfMisses (nearMisses known base) = .nothing)
    (hk : k ∈ known.keys) (hcross : ¬ CrossesTier base k) : 2 < editDistance base k := by
  unfold hintOfMisses at h
  by_cases htier : (nearMisses known base).closeSameTier.2 = []
  · have hclose : (nearMisses known base).close.2 = [] := by
      simp only [htier, ne_eq, not_true_eq_false, if_false] at h
      split at h
      · cases h
      · split at h
        · assumption
        · cases h
    by_cases hsame : SameTier base k
    · exact two_lt_of_closeSameTier htier hk hsame
    · exact two_lt_of_close hclose hk hsame hcross
  · simp only [ne_eq, htier, not_false_eq_true, if_true] at h
    cases h

/-- The last part of `hint_for` has the word when the hint is of its kind. -/
theorem hintOfMisses_of_hintOf {hint : Hint} (h : hintOf known key = hint)
    (hbelongs : ∀ base name, hint ≠ .belongs base name) (hsections : ∀ ns, hint ≠ .sections ns) :
    hintOfMisses (nearMisses known (splitKey key).2) = hint := by
  unfold hintOf at h
  simp only at h
  split at h
  · exact absurd h.symm (hbelongs _ _)
  · split at h
    · exact absurd h.symm (hsections _)
    · exact h

/-- **A suggestion is sound and a near miss is not overlooked.** Whatever the keys are and in
whatever order the maps give them: a suggested key is one of them, two edits away at most, no
other knob of the typed family, and nothing that may be suggested is nearer; and where no hint is
given, every key that may be suggested is more than two edits away. -/
theorem hintOf_exact (known : KnownKeys) (key : String) :
    (∀ ks, hintOf known key = .nearMiss ks →
      ks ≠ [] ∧ ∀ k ∈ ks, k ∈ known.keys ∧ editDistance (splitKey key).2 k ≤ 2 ∧
        ¬ CrossesTier (splitKey key).2 k ∧ NearestOf known (splitKey key).2 k) ∧
    (hintOf known key = .nothing → ∀ k ∈ known.keys,
      ¬ CrossesTier (splitKey key).2 k → 2 < editDistance (splitKey key).2 k) := by
  constructor
  · intro ks h
    exact hintOfMisses_nearMiss
      (hintOfMisses_of_hintOf h (fun _ _ => Hint.noConfusion) (fun _ => Hint.noConfusion))
  · intro h k hk hcross
    exact hintOfMisses_nothing
      (hintOfMisses_of_hintOf h (fun _ _ => Hint.noConfusion) (fun _ => Hint.noConfusion))
      hk hcross

example :
    hintOf [("guard", ["rust_target_max_age_days", "rust_target_action_min_age_days"])]
        "guard.rust_target_min_age_days" =
      .family ["rust_target_action_min_age_days", "rust_target_max_age_days"] := by
  decide +kernel

end DraconGuard
