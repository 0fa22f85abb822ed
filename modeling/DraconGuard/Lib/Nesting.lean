import Mathlib.Data.List.Sort
import Mathlib.Data.List.Infix
import Mathlib.Data.List.Pairwise

/-!
# The outermost places of a list, the heaviest first

A list of places, some of them inside others. It is sorted by depth and collapsed, so that only
outermost places are left, and of these the `k` heaviest are taken. Both sorts are stable:
`Listed` says which places are taken by their position in the list alone (`mem_shortlist`).
-/

namespace Nesting

variable {α β : Type*}

/-! ## Stable sorting -/

section Stable

variable {r s : α → α → Prop} [DecidableRel r]

theorem pairwise_orderedInsert (htotal : ∀ a b, r a b ∨ r b a)
    (htrans : ∀ a b c, r a b → r b c → r a c) {x : α} {xs : List α}
    (h : xs.Pairwise fun a b => r a b ∧ (r b a → s a b)) (hx : ∀ y ∈ xs, s x y) :
    (xs.orderedInsert r x).Pairwise fun a b => r a b ∧ (r b a → s a b) := by
  induction xs with
  | nil => simp
  | cons b bs ih =>
    obtain ⟨hb, hbs⟩ := List.pairwise_cons.mp h
    rw [List.orderedInsert_cons]
    split
    · next hxb =>
      refine List.pairwise_cons.mpr ⟨fun y hy => ?_, h⟩
      rcases List.mem_cons.mp hy with rfl | hin
      · exact ⟨hxb, fun _ => hx y hy⟩
      · exact ⟨htrans x b y hxb (hb y hin).1, fun _ => hx y hy⟩
    · next hxb =>
      refine List.pairwise_cons.mpr
        ⟨fun y hy => ?_, ih hbs fun y hy => hx y (List.mem_cons_of_mem b hy)⟩
      rcases (List.mem_orderedInsert r).mp hy with rfl | hin
      · exact ⟨(htotal y b).resolve_left hxb, fun hno => absurd hno hxb⟩
      · exact hb y hin

/-- **Stability**: what is tied stays in the order it was in. -/
theorem pairwise_insertionSort (htotal : ∀ a b, r a b ∨ r b a)
    (htrans : ∀ a b c, r a b → r b c → r a c) {xs : List α} (h : xs.Pairwise s) :
    (xs.insertionSort r).Pairwise fun a b => r a b ∧ (r b a → s a b) := by
  induction xs with
  | nil => simp
  | cons x xs ih =>
    obtain ⟨hx, hxs⟩ := List.pairwise_cons.mp h
    rw [List.insertionSort_cons]
    exact pairwise_orderedInsert htotal htrans (ih hxs) fun y hy =>
      hx y ((List.perm_insertionSort r xs).mem_iff.mp hy)

end Stable

/-- In a list in strict order, the first `k` are those with fewer than `k` before them. -/
theorem mem_take_iff {r : α → α → Prop} [DecidableRel r] (hasymm : ∀ a b, r a b → ¬ r b a)
    {xs : List α} (h : xs.Pairwise r) {k : Nat} {x : α} (hx : x ∈ xs) :
    x ∈ xs.take k ↔ xs.countP (r · x) < k := by
  induction xs generalizing k with
  | nil => cases hx
  | cons a xs ih =>
    obtain ⟨ha, hxs⟩ := List.pairwise_cons.mp h
    cases k with
    | zero => simp
    | succ k =>
      rw [List.take_succ_cons, List.mem_cons, List.countP_cons]
      by_cases hxa : x = a
      · subst hxa
        have hnone : xs.countP (r · x) = 0 :=
          List.countP_eq_zero.mpr fun y hy => by simpa using hasymm x y (ha y hy)
        simp [hnone, show ¬ r x x from fun hxx => hasymm x x hxx hxx]
      · have hin : x ∈ xs := (List.mem_cons.mp hx).resolve_left hxa
        simp [hxa, ih hxs hin, ha x hin]

/-! ## Collapsing -/

section Collapse

variable [DecidableEq β] (path : α → List β)

/-- Keeps what is in none of those kept before. -/
def collapse (xs : List α) : List α :=
  xs.foldl (fun kept x => if kept.any fun k => (path k).isPrefixOf (path x) then kept
    else kept ++ [x]) []

theorem collapse_concat (xs : List α) (x : α) :
    collapse path (xs ++ [x]) =
      if (collapse path xs).any fun k => (path k).isPrefixOf (path x) then collapse path xs
      else collapse path xs ++ [x] := by
  unfold collapse
  rw [List.foldl_append]
  rfl

variable {path}

/-- What is in something is in something kept. -/
theorem exists_collapse {xs : List α} {y : α} (hy : y ∈ xs) :
    ∃ k ∈ collapse path xs, path k <+: path y := by
  induction xs using List.reverseRecOn with
  | nil => cases hy
  | append_singleton xs x ih =>
    have hkeeps : ∀ k ∈ collapse path xs, k ∈ collapse path (xs ++ [x]) := by
      intro k hk
      rw [collapse_concat]
      split
      · exact hk
      · exact List.mem_append_left _ hk
    rcases List.mem_append.mp hy with hin | hlast
    · obtain ⟨k, hk, hpre⟩ := ih hin
      exact ⟨k, hkeeps k hk, hpre⟩
    · obtain rfl := List.mem_singleton.mp hlast
      by_cases hany : (collapse path xs).any fun k => (path k).isPrefixOf (path y)
      · obtain ⟨k, hk, hpre⟩ := List.any_eq_true.mp hany
        exact ⟨k, hkeeps k hk, List.isPrefixOf_iff_prefix.mp hpre⟩
      · refine ⟨y, ?_, List.prefix_refl _⟩
        rw [collapse_concat, if_neg hany]
        exact List.mem_append_right _ (List.mem_singleton_self y)

theorem collapse_sublist (xs : List α) : (collapse path xs).Sublist xs := by
  induction xs using List.reverseRecOn with
  | nil => exact List.Sublist.refl _
  | append_singleton xs x ih =>
    rw [collapse_concat]
    split
    · exact ih.trans (List.sublist_append_left xs [x])
    · exact ih.append (List.Sublist.refl _)

/-- **What is kept** is in nothing that comes before it. -/
theorem mem_collapse {s : α → α → Prop} (hasymm : ∀ a b, s a b → ¬ s b a) {xs : List α}
    (h : xs.Pairwise s) {x : α} :
    x ∈ collapse path xs ↔ x ∈ xs ∧ ∀ y ∈ xs, s y x → ¬ path y <+: path x := by
  induction xs using List.reverseRecOn with
  | nil => simp [collapse]
  | append_singleton xs z ih =>
    obtain ⟨hxs, -, hlast⟩ := List.pairwise_append.mp h
    have hbefore : ∀ y ∈ xs, s y z := fun y hy => hlast y hy z (List.mem_singleton_self z)
    have hold : ∀ {y}, y ∈ xs → (y ∈ collapse path (xs ++ [z]) ↔ y ∈ collapse path xs) := by
      intro y hy
      rw [collapse_concat]
      split
      · exact Iff.rfl
      · rw [List.mem_append, List.mem_singleton, or_iff_left]
        rintro rfl
        exact hasymm y y (hbefore y hy) (hbefore y hy)
    by_cases hx : x ∈ xs
    · rw [hold hx, ih hxs]
      simp only [hx, true_and, List.mem_append, List.mem_singleton, true_or]
      constructor
      · rintro hall y (hy | rfl) hyx
        · exact hall y hy hyx
        · exact absurd (hbefore x hx) (hasymm y x hyx)
      · exact fun hall y hy => hall y (Or.inl hy)
    · have hz : x ∈ collapse path (xs ++ [z]) ↔
          x = z ∧ ¬ ∃ y ∈ xs, path y <+: path z := by
        have hnot : x ∉ collapse path xs := fun hin => hx ((collapse_sublist xs).subset hin)
        have hany : ((collapse path xs).any fun k => (path k).isPrefixOf (path z)) = true ↔
            ∃ y ∈ xs, path y <+: path z := by
          simp only [List.any_eq_true, List.isPrefixOf_iff_prefix]
          constructor
          · rintro ⟨k, hk, hpre⟩
            exact ⟨k, (collapse_sublist xs).subset hk, hpre⟩
          · rintro ⟨y, hy, hpre⟩
            obtain ⟨k, hk, hky⟩ := @exists_collapse _ _ _ path xs y hy
            exact ⟨k, hk, hky.trans hpre⟩
        rw [collapse_concat]
        by_cases hin : ∃ y ∈ xs, path y <+: path z
        · rw [if_pos (hany.mpr hin)]
          exact iff_of_false hnot fun hno => hno.2 hin
        · rw [if_neg fun hno => hin (hany.mp hno), List.mem_append, List.mem_singleton]
          simp [hnot, hin]
      rw [hz, List.mem_append, List.mem_singleton, or_iff_right hx]
      constructor
      · rintro ⟨rfl, hnone⟩
        refine ⟨rfl, fun y hy hyx hpre => ?_⟩
        rcases List.mem_append.mp hy with hy | hy
        · exact hnone ⟨y, hy, hpre⟩
        · obtain rfl := List.mem_singleton.mp hy
          exact hasymm y y hyx hyx
      · rintro ⟨rfl, hall⟩
        refine ⟨rfl, ?_⟩
        rintro ⟨y, hy, hpre⟩
        exact hall y (List.mem_append_left _ hy) (hbefore y hy) hpre

end Collapse

/-! ## The shortlist -/

section Order

variable (path : α → List β) (weight : α → Nat)

/-- The order of the collapse: by depth, then by position. -/
def Before (a b : α × Nat) : Prop :=
  (path a.1).length < (path b.1).length ∨
    (path a.1).length = (path b.1).length ∧ a.2 < b.2

instance (a b : α × Nat) : Decidable (Before path a b) := instDecidableOr

/-- The order of the shortlist: by weight, then as before. -/
def Ahead (a b : α × Nat) : Prop :=
  weight b.1 < weight a.1 ∨ weight b.1 = weight a.1 ∧ Before path a b

instance (a b : α × Nat) : Decidable (Ahead path weight a b) := instDecidableOr

variable {path weight}

theorem Before.asymm {a b : α × Nat} (h : Before path a b) : ¬ Before path b a := by
  unfold Before at h ⊢
  omega

theorem Ahead.asymm {a b : α × Nat} (h : Ahead path weight a b) : ¬ Ahead path weight b a := by
  unfold Ahead Before at h ⊢
  omega

theorem pairwise_zipIdx (xs : List α) (n : Nat) :
    (xs.zipIdx n).Pairwise fun a b => a.2 < b.2 := by
  induction xs generalizing n with
  | nil => simp
  | cons x xs ih =>
    rw [List.zipIdx_cons]
    exact List.pairwise_cons.mpr ⟨fun y hy => List.le_snd_of_mem_zipIdx hy, ih (n + 1)⟩

theorem nodup_zipIdx (xs : List α) : xs.zipIdx.Nodup := by
  refine (pairwise_zipIdx xs 0).imp ?_
  rintro a b hlt rfl
  exact Nat.lt_irrefl _ hlt

theorem pairwise_before (xs : List α) :
    (xs.zipIdx.insertionSort fun a b => (path a.1).length ≤ (path b.1).length).Pairwise
      (Before path) := by
  have hstable := pairwise_insertionSort
    (r := fun a b : α × Nat => (path a.1).length ≤ (path b.1).length)
    (fun a b => Nat.le_total _ _) (fun a b c hab hbc => Nat.le_trans hab hbc)
    (pairwise_zipIdx xs 0)
  refine hstable.imp ?_
  rintro a b ⟨hle, htie⟩
  unfold Before
  rcases Nat.lt_or_ge (path a.1).length (path b.1).length with hlt | hge
  · exact Or.inl hlt
  · exact Or.inr ⟨Nat.le_antisymm hle hge, htie hge⟩

end Order

section Shortlist

variable [DecidableEq β] (path : α → List β) (weight : α → Nat) (k : Nat) (xs : List α)

/-- The outermost of them, the heaviest first, `k` at most. -/
def shortlist : List α :=
  ((collapse path (xs.insertionSort fun a b => (path a).length ≤ (path b).length)).insertionSort
    fun a b => weight b ≤ weight a).take k

/-- In none that comes before it. -/
def Outermost (x : α × Nat) : Prop :=
  ∀ y ∈ xs.zipIdx, Before path y x → ¬ path y.1 <+: path x.1

instance (x : α × Nat) : Decidable (Outermost path xs x) :=
  inferInstanceAs (Decidable (∀ y ∈ xs.zipIdx, Before path y x → ¬ path y.1 <+: path x.1))

/-- An element, with its position, that is outermost and has fewer than `k` outermost ones ahead. -/
def Listed (x : α × Nat) : Prop :=
  x ∈ xs.zipIdx ∧ Outermost path xs x ∧
    (xs.zipIdx.filter (Outermost path xs ·)).countP (Ahead path weight · x) < k

/-- The shortlist with positions. -/
def placed : List (α × Nat) :=
  ((collapse (fun x : α × Nat => path x.1)
    (xs.zipIdx.insertionSort fun a b => (path a.1).length ≤ (path b.1).length)).insertionSort
      fun a b => weight b.1 ≤ weight a.1).take k

variable {path weight k xs}

theorem map_collapse {γ : Type*} (f : γ → α) (ys : List γ) :
    (collapse (fun y => path (f y)) ys).map f = collapse path (ys.map f) := by
  induction ys using List.reverseRecOn with
  | nil => rfl
  | append_singleton ys y ih =>
    rw [collapse_concat, List.map_append, List.map_singleton, collapse_concat, ← ih, List.any_map]
    simp only [Function.comp_def]
    split
    · rfl
    · rw [List.map_append, List.map_singleton]

/-- Positions or not, the same elements are taken. -/
theorem map_placed : (placed path weight k xs).map Prod.fst = shortlist path weight k xs := by
  unfold placed shortlist
  rw [List.map_take, List.map_insertionSort _ (fun a b : α => weight b ≤ weight a) _ _
    fun _ _ _ _ => Iff.rfl, map_collapse, List.map_insertionSort _
    (fun a b : α => (path a).length ≤ (path b).length) _ _ fun _ _ _ _ => Iff.rfl,
    List.zipIdx_map_fst]

theorem mem_collapsed {x : α × Nat} :
    x ∈ collapse (fun x : α × Nat => path x.1)
        (xs.zipIdx.insertionSort fun a b => (path a.1).length ≤ (path b.1).length) ↔
      x ∈ xs.zipIdx ∧ Outermost path xs x := by
  unfold Outermost
  rw [mem_collapse (fun a b => Before.asymm) (pairwise_before xs)]
  simp only [List.mem_insertionSort]

theorem pairwise_ahead :
    ((collapse (fun x : α × Nat => path x.1)
      (xs.zipIdx.insertionSort fun a b => (path a.1).length ≤ (path b.1).length)).insertionSort
        fun a b => weight b.1 ≤ weight a.1).Pairwise (Ahead path weight) := by
  have hstable := pairwise_insertionSort (r := fun a b : α × Nat => weight b.1 ≤ weight a.1)
    (fun a b => Nat.le_total _ _) (fun a b c hab hbc => Nat.le_trans hbc hab)
    ((@pairwise_before _ _ path xs).sublist
      (@collapse_sublist _ _ _ (fun x : α × Nat => path x.1) _))
  refine hstable.imp ?_
  rintro a b ⟨hle, htie⟩
  rcases Nat.lt_or_ge (weight b.1) (weight a.1) with hlt | hge
  · exact Or.inl hlt
  · exact Or.inr ⟨Nat.le_antisymm hle hge, htie hge⟩

/-- **What is on the shortlist.** -/
theorem mem_placed {x : α × Nat} : x ∈ placed path weight k xs ↔ Listed path weight k xs x := by
  unfold placed Listed
  have hsorted := @pairwise_ahead _ _ _ path weight xs
  set all := collapse (fun x : α × Nat => path x.1)
    (xs.zipIdx.insertionSort fun a b => (path a.1).length ≤ (path b.1).length) with hall
  have hperm := List.perm_insertionSort (fun a b : α × Nat => weight b.1 ≤ weight a.1) all
  have hmem : ∀ y, y ∈ all ↔ y ∈ xs.zipIdx ∧ Outermost path xs y := fun y => mem_collapsed
  have hcount : (all.insertionSort fun a b => weight b.1 ≤ weight a.1).countP
      (Ahead path weight · x) =
        (xs.zipIdx.filter (Outermost path xs ·)).countP (Ahead path weight · x) := by
    have hnodup : all.Nodup := ((List.perm_insertionSort _ _).nodup_iff.mpr
      (nodup_zipIdx xs)).sublist (collapse_sublist _)
    refine (hperm.trans ?_).countP_eq _
    refine (List.perm_ext_iff_of_nodup hnodup ((nodup_zipIdx xs).filter _)).mpr fun y => ?_
    rw [hmem, List.mem_filter, decide_eq_true_eq]
  by_cases hx : x ∈ all
  · rw [mem_take_iff (fun a b => Ahead.asymm) hsorted (hperm.mem_iff.mpr hx), hcount,
      ← and_assoc, ← hmem, and_iff_right hx]
  · refine iff_of_false (fun hin => hx (hperm.mem_iff.mp (List.mem_of_mem_take hin))) ?_
    exact fun hlisted => hx ((hmem x).mpr ⟨hlisted.1, hlisted.2.1⟩)

/-- **Nothing listed is in something else that is listed.** -/
theorem Listed.apart {x y : α × Nat} (hx : Listed path weight k xs x)
    (hy : Listed path weight k xs y) (hne : x ≠ y) : ¬ path x.1 <+: path y.1 := by
  intro hp
  rcases Nat.lt_or_ge (path x.1).length (path y.1).length with hlt | hge
  · exact hy.2.1 x hx.1 (Or.inl hlt) hp
  · have hsame : path x.1 = path y.1 := hp.eq_of_length (Nat.le_antisymm hp.length_le hge)
    rcases Nat.lt_trichotomy x.2 y.2 with hlt | heq | hgt
    · exact hy.2.1 x hx.1 (Or.inr ⟨by rw [hsame], hlt⟩) hp
    · have hfst := List.mem_zipIdx_iff_getElem?.mp hx.1
      rw [heq, List.mem_zipIdx_iff_getElem?.mp hy.1] at hfst
      exact hne (Prod.ext (Option.some.inj hfst).symm heq)
    · exact hx.2.1 y hy.1 (Or.inr ⟨by rw [hsame], hgt⟩) (by rw [hsame])

theorem mem_shortlist {a : α} : a ∈ shortlist path weight k xs ↔
    ∃ n, Listed path weight k xs (a, n) := by
  rw [← map_placed, List.mem_map]
  constructor
  · rintro ⟨⟨a, n⟩, hin, rfl⟩
    exact ⟨n, mem_placed.mp hin⟩
  · rintro ⟨n, hlisted⟩
    exact ⟨(a, n), mem_placed.mpr hlisted, rfl⟩

/-- Two on the shortlist are two positions. -/
theorem pairwise_shortlist {p : α → α → Prop} (hsymm : ∀ a b, p a b → p b a) :
    (shortlist path weight k xs).Pairwise p ↔
      ∀ x y, Listed path weight k xs x → Listed path weight k xs y → x ≠ y → p x.1 y.1 := by
  have hnodup : (placed path weight k xs).Nodup := by
    refine (pairwise_ahead.imp ?_).sublist (List.take_sublist k _)
    rintro a b hab rfl
    exact hab.asymm hab
  rw [← map_placed, List.pairwise_map]
  constructor
  · intro hall x y hx hy hne
    have hsymm' : Std.Symm fun x y : α × Nat => p x.1 y.1 := ⟨fun x y => hsymm x.1 y.1⟩
    exact hall.forall (mem_placed.mpr hx) (mem_placed.mpr hy) hne
  · intro hall
    refine hnodup.pairwise_of_forall_ne fun x hx y hy hne => ?_
    exact hall x y (mem_placed.mp hx) (mem_placed.mp hy) hne

end Shortlist

end Nesting
