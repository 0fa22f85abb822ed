import Mathlib.Algebra.Order.Field.Basic
import Mathlib.Data.List.Sort
import Mathlib.Data.List.GetD
import Mathlib.Tactic.Linarith
import Mathlib.Tactic.Ring

/-!
# Medians and pairs

The median of a list, and when it is the lower bound of the list: exactly if the elements above
the bound are a minority (`median_le_iff`); it leaves half of the list on either side
(`median_halves`). `pairs` lists the pairs of a list, as the Theil-Sen
slope of a series needs them.
-/

namespace Median

variable {α : Type*}

/-! ## Pairs -/

/-- All pairs of elements, the earlier one first. -/
def pairs : List α → List (α × α)
  | [] => []
  | a :: rest => rest.map (Prod.mk a) ++ pairs rest

theorem two_mul_length_pairs (xs : List α) :
    2 * (pairs xs).length = xs.length * (xs.length - 1) := by
  induction xs with
  | nil => rfl
  | cons a rest ih =>
    rw [pairs, List.length_append, List.length_map, Nat.mul_add, ih, List.length_cons,
      Nat.add_sub_cancel]
    cases rest.length with
    | zero => rfl
    | succ n =>
      rw [Nat.add_sub_cancel]
      ring

theorem mem_pairs {xs : List α} {R : α → α → Prop} (h : xs.Pairwise R) :
    ∀ p ∈ pairs xs, p.1 ∈ xs ∧ p.2 ∈ xs ∧ R p.1 p.2 := by
  induction xs with
  | nil => exact fun p hp => by cases hp
  | cons a rest ih =>
    rw [List.pairwise_cons] at h
    intro p hp
    rcases List.mem_append.1 hp with hp | hp
    · obtain ⟨b, hb, rfl⟩ := List.mem_map.1 hp
      exact ⟨List.mem_cons_self, List.mem_cons_of_mem a hb, h.1 b hb⟩
    · obtain ⟨h1, h2, hR⟩ := ih h.2 p hp
      exact ⟨List.mem_cons_of_mem a h1, List.mem_cons_of_mem a h2, hR⟩

theorem countP_pairs_eq_zero {q : α × α → Bool} {xs : List α}
    (h : ∀ a ∈ xs, ∀ b ∈ xs, q (a, b) = false) : (pairs xs).countP q = 0 := by
  rw [List.countP_eq_zero]
  intro p hp
  obtain ⟨h1, h2, -⟩ := mem_pairs (List.pairwise_of_forall fun _ _ => trivial) p hp
  rw [h p.1 h1 p.2 h2]
  exact Bool.false_ne_true

/-- A property of the pairs that straddle a cut, and of no others. -/
theorem countP_pairs_append {q : α × α → Bool} {xs ys : List α}
    (hxs : ∀ a ∈ xs, ∀ b ∈ xs, q (a, b) = false) (hys : ∀ a ∈ ys, ∀ b ∈ ys, q (a, b) = false)
    (hcross : ∀ a ∈ xs, ∀ b ∈ ys, q (a, b) = true) :
    (pairs (xs ++ ys)).countP q = xs.length * ys.length := by
  induction xs with
  | nil =>
    rw [List.nil_append, countP_pairs_eq_zero hys, List.length_nil, Nat.zero_mul]
  | cons a rest ih =>
    have hown : (rest.map (Prod.mk a)).countP q = 0 := by
      rw [List.countP_eq_zero]
      intro p hp
      obtain ⟨b, hb, rfl⟩ := List.mem_map.1 hp
      rw [hxs a List.mem_cons_self b (List.mem_cons_of_mem a hb)]
      exact Bool.false_ne_true
    have hother : (ys.map (Prod.mk a)).countP q = ys.length := by
      have hlength : (ys.map (Prod.mk a)).length = ys.length := List.length_map (Prod.mk a)
      rw [← hlength, List.countP_eq_length]
      intro p hp
      obtain ⟨b, hb, rfl⟩ := List.mem_map.1 hp
      exact hcross a List.mem_cons_self b hb
    have hrest := ih (fun b hb c hc => hxs b (List.mem_cons_of_mem a hb) c
      (List.mem_cons_of_mem a hc)) fun b hb => hcross b (List.mem_cons_of_mem a hb)
    rw [List.cons_append, pairs, List.countP_append, List.map_append, List.countP_append, hown,
      hother, hrest, List.length_cons]
    ring

/-! ## Order statistics -/

section Sorted

variable [LinearOrder α]

/-- Sorting sorts. -/
theorem pairwise_mergeSort_le (values : List α) :
    (values.mergeSort fun a b => decide (a ≤ b)).Pairwise (· ≤ ·) :=
  (List.pairwise_mergeSort (fun a b c hab hbc => by
    simp only [decide_eq_true_eq] at *
    exact hab.trans hbc) (fun a b => by simpa using le_total a b) values).imp (by simp)

/-- The `i`-th smallest element has a property the smaller elements share exactly if more than
`i` elements have it. -/
theorem getElem_iff_lt_countP {s : List α} (hs : s.Pairwise (· ≤ ·)) {q : α → Bool}
    (hq : ∀ a b, a ≤ b → q b = true → q a = true) {i : Nat} (hi : i < s.length) :
    q s[i] = true ↔ i < s.countP q := by
  induction s generalizing i with
  | nil => cases hi
  | cons a rest ih =>
    rw [List.pairwise_cons] at hs
    by_cases ha : q a = true
    · rw [List.countP_cons_of_pos ha]
      cases i with
      | zero => exact iff_of_true ha (Nat.succ_pos _)
      | succ i =>
        rw [List.getElem_cons_succ, ih hs.2, Nat.add_lt_add_iff_right]
    · have hrest : ∀ b ∈ a :: rest, ¬ q b = true := by
        intro b hb hqb
        rcases List.mem_cons.1 hb with rfl | hb
        · exact ha hqb
        · exact ha (hq a b (hs.1 b hb) hqb)
      rw [List.countP_eq_zero.2 hrest]
      exact iff_of_false (hrest _ (List.getElem_mem hi)) (Nat.not_lt_zero i)

/-- The `i`-th smallest element is at most `c` exactly if more than `i` elements are. -/
theorem getElem_le_iff {s : List α} (hs : s.Pairwise (· ≤ ·)) {c : α} {i : Nat}
    (hi : i < s.length) : s[i] ≤ c ↔ i < s.countP fun x => decide (x ≤ c) := by
  have hiff := getElem_iff_lt_countP hs (q := fun x => decide (x ≤ c))
    (fun a b hab hb => by
      rw [decide_eq_true_eq] at hb ⊢
      exact hab.trans hb) hi
  rwa [decide_eq_true_eq] at hiff

/-- It is below `c` exactly if more than `i` elements are. -/
theorem getElem_lt_iff {s : List α} (hs : s.Pairwise (· ≤ ·)) {c : α} {i : Nat}
    (hi : i < s.length) : s[i] < c ↔ i < s.countP fun x => decide (x < c) := by
  have hiff := getElem_iff_lt_countP hs (q := fun x => decide (x < c))
    (fun a b hab hb => by
      rw [decide_eq_true_eq] at hb ⊢
      exact lt_of_le_of_lt hab hb) hi
  rwa [decide_eq_true_eq] at hiff

/-- An element in the lower half bounds a half from above, one in the upper half bounds a half
from below. -/
theorem half_le_of_getElem_le {s : List α} (hs : s.Pairwise (· ≤ ·)) {c : α} {i : Nat}
    (hi : i < s.length) (hc : s[i] ≤ c) : i + 1 ≤ s.countP fun x => decide (x ≤ c) :=
  (getElem_le_iff hs hi).1 hc

theorem half_ge_of_le_getElem {s : List α} (hs : s.Pairwise (· ≤ ·)) {c : α} {i : Nat}
    (hi : i < s.length) (hc : c ≤ s[i]) :
    s.length ≤ i + s.countP fun x => decide (c ≤ x) := by
  have hbelow : (s.countP fun x => decide (x < c)) ≤ i := by
    by_contra hmany
    exact not_lt_of_ge hc ((getElem_lt_iff hs hi).2 (Nat.lt_of_not_le hmany))
  have hcount := List.length_eq_countP_add_countP (fun x => decide (x < c)) (l := s)
  have hflip : (s.countP fun x => decide ¬(decide (x < c)) = true) =
      s.countP fun x => decide (c ≤ x) := by
    refine List.countP_congr fun x _ => ?_
    simp
  omega

end Sorted

/-! ## The median -/

variable {K : Type*} [Field K] [LinearOrder K]

/-- The middle of the sorted list, or the mean of the two in the middle. -/
def median (values : List K) : K :=
  let sorted := values.mergeSort fun a b => decide (a ≤ b)
  let mid := sorted.length / 2
  if sorted.length % 2 = 0 then (sorted.getD (mid - 1) 0 + sorted.getD mid 0) / 2
  else sorted.getD mid 0

/-- **The median is the lower bound** of a list exactly if a minority is above the bound. -/
theorem median_le_iff [IsStrictOrderedRing K] {values : List K} {c : K} (hne : values ≠ [])
    (hc : ∀ x ∈ values, c ≤ x) :
    median values ≤ c ↔ 2 * (values.countP fun x => decide (c < x)) < values.length := by
  have hperm := List.mergeSort_perm values fun a b => decide (a ≤ b)
  have hsorted := pairwise_mergeSort_le values
  unfold median
  set s := values.mergeSort fun a b => decide (a ≤ b)
  have hlow : ∀ x ∈ s, c ≤ x := fun x hx => hc x (hperm.mem_iff.1 hx)
  have hpos : 0 < s.length := by
    rw [hperm.length_eq]
    exact List.length_pos_iff.2 hne
  have hcount : (s.countP fun x => decide (x ≤ c)) + (values.countP fun x => decide (c < x)) =
      s.length := by
    rw [← hperm.countP_eq, List.length_eq_countP_add_countP (fun x => decide (x ≤ c))]
    simp
  rw [← hperm.length_eq]
  have hmid : s.length / 2 < s.length := by omega
  have hmiddle := getElem_le_iff hsorted (c := c) hmid
  simp only
  split
  · next heven =>
    have hmid' : s.length / 2 - 1 < s.length := by omega
    have hfirst : c ≤ s[s.length / 2 - 1] := hlow _ (List.getElem_mem hmid')
    have horder : s[s.length / 2 - 1] ≤ s[s.length / 2] :=
      (List.pairwise_iff_getElem.1 hsorted) _ _ hmid' hmid (by omega)
    have hmean : (s[s.length / 2 - 1] + s[s.length / 2]) / 2 ≤ c ↔ s[s.length / 2] ≤ c := by
      constructor
      · intro h
        linarith
      · intro h
        linarith
    rw [List.getD_eq_getElem _ _ hmid', List.getD_eq_getElem _ _ hmid, hmean, hmiddle]
    omega
  · next hodd =>
    rw [List.getD_eq_getElem _ _ hmid, hmiddle]
    omega

/-- **The median halves**: at least half of the list is at or below it, and at least half at
or above. -/
theorem median_halves [IsStrictOrderedRing K] {values : List K} (hne : values ≠ []) :
    values.length ≤ 2 * (values.countP fun x => decide (x ≤ median values)) ∧
      values.length ≤ 2 * (values.countP fun x => decide (median values ≤ x)) := by
  have hperm := List.mergeSort_perm values fun a b => decide (a ≤ b)
  have hsorted := pairwise_mergeSort_le values
  have hpos : 0 < values.length := List.length_pos_iff.2 hne
  rw [← hperm.countP_eq, ← hperm.countP_eq, ← hperm.length_eq] at *
  unfold median
  set s := values.mergeSort fun a b => decide (a ≤ b)
  have hmid : s.length / 2 < s.length := by omega
  simp only
  split
  · next heven =>
    have hmid' : s.length / 2 - 1 < s.length := by omega
    have horder : s[s.length / 2 - 1] ≤ s[s.length / 2] :=
      (List.pairwise_iff_getElem.1 hsorted) _ _ hmid' hmid (by omega)
    rw [List.getD_eq_getElem _ _ hmid', List.getD_eq_getElem _ _ hmid]
    have hlow := half_le_of_getElem_le hsorted hmid'
      (show s[s.length / 2 - 1] ≤ (s[s.length / 2 - 1] + s[s.length / 2]) / 2 by linarith)
    have hhigh := half_ge_of_le_getElem hsorted hmid
      (show (s[s.length / 2 - 1] + s[s.length / 2]) / 2 ≤ s[s.length / 2] by linarith)
    omega
  · next hodd =>
    rw [List.getD_eq_getElem _ _ hmid]
    have hlow := half_le_of_getElem_le hsorted hmid (le_refl _)
    have hhigh := half_ge_of_le_getElem hsorted hmid (le_refl _)
    omega

/-- So it lies between the smallest and the largest. -/
theorem min_le_median [IsStrictOrderedRing K] {values : List K} {lo hi : K}
    (hlo : values.min? = some lo) (hhi : values.max? = some hi) :
    lo ≤ median values ∧ median values ≤ hi := by
  obtain ⟨hmem, hleast⟩ := List.min?_eq_some_iff.1 hlo
  have hgreatest := (List.max?_eq_some_iff.1 hhi).2
  have hne := List.ne_nil_of_mem hmem
  have hpos : 0 < values.length := List.length_pos_iff.2 hne
  have hhalves := median_halves hne
  have hbelow : 0 < values.countP fun x => decide (x ≤ median values) := by omega
  have habove : 0 < values.countP fun x => decide (median values ≤ x) := by omega
  obtain ⟨x, hx, hxle⟩ := List.countP_pos_iff.1 hbelow
  obtain ⟨y, hy, hyge⟩ := List.countP_pos_iff.1 habove
  exact ⟨(hleast x hx).trans (of_decide_eq_true hxle),
    (of_decide_eq_true hyge).trans (hgreatest y hy)⟩

end Median
