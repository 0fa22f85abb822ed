import Mathlib.Algebra.Order.Floor.Div
import Mathlib.Data.Finset.Card
import Mathlib.Data.List.Perm.Subperm
import Mathlib.Data.List.Nodup
import Mathlib.Data.Nat.Find

/-!
# Evenly spaced selections

Thinning a list to `k` survivors spread over its whole range: the survivor `i` of `k` sits at
index `i * (length - 1) / (k - 1)`. Both ends survive (`head_mem_pick`, `getLast_mem_pick`)
and never more than `k` elements do, so a longer list without duplicates loses at least one
(`exists_not_mem_pick`). Integer division makes the indices collide when the list is short
and jump when it is long: a collision never loses a survivor (`card_toFinset_pick`) and a
jump is never longer than the exact step rounded up (`gap_le`).
-/

namespace Spread

variable {α : Type*}

def index (len k i : Nat) : Nat := i * (len - 1) / (k - 1)

/-- The survivors, in the order of their indices. -/
def pick (xs : List α) (k : Nat) : List α :=
  (List.range k).filterMap fun i => xs[index xs.length k i]?

/-- Every index is in range: the last one is `length - 1`. -/
theorem index_lt {len k i : Nat} (hi : i < k) (hlen : 0 < len) : index len k i < len := by
  have hle : index len k i ≤ len - 1 := by
    apply Nat.div_le_of_le_mul
    exact Nat.mul_le_mul_right _ (by omega)
  omega

theorem index_last {len k : Nat} (hk : 2 ≤ k) : index len k (k - 1) = len - 1 :=
  Nat.mul_div_cancel_left _ (by omega)

/-- A list of at least `k` elements: the step is at least one whole index. -/
theorem index_lt_succ {len k : Nat} (hk : 2 ≤ k) (hlen : k ≤ len) (i : Nat) :
    index len k i < index len k (i + 1) := by
  have hpos : 0 < k - 1 := by omega
  have hstep : i * (len - 1) + (k - 1) ≤ (i + 1) * (len - 1) := by
    rw [Nat.succ_mul]
    omega
  have hdiv := Nat.div_le_div_right (c := k - 1) hstep
  rw [Nat.add_div_right _ hpos] at hdiv
  exact hdiv

theorem index_injective {len k : Nat} (hk : 2 ≤ k) (hlen : k ≤ len) :
    Function.Injective (index len k) :=
  (strictMono_nat_of_lt_succ (index_lt_succ hk hlen)).injective

/-- One step of the index: the exact step rounded up, at most. -/
theorem index_succ_le {k : Nat} (len : Nat) (hk : 2 ≤ k) (i : Nat) :
    index len k (i + 1) ≤ index len k i + (len - 1) ⌈/⌉ (k - 1) := by
  have hpos : 0 < k - 1 := by omega
  have hceil : len - 1 ≤ (k - 1) * ((len - 1) ⌈/⌉ (k - 1)) :=
    (ceilDiv_le_iff_le_mul hpos).mp (Nat.le_refl _)
  calc index len k (i + 1)
      = (i * (len - 1) + (len - 1)) / (k - 1) := by rw [index, Nat.succ_mul]
    _ ≤ (i * (len - 1) + (k - 1) * ((len - 1) ⌈/⌉ (k - 1))) / (k - 1) :=
        Nat.div_le_div_right (Nat.add_le_add_left hceil _)
    _ = index len k i + (len - 1) ⌈/⌉ (k - 1) := Nat.add_mul_div_left _ _ hpos

/-- The last survivor at or before a position, and the next one, which is past it. -/
theorem exists_index_le {k : Nat} (len : Nat) (hk : 0 < k) (a : Nat) :
    ∃ i < k, index len k i ≤ a ∧ (i + 1 < k → a < index len k (i + 1)) := by
  have hfirst : index len k 0 ≤ a := by simp [index]
  refine ⟨Nat.findGreatest (fun i => index len k i ≤ a) (k - 1), ?_, ?_, ?_⟩
  · have := Nat.findGreatest_le (P := fun i => index len k i ≤ a) (k - 1)
    omega
  · exact Nat.findGreatest_spec (P := fun i => index len k i ≤ a) (Nat.zero_le _) hfirst
  · intro hnext
    by_contra hle
    have := Nat.le_findGreatest (P := fun i => index len k i ≤ a) (n := k - 1) (by omega)
      (Nat.le_of_not_lt hle)
    omega

/-- **The gap law**: two positions with no survivor strictly between them are no further
apart than the exact step rounded up. -/
theorem gap_le {len k a b : Nat} (hk : 2 ≤ k) (hab : a < b) (hb : b < len)
    (hnone : ∀ i < k, index len k i ≤ a ∨ b ≤ index len k i) :
    b - a ≤ (len - 1) ⌈/⌉ (k - 1) := by
  obtain ⟨i, hi, hle, hnext⟩ := exists_index_le len (by omega : 0 < k) a
  have hi1 : i + 1 < k := by
    by_contra hlast
    have heq : i = k - 1 := by omega
    rw [heq, index_last hk] at hle
    omega
  have hpast := hnext hi1
  have hstep := index_succ_le len hk i
  have hnot := hnone (i + 1) hi1
  omega

/-- A list of at most `k` elements: the step is at most one index, so none is skipped. -/
theorem exists_index_eq {len k j : Nat} (hk : 2 ≤ k) (hlen : len ≤ k) (hj : j < len) :
    ∃ i < k, index len k i = j := by
  obtain ⟨i, hi, hle, hnext⟩ := exists_index_le len (by omega : 0 < k) j
  refine ⟨i, hi, ?_⟩
  by_cases hi1 : i + 1 < k
  · have hstep := index_succ_le len hk i
    have hone : (len - 1) ⌈/⌉ (k - 1) ≤ 1 := by
      refine (ceilDiv_le_iff_le_mul (by omega)).mpr ?_
      omega
    have := hnext hi1
    omega
  · have heq : i = k - 1 := by omega
    rw [heq, index_last hk] at hle ⊢
    omega

theorem mem_pick {xs : List α} {k : Nat} {x : α} :
    x ∈ pick xs k ↔ ∃ i < k, xs[index xs.length k i]? = some x := by
  simp [pick]

theorem pick_subset {xs : List α} {k : Nat} : pick xs k ⊆ xs := by
  intro x hx
  obtain ⟨i, -, hi⟩ := mem_pick.mp hx
  exact List.mem_of_getElem? hi

/-- No lookup is out of range, so no survivor is dropped. -/
theorem length_pick {xs : List α} (hxs : xs ≠ []) (k : Nat) : (pick xs k).length = k := by
  have hpos : 0 < xs.length := List.length_pos_of_ne_nil hxs
  have hsome : ∀ i ∈ List.range k, (xs[index xs.length k i]?).isSome := by
    intro i hi
    have hlt := index_lt (List.mem_range.mp hi) hpos
    simp [hlt]
  rw [pick, List.length_filterMap_eq_countP, List.countP_eq_length.mpr hsome, List.length_range]

theorem head_mem_pick {x : α} {xs : List α} {k : Nat} (hk : 0 < k) : x ∈ pick (x :: xs) k := by
  refine mem_pick.mpr ⟨0, hk, ?_⟩
  simp [index]

theorem getLast_mem_pick {xs : List α} {k : Nat} (hk : 2 ≤ k) {x : α}
    (hx : xs.getLast? = some x) : x ∈ pick xs k := by
  refine mem_pick.mpr ⟨k - 1, by omega, ?_⟩
  rw [index_last hk, ← List.getLast?_eq_getElem?, hx]

/-- A list of at most `k` elements keeps all of them. -/
theorem subset_pick {xs : List α} {k : Nat} (hk : 2 ≤ k) (hlen : xs.length ≤ k) :
    xs ⊆ pick xs k := by
  intro x hx
  obtain ⟨j, hj, hxj⟩ := List.getElem_of_mem hx
  obtain ⟨i, hi, heq⟩ := exists_index_eq hk hlen hj
  refine mem_pick.mpr ⟨i, hi, ?_⟩
  rw [heq, List.getElem?_eq_getElem hj, hxj]

/-- A list of at least `k` elements: no two survivors share an index. -/
theorem nodup_pick {xs : List α} {k : Nat} (hxs : xs.Nodup) (hk : 2 ≤ k)
    (hlen : k ≤ xs.length) : (pick xs k).Nodup := by
  refine List.Nodup.filterMap ?_ List.nodup_range
  intro i j x hi hj
  have hlt : index xs.length k i < xs.length := (List.getElem?_eq_some_iff.mp hi).1
  exact index_injective hk hlen ((List.getElem?_inj hlt hxs).mp (hi.trans hj.symm))

/-- **The count**: as many survivors as asked for, or the whole list when it is shorter. -/
theorem card_toFinset_pick [DecidableEq α] {xs : List α} {k : Nat} (hxs : xs.Nodup)
    (hk : 2 ≤ k) : (pick xs k).toFinset.card = min xs.length k := by
  rcases Nat.le_total k xs.length with hle | hle
  · have hne : xs ≠ [] := List.ne_nil_of_length_pos (by omega)
    rw [List.toFinset_card_of_nodup (nodup_pick hxs hk hle), length_pick hne]
    omega
  · have heq : (pick xs k).toFinset = xs.toFinset := by
      ext x
      simp only [List.mem_toFinset]
      exact ⟨fun h => pick_subset h, fun h => subset_pick hk hle h⟩
    rw [heq, List.toFinset_card_of_nodup hxs]
    omega

/-- **Pigeonhole**: a longer list without duplicates has an element that does not survive. -/
theorem exists_not_mem_pick [DecidableEq α] {xs : List α} {k : Nat} (hnodup : xs.Nodup)
    (hk : k < xs.length) : ∃ x ∈ xs, x ∉ pick xs k := by
  by_contra hnone
  have hsub : xs ⊆ pick xs k := by
    intro x hx
    by_contra hx'
    exact hnone ⟨x, hx, hx'⟩
  have hlen := (hnodup.subperm hsub).length_le
  have hne : xs ≠ [] := by
    intro hnil
    simp [hnil] at hk
  rw [length_pick hne] at hlen
  omega

end Spread
