import Mathlib.Algebra.GroupWithZero.Nat
import Mathlib.Algebra.Order.BigOperators.Group.List

/-!
# Spending an allowance

Candidates come one after the other, each with a cost, and are taken while an allowance lasts
(`select`). A pass that pays for a candidate before it knows whether it may take it
(`selectCharged`) selects the same where no refused candidate is ever paid for (`NoWaste`).
Where the costs ascend, a candidate that did not fit leaves no room for a later one, and
`NoWaste` is a condition on the candidates alone (`noWaste_iff`).
-/

namespace Allowance

variable {α : Type*} (cost : α → Nat)

/-- Whether a total keeps within the bound; `none` bounds nothing. -/
def fits (bound : Option Nat) (total : Nat) : Bool := bound.all (total ≤ ·)

/-- The greedy selection when `spent` has gone already. -/
def select (bound : Option Nat) : Nat → List α → List α
  | _, [] => []
  | spent, x :: xs =>
    if fits bound (spent + cost x) then x :: select bound (spent + cost x) xs
    else select bound spent xs

/-- The same, but what is paid for is taken only where `ok` allows it. -/
def selectCharged (bound : Option Nat) (ok : α → Bool) : Nat → List α → List α
  | _, [] => []
  | spent, x :: xs =>
    if fits bound (spent + cost x) then
      if ok x then x :: selectCharged bound ok (spent + cost x) xs
      else selectCharged bound ok (spent + cost x) xs
    else selectCharged bound ok spent xs

/-- No refused candidate of the pass is paid for. -/
def NoWaste (bound : Nat) (ok : α → Bool) : Nat → List α → Prop
  | _, [] => True
  | spent, x :: xs =>
    (spent + cost x ≤ bound → ok x = false → cost x = 0) ∧
      NoWaste bound ok (if spent + cost x ≤ bound then spent + cost x else spent) xs

def total (xs : List α) : Nat := (xs.map cost).sum

variable {cost} {bound spent : Nat} {ok : α → Bool} {x : α} {xs : List α}

@[simp] theorem fits_some {total : Nat} : fits (some bound) total = decide (total ≤ bound) := rfl

@[simp] theorem fits_none {total : Nat} : fits none total = true := rfl

theorem total_cons : total cost (x :: xs) = cost x + total cost xs := by
  simp [total]

/-- Without a bound everything is selected. -/
theorem select_none (spent : Nat) (xs : List α) : select cost none spent xs = xs := by
  induction xs generalizing spent with
  | nil => rfl
  | cons x xs ih => rw [select, if_pos fits_none, ih]

theorem select_sublist (bound : Option Nat) (spent : Nat) (xs : List α) :
    (select cost bound spent xs).Sublist xs := by
  induction xs generalizing spent with
  | nil => exact List.Sublist.slnil
  | cons x xs ih =>
    rw [select]
    split
    · exact (ih _).cons_cons x
    · exact (ih _).cons x

/-- **Nothing wasted**: paying first selects what paying last does. -/
theorem selectCharged_eq_select (h : NoWaste cost bound ok spent xs) :
    selectCharged cost (some bound) ok spent xs =
      select cost (some bound) spent (xs.filter ok) := by
  induction xs generalizing spent with
  | nil => rfl
  | cons x xs ih =>
    obtain ⟨hx, hxs⟩ := h
    rw [selectCharged, fits_some]
    by_cases hfits : spent + cost x ≤ bound
    · rw [if_pos hfits] at hxs
      rw [if_pos (decide_eq_true hfits)]
      cases hok : ok x with
      | true =>
        rw [if_pos rfl, List.filter_cons_of_pos hok, select, fits_some,
          if_pos (decide_eq_true hfits), ih hxs]
      | false =>
        have hfree := hx hfits hok
        rw [hfree, Nat.add_zero] at hxs
        rw [if_neg Bool.false_ne_true, List.filter_cons_of_neg (by simp [hok]), hfree,
          Nat.add_zero, ih hxs]
    · rw [if_neg hfits] at hxs
      rw [if_neg (by simpa using hfits), ih hxs]
      cases hok : ok x with
      | true =>
        rw [List.filter_cons_of_pos hok, select, fits_some, if_neg (by simpa using hfits)]
      | false => rw [List.filter_cons_of_neg (by simp [hok])]

/-- Where nothing fits any more, nothing is paid for. -/
theorem noWaste_of_full (h : ∀ x ∈ xs, bound < spent + cost x) :
    NoWaste cost bound ok spent xs := by
  induction xs with
  | nil => trivial
  | cons x xs ih =>
    have hx := h x List.mem_cons_self
    refine ⟨fun hfits => by omega, ?_⟩
    rw [if_neg (by omega)]
    exact ih fun y hy => h y (List.mem_cons_of_mem x hy)

/-- A refused candidate is over the bound on top of the allowed ones before it. -/
def RefusedOver (cost : α → Nat) (bound : Nat) (ok : α → Bool) (spent : Nat) (xs : List α) :
    Prop :=
  ∀ before x after, xs = before ++ x :: after → ok x = false → 0 < cost x →
    bound < spent + total cost (before.filter ok) + cost x

theorem RefusedOver.nil : RefusedOver cost bound ok spent [] := by
  intro before x after hxs
  simp at hxs

theorem RefusedOver.tail {y : α} (h : RefusedOver cost bound ok spent (y :: xs)) :
    RefusedOver cost bound ok (if ok y then spent + cost y else spent) xs := by
  intro before x after hxs hok hcost
  have hover := h (y :: before) x after (by rw [hxs, List.cons_append]) hok hcost
  cases hy : ok y with
  | true =>
    rw [List.filter_cons_of_pos hy, total_cons] at hover
    rw [if_pos rfl]
    omega
  | false =>
    rw [List.filter_cons_of_neg (by simp [hy])] at hover
    exact hover

theorem NoWaste.refusedOver (hspent : spent ≤ bound) (h : NoWaste cost bound ok spent xs) :
    RefusedOver cost bound ok spent xs := by
  induction xs generalizing spent with
  | nil => exact RefusedOver.nil
  | cons y ys ih =>
    obtain ⟨hy, hys⟩ := h
    intro before x after hxs hok hcost
    cases before with
    | nil =>
      obtain ⟨rfl, rfl⟩ := List.cons.inj hxs
      by_contra hfits
      simp only [List.filter_nil, total, List.map_nil, List.sum_nil] at hfits
      have := hy (by omega) hok
      omega
    | cons z before =>
      obtain ⟨rfl, rfl⟩ := List.cons.inj hxs
      by_cases hfits : spent + cost y ≤ bound
      · rw [if_pos hfits] at hys
        have hover := ih hfits hys before x after rfl hok hcost
        cases hoky : ok y with
        | true =>
          rw [List.filter_cons_of_pos hoky, total_cons]
          omega
        | false =>
          have hfree := hy hfits hoky
          rw [List.filter_cons_of_neg (by simp [hoky])]
          omega
      · rw [if_neg hfits] at hys
        have hover := ih hspent hys before x after rfl hok hcost
        have hmore : total cost (before.filter ok) ≤ total cost ((y :: before).filter ok) := by
          cases hoky : ok y with
          | true =>
            rw [List.filter_cons_of_pos hoky, total_cons]
            omega
          | false => rw [List.filter_cons_of_neg (by simp [hoky])]
        omega

theorem noWaste_of_refusedOver (hasc : xs.Pairwise fun x y => cost x ≤ cost y)
    (h : RefusedOver cost bound ok spent xs) : NoWaste cost bound ok spent xs := by
  induction xs generalizing spent with
  | nil => trivial
  | cons y ys ih =>
    rw [List.pairwise_cons] at hasc
    have htail := h.tail
    cases hok : ok y with
    | true =>
      rw [hok, if_pos rfl] at htail
      refine ⟨fun _ hno => absurd (hok.symm.trans hno) (by decide), ?_⟩
      by_cases hfits : spent + cost y ≤ bound
      · rw [if_pos hfits]
        exact ih hasc.2 htail
      · -- what comes later costs no less
        rw [if_neg hfits]
        refine noWaste_of_full fun x hx => ?_
        have := hasc.1 x hx
        omega
    | false =>
      rw [hok, if_neg Bool.false_ne_true] at htail
      have hover := h [] y ys rfl hok
      simp only [List.filter_nil, total, List.map_nil, List.sum_nil] at hover
      refine ⟨fun hfits _ => by omega, ?_⟩
      by_cases hfits : spent + cost y ≤ bound
      · have hfree : cost y = 0 := by omega
        rw [if_pos hfits, hfree, Nat.add_zero]
        exact ih hasc.2 htail
      · rw [if_neg hfits]
        exact ih hasc.2 htail

/-- **When nothing is wasted**, for costs that ascend. -/
theorem noWaste_iff (hspent : spent ≤ bound) (hasc : xs.Pairwise fun x y => cost x ≤ cost y) :
    NoWaste cost bound ok spent xs ↔ RefusedOver cost bound ok spent xs :=
  ⟨fun h => h.refusedOver hspent, noWaste_of_refusedOver hasc⟩

end Allowance
