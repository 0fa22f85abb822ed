import Mathlib.Data.List.Basic
import Mathlib.Order.Bounds.Basic
import Mathlib.Order.MinMax
import Mathlib.Data.Set.Basic

/-!
# Edit distance

A word is edited one letter at a time: a letter is inserted, deleted or replaced. `dist` is the
recursion on the first letters of two words; **`dist_isLeast`** says what it computes, the least
number of edits that turn one word into the other. Edits do not care from which end a word is
read, so neither does `dist` (`dist_reverse`): an algorithm may as well compare last letters, as
a table over prefixes does (`dist_concat`).

`nearer` looks for the nearest of a list in one pass, with a bound beyond which nothing is near;
**`foldl_nearer`** says what the pass is left with.
-/

namespace EditDistance

variable {α : Type*} {a b c u v : List α} {x y : α} {m n : Nat}

/-- One edit. -/
inductive Edit : List α → List α → Prop
  | insert (u v : List α) (x : α) : Edit (u ++ v) (u ++ x :: v)
  | delete (u v : List α) (x : α) : Edit (u ++ x :: v) (u ++ v)
  | replace (u v : List α) (x y : α) : Edit (u ++ x :: v) (u ++ y :: v)

/-- `b` is reached from `a` in `n` edits. -/
inductive Edits : Nat → List α → List α → Prop
  | refl (a : List α) : Edits 0 a a
  | tail {n : Nat} {a b c : List α} (edits : Edits n a b) (edit : Edit b c) : Edits (n + 1) a c

/-- The distance by the first letters. -/
def dist [DecidableEq α] : List α → List α → Nat
  | [], b => b.length
  | a, [] => a.length
  | x :: a, y :: b =>
    min (min (dist a (y :: b) + 1) (dist (x :: a) b + 1)) (dist a b + if x = y then 0 else 1)

/-! ## Edits -/

theorem Edit.reverse (h : Edit a b) : Edit a.reverse b.reverse := by
  cases h with
  | insert u v x => simpa using Edit.insert v.reverse u.reverse x
  | delete u v x => simpa using Edit.delete v.reverse u.reverse x
  | replace u v x y => simpa using Edit.replace v.reverse u.reverse x y

theorem Edit.cons (h : Edit a b) (x : α) : Edit (x :: a) (x :: b) := by
  cases h with
  | insert u v y => exact Edit.insert (x :: u) v y
  | delete u v y => exact Edit.delete (x :: u) v y
  | replace u v y z => exact Edit.replace (x :: u) v y z

theorem Edits.reverse (h : Edits n a b) : Edits n a.reverse b.reverse := by
  induction h with
  | refl => exact Edits.refl _
  | tail _ edit ih => exact Edits.tail ih edit.reverse

theorem Edits.cons (h : Edits n a b) (x : α) : Edits n (x :: a) (x :: b) := by
  induction h with
  | refl => exact Edits.refl _
  | tail _ edit ih => exact Edits.tail ih (edit.cons x)

theorem Edits.trans (h : Edits m a b) (h' : Edits n b c) : Edits (m + n) a c := by
  induction h' with
  | refl => exact h
  | tail _ edit ih => exact Edits.tail (ih h) edit

theorem Edit.edits (h : Edit a b) : Edits 1 a b := Edits.tail (Edits.refl a) h

theorem edits_nil_left (b : List α) : Edits b.length [] b := by
  induction b with
  | nil => exact Edits.refl []
  | cons y b ih =>
    rw [List.length_cons, Nat.add_comm]
    exact (Edit.insert [] [] y).edits.trans (ih.cons y)

theorem edits_nil_right (a : List α) : Edits a.length a [] := by
  induction a with
  | nil => exact Edits.refl []
  | cons x a ih =>
    rw [List.length_cons, Nat.add_comm]
    exact (Edit.delete [] a x).edits.trans ih

/-! ## One edit changes the distance by one at most -/

section Dist

variable [DecidableEq α]

@[simp] theorem dist_nil_left (b : List α) : dist [] b = b.length := by rw [dist]

@[simp] theorem dist_nil_right (a : List α) : dist a [] = a.length := by
  cases a <;> simp [dist]

theorem dist_cons (x y : α) (a b : List α) :
    dist (x :: a) (y :: b) =
      min (min (dist a (y :: b) + 1) (dist (x :: a) b + 1))
        (dist a b + if x = y then 0 else 1) := by
  rw [dist]

theorem dist_cons_left_le (x : α) (a b : List α) : dist (x :: a) b ≤ dist a b + 1 := by
  cases b with
  | nil => simp
  | cons y b => rw [dist_cons]; omega

theorem dist_cons_right_le (y : α) (a b : List α) : dist a (y :: b) ≤ dist a b + 1 := by
  cases a with
  | nil => simp
  | cons x a => rw [dist_cons]; omega

theorem dist_le_cons_right (y : α) (a b : List α) : dist a b ≤ dist a (y :: b) + 1 := by
  induction a with
  | nil => simp; omega
  | cons x a ih =>
    have hleft := dist_cons_left_le x a b
    rw [dist_cons]
    split <;> omega

theorem dist_replace_right_le (x y : α) (a b : List α) :
    dist a (y :: b) ≤ dist a (x :: b) + 1 := by
  induction a with
  | nil => simp
  | cons z a ih =>
    have hleft := dist_cons_left_le z a b
    simp only [dist_cons]
    split <;> split <;> omega

/-- What holds of the words behind a letter for every first word holds with the letter. -/
theorem dist_cons_mono (h : ∀ a, dist a b ≤ dist a c + 1) (x : α) (a : List α) :
    dist a (x :: b) ≤ dist a (x :: c) + 1 := by
  induction a with
  | nil =>
    have hnil := h []
    simp at hnil ⊢
    omega
  | cons y a ih =>
    have hcons := h (y :: a)
    have htail := h a
    simp only [dist_cons]
    omega

/-- **One edit changes the distance by one at most.** -/
theorem dist_le_of_edit (h : Edit b c) (a : List α) : dist a c ≤ dist a b + 1 := by
  have lift : ∀ (u b c : List α), (∀ a, dist a c ≤ dist a b + 1) →
      ∀ a, dist a (u ++ c) ≤ dist a (u ++ b) + 1 := by
    intro u b c hle
    induction u with
    | nil => exact hle
    | cons x u ih => exact dist_cons_mono ih x
  cases h with
  | insert u v x => exact lift u _ _ (fun a => dist_cons_right_le x a v) a
  | delete u v x => exact lift u _ _ (fun a => dist_le_cons_right x a v) a
  | replace u v x y => exact lift u _ _ (fun a => dist_replace_right_le x y a v) a

theorem dist_self (a : List α) : dist a a = 0 := by
  induction a with
  | nil => simp
  | cons x a ih => simp [dist_cons, ih]

theorem dist_le_of_edits (h : Edits n a b) : dist a b ≤ n := by
  induction h with
  | refl => exact (dist_self _).le
  | @tail n a b c _ edit ih =>
    have hone := dist_le_of_edit edit a
    omega

/-! ## The distance is reached -/

theorem edits_dist (a b : List α) : Edits (dist a b) a b := by
  induction a, b using dist.induct with
  | case1 b => simpa using edits_nil_left b
  | case2 a _ => simpa using edits_nil_right a
  | case3 x a y b ihDelete ihInsert ihBoth =>
    have hdelete : Edits (dist a (y :: b) + 1) (x :: a) (y :: b) := by
      rw [Nat.add_comm]
      exact (Edit.delete [] a x).edits.trans ihDelete
    have hinsert : Edits (dist (x :: a) b + 1) (x :: a) (y :: b) :=
      Edits.tail ihInsert (Edit.insert [] b y)
    have hboth : Edits (dist a b + if x = y then 0 else 1) (x :: a) (y :: b) := by
      split
      · next heq => subst heq; exact ihBoth.cons x
      · exact Edits.tail (ihBoth.cons x) (Edit.replace [] b x y)
    rw [dist_cons]
    rcases min_choice (min (dist a (y :: b) + 1) (dist (x :: a) b + 1))
      (dist a b + if x = y then 0 else 1) with h | h <;> rw [h]
    · rcases min_choice (dist a (y :: b) + 1) (dist (x :: a) b + 1) with h' | h' <;> rw [h']
      · exact hdelete
      · exact hinsert
    · exact hboth

/-- **The distance is the least number of edits.** -/
theorem dist_isLeast (a b : List α) : IsLeast {n | Edits n a b} (dist a b) :=
  ⟨edits_dist a b, fun _ h => dist_le_of_edits h⟩

/-- The distance does not depend on the end from which the words are read. -/
theorem dist_reverse (a b : List α) : dist a.reverse b.reverse = dist a b := by
  apply Nat.le_antisymm
  · exact dist_le_of_edits (edits_dist a b).reverse
  · have hback := dist_le_of_edits (edits_dist a.reverse b.reverse).reverse
    simpa using hback

/-- The distance by the last letters. -/
theorem dist_concat (x y : α) (a b : List α) :
    dist (a ++ [x]) (b ++ [y]) =
      min (min (dist a (b ++ [y]) + 1) (dist (a ++ [x]) b + 1))
        (dist a b + if x = y then 0 else 1) := by
  have hback (u w : List α) : dist u w = dist u.reverse w.reverse := (dist_reverse u w).symm
  rw [hback (a ++ [x]) (b ++ [y]), hback a (b ++ [y]), hback (a ++ [x]) b, hback a b]
  simp only [List.reverse_append, List.reverse_singleton, List.singleton_append]
  exact dist_cons x y a.reverse b.reverse

end Dist

/-! ## The nearest of a list -/

section Nearest

variable {β : Type*} (d : β → Nat) (bound : Nat)

/-- One more candidate: a nearer one drops what was collected, and one within the bound is
collected if no nearer one was seen. -/
def nearer (acc : Nat × List β) (x : β) : Nat × List β :=
  let kept := if d x < acc.1 then (d x, []) else acc
  if d x = kept.1 ∧ d x ≤ bound then (kept.1, kept.2 ++ [x]) else kept

variable {d bound} {top : Nat} {acc : Nat × List β} {seen : List β}

/-- What is collected after `seen`. -/
structure Nearest (d : β → Nat) (bound top : Nat) (seen : List β) (acc : Nat × List β) : Prop where
  close : acc.2 = seen.filter fun x => d x = acc.1 ∧ d x ≤ bound
  least : ∀ x ∈ seen, acc.1 ≤ d x
  reached : acc.1 = top ∨ ∃ x ∈ seen, d x = acc.1

theorem nearer_eq (acc : Nat × List β) (x : β) :
    nearer d bound acc x =
      let kept := if d x < acc.1 then (d x, []) else acc
      (kept.1, kept.2 ++ [x].filter fun y => d y = kept.1 ∧ d y ≤ bound) := by
  unfold nearer
  by_cases hless : d x < acc.1
  · by_cases hx : d x ≤ bound <;> simp [List.filter, hless, hx]
  · by_cases hx : d x = acc.1 ∧ d x ≤ bound
    · simp [List.filter, hx.1, hx.1 ▸ hx.2]
    · rw [if_neg hless, if_neg hx]
      simp only [List.filter, decide_eq_false hx, List.append_nil]

theorem Nearest.nearer (h : Nearest d bound top seen acc) (x : β) :
    Nearest d bound top (seen ++ [x]) (EditDistance.nearer d bound acc x) := by
  obtain ⟨best, close⟩ := acc
  obtain ⟨hclose, hleast, hreached⟩ := h
  simp only at hclose hleast hreached
  rw [nearer_eq]
  by_cases hless : d x < best
  · have hnone : seen.filter (fun y => d y = d x ∧ d y ≤ bound) = [] := by
      rw [List.filter_eq_nil_iff]
      intro y hy
      have := hleast y hy
      simp only [decide_eq_true_eq]
      omega
    simp only [if_pos hless]
    refine ⟨by rw [List.filter_append, hnone], ?_, Or.inr ⟨x, by simp, rfl⟩⟩
    intro y hy
    rcases List.mem_append.mp hy with hy | hy
    · have := hleast y hy
      simp only
      omega
    · exact (List.mem_singleton.mp hy) ▸ le_rfl
  · simp only [if_neg hless]
    refine ⟨by rw [List.filter_append, hclose], ?_, ?_⟩
    · intro y hy
      rcases List.mem_append.mp hy with hy | hy
      · exact hleast y hy
      · obtain rfl := List.mem_singleton.mp hy
        exact not_lt.mp hless
    · rcases hreached with h | ⟨y, hy, h⟩
      · exact Or.inl h
      · exact Or.inr ⟨y, List.mem_append_left _ hy, h⟩

theorem Nearest.foldl (h : Nearest d bound top seen acc) (xs : List β) :
    Nearest d bound top (seen ++ xs) (xs.foldl (EditDistance.nearer d bound) acc) := by
  induction xs generalizing seen acc with
  | nil => simpa using h
  | cons x xs ih => simpa using ih (h.nearer x)

/-- **One pass collects the nearest**, where they are within the bound. -/
theorem foldl_nearer (htop : bound < top) (xs : List β) :
    (xs.foldl (nearer d bound) (top, [])).2 =
      xs.filter fun x => d x ≤ bound ∧ ∀ y ∈ xs, d x ≤ d y := by
  have hstart : Nearest d bound top [] (top, []) := ⟨rfl, by simp, Or.inl rfl⟩
  obtain ⟨hclose, hleast, hreached⟩ := hstart.foldl xs
  rw [List.nil_append] at hclose hleast hreached
  rw [hclose]
  apply List.filter_congr
  intro x hx
  rw [decide_eq_decide]
  constructor
  · rintro ⟨hbest, hb⟩
    exact ⟨hb, fun y hy => hbest ▸ hleast y hy⟩
  · rintro ⟨hb, hmin⟩
    refine ⟨?_, hb⟩
    have hge := hleast x hx
    rcases hreached with h | ⟨y, hy, h⟩
    · omega
    · have := hmin y hy
      omega

/-- Something is collected if there is anything within the bound. -/
theorem foldl_nearer_ne_nil (htop : bound < top) {xs : List β} {x : β} (hx : x ∈ xs)
    (hb : d x ≤ bound) : (xs.foldl (nearer d bound) (top, [])).2 ≠ [] := by
  have hstart : Nearest d bound top [] (top, []) := ⟨rfl, by simp, Or.inl rfl⟩
  obtain ⟨hclose, hleast, hreached⟩ := hstart.foldl xs
  rw [List.nil_append] at hclose hleast hreached
  have hbest := hleast x hx
  rcases hreached with h | ⟨y, hy, h⟩
  · omega
  · rw [hclose]
    exact List.ne_nil_of_mem (List.mem_filter.mpr ⟨hy, decide_eq_true ⟨h, by omega⟩⟩)

end Nearest

end EditDistance
