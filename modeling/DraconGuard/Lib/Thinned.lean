import Mathlib.Data.List.Pairwise

/-!
# A series of readings and a record that keeps some of them

`lastBy` looks up what a series says as of a time. Of a series that only rises, a record that left
readings out answers with an earlier one (`lastBy_value_le`), and exactly the readings left out
make the difference (`lt_value_iff`).
-/

namespace Thinned

variable {α : Type*} (time value : α → Nat)

/-- The last reading at or before `t`. -/
def lastBy (t : Nat) (xs : List α) : Option α := xs.reverse.find? fun x => time x ≤ t

/-- Readings in the order of their times, with values that do not fall. -/
def Rising (xs : List α) : Prop := xs.Pairwise fun a b => time a < time b ∧ value a ≤ value b

variable {time value} {t : Nat} {xs : List α} {a m : α}

theorem mem_of_lastBy (h : lastBy time t xs = some m) : m ∈ xs :=
  List.mem_reverse.mp (List.mem_of_find?_eq_some h)

theorem time_le_of_lastBy (h : lastBy time t xs = some m) : time m ≤ t := by
  have hm := List.find?_some h
  simpa using hm

/-- A series with a reading that early has a last one. -/
theorem exists_lastBy (ha : a ∈ xs) (hat : time a ≤ t) : ∃ m, lastBy time t xs = some m := by
  have hsome : (lastBy time t xs).isSome := by
    unfold lastBy
    rw [List.find?_isSome]
    exact ⟨a, List.mem_reverse.mpr ha, by simpa using hat⟩
  exact Option.isSome_iff_exists.mp hsome

/-- One more reading at the end. -/
theorem Rising.concat (h : Rising time value xs) (hlast : ∀ x ∈ xs, time x < time a ∧ value x ≤ value a) :
    Rising time value (xs ++ [a]) := by
  refine List.pairwise_append.mpr ⟨h, List.pairwise_singleton _ a, fun x hx b hb => ?_⟩
  obtain rfl := List.mem_singleton.mp hb
  exact hlast x hx

/-- Of two readings the later is no lower. -/
theorem Rising.value_le (h : Rising time value xs) {b : α} (ha : a ∈ xs) (hb : b ∈ xs)
    (hab : time a ≤ time b) : value a ≤ value b := by
  induction xs with
  | nil => cases ha
  | cons x rest ih =>
    obtain ⟨hfirst, hrest⟩ := List.pairwise_cons.mp h
    rcases List.mem_cons.mp ha with rfl | ha'
    · rcases List.mem_cons.mp hb with rfl | hb'
      · exact Nat.le_refl _
      · exact (hfirst b hb').2
    · rcases List.mem_cons.mp hb with rfl | hb'
      · have hlt := (hfirst a ha').1
        omega
      · exact ih hrest ha' hb'

/-- Readings of one time are one reading. -/
theorem Rising.eq_of_time (h : Rising time value xs) {b : α} (ha : a ∈ xs) (hb : b ∈ xs)
    (hab : time a = time b) : a = b := by
  induction xs with
  | nil => cases ha
  | cons x rest ih =>
    obtain ⟨hfirst, hrest⟩ := List.pairwise_cons.mp h
    rcases List.mem_cons.mp ha with rfl | ha'
    · rcases List.mem_cons.mp hb with rfl | hb'
      · rfl
      · have hlt := (hfirst b hb').1
        omega
    · rcases List.mem_cons.mp hb with rfl | hb'
      · have hlt := (hfirst a ha').1
        omega
      · exact ih hrest ha' hb'

/-- **The last reading by a time is the latest of those.** -/
theorem Rising.time_le_lastBy (h : Rising time value xs) (hm : lastBy time t xs = some m)
    (ha : a ∈ xs) (hat : time a ≤ t) : time a ≤ time m := by
  unfold lastBy at hm
  obtain ⟨-, earlier, later, hsplit, hnone⟩ := List.find?_eq_some_iff_append.mp hm
  -- what stands behind `m` is too late
  have hxs : xs = later.reverse ++ m :: earlier.reverse := by
    rw [← xs.reverse_reverse, hsplit]
    simp
  rw [hxs] at ha h
  rcases List.mem_append.mp ha with ha | ha
  · exact Nat.le_of_lt ((List.pairwise_append.mp h).2.2 a ha m List.mem_cons_self).1
  · rcases List.mem_cons.mp ha with rfl | ha
    · exact Nat.le_refl _
    · have hlate := hnone a (List.mem_reverse.mp ha)
      simp only [Bool.not_eq_true', decide_eq_false_iff_not] at hlate
      exact absurd hat hlate

theorem Rising.value_le_lastBy (h : Rising time value xs) (hm : lastBy time t xs = some m)
    (ha : a ∈ xs) (hat : time a ≤ t) : value a ≤ value m :=
  h.value_le ha (mem_of_lastBy hm) (h.time_le_lastBy hm ha hat)

section Record

variable {kept : List α} {p : α}

/-- **A record answers with an earlier reading, and no higher one.** -/
theorem lastBy_value_le (h : Rising time value xs) (hkept : ∀ x ∈ kept, x ∈ xs)
    (hp : lastBy time t kept = some p) (hm : lastBy time t xs = some m) : value p ≤ value m :=
  h.value_le_lastBy hm (hkept p (mem_of_lastBy hp)) (time_le_of_lastBy hp)

/-- **The series is above a bound that the record is not above, exactly by a reading left out.** -/
theorem lt_value_iff (h : Rising time value xs) (hkept : ∀ x ∈ kept, x ∈ xs)
    (hrecord : Rising time value kept) (hp : lastBy time t kept = some p)
    (hm : lastBy time t xs = some m) {bound : Nat} (hbound : value p ≤ bound) :
    bound < value m ↔ ∃ x ∈ xs, x ∉ kept ∧ time p < time x ∧ time x ≤ t ∧ bound < value x := by
  constructor
  · intro hlt
    have hpm := h.time_le_lastBy hm (hkept p (mem_of_lastBy hp)) (time_le_of_lastBy hp)
    have hne : time p ≠ time m := by
      intro hsame
      obtain rfl := h.eq_of_time (hkept p (mem_of_lastBy hp)) (mem_of_lastBy hm) hsame
      omega
    refine ⟨m, mem_of_lastBy hm, fun hin => ?_, by omega, time_le_of_lastBy hm, hlt⟩
    have hle := hrecord.value_le_lastBy hp hin (time_le_of_lastBy hm)
    omega
  · rintro ⟨x, hx, -, -, hxt, hlt⟩
    exact Nat.lt_of_lt_of_le hlt (h.value_le_lastBy hm hx hxt)

end Record

end Thinned
