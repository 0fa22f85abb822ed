import Mathlib.Algebra.Order.Ring.Rat

/-!
# Floats, as far as comparisons see them

A float is not a number, an infinity or a finite value; the two zeros are one. `max` and `min`
give the operand that is a number where one is not, so `clamp` always ends in the band.
-/

inductive FloatValue where
  | nan
  | negInf
  | finite (value : ℚ)
  | posInf
deriving DecidableEq

namespace FloatValue

def max : FloatValue → FloatValue → FloatValue
  | nan, y => y
  | x, nan => x
  | posInf, _ | _, posInf => posInf
  | negInf, y => y
  | x, negInf => x
  | finite x, finite y => finite (Max.max x y)

def min : FloatValue → FloatValue → FloatValue
  | nan, y => y
  | x, nan => x
  | negInf, _ | _, negInf => negInf
  | posInf, y => y
  | x, posInf => x
  | finite x, finite y => finite (Min.min x y)

/-- `x != y`, true of `nan` and itself. -/
def differs (x y : FloatValue) : Bool := x = nan || y = nan || x ≠ y

def clamp (x : FloatValue) (low high : ℚ) : FloatValue := (x.max (finite low)).min (finite high)

/-- A finite value between two bounds. -/
def InBand (x : FloatValue) (low high : ℚ) : Prop := ∃ q, x = finite q ∧ low ≤ q ∧ q ≤ high

variable {x : FloatValue} {low high : ℚ}

theorem inBand_clamp (x : FloatValue) (h : low ≤ high) : (x.clamp low high).InBand low high := by
  cases x with
  | nan | negInf => exact ⟨Min.min low high, rfl, le_min (le_refl low) h, min_le_right _ _⟩
  | posInf => exact ⟨high, rfl, h, le_refl high⟩
  | finite q =>
    exact ⟨Min.min (Max.max q low) high, rfl, le_min (le_max_right _ _) h, min_le_right _ _⟩

theorem InBand.clamp_eq (h : x.InBand low high) : x.clamp low high = x := by
  obtain ⟨q, rfl, hlow, hhigh⟩ := h
  show finite (Min.min (Max.max q low) high) = finite q
  rw [max_eq_left hlow, min_eq_left hhigh]

theorem InBand.differs_clamp (h : x.InBand low high) : (x.clamp low high).differs x = false := by
  rw [h.clamp_eq]
  obtain ⟨q, rfl, -, -⟩ := h
  simp [differs]

end FloatValue
