import Mathlib.Algebra.Field.ZMod
import Mathlib.RingTheory.AdjoinRoot

/-!
# Remainders from a shift register

The bits of a word are the coefficients of a polynomial over the field of two elements. A register
that is shifted left, and loses a one at its top for the low part of a generator, is multiplied by
`X` modulo the generator (`residue_shift`). Fed with the symbols of a message it holds the remainder
of the message, multiplied by as many `X` as it has bits (`toPoly_register`).
-/

namespace ShiftRegister

open Polynomial

variable {w k : Nat}

/-- The bits of a word as coefficients. -/
noncomputable def toPoly (v : BitVec w) : (ZMod 2)[X] :=
  ∑ i ∈ Finset.range w, if v.getLsbD i then X ^ i else 0

/-- The first coefficients as a word. -/
noncomputable def ofPoly (w : Nat) (p : (ZMod 2)[X]) : BitVec w :=
  BitVec.ofNat w (Nat.ofBits fun i : Fin w => decide (p.coeff i = 1))

/-- `X ^ w` and the low part. -/
noncomputable def generator (low : BitVec w) : (ZMod 2)[X] := X ^ w + toPoly low

/-- One step of the register. -/
def shift (low v : BitVec w) : BitVec w :=
  if v.msb then (v <<< 1) ^^^ low else v <<< 1

/-- A symbol comes in at the top. -/
def feed (low : BitVec w) (v : BitVec w) (symbol : BitVec k) : BitVec w :=
  (shift low)^[k] (v ^^^ (symbol.setWidth w <<< (w - k)))

/-- The symbols one behind the other, the first in front. -/
noncomputable def message (symbols : List (BitVec k)) : (ZMod 2)[X] :=
  symbols.foldl (fun p symbol => p * X ^ k + toPoly symbol) 0

/-! ## Words as polynomials -/

@[simp] theorem coeff_toPoly (v : BitVec w) (i : Nat) :
    (toPoly v).coeff i = if v.getLsbD i then 1 else 0 := by
  rw [toPoly, finsetSum_coeff]
  by_cases hi : i < w
  · rw [Finset.sum_eq_single_of_mem i (Finset.mem_range.mpr hi)]
    · split <;> simp
    · intro j _ hj
      split <;> simp [coeff_X_pow, Ne.symm hj]
  · rw [BitVec.getLsbD_of_ge v i (Nat.le_of_not_lt hi), if_neg Bool.false_ne_true]
    refine Finset.sum_eq_zero fun j hj => ?_
    have hne : i ≠ j := fun h => hi (h ▸ Finset.mem_range.mp hj)
    split <;> simp [coeff_X_pow, hne]

theorem degree_toPoly_lt (v : BitVec w) : (toPoly v).degree < w := by
  rw [degree_lt_iff_coeff_zero]
  intro i hi
  rw [coeff_toPoly, BitVec.getLsbD_of_ge v i hi, if_neg Bool.false_ne_true]

@[simp] theorem ofPoly_toPoly (v : BitVec w) : ofPoly w (toPoly v) = v := by
  ext i hi
  rw [← BitVec.getLsbD_eq_getElem, ← BitVec.getLsbD_eq_getElem, ofPoly, BitVec.getLsbD_ofNat,
    Nat.testBit_ofBits_lt _ i hi, decide_eq_true hi, coeff_toPoly]
  cases v.getLsbD i <;> decide

@[simp] theorem toPoly_zero : toPoly (0 : BitVec w) = 0 := by
  ext i
  simp

@[simp] theorem toPoly_xor (u v : BitVec w) : toPoly (u ^^^ v) = toPoly u + toPoly v := by
  ext i
  rw [coeff_add, coeff_toPoly, coeff_toPoly, coeff_toPoly, BitVec.getLsbD_xor]
  cases u.getLsbD i <;> cases v.getLsbD i <;> decide

/-- What is shifted out is `X ^ w`. -/
theorem X_mul_toPoly (v : BitVec w) :
    X * toPoly v = toPoly (v <<< 1) + if v.msb then X ^ w else 0 := by
  have hout : ∀ i, (if v.msb then (X : (ZMod 2)[X]) ^ w else 0).coeff i =
      if i = w ∧ v.msb = true then 1 else 0 := by
    intro i
    cases v.msb <;> simp [coeff_X_pow]
  ext i
  rw [coeff_add, coeff_toPoly, BitVec.getLsbD_shiftLeft, hout, BitVec.msb_eq_getLsbD_last]
  cases i with
  | zero =>
    rw [coeff_X_mul_zero]
    cases w with
    | zero => simp [BitVec.getLsbD_of_ge]
    | succ w => simp
  | succ i =>
    rw [coeff_X_mul, coeff_toPoly, Nat.add_sub_cancel]
    rcases Nat.lt_trichotomy (i + 1) w with hi | rfl | hi
    · simp [hi, Nat.ne_of_lt hi]
    · simp
    · have hlost : v.getLsbD i = false := BitVec.getLsbD_of_ge v i (Nat.le_of_lt_succ hi)
      simp [hlost, Nat.ne_of_gt hi]

/-- A word moved to the top of a register. -/
theorem toPoly_top (hk : k ≤ w) (symbol : BitVec k) :
    toPoly (symbol.setWidth w <<< (w - k)) = X ^ (w - k) * toPoly symbol := by
  ext i
  rw [coeff_toPoly, BitVec.getLsbD_shiftLeft, BitVec.getLsbD_setWidth, coeff_X_pow_mul',
    coeff_toPoly]
  by_cases hi : w - k ≤ i
  · rw [if_pos hi]
    by_cases hlast : i < w
    · have hrest : i - (w - k) < w := Nat.lt_of_le_of_lt (Nat.sub_le _ _) hlast
      simp [hi, hlast, hrest]
    · rw [BitVec.getLsbD_of_ge symbol (i - (w - k)) (by omega)]
      simp
  · rw [if_neg hi]
    simp [Nat.lt_of_not_le hi]

/-! ## The register -/

section Register

variable (low : BitVec w)

theorem monic_generator : (generator low).Monic := monic_X_pow_add (degree_toPoly_lt low)

theorem degree_generator : (generator low).degree = w := by
  rw [generator, add_comm, degree_add_eq_right_of_degree_lt] <;>
    rw [degree_X_pow]
  exact degree_toPoly_lt low

/-- The generator written out. -/
theorem toPoly_cons_true : toPoly (BitVec.cons true low) = generator low := by
  ext i
  rw [generator, coeff_add, coeff_toPoly, coeff_toPoly, coeff_X_pow, BitVec.getLsbD_cons]
  by_cases hi : i = w
  · rw [hi, BitVec.getLsbD_of_ge low w (Nat.le_refl w)]
    simp
  · simp [hi]

/-- Modulo the generator. -/
noncomputable def residue : (ZMod 2)[X] →+* AdjoinRoot (generator low) :=
  AdjoinRoot.mk (generator low)

theorem residue_generator : residue low (X ^ w) = residue low (toPoly low) := by
  rw [residue, AdjoinRoot.mk_eq_mk, sub_eq_add_neg, CharTwo.neg_eq]
  exact dvd_refl _

/-- **A step multiplies by `X`.** -/
theorem residue_shift (v : BitVec w) :
    residue low (toPoly (shift low v)) = residue low (X * toPoly v) := by
  rw [X_mul_toPoly, shift]
  split
  · rw [toPoly_xor, map_add, map_add, residue_generator]
  · rw [add_zero]

theorem residue_shifts (v : BitVec w) (n : Nat) :
    residue low (toPoly ((shift low)^[n] v)) = residue low (X ^ n * toPoly v) := by
  induction n with
  | zero => rw [pow_zero, one_mul, Function.iterate_zero_apply]
  | succ n ih =>
    rw [Function.iterate_succ_apply', residue_shift, map_mul, ih, ← map_mul, pow_succ', mul_assoc]

theorem residue_feed (hk : k ≤ w) (v : BitVec w) (symbol : BitVec k) :
    residue low (toPoly (feed low v symbol)) =
      residue low (X ^ k * toPoly v + X ^ w * toPoly symbol) := by
  rw [feed, residue_shifts, toPoly_xor, toPoly_top hk, mul_add, ← mul_assoc, ← pow_add,
    Nat.add_sub_cancel' hk]

/-- The invariant of the loop over the message. -/
theorem residue_foldl (hk : k ≤ w) (symbols : List (BitVec k)) (v : BitVec w)
    (p : (ZMod 2)[X]) (h : residue low (toPoly v) = residue low (p * X ^ w)) :
    residue low (toPoly (symbols.foldl (feed low) v)) = residue low
      (symbols.foldl (fun p symbol => p * X ^ k + toPoly symbol) p * X ^ w) := by
  induction symbols generalizing v p with
  | nil => exact h
  | cons symbol symbols ih =>
    refine ih _ _ ?_
    have hstep : (p * X ^ k + toPoly symbol) * X ^ w =
        X ^ k * (p * X ^ w) + X ^ w * toPoly symbol := by ring
    rw [residue_feed low hk, hstep, map_add, map_add, map_mul, map_mul _ _ (p * X ^ w), h]

/-- **What the register holds** is the remainder. -/
theorem toPoly_register (hk : k ≤ w) (symbols : List (BitVec k)) :
    toPoly (symbols.foldl (feed low) 0) = (message symbols * X ^ w) %ₘ generator low := by
  have hloop := residue_foldl low hk symbols 0 0 (by rw [toPoly_zero, zero_mul])
  rw [residue, AdjoinRoot.mk_eq_mk] at hloop
  have hsmall := (modByMonic_eq_self_iff (monic_generator low)).mpr
    ((degree_toPoly_lt (symbols.foldl (feed low) 0)).trans_eq (degree_generator low).symm)
  rw [← hsmall, message]
  exact modByMonic_eq_of_dvd_sub (monic_generator low) hloop

end Register

end ShiftRegister
