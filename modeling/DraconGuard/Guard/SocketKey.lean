import Mathlib.Data.Nat.Digits.Defs
import DraconGuard.Lib.ShiftRegister

/-!
# The lock key of a tmux socket

| here | there |
|---|---|
| `feedBit`, `feed` | the inner `feed` (tmux_health.rs:305) |
| `feedLength` | the loop over the length (tmux_health.rs:320) |
| `socketKey` | `socket_key` (tmux_health.rs:303) |

The producer of the snapshots is another program, and locks what POSIX `cksum` makes of the path.
**`socketKey_eq_posixCksum`**: the guard comes to the same key.
-/

namespace DraconGuard

open Polynomial ShiftRegister

/-! ## The code -/

def feedBit (crc : UInt32) : UInt32 :=
  if crc &&& 0x80000000 ≠ 0 then (crc <<< 1) ^^^ 0x04c11db7 else crc <<< 1

def feed (crc : UInt32) (byte : UInt8) : UInt32 :=
  feedBit^[8] (crc ^^^ (byte.toUInt32 <<< 24))

def feedLength (crc : UInt32) (length : Nat) : UInt32 :=
  if length = 0 then crc else feedLength (feed crc length.toUInt8) (length >>> 8)
termination_by length
decreasing_by
  rw [Nat.shiftRight_eq_div_pow]
  exact Nat.div_lt_self (Nat.pos_of_ne_zero ‹_›) (by decide)

def socketKey (input : List UInt8) : UInt32 :=
  ~~~feedLength (input.foldl feed 0) input.length

/-! ## POSIX -/

/-- The bytes, and their number with its lowest byte first and no zeros behind the highest. -/
def cksumBytes (input : List UInt8) : List UInt8 :=
  input ++ (Nat.digits 256 input.length).map Nat.toUInt8

/-- The complement of what is left of the message, multiplied by `X ^ 32`, modulo the generator. -/
noncomputable def posixCksum (input : List UInt8) : UInt32 :=
  UInt32.ofBitVec (~~~ofPoly 32
    ((message ((cksumBytes input).map UInt8.toBitVec) * X ^ 32) %ₘ toPoly 0x104c11db7#33))

/-! ## The register of the code -/

theorem top_bit (crc : UInt32) : crc &&& 0x80000000 ≠ 0 ↔ crc.toBitVec.msb = true := by
  have htop : (crc &&& 0x80000000).toBitVec = crc.toBitVec &&& BitVec.twoPow 32 31 := rfl
  rw [ne_eq, ← UInt32.toBitVec_inj, htop, BitVec.and_twoPow, BitVec.msb_eq_getLsbD_last]
  cases crc.toBitVec.getLsbD (32 - 1) with
  | true => exact iff_of_true (by decide) rfl
  | false => exact iff_of_false (by decide) Bool.false_ne_true

theorem toBitVec_feedBit (crc : UInt32) :
    (feedBit crc).toBitVec = shift 0x04c11db7#32 crc.toBitVec := by
  unfold feedBit shift
  simp only [top_bit]
  split <;> rfl

theorem toBitVec_feed (crc : UInt32) (byte : UInt8) :
    (feed crc byte).toBitVec = ShiftRegister.feed 0x04c11db7#32 crc.toBitVec byte.toBitVec := by
  have hbits : ∀ n v, (feedBit^[n] v).toBitVec = (shift 0x04c11db7#32)^[n] v.toBitVec := by
    intro n
    induction n with
    | zero => exact fun _ => rfl
    | succ n ih =>
      intro v
      rw [Function.iterate_succ_apply, ih, toBitVec_feedBit, Function.iterate_succ_apply]
  rw [feed, hbits]
  rfl

theorem toBitVec_foldl (bytes : List UInt8) (crc : UInt32) :
    (bytes.foldl feed crc).toBitVec =
      (bytes.map UInt8.toBitVec).foldl (ShiftRegister.feed 0x04c11db7#32) crc.toBitVec := by
  induction bytes generalizing crc with
  | nil => rfl
  | cons byte bytes ih => rw [List.foldl_cons, ih, toBitVec_feed, List.map_cons, List.foldl_cons]

/-- The loop over the length goes over its digits. -/
theorem feedLength_eq (length : Nat) (crc : UInt32) :
    feedLength crc length = ((Nat.digits 256 length).map Nat.toUInt8).foldl feed crc := by
  induction length using Nat.strongRecOn generalizing crc with
  | ind length ih =>
    rw [feedLength]
    split
    · next hzero => rw [hzero, Nat.digits_zero, List.map_nil, List.foldl_nil]
    · next hpos =>
      have hshift : length >>> 8 = length / 256 := Nat.shiftRight_eq_div_pow length 8
      have hbyte : (length % 256).toUInt8 = length.toUInt8 := by
        rw [← UInt8.toNat_inj]
        exact Nat.mod_mod length 256
      rw [hshift, ih _ (Nat.div_lt_self (Nat.pos_of_ne_zero hpos) (by decide)),
        Nat.digits_def' (by decide) (Nat.pos_of_ne_zero hpos), List.map_cons, List.foldl_cons,
        hbyte]

/-- **The lock key is the POSIX checksum**, for a path of any length. -/
theorem socketKey_eq_posixCksum (input : List UInt8) : socketKey input = posixCksum input := by
  have hgenerator : toPoly 0x104c11db7#33 = generator 0x04c11db7#32 :=
    toPoly_cons_true 0x04c11db7#32
  have hregister := toPoly_register 0x04c11db7#32 (by decide)
    ((cksumBytes input).map UInt8.toBitVec)
  rw [socketKey, feedLength_eq, ← List.foldl_append, ← cksumBytes, posixCksum, hgenerator,
    ← hregister, ofPoly_toPoly, ← UInt32.toBitVec_inj, UInt32.toBitVec_not, toBitVec_foldl]
  rfl

-- the values of the test
example : socketKey [] = 4294967295 ∧ socketKey [97, 98, 99] = 1219131554 := by
  rw [socketKey, socketKey, feedLength_eq, feedLength_eq]
  decide +kernel

end DraconGuard
