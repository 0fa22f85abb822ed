import Mathlib.Logic.Function.Basic

/-!
# Overlapping reversible adjustments of one value

Several holders adjust one value. Each remembers, while it holds the value, what it will
put back (`holds i`); the value itself is `live`. The discipline that keeps the value
restorable is local: a holder that starts remembers either what another holder remembers
or, when nobody holds the value, the value it finds; a holder that lets go last puts back
what it remembers. `Owes` is the law this keeps: every remembered value is the one from
before the first adjustment, and so is the live value whenever nobody holds it.
-/

namespace Overlap

/-- One value and its holders. -/
@[ext] structure Cell (ι : Type*) (α : Type*) where
  live : α
  holds : ι → Option α

variable {ι α : Type*} [DecidableEq ι]

/-- `o` may be remembered by the next holder. -/
def Sourced (c : Cell ι α) (o : α) : Prop :=
  (∃ j, c.holds j = some o) ∨ ((∀ j, c.holds j = none) ∧ o = c.live)

/-- Holder `i` sets the value to `v` and remembers `o`. -/
def acquire (c : Cell ι α) (i : ι) (v o : α) : Cell ι α :=
  ⟨v, Function.update c.holds i (some o)⟩

/-- Holder `i` sets the value to `v` and lets go. -/
def release (c : Cell ι α) (i : ι) (v : α) : Cell ι α :=
  ⟨v, Function.update c.holds i none⟩

/-- `v` may be put back by holder `i`: the last holder puts back what it remembers. -/
def Settles (c : Cell ι α) (i : ι) (v : α) : Prop :=
  (∀ j, j ≠ i → c.holds j = none) → c.holds i = some v

/-- Everything remembered, and the value nobody holds, is `base`. -/
structure Owes (base : α) (c : Cell ι α) : Prop where
  remembered : ∀ i o, c.holds i = some o → o = base
  settled : (∀ i, c.holds i = none) → c.live = base

theorem Owes.acquire {base : α} {c : Cell ι α} (h : Owes base c) {i : ι} {v o : α}
    (ho : Sourced c o) : Owes base (acquire c i v o) where
  remembered j o' hj := by
    by_cases hji : j = i
    · subst hji
      have he : o = o' := by simpa [Overlap.acquire] using hj
      rcases ho with ⟨j', hj'⟩ | ⟨hnone, hlive⟩
      · rw [← he, h.remembered j' o hj']
      · rw [← he, hlive, h.settled hnone]
    · exact h.remembered j o' (by simpa [Overlap.acquire, hji] using hj)
  settled hnone := by
    have := hnone i
    simp [Overlap.acquire] at this

theorem Owes.release {base : α} {c : Cell ι α} (h : Owes base c) {i : ι} {v : α}
    (hv : Settles c i v) : Owes base (release c i v) where
  remembered j o hj := by
    by_cases hji : j = i
    · subst hji; simp [Overlap.release] at hj
    · exact h.remembered j o (by simpa [Overlap.release, hji] using hj)
  settled hnone := by
    refine h.remembered i v (hv fun j hj => ?_)
    simpa [Overlap.release, hj] using hnone j

end Overlap
