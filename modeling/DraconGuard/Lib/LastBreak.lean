import Mathlib.Data.List.Chain

/-!
# After the last break

A series that is cut at every pair of neighbours that breaks a relation keeps only what
follows the last cut. `AfterLastBreak` says what that is without saying how it is found, and
there is one such tail only (`AfterLastBreak.unique`).
-/

variable {α : Type*}

/-- `w` is the tail of `xs` behind the last pair of neighbours that breaks `R`. -/
def AfterLastBreak (R : α → α → Prop) (xs w : List α) : Prop :=
  w.IsChain R ∧ ∃ earlier, xs = earlier ++ w ∧
    (earlier ≠ [] → ∃ last first, earlier.getLast? = some last ∧ w.head? = some first ∧
      ¬ R last first)

namespace AfterLastBreak

variable {R : α → α → Prop} {xs w w' : List α}

theorem whole (h : xs.IsChain R) : AfterLastBreak R xs xs :=
  ⟨h, [], rfl, fun hne => absurd rfl hne⟩

theorem suffix (h : AfterLastBreak R xs w) : w <:+ xs := by
  obtain ⟨-, earlier, heq, -⟩ := h
  exact ⟨earlier, heq.symm⟩

/-- A longer tail holds the break in front of the shorter one. -/
theorem eq_of_suffix (h : AfterLastBreak R xs w) (h' : AfterLastBreak R xs w')
    (hsuffix : w' <:+ w) : w' = w := by
  obtain ⟨hchain, earlier, heq, -⟩ := h
  obtain ⟨-, earlier', heq', hbreak⟩ := h'
  obtain ⟨mid, rfl⟩ := hsuffix
  cases hmid : mid.getLast? with
  | none =>
    rw [List.getLast?_eq_none_iff.mp hmid]
    rfl
  | some last =>
    have hsplit : earlier' = earlier ++ mid := by
      rw [heq, ← List.append_assoc] at heq'
      exact (List.append_cancel_right heq').symm
    have hlast : earlier'.getLast? = some last := by
      rw [hsplit, List.getLast?_append, hmid]
      rfl
    have hne : earlier' ≠ [] := by
      intro hnil
      simp [hnil] at hlast
    obtain ⟨last', first, hlast', hfirst, hnot⟩ := hbreak hne
    obtain rfl : last = last' := Option.some.inj (hlast.symm.trans hlast')
    have hjoin := (List.isChain_append.mp hchain).2.2
    exact absurd (hjoin last (by simp [hmid]) first (by simp [hfirst])) hnot

theorem unique (h : AfterLastBreak R xs w) (h' : AfterLastBreak R xs w') : w = w' := by
  rcases List.suffix_or_suffix_of_suffix h.suffix h'.suffix with hle | hle
  · exact h'.eq_of_suffix h hle
  · exact (h.eq_of_suffix h' hle).symm

end AfterLastBreak
