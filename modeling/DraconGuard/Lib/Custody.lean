import Mathlib.Logic.Function.Basic
import Mathlib.Data.Option.Basic

/-!
# Tokens in custody

Places hold tokens, at most one each: `held p = some (k, v)` is token `k`, worth `v`, at place `p`.
A token that was issued is at one place at most, and keeps its worth while it moves. What has no
place any more is lost.
-/

/-- Every token held was issued with this worth, and no two places hold the same. -/
structure Custody {P K V : Type*} (issued : K → Option V) (held : P → Option (K × V)) : Prop where
  traced : ∀ {p k v}, held p = some (k, v) → issued k = some v
  single : ∀ {p p' k v v'}, held p = some (k, v) → held p' = some (k, v') → p = p'

namespace Custody

variable {P K V : Type*} {issued : K → Option V} {held held' : P → Option (K × V)}

theorem empty : Custody issued fun _ : P => none where
  traced h := nomatch h
  single h := nomatch h

/-- **Moves and losses.** What a place holds afterwards comes from one place, and no two come from
the same. -/
theorem moved (h : Custody issued held) (source : P → P)
    (hsource : ∀ p, held' p = none ∨ held' p = held (source p))
    (hinj : ∀ p p', held' p ≠ none → held' p' ≠ none → source p = source p' → p = p') :
    Custody issued held' := by
  have hfrom : ∀ {p k v}, held' p = some (k, v) → held (source p) = some (k, v) := by
    intro p k v hp
    rcases hsource p with hnone | hsame
    · rw [hnone] at hp; cases hp
    · exact hsame.symm.trans hp
  refine ⟨fun hp => h.traced (hfrom hp), fun {p p' k v v'} hp hp' => ?_⟩
  refine hinj p p' ?_ ?_ (h.single (hfrom hp) (hfrom hp'))
  · rw [hp]; exact Option.some_ne_none _
  · rw [hp']; exact Option.some_ne_none _

/-- Places that hold what they held, or nothing. -/
theorem dropped (h : Custody issued held) (hsame : ∀ p, held' p = none ∨ held' p = held p) :
    Custody issued held' :=
  h.moved id hsame fun _ _ _ _ heq => heq

/-- **A new token**, put where something may have been before. -/
theorem issue [DecidableEq K] [DecidableEq P] (h : Custody issued held) {k : K}
    (hfresh : issued k = none) (p : P) (v : V) :
    Custody (Function.update issued k (some v)) (Function.update held p (some (k, v))) := by
  have hother : ∀ {q j u}, held q = some (j, u) → j ≠ k := by
    rintro q j u hq rfl
    rw [h.traced hq] at hfresh
    cases hfresh
  have hcases : ∀ {q j u}, Function.update held p (some (k, v)) q = some (j, u) →
      q = p ∧ j = k ∧ u = v ∨ held q = some (j, u) ∧ j ≠ k := by
    intro q j u hq
    rw [Function.update_apply] at hq
    split at hq
    · next heq =>
      obtain ⟨rfl, rfl⟩ := Prod.mk.inj (Option.some.inj hq)
      exact Or.inl ⟨heq, rfl, rfl⟩
    · exact Or.inr ⟨hq, hother hq⟩
  refine ⟨fun {q j u} hq => ?_, fun {q q' j u u'} hq hq' => ?_⟩
  · rcases hcases hq with ⟨-, rfl, rfl⟩ | ⟨hheld, hne⟩
    · exact Function.update_self ..
    · rw [Function.update_of_ne hne]
      exact h.traced hheld
  · rcases hcases hq with ⟨rfl, rfl, -⟩ | ⟨hheld, hne⟩
    · rcases hcases hq' with ⟨rfl, -, -⟩ | ⟨-, hne⟩
      · rfl
      · exact absurd rfl hne
    · rcases hcases hq' with ⟨-, rfl, -⟩ | ⟨hheld', -⟩
      · exact absurd rfl hne
      · exact h.single hheld hheld'

end Custody
