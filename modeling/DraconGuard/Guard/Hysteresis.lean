import DraconGuard.Guard.ReleaseWindow

/-!
# The stable level over a whole history

`stabilize_memory_pressure_at` (main.rs:2402) keeps a candidate and the time it was first seen. Over
a history of observations that is the level and the start of the maximal run at its end
(`Tracks`), unless that run is at the stable level. So the level changes exactly to what a run of
`sustain_secs` shows (`pressure_hysteresis_exact`).
-/

namespace DraconGuard

open Streak (RunSince)

/-- What one pass observes, and when. -/
structure PressureReading where
  level : Pressure
  time : Time

/-- The hysteresis after a history, the oldest reading first. -/
def hysteresisAfter (sustainSecs : Nat) (hist : List PressureReading) : PressureHysteresis :=
  hist.foldl (fun s o => (stabilizeMemoryPressureAt s o.level sustainSecs o.time).1) {}

/-- The stable level after a history. -/
def stableLevel (sustainSecs : Nat) (hist : List PressureReading) : Pressure :=
  (hysteresisAfter sustainSecs hist).state.getD .ok

/-- The maximal run of readings of the level of `o` that ends with `o` has started earlier, and its
first reading is old enough. -/
def Sustained (sustainSecs : Nat) (hist : List PressureReading) (o : PressureReading) : Prop :=
  ∃ since, RunSince (fun r : PressureReading => r.level = o.level) (·.time) hist since ∧
    sustainSecs ≤ o.time - since

/-- What the two fields of the candidate say about the history: the last reading was stable, or
the run at the end is of the candidate. -/
inductive Tracks (hist : List PressureReading) (s : PressureHysteresis) : Prop
  | stable (hcandidate : s.candidate = none)
      (hlast : ∀ r, hist.getLast? = some r → r.level = s.state.getD .ok)
  | candidate (level : Pressure) (since : Time) (hcandidate : s.candidate = some level)
      (hsince : s.candidateSince = some since)
      (hrun : RunSince (fun r : PressureReading => r.level = level) (·.time) hist since)

variable {hist : List PressureReading} {s : PressureHysteresis} {o : PressureReading}
  {sustainSecs : Nat}

/-- Before a level other than the stable one and the candidate comes none of its kind. -/
theorem Tracks.last_ne (h : Tracks hist s) (hstable : s.state.getD .ok ≠ o.level)
    (hcandidate : s.candidate ≠ some o.level) :
    ∀ r, hist.getLast? = some r → r.level ≠ o.level := by
  intro r hr
  cases h with
  | stable _ hlast =>
    rw [hlast r hr]
    exact hstable
  | candidate level since heq _ hrun =>
    obtain ⟨y, hy, hlevel⟩ := hrun.exists_last
    obtain rfl := Option.some.inj (hr.symm.trans hy)
    rintro hsame
    exact hcandidate (by rw [heq, ← hlevel, hsame])

/-- The run of the candidate. -/
theorem Tracks.run (h : Tracks hist s) (hcandidate : s.candidate = some o.level) :
    ∃ since, s.candidateSince = some since ∧
      RunSince (fun r : PressureReading => r.level = o.level) (·.time) hist since := by
  cases h with
  | stable hnone _ =>
    rw [hnone] at hcandidate
    cases hcandidate
  | candidate level since heq hsince hrun =>
    obtain rfl := Option.some.inj (heq.symm.trans hcandidate)
    exact ⟨since, hsince, hrun⟩

/-- What one reading does: the level changes to it where it differs and was sustained, and stays
otherwise; the candidate is tracked on. -/
structure Stabilized (sustainSecs : Nat) (hist : List PressureReading) (o : PressureReading)
    (before : Pressure) (r : PressureHysteresis × Pressure × Option Pressure × Bool) : Prop where
  tracks : Tracks (hist ++ [o]) r.1
  state : r.1.state = some r.2.1
  result : (o.level ≠ before ∧ Sustained sustainSecs hist o) ∧ r.2 = (o.level, some before, true) ∨
    ¬ (o.level ≠ before ∧ Sustained sustainSecs hist o) ∧ r.2 = (before, none, false)

/-- **One reading.** -/
theorem Tracks.step (h : Tracks hist s) (sustainSecs : Nat) (o : PressureReading) :
    Stabilized sustainSecs hist o (s.state.getD .ok)
      (stabilizeMemoryPressureAt s o.level sustainSecs o.time) := by
  have hend : ∀ r, (hist ++ [o]).getLast? = some r → r = o := by
    intro r hr
    rw [List.getLast?_concat] at hr
    exact (Option.some.inj hr).symm
  unfold stabilizeMemoryPressureAt
  dsimp only
  split
  · next hsame =>
    refine ⟨.stable rfl fun r hr => ?_, rfl, .inr ⟨fun hchange => hchange.1 hsame.symm, rfl⟩⟩
    rw [hend r hr]
    exact hsame.symm
  next hstable =>
  split
  · next hcandidate =>
    have hlast := h.last_ne hstable hcandidate
    refine ⟨.candidate o.level o.time rfl rfl (.start rfl hlast), rfl, .inr ⟨?_, rfl⟩⟩
    rintro ⟨-, since, hrun, -⟩
    obtain ⟨y, hy, hlevel⟩ := hrun.exists_last
    exact hlast y hy hlevel
  next hcandidate =>
  obtain ⟨since, hsince, hrun⟩ := h.run (not_not.mp hcandidate)
  rw [hsince, Option.getD_some]
  split
  · next hyoung =>
    refine ⟨.candidate o.level since (not_not.mp hcandidate) rfl (.snoc rfl hrun), rfl,
      .inr ⟨?_, rfl⟩⟩
    rintro ⟨-, since', hrun', hold⟩
    obtain rfl := hrun.unique hrun'
    exact absurd hold (Nat.not_le.mpr hyoung)
  · next hold =>
    refine ⟨.stable rfl fun r hr => ?_, rfl,
      .inl ⟨⟨Ne.symm hstable, since, hrun, Nat.not_lt.mp hold⟩, rfl⟩⟩
    rw [hend r hr]
    rfl

theorem hysteresisAfter_concat (sustainSecs : Nat) (hist : List PressureReading)
    (o : PressureReading) : hysteresisAfter sustainSecs (hist ++ [o]) =
      (stabilizeMemoryPressureAt (hysteresisAfter sustainSecs hist) o.level sustainSecs o.time).1 :=
  List.foldl_concat _ _ _ _

theorem tracks_hysteresisAfter (sustainSecs : Nat) (hist : List PressureReading) :
    Tracks hist (hysteresisAfter sustainSecs hist) := by
  induction hist using List.reverseRecOn with
  | nil => exact .stable rfl fun r hr => by cases hr
  | append_singleton hist o ih =>
    rw [hysteresisAfter_concat]
    exact (ih.step sustainSecs o).tracks

/-- **Pressure hysteresis is exact**: after any history the stable level becomes another one, `X`,
if and only if the next reading is of `X` and ends a maximal run of `X` that started earlier and
has lasted; and it stays otherwise. The result says the same of the change. -/
theorem pressure_hysteresis_exact (sustainSecs : Nat) (hist : List PressureReading)
    (o : PressureReading) :
    (∀ X, (stableLevel sustainSecs (hist ++ [o]) = X ∧ stableLevel sustainSecs hist ≠ X ↔
      X = o.level ∧ X ≠ stableLevel sustainSecs hist ∧ Sustained sustainSecs hist o)) ∧
    (¬ (o.level ≠ stableLevel sustainSecs hist ∧ Sustained sustainSecs hist o) →
      stableLevel sustainSecs (hist ++ [o]) = stableLevel sustainSecs hist) ∧
    (stabilizeMemoryPressureAt (hysteresisAfter sustainSecs hist) o.level sustainSecs o.time).2 =
      (stableLevel sustainSecs (hist ++ [o]),
        if stableLevel sustainSecs (hist ++ [o]) = stableLevel sustainSecs hist then none
          else some (stableLevel sustainSecs hist),
        decide (stableLevel sustainSecs (hist ++ [o]) ≠ stableLevel sustainSecs hist)) := by
  have hstep := (tracks_hysteresisAfter sustainSecs hist).step sustainSecs o
  have hafter : stableLevel sustainSecs (hist ++ [o]) = (stabilizeMemoryPressureAt
      (hysteresisAfter sustainSecs hist) o.level sustainSecs o.time).2.1 := by
    rw [stableLevel, hysteresisAfter_concat, hstep.state, Option.getD_some]
  change Stabilized sustainSecs hist o (stableLevel sustainSecs hist) _ at hstep
  rcases hstep.result with ⟨hchange, hresult⟩ | ⟨hkeep, hresult⟩
  · rw [hresult] at hafter
    dsimp only at hafter
    refine ⟨fun X => ⟨?_, ?_⟩, fun hkeep => absurd hchange hkeep, ?_⟩
    · rintro ⟨rfl, hne⟩
      exact ⟨hafter, Ne.symm hne, hchange.2⟩
    · rintro ⟨rfl, hne, -⟩
      exact ⟨hafter, Ne.symm hne⟩
    · rw [hresult, hafter, if_neg hchange.1, decide_eq_true hchange.1]
  · rw [hresult] at hafter
    dsimp only at hafter
    refine ⟨fun X => ⟨?_, ?_⟩, fun _ => hafter, ?_⟩
    · rintro ⟨rfl, hne⟩
      exact absurd hafter (Ne.symm hne)
    · rintro ⟨rfl, hne, hsustained⟩
      exact absurd ⟨hne, hsustained⟩ hkeep
    · rw [hresult, hafter, if_pos rfl]
      simp

/-- A warning that lasts, a dip below it, and the warning again. -/
example : stableLevel 30 [⟨.warn, 0⟩, ⟨.warn, 20⟩, ⟨.ok, 25⟩, ⟨.warn, 40⟩, ⟨.warn, 69⟩] = .ok ∧
    stableLevel 30 [⟨.warn, 0⟩, ⟨.warn, 20⟩, ⟨.ok, 25⟩, ⟨.warn, 40⟩, ⟨.warn, 70⟩] = .warn := by
  decide

end DraconGuard
