import DraconGuard.Guard.State

/-!
# Attempts at a restoration, and whose they were

The release loops of both limiters give up on an entry after three failed renices, or three readings
that told nothing (main.rs:6820-6873 and 9310-9356). They count in maps keyed by the pid. An entry
leaves by other ways too: the process is gone or another one, it is pruned, it is stale, it is
restored elsewhere; and there the count stays behind. `remove_oom_bias` (main.rs:3177) takes it
along.

Here a run is the turns of those loops, in any order, with the processes changing in between
(`niceStep_turns`: a pass is such a run). Beside it runs the count that the limits are meant for:
the attempts made for one incarnation since it was reniced.
-/

namespace DraconGuard

open NiceState

/-! ## Turns -/

inductive NiceTurn where
  /-- Processes come and go. -/
  | outside (table : ProcTable)
  | renice (k : NiceLimiterKind) (baseNice : Int) (mayRestore reniceOk : Bool) (p : ProcSample)
  | unrenice (k : NiceLimiterKind) (env : NiceEnv) (pid : Pid)
  | timers (k : NiceLimiterKind) (cooledSince : FinMap Pid Time)
  | sightings (heavySince : FinMap Pid (Time × Nat))
  | prune (k : NiceLimiterKind) (env : NiceEnv)
  /-- `remove_nice_scope` (main.rs:3125), after a restoration outside the passes. -/
  | drop (k : NiceLimiterKind) (pid : Pid)

def turnStep (w : NiceWorld) : NiceTurn → NiceWorld
  | .outside table => { w with table := table }
  | .renice k baseNice mayRestore reniceOk p => reniceSample k baseNice mayRestore reniceOk w p
  | .unrenice k env pid => unrenice k env w pid
  | .timers k cooledSince =>
    let l := w.nice.limiter k
    let s := w.nice.setCounters k cooledSince l.identityUnavailableAttempts l.unreniceFailures
    { w with nice := s }
  | .sightings heavySince => { w with nice := { w.nice with heavySince := heavySince } }
  | .prune k env => pruneLimiter k env w
  | .drop k pid => { w with nice := w.nice.removeEntry k pid }

/-! ## A pass as turns -/

/-- Some turns lead from one world to the other. -/
def Turns (w w' : NiceWorld) : Prop := ∃ ts, Runs.exec turnStep w ts = w'

theorem Turns.refl (w : NiceWorld) : Turns w w := ⟨[], rfl⟩

theorem Turns.one (w : NiceWorld) (t : NiceTurn) : Turns w (turnStep w t) := ⟨[t], rfl⟩

theorem Turns.trans {w₁ w₂ w₃ : NiceWorld} : Turns w₁ w₂ → Turns w₂ w₃ → Turns w₁ w₃ := by
  rintro ⟨ts, rfl⟩ ⟨ts', rfl⟩
  exact ⟨ts ++ ts', List.foldl_append⟩

theorem Turns.foldl {α : Type} {f : NiceWorld → α → NiceWorld} (hf : ∀ w a, Turns w (f w a)) :
    ∀ (xs : List α) (w : NiceWorld), Turns w (xs.foldl f w)
  | [], w => .refl w
  | a :: xs, w => (hf w a).trans (Turns.foldl hf xs (f w a))

theorem releaseLimiter_turns (k : NiceLimiterKind) (busy : Pid → Bool) (dur : Nat) (env : NiceEnv)
    (w : NiceWorld) : Turns w (releaseLimiter k busy dur env w) := by
  have hstart : Turns w (startTimers k busy dur env.now w).1 := .one w (.timers k _)
  have hloop := Turns.foldl (fun w pid => .one w (.unrenice k env pid))
    (startTimers k busy dur env.now w).2 (startTimers k busy dur env.now w).1
  exact (hstart.trans hloop).trans (.one _ (.timers k _))

theorem heavyStep_turns (g : NicePolicy) (env : NiceEnv) (canRestore : Bool) (w : NiceWorld)
    (p : ProcSample) : Turns w (heavyStep g env canRestore w p) := by
  have hseen := Turns.one w (.sightings (noteHeavy (env.sampleNow p.pid) w.nice.heavySince p))
  unfold heavyStep
  simp only
  split
  · exact .refl w
  split
  · exact hseen
  split
  · exact hseen
  split
  · exact hseen
  · exact hseen.trans (.one _ (.renice .legacy g.reniceValue true (env.reniceOk p.pid) p))

theorem memoryStep_turns (g : NicePolicy) (env : NiceEnv) (w : NiceWorld) (p : ProcSample) :
    Turns w (memoryStep g env w p) := by
  unfold memoryStep
  split
  · exact .refl w
  · exact .one w
      (.renice .memory g.reniceValue (env.canRestoreFor p.pid) (env.reniceOk p.pid) p)

theorem checkHeavyProcesses_turns (g : NicePolicy) (env : NiceEnv) (samples : List ProcSample)
    (w : NiceWorld) : Turns w (checkHeavyProcesses g env samples w) := by
  unfold checkHeavyProcesses
  simp only
  refine Turns.trans ?_ (.one _ (.prune .legacy env))
  have hloop := Turns.foldl (heavyStep_turns g env (canRestoreNice g.autoRenice .legacy env w.nice))
    samples w
  refine hloop.trans ?_
  generalize samples.foldl (heavyStep g env (canRestoreNice g.autoRenice .legacy env w.nice)) w = w'
  have hseen := Turns.one w' (.sightings (w'.nice.heavySince.retain fun pid _ =>
    ((samples.filter (heavySample g)).map (·.pid)).contains pid))
  split
  · exact hseen.trans (releaseLimiter_turns _ _ _ _ _)
  · exact hseen

theorem checkMemoryRenice_turns (g : NicePolicy) (env : NiceEnv) (pressure : Option Pressure)
    (samples : List ProcSample) (w : NiceWorld) :
    Turns w (checkMemoryRenice g env pressure samples w) := by
  unfold checkMemoryRenice
  cases pressure with
  | none => exact .refl w
  | some pressure =>
    simp only
    refine Turns.trans ?_ (.one _ (.prune .memory env))
    have htop : Turns w (if memoryReniceActive g env pressure
          (canRestoreNice g.autoReniceOnMemory .memory env w.nice) then
        (memoryPressureOffenders samples g.processExemptNames).1.foldl (memoryStep g env) w
      else w) := by
      split
      · exact Turns.foldl (memoryStep_turns g env) _ w
      · exact .refl w
    refine htop.trans ?_
    generalize (if memoryReniceActive g env pressure
          (canRestoreNice g.autoReniceOnMemory .memory env w.nice) then
        (memoryPressureOffenders samples g.processExemptNames).1.foldl (memoryStep g env) w
      else w) = w'
    split
    · split
      · exact releaseLimiter_turns _ _ _ _ _
      · exact .refl _
    · exact .one _ (.timers .memory ∅)

/-- **Whatever happens in a run of passes is a run of turns.** -/
theorem niceStep_turns (g : NicePolicy) (m : NiceMachine) (i : NiceInput) :
    Turns m.toNiceWorld (niceStep g m i).toNiceWorld := by
  cases i with
  | spawn pid p =>
    simp only [niceStep]
    split
    · exact .refl _
    · exact .one m.toNiceWorld (.outside _)
  | exit pid => exact .one m.toNiceWorld (.outside _)
  | scan rows => exact .refl _
  | heavy env =>
    simp only [niceStep]
    split
    · exact checkHeavyProcesses_turns _ _ _ _
    · exact .refl _
  | memory env pressure =>
    simp only [niceStep]
    split
    · exact checkMemoryRenice_turns _ _ _ _ _
    · exact .refl _

/-! ## Counting for an incarnation -/

/-- The entry a turn makes where the limiter held none: a process is reniced. -/
def capturedBy (w : NiceWorld) : NiceTurn → Option (NiceLimiterKind × Incarnation)
  | .renice k baseNice mayRestore reniceOk p =>
    let before := dropStaleNiceAdjustments w.nice p.pid (processSampleIdentity p)
    let after := reniceSample k baseNice mayRestore reniceOk w p
    if (before.entry k p.pid).isNone && (after.nice.entry k p.pid).isSome then
      some (k, p.pid, p.starttime)
    else none
  | _ => none

/-- The entry a turn tries to restore, in vain: the reading tells nothing, or the renice fails. -/
def failedBy (w : NiceWorld) : NiceTurn → Option (NiceLimiterKind × Incarnation)
  | .unrenice k env pid =>
    match w.nice.entry k pid with
    | none => none
    | some e =>
      match processIdentityStatus w.table (env.releaseReadable pid) pid e.identity with
      | .unavailable => some (k, pid, e.identity.starttime)
      | .matching => if env.reniceOk pid then none else some (k, pid, e.identity.starttime)
      | .gone | .mismatch => none
  | _ => none

/-- A run with the attempts made in vain for each incarnation since it was reniced. -/
structure RetryWorld extends NiceWorld where
  tries : NiceLimiterKind → Incarnation → Nat := fun _ _ => 0

namespace RetryWorld

def step (w : RetryWorld) (t : NiceTurn) : RetryWorld where
  toNiceWorld := turnStep w.toNiceWorld t
  tries k c :=
    if capturedBy w.toNiceWorld t = some (k, c) then 0
    else if failedBy w.toNiceWorld t = some (k, c) then w.tries k c + 1
    else w.tries k c

end RetryWorld

/-! ### The counters of a limiter -/

namespace NiceState

/-- The two counts a limiter keeps under a pid. -/
def unavailable (s : NiceState) (k : NiceLimiterKind) (pid : Pid) : Nat :=
  ((s.limiter k).identityUnavailableAttempts.lookup pid).getD 0

def failures (s : NiceState) (k : NiceLimiterKind) (pid : Pid) : Nat :=
  ((s.limiter k).unreniceFailures.lookup pid).getD 0

variable (s : NiceState) (k k' : NiceLimiterKind) (pid pid' : Pid)

@[simp] theorem unavailable_removeEntry :
    (s.removeEntry k pid).unavailable k' pid' = s.unavailable k' pid' := by
  cases k <;> cases k' <;> rfl

@[simp] theorem failures_removeEntry :
    (s.removeEntry k pid).failures k' pid' = s.failures k' pid' := by
  cases k <;> cases k' <;> rfl

@[simp] theorem unavailable_insertEntry (e : ReniceState) :
    (s.insertEntry k pid e).unavailable k' pid' = s.unavailable k' pid' := by
  cases k <;> cases k' <;> rfl

@[simp] theorem failures_insertEntry (e : ReniceState) :
    (s.insertEntry k pid e).failures k' pid' = s.failures k' pid' := by
  cases k <;> cases k' <;> rfl

@[simp] theorem unavailable_dropStale (current : ProcessIdentity) :
    (dropStaleNiceAdjustments s pid current).unavailable k' pid' = s.unavailable k' pid' := by
  unfold dropStaleNiceAdjustments dropStaleEntry
  split <;> split <;> simp only [unavailable_removeEntry]

@[simp] theorem failures_dropStale (current : ProcessIdentity) :
    (dropStaleNiceAdjustments s pid current).failures k' pid' = s.failures k' pid' := by
  unfold dropStaleNiceAdjustments dropStaleEntry
  split <;> split <;> simp only [failures_removeEntry]

variable (c : FinMap Pid Time) (u f : FinMap Pid Nat)

theorem unavailable_setCounters :
    (s.setCounters k c u f).unavailable k' pid' =
      if k' = k then (u.lookup pid').getD 0 else s.unavailable k' pid' := by
  cases k <;> cases k' <;> rfl

theorem failures_setCounters :
    (s.setCounters k c u f).failures k' pid' =
      if k' = k then (f.lookup pid').getD 0 else s.failures k' pid' := by
  cases k <;> cases k' <;> rfl

@[simp] theorem unavailable_setCounters_same :
    (s.setCounters k c (s.limiter k).identityUnavailableAttempts f).unavailable k' pid' =
      s.unavailable k' pid' := by
  cases k <;> cases k' <;> rfl

@[simp] theorem failures_setCounters_same :
    (s.setCounters k c u (s.limiter k).unreniceFailures).failures k' pid' =
      s.failures k' pid' := by
  cases k <;> cases k' <;> rfl

theorem unavailable_setCounters_insert (n : Nat) :
    (s.setCounters k c ((s.limiter k).identityUnavailableAttempts.insert pid n) f).unavailable k'
      pid' = if k' = k ∧ pid' = pid then n else s.unavailable k' pid' := by
  rw [unavailable_setCounters]
  by_cases hk : k' = k
  · subst hk
    rw [if_pos rfl, FinMap.count_insert]
    simp only [true_and]
    rfl
  · rw [if_neg hk, if_neg fun h => hk h.1]

theorem failures_setCounters_insert (n : Nat) :
    (s.setCounters k c u ((s.limiter k).unreniceFailures.insert pid n)).failures k' pid' =
      if k' = k ∧ pid' = pid then n else s.failures k' pid' := by
  rw [failures_setCounters]
  by_cases hk : k' = k
  · subst hk
    rw [if_pos rfl, FinMap.count_insert]
    simp only [true_and]
    rfl
  · rw [if_neg hk, if_neg fun h => hk h.1]

theorem unavailable_setCounters_erase :
    (s.setCounters k c ((s.limiter k).identityUnavailableAttempts.erase pid) f).unavailable k' pid' ≤
      s.unavailable k' pid' := by
  rw [unavailable_setCounters]
  split
  · next hk =>
    subst hk
    exact FinMap.count_erase_le pid pid'
  · exact Nat.le_refl _

theorem failures_setCounters_erase :
    (s.setCounters k c u ((s.limiter k).unreniceFailures.erase pid)).failures k' pid' ≤
      s.failures k' pid' := by
  rw [failures_setCounters]
  split
  · next hk =>
    subst hk
    exact FinMap.count_erase_le pid pid'
  · exact Nat.le_refl _

/-- Where a release drops what is stale first, erasing a count lowers it all the same. -/
theorem unavailable_dropped (current : ProcessIdentity) :
    ((dropStaleNiceAdjustments s pid current).setCounters k c
        (((dropStaleNiceAdjustments s pid current).limiter k).identityUnavailableAttempts.erase pid)
        f).unavailable k' pid' ≤ s.unavailable k' pid' :=
  (unavailable_setCounters_erase _ _ _ _ _ _ _).trans_eq
    (unavailable_dropStale s k' pid pid' current)

theorem failures_dropped (current : ProcessIdentity) :
    ((dropStaleNiceAdjustments s pid current).setCounters k c u
        (((dropStaleNiceAdjustments s pid current).limiter k).unreniceFailures.erase pid)).failures
          k' pid' ≤ s.failures k' pid' :=
  (failures_setCounters_erase _ _ _ _ _ _ _).trans_eq (failures_dropStale s k' pid pid' current)

end NiceState

@[simp] theorem unavailable_reniceSample (k : NiceLimiterKind) (baseNice : Int)
    (mayRestore reniceOk : Bool) (w : NiceWorld) (p : ProcSample) (k' : NiceLimiterKind)
    (pid' : Pid) : (reniceSample k baseNice mayRestore reniceOk w p).nice.unavailable k' pid' =
      w.nice.unavailable k' pid' := by
  unfold reniceSample
  dsimp only
  split_ifs <;> simp

@[simp] theorem failures_reniceSample (k : NiceLimiterKind) (baseNice : Int)
    (mayRestore reniceOk : Bool) (w : NiceWorld) (p : ProcSample) (k' : NiceLimiterKind)
    (pid' : Pid) : (reniceSample k baseNice mayRestore reniceOk w p).nice.failures k' pid' =
      w.nice.failures k' pid' := by
  unfold reniceSample
  dsimp only
  split_ifs <;> simp

/-! ### What a turn does to an entry -/

/-- An entry after a turn was there before, of the same incarnation, and the counters under its pid
are at most what they were, `more` attempts apart. -/
def CarriedOn (w w' : NiceWorld) (k : NiceLimiterKind) (pid : Pid) (more : Nat) (e' : ReniceState) :
    Prop :=
  ∃ e, w.nice.entry k pid = some e ∧ e.identity.starttime = e'.identity.starttime ∧
    w'.nice.unavailable k pid ≤ w.nice.unavailable k pid + more ∧
    w'.nice.failures k pid ≤ w.nice.failures k pid + more

theorem entry_of_dropStale {s : NiceState} {k : NiceLimiterKind} {pid pid' : Pid}
    {current : ProcessIdentity} {e : ReniceState}
    (h : (dropStaleNiceAdjustments s pid current).entry k pid' = some e) :
    s.entry k pid' = some e := by
  rw [entry_dropStale] at h
  split at h
  · exact (Option.filter_eq_some_iff.mp h).1
  · exact h

/-- An entry after a renice was not dropped as stale, or is the one of the sample. -/
theorem entry_of_reniceSample {k : NiceLimiterKind} {baseNice : Int} {mayRestore reniceOk : Bool}
    {w : NiceWorld} {p : ProcSample} {k' : NiceLimiterKind} {pid' : Pid} {e' : ReniceState}
    (he' : (reniceSample k baseNice mayRestore reniceOk w p).nice.entry k' pid' = some e') :
    (dropStaleNiceAdjustments w.nice p.pid (processSampleIdentity p)).entry k' pid' = some e' ∨
      ((k' = k ∧ pid' = p.pid) ∧ e'.identity.starttime = p.starttime) := by
  unfold reniceSample at he'
  simp only at he'
  split at he'
  · exact Or.inl he'
  split at he'
  · rw [entry_insertEntry] at he'
    split at he'
    · next hown =>
      obtain rfl := Option.some.inj he'
      exact Or.inr ⟨hown, rfl⟩
    · exact Or.inl he'
  · exact Or.inl he'

/-- **A renice** keeps the entries of others, and captures or keeps its own. -/
theorem reniceSample_carried {k : NiceLimiterKind} {baseNice : Int} {mayRestore reniceOk : Bool}
    {w : NiceWorld} {p : ProcSample} {k' : NiceLimiterKind} {pid' : Pid} {e' : ReniceState}
    (he' : (reniceSample k baseNice mayRestore reniceOk w p).nice.entry k' pid' = some e') :
    capturedBy w (.renice k baseNice mayRestore reniceOk p) =
        some (k', pid', e'.identity.starttime) ∨
      CarriedOn w (reniceSample k baseNice mayRestore reniceOk w p) k' pid' 0 e' := by
  have hcarried : ∀ e, w.nice.entry k' pid' = some e →
      e.identity.starttime = e'.identity.starttime →
      CarriedOn w (reniceSample k baseNice mayRestore reniceOk w p) k' pid' 0 e' :=
    fun e he hsame => ⟨e, he, hsame, by simp, by simp⟩
  rcases entry_of_reniceSample he' with hkept | ⟨⟨rfl, rfl⟩, hstart⟩
  · exact Or.inr (hcarried e' (entry_of_dropStale hkept) rfl)
  · cases hbefore : (dropStaleNiceAdjustments w.nice p.pid (processSampleIdentity p)).entry k'
        p.pid with
    | some e =>
      -- what is not dropped under the sample's pid is of the sample's incarnation
      have hfresh : e.identity.starttime = p.starttime := by
        rw [entry_dropStale, if_pos rfl] at hbefore
        obtain ⟨-, hsame⟩ := Option.filter_eq_some_iff.mp hbefore
        simp only [sameProcessIncarnation, Bool.and_eq_true, beq_iff_eq] at hsame
        exact hsame.2
      exact Or.inr (hcarried e (entry_of_dropStale hbefore) (hfresh.trans hstart.symm))
    | none =>
      refine Or.inl ?_
      simp [capturedBy, hbefore, he', hstart]

/-- What is left when a release gives its entry up, with both counts. -/
theorem given_up_carried {w w' : NiceWorld} {k k' : NiceLimiterKind} {pid pid' : Pid}
    {current : ProcessIdentity} {c : FinMap Pid Time} {e' : ReniceState} (more : Nat)
    (hw' : w'.nice =
      ((dropStaleNiceAdjustments w.nice pid current).setCounters k c
        (((dropStaleNiceAdjustments w.nice pid current).limiter k).identityUnavailableAttempts.erase
          pid)
        (((dropStaleNiceAdjustments w.nice pid current).limiter k).unreniceFailures.erase
          pid)).removeEntry k pid)
    (he' : w'.nice.entry k' pid' = some e') : CarriedOn w w' k' pid' more e' := by
  rw [hw', entry_removeEntry, entry_setCounters] at he'
  split at he'
  · cases he'
  · refine ⟨e', entry_of_dropStale he', rfl, ?_, ?_⟩
    · rw [hw', unavailable_removeEntry]
      exact Nat.le_add_right_of_le (unavailable_dropped _ _ _ _ _ _ _ _)
    · rw [hw', failures_removeEntry]
      exact Nat.le_add_right_of_le (failures_dropped _ _ _ _ _ _ _ _)

/-- **A release** keeps the entries of others, and counts an attempt in vain for its own. -/
theorem unrenice_carried {k : NiceLimiterKind} {env : NiceEnv} {w : NiceWorld} {pid : Pid}
    {k' : NiceLimiterKind} {pid' : Pid} {e' : ReniceState}
    (he' : (unrenice k env w pid).nice.entry k' pid' = some e') :
    CarriedOn w (unrenice k env w pid) k' pid'
      (if failedBy w (.unrenice k env pid) = some (k', pid', e'.identity.starttime) then 1 else 0)
      e' := by
  cases he : w.nice.entry k pid with
  | none =>
    have hsame : unrenice k env w pid = w := by simp only [unrenice, he]
    rw [hsame] at he' ⊢
    exact ⟨e', he', rfl, by omega, by omega⟩
  | some e =>
    unfold unrenice at he' ⊢
    simp only [he] at he' ⊢
    cases hstatus : processIdentityStatus w.table (env.releaseReadable pid) pid e.identity with
    | gone | mismatch =>
      simp only [hstatus, entry_removeEntry] at he' ⊢
      split at he'
      · cases he'
      · exact ⟨e', he', rfl, by simp, by simp⟩
    | unavailable =>
      simp only [hstatus] at he' ⊢
      split at he'
      · next hlimit =>
        rw [if_pos hlimit]
        simp only [entry_removeEntry, entry_setCounters] at he'
        split at he'
        · cases he'
        · refine ⟨e', he', rfl, ?_, by simp⟩
          rw [unavailable_removeEntry]
          exact Nat.le_add_right_of_le (unavailable_setCounters_erase _ _ _ _ _ _ _)
      · next hlimit =>
        rw [if_neg hlimit]
        simp only [entry_setCounters] at he'
        refine ⟨e', he', rfl, ?_, by simp⟩
        rw [unavailable_setCounters_insert]
        split
        · next hown =>
          obtain ⟨rfl, rfl⟩ := hown
          obtain rfl := Option.some.inj (he.symm.trans he')
          simp [failedBy, he, hstatus, NiceState.unavailable]
        · omega
    | matching =>
      simp only [hstatus] at he' ⊢
      split at he'
      · next hok =>
        rw [if_pos hok]
        exact given_up_carried _ rfl he'
      · next hfailed =>
        rw [if_neg hfailed]
        split at he'
        · next hlimit =>
          rw [if_pos hlimit]
          exact given_up_carried _ rfl he'
        · next hlimit =>
          rw [if_neg hlimit]
          simp only [entry_setCounters] at he'
          have hentry := entry_of_dropStale he'
          refine ⟨e', hentry, rfl, ?_, ?_⟩
          · exact Nat.le_add_right_of_le (unavailable_dropped _ _ _ _ _ _ _ _)
          · rw [failures_setCounters_insert]
            split
            · next hown =>
              obtain ⟨rfl, rfl⟩ := hown
              obtain rfl := Option.some.inj (he.symm.trans hentry)
              have hcount : (((dropStaleNiceAdjustments w.nice pid' e.identity).limiter
                  k').unreniceFailures.lookup pid').getD 0 = w.nice.failures k' pid' :=
                failures_dropStale w.nice k' pid' pid' e.identity
              simp [failedBy, he, hstatus, hfailed, hcount]
            · rw [failures_dropStale]
              omega

/-- **Any turn**: an entry afterwards was captured by it, or was there before. -/
theorem turn_carried {w : NiceWorld} {t : NiceTurn} {k : NiceLimiterKind} {pid : Pid}
    {e' : ReniceState} (he' : (turnStep w t).nice.entry k pid = some e') :
    capturedBy w t = some (k, pid, e'.identity.starttime) ∨
      CarriedOn w (turnStep w t) k pid
        (if failedBy w t = some (k, pid, e'.identity.starttime) then 1 else 0) e' := by
  cases t with
  | outside table => exact Or.inr ⟨e', he', rfl, by simp [turnStep], by simp [turnStep]⟩
  | renice k₀ baseNice mayRestore reniceOk p => exact reniceSample_carried he'
  | unrenice k₀ env pid₀ => exact Or.inr (unrenice_carried he')
  | timers k₀ cooledSince =>
    simp only [turnStep, entry_setCounters] at he'
    exact Or.inr ⟨e', he', rfl, by simp [turnStep], by simp [turnStep]⟩
  | sightings heavySince =>
    simp only [turnStep, entry_heavySince] at he'
    refine Or.inr ⟨e', he', rfl, ?_, ?_⟩ <;> cases k <;> exact Nat.le_add_right _ _
  | prune k₀ env =>
    have hentry : w.nice.entry k pid = some e' := by
      simp only [turnStep, pruneLimiter, NiceState.entry, limiter_setLimiter] at he'
      split at he'
      · next hk =>
        subst hk
        exact (FinMap.lookup_retain_some.1 he').1
      · exact he'
    refine Or.inr ⟨e', hentry, rfl, ?_, ?_⟩ <;> cases k <;> cases k₀ <;> exact Nat.le_add_right _ _
  | drop k₀ pid₀ =>
    simp only [turnStep, entry_removeEntry] at he'
    split at he'
    · cases he'
    · exact Or.inr ⟨e', he', rfl, by simp [turnStep], by simp [turnStep]⟩

/-- A capture leaves the counters alone, and so does not clear them. -/
theorem capturedBy_counts {w : NiceWorld} {t : NiceTurn} {k : NiceLimiterKind} {c : Incarnation}
    (h : capturedBy w t = some (k, c)) (k' : NiceLimiterKind) (pid : Pid) :
    (turnStep w t).nice.unavailable k' pid = w.nice.unavailable k' pid ∧
      (turnStep w t).nice.failures k' pid = w.nice.failures k' pid := by
  cases t with
  | renice => exact ⟨unavailable_reniceSample _ _ _ _ _ _ _ _, failures_reniceSample _ _ _ _ _ _ _ _⟩
  | outside | unrenice | timers | sightings | prune | drop => cases h

/-- **Giving up**: an entry of a known incarnation leaves on a failed attempt when one of its
counters reaches the limit. -/
theorem gives_up_at_limit {w : NiceWorld} {t : NiceTurn} {k : NiceLimiterKind} {c : Incarnation}
    (hfailed : failedBy w t = some (k, c)) (hknown : c.2 ≠ 0)
    (hgone : (turnStep w t).nice.entry k c.1 = none) :
    (∃ e, w.nice.entry k c.1 = some e ∧ e.identity.starttime = c.2) ∧
      (identityUnavailableRetryLimit ≤ w.nice.unavailable k c.1 + 1 ∨
        unreniceRetryLimit ≤ w.nice.failures k c.1 + 1) := by
  cases t with
  | unrenice k₀ env pid =>
    simp only [failedBy] at hfailed
    cases he : w.nice.entry k₀ pid with
    | none =>
      rw [he] at hfailed
      cases hfailed
    | some e =>
      rw [he] at hfailed
      simp only [turnStep, unrenice, he] at hgone
      cases hstatus : processIdentityStatus w.table (env.releaseReadable pid) pid e.identity with
      | gone | mismatch =>
        simp only [hstatus] at hfailed
        cases hfailed
      | unavailable =>
        simp only [hstatus] at hfailed hgone
        cases hfailed
        refine ⟨⟨e, he, rfl⟩, Or.inl ?_⟩
        split at hgone
        · next hlimit => exact hlimit
        · rw [entry_setCounters, he] at hgone
          cases hgone
      | matching =>
        simp only [hstatus] at hfailed hgone
        split at hfailed
        · cases hfailed
        next hrefused =>
        cases hfailed
        refine ⟨⟨e, he, rfl⟩, Or.inr ?_⟩
        rw [if_neg hrefused] at hgone
        split at hgone
        · next hlimit =>
          have hcount : (((dropStaleNiceAdjustments w.nice pid e.identity).limiter
              k).unreniceFailures.lookup pid).getD 0 = w.nice.failures k pid :=
            failures_dropStale w.nice k pid pid e.identity
          rwa [hcount] at hlimit
        · -- of a known starttime, it is not stale
          have hsame : sameProcessIncarnation e.identity e.identity = true := by
            simp [sameProcessIncarnation, hknown]
          rw [entry_setCounters, entry_dropStale, if_pos rfl, he, Option.filter, if_pos hsame]
            at hgone
          cases hgone
  | outside | renice | timers | sightings | prune | drop => cases hfailed

/-! ## Runs -/

namespace RetryWorld

/-- The limiter gives up on an entry after three attempts for its incarnation, not before. -/
def KeepsToLimit (w : RetryWorld) (t : NiceTurn) : Prop :=
  ∀ k c, failedBy w.toNiceWorld t = some (k, c) →
    (turnStep w.toNiceWorld t).nice.entry k c.1 = none → 3 ≤ w.tries k c + 1

/-- A process is reniced under a pid with no count left behind, and a starttime that is tried again
is known. -/
def FreshCounters (w : RetryWorld) (t : NiceTurn) : Prop :=
  (∀ k c, capturedBy w.toNiceWorld t = some (k, c) →
    w.nice.unavailable k c.1 = 0 ∧ w.nice.failures k c.1 = 0) ∧
  ∀ k c, failedBy w.toNiceWorld t = some (k, c) → c.2 ≠ 0

/-- The counters under the pid of an entry count attempts for its incarnation. -/
def CountsTries (w : RetryWorld) : Prop :=
  ∀ k pid e, w.nice.entry k pid = some e →
    w.nice.unavailable k pid ≤ w.tries k (pid, e.identity.starttime) ∧
      w.nice.failures k pid ≤ w.tries k (pid, e.identity.starttime)

theorem CountsTries.step {w : RetryWorld} (h : w.CountsTries) {t : NiceTurn}
    (ht : w.FreshCounters t) : (w.step t).CountsTries := by
  intro k pid e' he'
  have hfresh : capturedBy w.toNiceWorld t = some (k, pid, e'.identity.starttime) →
      (w.step t).nice.unavailable k pid = 0 ∧ (w.step t).nice.failures k pid = 0 := by
    intro hcaptured
    obtain ⟨hu, hf⟩ := capturedBy_counts hcaptured k pid
    obtain ⟨hu₀, hf₀⟩ := ht.1 k _ hcaptured
    exact ⟨hu.trans hu₀, hf.trans hf₀⟩
  by_cases hcaptured : capturedBy w.toNiceWorld t = some (k, pid, e'.identity.starttime)
  · obtain ⟨hu, hf⟩ := hfresh hcaptured
    rw [hu, hf]
    exact ⟨Nat.zero_le _, Nat.zero_le _⟩
  · obtain ⟨e, he, hsame, hu, hf⟩ := (turn_carried he').resolve_left hcaptured
    obtain ⟨hu₀, hf₀⟩ := h k pid e he
    rw [hsame] at hu₀ hf₀
    have htries : (w.step t).tries k (pid, e'.identity.starttime) =
        w.tries k (pid, e'.identity.starttime) +
          if failedBy w.toNiceWorld t = some (k, pid, e'.identity.starttime) then 1 else 0 := by
      simp only [RetryWorld.step, if_neg hcaptured]
      split <;> rfl
    rw [htries]
    exact ⟨hu.trans (Nat.add_le_add_right hu₀ _), hf.trans (Nat.add_le_add_right hf₀ _)⟩

theorem CountsTries.keepsToLimit {w : RetryWorld} (h : w.CountsTries) {t : NiceTurn}
    (ht : w.FreshCounters t) : w.KeepsToLimit t := by
  intro k c hfailed hgone
  obtain ⟨⟨e, he, hstart⟩, hlimit⟩ := gives_up_at_limit hfailed (ht.2 k c hfailed) hgone
  obtain ⟨hu, hf⟩ := h k c.1 e he
  rw [hstart] at hu hf
  rcases hlimit with hlimit | hlimit
  · exact hlimit.trans (Nat.add_le_add_right hu 1)
  · exact hlimit.trans (Nat.add_le_add_right hf 1)

/-- A daemon after its hydration: entries, and nothing counted yet. -/
def hydrated (table : ProcTable) (legacy memory : FinMap Pid ReniceState) : RetryWorld where
  table := table
  nice := { legacy := { renicedPids := legacy }, memory := { renicedPids := memory } }

theorem hydrated_countsTries (table : ProcTable) (legacy memory : FinMap Pid ReniceState) :
    (hydrated table legacy memory).CountsTries := by
  intro k pid e _
  cases k <;> exact ⟨Nat.zero_le _, Nat.zero_le _⟩

def reusedTable (starttime : Nat) : ProcTable := fun pid =>
  if pid = 7 then some { ppid := 1, comm := "cc1", starttime := starttime } else none

def reusedSample (starttime : Nat) : ProcSample :=
  { pid := 7, ppid := 1, cpuPercent := 300, rssMb := 9000, swapMb := some 0, nice := 0
    command := "cc1", starttime := starttime }

/-- A release whose renice fails. -/
def refusedRelease : NiceTurn := .unrenice .memory { now := 0, reniceOk := fun _ => false } 7

def reniced (starttime : Nat) : NiceTurn := .renice .memory 5 true true (reusedSample starttime)

end RetryWorld

end DraconGuard
