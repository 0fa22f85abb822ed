import DraconGuard.Guard.Reload

/-!
# The release timers of the pressure limiters

`memory_cooled_since`, `oom_cooled_since` and `cap_cooled_since` say since when a limited process
may be let go. Only the releases of `check_memory_pressure` set a timer. `Stamps P w` says that
every time the three maps hold satisfies `P`: everything else a pass, a restore or a hydration
does keeps it, for any `P`.
-/

namespace DraconGuard

/-- Every time in a map satisfies `P`. -/
def StampsOf (P : Time → Prop) (m : FinMap Pid Time) : Prop := ∀ pid c, m.lookup pid = some c → P c

/-- Every release timer of the pressure limiters shows a time that satisfies `P`. -/
structure Stamps (P : Time → Prop) (s : GuardRuntimeState) : Prop where
  renices : StampsOf P s.nice.memory.cooledSince
  biases : StampsOf P s.oom.oomCooledSince
  caps : StampsOf P s.caps.capCooledSince

namespace StampsOf

variable {P Q : Time → Prop} {m : FinMap Pid Time}

theorem empty : StampsOf P ∅ := by
  intro pid c h
  cases h

theorem mono (hPQ : ∀ c, P c → Q c) (h : StampsOf P m) : StampsOf Q m :=
  fun pid c hc => hPQ c (h pid c hc)

theorem erase (h : StampsOf P m) (pid : Pid) : StampsOf P (m.erase pid) := by
  intro pid' c hc
  rw [FinMap.lookup_erase_eq] at hc
  split at hc
  · cases hc
  · exact h pid' c hc

theorem retain (h : StampsOf P m) (p : Pid → Time → Bool) : StampsOf P (m.retain p) :=
  fun pid c hc => h pid c (FinMap.lookup_retain_some.1 hc).1

theorem orInsert (h : StampsOf P m) {now : Time} (hnow : P now) (pid : Pid) :
    StampsOf P (m.orInsert pid now) := by
  intro pid' c hc
  rw [FinMap.lookup_orInsert] at hc
  split at hc
  · obtain rfl := Option.some.inj hc
    cases hm : m.lookup pid with
    | none => exact hnow
    | some c => exact h pid c hm
  · exact h pid' c hc

end StampsOf

theorem Stamps.mono {P Q : Time → Prop} {s : GuardRuntimeState} (hPQ : ∀ c, P c → Q c)
    (h : Stamps P s) : Stamps Q s := ⟨h.renices.mono hPQ, h.biases.mono hPQ, h.caps.mono hPQ⟩

/-- A runtime in which no timer runs. -/
theorem Stamps.fresh (P : Time → Prop) (persist : Bool) :
    Stamps P { persistMitigations := persist } := ⟨.empty, .empty, .empty⟩

/-! ## Starting timers -/

/-- The timers of a release loop, and that whatever is due has a timer that ran for `dur`. -/
structure Cooling (P : Time → Prop) (now : Time) (dur : Nat) (acc : FinMap Pid Time × List Pid) :
    Prop where
  stamps : StampsOf P acc.1
  ran : ∀ pid ∈ acc.2, ∃ c, P c ∧ dur ≤ now - c

theorem Cooling.step {P : Time → Prop} {now : Time} {dur : Nat}
    {acc : FinMap Pid Time × List Pid} (hnow : P now) (h : Cooling P now dur acc)
    (busy : Pid → Bool) (pid : Pid) : Cooling P now dur (coolStep busy now dur acc pid) := by
  have hset := h.stamps.orInsert hnow pid
  unfold coolStep
  split
  · exact ⟨h.stamps.erase pid, h.ran⟩
  · refine ⟨hset, fun pid' hpid' => ?_⟩
    dsimp only at hpid'
    split at hpid'
    · next hdue =>
      rcases List.mem_append.1 hpid' with hin | hin
      · exact h.ran pid' hin
      · cases hc : (acc.1.orInsert pid now).lookup pid with
        | none =>
          rw [hc, Option.getD_none] at hdue
          exact ⟨now, hnow, hdue⟩
        | some c =>
          rw [hc, Option.getD_some] at hdue
          exact ⟨c, hset pid c hc, hdue⟩
    · exact h.ran pid' hpid'

/-- The loop that starts the timers of `pids`. -/
theorem Cooling.loop {P : Time → Prop} {now : Time} {m : FinMap Pid Time} (hnow : P now)
    (h : StampsOf P m) (busy : Pid → Bool) (dur : Nat) (pids : List Pid) :
    Cooling P now dur (pids.foldl (coolStep busy now dur) (m, [])) :=
  List.foldlRecOn pids (coolStep busy now dur) ⟨h, fun _ hpid => nomatch hpid⟩
    fun _ hacc pid _ => hacc.step hnow busy pid

/-! ## The nice limiters -/

section Nice

/-- The memory limiter's timers, of the two halves the only ones that are looked at here. -/
def NiceStamps (P : Time → Prop) (s : NiceState) : Prop := StampsOf P s.memory.cooledSince

variable {P : Time → Prop} {s : NiceState} {w : NiceWorld}

theorem NiceStamps.removeEntry (h : NiceStamps P s) (k : NiceLimiterKind) (pid : Pid) :
    NiceStamps P (s.removeEntry k pid) := by
  cases k
  · exact h
  · exact StampsOf.erase h pid

theorem NiceStamps.insertEntry (h : NiceStamps P s) (k : NiceLimiterKind) (pid : Pid)
    (e : ReniceState) : NiceStamps P (s.insertEntry k pid e) := by
  cases k <;> exact h

/-- The other counters of a limiter are no timers. -/
theorem NiceStamps.setCounters (h : NiceStamps P s) (k : NiceLimiterKind) {c : FinMap Pid Time}
    (hc : k = .memory → StampsOf P c) (u f : FinMap Pid Nat) :
    NiceStamps P (s.setCounters k c u f) := by
  cases k
  · exact h
  · exact hc rfl

theorem NiceStamps.dropStale (h : NiceStamps P s) (pid : Pid) (current : ProcessIdentity) :
    NiceStamps P (dropStaleNiceAdjustments s pid current) := by
  have hdrop : ∀ {s : NiceState} (k : NiceLimiterKind), NiceStamps P s →
      NiceStamps P (dropStaleEntry s k pid current) := by
    intro s k hs
    unfold dropStaleEntry
    split
    · exact hs.removeEntry k pid
    · exact hs
  exact hdrop .memory (hdrop .legacy h)

theorem NiceStamps.reniceSample (h : NiceStamps P w.nice) (k : NiceLimiterKind) (base : Int)
    (mayRestore reniceOk : Bool) (p : ProcSample) :
    NiceStamps P (reniceSample k base mayRestore reniceOk w p).nice := by
  have hdrop := h.dropStale p.pid (processSampleIdentity p)
  unfold DraconGuard.reniceSample
  dsimp only
  split
  · exact hdrop
  · split
    · exact hdrop.insertEntry k p.pid _
    · exact hdrop

theorem NiceStamps.unrenice (h : NiceStamps P w.nice) (k : NiceLimiterKind) (env : NiceEnv)
    (pid : Pid) : NiceStamps P (unrenice k env w pid).nice := by
  -- Whatever the counters become, the timers stay those of the limiter.
  have hcount : ∀ {s : NiceState}, NiceStamps P s → ∀ u f : FinMap Pid Nat,
      NiceStamps P (s.setCounters k (s.limiter k).cooledSince u f) := by
    intro s hs u f
    refine hs.setCounters k ?_ u f
    rintro rfl
    exact hs
  unfold DraconGuard.unrenice
  split
  · exact h
  · dsimp only
    split
    · exact h.removeEntry k pid
    · exact h.removeEntry k pid
    · split
      · exact (hcount h _ _).removeEntry k pid
      · exact hcount h _ _
    · have hdrop := h.dropStale pid
      split
      · exact (hcount (hdrop _) _ _).removeEntry k pid
      · split
        · exact (hcount (hdrop _) _ _).removeEntry k pid
        · exact hcount (hdrop _) _ _

theorem NiceStamps.startTimers (h : NiceStamps P w.nice) (k : NiceLimiterKind) (busy : Pid → Bool)
    (dur : Nat) {now : Time} (hnow : k = .memory → P now) :
    NiceStamps P (startTimers k busy dur now w).1.nice := by
  refine h.setCounters k ?_ _ _
  rintro rfl
  exact (Cooling.loop (hnow rfl) h busy dur _).stamps

theorem NiceStamps.forgetTimers (h : NiceStamps P w.nice) (k : NiceLimiterKind) :
    NiceStamps P (forgetTimers k w).nice := by
  refine h.setCounters k ?_ _ _
  rintro rfl
  exact StampsOf.retain h _

/-- A loop whose body keeps the timers. -/
theorem niceStamps_foldl {α : Type} {f : NiceWorld → α → NiceWorld}
    (hf : ∀ w, NiceStamps P w.nice → ∀ a, NiceStamps P (f w a).nice) (as : List α) {w : NiceWorld}
    (h : NiceStamps P w.nice) : NiceStamps P (as.foldl f w).nice := by
  induction as generalizing w with
  | nil => exact h
  | cons a as ih => exact ih (hf w h a)

theorem NiceStamps.releaseLimiter (h : NiceStamps P w.nice) (k : NiceLimiterKind)
    (busy : Pid → Bool) (dur : Nat) {env : NiceEnv} (hnow : k = .memory → P env.now) :
    NiceStamps P (releaseLimiter k busy dur env w).nice := by
  have hstarted := h.startTimers k busy dur hnow
  refine NiceStamps.forgetTimers (niceStamps_foldl (fun w hw pid => ?_) _ hstarted) k
  exact NiceStamps.unrenice hw k env pid

theorem NiceStamps.pruneLimiter (h : NiceStamps P w.nice) (k : NiceLimiterKind) (env : NiceEnv) :
    NiceStamps P (pruneLimiter k env w).nice := by
  cases k <;> exact h

/-- The heavy-process limiter runs timers of its own. -/
theorem NiceStamps.checkHeavyProcesses (h : NiceStamps P w.nice) (g : NicePolicy) (env : NiceEnv)
    (samples : List ProcSample) : NiceStamps P (checkHeavyProcesses g env samples w).nice := by
  have hstep : ∀ (c : Bool) (w : NiceWorld), NiceStamps P w.nice → ∀ p,
      NiceStamps P (heavyStep g env c w p).nice := by
    intro c w hw p
    unfold heavyStep
    split
    · exact hw
    · dsimp only
      split
      · exact hw
      · split
        · exact hw
        · split
          · exact hw
          · exact NiceStamps.reniceSample (by exact hw) _ _ _ _ p
  have hloop : ∀ c : Bool, NiceStamps P (samples.foldl (heavyStep g env c) w).nice := fun c =>
    niceStamps_foldl (hstep c) samples h
  unfold DraconGuard.checkHeavyProcesses
  dsimp only
  refine NiceStamps.pruneLimiter ?_ _ _
  split
  · refine NiceStamps.releaseLimiter ?_ .legacy _ _ nofun
    exact hloop _
  · exact hloop _

theorem NiceStamps.memorySteps (h : NiceStamps P w.nice) (g : NicePolicy) (env : NiceEnv)
    (offenders : List ProcSample) :
    NiceStamps P (offenders.foldl (memoryStep g env) w).nice := by
  refine niceStamps_foldl (fun w hw p => ?_) offenders h
  unfold memoryStep
  split
  · exact hw
  · exact NiceStamps.reniceSample hw _ _ _ _ p

theorem NiceStamps.restoreNice (h : NiceStamps P w.nice) (env : RuntimeRestoreEnv)
    (r : NiceRestore) : NiceStamps P (restoreNice env w r).nice := by
  have hdrop : NiceStamps P (removeNiceScope w.nice r.pid r.scope) := by
    cases r.scope
    · exact h.removeEntry .legacy r.pid
    · exact h.removeEntry .memory r.pid
    · exact (h.removeEntry .legacy r.pid).removeEntry .memory r.pid
  unfold DraconGuard.restoreNice
  dsimp only
  split
  · exact hdrop
  · exact hdrop
  · exact h
  · split
    · exact hdrop
    · split
      · exact hdrop
      · split
        · exact hdrop
        · exact h

end Nice

/-! ## The biases -/

section Oom

variable {P : Time → Prop} {o : OomState} {w : OomWorld}

theorem StampsOf.removeOomBias (h : StampsOf P o.oomCooledSince) (pid : Pid) :
    StampsOf P (removeOomBias o pid).oomCooledSince := by
  have herase := h.erase pid
  unfold DraconGuard.removeOomBias
  dsimp only
  split <;> exact herase

/-- Only the OOM timers and the bookkeeping of biases change: the others are as they were. -/
theorem Stamps.setOom (h : Stamps P w.state) {o : OomState} (ho : StampsOf P o.oomCooledSince) :
    Stamps P (w.setOom o).state := ⟨h.renices, ho, h.caps⟩

theorem Stamps.persist (h : Stamps P w.state) (env : PersistEnv) :
    Stamps P (w.persist env).1.state := by
  obtain ⟨l, hl⟩ := persistMitigations_state env w.state w.disk
  unfold OomWorld.persist
  dsimp only [OomWorld.mark]
  rw [hl]
  exact ⟨h.renices, h.biases, h.caps⟩

theorem stamps_foldl {α : Type} {f : OomWorld → α → OomWorld}
    (hf : ∀ w, Stamps P w.state → ∀ a, Stamps P (f w a).state) (as : List α) {w : OomWorld}
    (h : Stamps P w.state) : Stamps P (as.foldl f w).state := by
  induction as generalizing w with
  | nil => exact h
  | cons a as ih => exact ih (hf w h a)

/-- A bias changes the OOM bookkeeping and what is known to be on file; a timer at most goes. -/
theorem applyOomBias_state (env : BiasEnv) (p : ProcSample) (samples : List ProcSample)
    (w : OomWorld) : ∃ o l, (applyOomBias env p samples w).1.state =
        { w.state with oom := o, lastPersistedMitigations := l } ∧
      (o.oomCooledSince = w.state.oom.oomCooledSince ∨
        o.oomCooledSince = w.state.oom.oomCooledSince.erase p.pid) := by
  have hstop : ∀ s r, oomBiasIntent env p samples w = .stop s r →
      ∃ o, s = { w.state with oom := o } ∧ o.oomCooledSince = w.state.oom.oomCooledSince := by
    intro s r hs
    unfold oomBiasIntent at hs
    dsimp only at hs
    split_ifs at hs
    all_goals try (cases hs; exact ⟨_, rfl, rfl⟩)
    split at hs
    · cases hs; exact ⟨_, rfl, rfl⟩
    · split_ifs at hs
      · cases hs; exact ⟨_, rfl, rfl⟩
      · split at hs
        · cases hs; exact ⟨_, rfl, rfl⟩
        · cases hs
  unfold applyOomBias
  split
  · next s r hs =>
    obtain ⟨o, rfl, ho⟩ := hstop s r hs
    exact ⟨o, _, rfl, Or.inl ho⟩
  · next s original target hs =>
    obtain ⟨-, -, -, -, -, -, rfl⟩ := oomBiasIntent_intend hs
    obtain ⟨l, hl⟩ :=
      persistMitigations_state env.persist (biasedRuntime p samples original w.state) w.disk
    dsimp only [OomWorld.persist, OomWorld.mark]
    rw [hl]
    split_ifs
    · refine ⟨_, l, rfl, Or.inr ?_⟩
      unfold removeOomBias
      dsimp only
      split <;> rfl
    · exact ⟨_, l, rfl, Or.inl rfl⟩
    · exact ⟨_, l, rfl, Or.inl rfl⟩
    · rw [writeAdj_state]; exact ⟨_, l, rfl, Or.inl rfl⟩
    · rw [writeAdj_state]; exact ⟨_, l, rfl, Or.inl rfl⟩

theorem Stamps.applyOomBias (h : Stamps P w.state) (env : BiasEnv) (p : ProcSample)
    (samples : List ProcSample) : Stamps P (applyOomBias env p samples w).1.state := by
  obtain ⟨o, l, hstate, ho⟩ := applyOomBias_state env p samples w
  rw [hstate]
  refine ⟨h.renices, ?_, h.caps⟩
  rcases ho with ho | ho
  · dsimp only
    rw [ho]
    exact h.biases
  · dsimp only
    rw [ho]
    exact h.biases.erase p.pid

theorem Stamps.settleOomBias (h : Stamps P w.state) (env : RestoreEnv) (pid : Pid)
    (identity : ProcessIdentity) (orig : Int) :
    Stamps P (settleOomBias env w pid identity orig).state := by
  have hrestored : Stamps P (oomRestore env w pid identity orig .release).1.state := by
    rw [oomRestore_state]; exact h
  unfold DraconGuard.settleOomBias
  dsimp only
  split
  · exact hrestored
  · exact hrestored.setOom (hrestored.biases.removeOomBias pid)

theorem Stamps.releaseOomBias (h : Stamps P w.state) (env : ReleaseEnv) (pid : Pid) :
    Stamps P (releaseOomBias env w pid).state := by
  unfold DraconGuard.releaseOomBias
  dsimp only
  split
  · exact h
  · split
    · exact h.setOom (h.biases.removeOomBias pid)
    · exact h.setOom (h.biases.removeOomBias pid)
    · exact h.setOom h.biases
    · refine Stamps.settleOomBias ?_ _ _ _ _
      exact ⟨h.renices, h.biases, h.caps⟩

theorem Stamps.restoreOomBias (h : Stamps P w.state) (env : ReleaseEnv) (pid : Pid) :
    Stamps P (restoreOomBias env w pid).state := by
  unfold DraconGuard.restoreOomBias
  split
  · exact h
  · split
    · exact h.setOom (h.biases.removeOomBias pid)
    · exact h.setOom (h.biases.removeOomBias pid)
    · exact h
    · exact h.settleOomBias _ _ _ _

/-- A sweep works on descendants, which have no timer. -/
theorem Stamps.sweep (h : Stamps P w.state) (env : SweepEnv) (exempt : List String)
    (samples : List ProcSample) :
    Stamps P (sweepStrandedOomDescendants env exempt samples w).state := by
  refine sweep_induction (P := fun w => Stamps P w.state) (h.setOom ?_)
    (fun w env hw => hw.persist env) (fun w key hw => ?_)
  · have henlist : ∀ (o : OomState) (p : ProcSample) (tracked : Pid → Bool)
        (parents : Pid → Option Pid) (roots : FinMap Pid Int),
        (enlistStep tracked exempt parents roots o p).oomCooledSince = o.oomCooledSince := by
      intro o p tracked parents roots
      unfold enlistStep
      dsimp only
      split
      · rfl
      · split
        · rfl
        · split
          · rfl
          · split <;> rfl
    unfold enlistStrandedDescendants
    dsimp only
    rw [Runs.foldl_unwritten (·.oomCooledSince) fun o p => henlist o p _ _ _]
    exact h.biases
  · obtain ⟨o, hstate, -, hcooled⟩ := restorePendingStep_state env.pending exempt w key
    rw [hstate]
    exact ⟨hw.renices, hcooled ▸ hw.biases, hw.caps⟩

/-- The releases start the timers of whoever is biased still. -/
theorem Stamps.releaseOomBiases (h : Stamps P w.state) {env : ReleaseEnv} (hnow : P env.now) :
    Stamps P (releaseOomBiases env w).state := by
  unfold DraconGuard.releaseOomBiases
  split
  · exact h
  · have hset := (Cooling.loop hnow h.biases (fun _ => false) env.releaseAfterSecs
      w.state.oom.oomBiasedPids.keys).stamps
    dsimp only
    generalize w.state.oom.oomBiasedPids.keys.foldl
      (coolStep (fun _ => false) env.now env.releaseAfterSecs) (w.state.oom.oomCooledSince, []) =
      cooled at hset ⊢
    have hstarted : Stamps P (w.setOom { w.state.oom with oomCooledSince := cooled.1 }).state :=
      h.setOom hset
    have hreleased := stamps_foldl (fun w hw pid => Stamps.releaseOomBias hw env pid) cooled.2
      hstarted
    exact hreleased.setOom (hreleased.biases.retain _)

theorem Stamps.clearOomTimers (h : Stamps P w.state) : Stamps P (clearOomTimers w).state :=
  h.setOom .empty

theorem Stamps.pruneOom (h : Stamps P w.state) (readable : Pid → Bool)
    (samples : List ProcSample) : Stamps P (pruneOom readable samples w).state := h.setOom h.biases

end Oom

/-! ## The caps -/

section Caps

variable {P : Time → Prop} {w : CapWorld}

theorem capStamps_foldl {α : Type} {f : CapWorld → α → CapWorld}
    (hf : ∀ w, StampsOf P w.caps.capCooledSince → ∀ a, StampsOf P (f w a).caps.capCooledSince)
    (as : List α) {w : CapWorld} (h : StampsOf P w.caps.capCooledSince) :
    StampsOf P (as.foldl f w).caps.capCooledSince := by
  induction as generalizing w with
  | nil => exact h
  | cons a as ih => exact ih (hf w h a)

theorem capStamps_capOffenders (h : StampsOf P w.caps.capCooledSince) (env : CapEnv)
    (pressure : Pressure) (capPercent : Nat) (topRss : List ProcSample) :
    StampsOf P (capOffenders env pressure capPercent topRss w).caps.capCooledSince := by
  unfold capOffenders
  split
  · refine capStamps_foldl (fun w hw p => ?_) topRss h
    unfold capStep
    split
    · exact hw
    · split
      · exact hw
      · split <;> exact hw
  · exact h

theorem capStamps_releaseCap (h : StampsOf P w.caps.capCooledSince) (env : CapReleaseEnv)
    (pid : Pid) : StampsOf P (releaseCap env w pid).caps.capCooledSince := by
  have hlegacy : ∀ (e : CapEntry) (allow : Bool),
      StampsOf P (releaseLegacyCap (env.uncap pid) w pid e allow).caps.capCooledSince := by
    intro e allow
    unfold releaseLegacyCap
    dsimp only
    split
    · exact h.erase pid
    · exact h
  unfold releaseCap
  split
  · exact h
  · split
    · split
      · exact h.erase pid
      · exact h
    · split
      · exact hlegacy _ _
      · exact hlegacy _ _
      · exact hlegacy _ _
      · exact h

theorem capStamps_releaseCaps (h : StampsOf P w.caps.capCooledSince) {env : CapReleaseEnv}
    (hnow : P env.now) : StampsOf P (releaseCaps env w).caps.capCooledSince := by
  unfold releaseCaps
  split
  · exact h
  · have hset := (Cooling.loop hnow h (fun _ => false) env.releaseAfterSecs
      w.caps.cappedPids.keys).stamps
    refine StampsOf.retain ?_ _
    exact capStamps_foldl (fun w hw pid => capStamps_releaseCap hw env pid) _ hset

theorem capStamps_restoreLease (h : StampsOf P w.caps.capCooledSince) (env : CapReleaseEnv)
    (pid : Pid) : StampsOf P (restoreLease env w pid).caps.capCooledSince := by
  unfold restoreLease
  split
  · exact h
  · split
    · exact h.erase pid
    · exact h

theorem capStamps_restoreCap (h : StampsOf P w.caps.capCooledSince) (env : CapReleaseEnv)
    (pid : Pid) : StampsOf P (restoreCap env w pid).caps.capCooledSince := by
  unfold restoreCap
  split
  · exact h
  · split
    · split
      · exact h.erase pid
      · exact h
    · split
      · exact h.erase pid
      · exact h
    · split
      · exact h.erase pid
      · exact h
    · exact h

end Caps

/-! ## A pass, a restore, a hydration -/

section Whole

variable {P : Time → Prop} {w : OomWorld}

theorem Stamps.onNice (h : Stamps P w.state) {f : NiceWorld → NiceWorld}
    (hf : ∀ n : NiceWorld, NiceStamps P n.nice → NiceStamps P (f n).nice) :
    Stamps P (w.onNice f).state := ⟨hf _ h.renices, h.biases, h.caps⟩

theorem Stamps.onCaps (h : Stamps P w.state) {f : CapWorld → CapWorld}
    (hf : ∀ c : CapWorld, StampsOf P c.caps.capCooledSince →
      StampsOf P (f c).caps.capCooledSince) : Stamps P (w.onCaps f).state :=
  ⟨h.renices, h.biases, hf _ h.caps⟩

theorem Stamps.limitOffenders (h : Stamps P w.state) (g : AdjustPolicy) (env : PassEnv)
    (pressure : Pressure) (canRestore : Bool) (samples : List ProcSample) :
    Stamps P (limitOffenders g env pressure canRestore samples w).state := by
  have hbias : ∀ w : OomWorld, Stamps P w.state → ∀ p,
      Stamps P (biasOffender env samples w p).state := by
    intro w hw p
    unfold biasOffender
    split
    · exact hw
    · exact hw.applyOomBias _ _ _
  unfold DraconGuard.limitOffenders
  dsimp only
  refine Stamps.onCaps ?_ fun c hc => capStamps_capOffenders hc _ _ _ _
  have hreniced : Stamps P (if memoryReniceActive g.toNicePolicy (env.memory.under w) pressure
      canRestore then w.onNice ((memoryPressureOffenders samples g.processExemptNames).1.foldl
        (memoryStep g.toNicePolicy (env.memory.under w))) else w).state := by
    split
    · exact h.onNice fun n hn => NiceStamps.memorySteps hn _ _ _
    · exact h
  split
  · exact stamps_foldl hbias _ hreniced
  · exact hreniced

theorem Stamps.pruneOffenders (h : Stamps P w.state) (env : PassEnv) (samples : List ProcSample) :
    Stamps P (pruneOffenders env samples w).state := by
  unfold DraconGuard.pruneOffenders
  refine Stamps.onCaps (Stamps.pruneOom (h.onNice fun n hn => ?_) _ _) fun c hc => hc
  exact NiceStamps.pruneLimiter hn _ _

theorem Stamps.restoreRuntimeAdjustments (h : Stamps P w.state) (env : RuntimeRestoreEnv) :
    Stamps P (restoreRuntimeAdjustments env w).1.state := by
  have hprepared : ∀ samples, Stamps P (prepareRestore env samples w).state := fun samples =>
    Stamps.sweep (h.onCaps fun c hc =>
      capStamps_foldl (fun w hw pid => capStamps_restoreLease hw env.leases pid) _ hc) _ _ _
  unfold DraconGuard.restoreRuntimeAdjustments
  split
  · exact h
  · dsimp only
    generalize processSamples w.table env.rows = samples
    have hnice := (hprepared samples).onNice fun n hn =>
      niceStamps_foldl (fun w hw r => NiceStamps.restoreNice hw env r)
        (niceRestorePlan (prepareRestore env samples w).state.nice) hn
    unfold restorePlanned
    refine Stamps.onCaps (stamps_foldl (fun w hw pid => hw.restoreOomBias env.oom pid) _ hnice)
      fun c hc => ?_
    exact capStamps_foldl (fun w hw pid => capStamps_restoreCap hw env.caps pid) _ hc

/-- A hydration adopts obligations, no timers. -/
theorem Stamps.hydrate {s : GuardRuntimeState} (h : Stamps P s) (t : ProcTable) (env : HydrateEnv)
    (read : LedgerRead) : Stamps P (hydrateMitigationsFrom t env s read) := by
  have hledger : ∀ (s : GuardRuntimeState) (l : MitigationLedger), Stamps P s →
      Stamps P (hydrateLedger t env s l) := by
    intro s l hs
    have hpending : Stamps P (l.oomPending.foldl (hydratePending t env) s) :=
      List.foldlRecOn _ _ hs fun s hs p _ => by
        unfold hydratePending
        split
        · exact hs
        · exact ⟨hs.renices, hs.biases, hs.caps⟩
    have hknown : Stamps P (l.oomKnown.foldl hydrateKnown
        (l.oomPending.foldl (hydratePending t env) s)) :=
      List.foldlRecOn _ _ hpending fun s hs k _ => ⟨hs.renices, hs.biases, hs.caps⟩
    refine List.foldlRecOn l.records _ hknown fun s hs r _ => ?_
    unfold hydrateRecord
    split
    · exact hs
    · refine ⟨?_, hs.biases, hs.caps⟩
      dsimp only
      split
      · exact NiceStamps.insertEntry hs.renices .memory r.pid _
      · exact hs.renices
  have hunavailable : ∀ b, Stamps P { s with mitigationLedgerUnavailable := b } :=
    fun b => ⟨h.renices, h.biases, h.caps⟩
  unfold hydrateMitigationsFrom
  split
  · exact h
  · exact hunavailable true
  · exact hunavailable true
  · exact hunavailable true
  · split
    · exact hunavailable true
    · split
      · exact hunavailable true
      · dsimp only
        split
        · exact hunavailable _
        · exact hledger _ _ (hunavailable _)

end Whole

end DraconGuard
