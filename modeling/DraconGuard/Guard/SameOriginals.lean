import DraconGuard.Guard.ReleaseWindow

/-!
# One original for one process

A process both nice limiters hold is restored once, to one value: "both maps captured the same
pre-limiter nice value" (main.rs:3064). The plan does not compare the two. `sameOriginals_always`:
in every state a daemon reaches, entries of one incarnation remember one original.

A limiter that takes over what the other holds copies its original. Only a hydration fills the
memory map from outside, and none runs while the legacy map holds anything: until the ledger could
be read the heavy-process limiter adopts nothing.
-/

namespace DraconGuard

/-- Entries of one incarnation remember one original. -/
def SameOriginals (s : NiceState) : Prop :=
  ∀ pid l m, s.entry .legacy pid = some l → s.entry .memory pid = some m →
    l.identity.starttime = m.identity.starttime → l.originalNice = m.originalNice

theorem SameOriginals.eq {s : NiceState} (h : SameOriginals s) {pid : Pid} {k k' : NiceLimiterKind}
    {e e' : ReniceState} (he : s.entry k pid = some e) (he' : s.entry k' pid = some e')
    (hst : e.identity.starttime = e'.identity.starttime) : e.originalNice = e'.originalNice := by
  cases k <;> cases k'
  · rw [Option.some.inj (he.symm.trans he')]
  · exact h pid e e' he he' hst
  · exact (h pid e' e he' he hst.symm).symm
  · rw [Option.some.inj (he.symm.trans he')]

/-! ## Entries that only leave -/

/-- Every entry of `s'` is one of `s`. -/
def Fewer (s s' : NiceState) : Prop :=
  ∀ k pid e, s'.entry k pid = some e → s.entry k pid = some e

section Fewer

variable {s s' s'' : NiceState} {w : NiceWorld}

theorem Fewer.refl (s : NiceState) : Fewer s s := fun _ _ _ h => h

theorem Fewer.trans (h : Fewer s s') (h' : Fewer s' s'') : Fewer s s'' :=
  fun k pid e he => h k pid e (h' k pid e he)

theorem Fewer.sameOriginals (h : Fewer s s') (hs : SameOriginals s) : SameOriginals s' :=
  fun pid l m hl hm => hs pid l m (h .legacy pid l hl) (h .memory pid m hm)

theorem Fewer.removeEntry (k : NiceLimiterKind) (pid : Pid) : Fewer s (s.removeEntry k pid) := by
  intro k' pid' e he
  rw [NiceState.entry_removeEntry] at he
  split at he
  · cases he
  · exact he

theorem Fewer.setCounters (k : NiceLimiterKind) (c : FinMap Pid Time) (u f : FinMap Pid Nat) :
    Fewer s (s.setCounters k c u f) := by
  intro k' pid' e he
  rwa [NiceState.entry_setCounters] at he

theorem Fewer.dropStale (pid : Pid) (current : ProcessIdentity) :
    Fewer s (dropStaleNiceAdjustments s pid current) := by
  intro k' pid' e he
  rw [NiceState.entry_dropStale] at he
  split at he
  · exact (Option.filter_eq_some_iff.1 he).1
  · exact he

theorem fewer_unrenice (k : NiceLimiterKind) (env : NiceEnv) (w : NiceWorld) (pid : Pid) :
    Fewer w.nice (unrenice k env w pid).nice := by
  unfold unrenice
  split
  · exact Fewer.refl _
  · next e _ =>
    dsimp only
    split
    · exact Fewer.removeEntry k pid
    · exact Fewer.removeEntry k pid
    · split
      · exact (Fewer.setCounters k _ _ _).trans (Fewer.removeEntry k pid)
      · exact Fewer.setCounters k _ _ _
    · have hdrop := Fewer.dropStale (s := w.nice) pid e.identity
      split
      · exact hdrop.trans ((Fewer.setCounters k _ _ _).trans (Fewer.removeEntry k pid))
      · split
        · exact hdrop.trans ((Fewer.setCounters k _ _ _).trans (Fewer.removeEntry k pid))
        · exact hdrop.trans (Fewer.setCounters k _ _ _)

theorem fewer_foldl {α : Type} {f : NiceWorld → α → NiceWorld}
    (hf : ∀ w a, Fewer w.nice (f w a).nice) :
    ∀ (as : List α) (w : NiceWorld), Fewer w.nice (as.foldl f w).nice
  | [], w => Fewer.refl w.nice
  | a :: as, w => (hf w a).trans (fewer_foldl hf as (f w a))

theorem fewer_releaseLimiter (k : NiceLimiterKind) (busy : Pid → Bool) (dur : Nat) (env : NiceEnv)
    (w : NiceWorld) : Fewer w.nice (releaseLimiter k busy dur env w).nice :=
  (Fewer.setCounters k _ _ _).trans
    ((fewer_foldl (fun w pid => fewer_unrenice k env w pid) _ _).trans (Fewer.setCounters k _ _ _))

theorem fewer_pruneLimiter (k : NiceLimiterKind) (env : NiceEnv) (w : NiceWorld) :
    Fewer w.nice (pruneLimiter k env w).nice := by
  intro k' pid e he
  unfold pruneLimiter NiceState.entry at he
  dsimp only at he
  rw [NiceState.limiter_setLimiter] at he
  split at he
  · next hk =>
    subst hk
    exact (FinMap.lookup_retain_some.1 he).1
  · exact he

theorem fewer_restoreNice (env : RuntimeRestoreEnv) (w : NiceWorld) (r : NiceRestore) :
    Fewer w.nice (restoreNice env w r).nice := by
  intro k pid e he
  rw [entry_restoreNice] at he
  split at he
  · cases he
  · exact he

end Fewer

/-! ## Taking a process over -/

/-- What the dropped stale entries leave is of the current incarnation. -/
theorem starttime_dropStale {s : NiceState} {k : NiceLimiterKind} {pid : Pid}
    {current : ProcessIdentity} {e : ReniceState}
    (h : (dropStaleNiceAdjustments s pid current).entry k pid = some e) :
    e.identity.starttime = current.starttime := by
  rw [NiceState.entry_dropStale, if_pos rfl, Option.filter_eq_some_iff] at h
  have hsame := h.2
  simp only [sameProcessIncarnation, Bool.and_eq_true, beq_iff_eq] at hsame
  exact hsame.2

/-- The new entry copies the original of whoever holds the process. -/
theorem sameOriginals_reniceSample {w : NiceWorld} (h : SameOriginals w.nice) (k : NiceLimiterKind)
    (base : Int) (mayRestore reniceOk : Bool) (p : ProcSample) :
    SameOriginals (reniceSample k base mayRestore reniceOk w p).nice := by
  have hdrop := (Fewer.dropStale (s := w.nice) p.pid (processSampleIdentity p)).sameOriginals h
  unfold reniceSample
  dsimp only
  split
  · exact hdrop
  · split
    · set s := dropStaleNiceAdjustments w.nice p.pid (processSampleIdentity p) with hs
      set original := (((s.entry k p.pid).map (·.originalNice)).or
        ((s.entry k.other p.pid).map (·.originalNice))).getD p.nice with horiginal
      have hcopied : ∀ o, s.entry k.other p.pid = some o → original = o.originalNice := by
        intro o ho
        cases he : s.entry k p.pid with
        | none => rw [horiginal, he, ho]; rfl
        | some e =>
          have hst : e.identity.starttime = o.identity.starttime :=
            (starttime_dropStale (hs ▸ he)).trans (starttime_dropStale (hs ▸ ho)).symm
          rw [horiginal, he, ← hdrop.eq he ho hst]
          rfl
      intro pid l m hl hm hst
      rw [NiceState.entry_insertEntry] at hl hm
      by_cases hp : pid = p.pid
      · subst hp
        cases k with
        | legacy =>
          rw [if_pos ⟨rfl, rfl⟩] at hl
          rw [if_neg (by simp)] at hm
          obtain rfl := Option.some.inj hl
          exact hcopied m hm
        | memory =>
          rw [if_neg (by simp)] at hl
          rw [if_pos ⟨rfl, rfl⟩] at hm
          obtain rfl := Option.some.inj hm
          exact (hcopied l hl).symm
      · rw [if_neg fun h => hp h.2] at hl hm
        exact hdrop pid l m hl hm hst
    · exact hdrop

/-- The memory limiter adds nothing to the legacy map. -/
theorem legacy_reniceSample {w : NiceWorld} (base : Int) (mayRestore reniceOk : Bool)
    (p : ProcSample) {pid : Pid} {e : ReniceState}
    (h : (reniceSample .memory base mayRestore reniceOk w p).nice.entry .legacy pid = some e) :
    w.nice.entry .legacy pid = some e := by
  have hdrop := Fewer.dropStale (s := w.nice) p.pid (processSampleIdentity p) .legacy pid e
  unfold reniceSample at h
  dsimp only at h
  split at h
  · exact hdrop h
  · split at h
    · rw [NiceState.entry_insertEntry, if_neg (by simp)] at h
      exact hdrop h
    · exact hdrop h

/-! ## The invariant -/

/-- One original for one process, and no entry of the heavy-process limiter without a ledger. -/
structure OneOriginal (unavailable : Bool) (s : NiceState) : Prop where
  same : SameOriginals s
  none_legacy : unavailable = true → ∀ pid, s.entry .legacy pid = none

section Inv

variable {b : Bool} {s s' : NiceState} {n : NiceWorld}

theorem OneOriginal.of_fewer (h : OneOriginal b s) (hf : Fewer s s') : OneOriginal b s' where
  same := hf.sameOriginals h.same
  none_legacy hb pid := by
    cases he : s'.entry .legacy pid with
    | none => rfl
    | some e => exact absurd (hf .legacy pid e he) (by simp [h.none_legacy hb pid])

theorem oneOriginal_foldl {α : Type} {f : NiceWorld → α → NiceWorld}
    (hf : ∀ n a, OneOriginal b n.nice → OneOriginal b (f n a).nice) (as : List α) {n : NiceWorld}
    (h : OneOriginal b n.nice) : OneOriginal b (as.foldl f n).nice := by
  induction as generalizing n with
  | nil => exact h
  | cons a as ih => exact ih (hf n a h)

/-- With the ledger at hand either limiter may take a process over. -/
theorem oneOriginal_reniceSample (h : OneOriginal b n.nice) (hb : b = false) (k : NiceLimiterKind)
    (base : Int) (mayRestore reniceOk : Bool) (p : ProcSample) :
    OneOriginal b (reniceSample k base mayRestore reniceOk n p).nice where
  same := sameOriginals_reniceSample h.same k base mayRestore reniceOk p
  none_legacy htrue := by rw [hb] at htrue; cases htrue

theorem OneOriginal.checkHeavyProcesses (h : OneOriginal b n.nice) (g : NicePolicy) {env : NiceEnv}
    (henv : env.ledgerUnavailable = b) (samples : List ProcSample) :
    OneOriginal b (checkHeavyProcesses g env samples n).nice := by
  have hstep : ∀ (c : Bool) (n : NiceWorld) (p : ProcSample), OneOriginal b n.nice →
      OneOriginal b (heavyStep g env c n p).nice := by
    intro c n p hn
    have hnote : ∀ heavySince, OneOriginal b { n.nice with heavySince := heavySince } :=
      fun heavySince => hn.of_fewer fun k pid e he => by rwa [NiceState.entry_heavySince] at he
    unfold heavyStep
    split
    · exact hn
    · dsimp only
      split
      · exact hnote _
      · split
        · exact hnote _
        · next hgate =>
          split
          · exact hnote _
          · refine oneOriginal_reniceSample ?_ ?_ _ _ _ _ p
            · exact hnote _
            · rw [henv] at hgate
              cases b
              · rfl
              · exact absurd rfl hgate
  have hloop : ∀ c : Bool, OneOriginal b (samples.foldl (heavyStep g env c) n).nice := fun c =>
    oneOriginal_foldl (hstep c) samples h
  have hretain : ∀ (n : NiceWorld) heavySince, OneOriginal b n.nice →
      OneOriginal b { n.nice with heavySince := heavySince } :=
    fun n heavySince hn => hn.of_fewer fun k pid e he => by rwa [NiceState.entry_heavySince] at he
  unfold DraconGuard.checkHeavyProcesses
  dsimp only
  refine OneOriginal.of_fewer ?_ (fewer_pruneLimiter _ _ _)
  split
  · refine OneOriginal.of_fewer ?_ (fewer_releaseLimiter _ _ _ _ _)
    exact hretain _ _ (hloop _)
  · exact hretain _ _ (hloop _)

theorem OneOriginal.memorySteps (h : OneOriginal b n.nice) (g : NicePolicy) (env : NiceEnv)
    (offenders : List ProcSample) :
    OneOriginal b (offenders.foldl (memoryStep g env) n).nice := by
  refine oneOriginal_foldl (fun n p hn => ?_) offenders h
  unfold memoryStep
  split
  · exact hn
  · refine ⟨sameOriginals_reniceSample hn.same _ _ _ _ p, fun hb pid => ?_⟩
    cases he : (reniceSample .memory g.reniceValue (env.canRestoreFor p.pid) (env.reniceOk p.pid) n
        p).nice.entry .legacy pid with
    | none => rfl
    | some e => exact absurd (legacy_reniceSample _ _ _ _ he) (by simp [hn.none_legacy hb pid])

end Inv

/-! ## Runs of the daemon -/

/-- The state's nice maps, and whether its ledger may be relied on. -/
def OneOriginal.Of (s : GuardRuntimeState) : Prop :=
  OneOriginal s.mitigationLedgerUnavailable s.nice

/-- The nice maps and the flag stay. -/
def NiceKept (w w' : OomWorld) : Prop :=
  w'.state.nice = w.state.nice ∧
    w'.state.mitigationLedgerUnavailable = w.state.mitigationLedgerUnavailable

section Daemon

variable {w w' : OomWorld}

theorem NiceKept.trans {w'' : OomWorld} (h : NiceKept w w') (h' : NiceKept w' w'') :
    NiceKept w w'' := ⟨h'.1.trans h.1, h'.2.trans h.2⟩

theorem niceKept_foldl {α : Type} {f : OomWorld → α → OomWorld} (hf : ∀ w a, NiceKept w (f w a)) :
    ∀ (as : List α) (w : OomWorld), NiceKept w (as.foldl f w)
  | [], _ => ⟨rfl, rfl⟩
  | a :: as, w => (hf w a).trans (niceKept_foldl hf as (f w a))

theorem OneOriginal.Of.kept (h : OneOriginal.Of w.state) (hk : NiceKept w w') :
    OneOriginal.Of w'.state := by
  unfold OneOriginal.Of
  rw [hk.1, hk.2]
  exact h

theorem OneOriginal.Of.onNice (h : OneOriginal.Of w.state) {f : NiceWorld → NiceWorld}
    (hf : ∀ n : NiceWorld, OneOriginal w.state.mitigationLedgerUnavailable n.nice →
      OneOriginal w.state.mitigationLedgerUnavailable (f n).nice) :
    OneOriginal.Of (w.onNice f).state := hf _ h

theorem niceKept_persist (env : PersistEnv) (w : OomWorld) : NiceKept w (w.persist env).1 := by
  obtain ⟨l, hl⟩ := persistMitigations_state env w.state w.disk
  unfold OomWorld.persist
  dsimp only [NiceKept, OomWorld.mark]
  rw [hl]
  exact ⟨rfl, rfl⟩

theorem niceKept_applyOomBias (env : BiasEnv) (p : ProcSample) (samples : List ProcSample)
    (w : OomWorld) : NiceKept w (applyOomBias env p samples w).1 := by
  obtain ⟨o, l, hstate, -⟩ := applyOomBias_state env p samples w
  unfold NiceKept
  rw [hstate]
  exact ⟨rfl, rfl⟩

theorem niceKept_sweep (env : SweepEnv) (exempt : List String) (samples : List ProcSample)
    (w : OomWorld) : NiceKept w (sweepStrandedOomDescendants env exempt samples w) := by
  refine sweep_induction (P := NiceKept w) ⟨rfl, rfl⟩ (fun v env hv => hv.trans
    (niceKept_persist env v)) (fun v key hv => hv.trans ?_)
  obtain ⟨o, hstate, -⟩ := restorePendingStep_state env.pending exempt v key
  unfold NiceKept
  rw [hstate]
  exact ⟨rfl, rfl⟩

theorem niceKept_onCaps (f : CapWorld → CapWorld) (w : OomWorld) : NiceKept w (w.onCaps f) :=
  ⟨rfl, rfl⟩

theorem OneOriginal.Of.limitOffenders (h : OneOriginal.Of w.state) (g : AdjustPolicy)
    (env : PassEnv) (pressure : Pressure) (canRestore : Bool) (samples : List ProcSample) :
    OneOriginal.Of (limitOffenders g env pressure canRestore samples w).state := by
  have hbias : ∀ (w : OomWorld) (p : ProcSample), NiceKept w (biasOffender env samples w p) := by
    intro w p
    unfold biasOffender
    split
    · exact ⟨rfl, rfl⟩
    · exact niceKept_applyOomBias _ p samples w
  have hreniced : OneOriginal.Of (if memoryReniceActive g.toNicePolicy (env.memory.under w) pressure
      canRestore then w.onNice ((memoryPressureOffenders samples g.processExemptNames).1.foldl
        (memoryStep g.toNicePolicy (env.memory.under w))) else w).state := by
    split
    · exact h.onNice fun n hn => hn.memorySteps _ _ _
    · exact h
  unfold DraconGuard.limitOffenders
  dsimp only
  refine OneOriginal.Of.kept ?_ (niceKept_onCaps _ _)
  split
  · exact hreniced.kept (niceKept_foldl hbias _ _)
  · exact hreniced

theorem OneOriginal.Of.beforeReleases (h : OneOriginal.Of w.state) (g : AdjustPolicy)
    (env : PassEnv) (pressure : Pressure) (samples : List ProcSample) :
    OneOriginal.Of (beforeReleases g env pressure samples w).state := by
  have hlimited := fun canRestore => h.limitOffenders g env pressure canRestore samples
  unfold DraconGuard.beforeReleases
  refine OneOriginal.Of.kept ?_ (niceKept_sweep _ _ _ _)
  exact hlimited _

theorem OneOriginal.Of.releaseOffenders (h : OneOriginal.Of w.state) (g : AdjustPolicy)
    (env : PassEnv) (pressure : Pressure) (canRestore : Bool) :
    OneOriginal.Of (releaseOffenders g env pressure canRestore w).state := by
  by_cases hok : pressure = .ok
  · subst hok
    have hrenices : OneOriginal.Of (releaseRenices g env canRestore w).state := by
      unfold releaseRenices
      split
      · exact h.onNice fun n hn => hn.of_fewer (fewer_releaseLimiter _ _ _ _ _)
      · exact h
    have hkept : NiceKept (releaseRenices g env canRestore w)
        (releaseOomBiases env.oomRelease (releaseRenices g env canRestore w)) :=
      ⟨(releaseOomBiases_others _ _ 0).1, releaseOomBiases_unavailable _ _⟩
    rw [releaseOffenders_ok]
    exact (hrenices.kept hkept).kept (niceKept_onCaps _ _)
  · rw [releaseOffenders_pressure hok]
    refine OneOriginal.Of.kept (w := w.onNice (clearTimers .memory)) ?_ ⟨rfl, rfl⟩
    exact h.onNice fun n hn => hn.of_fewer (Fewer.setCounters _ _ _ _)

theorem OneOriginal.Of.checkMemoryPressure (h : OneOriginal.Of w.state) (g : AdjustPolicy)
    (env : PassEnv) (samples : List ProcSample) :
    OneOriginal.Of (checkMemoryPressure g env samples w).state := by
  cases hp : env.pressure with
  | none =>
    unfold DraconGuard.checkMemoryPressure
    rw [hp]
    exact h
  | some pressure =>
    rw [checkMemoryPressure_eq g env pressure hp]
    unfold pruneOffenders
    refine OneOriginal.Of.kept (w := (DraconGuard.releaseOffenders g env pressure _
      (DraconGuard.beforeReleases g env pressure samples w)).onNice
        (pruneLimiter .memory (env.memory.under _))) ?_ ⟨rfl, rfl⟩
    exact ((h.beforeReleases g env pressure samples).releaseOffenders g env pressure _).onNice
      fun n hn => hn.of_fewer (fewer_pruneLimiter _ _ _)

theorem OneOriginal.Of.runGuardOnce (h : OneOriginal.Of w.state) (g : AdjustPolicy)
    (env : PassEnv) : OneOriginal.Of (runGuardOnce g env w).1.state := by
  rw [runGuardOnce_eq]
  split
  · exact h
  · split
    · exact h
    · refine OneOriginal.Of.kept (OneOriginal.Of.checkMemoryPressure ?_ g env _)
        (niceKept_persist _ _)
      unfold afterHeavy
      refine OneOriginal.Of.onNice (w := { w with table := env.meanwhile w.table }) h fun n hn => ?_
      exact hn.checkHeavyProcesses _ rfl _

theorem OneOriginal.Of.restoreRuntimeAdjustments (h : OneOriginal.Of w.state)
    (env : RuntimeRestoreEnv) : OneOriginal.Of (restoreRuntimeAdjustments env w).1.state := by
  unfold DraconGuard.restoreRuntimeAdjustments
  split
  · exact h
  · dsimp only
    have hprepared : ∀ samples, OneOriginal.Of (prepareRestore env samples w).state :=
      fun samples => (h.kept (niceKept_onCaps _ _)).kept (niceKept_sweep _ _ _ _)
    unfold restorePlanned
    refine OneOriginal.Of.kept (OneOriginal.Of.kept ((hprepared _).onNice fun n hn => ?_)
      (niceKept_foldl (fun w pid => ?_) _ _)) (niceKept_onCaps _ _)
    · exact hn.of_fewer (fewer_foldl (fun n r => fewer_restoreNice env n r) _ n)
    · exact ⟨(rootOnly_restoreOomBias w pid).nice, (rootOnly_restoreOomBias w pid).unavailable⟩

/-- A hydration of a state whose legacy map is empty. -/
theorem OneOriginal.Of.hydrate {s : GuardRuntimeState} (h : ∀ pid, s.nice.entry .legacy pid = none)
    (t : ProcTable) (env : HydrateEnv) (read : LedgerRead) :
    OneOriginal.Of (hydrateMitigationsFrom t env s read) := by
  have hof : ∀ s : GuardRuntimeState, (∀ pid, s.nice.entry .legacy pid = none) →
      OneOriginal.Of s := fun s hs =>
    ⟨fun pid l m hl => absurd hl (by simp [hs pid]), fun _ => hs⟩
  have hledger : ∀ (s : GuardRuntimeState) (l : MitigationLedger),
      (∀ pid, s.nice.entry .legacy pid = none) →
        ∀ pid, (hydrateLedger t env s l).nice.entry .legacy pid = none := by
    intro s l hs
    have hpending : (l.oomPending.foldl (hydratePending t env) s).nice = s.nice :=
      Runs.foldl_unwritten (fun s : GuardRuntimeState => s.nice)
        (fun s p => by unfold hydratePending; split <;> rfl) _ s
    have hknown : (l.oomKnown.foldl hydrateKnown
        (l.oomPending.foldl (hydratePending t env) s)).nice = s.nice :=
      (Runs.foldl_unwritten (f := hydrateKnown) (fun s : GuardRuntimeState => s.nice)
        (fun s k => rfl) _ _).trans hpending
    refine List.foldlRecOn l.records _
      (motive := fun s' : GuardRuntimeState => ∀ pid, s'.nice.entry .legacy pid = none)
      (by rw [hknown]; exact hs) fun s' hs' r _ pid => ?_
    unfold hydrateRecord
    split
    · exact hs' pid
    · dsimp only
      split
      · rw [NiceState.entry_insertEntry, if_neg (by simp)]
        exact hs' pid
      · exact hs' pid
  unfold hydrateMitigationsFrom
  split
  · exact hof s h
  · exact hof _ h
  · exact hof _ h
  · exact hof _ h
  · split
    · exact hof _ h
    · split
      · exact hof _ h
      · dsimp only
        split
        · exact hof _ h
        · exact hof _ (hledger _ _ h)

theorem OneOriginal.Of.step {w : PressureWorld} (h : OneOriginal.Of w.state) (e : GuardEvent) :
    OneOriginal.Of (guardStep w e).state := by
  cases e with
  | pass i =>
    dsimp only [guardStep]
    unfold guardPass
    dsimp only
    split <;> exact h.runGuardOnce _ _
  | processes t => exact h
  | hydrate env readable =>
    dsimp only [guardStep]
    split
    · next hun => exact OneOriginal.Of.hydrate (h.none_legacy hun) _ _ _
    · exact h
  | restore env => exact h.restoreRuntimeAdjustments env
  | persist env => exact h.kept (niceKept_persist env w.toOomWorld)
  | reload env enabled =>
    have hrestored := h.restoreRuntimeAdjustments env
    dsimp only [guardStep, applyPolicyReload]
    split
    · exact hrestored
    · dsimp only
      split
      · exact ⟨fun _ _ _ hl => (nomatch hl), fun hb => (nomatch hb)⟩
      · exact hrestored

/-- **Entries of one incarnation remember one original, in every state of a daemon.** -/
theorem sameOriginals_always (t : ProcTable) (disk : LedgerDisk) (env : HydrateEnv)
    (readable : Bool) (es : List GuardEvent) :
    Runs.Always guardStep (fun w => SameOriginals w.state.nice)
      (guardStart t disk env readable) es := by
  have hstart : OneOriginal.Of (guardStart t disk env readable).state :=
    OneOriginal.Of.hydrate (fun pid => rfl) t env _
  have hrun : Runs.Always guardStep (fun w => OneOriginal.Of w.state)
      (guardStart t disk env readable) es :=
    Runs.Always.of_inv (fun w e hw => OneOriginal.Of.step hw e) hstart
  exact hrun.mono fun w hw => hw.same

end Daemon

end DraconGuard
