import DraconGuard.Lib.Overlap
import DraconGuard.Guard.Nice

/-!
# Both limiters give the nice value back

Seen from one pid the limiters are two overlapping adjusters of its nice value
(`Lib/Overlap`): each remembers an original while it holds an entry. The invariant of a run
is `Overlap.Owes` for every live process. A step keeps it as long as a limiter that takes
over a process nobody holds reads that process's real nice value from its sample
(`FreshCaptures`). The shared scan of a pass breaks this: the heavy half may have just
restored the process the memory half then renices from the old sample.
-/

namespace DraconGuard

open NiceState

/-- Every identity reads as a match and every renice succeeds. -/
structure NiceEnv.AllWell (env : NiceEnv) : Prop where
  sample : ∀ pid, env.sampleReadable pid = true
  release : ∀ pid, env.releaseReadable pid = true
  prune : ∀ pid, env.pruneReadable pid = true
  renice : ∀ pid, env.reniceOk pid = true

/-- Neither map holds the pid. -/
def NiceView.Untracked (v : NiceView) : Prop := ∀ k, v.held k = none

/-- The steps of an undisturbed run: every tracked identity still reads as a match, renices
succeed, `ps` lists a pid once, and a reused pid has another starttime. -/
def Undisturbed (m : NiceMachine) : NiceInput → Prop
  | .spawn pid p => ∀ q ∈ m.phase.samples, q.pid = pid → q.starttime ≠ p.starttime
  | .exit pid => (m.view pid).Untracked
  | .scan rows => (rows.map (·.pid)).Nodup
  | .heavy env => env.AllWell
  | .memory env _ => env.AllWell

/-- What a limiter is about to take over has its real nice value in the sample, and what it
takes over again has a known starttime. -/
def FreshCaptures (g : NicePolicy) (m : NiceMachine) : NiceInput → Prop
  | .heavy _ => ∀ q ∈ m.phase.samples, heavySample g q = true → q.starttime = 0 →
      (m.view q.pid).Untracked
  | .memory env (some pressure) =>
      memoryReniceActive g env pressure (canRestoreNice g.autoReniceOnMemory .memory env m.nice) =
        true →
      ∀ q ∈ (memoryPressureOffenders m.phase.samples g.processExemptNames).1,
        (q.starttime = 0 → (m.view q.pid).Untracked) ∧
        ∀ p, m.table q.pid = some p → p.starttime = q.starttime → (m.view q.pid).Untracked →
          env.canRestoreFor q.pid = true → q.nice = p.nice
  | _ => True

/-- A process neither map holds an entry for has the nice value it had before the guard. -/
def NiceRestored (m : NiceMachine) : Prop :=
  ∀ pid p, m.table pid = some p →
    (∀ e, m.nice.legacy.renicedPids.lookup pid = some e → e.identity.starttime ≠ p.starttime) →
    (∀ e, m.nice.memory.renicedPids.lookup pid = some e → e.identity.starttime ≠ p.starttime) →
    p.nice = m.unadjusted pid

/-! ## One pid -/

/-- The two limiters as holders of one nice value. -/
def NiceView.cell (v : NiceView) (live : Int) : Overlap.Cell NiceLimiterKind Int :=
  ⟨live, fun k => (v.held k).map (·.originalNice)⟩

/-- The invariant of one pid: entries name the live incarnation, and its nice value is owed. -/
structure NiceOk (base : Int) (v : NiceView) : Prop where
  alive : ∀ k e, v.held k = some e → ∃ p, v.proc = some p ∧ p.starttime = e.identity.starttime
  owes : ∀ p, v.proc = some p → Overlap.Owes base (v.cell p.nice)

/-- What the outside must say about a sample before a limiter may act on it. -/
structure SampleOk (q : ProcSample) (mayRestore : Bool) (v : NiceView) : Prop where
  known : q.starttime = 0 → v.Untracked
  fresh : ∀ p, v.proc = some p → p.starttime = q.starttime → v.Untracked → mayRestore = true →
    q.nice = p.nice

theorem same_of_starttime {a b : ProcessIdentity} (h0 : a.starttime ≠ 0)
    (h : a.starttime = b.starttime) : sameProcessIncarnation a b = true := by
  simp [sameProcessIncarnation, h, h ▸ h0]

/-- On the live incarnation of a known starttime nothing is stale. -/
theorem entry_dropStale_live {base : Int} {w : NiceWorld} {pid : Pid} {p : Proc}
    (id : ProcessIdentity) (hok : NiceOk base (w.view pid)) (hp : w.table pid = some p)
    (hid : p.starttime = id.starttime) (h0 : id.starttime = 0 → (w.view pid).Untracked)
    (k : NiceLimiterKind) :
    (dropStaleNiceAdjustments w.nice pid id).entry k pid = w.nice.entry k pid := by
  rw [entry_dropStale, if_pos rfl]
  cases he : w.nice.entry k pid with
  | none => rfl
  | some e =>
    obtain ⟨p', hp', hst⟩ := hok.alive k e he
    obtain rfl : p = p' := Option.some.inj (hp.symm.trans hp')
    have hne : e.identity.starttime ≠ 0 := fun h => by
      have hun := h0 (hid ▸ hst ▸ h) k
      rw [show (w.view pid).held k = w.nice.entry k pid from rfl, he] at hun
      cases hun
    rw [Option.filter, if_pos (same_of_starttime hne (hst ▸ hid))]

theorem reniceSample_ok {base : Int} {w : NiceWorld} {k : NiceLimiterKind} {b : Int} {r o : Bool}
    {q : ProcSample} {p : Proc} (hp : w.table q.pid = some p) (hst : p.starttime = q.starttime)
    (hq : SampleOk q r (w.view q.pid)) (hok : NiceOk base (w.view q.pid)) :
    NiceOk base ((reniceSample k b r o w q).view q.pid) := by
  have hdrop := entry_dropStale_live (processSampleIdentity q) hok hp hst hq.known
  have hview : ∀ s : NiceState, (∀ k, s.entry k q.pid = w.nice.entry k q.pid) →
      NiceOk base (NiceWorld.view { w with nice := s } q.pid) := by
    intro s hs
    have : NiceWorld.view { w with nice := s } q.pid = w.view q.pid := by
      simp [NiceWorld.view, hs]
    rw [this]; exact hok
  unfold reniceSample
  simp only
  split_ifs with happ hgo
  · exact hview _ hdrop
  · rw [Bool.and_eq_true] at hgo
    set orig := (((w.nice.entry k q.pid).map (·.originalNice)).or
      ((w.nice.entry k.other q.pid).map (·.originalNice))).getD q.nice with horig
    have hsrc : Overlap.Sourced ((w.view q.pid).cell p.nice) orig := by
      cases hk : w.nice.entry k q.pid with
      | some e => exact Or.inl ⟨k, by simp [NiceView.cell, NiceWorld.view, horig, hk]⟩
      | none =>
        cases hk' : w.nice.entry k.other q.pid with
        | some e => exact Or.inl ⟨k.other, by simp [NiceView.cell, NiceWorld.view, horig, hk, hk']⟩
        | none =>
          have hun : (w.view q.pid).Untracked := by
            intro j; cases j <;> cases k <;> first | exact hk | exact hk'
          refine Or.inr ⟨fun j => by simp [NiceView.cell, hun j], ?_⟩
          simpa [NiceView.cell, horig, hk, hk'] using hq.fresh p hp hst hun hgo.1
    refine ⟨fun j e he => ?_, fun p' hp' => ?_⟩
    · refine ⟨{ p with nice := memoryOffenderNiceValue q b }, ?_, ?_⟩
      · simp [NiceWorld.view, ProcTable.renice_apply, hp]
      · simp only [NiceWorld.view, entry_insertEntry, hdrop] at he
        split at he
        · obtain rfl := Option.some.inj he; exact hst
        · obtain ⟨p', hp', hs'⟩ := hok.alive j e he
          obtain rfl : p = p' := Option.some.inj (hp.symm.trans hp')
          exact hs'
    · have hp'' : p' = { p with nice := memoryOffenderNiceValue q b } := by
        simpa [NiceWorld.view, ProcTable.renice_apply, hp, eq_comm] using hp'
      have := (hok.owes p hp).acquire (i := k) (v := memoryOffenderNiceValue q b) hsrc
      convert this using 1
      ext j
      · rw [hp'']; rfl
      · by_cases hj : j = k
        · subst hj
          simp [NiceView.cell, NiceWorld.view, entry_insertEntry, Overlap.acquire, hdrop, horig]
        · simp [NiceView.cell, NiceWorld.view, entry_insertEntry, Overlap.acquire, hdrop, hj]
  · exact hview _ hdrop

/-- Letting go under a known starttime is a release of the cell; the value put back is the
other limiter's applied value while that one still holds the process. -/
theorem unrenice_ok {base : Int} {w : NiceWorld} {k : NiceLimiterKind} {env : NiceEnv} {pid : Pid}
    (henv : env.AllWell) (hok : NiceOk base (w.view pid)) :
    NiceOk base ((unrenice k env w pid).view pid) := by
  unfold unrenice
  cases he : w.nice.entry k pid with
  | none => exact hok
  | some e =>
    obtain ⟨p, hp, hst⟩ := hok.alive k e he
    have hp' : w.table pid = some p := hp
    simp only [henv.release pid, processIdentityStatus_live hp' hst, henv.renice pid, if_true]
    set v := (((w.nice.entry k.other pid).filter
      fun o => sameProcessIncarnation o.identity e.identity).map (·.appliedNice)).getD
      e.originalNice with hv
    have horig : e.originalNice = base :=
      (hok.owes p hp).remembered k e.originalNice (by
        show (w.nice.entry k pid).map _ = _
        rw [he]; rfl)
    refine ⟨fun j e' he' => ⟨{ p with nice := v }, ?_, ?_⟩, fun p' hpv => ?_⟩
    · simp [NiceWorld.view, ProcTable.renice_apply, hp']
    · simp only [NiceWorld.view, entry_removeEntry, entry_setCounters, entry_dropStale] at he'
      split at he'
      · cases he'
      · rw [if_pos trivial, Option.filter_eq_some_iff] at he'
        obtain ⟨p'', hp'', hst''⟩ := hok.alive j e' he'.1
        obtain rfl : p = p'' := Option.some.inj (hp.symm.trans hp'')
        exact hst''
    · have hlive : p'.nice = v := by
        have : { p with nice := v } = p' := by
          simpa [NiceWorld.view, ProcTable.renice_apply, hp'] using hpv
        rw [← this]
      by_cases h0 : e.identity.starttime = 0
      · -- an unknown starttime: both entries leave, and the own original is put back
        have hnone : ∀ o : Option ReniceState,
            (o.filter fun e' => sameProcessIncarnation e'.identity e.identity) = none := by
          intro o
          rw [Option.filter_eq_none_iff]
          intro e' _
          simp only [sameProcessIncarnation, h0, Bool.and_eq_true, bne_iff_ne, beq_iff_eq]
          omega
        refine ⟨fun j o hj => ?_, fun _ => ?_⟩
        · simp [NiceView.cell, NiceWorld.view, entry_removeEntry, entry_dropStale, hnone] at hj
        · simp only [NiceView.cell, hlive, hv, hnone]
          exact horig
      · have hdrop := entry_dropStale_live _ hok hp' hst (fun h => absurd h h0)
        have hsame : ((w.nice.entry k.other pid).filter
            fun o => sameProcessIncarnation o.identity e.identity) = w.nice.entry k.other pid := by
          rw [← hdrop k.other, entry_dropStale, if_pos rfl, Option.filter_filter]
          simp
        have hset : Overlap.Settles ((w.view pid).cell p.nice) k v := by
          intro hnone
          have hother := hnone k.other (by cases k <;> simp [NiceLimiterKind.other])
          simp only [NiceView.cell, NiceWorld.view, Option.map_eq_none_iff] at hother
          simp [NiceView.cell, NiceWorld.view, he, hv, hother]
        convert (hok.owes p hp).release hset using 1
        ext j
        · exact hlive
        · by_cases hj : j = k
          · subst hj
            simp [NiceView.cell, NiceWorld.view, entry_removeEntry, Overlap.release]
          · simp [NiceView.cell, NiceWorld.view, entry_removeEntry, Overlap.release, hdrop, hj]

theorem heavyStep_ok {base : Int} {g : NicePolicy} {env : NiceEnv} {c : Bool} {w : NiceWorld}
    {q : ProcSample} (hok : NiceOk base (w.view q.pid))
    (hq : heavySample g q = true → SampleOk q true (w.view q.pid)) :
    NiceOk base ((heavyStep g env c w q).view q.pid) := by
  have hview : ∀ h : FinMap Pid (Time × Nat),
      NiceWorld.view { w with nice := { w.nice with heavySince := h } } q.pid = w.view q.pid := by
    intro h; simp [NiceWorld.view]
  unfold heavyStep
  simp only
  split_ifs with hheavy hsus hgate hcur
  · exact hok
  · rw [hview]; exact hok
  · rw [hview]; exact hok
  · rw [hview]; exact hok
  · simp only [Bool.not_eq_true, Bool.not_eq_false', Bool.and_eq_true, beq_iff_eq,
      processSampleIsCurrent] at hcur hheavy
    obtain ⟨-, p, hp, hst⟩ := processIdentityStatus_matching hcur.1
    refine reniceSample_ok hp hst ?_ ?_
    · rw [hview]; exact hq (by simpa using hheavy)
    · rw [hview]; exact hok

theorem memoryStep_ok {base : Int} {g : NicePolicy} {env : NiceEnv} {w : NiceWorld}
    {q : ProcSample} (hok : NiceOk base (w.view q.pid))
    (hq : SampleOk q (env.canRestoreFor q.pid) (w.view q.pid)) :
    NiceOk base ((memoryStep g env w q).view q.pid) := by
  unfold memoryStep
  split_ifs with hcur
  · exact hok
  · simp only [Bool.not_eq_true', Bool.not_eq_false, processSampleIsCurrent, beq_iff_eq] at hcur
    obtain ⟨-, p, hp, hst⟩ := processIdentityStatus_matching hcur
    exact reniceSample_ok hp hst hq hok

/-! ## The halves of a pass -/

/-- Every pid of the world is in order. -/
def NiceWorldOk (base : Pid → Int) (w : NiceWorld) : Prop := ∀ pid, NiceOk (base pid) (w.view pid)

theorem NiceWorldOk.of_view {base : Pid → Int} {w w' : NiceWorld} (h : NiceWorldOk base w)
    (hv : ∀ pid, w'.view pid = w.view pid) : NiceWorldOk base w' :=
  fun pid => hv pid ▸ h pid

theorem releaseLimiter_ok {base : Pid → Int} {w : NiceWorld} {k : NiceLimiterKind}
    {busy : Pid → Bool} {dur : Nat} {env : NiceEnv} (henv : env.AllWell)
    (hok : NiceWorldOk base w) : NiceWorldOk base (releaseLimiter k busy dur env w) := by
  refine NiceWorldOk.of_view ?_ (view_forgetTimers k _)
  refine Runs.foldl_keyed_all NiceWorld.view id (fun pid v => NiceOk (base pid) v)
    (fun w pid pid' h => view_unrenice_ne k env w pid pid' h)
    (fun w pid h => unrenice_ok henv h) _ _ ?_
  exact hok.of_view fun pid => by simp

theorem pruneLimiter_ok {base : Pid → Int} {w : NiceWorld} {k : NiceLimiterKind} {env : NiceEnv}
    (henv : env.AllWell) (hok : NiceWorldOk base w) : NiceWorldOk base (pruneLimiter k env w) := by
  refine hok.of_view fun pid => ?_
  ext j e
  · rfl
  · simp only [NiceWorld.view, pruneLimiter]
    by_cases hj : j = k
    · subst hj
      simp only [entry, limiter_setLimiter, if_true, FinMap.lookup_retain_some]
      refine ⟨fun h => h.1, fun h => ⟨h, ?_⟩⟩
      obtain ⟨p, hp, hst⟩ := (hok pid).alive j e h
      rw [henv.prune, processIdentityStatus_live hp hst]
      rfl
    · simp [entry, hj]

theorem checkHeavyProcesses_ok {base : Pid → Int} {g : NicePolicy} {env : NiceEnv}
    {samples : List ProcSample} {w : NiceWorld} (henv : env.AllWell)
    (hnd : (samples.map (·.pid)).Nodup)
    (hs : ∀ q ∈ samples, heavySample g q = true → SampleOk q true (w.view q.pid))
    (hok : NiceWorldOk base w) : NiceWorldOk base (checkHeavyProcesses g env samples w) := by
  unfold checkHeavyProcesses
  simp only
  refine pruneLimiter_ok henv ?_
  have hloop : NiceWorldOk base
      (samples.foldl (heavyStep g env (canRestoreNice g.autoRenice .legacy env w.nice)) w) :=
    Runs.foldl_keyed NiceWorld.view ProcSample.pid (fun pid v => NiceOk (base pid) v)
      (fun q v => heavySample g q = true → SampleOk q true v)
      (fun w q pid h => view_heavyStep_ne g env _ w q pid h)
      (fun w q h hq => heavyStep_ok h hq) samples w hnd hs hok
  split
  · exact releaseLimiter_ok henv (hloop.of_view fun pid => by simp [NiceWorld.view])
  · exact hloop.of_view fun pid => by simp [NiceWorld.view]

theorem checkMemoryRenice_ok {base : Pid → Int} {g : NicePolicy} {env : NiceEnv}
    {pressure : Option Pressure} {samples : List ProcSample} {w : NiceWorld} (henv : env.AllWell)
    (hnd : (samples.map (·.pid)).Nodup)
    (hs : ∀ pr, pressure = some pr →
      memoryReniceActive g env pr (canRestoreNice g.autoReniceOnMemory .memory env w.nice) = true →
      ∀ q ∈ (memoryPressureOffenders samples g.processExemptNames).1,
        SampleOk q (env.canRestoreFor q.pid) (w.view q.pid))
    (hok : NiceWorldOk base w) :
    NiceWorldOk base (checkMemoryRenice g env pressure samples w) := by
  cases pressure with
  | none => exact hok
  | some pr =>
    simp only [checkMemoryRenice]
    refine pruneLimiter_ok henv ?_
    set c := canRestoreNice g.autoReniceOnMemory .memory env w.nice
    have hloop : NiceWorldOk base (if memoryReniceActive g env pr c = true then
        (memoryPressureOffenders samples g.processExemptNames).1.foldl (memoryStep g env) w
        else w) := by
      split
      · rename_i hact
        exact Runs.foldl_keyed NiceWorld.view ProcSample.pid (fun pid v => NiceOk (base pid) v)
          (fun q v => SampleOk q (env.canRestoreFor q.pid) v)
          (fun w q pid h => view_memoryStep_ne g env w q pid h)
          (fun w q h hq => memoryStep_ok h hq) _ w (nodup_memoryPressureOffenders hnd)
          (hs pr rfl hact) hok
      · exact hok
    split
    · split
      · exact releaseLimiter_ok henv hloop
      · exact hloop
    · exact hloop.of_view (view_clearTimers .memory _)

/-! ## Runs -/

/-- The invariant of a run: every pid is in order, and until the heavy half has run the scan
shows the real nice value of every process nobody holds. -/
structure NiceInv (m : NiceMachine) : Prop where
  ok : NiceWorldOk m.unadjusted m.toNiceWorld
  nodup : (m.phase.samples.map (·.pid)).Nodup
  fresh : ∀ ss, m.phase = .scanned ss → ∀ q ∈ ss, ∀ p, m.table q.pid = some p →
    p.starttime = q.starttime → (m.view q.pid).Untracked → q.nice = p.nice

theorem niceStart_inv (t : ProcTable) : NiceInv (niceStart t) where
  ok pid := by
    have hnone : ∀ k, ((niceStart t).view pid).held k = none := by intro k; cases k <;> rfl
    refine ⟨fun k e he => ?_, fun p hp => ⟨fun k o ho => ?_, fun _ => ?_⟩⟩
    · rw [hnone k] at he; cases he
    · have : ((niceStart t).view pid).held k = none := hnone k
      simp [NiceView.cell, this] at ho
    · have hp' : t pid = some p := hp
      simp [NiceView.cell, niceStart, hp']
  nodup := List.nodup_nil
  fresh ss h := by cases h

/-- A pid whose row and entries do not change stays in order. -/
theorem NiceWorldOk.update {base : Pid → Int} {w : NiceWorld} (h : NiceWorldOk base w) (pid : Pid)
    (row : Option Proc) (b : Int)
    (hun : (w.view pid).Untracked) (hb : ∀ p, row = some p → p.nice = b) :
    NiceWorldOk (Function.update base pid b) { w with table := Function.update w.table pid row } := by
  intro pid'
  by_cases hp : pid' = pid
  · subst hp
    refine ⟨fun k e he => ?_, fun p hpv => ⟨fun k o ho => ?_, fun _ => ?_⟩⟩
    · have : w.nice.entry k pid' = some e := he
      rw [show w.nice.entry k pid' = none from hun k] at this
      cases this
    · have : w.nice.entry k pid' = none := hun k
      simp [NiceView.cell, NiceWorld.view, this] at ho
    · have : row = some p := by simpa [NiceWorld.view] using hpv
      simpa [NiceView.cell] using hb p this
  · have : NiceWorld.view { w with table := Function.update w.table pid row } pid' = w.view pid' := by
      simp [NiceWorld.view, hp]
    rw [this, Function.update_of_ne hp]
    exact h pid'

theorem untracked_of_absent {base : Int} {v : NiceView} (h : NiceOk base v) (hp : v.proc = none) :
    v.Untracked := by
  intro k
  cases he : v.held k with
  | none => rfl
  | some e =>
    obtain ⟨p, hp', -⟩ := h.alive k e he
    rw [hp] at hp'; cases hp'

theorem niceStep_inv (g : NicePolicy) (m : NiceMachine) (i : NiceInput) (hm : NiceInv m)
    (hi : Undisturbed m i ∧ FreshCaptures g m i) : NiceInv (niceStep g m i) := by
  obtain ⟨hdom, hcond⟩ := hi
  cases i with
  | spawn pid p =>
    simp only [niceStep]
    split
    · exact hm
    · rename_i hfree
      have habs : m.table pid = none := by simpa using hfree
      have hun := untracked_of_absent (hm.ok pid) habs
      refine ⟨hm.ok.update pid (some p) p.nice hun fun q hq => by cases hq; rfl, hm.nodup, ?_⟩
      intro ss hss q hq p' hp' hst hunq
      by_cases hqp : q.pid = pid
      · have : p = p' := by simpa [hqp] using hp'
        have hne := hdom q (by rw [show m.phase = _ from hss]; exact hq) hqp
        exact absurd (this ▸ hst.symm) hne
      · exact hm.fresh ss hss q hq p' (by simpa [hqp] using hp') hst hunq
  | exit pid =>
    refine ⟨?_, hm.nodup, ?_⟩
    · have := hm.ok.update pid none (m.unadjusted pid) hdom (by intro p hp; cases hp)
      rwa [Function.update_eq_self] at this
    · intro ss hss q hq p hp hst hunq
      by_cases hqp : q.pid = pid
      · simp [niceStep, hqp] at hp
      · exact hm.fresh ss hss q hq p (by simpa [niceStep, hqp] using hp) hst hunq
  | scan rows =>
    refine ⟨hm.ok, (map_pid_processSamples_sublist m.table rows).nodup hdom, ?_⟩
    intro ss hss q hq p hp _ _
    obtain rfl : processSamples m.table rows = ss := by simpa [niceStep] using hss
    obtain ⟨p', hp', -, hn, -⟩ := mem_processSamples hq
    have : p' = p := Option.some.inj (hp'.symm.trans hp)
    rw [hn, this]
  | heavy env =>
    simp only [niceStep]
    split
    · rename_i ss hph
      have hnd : (ss.map (·.pid)).Nodup := by simpa [hph, PassPhase.samples] using hm.nodup
      refine ⟨checkHeavyProcesses_ok hdom hnd (fun q hq hh => ⟨?_, ?_⟩) hm.ok, hnd, ?_⟩
      · exact hcond q (by rw [hph]; exact hq) hh
      · exact fun p hp hst hun _ => hm.fresh ss hph q hq p hp hst hun
      · intro ss' h; cases h
    · exact hm
  | memory env pressure =>
    simp only [niceStep]
    split
    · rename_i ss hph
      have hnd : (ss.map (·.pid)).Nodup := by simpa [hph, PassPhase.samples] using hm.nodup
      refine ⟨checkMemoryRenice_ok hdom hnd (fun pr hpr hact q hq => ?_) hm.ok, List.nodup_nil, ?_⟩
      · subst hpr
        have := hcond hact q (by rw [hph]; exact hq)
        exact ⟨this.1, this.2⟩
      · intro ss' h; cases h
    · exact hm

theorem NiceInv.restored {m : NiceMachine} (h : NiceInv m) : NiceRestored m := by
  intro pid p hp hl hme
  refine ((h.ok pid).owes p hp).settled fun k => ?_
  have hno : ∀ e, m.nice.entry k pid = some e → e.identity.starttime ≠ p.starttime := by
    cases k
    · exact hl
    · exact hme
  cases he : m.nice.entry k pid with
  | none => simp [NiceView.cell, NiceWorld.view, he]
  | some e =>
    obtain ⟨p', hp', hst⟩ := (h.ok pid).alive k e he
    have : p' = p := Option.some.inj (hp'.symm.trans hp)
    exact absurd (this ▸ hst.symm) (hno e he)

/-- A host with one compiler process, pid 7, nice 0. -/
def compilerTable : ProcTable := fun pid =>
  if pid = 7 then some { ppid := 1, comm := "cc1", starttime := 100 } else none

/-- A policy that renices heavy processes, and lets go after a minute. -/
def briskPolicy : NicePolicy where
  processExemptNames := []
  processCpuPercent := 180
  processSustainSecs := 60
  autoRenice := true
  releaseAfterSecs := 60

def busyRow : PsRow := { pid := 7, cpuPercent := 300, rssMb := 100 }

def calmRow : PsRow := { pid := 7, cpuPercent := 1, rssMb := 100 }

/-- One whole pass in which everything the guard asks for succeeds. -/
def passAt (now : Time) (row : PsRow) (pressure : Pressure) : List NiceInput :=
  [.scan [row], .heavy { now := now }, .memory { now := now } (some pressure)]

theorem undisturbed_passAt {now : Time} {row : PsRow} {pressure : Pressure} {i : NiceInput}
    (h : i ∈ passAt now row pressure) (m : NiceMachine) : Undisturbed m i := by
  simp only [passAt, List.mem_cons, List.not_mem_nil, or_false] at h
  rcases h with rfl | rfl | rfl
  · exact List.nodup_singleton _
  · exact ⟨fun _ => rfl, fun _ => rfl, fun _ => rfl, fun _ => rfl⟩
  · exact ⟨fun _ => rfl, fun _ => rfl, fun _ => rfl, fun _ => rfl⟩

/-- The process is reniced to 10 for its CPU use. It calms down, its release falls due at 160,
and in that pass memory pressure is up: the heavy half restores 0, the memory half renices
from the scan, which still says 10, and remembers 10. The last release puts 10 back. -/
def staleCaptureRun : List NiceInput :=
  passAt 0 busyRow .ok ++ passAt 60 busyRow .ok ++ passAt 100 calmRow .ok ++
    passAt 160 calmRow .warn ++ passAt 200 calmRow .ok ++ passAt 260 calmRow .ok

/-- Pressure alone: the memory limiter takes the process over at 0 and gives it back. -/
def pressureRun : List NiceInput :=
  passAt 0 calmRow .warn ++ passAt 60 calmRow .ok ++ passAt 120 calmRow .ok

end DraconGuard
