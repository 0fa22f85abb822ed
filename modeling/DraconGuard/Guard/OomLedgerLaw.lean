import DraconGuard.Lib.Runs
import DraconGuard.Guard.Oom

/-!
# The write-ahead ledger covers every raised process

The invariant of a run (`OomInv`): a raised incarnation is live at the target value, its
bias record is in `oom_biased_pids` with the value the guard found, and every ledger a crash
could leave behind restores it. Each effect keeps it; raising a process needs the ledger with
its record to be the only one on the disk, which is what the write-ahead is for.

The write-ahead is skipped when the encoding equals the one last written. A persist that
replaced the file and then failed to sync the directory does not count as written, so the
skip compares with an older ledger than the one on the disk.
-/

namespace DraconGuard

/-- Every ledger a crash could leave behind restores every raised process. -/
def CrashPoint.Covered (c : CrashPoint) : Prop :=
  ∀ pid r, c.raised pid = some r → ∀ f ∈ c.images, ∃ l, f = some (.json l) ∧
    l.RestoresAdj pid r.starttime r.original

/-- The write-ahead law: a crash after any effect of the run finds every raised process. -/
def WriteAhead (w : OomWorld) : Prop := ∀ c ∈ w.crashPoints, c.Covered

/-- A persist skipped as unchanged finds that very ledger on the disk, and nothing else. -/
def NoStaleSkip (env : PersistEnv) (s : GuardRuntimeState) (d : LedgerDisk) : Prop :=
  ∀ bootId, env.bootId = some bootId →
    s.lastPersistedMitigations = some (mitigationLedger bootId s) →
      ∀ f ∈ d.images, f = some (.json (mitigationLedger bootId s))

/-- No write-ahead of a bias is skipped against a stale disk. -/
def FreshWriteAhead (w : OomWorld) : OomInput → Prop
  | .bias env p samples => ∀ s original target,
      oomBiasIntent env p samples w = .intend s original target → NoStaleSkip env.persist s w.disk
  | _ => True

/-- The invariant of a run. -/
structure OomInv (w : OomWorld) : Prop where
  persists : w.state.persistMitigations = true
  live : ∀ pid r, w.raised pid = some r → ∃ p, w.table pid = some p ∧
    p.starttime = r.starttime ∧ p.oomScoreAdj = oomBiasTargetValue
  recorded : ∀ pid r, w.raised pid = some r → ∃ id,
    w.state.oom.oomBiasedPids.lookup pid = some (r.original, id) ∧ id.starttime = r.starttime
  covered : (CrashPoint.mk w.disk.images w.raised).Covered
  writeAhead : WriteAhead w

/-! ## Effects -/

/-- A change of the state that keeps the records of raised processes. -/
theorem OomInv.setState {w : OomWorld} (h : OomInv w) (s : GuardRuntimeState)
    (hp : s.persistMitigations = true)
    (hs : ∀ pid r, w.raised pid = some r →
      s.oom.oomBiasedPids.lookup pid = w.state.oom.oomBiasedPids.lookup pid) :
    OomInv { w with state := s } where
  persists := hp
  live := h.live
  recorded pid r hr := by
    obtain ⟨id, hid, hst⟩ := h.recorded pid r hr
    exact ⟨id, (hs pid r hr).trans hid, hst⟩
  covered := h.covered
  writeAhead := h.writeAhead

theorem OomInv.setOom {w : OomWorld} (h : OomInv w) (o : OomState)
    (ho : ∀ pid r, w.raised pid = some r →
      o.oomBiasedPids.lookup pid = w.state.oom.oomBiasedPids.lookup pid) : OomInv (w.setOom o) :=
  h.setState _ h.persists ho

/-- Forgetting a pid that is not raised. -/
theorem OomInv.removeBias {w : OomWorld} (h : OomInv w) {pid : Pid} (hpid : w.raised pid = none) :
    OomInv (w.setOom (removeOomBias w.state.oom pid)) := by
  refine h.setOom _ fun pid' r hr => ?_
  have hne : pid' ≠ pid := by rintro rfl; rw [hpid] at hr; cases hr
  rw [removeOomBias_biased, FinMap.lookup_erase_eq, if_neg hne]

theorem covered_mono {images : List (Option LedgerText)} {raised raised' : Pid → Option Raised}
    (h : (CrashPoint.mk images raised).Covered)
    (hsub : ∀ pid r, raised' pid = some r → raised pid = some r) :
    (CrashPoint.mk images raised').Covered :=
  fun pid r hr => h pid r (hsub pid r hr)

theorem OomInv.mark {w : OomWorld} (h : OomInv w) : OomInv w.mark where
  persists := h.persists
  live := h.live
  recorded := h.recorded
  covered := h.covered
  writeAhead c hc := by
    rcases List.mem_cons.1 hc with rfl | hc
    · exact h.covered
    · exact h.writeAhead c hc

/-- Writing back an original value leaves nothing owed for that pid. -/
theorem OomInv.writeBack {w : OomWorld} (h : OomInv w) {pid : Pid} {v : Int} {cause : AdjCause}
    (hc : cause ≠ .bias) : OomInv (w.writeAdj pid v cause) := by
  unfold OomWorld.writeAdj
  cases hp : w.table pid with
  | none => exact h
  | some p =>
    simp only [if_neg hc]
    refine OomInv.mark ?_
    have hsub : ∀ pid' r, Function.update w.raised pid none pid' = some r →
        pid' ≠ pid ∧ w.raised pid' = some r := by
      intro pid' r hr
      by_cases hpp : pid' = pid
      · subst hpp; simp at hr
      · exact ⟨hpp, by simpa [hpp] using hr⟩
    refine ⟨h.persists, fun pid' r hr => ?_, fun pid' r hr => h.recorded pid' r (hsub pid' r hr).2,
      covered_mono h.covered fun pid' r hr => (hsub pid' r hr).2, h.writeAhead⟩
    obtain ⟨hne, hr'⟩ := hsub pid' r hr
    obtain ⟨p', hp', hst, hadj⟩ := h.live pid' r hr'
    exact ⟨p', by simpa [ProcTable.setAdj_apply, hne] using hp', hst, hadj⟩

/-- Raising a process whose record is in the state and in every ledger on the disk. -/
theorem OomInv.raise {w : OomWorld} (h : OomInv w) {pid : Pid} {p : Proc} (id : ProcessIdentity)
    (hp : w.table pid = some p)
    (hrec : w.state.oom.oomBiasedPids.lookup pid = some (p.oomScoreAdj, id))
    (hid : id.starttime = p.starttime)
    (himg : ∀ f ∈ w.disk.images, ∃ l, f = some (.json l) ∧
      l.RestoresAdj pid p.starttime p.oomScoreAdj) :
    OomInv (w.writeAdj pid oomBiasTargetValue .bias) := by
  unfold OomWorld.writeAdj
  rw [hp]
  simp only [if_true]
  refine OomInv.mark ⟨h.persists, ?_, ?_, ?_, h.writeAhead⟩ <;> intro pid' r hr <;>
    by_cases hpp : pid' = pid
  · subst hpp
    obtain rfl : ⟨p.starttime, p.oomScoreAdj⟩ = r := by simpa using hr
    exact ⟨{ p with oomScoreAdj := oomBiasTargetValue }, by simp [ProcTable.setAdj_apply, hp], rfl, rfl⟩
  · obtain ⟨p', hp', hst, hadj⟩ := h.live pid' r (by simpa [hpp] using hr)
    exact ⟨p', by simpa [ProcTable.setAdj_apply, hpp] using hp', hst, hadj⟩
  · subst hpp
    obtain rfl : ⟨p.starttime, p.oomScoreAdj⟩ = r := by simpa using hr
    exact ⟨id, hrec, hid⟩
  · exact h.recorded pid' r (by simpa [hpp] using hr)
  · subst hpp
    obtain rfl : ⟨p.starttime, p.oomScoreAdj⟩ = r := by simpa using hr
    exact himg
  · exact h.covered pid' r (by simpa [hpp] using hr)

/-- The ledger on the disk after a persist: nothing new, or the state's own ledger first. -/
theorem persistMitigations_cases (env : PersistEnv) (s : GuardRuntimeState) (d : LedgerDisk)
    (hp : s.persistMitigations = true) :
    let r := persistMitigations env s d
    r.1.persistMitigations = true ∧
      ((r.2.1 = d ∧ (r.2.2 = true → ∃ b, env.bootId = some b ∧
          s.lastPersistedMitigations = some (mitigationLedger b s))) ∨
        ∃ b, r.2.1.visible = some (.json (mitigationLedger b s)) ∧
          ((r.2.1.older = d.images ∧ r.2.2 = false) ∨ r.2.1.older = [])) := by
  simp only [persistMitigations, hp, Bool.not_true, Bool.false_eq_true, if_false,
    persistMitigationsTo]
  split
  · exact ⟨hp, Or.inl ⟨rfl, fun h => by cases h⟩⟩
  · split
    · exact ⟨hp, Or.inl ⟨rfl, fun h => by cases h⟩⟩
    · rename_i b hb
      split
      · rename_i hlast; exact ⟨hp, Or.inl ⟨rfl, fun _ => ⟨b, hb, hlast⟩⟩⟩
      · split
        · exact ⟨hp, Or.inl ⟨rfl, fun h => by cases h⟩⟩
        · exact ⟨hp, Or.inr ⟨b, rfl, Or.inl ⟨rfl, rfl⟩⟩⟩
        · exact ⟨rfl, Or.inr ⟨b, rfl, Or.inr rfl⟩⟩

/-- Whatever a persist leaves on the disk restores every raised process: an old ledger did,
and the new one holds their records. -/
theorem OomInv.persist {w : OomWorld} (h : OomInv w) (env : PersistEnv) :
    OomInv (w.persist env).1 := by
  obtain ⟨hpers, hdisk⟩ := persistMitigations_cases env w.state w.disk h.persists
  refine OomInv.mark ⟨hpers, h.live, fun pid r hr => ?_, fun pid r hr f hf => ?_, h.writeAhead⟩
  · simpa using h.recorded pid r hr
  · obtain ⟨id, hrec, hst⟩ := h.recorded pid r hr
    have hnew : ∀ b, (mitigationLedger b w.state).RestoresAdj pid r.starttime r.original :=
      fun b => hst ▸ biased_restoresAdj hrec b
    rcases hdisk with ⟨hd, -⟩ | ⟨b, hvis, hold⟩
    · rw [hd] at hf; exact h.covered pid r hr f hf
    · rcases List.mem_cons.1 hf with rfl | hf
      · exact ⟨_, hvis, hnew b⟩
      · rcases hold with ⟨hold, -⟩ | hold
        · rw [hold] at hf; exact h.covered pid r hr f hf
        · rw [hold] at hf; cases hf

/-- A persist that reports success left the state's own ledger alone on the disk, if it was
not skipped against a stale one. -/
theorem persist_durable {w : OomWorld} {env : PersistEnv} (hp : w.state.persistMitigations = true)
    (hskip : NoStaleSkip env w.state w.disk) (hok : (w.persist env).2 = true) :
    ∃ b, ∀ f ∈ (w.persist env).1.disk.images, f = some (.json (mitigationLedger b w.state)) := by
  obtain ⟨-, ⟨hd, hlast⟩ | ⟨b, hvis, hold⟩⟩ := persistMitigations_cases env w.state w.disk hp
  · obtain ⟨b, hb, hl⟩ := hlast hok
    refine ⟨b, fun f hf => hskip b hb hl f ?_⟩
    have hf' : f ∈ (persistMitigations env w.state w.disk).2.1.images := hf
    rwa [hd] at hf'
  · refine ⟨b, fun f hf => ?_⟩
    rcases List.mem_cons.1 hf with rfl | hf
    · exact hvis
    · rcases hold with ⟨-, hfalse⟩ | hold
      · rw [show (w.persist env).2 = _ from hfalse] at hok; cases hok
      · rw [show (w.persist env).1.disk.older = _ from hold] at hf; cases hf

/-! ## Operations -/

theorem OomInv.restore {w : OomWorld} (h : OomInv w) (env : RestoreEnv) (pid : Pid)
    (id : ProcessIdentity) (original : Int) {cause : AdjCause} (hc : cause ≠ .bias) :
    OomInv (oomRestore env w pid id original cause).1 := by
  rcases oomRestore_cases env w pid id original cause with ⟨he, -⟩ | ⟨he, -⟩
  · rw [he]; exact h
  · rw [he]; exact h.writeBack hc

theorem writeAdj_raised (w : OomWorld) (pid : Pid) (v : Int) {cause : AdjCause} (hc : cause ≠ .bias)
    (hinv : OomInv w) : (w.writeAdj pid v cause).raised pid = none := by
  unfold OomWorld.writeAdj
  cases hp : w.table pid with
  | none =>
    cases hr : w.raised pid with
    | none => rfl
    | some r =>
      obtain ⟨p, hp', -⟩ := hinv.live pid r hr
      rw [hp] at hp'; cases hp'
  | some p => simp [OomWorld.mark, hc]

/-- After a restore that reports success the process is not raised. -/
theorem OomInv.restore_settles {w : OomWorld} (h : OomInv w) {env : RestoreEnv} {pid : Pid}
    {id : ProcessIdentity} {original : Int} {cause : AdjCause} (hc : cause ≠ .bias) {b : Bool}
    (hok : (oomRestore env w pid id original cause).2 = .ok b) :
    (oomRestore env w pid id original cause).1.raised pid = none := by
  rcases oomRestore_cases env w pid id original cause with ⟨he, hadj⟩ | ⟨he, -⟩
  · rw [he]
    cases hr : w.raised pid with
    | none => rfl
    | some r =>
      obtain ⟨p, hp, -, ha⟩ := h.live pid r hr
      exact absurd (by rw [hp, Option.map_some, ha]) (hadj b hok)
  · rw [he]; exact writeAdj_raised w pid original hc h

/-- A recorded identity that reads as dead names no raised process. -/
theorem OomInv.raised_of_dead {w : OomWorld} (h : OomInv w) {pid : Pid} {orig : Int}
    {id : ProcessIdentity} (hrec : w.state.oom.oomBiasedPids.lookup pid = some (orig, id))
    {readable : Bool} (hdead : (processIdentityStatus w.table readable pid id).dead = true) :
    w.raised pid = none := by
  cases hr : w.raised pid with
  | none => rfl
  | some r =>
    obtain ⟨id', hid', hst⟩ := h.recorded pid r hr
    obtain ⟨p, hp, hpst, -⟩ := h.live pid r hr
    rw [hrec] at hid'
    cases hid'
    exact absurd (hpst.trans hst.symm) (processIdentityStatus_dead hdead p hp)

theorem enlist_biased (t : ProcTable) (readable : Pid → Bool) (samples : List ProcSample)
    (exempt : List String) (o : OomState) :
    (enlistStrandedDescendants t readable samples exempt o).oomBiasedPids = o.oomBiasedPids := by
  unfold enlistStrandedDescendants
  generalize (fun pid => (o.oomBiasedPids.lookup pid).isSome) = tracked
  generalize rootOriginalAdj t readable o = roots
  generalize parentByPid samples = parents
  induction samples generalizing o with
  | nil => rfl
  | cons c cs ih =>
    rw [List.foldl_cons, ih]
    unfold enlistStep
    split
    · rfl
    · split
      · rfl
      · simp only
        split
        · rfl
        · split <;> rfl

theorem OomInv.pendingStep {w : OomWorld} (h : OomInv w) (env : PendingEnv) (exempt : List String)
    (key : Incarnation) : OomInv (restorePendingStep env exempt w key) := by
  rcases restorePendingStep_cases env exempt w key with he | ⟨pd, -, he | he | ⟨w', hw', he⟩⟩
  · rw [he]; exact h
  · rw [he]; exact h.setOom _ fun _ _ _ => rfl
  · rw [he]; exact h.setOom _ fun _ _ _ => rfl
  · have hr : OomInv w' := hw' ▸ h.restore (env.restore key) key.1 pd.identity pd.originalAdj
      (show AdjCause.debt pd.rootPid ≠ .bias by simp)
    have hst : w'.state = w.state := hw' ▸ oomRestore_state _ _ _ _ _ _
    rcases he with he | he
    · rw [he]; exact hr.setOom _ fun _ _ _ => by rw [hst]; rfl
    · rw [he]; exact hr.setOom _ fun _ _ _ => by rw [hst]; rfl

/-- A loop of steps that each keep the invariant. -/
theorem OomInv.foldl {α : Type} {f : OomWorld → α → OomWorld}
    (hf : ∀ w a, OomInv w → OomInv (f w a)) :
    ∀ (xs : List α) {w : OomWorld}, OomInv w → OomInv (xs.foldl f w)
  | [], _, h => h
  | a :: xs, w, h => OomInv.foldl hf xs (hf w a h)

theorem OomInv.sweep {w : OomWorld} (h : OomInv w) (env : SweepEnv) (exempt : List String)
    (samples : List ProcSample) : OomInv (sweepStrandedOomDescendants env exempt samples w) := by
  unfold sweepStrandedOomDescendants
  simp only
  have henl := (h.setOom (enlistStrandedDescendants w.table env.rootReadable samples exempt
    w.state.oom) fun pid _ _ => by rw [enlist_biased]).persist env.intent
  split
  · exact henl
  · exact (OomInv.foldl (fun w key hw => hw.pendingStep env.pending exempt key) _ henl).persist _

/-- A biased process is let go: its adjustment is back, or no longer the guard's, or the
record stays. -/
theorem OomInv.settle {w : OomWorld} (h : OomInv w) (env : RestoreEnv) (pid : Pid)
    (id : ProcessIdentity) (orig : Int) :
    OomInv (settleOomBias env w pid id orig) := by
  unfold settleOomBias
  have hc : AdjCause.release ≠ .bias := by simp
  have hr := h.restore env pid id orig hc
  simp only
  split
  · exact hr
  · rename_i b hok
    exact hr.removeBias (h.restore_settles hc hok)

theorem OomInv.releaseBias {w : OomWorld} (h : OomInv w) (env : ReleaseEnv) (pid : Pid) :
    OomInv (releaseOomBias env w pid) := by
  unfold releaseOomBias
  simp only
  split
  · exact h
  · rename_i orig id hrec
    split
    · rename_i hs; exact h.removeBias (h.raised_of_dead hrec (by rw [hs]; rfl))
    · rename_i hs; exact h.removeBias (h.raised_of_dead hrec (by rw [hs]; rfl))
    · exact h.setOom _ fun _ _ _ => rfl
    · refine OomInv.settle ?_ (env.restore pid) pid id orig
      exact h.setOom _ fun _ _ _ => rfl

theorem OomInv.releaseAll {w : OomWorld} (h : OomInv w) (env : ReleaseEnv) :
    OomInv (releaseOomBiases env w) := by
  unfold releaseOomBiases
  split
  · exact h
  · simp only
    refine OomInv.setOom (OomInv.foldl (fun w pid hw => hw.releaseBias env pid) _ ?_) _
      fun _ _ _ => rfl
    exact h.setOom _ fun _ _ _ => rfl

theorem OomInv.restoreBias {w : OomWorld} (h : OomInv w) (env : ReleaseEnv) (pid : Pid) :
    OomInv (restoreOomBias env w pid) := by
  unfold restoreOomBias
  split
  · exact h
  · rename_i orig id hrec
    split
    · rename_i hs; exact h.removeBias (h.raised_of_dead hrec (by rw [hs]; rfl))
    · rename_i hs; exact h.removeBias (h.raised_of_dead hrec (by rw [hs]; rfl))
    · exact h
    · exact h.settle (env.restore pid) pid id orig

/-- The prune forgets only processes that read as dead. -/
theorem OomInv.prune {w : OomWorld} (h : OomInv w) (readable : Pid → Bool)
    (samples : List ProcSample) : OomInv (pruneOom readable samples w) := by
  refine h.setOom _ fun pid r hr => ?_
  obtain ⟨id, hrec, -⟩ := h.recorded pid r hr
  rw [hrec]
  refine FinMap.lookup_retain_some.2 ?_
  refine ⟨hrec, ?_⟩
  cases hd : (processIdentityStatus w.table (readable pid) pid id).dead with
  | false => rfl
  | true => rw [h.raised_of_dead hrec hd] at hr; cases hr

/-! ## The bias -/

/-- When it stops, the record of a raised process is untouched. -/
theorem OomInv.biasStop {w : OomWorld} (h : OomInv w) {env : BiasEnv} {p : ProcSample}
    {samples : List ProcSample} {s : GuardRuntimeState} {r : BiasResult}
    (hs : oomBiasIntent env p samples w = .stop s r) : OomInv { w with state := s } := by
  rcases oomBiasIntent_stop hs with rfl | ⟨rfl, q, hq, hadj⟩
  · exact h
  · refine h.setState _ h.persists fun pid r hr => ?_
    rw [dropBiasRecord, FinMap.lookup_erase_eq, if_neg]
    rintro rfl
    -- a raised process is recorded and at the target
    obtain ⟨id, hrec, -⟩ := h.recorded _ r hr
    obtain ⟨q', hq', -, hv⟩ := h.live _ r hr
    obtain rfl : q = q' := Option.some.inj (hq.symm.trans hq')
    exact hadj (by rw [hrec]; rfl) hv

theorem OomInv.bias {w : OomWorld} (h : OomInv w) {env : BiasEnv} {p : ProcSample}
    {samples : List ProcSample} (hfresh : FreshWriteAhead w (.bias env p samples)) :
    OomInv (applyOomBias env p samples w).1 := by
  unfold applyOomBias
  split
  · rename_i s r hs; exact h.biasStop hs
  · rename_i s original target hs
    have hskip := hfresh s original target hs
    obtain ⟨q, hq, hst, rfl, rfl, hne, rfl⟩ := oomBiasIntent_intend hs
    have hun : w.raised p.pid = none := by
      cases hr : w.raised p.pid with
      | none => rfl
      | some r =>
        obtain ⟨q', hq', -, hadj⟩ := h.live _ r hr
        obtain rfl : q = q' := Option.some.inj (hq.symm.trans hq')
        exact absurd hadj hne
    set s := biasedRuntime p samples q.oomScoreAdj w.state with hsdef
    have hrec : s.oom.oomBiasedPids.lookup p.pid =
        some (q.oomScoreAdj, processSampleIdentity p) := by
      simp [hsdef, biasedRuntime, recordOomBias]
    have hw : OomInv { w with state := s } := by
      refine h.setState s h.persists fun pid r hr => ?_
      have hpid : pid ≠ p.pid := by rintro rfl; rw [hun] at hr; cases hr
      simp [hsdef, biasedRuntime, recordOomBias, dropBiasRecord, hpid]
    have hper := hw.persist env.persist
    have hoom := persist_oom env.persist { w with state := s }
    simp only
    split_ifs with hdur hcur hwr hver
    · exact hper.removeBias hun
    · exact hper
    · exact hper
    all_goals
      obtain ⟨b, himg⟩ := persist_durable (w := { w with state := s }) h.persists hskip
        (by simpa using hdur)
      refine hper.raise (processSampleIdentity p) hq (by rw [hoom]; exact hrec) hst.symm
        fun f hf => ⟨_, himg f hf, ?_⟩
      exact hst ▸ biased_restoresAdj (s := s) hrec b

/-! ## Runs -/

theorem oomStart_inv (t : ProcTable) (s : GuardRuntimeState) (d : LedgerDisk) :
    OomInv (oomStart t s d) where
  persists := rfl
  live _ _ h := by cases h
  recorded _ _ h := by cases h
  covered _ _ h := by cases h
  writeAhead c hc := by cases hc

/-- Changing the table where nobody is raised, or clearing the ghost there. -/
theorem OomInv.setRow {w : OomWorld} (h : OomInv w) (pid : Pid) (row : Option Proc)
    (raised : Pid → Option Raised)
    (hother : ∀ pid', pid' ≠ pid → raised pid' = w.raised pid')
    (hpid : ∀ r, raised pid = some r → w.raised pid = some r ∧ ∃ p, row = some p ∧
      p.starttime = r.starttime ∧ p.oomScoreAdj = oomBiasTargetValue) :
    OomInv { w with table := Function.update w.table pid row, raised := raised } := by
  have hsub : ∀ pid' r, raised pid' = some r → w.raised pid' = some r := by
    intro pid' r hr
    by_cases hp : pid' = pid
    · subst hp; exact (hpid r hr).1
    · rwa [← hother pid' hp]
  refine ⟨h.persists, fun pid' r hr => ?_, fun pid' r hr => h.recorded pid' r (hsub pid' r hr),
    covered_mono h.covered hsub, h.writeAhead⟩
  by_cases hp : pid' = pid
  · subst hp; simpa using (hpid r hr).2
  · simpa [hp] using h.live pid' r (hsub pid' r hr)

theorem oomStep_inv (w : OomWorld) (i : OomInput) (h : OomInv w) (hi : FreshWriteAhead w i) :
    OomInv (oomStep w i) := by
  cases i with
  | spawn pid p =>
    simp only [oomStep]
    split
    · exact h
    · rename_i hfree
      refine h.setRow pid (some p) w.raised (fun _ _ => rfl) fun r hr => ?_
      obtain ⟨q, hq, -⟩ := h.live pid r hr
      rw [hq] at hfree; simp at hfree
  | exit pid =>
    refine h.setRow pid none _ (fun pid' hp => by simp [hp]) fun r hr => ?_
    simp at hr
  | change pid ppid comm adj zombie =>
    simp only [oomStep]
    split
    · exact h
    · rename_i p hp
      refine h.setRow pid _ _ (fun pid' hne => ?_) fun r hr => ?_
      · split
        · rfl
        · simp [hne]
      · split at hr
        · rename_i hadj
          obtain ⟨q, hq, hst, hv⟩ := h.live pid r hr
          obtain rfl : p = q := Option.some.inj (hp.symm.trans hq)
          exact ⟨hr, _, rfl, hst, hadj.trans hv⟩
        · simp at hr
  | others nice caps => exact h.setState _ h.persists fun _ _ _ => rfl
  | bias env p samples => exact h.bias hi
  | sweep env exempt samples => exact h.sweep env exempt samples
  | release env => exact h.releaseAll env
  | pressurePersists => exact h.setOom _ fun _ _ _ => rfl
  | prune readable samples => exact h.prune readable samples
  | persist env => exact h.persist env
  | restoreRuntime sweep env samples =>
    simp only [oomStep, restoreRuntimeOom]
    split
    · exact h
    · exact OomInv.foldl (fun w pid hw => hw.restoreBias env pid) _ (h.sweep sweep [] samples)
  | reload =>
    simp only [oomStep, reloadRuntime]
    split
    · rename_i hr
      simp only [Bool.and_eq_true, beq_iff_eq] at hr
      refine h.setState _ h.persists fun pid r hrai => ?_
      obtain ⟨id, hrec, -⟩ := h.recorded pid r hrai
      rw [← FinMap.mem_entries_iff, hr.1.1.1.2] at hrec
      cases hrec
    · exact h

/-- **The write-ahead law.** In a run in which no bias skips its write-ahead against a stale
disk, a crash after any effect finds, in whatever ledger is left, the original value of every
process the guard has raised and not written back. -/
theorem writeAhead_always (t : ProcTable) (s : GuardRuntimeState) (d : LedgerDisk)
    (is : List OomInput) (h : Runs.Along oomStep FreshWriteAhead (oomStart t s d) is) :
    Runs.Always oomStep WriteAhead (oomStart t s d) is :=
  (Runs.Along.always oomStep_inv (oomStart_inv t s d) h).mono fun _ => OomInv.writeAhead

/-! ## The stale skip -/

/-- One browser, pid 7, with the default adjustment. -/
def browserTable : ProcTable := fun pid =>
  if pid = 7 then some { ppid := 1, comm := "chrome", starttime := 100 } else none

def browserSample : ProcSample :=
  { pid := 7, ppid := 1, cpuPercent := 0, rssMb := 9000, swapMb := some 0, nice := 0
    command := "chrome", starttime := 100 }

def ledgerWrite (outcome : PersistOutcome) : PersistEnv := ⟨some "boot", outcome⟩

def biasBrowser : OomInput := .bias { persist := ledgerWrite .written } browserSample [browserSample]

/-- The bias is recorded and written, the browser released. The persist that drops the record
replaces the file but cannot sync the directory. The second bias encodes the very ledger
last counted as written, so it writes nothing and raises the browser. -/
def staleSkipRun : List OomInput :=
  [biasBrowser, .release { now := 60, releaseAfterSecs := 0 },
    .persist (ledgerWrite .failedDirSync), biasBrowser]

theorem stale_skip_loses_intent :
    ¬ ∀ (t : ProcTable) (s : GuardRuntimeState) (d : LedgerDisk) (is : List OomInput),
      Runs.Always oomStep WriteAhead (oomStart t s d) is := by
  intro h
  have hlast := (h browserTable {} ⟨none, []⟩ staleSkipRun).last staleSkipRun
  set w := Runs.exec oomStep (oomStart browserTable {} ⟨none, []⟩) staleSkipRun
  have hlen : w.crashPoints.length = 6 := rfl
  have hne : w.crashPoints ≠ [] := List.ne_nil_of_length_pos (by omega)
  have hraised : (w.crashPoints.head hne).raised 7 = some ⟨100, 0⟩ := rfl
  have hvis : (w.crashPoints.head hne).images.head? = some (some (.json
      { version := 1, bootId := some "boot", records := [] })) := rfl
  obtain ⟨l, hl, hres⟩ := hlast _ (List.head_mem hne) 7 _ hraised _ (List.mem_of_mem_head? hvis)
  cases hl
  rcases hres with ⟨r, hr, -⟩ | ⟨p, hp, -⟩
  · cases hr
  · cases hp

/-- A bias whose write-ahead is written, a crash point after each of its effects. -/
theorem writeAhead_biasBrowser :
    Runs.Always oomStep WriteAhead (oomStart browserTable {} ⟨none, []⟩) [biasBrowser] := by
  refine writeAhead_always browserTable {} ⟨none, []⟩ [biasBrowser] ⟨?_, trivial⟩
  intro s original target hs b hb hlast
  obtain ⟨q, -, -, -, -, -, rfl⟩ := oomBiasIntent_intend hs
  exact absurd hlast (by simp [biasedRuntime, oomStart])

end DraconGuard
