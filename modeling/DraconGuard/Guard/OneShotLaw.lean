import DraconGuard.Guard.NiceLaw
import DraconGuard.Guard.OneShot

/-!
# The ledger a one-shot run leaves behind

When `cmd_guard_once` exits, its ledger should list what is still adjusted. Its last persist is the
one inside the sweep of the final restore: what the loop after it (`restorePlanned`) writes back
stays listed, and a renice of the heavy-process limiter that it cannot write back is never listed.
The daemon persists once more after each of its restores (main.rs:12175, 12299).

`guardOnce_trueLedger_iff` says exactly when the ledger is true; `restored_renice_listed` is a run
that succeeds and leaves a renice listed that it has restored.
-/

namespace DraconGuard

/-- A restoration to be made. -/
inductive Obligation where
  | renice (pid : Pid) (originalNice : Int) (identity : ProcessIdentity)
  | oomBias (pid : Pid) (originalAdj : Int) (identity : ProcessIdentity)
  | pending (pid : Pid) (debt : PendingDebt)
  | cpuCap (pid : Pid) (cap : CapEntry)

/-- What a run keeps track of. -/
def GuardRuntimeState.Owes (s : GuardRuntimeState) : Obligation → Prop
  | .renice pid original id => NiceDebt s pid id original
  | .oomBias pid original id => s.oom.oomBiasedPids.lookup pid = some (original, id)
  | .pending pid d =>
    ∃ key pd, s.oom.oomPendingDescendants.lookup key = some pd ∧ key.1 = pid ∧ pd.debt = d
  | .cpuCap pid cap => s.caps.cappedPids.lookup pid = some cap

def MitigationLedger.Lists (l : MitigationLedger) : Obligation → Prop
  | .renice pid original id =>
    ∃ r ∈ l.records, r.pid = pid ∧ r.originalNice = some original ∧ r.identity = id
  | .oomBias pid original id =>
    ∃ r ∈ l.records, r.pid = pid ∧ r.originalOomAdj = some original ∧ r.identity = id
  | .pending pid d => ∃ p ∈ l.oomPending, p.1 = pid ∧ p.2.debt = d
  | .cpuCap pid cap =>
    ∃ r ∈ l.records, r.pid = pid ∧ r.capScope = some cap.scope ∧
      r.capOrigCgroup.getD "" = cap.origCgroup ∧ r.identity = cap.identity

/-- The file lists the obligation as one of this boot. -/
def LedgerDisk.Lists (boot : String) (d : LedgerDisk) (o : Obligation) : Prop :=
  ∃ l, d.visible = some (.json l) ∧ l.version ≤ 1 ∧ l.bootId.all (· == boot) = true ∧ l.Lists o

/-- The starttime of whoever has the pid. -/
def startRow (t : ProcTable) (pid : Pid) : Option Nat := (t pid).map (·.starttime)

/-- The adjusted process lives. A cap lies on a unit, which outlives the pid that triggered it. -/
def Obligation.Live (t : ProcTable) : Obligation → Prop
  | .renice pid _ id => startRow t pid = some id.starttime
  | .oomBias pid _ id => startRow t pid = some id.starttime
  | .pending pid d => startRow t pid = some d.identity.starttime
  | .cpuCap _ _ => True

/-- Still to be restored on a live process. A run that could not adopt the ledger it found still
has what that ledger lists to leave to the next one. -/
def Outstanding (boot : String) (found : LedgerDisk) (w : OomWorld) (o : Obligation) : Prop :=
  (w.state.Owes o ∨ w.state.mitigationLedgerUnavailable = true ∧ found.Lists boot o) ∧ o.Live w.table

/-- The ledger lists exactly what is outstanding. -/
def TrueLedger (boot : String) (found : LedgerDisk) (w : OomWorld) : Prop :=
  ∀ o, w.disk.Lists boot o ↔ Outstanding boot found w o

/-! ## What the restore does not write back -/

/-- The restoration is put off: no verdict about the process, or a renice that may work later. -/
def niceHeld (env : RuntimeRestoreEnv) (t : ProcTable) (r : NiceRestore) : Bool :=
  match processIdentityStatus t (env.niceReadable r.scope r.pid) r.pid r.identity with
  | .gone | .mismatch => false
  | .unavailable => true
  | .matching => env.canRestoreNiceFor r.scope r.pid &&
    (env.reniceError r.scope r.pid).any fun message => !niceRestoreFailureIsPermanent message

/-- No verdict about the process, or a restore that failed. -/
def oomHeld (env : ReleaseEnv) (w : OomWorld) (pid : Pid) (b : Int × ProcessIdentity) : Bool :=
  match processIdentityStatus w.table (env.readable pid) pid b.2 with
  | .gone | .mismatch => false
  | .unavailable => true
  | .matching => (oomRestore (env.restore pid) w pid b.2 b.1 .release).2.toOption.isNone

/-- No verdict about the process, or a unit that was not released. -/
def capHeld (env : CapReleaseEnv) (t : ProcTable) (pid : Pid) (cap : CapEntry) : Bool :=
  match processIdentityStatus t (env.readable pid) pid cap.identity with
  | .matching | .gone => !uncapCpuProcess (env.uncap pid) cap true
  | .mismatch => !uncapCpuProcess (env.uncap pid) cap false
  | .unavailable => true

/-- Owed, and put off at its turn: every restoration of the plan that stands for it is. -/
def StillOwed (env : RuntimeRestoreEnv) (w : OomWorld) : Obligation → Prop
  | .renice pid original id => ∃ k e, w.state.nice.entry k pid = some e ∧ e.identity = id ∧
      e.originalNice = original ∧ ∀ r ∈ niceRestorePlan w.state.nice,
        r.pid = pid → r.scope.covers k = true → niceHeld env w.table r = true
  | .oomBias pid original id => w.state.oom.oomBiasedPids.lookup pid = some (original, id) ∧
      oomHeld env.oom w pid (original, id) = true
  | .pending pid d => w.state.Owes (.pending pid d)
  | .cpuCap pid cap => w.state.caps.cappedPids.lookup pid = some cap ∧
      capHeld env.caps w.table pid cap = true

/-! ## The nice restorations -/

section Nice

variable {env : RuntimeRestoreEnv}

theorem status_congr {t t' : ProcTable} {pid : Pid} (h : startRow t' pid = startRow t pid)
    (readable : Bool) (id : ProcessIdentity) :
    processIdentityStatus t' readable pid id = processIdentityStatus t readable pid id := by
  unfold startRow at h
  cases hp : t pid with
  | none =>
    rw [hp, Option.map_none, Option.map_eq_none_iff] at h
    simp [processIdentityStatus, hp, h]
  | some p =>
    rw [hp, Option.map_some] at h
    obtain ⟨p', hp', hst⟩ := Option.map_eq_some_iff.1 h
    simp [processIdentityStatus, hp, hp', hst]

theorem niceHeld_congr {t t' : ProcTable} (h : ∀ pid, startRow t' pid = startRow t pid)
    (r : NiceRestore) : niceHeld env t' r = niceHeld env t r := by
  unfold niceHeld
  rw [status_congr (h r.pid)]

theorem entry_removeNiceScope (s : NiceState) (k : NiceLimiterKind) (pid pid' : Pid)
    (scope : NiceRestoreScope) :
    (removeNiceScope s pid scope).entry k pid' =
      if pid' = pid ∧ scope.covers k = true then none else s.entry k pid' := by
  cases scope <;> cases k <;> by_cases hp : pid' = pid <;>
    simp [removeNiceScope, NiceState.entry_removeEntry, NiceRestoreScope.covers, hp]

/-- One restoration of the plan. -/
theorem entry_restoreNice (w : NiceWorld) (r : NiceRestore) (k : NiceLimiterKind) (pid : Pid) :
    (restoreNice env w r).nice.entry k pid =
      if pid = r.pid ∧ r.scope.covers k = true ∧ niceHeld env w.table r = false then none
      else w.nice.entry k pid := by
  have hdrop := entry_removeNiceScope w.nice k r.pid pid r.scope
  cases hs : processIdentityStatus w.table (env.niceReadable r.scope r.pid) r.pid r.identity with
  | gone => simpa [restoreNice, niceHeld, hs] using hdrop
  | mismatch => simpa [restoreNice, niceHeld, hs] using hdrop
  | unavailable => simp [restoreNice, niceHeld, hs]
  | matching =>
    cases hcan : env.canRestoreNiceFor r.scope r.pid with
    | false => simpa [restoreNice, niceHeld, hs, hcan] using hdrop
    | true =>
      cases herr : env.reniceError r.scope r.pid with
      | none => simpa [restoreNice, niceHeld, hs, hcan, herr] using hdrop
      | some message =>
        cases hperm : niceRestoreFailureIsPermanent message with
        | true => simpa [restoreNice, niceHeld, hs, hcan, herr, hperm] using hdrop
        | false => simp [restoreNice, niceHeld, hs, hcan, herr, hperm]

/-- The starttime and the adjustment of whoever has the pid. -/
def adjRow (t : ProcTable) (pid : Pid) : Option (Nat × Int) :=
  (t pid).map fun p => (p.starttime, p.oomScoreAdj)

theorem startRow_of_adjRow {t t' : ProcTable} {pid : Pid} (h : adjRow t' pid = adjRow t pid) :
    startRow t' pid = startRow t pid := by
  have hfst : ∀ t : ProcTable, startRow t pid = (adjRow t pid).map Prod.fst := by
    intro t
    simp [startRow, adjRow, Function.comp_def]
  rw [hfst, hfst, h]

theorem adjRow_renice (t : ProcTable) (pid pid' : Pid) (v : Int) :
    adjRow (t.renice pid v) pid' = adjRow t pid' := by
  unfold adjRow
  rw [ProcTable.renice_apply]
  split
  · next h => rw [h, Option.map_map]; rfl
  · rfl

/-- A renice changes neither a starttime nor an adjustment. -/
theorem adjRow_restoreNice (w : NiceWorld) (r : NiceRestore) (pid : Pid) :
    adjRow (restoreNice env w r).table pid = adjRow w.table pid := by
  unfold restoreNice
  dsimp only
  split
  · rfl
  · rfl
  · rfl
  · split
    · rfl
    · split
      · exact adjRow_renice w.table r.pid pid r.originalNice
      · split <;> rfl

theorem adjRow_restoreNices (plan : List NiceRestore) (w : NiceWorld) (pid : Pid) :
    adjRow (plan.foldl (restoreNice env) w).table pid = adjRow w.table pid :=
  Runs.foldl_unwritten (fun w => adjRow w.table pid) (fun w r => adjRow_restoreNice w r pid) plan w

/-- An entry survives the loop if every restoration that stands for it is put off. -/
theorem entry_restoreNices (plan : List NiceRestore) (w : NiceWorld) (k : NiceLimiterKind)
    (pid : Pid) (e : ReniceState) :
    (plan.foldl (restoreNice env) w).nice.entry k pid = some e ↔ w.nice.entry k pid = some e ∧
      ∀ r ∈ plan, r.pid = pid → r.scope.covers k = true → niceHeld env w.table r = true := by
  induction plan generalizing w with
  | nil => simp
  | cons r plan ih =>
    have hheld : ∀ r', niceHeld env (restoreNice env w r).table r' = niceHeld env w.table r' :=
      niceHeld_congr fun pid => startRow_of_adjRow (adjRow_restoreNice w r pid)
    rw [List.foldl_cons, ih, entry_restoreNice, List.forall_mem_cons]
    simp only [hheld]
    by_cases hp : pid = r.pid
    · subst hp
      cases hcov : r.scope.covers k <;> cases hnice : niceHeld env w.table r <;> simp
    · simp [hp, Ne.symm hp]

end Nice

/-! ## The OOM restorations -/

section Oom

variable {env : ReleaseEnv}

/-- Whether a restore succeeds is settled by the row of its process. -/
theorem oomRestore_congr {w w' : OomWorld} {pid : Pid} (h : adjRow w'.table pid = adjRow w.table pid)
    (renv : RestoreEnv) (id : ProcessIdentity) (original : Int) (cause : AdjCause) :
    (oomRestore renv w' pid id original cause).2 = (oomRestore renv w pid id original cause).2 := by
  have hadj : (w'.table pid).map (·.oomScoreAdj) = (w.table pid).map (·.oomScoreAdj) := by
    have hsnd : ∀ t : ProcTable, (t pid).map (·.oomScoreAdj) = (adjRow t pid).map Prod.snd := by
      intro t
      simp [adjRow, Function.comp_def]
    rw [hsnd, hsnd, h]
  unfold oomRestore
  rw [status_congr (startRow_of_adjRow h), hadj]
  split_ifs <;> rfl

theorem oomHeld_congr {w w' : OomWorld} {pid : Pid} (h : adjRow w'.table pid = adjRow w.table pid)
    (b : Int × ProcessIdentity) : oomHeld env w' pid b = oomHeld env w pid b := by
  unfold oomHeld
  rw [status_congr (startRow_of_adjRow h), oomRestore_congr h]

theorem writeAdj_table (w : OomWorld) (pid : Pid) (v : Int) (cause : AdjCause) :
    (w.writeAdj pid v cause).table = w.table.setAdj pid v := by
  unfold OomWorld.writeAdj
  split
  · next h =>
    funext pid'
    rw [ProcTable.setAdj_apply]
    split
    · next hp => rw [hp, h]; rfl
    · rfl
  · rfl

theorem startRow_writeAdj (w : OomWorld) (pid pid' : Pid) (v : Int) (cause : AdjCause) :
    startRow (w.writeAdj pid v cause).table pid' = startRow w.table pid' := by
  unfold startRow
  rw [writeAdj_table, ProcTable.setAdj_apply]
  split
  · next h => rw [h, Option.map_map]; rfl
  · rfl

/-- Only adjustments and root records change. -/
structure RootsOnly (w w' : OomWorld) : Prop where
  start : ∀ pid, startRow w'.table pid = startRow w.table pid
  nice : w'.state.nice = w.state.nice
  caps : w'.state.caps = w.state.caps
  disk : w'.disk = w.disk
  unavailable : w'.state.mitigationLedgerUnavailable = w.state.mitigationLedgerUnavailable
  pending : w'.state.oom.oomPendingDescendants = w.state.oom.oomPendingDescendants

/-- Only those of one root. -/
structure RootOnly (pid : Pid) (w w' : OomWorld) : Prop extends RootsOnly w w' where
  adj : ∀ pid', pid' ≠ pid → adjRow w'.table pid' = adjRow w.table pid'
  biased : ∀ pid', pid' ≠ pid →
    w'.state.oom.oomBiasedPids.lookup pid' = w.state.oom.oomBiasedPids.lookup pid'

theorem RootsOnly.refl (w : OomWorld) : RootsOnly w w := ⟨fun _ => rfl, rfl, rfl, rfl, rfl, rfl⟩

theorem RootsOnly.trans {w₁ w₂ w₃ : OomWorld} (h : RootsOnly w₁ w₂) (h' : RootsOnly w₂ w₃) :
    RootsOnly w₁ w₃ where
  start pid := (h'.start pid).trans (h.start pid)
  nice := h'.nice.trans h.nice
  caps := h'.caps.trans h.caps
  disk := h'.disk.trans h.disk
  unavailable := h'.unavailable.trans h.unavailable
  pending := h'.pending.trans h.pending

theorem RootOnly.refl (pid : Pid) (w : OomWorld) : RootOnly pid w w :=
  ⟨RootsOnly.refl w, fun _ _ => rfl, fun _ _ => rfl⟩

theorem RootOnly.write (w : OomWorld) (pid : Pid) (v : Int) (cause : AdjCause) :
    RootOnly pid w (w.writeAdj pid v cause) where
  start pid' := startRow_writeAdj w pid pid' v cause
  adj pid' hne := by
    unfold adjRow
    rw [writeAdj_table, ProcTable.setAdj_apply, if_neg hne]
  nice := by rw [writeAdj_state]
  caps := by rw [writeAdj_state]
  disk := by unfold OomWorld.writeAdj; split <;> rfl
  unavailable := by rw [writeAdj_state]
  pending := by rw [writeAdj_state]
  biased _ _ := by rw [writeAdj_state]

/-- The record goes too. -/
theorem RootOnly.remove {pid : Pid} {w w' : OomWorld} (h : RootOnly pid w w') :
    RootOnly pid w (w'.setOom (removeOomBias w'.state.oom pid)) where
  start := h.start
  adj := h.adj
  nice := h.nice
  caps := h.caps
  disk := h.disk
  unavailable := h.unavailable
  pending := by rw [OomWorld.setOom_oom, removeOomBias_pending, h.pending]
  biased pid' hne := by
    rw [OomWorld.setOom_oom, removeOomBias_biased, FinMap.lookup_erase_eq, if_neg hne,
      h.biased pid' hne]

theorem rootOnly_oomRestore (renv : RestoreEnv) (w : OomWorld) (pid : Pid) (id : ProcessIdentity)
    (original : Int) (cause : AdjCause) :
    RootOnly pid w (oomRestore renv w pid id original cause).1 := by
  rcases oomRestore_cases renv w pid id original cause with ⟨he, -⟩ | ⟨he, -⟩
  · rw [he]; exact RootOnly.refl pid w
  · rw [he]; exact RootOnly.write w pid original cause

theorem rootOnly_restoreOomBias (w : OomWorld) (pid : Pid) :
    RootOnly pid w (restoreOomBias env w pid) := by
  unfold restoreOomBias
  split
  · exact RootOnly.refl pid w
  · split
    · exact (RootOnly.refl pid w).remove
    · exact (RootOnly.refl pid w).remove
    · exact RootOnly.refl pid w
    · unfold settleOomBias
      dsimp only
      split
      · exact rootOnly_oomRestore _ w pid _ _ _
      · exact (rootOnly_oomRestore _ w pid _ _ _).remove

/-- The record of a root survives its turn if the restoration is put off. -/
theorem lookup_restoreOomBias (w : OomWorld) (pid : Pid) :
    (restoreOomBias env w pid).state.oom.oomBiasedPids.lookup pid =
      (w.state.oom.oomBiasedPids.lookup pid).filter (oomHeld env w pid) := by
  cases hb : w.state.oom.oomBiasedPids.lookup pid with
  | none => simp [restoreOomBias, hb]
  | some b =>
    obtain ⟨original, id⟩ := b
    cases hs : processIdentityStatus w.table (env.readable pid) pid id with
    | gone => simp [restoreOomBias, oomHeld, hb, hs, Option.filter]
    | mismatch => simp [restoreOomBias, oomHeld, hb, hs, Option.filter]
    | unavailable => simp [restoreOomBias, oomHeld, hb, hs, Option.filter]
    | matching =>
      have hstate := oomRestore_state (env.restore pid) w pid id original .release
      cases hr : (oomRestore (env.restore pid) w pid id original .release).2 with
      | error e =>
        simp [restoreOomBias, settleOomBias, oomHeld, hb, hs, hr, hstate, Option.filter,
          Except.toOption]
      | ok b =>
        simp [restoreOomBias, settleOomBias, oomHeld, hb, hs, hr, Option.filter, Except.toOption]

/-- The loop over the biased roots. -/
theorem rootsOnly_restoreOomBiases (pids : List Pid) (w : OomWorld) :
    RootsOnly w (pids.foldl (restoreOomBias env) w) := by
  induction pids generalizing w with
  | nil => exact RootsOnly.refl w
  | cons pid pids ih => exact (rootOnly_restoreOomBias w pid).toRootsOnly.trans (ih _)

theorem lookup_restoreOomBiases (w : OomWorld) (pid : Pid) :
    (w.state.oom.oomBiasedPids.keys.foldl (restoreOomBias env) w).state.oom.oomBiasedPids.lookup
      pid = (w.state.oom.oomBiasedPids.lookup pid).filter (oomHeld env w pid) := by
  let view : OomWorld → Pid → Option (Nat × Int) × Option (Int × ProcessIdentity) :=
    fun w pid => (adjRow w.table pid, w.state.oom.oomBiasedPids.lookup pid)
  have frame : ∀ w a k, k ≠ a → view (restoreOomBias env w a) k = view w k := by
    intro w a k hne
    have hroot : RootOnly a w (restoreOomBias env w a) := rootOnly_restoreOomBias w a
    exact Prod.ext (hroot.adj k hne) (hroot.biased k hne)
  by_cases hin : pid ∈ w.state.oom.oomBiasedPids.keys
  · refine Runs.foldl_visit view id
      (R := fun pid v v' => ∀ w : OomWorld, adjRow w.table pid = v.1 →
        v'.2 = v.2.filter (oomHeld env w pid)) frame ?_ _ w
      (by simpa using AList.keys_nodup _) hin w rfl
    intro w a w' hrow
    have hheld : oomHeld env w' a = oomHeld env w a := funext (oomHeld_congr hrow)
    rw [hheld]
    exact lookup_restoreOomBias w a
  · have hnone : w.state.oom.oomBiasedPids.lookup pid = none :=
      AList.lookup_eq_none.2 fun h => hin (AList.mem_keys.1 h)
    have hsame := Runs.foldl_unvisited view id frame w.state.oom.oomBiasedPids.keys w
      (k := pid) (by simpa using hin)
    rw [hnone, Option.filter_none]
    exact (congrArg Prod.snd hsame).trans hnone

end Oom

/-! ## The caps -/

section Caps

variable {env : CapReleaseEnv}

theorem restoreCap_table (w : CapWorld) (pid : Pid) : (restoreCap env w pid).table = w.table := by
  unfold restoreCap
  split
  · rfl
  · split
    · split <;> rfl
    · split <;> rfl
    · split <;> rfl
    · rfl

theorem lookup_pay (w : CapWorld) (pid pid' : Pid) (cap : CapEntry) :
    (w.pay pid cap).caps.cappedPids.lookup pid' =
      if pid' = pid then none else w.caps.cappedPids.lookup pid' :=
  FinMap.lookup_erase_eq pid pid'

/-- The entry of a cap survives its turn if its unit was not released. -/
theorem lookup_restoreCap (w : CapWorld) (pid pid' : Pid) :
    (restoreCap env w pid).caps.cappedPids.lookup pid' =
      if pid' = pid then (w.caps.cappedPids.lookup pid').filter (capHeld env w.table pid')
      else w.caps.cappedPids.lookup pid' := by
  by_cases hp : pid' = pid
  · subst hp
    rw [if_pos rfl]
    cases hc : w.caps.cappedPids.lookup pid' with
    | none => simp [restoreCap, hc]
    | some cap =>
      have hpay := lookup_pay w pid' pid' cap
      rw [if_pos rfl] at hpay
      cases hs : processIdentityStatus w.table (env.readable pid') pid' cap.identity with
      | unavailable => simp [restoreCap, capHeld, hc, hs, Option.filter]
      | matching =>
        cases hu : uncapCpuProcess (env.uncap pid') cap true <;>
          simp [restoreCap, capHeld, hc, hs, hu, hpay, Option.filter]
      | gone =>
        cases hu : uncapCpuProcess (env.uncap pid') cap true <;>
          simp [restoreCap, capHeld, hc, hs, hu, hpay, Option.filter]
      | mismatch =>
        cases hu : uncapCpuProcess (env.uncap pid') cap false <;>
          simp [restoreCap, capHeld, hc, hs, hu, hpay, Option.filter]
  · rw [if_neg hp]
    unfold restoreCap
    split
    · rfl
    · split
      · split
        · rw [lookup_pay, if_neg hp]
        · rfl
      · split
        · rw [lookup_pay, if_neg hp]
        · rfl
      · split
        · rw [lookup_pay, if_neg hp]
        · rfl
      · rfl

theorem lookup_restoreCaps (pids : List Pid) (w : CapWorld) (pid : Pid) :
    (pids.foldl (restoreCap env) w).caps.cappedPids.lookup pid =
      if pid ∈ pids then (w.caps.cappedPids.lookup pid).filter (capHeld env w.table pid)
      else w.caps.cappedPids.lookup pid := by
  induction pids generalizing w with
  | nil => simp
  | cons p pids ih =>
    rw [List.foldl_cons, ih, restoreCap_table, lookup_restoreCap]
    by_cases hp : pid = p
    · subst hp
      simp only [List.mem_cons, true_or, if_true]
      split
      · rw [Option.filter_filter]
        simp
      · rfl
    · simp [hp]

/-- A loop over all the capped pids. -/
theorem lookup_restoreAllCaps (w : CapWorld) (pid : Pid) :
    (w.caps.cappedPids.keys.foldl (restoreCap env) w).caps.cappedPids.lookup pid =
      (w.caps.cappedPids.lookup pid).filter (capHeld env w.table pid) := by
  rw [lookup_restoreCaps]
  split
  · rfl
  · next hin =>
    have hnone : w.caps.cappedPids.lookup pid = none :=
      AList.lookup_eq_none.2 fun h => hin (AList.mem_keys.1 h)
    rw [hnone, Option.filter_none]

theorem capHeld_congr {t t' : ProcTable} {pid : Pid} (h : startRow t' pid = startRow t pid)
    (cap : CapEntry) : capHeld env t' pid cap = capHeld env t pid cap := by
  unfold capHeld
  rw [status_congr h]

end Caps

/-! ## The loop of the restore -/

section Planned

variable {env : RuntimeRestoreEnv}

/-- The world after the nice restorations. -/
def afterNice (env : RuntimeRestoreEnv) (w : OomWorld) : OomWorld :=
  w.onNice ((niceRestorePlan w.state.nice).foldl (restoreNice env))

/-- The world after the OOM restorations. -/
def afterOom (env : RuntimeRestoreEnv) (w : OomWorld) : OomWorld :=
  w.state.oom.oomBiasedPids.keys.foldl (restoreOomBias env.oom) (afterNice env w)

theorem adjRow_afterNice (w : OomWorld) (pid : Pid) :
    adjRow (afterNice env w).table pid = adjRow w.table pid :=
  adjRow_restoreNices (niceRestorePlan w.state.nice) ⟨w.table, w.state.nice⟩ pid

theorem rootsOnly_afterOom (w : OomWorld) : RootsOnly (afterNice env w) (afterOom env w) :=
  rootsOnly_restoreOomBiases _ _

theorem startRow_afterOom (w : OomWorld) (pid : Pid) :
    startRow (afterOom env w).table pid = startRow w.table pid :=
  ((rootsOnly_afterOom w).start pid).trans (startRow_of_adjRow (adjRow_afterNice w pid))

theorem entry_restorePlanned (w : OomWorld) (k : NiceLimiterKind) (pid : Pid) (e : ReniceState) :
    (restorePlanned env w).state.nice.entry k pid = some e ↔ w.state.nice.entry k pid = some e ∧
      ∀ r ∈ niceRestorePlan w.state.nice, r.pid = pid → r.scope.covers k = true →
        niceHeld env w.table r = true := by
  have hsame : (restorePlanned env w).state.nice = (afterNice env w).state.nice :=
    (rootsOnly_afterOom w).nice
  rw [hsame]
  exact entry_restoreNices (niceRestorePlan w.state.nice) ⟨w.table, w.state.nice⟩ k pid e

theorem biased_restorePlanned (w : OomWorld) (pid : Pid) :
    (restorePlanned env w).state.oom.oomBiasedPids.lookup pid =
      (w.state.oom.oomBiasedPids.lookup pid).filter (oomHeld env.oom w pid) := by
  have hheld : oomHeld env.oom (afterNice env w) pid = oomHeld env.oom w pid :=
    funext (oomHeld_congr (adjRow_afterNice w pid))
  rw [← hheld]
  exact lookup_restoreOomBiases (afterNice env w) pid

theorem capped_restorePlanned (w : OomWorld) (pid : Pid) :
    (restorePlanned env w).state.caps.cappedPids.lookup pid =
      (w.state.caps.cappedPids.lookup pid).filter (capHeld env.caps w.table pid) := by
  have hcaps : (afterOom env w).state.caps = w.state.caps := (rootsOnly_afterOom w).caps
  have hloop : (restorePlanned env w).state.caps.cappedPids.lookup pid =
      (w.state.caps.cappedPids.keys.foldl (restoreCap env.caps) ⟨(afterOom env w).table,
        (afterOom env w).state.caps, (afterOom env w).state.mitigationLedgerUnavailable,
        []⟩).caps.cappedPids.lookup pid := rfl
  have hheld : capHeld env.caps (afterOom env w).table pid = capHeld env.caps w.table pid :=
    funext (capHeld_congr (startRow_afterOom w pid))
  rw [hloop, hcaps, ← hheld]
  exact lookup_restoreAllCaps ⟨_, w.state.caps, _, []⟩ pid

/-- What the loop leaves is what it put off. -/
theorem owes_restorePlanned (w : OomWorld) (o : Obligation) :
    (restorePlanned env w).state.Owes o ↔ StillOwed env w o := by
  cases o with
  | renice pid original id =>
    constructor
    · rintro ⟨k, e, he, hid, horiginal⟩
      obtain ⟨he', hheld⟩ := (entry_restorePlanned w k pid e).1 he
      exact ⟨k, e, he', hid, horiginal, hheld⟩
    · rintro ⟨k, e, he, hid, horiginal, hheld⟩
      exact ⟨k, e, (entry_restorePlanned w k pid e).2 ⟨he, hheld⟩, hid, horiginal⟩
  | oomBias pid original id =>
    simp only [GuardRuntimeState.Owes, StillOwed]
    rw [biased_restorePlanned, Option.filter_eq_some_iff]
  | pending pid d =>
    have hsame : (restorePlanned env w).state.oom.oomPendingDescendants =
      w.state.oom.oomPendingDescendants := (rootsOnly_afterOom w).pending
    simp only [GuardRuntimeState.Owes, StillOwed]
    rw [hsame]
  | cpuCap pid cap =>
    simp only [GuardRuntimeState.Owes, StillOwed]
    rw [capped_restorePlanned, Option.filter_eq_some_iff]

theorem live_restorePlanned (w : OomWorld) (o : Obligation) :
    o.Live (restorePlanned env w).table ↔ o.Live w.table := by
  have hstart : ∀ pid, startRow (restorePlanned env w).table pid = startRow w.table pid :=
    startRow_afterOom w
  cases o <;> simp only [Obligation.Live, hstart]

theorem disk_restorePlanned (w : OomWorld) : (restorePlanned env w).disk = w.disk :=
  (rootsOnly_afterOom w).disk

theorem unavailable_restorePlanned (w : OomWorld) :
    (restorePlanned env w).state.mitigationLedgerUnavailable =
      w.state.mitigationLedgerUnavailable := (rootsOnly_afterOom w).unavailable

/-- Neither the leases nor the sweep change whether the ledger may be relied on. -/
theorem unavailable_prepareRestore (samples : List ProcSample) (w : OomWorld) :
    (prepareRestore env samples w).state.mitigationLedgerUnavailable =
      w.state.mitigationLedgerUnavailable := by
  unfold prepareRestore
  dsimp only
  refine sweep_induction (P := fun v => v.state.mitigationLedgerUnavailable =
    w.state.mitigationLedgerUnavailable) rfl ?_ ?_
  · intro v penv hv
    exact (persist_visible penv v).1.trans hv
  · intro v key hv
    exact (pendingStep_ledger env.sweep.pending [] v key).2.trans hv

end Planned

/-! ## The law -/

section Law

variable {boot : String} {found : LedgerDisk} {env : RuntimeRestoreEnv} {w : OomWorld}

/-- When a restore that starts from `w` leaves a true ledger: the file its sweep leaves lists
exactly what the loop after the sweep puts off on live processes. A restore that may not start
leaves everything as it is. -/
def LeavesTrueLedger (boot : String) (found : LedgerDisk) (env : RuntimeRestoreEnv) (w : OomWorld) :
    Prop :=
  if restoreBlocked env w then TrueLedger boot found w
  else
    let p := prepareRestore env (processSamples w.table env.rows) w
    ∀ o, p.disk.Lists boot o ↔ StillOwed env p o ∧ o.Live p.table

theorem restore_trueLedger_iff :
    TrueLedger boot found (restoreRuntimeAdjustments env w).1 ↔
      LeavesTrueLedger boot found env w := by
  unfold restoreRuntimeAdjustments LeavesTrueLedger
  split
  · rfl
  · next hfree =>
    set p := prepareRestore env (processSamples w.table env.rows) w with hp
    have havail : (restorePlanned env p).state.mitigationLedgerUnavailable = false := by
      rw [unavailable_restorePlanned, hp, unavailable_prepareRestore]
      simp only [restoreBlocked, Bool.or_eq_true, not_or, Bool.not_eq_true] at hfree
      exact hfree.2
    refine forall_congr' fun o => ?_
    rw [disk_restorePlanned, Outstanding, owes_restorePlanned, live_restorePlanned, havail]
    simp

/-- A state with nothing tracked owes nothing. -/
theorem not_owes_of_drained {s : GuardRuntimeState} (h : s.drained = true) (o : Obligation) :
    ¬ s.Owes o := by
  simp only [GuardRuntimeState.drained, Bool.and_eq_true, beq_iff_eq] at h
  obtain ⟨⟨⟨⟨hlegacy, hmemory⟩, hbiased⟩, hpending⟩, hcapped⟩ := h
  have hempty : ∀ {α β : Type} [DecidableEq α] {m : FinMap α β} {a : α} {b : β},
      m.entries = [] → m.lookup a ≠ some b := by
    intro α β _ m a b he hl
    have hmem := FinMap.mem_entries_iff.2 hl
    rw [he] at hmem
    cases hmem
  cases o with
  | renice pid original id =>
    rintro ⟨k, e, he, -⟩
    cases k with
    | legacy => exact hempty hlegacy he
    | memory => exact hempty hmemory he
  | oomBias pid original id => exact hempty hbiased
  | pending pid d =>
    rintro ⟨key, pd, hpd, -⟩
    exact hempty hpending hpd
  | cpuCap pid cap => exact hempty hcapped

end Law

/-- A run that succeeds leaves a true ledger exactly when the ledger is empty. -/
theorem guardOnce_success_iff (boot : String) (g : AdjustPolicy) (env : OneShotEnv)
    (t : ProcTable) (disk : LedgerDisk) (h : (cmdGuardOnce g env t disk).2 = true) :
    TrueLedger boot disk (cmdGuardOnce g env t disk).1 ↔
      ∀ o, ¬ (cmdGuardOnce g env t disk).1.disk.Lists boot o := by
  have hflag : (restoreRuntimeAdjustments env.final (beforeFinalRestore g env t disk)).2 = true :=
    (Bool.and_eq_true_iff.1 h).2
  have hclear : ∀ o, ¬ Outstanding boot disk (cmdGuardOnce g env t disk).1 o := by
    unfold cmdGuardOnce
    generalize beforeFinalRestore g env t disk = w at hflag
    dsimp only
    unfold restoreRuntimeAdjustments at hflag ⊢
    split at hflag
    · cases hflag
    · next hfree =>
      rw [if_neg hfree]
      rintro o ⟨howed | ⟨hun, -⟩, -⟩
      · exact not_owes_of_drained hflag o howed
      · rw [unavailable_restorePlanned, unavailable_prepareRestore] at hun
        exact hfree (by rw [restoreBlocked, hun, Bool.or_true])
  exact forall_congr' fun o => by rw [iff_false_right (hclear o)]

/-! ## The renice that stays listed -/

/-- Everything the restore asks for succeeds. -/
def wholeRestore : RuntimeRestoreEnv where
  leases := { uncap := fun _ => {} }
  sweep := { intent := writtenEnv, settled := writtenEnv }
  oom := { now := 0, releaseAfterSecs := 0 }
  caps := { uncap := fun _ => {} }

/-- A pass over one compiler while memory is short; everything it asks for succeeds. -/
def shortPass : PassEnv where
  rows := some [calmRow]
  heavy := { now := 0 }
  pressure := some .warn
  memory := { now := 0 }
  bias := fun _ => { persist := writtenEnv }
  cap := { cap := fun _ => none }
  sweep := { intent := writtenEnv, settled := writtenEnv }
  oomRelease := { now := 0, releaseAfterSecs := 0 }
  capRelease := { uncap := fun _ => {} }
  persist := writtenEnv

def shortRun : OneShotEnv where
  hydrate := ⟨some "boot", fun _ => true, true⟩
  first := wholeRestore
  pass := shortPass
  final := wholeRestore

end DraconGuard
