import DraconGuard.Guard.SameOriginals

/-!
# What a restore promises a reload

`restore_runtime_adjustments` returns whether nothing is tracked any more, and `apply_policy_reload`
throws the runtime away on a true. A true is honest about everything the maps held: it was given
back, its process is gone, or it could not be given back any more.

A bias is only put back where the guard's own value still stands: a process that shows another one
by now keeps it (oom_restore.rs:1), and its record goes (`foreign_adjustment_kept`).
-/

namespace DraconGuard

/-! ## Settled obligations -/

/-- The process is gone, defunct or another one, or its adjustment is the original, or it is not
the guard's any more. -/
def AdjSettled (t : ProcTable) (pid : Pid) (id : ProcessIdentity) (original : Int) : Prop :=
  ∀ p, t pid = some p → p.starttime = id.starttime → p.zombie = false →
    p.oomScoreAdj = original ∨ p.oomScoreAdj ≠ oomBiasTargetValue

/-- The target lives in another user namespace, or `renice` is refused for good. -/
def CannotRestoreNice (env : RuntimeRestoreEnv) (pid : Pid) : Prop :=
  ∃ scope, env.canRestoreNiceFor scope pid = false ∨
    ∃ message, env.reniceError scope pid = some message ∧
      niceRestoreFailureIsPermanent message = true

/-- The process is gone or another one, or it has its nice value back, or cannot have it. -/
def NiceSettled (env : RuntimeRestoreEnv) (t : ProcTable) (pid : Pid) (id : ProcessIdentity)
    (original : Int) : Prop :=
  (∀ p, t pid = some p → p.starttime = id.starttime → p.nice = original) ∨
    CannotRestoreNice env pid

/-- A release of the unit returned `Ok`: the lease's own, or that of the loop over the plan. -/
def CapReleased (env : RuntimeRestoreEnv) (pid : Pid) (cap : CapEntry) : Prop :=
  isLease cap.scope = true ∧ (env.leases.uncap pid).leaseReleased = true ∨
    ∃ allowPidMove, uncapCpuProcess (env.caps.uncap pid) cap allowPidMove = true

/-- The obligation stands no longer. -/
def Obligation.Settled (env : RuntimeRestoreEnv) (t : ProcTable) : Obligation → Prop
  | .renice pid original id => NiceSettled env t pid id original
  | .oomBias pid original id => AdjSettled t pid id original
  | .pending pid d => AdjSettled t pid d.identity d.originalAdj
  | .cpuCap pid cap => CapReleased env pid cap

/-! ## Adjustments, once settled, stay settled -/

section Adj

variable {w : OomWorld} {pid pid' : Pid} {id id' : ProcessIdentity} {original original' : Int}

/-- Any restore only replaces the guard's value. -/
theorem AdjSettled.oomRestore (h : AdjSettled w.table pid id original) (env : RestoreEnv)
    (cause : AdjCause) :
    AdjSettled (oomRestore env w pid' id' original' cause).1.table pid id original := by
  have hwrite : (w.table pid').map (·.oomScoreAdj) = some oomBiasTargetValue →
      AdjSettled (w.writeAdj pid' original' cause).table pid id original := by
    intro htarget p hp hst hzombie
    rw [writeAdj_table, ProcTable.setAdj_apply] at hp
    split at hp
    · next heq =>
      subst heq
      obtain ⟨q, hq, rfl⟩ := Option.map_eq_some_iff.1 hp
      rw [hq] at htarget
      have hown : q.oomScoreAdj = oomBiasTargetValue := Option.some.inj htarget
      have hbase := (h q hq hst hzombie).resolve_right (not_not.2 hown)
      by_cases hsame : original' = oomBiasTargetValue
      · exact Or.inl (by rw [← hbase, hown]; exact hsame)
      · exact Or.inr hsame
    · exact h p hp hst hzombie
  unfold DraconGuard.oomRestore
  split_ifs with h1 h2 h3 h4 h5 h6
  · exact h
  · exact h
  · exact h
  · exact h
  · exact h
  · exact hwrite (by simpa using h4)
  · exact hwrite (by simpa using h4)

/-- A restore that succeeds settles its own. -/
theorem adjSettled_of_restored {env : RestoreEnv} {cause : AdjCause} {b : Bool}
    (h : (oomRestore env w pid id original cause).2 = .ok b) :
    AdjSettled (oomRestore env w pid id original cause).1.table pid id original := by
  obtain ⟨-, p, hp, -, hother | ⟨-, -, hafter⟩⟩ := oomRestore_ok h
  · refine AdjSettled.oomRestore ?_ env cause
    intro q hq _ _
    obtain rfl : p = q := Option.some.inj (hp.symm.trans hq)
    exact Or.inr hother
  · intro q hq _ _
    rw [hafter] at hq
    obtain rfl := Option.some.inj hq
    exact Or.inl rfl

theorem AdjSettled.restorePendingStep (h : AdjSettled w.table pid id original) (env : PendingEnv)
    (exempt : List String) (key : Incarnation) :
    AdjSettled (restorePendingStep env exempt w key).table pid id original := by
  rcases restorePendingStep_cases env exempt w key with heq | ⟨pd, -, heq | heq |
    ⟨w', rfl, heq | heq⟩⟩
  · rw [heq]; exact h
  · rw [heq]; exact h
  · rw [heq]; exact h
  · rw [heq]; exact h.oomRestore _ _
  · rw [heq]; exact h.oomRestore _ _

theorem AdjSettled.restoreOomBias (h : AdjSettled w.table pid id original) (env : ReleaseEnv)
    (root : Pid) : AdjSettled (restoreOomBias env w root).table pid id original := by
  unfold DraconGuard.restoreOomBias
  split
  · exact h
  · split
    · exact h
    · exact h
    · exact h
    · unfold settleOomBias
      dsimp only
      split <;> exact h.oomRestore _ _

theorem AdjSettled.renice {t : ProcTable} (h : AdjSettled t pid id original) (pid' : Pid)
    (v : Int) : AdjSettled (t.renice pid' v) pid id original := by
  intro p hp hst hzombie
  rw [ProcTable.renice_apply] at hp
  split at hp
  · next heq =>
    subst heq
    obtain ⟨q, hq, rfl⟩ := Option.map_eq_some_iff.1 hp
    exact h q hq hst hzombie
  · exact h p hp hst hzombie

theorem AdjSettled.restoreNice {n : NiceWorld} (h : AdjSettled n.table pid id original)
    (env : RuntimeRestoreEnv) (r : NiceRestore) :
    AdjSettled (restoreNice env n r).table pid id original := by
  unfold DraconGuard.restoreNice
  dsimp only
  split
  · exact h
  · exact h
  · exact h
  · split
    · exact h
    · split
      · exact h.renice r.pid r.originalNice
      · split <;> exact h

end Adj

/-! ## The sweep and the leases -/

section Prepare

variable {env : RuntimeRestoreEnv} {w : OomWorld} {samples : List ProcSample}

/-- The sweep works on descendants: renices, roots and caps stay. -/
theorem sweep_others (senv : SweepEnv) (exempt : List String) (w : OomWorld) :
    (sweepStrandedOomDescendants senv exempt samples w).state.nice = w.state.nice ∧
      (sweepStrandedOomDescendants senv exempt samples w).state.oom.oomBiasedPids =
        w.state.oom.oomBiasedPids ∧
      (sweepStrandedOomDescendants senv exempt samples w).state.caps = w.state.caps := by
  refine sweep_induction (P := fun v => v.state.nice = w.state.nice ∧
    v.state.oom.oomBiasedPids = w.state.oom.oomBiasedPids ∧ v.state.caps = w.state.caps) ?_ ?_ ?_
  · exact ⟨rfl, enlist_biased _ _ _ _ _, rfl⟩
  · intro v penv hv
    obtain ⟨l, hl⟩ := persistMitigations_state penv v.state v.disk
    unfold OomWorld.persist
    dsimp only [OomWorld.mark]
    rw [hl]
    exact hv
  · intro v key hv
    obtain ⟨o, hstate, hbiased, -⟩ := restorePendingStep_state senv.pending exempt v key
    rw [hstate]
    exact ⟨hv.1, hbiased.trans hv.2.1, hv.2.2⟩

theorem prepareRestore_nice (env : RuntimeRestoreEnv) (samples : List ProcSample) (w : OomWorld) :
    (prepareRestore env samples w).state.nice = w.state.nice :=
  (sweep_others env.sweep [] _).1

theorem prepareRestore_biased :
    (prepareRestore env samples w).state.oom.oomBiasedPids = w.state.oom.oomBiasedPids :=
  (sweep_others env.sweep [] _).2.1

/-- A cap stays, or its lease was released. -/
theorem prepareRestore_capped (env : RuntimeRestoreEnv) (samples : List ProcSample) {pid : Pid}
    {cap : CapEntry}
    (h : w.state.caps.cappedPids.lookup pid = some cap) :
    (prepareRestore env samples w).state.caps.cappedPids.lookup pid = some cap ∨
      CapReleased env pid cap := by
  have hstep : ∀ (c : CapWorld) (pid' : Pid), c.caps.cappedPids.lookup pid = some cap →
      (restoreLease env.leases c pid').caps.cappedPids.lookup pid = some cap ∨
        CapReleased env pid cap := by
    intro c pid' hc
    unfold restoreLease
    split
    · exact Or.inl hc
    · next e he =>
      split
      · next hreleased =>
        by_cases hp : pid = pid'
        · subst hp
          obtain rfl : e = cap := Option.some.inj (he.symm.trans hc)
          rw [Bool.and_eq_true] at hreleased
          exact Or.inr (Or.inl hreleased)
        · rw [lookup_pay, if_neg hp]
          exact Or.inl hc
      · exact Or.inl hc
  have hloop : ∀ (pids : List Pid) (c : CapWorld), c.caps.cappedPids.lookup pid = some cap →
      (pids.foldl (restoreLease env.leases) c).caps.cappedPids.lookup pid = some cap ∨
        CapReleased env pid cap := by
    intro pids
    induction pids with
    | nil => exact fun c hc => Or.inl hc
    | cons p pids ih =>
      intro c hc
      rcases hstep c p hc with hkept | hreleased
      · exact ih _ hkept
      · exact Or.inr hreleased
  unfold prepareRestore
  rw [(sweep_others env.sweep [] _).2.2]
  exact hloop _ _ h

/-- The attribution of the sweep adds debts under new keys only. -/
theorem enlist_kept {t : ProcTable} {readable : Pid → Bool} {exempt : List String} {o : OomState}
    {key : Incarnation} {pd : OomPendingDescendant}
    (h : o.oomPendingDescendants.lookup key = some pd) :
    (enlistStrandedDescendants t readable samples exempt o).oomPendingDescendants.lookup key =
      some pd := by
  refine List.foldlRecOn
    (motive := fun o' : OomState => o'.oomPendingDescendants.lookup key = some pd) samples _ h
    fun o' ho' child _ => ?_
  unfold enlistStep
  split
  · exact ho'
  · split
    · exact ho'
    · dsimp only
      split
      · exact ho'
      · next hnew =>
        split
        · exact ho'
        · rw [FinMap.lookup_insert_eq, if_neg]
          · exact ho'
          · rintro rfl
            rw [ho'] at hnew
            exact hnew rfl

/-- One retry of the descendant. -/
theorem pendingStep_settles (penv : PendingEnv) (exempt : List String) {w : OomWorld}
    {key : Incarnation} {d : PendingDebt} (h : w.owes key = some d) :
    (restorePendingStep penv exempt w key).owes key = some d ∨
      AdjSettled (restorePendingStep penv exempt w key).table key.1 d.identity d.originalAdj := by
  obtain ⟨pd, hpd, rfl⟩ := Option.map_eq_some_iff.1 h
  have hdead : (processIdentityStatus w.table (penv.readable key) key.1 pd.identity).dead = true →
      AdjSettled w.table key.1 pd.identity pd.originalAdj := fun hdead p hp hst =>
    absurd hst (processIdentityStatus_dead hdead p hp)
  generalize hstep : restorePendingStep penv exempt w key = w'
  unfold restorePendingStep at hstep
  dsimp only at hstep
  rw [hpd] at hstep
  dsimp only at hstep
  split at hstep
  · next hs => subst hstep; exact Or.inr (hdead (by rw [hs]; rfl))
  · next hs => subst hstep; exact Or.inr (hdead (by rw [hs]; rfl))
  · subst hstep; exact Or.inl (owes_retry w w key pd)
  · split_ifs at hstep with hzombie hid hexempt
    · subst hstep
      refine Or.inr fun p hp _ hlive => ?_
      rw [Bool.and_eq_true, OomWorld.setOom_table] at *
      rw [hp, Option.any_some, hlive] at hzombie
      exact absurd hzombie.2 (by decide)
    · subst hstep; exact Or.inl (owes_retry w w key pd)
    · subst hstep; exact Or.inl (owes_retry w w key pd)
    · split at hstep
      · subst hstep; exact Or.inl (owes_retry w _ key pd)
      · next b hb => subst hstep; exact Or.inr (adjSettled_of_restored hb)

/-- A pending descendant is still owed after a sweep, or settled. -/
theorem sweep_pending (senv : SweepEnv) (exempt : List String) {key : Incarnation}
    {d : PendingDebt}
    (h : w.owes key = some d ∨ AdjSettled w.table key.1 d.identity d.originalAdj) :
    (sweepStrandedOomDescendants senv exempt samples w).owes key = some d ∨
      AdjSettled (sweepStrandedOomDescendants senv exempt samples w).table key.1 d.identity
        d.originalAdj := by
  refine sweep_induction (P := fun v => v.owes key = some d ∨
    AdjSettled v.table key.1 d.identity d.originalAdj) ?_ ?_ ?_
  · rcases h with h | h
    · obtain ⟨pd, hpd, rfl⟩ := Option.map_eq_some_iff.1 h
      exact Or.inl (Option.map_eq_some_iff.2 ⟨pd, enlist_kept hpd, rfl⟩)
    · exact Or.inr h
  · intro v penv hv
    refine hv.imp (fun hv => ?_) id
    unfold OomWorld.owes at hv ⊢
    rw [persist_oom]
    exact hv
  · intro v key' hv
    rcases hv with hv | hv
    · by_cases hkey : key = key'
      · subst hkey
        exact pendingStep_settles senv.pending exempt hv
      · exact Or.inl ((owes_pendingStep_other hkey).trans hv)
    · exact Or.inr (hv.restorePendingStep senv.pending exempt key')

end Prepare

/-! ## The plan -/

section Plan

variable {s : NiceState} {r : NiceRestore}

theorem heldByBoth_iff {pid : Pid} : heldByBoth s pid = true ↔ ∃ l m,
    s.entry .legacy pid = some l ∧ s.entry .memory pid = some m ∧
      sameProcessIncarnation l.identity m.identity = true := by
  unfold heldByBoth
  split
  · next l m hl hm =>
    constructor
    · exact fun h => ⟨l, m, hl, hm, h⟩
    · rintro ⟨l', m', hl', hm', h⟩
      obtain rfl := Option.some.inj (hl.symm.trans hl')
      obtain rfl := Option.some.inj (hm.symm.trans hm')
      exact h
  · next hnone =>
    constructor
    · exact fun h => nomatch h
    · rintro ⟨l, m, hl, hm, -⟩
      exact absurd hm (hnone l m hl)

theorem starttime_eq_of_same {a b : ProcessIdentity} (h : sameProcessIncarnation a b = true) :
    a.starttime = b.starttime := by
  simp only [sameProcessIncarnation, Bool.and_eq_true, beq_iff_eq] at h
  exact h.2

theorem mem_niceRestorePlan : r ∈ niceRestorePlan s ↔
    (∃ pid l, s.entry .legacy pid = some l ∧
      r = ⟨pid, l.originalNice, l.identity, if heldByBoth s pid then .both else .legacy⟩) ∨
    ∃ pid m, s.entry .memory pid = some m ∧ heldByBoth s pid = false ∧
      r = ⟨pid, m.originalNice, m.identity, .memory⟩ := by
  have hmem : ∀ (k : NiceLimiterKind) (pid : Pid) (e : ReniceState),
      ⟨pid, e⟩ ∈ (s.limiter k).renicedPids.entries ↔ s.entry k pid = some e := fun k pid e =>
    FinMap.mem_entries_iff
  unfold niceRestorePlan
  rw [List.mem_append, List.mem_map, List.mem_map]
  constructor
  · rintro (⟨⟨pid, l⟩, hl, rfl⟩ | ⟨⟨pid, m⟩, hm, rfl⟩)
    · exact Or.inl ⟨pid, l, (hmem .legacy pid l).1 hl, rfl⟩
    · rw [List.mem_filter, Bool.not_eq_true'] at hm
      exact Or.inr ⟨pid, m, (hmem .memory pid m).1 hm.1, hm.2, rfl⟩
  · rintro (⟨pid, l, hl, rfl⟩ | ⟨pid, m, hm, hboth, rfl⟩)
    · exact Or.inl ⟨⟨pid, l⟩, (hmem .legacy pid l).2 hl, rfl⟩
    · refine Or.inr ⟨⟨pid, m⟩, List.mem_filter.2 ⟨(hmem .memory pid m).2 hm, ?_⟩, rfl⟩
      rw [hboth]; rfl

/-- A restoration carries what an entry it stands for holds. -/
theorem plan_entry (hr : r ∈ niceRestorePlan s) {k : NiceLimiterKind}
    (hk : r.scope.covers k = true) : ∃ e, s.entry k r.pid = some e ∧
      e.identity.starttime = r.identity.starttime ∧
        (SameOriginals s → e.originalNice = r.originalNice) := by
  rcases mem_niceRestorePlan.1 hr with ⟨pid, l, hl, rfl⟩ | ⟨pid, m, hm, -, rfl⟩
  · dsimp only at hk ⊢
    cases k with
    | legacy => exact ⟨l, hl, rfl, fun _ => rfl⟩
    | memory =>
      split at hk
      · next hboth =>
        obtain ⟨l', m, hl', hm, hsame⟩ := heldByBoth_iff.1 hboth
        obtain rfl := Option.some.inj (hl.symm.trans hl')
        have hst := starttime_eq_of_same hsame
        exact ⟨m, hm, hst.symm, fun h => (h pid l m hl hm hst).symm⟩
      · cases hk
  · cases k with
    | legacy => cases hk
    | memory => exact ⟨m, hm, rfl, fun _ => rfl⟩

/-- Every scope stands for an entry. -/
theorem exists_covers (scope : NiceRestoreScope) : ∃ k, scope.covers k = true := by
  cases scope with
  | legacy => exact ⟨.legacy, rfl⟩
  | memory => exact ⟨.memory, rfl⟩
  | both => exact ⟨.legacy, rfl⟩

end Plan

/-! ## Nice values put back -/

section Nice

variable {env : RuntimeRestoreEnv}

/-- The restoration finds its process, may raise its priority, and succeeds. -/
def Restores (env : RuntimeRestoreEnv) (t : ProcTable) (r : NiceRestore) : Prop :=
  processIdentityStatus t (env.niceReadable r.scope r.pid) r.pid r.identity = .matching ∧
    env.canRestoreNiceFor r.scope r.pid = true ∧ env.reniceError r.scope r.pid = none

theorem restores_congr {t t' : ProcTable} (h : ∀ pid, startRow t' pid = startRow t pid)
    (r : NiceRestore) : Restores env t' r ↔ Restores env t r := by
  unfold Restores
  rw [status_congr (h r.pid)]

/-- What was not put off was restored, or its process is another, or it cannot be restored. -/
theorem restores_or_lost {t : ProcTable} {r : NiceRestore} (hheld : niceHeld env t r = false) :
    Restores env t r ∨ startRow t r.pid ≠ some r.identity.starttime ∨
      CannotRestoreNice env r.pid := by
  have hdead : (processIdentityStatus t (env.niceReadable r.scope r.pid) r.pid r.identity).dead =
      true → startRow t r.pid ≠ some r.identity.starttime := by
    intro hdead hrow
    obtain ⟨p, hp, hst⟩ := Option.map_eq_some_iff.1 hrow
    exact processIdentityStatus_dead hdead p hp hst
  unfold niceHeld at hheld
  split at hheld
  · next hs => exact Or.inr (Or.inl (hdead (by rw [hs]; rfl)))
  · next hs => exact Or.inr (Or.inl (hdead (by rw [hs]; rfl)))
  · cases hheld
  · next hs =>
    cases hcan : env.canRestoreNiceFor r.scope r.pid with
    | false => exact Or.inr (Or.inr ⟨r.scope, Or.inl hcan⟩)
    | true =>
      cases herr : env.reniceError r.scope r.pid with
      | none => exact Or.inl ⟨hs, hcan, herr⟩
      | some message =>
        rw [hcan, herr, Bool.true_and, Option.any_some, Bool.not_eq_false'] at hheld
        exact Or.inr (Or.inr ⟨r.scope, Or.inr ⟨message, herr, hheld⟩⟩)

/-- One restoration writes its own pid, and only if it succeeds. -/
theorem niceRow_restoreNice (n : NiceWorld) (r : NiceRestore) (pid : Pid) :
    (pid = r.pid ∧ Restores env n.table r ∧
      niceRow (restoreNice env n r).table pid = some r.originalNice) ∨
    ¬ (pid = r.pid ∧ Restores env n.table r) ∧
      niceRow (restoreNice env n r).table pid = niceRow n.table pid := by
  unfold restoreNice Restores
  dsimp only
  split
  · next hs => exact Or.inr ⟨fun h => (nomatch hs.symm.trans h.2.1), rfl⟩
  · next hs => exact Or.inr ⟨fun h => (nomatch hs.symm.trans h.2.1), rfl⟩
  · next hs => exact Or.inr ⟨fun h => (nomatch hs.symm.trans h.2.1), rfl⟩
  · next hs =>
    obtain ⟨-, p, hp, -⟩ := processIdentityStatus_matching hs
    split
    · next hcan =>
      rw [Bool.not_eq_true'] at hcan
      exact Or.inr ⟨fun h => (nomatch hcan.symm.trans h.2.2.1), rfl⟩
    · next hcan =>
      split
      · next herr =>
        have hrow : niceRow (n.table.renice r.pid r.originalNice) pid =
            if pid = r.pid then some r.originalNice else niceRow n.table pid := by
          unfold niceRow
          rw [ProcTable.renice_apply]
          split
          · rw [hp]; rfl
          · rfl
        dsimp only
        rw [hrow]
        by_cases hpid : pid = r.pid
        · exact Or.inl ⟨hpid, ⟨hs, by simpa using hcan, herr⟩, if_pos hpid⟩
        · exact Or.inr ⟨fun h => hpid h.1, if_neg hpid⟩
      · next message herr =>
        refine Or.inr ⟨fun h => ?_, ?_⟩
        · rw [herr] at h; cases h.2.2.2
        · split <;> rfl

theorem niceRow_restoreNices {plan : List NiceRestore} {n : NiceWorld} {pid : Pid} {v : Int}
    (hsame : ∀ r ∈ plan, r.pid = pid → Restores env n.table r → r.originalNice = v)
    (h : niceRow n.table pid = some v ∨ ∃ r ∈ plan, r.pid = pid ∧ Restores env n.table r) :
    niceRow (plan.foldl (restoreNice env) n).table pid = some v := by
  induction plan generalizing n with
  | nil =>
    rcases h with h | ⟨r, hr, -⟩
    · exact h
    · cases hr
  | cons r plan ih =>
    have hcongr : ∀ r', Restores env (restoreNice env n r).table r' ↔ Restores env n.table r' :=
      restores_congr fun pid => startRow_of_adjRow (adjRow_restoreNice n r pid)
    refine ih (fun r' hr' hpid hres => ?_) ?_
    · exact hsame r' (List.mem_cons_of_mem r hr') hpid ((hcongr r').1 hres)
    · rcases niceRow_restoreNice n r pid with ⟨hpid, hres, hrow⟩ | ⟨hother, hrow⟩
      · rw [hrow, hsame r List.mem_cons_self hpid.symm hres]
        exact Or.inl rfl
      · rw [hrow]
        refine h.imp_right ?_
        rintro ⟨r', hr', hpid, hres⟩
        rcases List.mem_cons.1 hr' with rfl | hr'
        · exact absurd ⟨hpid.symm, hres⟩ hother
        · exact ⟨r', hr', hpid, (hcongr r').2 hres⟩

end Nice

/-! ## A true is honest -/

section Honest

variable {env : RuntimeRestoreEnv} {p : OomWorld}

theorem niceRow_restoreOomBias (renv : ReleaseEnv) (w : OomWorld) (root pid : Pid) :
    niceRow (restoreOomBias renv w root).table pid = niceRow w.table pid := by
  unfold restoreOomBias
  split
  · rfl
  · split
    · rfl
    · rfl
    · rfl
    · unfold settleOomBias
      dsimp only
      split <;> exact niceRow_oomRestore _ _ _ _ _ _ pid

theorem niceRow_restorePlanned (pid : Pid) :
    niceRow (restorePlanned env p).table pid = niceRow (afterNice env p).table pid :=
  Runs.foldl_unwritten (fun w : OomWorld => niceRow w.table pid)
    (fun w root => niceRow_restoreOomBias env.oom w root pid) _ (afterNice env p)

/-- A renice that the loop let go of. -/
theorem renice_settles (horiginals : SameOriginals p.state.nice) {k : NiceLimiterKind} {pid : Pid}
    {e : ReniceState} (he : p.state.nice.entry k pid = some e)
    (hleft : (restorePlanned env p).state.nice.entry k pid ≠ some e) :
    NiceSettled env (restorePlanned env p).table pid e.identity e.originalNice := by
  -- Some restoration that stands for the entry was not put off.
  rw [Ne, entry_restorePlanned] at hleft
  push Not at hleft
  obtain ⟨r, hr, rfl, hk, hheld⟩ := hleft he
  obtain ⟨e', he', hst, -⟩ := plan_entry hr hk
  obtain rfl : e = e' := Option.some.inj (he.symm.trans he')
  have hstart : startRow (restorePlanned env p).table r.pid = startRow p.table r.pid :=
    startRow_afterOom p r.pid
  rcases restores_or_lost (by simpa using hheld) with hres | hother | hcannot
  · -- Whatever restoration finds the process puts one and the same value back.
    have hrow : niceRow (afterNice env p).table r.pid = some e.originalNice := by
      refine niceRow_restoreNices (n := ⟨p.table, p.state.nice⟩) ?_ (Or.inr ⟨r, hr, rfl, hres⟩)
      intro r' hr' hpid hres'
      obtain ⟨k', hk'⟩ := exists_covers r'.scope
      obtain ⟨e', he', hst', horig⟩ := plan_entry hr' hk'
      obtain ⟨-, q, hq, hqst⟩ := processIdentityStatus_matching hres.1
      obtain ⟨-, q', hq', hqst'⟩ := processIdentityStatus_matching hres'.1
      rw [hpid] at he' hq'
      obtain rfl : q = q' := Option.some.inj (hq.symm.trans hq')
      rw [← horig horiginals]
      exact horiginals.eq he' he (by rw [hst', hst, ← hqst, ← hqst'])
    refine Or.inl fun q hq _ => ?_
    rw [← niceRow_restorePlanned, niceRow, hq] at hrow
    exact Option.some.inj hrow
  · refine Or.inl fun q hq hqst => absurd ?_ hother
    rw [← hstart, startRow, hq, Option.map_some, hqst, hst]
  · exact Or.inr hcannot

/-- A root at a turn of the loop: recorded, or settled. -/
theorem bias_settles_step {renv : ReleaseEnv} {w : OomWorld} {pid : Pid} {original : Int}
    {id : ProcessIdentity} (h : w.state.oom.oomBiasedPids.lookup pid = some (original, id) ∨
      AdjSettled w.table pid id original) (root : Pid) :
    (restoreOomBias renv w root).state.oom.oomBiasedPids.lookup pid = some (original, id) ∨
      AdjSettled (restoreOomBias renv w root).table pid id original := by
  rcases h with h | h
  · by_cases hp : pid = root
    · subst hp
      generalize hstep : restoreOomBias renv w pid = w'
      unfold restoreOomBias at hstep
      rw [h] at hstep
      dsimp only at hstep
      have hdead : (processIdentityStatus w.table (renv.readable pid) pid id).dead = true →
          AdjSettled w.table pid id original := fun hdead q hq hst =>
        absurd hst (processIdentityStatus_dead hdead q hq)
      split at hstep
      · next hs => subst hstep; exact Or.inr (hdead (by rw [hs]; rfl))
      · next hs => subst hstep; exact Or.inr (hdead (by rw [hs]; rfl))
      · subst hstep; exact Or.inl h
      · unfold settleOomBias at hstep
        dsimp only at hstep
        split at hstep
        · subst hstep
          rw [oomRestore_state]
          exact Or.inl h
        · next b hb => subst hstep; exact Or.inr (adjSettled_of_restored hb)
    · rw [(rootOnly_restoreOomBias w root).biased pid hp]
      exact Or.inl h
  · exact Or.inr (h.restoreOomBias renv root)

/-- What was settled before the loop over the plan is settled after it. -/
theorem AdjSettled.restorePlanned {pid : Pid} {original : Int} {id : ProcessIdentity}
    (h : AdjSettled p.table pid id original) :
    AdjSettled (restorePlanned env p).table pid id original := by
  have hnice : AdjSettled (afterNice env p).table pid id original :=
    List.foldlRecOn (motive := fun n : NiceWorld => AdjSettled n.table pid id original)
      (niceRestorePlan p.state.nice) _ (b := ⟨p.table, p.state.nice⟩) h
      fun n hn r _ => hn.restoreNice env r
  exact List.foldlRecOn (motive := fun w : OomWorld => AdjSettled w.table pid id original)
    p.state.oom.oomBiasedPids.keys _ hnice fun w hw root _ => hw.restoreOomBias env.oom root

theorem bias_settles {pid : Pid} {original : Int} {id : ProcessIdentity}
    (h : p.state.oom.oomBiasedPids.lookup pid = some (original, id)) :
    (restorePlanned env p).state.oom.oomBiasedPids.lookup pid = some (original, id) ∨
      AdjSettled (restorePlanned env p).table pid id original :=
  List.foldlRecOn
    (motive := fun w : OomWorld => w.state.oom.oomBiasedPids.lookup pid = some (original, id) ∨
      AdjSettled w.table pid id original)
    p.state.oom.oomBiasedPids.keys _ (b := afterNice env p) (Or.inl h)
    fun _ hw root _ => bias_settles_step hw root

theorem cap_settles {pid : Pid} {cap : CapEntry}
    (h : p.state.caps.cappedPids.lookup pid = some cap)
    (hleft : (restorePlanned env p).state.caps.cappedPids.lookup pid ≠ some cap) :
    CapReleased env pid cap := by
  rw [capped_restorePlanned, h, Ne, Option.filter_eq_some_iff] at hleft
  have hheld : capHeld env.caps p.table pid cap = false := by
    simpa using hleft
  unfold capHeld at hheld
  split at hheld
  · exact Or.inr ⟨true, by simpa using hheld⟩
  · exact Or.inr ⟨true, by simpa using hheld⟩
  · exact Or.inr ⟨false, by simpa using hheld⟩
  · cases hheld

/-- **A restore that returns true has settled whatever was owed when it started.** -/
theorem restored_settles {w : OomWorld} (horiginals : SameOriginals w.state.nice)
    (htrue : (restoreRuntimeAdjustments env w).2 = true) (o : Obligation) (ho : w.state.Owes o) :
    o.Settled env (restoreRuntimeAdjustments env w).1.table := by
  unfold restoreRuntimeAdjustments at htrue ⊢
  split at htrue
  · cases htrue
  · next hfree =>
    rw [if_neg hfree]
    dsimp only at htrue ⊢
    set samples := processSamples w.table env.rows
    set p := prepareRestore env samples w with hp
    have hgone := not_owes_of_drained htrue
    cases o with
    | renice pid original id =>
      obtain ⟨k, e, he, rfl, rfl⟩ := ho
      rw [← prepareRestore_nice env samples w] at horiginals he
      exact renice_settles horiginals he fun h => hgone (.renice _ _ _) ⟨k, e, h, rfl, rfl⟩
    | oomBias pid original id =>
      have hbiased : p.state.oom.oomBiasedPids.lookup pid = some (original, id) := by
        rw [hp, prepareRestore_biased]
        exact ho
      exact (bias_settles hbiased).resolve_left (hgone (.oomBias pid original id))
    | pending pid d =>
      obtain ⟨key, pd, hpd, rfl, rfl⟩ := ho
      have hswept : p.owes key = some pd.debt ∨ AdjSettled p.table key.1 pd.identity
          pd.originalAdj :=
        sweep_pending (d := pd.debt) env.sweep [] (Or.inl (Option.map_eq_some_iff.2 ⟨pd, hpd, rfl⟩))
      rcases hswept with howed | hsettled
      · obtain ⟨pd', hpd', hd⟩ := Option.map_eq_some_iff.1 howed
        exact absurd ((owes_restorePlanned p (.pending key.1 pd.debt)).2 ⟨key, pd', hpd', rfl, hd⟩)
          (hgone _)
      · exact hsettled.restorePlanned
    | cpuCap pid cap =>
      rcases prepareRestore_capped env samples ho with hkept | hreleased
      · exact cap_settles hkept (hgone (.cpuCap pid cap))
      · exact hreleased

end Honest

/-- A browser biased by the guard, that set its adjustment to 100 by itself later. -/
private def chromeHundred : OomWorld where
  table := fun pid => if pid = 7 then
    some { ppid := 1, comm := "chrome", starttime := 100, oomScoreAdj := 100 } else none
  state := { oom := { oomBiasedPids := AList.insert 7 (0, ⟨"chrome", 100⟩) ∅ } }
  disk := ⟨none, []⟩

/-- Everything the restore asks for succeeds and it returns true, but 100 stays. -/
theorem foreign_adjustment_kept :
    ¬ ∀ w, (restoreRuntimeAdjustments wholeRestore w).2 = true → ∀ pid original id,
      w.state.Owes (.oomBias pid original id) →
        ∀ p, (restoreRuntimeAdjustments wholeRestore w).1.table pid = some p →
          p.starttime = id.starttime → p.zombie = false → p.oomScoreAdj = original := by
  intro h
  have hkept := h chromeHundred (by decide) 7 0 ⟨"chrome", 100⟩ rfl
    { ppid := 1, comm := "chrome", starttime := 100, oomScoreAdj := 100 } (by decide) rfl rfl
  exact absurd hkept (by decide)

/-! ## The plan holds every entry once, and is what the restore executes -/

/-- An entry of the maps the plan is made from. -/
inductive PlannedEntry where
  | nice (k : NiceLimiterKind) (pid : Pid)
  | oomBias (pid : Pid)
  | cpuCap (pid : Pid)
deriving DecidableEq

/-- The state has the entry. -/
def GuardRuntimeState.tracks (s : GuardRuntimeState) : PlannedEntry → Bool
  | .nice k pid => (s.nice.entry k pid).isSome
  | .oomBias pid => (s.oom.oomBiasedPids.lookup pid).isSome
  | .cpuCap pid => (s.caps.cappedPids.lookup pid).isSome

/-- The adjustment stands for the entry. -/
def RuntimeAdjustment.standsFor : RuntimeAdjustment → PlannedEntry → Bool
  | .nice r, .nice k pid => r.pid == pid && r.scope.covers k
  | .oomBias p _ _, .oomBias pid => p == pid
  | .cpuCap p _, .cpuCap pid => p == pid
  | _, _ => false

section Once

variable {s : GuardRuntimeState}

/-- A key of a map is there once. -/
theorem countP_entries {β : Type} (m : FinMap Pid β) (pid : Pid) :
    m.entries.countP (fun e => e.1 == pid) = if (m.lookup pid).isSome then 1 else 0 := by
  have hkeys : m.entries.countP (fun e => e.1 == pid) = m.keys.count pid := by
    rw [List.count, AList.keys, List.keys, List.countP_map]
    rfl
  rw [hkeys, (AList.keys_nodup m).count]
  have hmem : pid ∈ m.keys ↔ (m.lookup pid).isSome = true := by
    rw [AList.lookup_isSome]
    exact Iff.rfl
  by_cases h : pid ∈ m.keys
  · rw [if_pos h, if_pos (hmem.1 h)]
  · rw [if_neg h, if_neg fun h' => h (hmem.2 h')]

theorem countP_eq_zero {β : Type} {l : List β} {q : β → Bool} (h : ∀ a ∈ l, q a = false) :
    l.countP q = 0 := by
  rw [List.countP_eq_zero]
  intro a ha
  simp [h a ha]

/-- Of the two limiters' entries for one incarnation, the plan takes one restoration. -/
theorem count_nice (s : NiceState) (k : NiceLimiterKind) (pid : Pid) :
    (niceRestorePlan s).countP (fun r => r.pid == pid && r.scope.covers k) =
      if (s.entry k pid).isSome then 1 else 0 := by
  unfold niceRestorePlan
  rw [List.countP_append, List.countP_map, List.countP_map, List.countP_filter]
  cases k with
  | legacy =>
    have hfirst : s.legacy.renicedPids.entries.countP ((fun r : NiceRestore => r.pid == pid &&
        r.scope.covers .legacy) ∘ fun e => ⟨e.1, e.2.originalNice, e.2.identity,
          if heldByBoth s e.1 then .both else .legacy⟩) =
        s.legacy.renicedPids.entries.countP fun e => e.1 == pid := by
      refine List.countP_congr fun e _ => ?_
      dsimp only [Function.comp_apply]
      split <;> simp [NiceRestoreScope.covers]
    rw [hfirst, countP_entries, countP_eq_zero fun e _ => by simp [NiceRestoreScope.covers],
      Nat.add_zero]
    rfl
  | memory =>
    cases hboth : heldByBoth s pid with
    | true =>
      obtain ⟨l, m, hl, hm, -⟩ := heldByBoth_iff.1 hboth
      have hfirst : s.legacy.renicedPids.entries.countP ((fun r : NiceRestore => r.pid == pid &&
          r.scope.covers .memory) ∘ fun e => ⟨e.1, e.2.originalNice, e.2.identity,
            if heldByBoth s e.1 then .both else .legacy⟩) =
          s.legacy.renicedPids.entries.countP fun e => e.1 == pid := by
        refine List.countP_congr fun e _ => ?_
        dsimp only [Function.comp_apply]
        by_cases hp : e.1 = pid
        · rw [hp, hboth]; simp [NiceRestoreScope.covers]
        · simp [hp]
      have hl' : (s.legacy.renicedPids.lookup pid).isSome = true := by
        rw [show s.legacy.renicedPids.lookup pid = some l from hl]; rfl
      rw [hfirst, countP_entries, if_pos hl', hm, countP_eq_zero fun e _ => ?_]
      · rfl
      · dsimp only [Function.comp_apply]
        by_cases hp : e.1 = pid
        · rw [hp, hboth]; simp
        · simp [hp]
    | false =>
      have hsecond : s.memory.renicedPids.entries.countP (fun e => ((fun r : NiceRestore =>
          r.pid == pid && r.scope.covers .memory) ∘ fun e => ⟨e.1, e.2.originalNice,
            e.2.identity, .memory⟩) e && !heldByBoth s e.1) =
          s.memory.renicedPids.entries.countP fun e => e.1 == pid := by
        refine List.countP_congr fun e _ => ?_
        dsimp only [Function.comp_apply]
        by_cases hp : e.1 = pid
        · rw [hp, hboth]; simp [NiceRestoreScope.covers]
        · simp [hp]
      rw [hsecond, countP_entries, countP_eq_zero fun e _ => ?_, Nat.zero_add]
      · rfl
      · dsimp only [Function.comp_apply]
        by_cases hp : e.1 = pid
        · rw [hp, hboth]; simp [NiceRestoreScope.covers]
        · simp [hp]

/-- **Every entry stands in the plan exactly once, and nothing else does.** -/
theorem plan_once (s : GuardRuntimeState) (x : PlannedEntry) :
    (runtimeAdjustmentPlan s).countP (·.standsFor x) = if s.tracks x then 1 else 0 := by
  unfold runtimeAdjustmentPlan
  rw [List.countP_append, List.countP_append, List.countP_map, List.countP_map, List.countP_map]
  cases x with
  | nice k pid =>
    change (niceRestorePlan s.nice).countP (fun r => r.pid == pid && r.scope.covers k) +
      s.oom.oomBiasedPids.entries.countP (fun _ => false) +
        s.caps.cappedPids.entries.countP (fun _ => false) = _
    rw [count_nice, countP_eq_zero fun _ _ => rfl, countP_eq_zero fun _ _ => rfl]
    rfl
  | oomBias pid =>
    change (niceRestorePlan s.nice).countP (fun _ => false) +
      s.oom.oomBiasedPids.entries.countP (fun e => e.1 == pid) +
        s.caps.cappedPids.entries.countP (fun _ => false) = _
    rw [countP_entries, countP_eq_zero fun _ _ => rfl, countP_eq_zero fun _ _ => rfl, Nat.zero_add]
    rfl
  | cpuCap pid =>
    change (niceRestorePlan s.nice).countP (fun _ => false) +
      s.oom.oomBiasedPids.entries.countP (fun _ => false) +
        s.caps.cappedPids.entries.countP (fun e => e.1 == pid) = _
    rw [countP_entries, countP_eq_zero fun _ _ => rfl, countP_eq_zero fun _ _ => rfl, Nat.zero_add]
    rfl

end Once

section Executed

variable {env : RuntimeRestoreEnv} {p : OomWorld}

theorem restoreNices_eq (rs : List NiceRestore) (w : OomWorld) :
    (rs.map RuntimeAdjustment.nice).foldl (restoreAdjustment env) w =
      w.onNice (rs.foldl (restoreNice env)) := by
  induction rs generalizing w with
  | nil => rfl
  | cons r rs ih => rw [List.map_cons, List.foldl_cons, ih]; rfl

/-- The record of a root is still the plan's when its turn comes. -/
theorem restoreBiases_eq (env : RuntimeRestoreEnv) (w : OomWorld)
    {m : FinMap Pid (Int × ProcessIdentity)} (hm : w.state.oom.oomBiasedPids = m) :
    (m.entries.map fun e => RuntimeAdjustment.oomBias e.1 e.2.1 e.2.2).foldl
        (restoreAdjustment env) w = m.keys.foldl (restoreOomBias env.oom) w := by
  rw [List.foldl_map]
  refine Runs.foldl_recorded (fun e : Sigma fun _ : Pid => Int × ProcessIdentity => e.1)
    (fun w e => w.state.oom.oomBiasedPids.lookup e.1 = some e.2) ?_ ?_ m.entries w
    (AList.keys_nodup m) ?_
  · intro w e he
    unfold restoreOomBias
    rw [he]
    rfl
  · intro w a b hne hb
    rw [(rootOnly_restoreOomBias w a.1).biased b.1 hne]
    exact hb
  · intro e he
    rw [hm]
    exact FinMap.mem_entries_iff.1 he

/-- What a turn makes of the caps does not depend on what was released before. -/
theorem restoreCap_congr {c c' : CapWorld} (ht : c.table = c'.table) (hc : c.caps = c'.caps)
    (cenv : CapReleaseEnv) (pid : Pid) :
    (restoreCap cenv c pid).caps = (restoreCap cenv c' pid).caps := by
  obtain ⟨t, caps, un, released⟩ := c
  obtain ⟨t', caps', un', released'⟩ := c'
  obtain rfl : t = t' := ht
  obtain rfl : caps = caps' := hc
  unfold restoreCap
  dsimp only
  split
  · rfl
  · split
    · split <;> rfl
    · split <;> rfl
    · split <;> rfl
    · rfl

theorem onCaps_foldl (cenv : CapReleaseEnv) {pids : List Pid} {w : OomWorld} {c : CapWorld}
    (ht : c.table = w.table) (hc : c.caps = w.state.caps) :
    pids.foldl (fun w pid => w.onCaps fun c => restoreCap cenv c pid) w =
      { w with state := { w.state with caps := (pids.foldl (restoreCap cenv) c).caps } } := by
  induction pids generalizing w c with
  | nil => rw [List.foldl_nil, List.foldl_nil, hc]
  | cons pid pids ih =>
    rw [List.foldl_cons, List.foldl_cons, ih (c := restoreCap cenv c pid)]
    · rfl
    · rw [restoreCap_table]
      exact ht
    · exact restoreCap_congr ht hc cenv pid

theorem restoreCaps_eq (env : RuntimeRestoreEnv) (w : OomWorld) {m : FinMap Pid CapEntry}
    (hm : w.state.caps.cappedPids = m) :
    (m.entries.map fun e => RuntimeAdjustment.cpuCap e.1 e.2).foldl (restoreAdjustment env) w =
      w.onCaps fun c => m.keys.foldl (restoreCap env.caps) c := by
  rw [List.foldl_map]
  refine Eq.trans ?_ (onCaps_foldl env.caps (c := ⟨w.table, w.state.caps,
    w.state.mitigationLedgerUnavailable, []⟩) rfl rfl)
  refine Runs.foldl_recorded (fun e : Sigma fun _ : Pid => CapEntry => e.1)
    (fun w e => w.state.caps.cappedPids.lookup e.1 = some e.2) ?_ ?_ m.entries w
    (AList.keys_nodup m) ?_
  · intro w e he
    have hturn : ∀ c : CapWorld, c.caps = w.state.caps →
        restoreCapAdjustment env.caps c e.1 e.2 = restoreCap env.caps c e.1 := by
      intro c hc
      unfold restoreCap
      rw [hc, he]
      rfl
    exact congrArg (fun c : CapWorld => { w with state := { w.state with caps := c.caps } })
      (hturn ⟨w.table, w.state.caps, w.state.mitigationLedgerUnavailable, []⟩ rfl)
  · intro w a b hne hb
    dsimp only [OomWorld.onCaps]
    rw [lookup_restoreCap, if_neg hne]
    exact hb
  · intro e he
    rw [hm]
    exact FinMap.mem_entries_iff.1 he

/-- **The restore executes its plan.** -/
theorem restorePlanned_eq : restorePlanned env p =
    (runtimeAdjustmentPlan p.state).foldl (restoreAdjustment env) p := by
  unfold runtimeAdjustmentPlan
  rw [List.foldl_append, List.foldl_append, restoreNices_eq]
  change _ = List.foldl (restoreAdjustment env) (List.foldl (restoreAdjustment env)
    (afterNice env p) _) _
  have hbiases := restoreBiases_eq env (afterNice env p) (m := p.state.oom.oomBiasedPids) rfl
  have hcaps := restoreCaps_eq env (afterOom env p) (m := p.state.caps.cappedPids)
    (congrArg _ (rootsOnly_afterOom p).caps)
  rw [hbiases]
  exact hcaps.symm

end Executed

/-! ## The reload -/

/-- What a reload does with the runtime a restore left: a reload that is put off changes nothing,
one that is applied discards no obligation. -/
def ReloadKeeps {π : Type} (guard : π) (runtime : GuardRuntimeState) (newPolicy : π)
    (after : π × GuardRuntimeState × ReloadOutcome) : Prop :=
  (after.2.2 = .deferred → after.1 = guard ∧ after.2.1 = runtime) ∧
    (after.2.2 = .applied → after.1 = newPolicy ∧ ∀ o, runtime.Owes o → after.2.1.Owes o)

theorem reload_keeps {π : Type} (enabled : π → Bool) (normalize : π → π) (guard newPolicy : π)
    {runtime : GuardRuntimeState} {restored : Bool}
    (hhonest : restored = true → runtime.drained = true) :
    ReloadKeeps guard runtime (normalize newPolicy)
      (applyPolicyReload enabled normalize guard runtime newPolicy restored) := by
  unfold ReloadKeeps applyPolicyReload
  dsimp only
  split
  · exact ⟨fun _ => ⟨rfl, rfl⟩, fun h => (nomatch h)⟩
  · refine ⟨fun h => (nomatch h), fun _ => ⟨rfl, fun o ho => ?_⟩⟩
    dsimp only
    split
    · next hreset =>
      rw [Bool.and_eq_true] at hreset
      exact absurd ho (not_owes_of_drained (hhonest hreset.1) o)
    · exact ho

/-- What `restore_runtime_adjustments` and the reload after it promise, from a state `w`. -/
structure HonestRestore (env : RuntimeRestoreEnv) (w : OomWorld) : Prop where
  /-- A true settles every obligation there was. -/
  settled : (restoreRuntimeAdjustments env w).2 = true → ∀ o, w.state.Owes o →
    o.Settled env (restoreRuntimeAdjustments env w).1.table
  /-- After the leases and the sweep, the restore is its plan. -/
  executed : restoreBlocked env w = false →
    let p := prepareRestore env (processSamples w.table env.rows) w
    (restoreRuntimeAdjustments env w).1 =
      (runtimeAdjustmentPlan p.state).foldl (restoreAdjustment env) p
  /-- The plan has every entry of its maps once. -/
  once : ∀ samples x, (runtimeAdjustmentPlan (prepareRestore env samples w).state).countP
    (·.standsFor x) = if (prepareRestore env samples w).state.tracks x then 1 else 0
  /-- One restoration for both limiters is for one incarnation, with one original. -/
  merged : ∀ samples r, .nice r ∈ runtimeAdjustmentPlan (prepareRestore env samples w).state →
    r.scope = .both → ∃ l m, w.state.nice.entry .legacy r.pid = some l ∧
      w.state.nice.entry .memory r.pid = some m ∧
        sameProcessIncarnation l.identity m.identity = true ∧
          l.originalNice = r.originalNice ∧ m.originalNice = r.originalNice
  reload : ∀ {π : Type} (enabled : π → Bool) (normalize : π → π) (guard newPolicy : π),
    let r := restoreRuntimeAdjustments env w
    ReloadKeeps guard r.1.state (normalize newPolicy)
      (applyPolicyReload enabled normalize guard r.1.state newPolicy r.2)

/-- A true means that nothing is tracked. -/
theorem drained_of_restored {env : RuntimeRestoreEnv} {w : OomWorld}
    (h : (restoreRuntimeAdjustments env w).2 = true) :
    (restoreRuntimeAdjustments env w).1.state.drained = true := by
  unfold restoreRuntimeAdjustments at h ⊢
  split at h
  · cases h
  · next hfree =>
    rw [if_neg hfree]
    exact h

theorem honestRestore_of {env : RuntimeRestoreEnv} {w : OomWorld}
    (h : SameOriginals w.state.nice) : HonestRestore env w where
  settled htrue o ho := restored_settles h htrue o ho
  executed hfree := by
    unfold restoreRuntimeAdjustments
    rw [hfree]
    exact restorePlanned_eq
  once samples x := plan_once _ x
  merged samples r hr hboth := by
    have hplan : r ∈ niceRestorePlan w.state.nice := by
      rw [← prepareRestore_nice env samples w]
      simpa [runtimeAdjustmentPlan] using hr
    rcases mem_niceRestorePlan.1 hplan with ⟨pid, l, hl, rfl⟩ | ⟨pid, m, -, -, rfl⟩
    · dsimp only at hboth ⊢
      split at hboth
      · next hheld =>
        obtain ⟨l', m, hl', hm, hsame⟩ := heldByBoth_iff.1 hheld
        obtain rfl := Option.some.inj (hl.symm.trans hl')
        exact ⟨l, m, hl, hm, hsame, rfl, (h.eq hl hm (starttime_eq_of_same hsame)).symm⟩
      · cases hboth
    · cases hboth
  reload enabled normalize guard newPolicy :=
    reload_keeps enabled normalize guard newPolicy drained_of_restored

/-- **Full restore and reload**: from every state whose limiters remember one original for one
incarnation, and that is every state a daemon reaches. -/
theorem restore_honest :
    (∀ env w, SameOriginals w.state.nice → HonestRestore env w) ∧
      ∀ t disk env readable es, Runs.Always guardStep (fun w => SameOriginals w.state.nice)
        (guardStart t disk env readable) es :=
  ⟨fun _ _ h => honestRestore_of h, sameOriginals_always⟩

end DraconGuard
