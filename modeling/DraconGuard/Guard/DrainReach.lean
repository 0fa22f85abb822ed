import DraconGuard.Guard.ManagedOomLaw

/-!
# Which members draining comes to

A drain pass takes the first 256 pids of `cgroup.procs` (managed_oom.rs:519) and ends at the first
member that is exempt (:528): "newborns and reparented members remain covered by the job debt and
future passes". Over a membership that does not change the passes are all the same. `served` is
what one pass comes to, and `drained_iff` that finitely many passes come to no more.

| here | there |
| --- | --- |
| `Unhindered` | nothing a pass reads or writes fails |
| `served` | the members before the first exempt one, of the first 256 |
| `drainRun` | `drain_one` again and again, from `recover_loop` (managed_oom.rs:612) |
-/

namespace DraconGuard

namespace ManagedOom

open Function (update update_self update_of_ne)

/-- A member the pass stops at. -/
def stopsPass (exempt : List String) (job : Job) (t : ProcTable) (pid : Pid) : Bool :=
  decide (pid ≠ job.sentinel) && (t pid).any fun p => exemptComm exempt p.comm

/-- The members a pass over a listing comes to. -/
def served (exempt : List String) (job : Job) (t : ProcTable) (pids : List Pid) : List Pid :=
  (pids.take 256).takeWhile fun pid => !stopsPass exempt job t pid

/-- What a restoration makes of a process. -/
def restoredProc (baseline : Int) (p : Proc) : Proc :=
  if p.oomScoreAdj = oomBiasTargetValue then { p with oomScoreAdj := baseline } else p

/-- What a pass over these members leaves of the table. -/
def restoredTable (job : Job) (t : ProcTable) (pids : List Pid) : ProcTable := fun pid =>
  if pid ∈ pids ∧ pid ≠ job.sentinel then (t pid).map (restoredProc job.baseline) else t pid

/-- A pass that nothing outside hinders. -/
structure DrainEnv.Unhindered (env : DrainEnv) (pids : List Pid) : Prop where
  locked : env.locked = true
  debtReadable : env.debtReadable = true
  jobReadable : env.jobReadable = true
  bootReadable : env.bootReadable = true
  clock : env.clock = true
  saveDraining : env.saveDraining = .synced
  saveJob : env.saveJob = .synced
  saveAttempt : env.saveAttempt = .synced
  procs : env.procs = some pids
  identity : ∀ pid, env.identityReadable pid = true
  group : ∀ pid, env.groupReadable pid = true
  restore : ∀ pid, env.restore pid = {}

/-- The passes over one debt: before each, the world. -/
def drainRun (env : Nat → DrainEnv) (force : Nat → Bool) (id : String) (exempt : List String)
    (w : ManagedWorld) : Nat → ManagedWorld
  | 0 => w
  | n + 1 => (drainOne (env n) id (force n) exempt none (drainRun env force id exempt w n)).1

/-! ## One member -/

section Pass

variable {env : DrainEnv} {exempt : List String} {job : Job} {w : ManagedWorld}

theorem restoredProc_comm (baseline : Int) (p : Proc) : (restoredProc baseline p).comm = p.comm := by
  unfold restoredProc
  split
  · rfl
  · rfl

theorem restoredProc_idem (baseline : Int) (p : Proc) :
    restoredProc baseline (restoredProc baseline p) = restoredProc baseline p := by
  unfold restoredProc
  split
  · split
    · rfl
    · rfl
  · rfl

theorem oomRestore_unhindered {o : OomWorld} {pid : Pid} {p : Proc} (hp : o.table pid = some p)
    (baseline : Int) :
    (oomRestore {} o pid ⟨p.comm, p.starttime⟩ baseline .release).1.table =
        update o.table pid (some (restoredProc baseline p)) ∧
      ∃ b, (oomRestore {} o pid ⟨p.comm, p.starttime⟩ baseline .release).2 = .ok b := by
  have hmatching : processIdentityStatus o.table true pid ⟨p.comm, p.starttime⟩ = .matching :=
    processIdentityStatus_live hp rfl
  by_cases hadj : p.oomScoreAdj = oomBiasTargetValue
  · have hwritten : oomRestore {} o pid ⟨p.comm, p.starttime⟩ baseline .release =
        (o.writeAdj pid baseline .release, .ok true) := by
      simp [oomRestore, hmatching, hp, hadj]
    rw [hwritten]
    refine ⟨?_, true, rfl⟩
    simp [restoredProc, hadj, OomWorld.writeAdj, OomWorld.mark, hp, ProcTable.setAdj,
      ProcTable.modify]
  · have hskipped : oomRestore {} o pid ⟨p.comm, p.starttime⟩ baseline .release =
        (o, .ok false) := by
      simp [oomRestore, hmatching, hp, hadj]
    rw [hskipped]
    refine ⟨?_, false, rfl⟩
    rw [restoredProc, if_neg hadj, ← hp, Function.update_eq_self]

/-- **One member**: served, or the end of the pass. -/
theorem restoreMember_table {pids : List Pid} (henv : env.Unhindered pids) {pid : Pid}
    (hgroup : (w.table pid).isSome → w.group pid = some job.group) :
    (stopsPass exempt job w.table pid = true ∧
        ∃ e, restoreMember env exempt job w pid = (w, .error e)) ∨
      (stopsPass exempt job w.table pid = false ∧
        ∃ oom, restoreMember env exempt job w pid = ({ w with oom := oom }, .ok ()) ∧
          oom.table = restoredTable job w.table [pid]) := by
  have hleft : restoredTable job w.table [pid] = w.table ∨ pid ≠ job.sentinel := by
    by_cases hsentinel : pid = job.sentinel
    · refine Or.inl (funext fun q => if_neg ?_)
      rintro ⟨hq, hne⟩
      exact hne ((List.mem_singleton.mp hq).trans hsentinel)
    · exact Or.inr hsentinel
  unfold restoreMember stopsPass
  by_cases hsentinel : pid = job.sentinel
  · rw [if_pos hsentinel]
    exact Or.inr ⟨by simp [hsentinel], w.oom, rfl, (hleft.resolve_right fun h => h hsentinel).symm⟩
  · rw [if_neg hsentinel]
    cases hp : w.table pid with
    | none =>
      refine Or.inr ⟨by simp, w.oom, rfl, funext fun q => ?_⟩
      unfold restoredTable
      split
      · next hq =>
        obtain rfl := List.mem_singleton.mp hq.1
        rw [hp]
        exact hp
      · rfl
    | some p =>
      dsimp only
      rw [henv.identity, henv.group, henv.restore]
      cases hexempt : exemptComm exempt p.comm with
      | true => exact Or.inl ⟨by simp [hsentinel, hexempt], _, rfl⟩
      | false =>
        have hin : groupFor true pid w = some job.group := hgroup (by rw [hp]; rfl)
        obtain ⟨htable, b, hb⟩ := oomRestore_unhindered hp job.baseline
        refine Or.inr ⟨by simp [hexempt],
          (oomRestore {} w.oom pid ⟨p.comm, p.starttime⟩ job.baseline .release).1, ?_, ?_⟩
        · rw [hin]
          simp [hb]
        · rw [htable]
          funext q
          unfold restoredTable
          by_cases hq : q = pid
          · subst hq
            rw [update_self, if_pos ⟨List.mem_singleton_self q, hsentinel⟩]
            exact (congrArg (Option.map (restoredProc job.baseline)) hp).symm
          · rw [update_of_ne hq, if_neg fun h => hq (List.mem_singleton.mp h.1)]

/-! ## One pass -/

theorem restoredTable_append (t : ProcTable) (pids pids' : List Pid) :
    restoredTable job (restoredTable job t pids) pids' = restoredTable job t (pids ++ pids') := by
  funext q
  unfold restoredTable
  by_cases hsentinel : q = job.sentinel
  · simp [hsentinel]
  · by_cases hq : q ∈ pids
    · by_cases hin : q ∈ pids'
      · simp only [hq, hin, hsentinel, List.mem_append, true_or, ne_eq, not_false_iff, and_self,
          if_true, Option.map_map]
        exact congrArg (fun f => (t q).map f) (funext (restoredProc_idem job.baseline))
      · simp [hq, hin, hsentinel]
    · simp [hq, hsentinel]

theorem stopsPass_restoredTable (t : ProcTable) (pids : List Pid) (pid : Pid) :
    stopsPass exempt job (restoredTable job t pids) pid = stopsPass exempt job t pid := by
  unfold stopsPass restoredTable
  split
  · cases t pid with
    | none => rfl
    | some p => simp [restoredProc_comm]
  · rfl

theorem isSome_restoredTable (t : ProcTable) (pids : List Pid) (pid : Pid) :
    (restoredTable job t pids pid).isSome = (t pid).isSome := by
  unfold restoredTable
  split
  · exact Option.isSome_map
  · rfl

/-- **The members before the first exempt one are served.** -/
theorem restoreMembers_table {listing : List Pid} (henv : env.Unhindered listing) :
    ∀ (pids : List Pid) (w : ManagedWorld),
      (∀ pid ∈ pids, (w.table pid).isSome → w.group pid = some job.group) →
        ∃ oom, (restoreMembers env exempt job pids w).1 = { w with oom := oom } ∧
          oom.table = restoredTable job w.table
            (pids.takeWhile fun pid => !stopsPass exempt job w.table pid) := by
  intro pids
  induction pids with
  | nil =>
    refine fun w _ => ⟨w.oom, rfl, funext fun q => (if_neg fun h => ?_).symm⟩
    exact absurd h.1 List.not_mem_nil
  | cons pid pids ih =>
    intro w hgroups
    rw [restoreMembers]
    rcases @restoreMember_table env exempt job w _ henv pid (hgroups pid List.mem_cons_self) with
      ⟨hstop, e, hone⟩ | ⟨hgo, oom, hone, htable⟩
    · refine ⟨w.oom, by rw [hone], funext fun q => ?_⟩
      rw [List.takeWhile_cons_of_neg (by simp [hstop])]
      exact (if_neg fun h => absurd h.1 List.not_mem_nil).symm
    · rw [hone]
      dsimp only
      obtain ⟨oom', hrest, htable'⟩ := ih { w with oom := oom }
        fun q hq hsome => by
          refine hgroups q (List.mem_cons_of_mem pid hq) ?_
          rw [← @isSome_restoredTable job w.table [pid] q, ← htable]
          exact hsome
      refine ⟨oom', hrest, ?_⟩
      have hsame : ({ w with oom := oom } : ManagedWorld).table = restoredTable job w.table [pid] :=
        htable
      rw [htable', hsame, restoredTable_append, List.singleton_append,
        List.takeWhile_cons_of_pos (by simp [hgo])]
      simp only [stopsPass_restoredTable]

theorem drainPass_table {pids : List Pid} (henv : env.Unhindered pids)
    (hboundary : boundary env.boundary job w = .ok ())
    (hgroups : ∀ pid ∈ pids, (w.table pid).isSome → w.group pid = some job.group) :
    ∃ oom, (drainPass env exempt job w).1 = { w with oom := oom } ∧
      oom.table = restoredTable job w.table (served exempt job w.table pids) := by
  unfold drainPass
  rw [hboundary, henv.procs]
  exact restoreMembers_table henv (pids.take 256) w fun pid hpid =>
    hgroups pid (List.mem_of_mem_take hpid)

/-! ## One `drain_one` -/

theorem loadDebt_iff {id : String} {debt : Debt} :
    loadDebt true id w = .ok (some debt) ↔ w.visible.debts id = some debt ∧
      debt.admission.id = id ∧ debt.admission.version = 1 := by
  constructor
  · intro h
    obtain ⟨hfile, hid⟩ := loadDebt_eq_ok h
    refine ⟨hfile, hid debt rfl, ?_⟩
    unfold loadDebt at h
    rw [hfile] at h
    obtain ⟨_, hok, _⟩ := bind_eq_ok.1 h
    rw [ensure_eq_ok, Bool.and_eq_true, beq_iff_eq, beq_iff_eq] at hok
    exact hok.2
  · rintro ⟨hfile, hid, hversion⟩
    unfold loadDebt
    rw [hfile]
    simp [ensure, hid, hversion]

theorem loadJob_iff {id : String} :
    loadJob true id w = .ok job ↔ w.visible.jobs id = some job ∧ job.id = id ∧ job.version = 1 := by
  constructor
  · intro h
    obtain ⟨hfile, hid⟩ := loadJob_eq_ok h
    refine ⟨hfile, hid, ?_⟩
    unfold loadJob at h
    rw [hfile] at h
    obtain ⟨_, hok, _⟩ := bind_eq_ok.1 h
    rw [ensure_eq_ok, Bool.and_eq_true, beq_iff_eq, beq_iff_eq] at hok
    exact hok.1
  · rintro ⟨hfile, hid, hversion⟩
    unfold loadJob
    rw [hfile]
    simp [ensure, hid, hversion]

/-- A debt that a pass drains, with the records of its job. -/
structure ToDrain (id : String) (debt : Debt) (job : Job) (w : ManagedWorld) : Prop where
  debtFile : loadDebt true id w = .ok (some debt)
  jobFile : loadJob true id w = .ok job
  sameBoot : job.bootId = w.boot

theorem decide_drain {facts : Facts} (h : facts.decide = .drain) : facts.sameBoot = true := by
  unfold Facts.decide at h
  split at h
  · cases h
  · next hboot => simpa using hboot

theorem drainPlan_toDrain {pids : List Pid} (henv : env.Unhindered pids) {id : String} {force : Bool}
    {debt : Debt} (h : drainPlan env id force none w = .ok (some (debt, job, .drain))) :
    ToDrain id debt job w := by
  have hboot := decide_drain (drainPlan_eq_ok h).2.2.2.symm
  unfold drainPlan at h
  rw [henv.locked, henv.debtReadable, henv.jobReadable] at h
  obtain ⟨-, -, h⟩ := bind_eq_ok.1 h
  obtain ⟨found, hfound, h⟩ := bind_eq_ok.1 h
  split at h
  · cases h
  · obtain ⟨job', hjob, h⟩ := bind_eq_ok.1 h
    obtain ⟨-, -, h⟩ := bind_eq_ok.1 h
    obtain ⟨-, -, h⟩ := bind_eq_ok.1 h
    have heq := Option.some.inj (Except.ok.inj h)
    obtain rfl := congrArg Prod.fst heq
    obtain rfl := congrArg (fun x => x.2.1) heq
    exact ⟨hfound, hjob, by simpa using hboot⟩

/-- A debt that is draining goes on to. -/
theorem ToDrain.plan {pids : List Pid} (henv : env.Unhindered pids) {id : String} {debt : Debt}
    (h : ToDrain id debt job w) (hdraining : debt.draining = true) (hphase : job.phase = .draining)
    (force : Bool) : drainPlan env id force none w = .ok (some (debt, job, .drain)) := by
  have hdecide : Facts.decide
      { sameBoot := job.bootId == w.boot
        terminalProof := job.phase == .terminal && job.terminalProof
        sameAdmission := sameAdmission job debt.admission
        deadlinePassed := force || debt.deadline ≤ w.now
        draining := debt.draining } = .drain := by
    simp [Facts.decide, h.sameBoot, hdraining, hphase]
  unfold drainPlan
  rw [henv.locked, henv.debtReadable, henv.jobReadable, henv.bootReadable, henv.clock]
  simp [attempt, ensure, bind, Except.bind, pure, Except.pure, h.debtFile, h.jobFile, hdecide]

theorem boundary_congr {w' : ManagedWorld} (hboot : w'.boot = w.boot) (hgroups : w'.groups = w.groups)
    (env : BoundaryEnv) (phase : Phase) :
    boundary env { job with phase := phase } w' = boundary env job w := by
  unfold boundary
  rw [hboot, hgroups]

theorem drainAttempt_table {pids : List Pid} (henv : env.Unhindered pids) (debt : Debt)
    (hboundary : boundary env.boundary job w = .ok ())
    (hgroups : ∀ pid ∈ pids, (w.table pid).isSome → w.group pid = some job.group) :
    ∃ oom debt', (drainAttempt env exempt debt job w).1 =
        (({ w with oom := oom } : ManagedWorld).saveDebt .synced debt').1 ∧
      oom.table = restoredTable job w.table (served exempt job w.table pids) ∧
        debt'.admission = debt.admission ∧ debt'.draining = debt.draining := by
  obtain ⟨oom, hpass, htable⟩ := @drainPass_table env exempt job w pids henv hboundary hgroups
  unfold drainAttempt
  rw [henv.saveAttempt]
  exact ⟨oom, _, congrArg (fun after : ManagedWorld => (after.saveDebt .synced _).1) hpass, htable,
    rfl, rfl⟩

/-- **One pass**: the members it comes to are restored, and the debt goes on draining. -/
theorem drainOne_drain {pids : List Pid} (henv : env.Unhindered pids) {id : String} {force : Bool}
    {debt : Debt} (hplan : drainPlan env id force none w = .ok (some (debt, job, .drain)))
    (hboundary : boundary env.boundary job w = .ok ())
    (hgroups : ∀ pid ∈ pids, (w.table pid).isSome → w.group pid = some job.group) :
    ∃ oom debt' registry, (drainOne env id force exempt none w).1 =
        { w with oom := oom, visible := registry, durable := registry } ∧
      oom.table = restoredTable job w.table (served exempt job w.table pids) ∧
        ToDrain id debt' { job with phase := .draining } (drainOne env id force exempt none w).1 ∧
          debt'.draining = true := by
  obtain ⟨hdebt, hjob, hboot⟩ := drainPlan_toDrain henv hplan
  obtain ⟨-, hid, hversion⟩ := loadDebt_iff.1 hdebt
  obtain ⟨-, hjobId, hjobVersion⟩ := loadJob_iff.1 hjob
  unfold drainOne
  rw [hplan]
  dsimp only
  unfold drainMembers
  rw [henv.saveDraining, henv.saveJob]
  simp only [ManagedWorld.saveDebt, ManagedWorld.saveJob, ManagedWorld.publish, Bool.not_true,
    Bool.false_eq_true, if_false]
  generalize hregistry : ({ w.visible with
    debts := update w.visible.debts debt.admission.id (some { debt with draining := true })
    jobs := update w.visible.jobs job.id (some { job with phase := .draining }) } : Registry) =
      registry
  obtain ⟨oom, debt', hattempt, htable, hadmission, hdraining⟩ :=
    @drainAttempt_table env exempt { job with phase := .draining }
      { w with visible := registry, durable := registry } pids henv { debt with draining := true }
      ((boundary_congr (w := w) rfl rfl env.boundary .draining).trans hboundary) hgroups
  rw [hattempt]
  refine ⟨oom, debt', _, rfl, htable, ⟨loadDebt_iff.2 ⟨?_, ?_, ?_⟩,
    loadJob_iff.2 ⟨?_, hjobId, hjobVersion⟩, hboot⟩, hdraining⟩
  · change update registry.debts debt'.admission.id (some debt') id = some debt'
    rw [hadmission, ← hid]
    exact update_self ..
  · rw [hadmission]
    exact hid
  · rw [hadmission]
    exact hversion
  · change registry.jobs id = _
    rw [← hregistry, ← hjobId]
    exact update_self ..

end Pass

/-! ## The passes -/

section Run

variable {env : Nat → DrainEnv} {force : Nat → Bool} {id : String} {exempt : List String}
  {debt : Debt} {job : Job} {w : ManagedWorld} {members : List Pid}
  {listing : Nat → List Pid}

/-- The members come to by one of the first `n` passes. -/
def servedBy (exempt : List String) (job : Job) (t : ProcTable) (listing : Nat → List Pid) :
    Nat → List Pid
  | 0 => []
  | n + 1 => servedBy exempt job t listing n ++ served exempt job t (listing n)

theorem mem_servedBy {t : ProcTable} {n : Nat} {pid : Pid} :
    pid ∈ servedBy exempt job t listing n ↔
      ∃ k < n, pid ∈ served exempt job t (listing k) := by
  induction n with
  | zero => simp [servedBy]
  | succ n ih =>
    rw [servedBy, List.mem_append, ih]
    constructor
    · rintro (⟨k, hk, hin⟩ | hin)
      · exact ⟨k, Nat.lt_succ_of_lt hk, hin⟩
      · exact ⟨n, Nat.lt_succ_self n, hin⟩
    · rintro ⟨k, hk, hin⟩
      rcases Nat.lt_succ_iff_lt_or_eq.mp hk with hk | rfl
      · exact Or.inl ⟨k, hk, hin⟩
      · exact Or.inr hin

theorem served_restoredTable (t : ProcTable) (pids pids' : List Pid) :
    served exempt job (restoredTable job t pids') pids = served exempt job t pids := by
  unfold served
  simp only [stopsPass_restoredTable]

/-- What the passes over one job are: its scope stays what it was admitted as, its members stay
members, and nothing else fails. -/
structure SteadyPasses (env : Nat → DrainEnv) (job : Job) (w : ManagedWorld) (members : List Pid)
    (listing : Nat → List Pid) : Prop where
  unhindered : ∀ n, (env n).Unhindered (listing n)
  boundary : ∀ n, boundary (env n).boundary job w = .ok ()
  listed : ∀ n pid, pid ∈ listing n ↔ pid ∈ members
  inScope : ∀ pid ∈ members, (w.table pid).isSome → w.group pid = some job.group

theorem SteadyPasses.group {members : List Pid} (h : SteadyPasses env job w members listing) (n : Nat) :
    ∀ pid ∈ listing n, (w.table pid).isSome → w.group pid = some job.group :=
  fun pid hpid => h.inScope pid ((h.listed n pid).1 hpid)

/-- **The passes one after another.** -/
theorem drainRun_table (hsteady : SteadyPasses env job w members listing)
    (hplan : drainPlan (env 0) id (force 0) none w = .ok (some (debt, job, .drain))) (n : Nat) :
    ∃ oom registry, drainRun env force id exempt w (n + 1) =
        { w with oom := oom, visible := registry, durable := registry } ∧
      oom.table = restoredTable job w.table (servedBy exempt job w.table listing (n + 1)) ∧
        ∃ debt', ToDrain id debt' { job with phase := .draining }
          (drainRun env force id exempt w (n + 1)) ∧ debt'.draining = true := by
  induction n with
  | zero =>
    obtain ⟨oom, debt', registry, hafter, htable, hnext, hdraining⟩ :=
      drainOne_drain (hsteady.unhindered 0) hplan (hsteady.boundary 0) (hsteady.group 0)
    exact ⟨oom, registry, hafter, htable, debt', hnext, hdraining⟩
  | succ n ih =>
    obtain ⟨oom, registry, hbefore, htable, debt', hnext, hdraining⟩ := ih
    have hplan' := hnext.plan (hsteady.unhindered (n + 1)) hdraining rfl (force (n + 1))
    have htable₁ : (drainRun env force id exempt w (n + 1)).table =
        restoredTable job w.table (servedBy exempt job w.table listing (n + 1)) := by
      rw [hbefore]
      exact htable
    have hboundary : ManagedOom.boundary (env (n + 1)).boundary { job with phase := .draining }
        (drainRun env force id exempt w (n + 1)) = .ok () :=
      (boundary_congr (by rw [hbefore]) (by rw [hbefore]) _ _).trans (hsteady.boundary (n + 1))
    have hmembers : ∀ pid ∈ listing (n + 1),
        ((drainRun env force id exempt w (n + 1)).table pid).isSome →
          (drainRun env force id exempt w (n + 1)).group pid = some job.group := by
      intro pid hpid hsome
      rw [htable₁, isSome_restoredTable] at hsome
      rw [hbefore]
      exact hsteady.group (n + 1) pid hpid hsome
    obtain ⟨oom', debt'', registry', hafter, htable', hlast, hdraining'⟩ :=
      @drainOne_drain _ exempt _ _ _ (hsteady.unhindered (n + 1)) _ _ _ hplan' hboundary hmembers
    refine ⟨oom', registry', ?_, ?_, debt'', hlast, hdraining'⟩
    · rw [drainRun, hafter, hbefore]
    · rw [htable', htable₁]
      change restoredTable job (restoredTable job w.table _)
        (served exempt job (restoredTable job w.table _) _) = _
      rw [served_restoredTable, restoredTable_append]
      rfl

/-- A member that is not exempt and still has the guard's score. -/
def AwaitsRestore (exempt : List String) (t : ProcTable) (pid : Pid) : Prop :=
  ∃ p, t pid = some p ∧ exemptComm exempt p.comm = false ∧ p.oomScoreAdj = oomBiasTargetValue

def AtBaseline (job : Job) (t : ProcTable) (pid : Pid) : Prop :=
  ∃ p, t pid = some p ∧ p.oomScoreAdj = job.baseline

theorem boundary_baseline {env : BoundaryEnv} (h : boundary env job w = .ok ()) :
    job.baseline ≠ oomBiasTargetValue := by
  unfold boundary at h
  obtain ⟨-, -, h⟩ := bind_eq_ok.1 h
  obtain ⟨_, hbaseline, -⟩ := bind_eq_ok.1 h
  rw [ensure_eq_ok] at hbaseline
  intro heq
  rw [heq] at hbaseline
  exact absurd hbaseline (by decide)

/-- **One member**: the passes that came to it restored it, and nothing else does. -/
theorem atBaseline_drainRun_iff (hsteady : SteadyPasses env job w members listing)
    (hplan : drainPlan (env 0) id (force 0) none w = .ok (some (debt, job, .drain))) {pid : Pid}
    (hpid : AwaitsRestore exempt w.table pid) (n : Nat) :
    AtBaseline job (drainRun env force id exempt w n).table pid ↔
      pid ≠ job.sentinel ∧ ∃ k < n, pid ∈ served exempt job w.table (listing k) := by
  obtain ⟨p, hp, -, hadj⟩ := hpid
  have hbaseline := boundary_baseline (hsteady.boundary 0)
  cases n with
  | zero =>
    refine iff_of_false ?_ ?_
    · rintro ⟨q, hq, hqadj⟩
      obtain rfl := Option.some.inj (hp.symm.trans hq)
      exact hbaseline (hqadj.symm.trans hadj)
    · rintro ⟨-, k, hk, -⟩
      exact absurd hk (Nat.not_lt_zero k)
  | succ n =>
    obtain ⟨oom, registry, hafter, htable, -⟩ := drainRun_table hsteady hplan n
    have hrow : (drainRun env force id exempt w (n + 1)).table pid =
        restoredTable job w.table (servedBy exempt job w.table listing (n + 1)) pid := by
      rw [hafter, ← htable]
    unfold AtBaseline
    rw [hrow, restoredTable, hp]
    constructor
    · rintro ⟨q, hq, hqadj⟩
      split at hq
      · next hserved => exact ⟨hserved.2, mem_servedBy.1 hserved.1⟩
      · obtain rfl := Option.some.inj hq
        exact absurd (hqadj.symm.trans hadj) hbaseline
    · rintro ⟨hsentinel, hserved⟩
      rw [if_pos ⟨mem_servedBy.2 hserved, hsentinel⟩]
      refine ⟨restoredProc job.baseline p, rfl, ?_⟩
      rw [restoredProc, if_pos hadj]

/-- Finitely many members need finitely many passes. -/
theorem exists_pass_bound {P : Nat → Pid → Prop} {members : List Pid}
    (h : ∀ pid ∈ members, ∃ k, P k pid) : ∃ n, ∀ pid ∈ members, ∃ k < n, P k pid := by
  induction members with
  | nil => exact ⟨0, fun pid hpid => nomatch hpid⟩
  | cons pid rest ih =>
    obtain ⟨n, hn⟩ := ih fun q hq => h q (List.mem_cons_of_mem pid hq)
    obtain ⟨k, hk⟩ := h pid List.mem_cons_self
    refine ⟨max n (k + 1), fun q hq => ?_⟩
    rcases List.mem_cons.mp hq with rfl | hq
    · exact ⟨k, by omega, hk⟩
    · obtain ⟨j, hj, hP⟩ := hn q hq
      exact ⟨j, by omega, hP⟩

/-- **Draining comes to every member exactly when each is, in one of the listings, among the first
256 with no exempt member before it.** -/
theorem drained_iff (hsteady : SteadyPasses env job w members listing)
    (hplan : drainPlan (env 0) id (force 0) none w = .ok (some (debt, job, .drain))) :
    (∃ n, ∀ pid ∈ members, AwaitsRestore exempt w.table pid →
        AtBaseline job (drainRun env force id exempt w n).table pid) ↔
      ∀ pid ∈ members, AwaitsRestore exempt w.table pid →
        pid ≠ job.sentinel ∧ ∃ k, pid ∈ served exempt job w.table (listing k) := by
  constructor
  · rintro ⟨n, hn⟩ pid hpid hawaits
    obtain ⟨hsentinel, k, -, hserved⟩ :=
      (atBaseline_drainRun_iff hsteady hplan hawaits n).1 (hn pid hpid hawaits)
    exact ⟨hsentinel, k, hserved⟩
  · intro h
    have heach : ∀ pid ∈ members, ∃ k, AwaitsRestore exempt w.table pid →
        pid ∈ served exempt job w.table (listing k) := by
      intro pid hpid
      by_cases hawaits : AwaitsRestore exempt w.table pid
      · obtain ⟨-, k, hserved⟩ := h pid hpid hawaits
        exact ⟨k, fun _ => hserved⟩
      · exact ⟨0, fun hyes => absurd hyes hawaits⟩
    obtain ⟨n, hn⟩ := exists_pass_bound heach
    refine ⟨n, fun pid hpid hawaits => ?_⟩
    obtain ⟨k, hk, hserved⟩ := hn pid hpid
    exact (atBaseline_drainRun_iff hsteady hplan hawaits n).2
      ⟨(h pid hpid hawaits).1, k, hk, hserved hawaits⟩

end Run

/-! ## Members that are never come to -/

def biasedDebt : Debt where
  admission := registeredJob
  deadline := 0
  draining := false
  attempts := 0
  lastError := none

/-- The members of a scope, the first of them an editor. -/
def scopeHost (members : List Pid) : ManagedWorld :=
  { jobHost with
    oom := { jobHost.oom with
      table := fun pid => if pid ∈ members then
        some { ppid := 6, comm := if pid = 7 then "editor" else "cc1", starttime := 100,
               oomScoreAdj := 250 } else none }
    group := fun pid => if pid ∈ members then some jobGroup else none
    groups := fun _ => some ⟨1, 2, false⟩
    now := 10
    visible := { jobHost.visible with debts := fun id => if id = jobId then some biasedDebt else none } }

def scopeEnv (members : List Pid) : DrainEnv where
  boundary := { manager := ⟨some "inv", some jobGroup, some "no"⟩ }
  procs := some members

private theorem boundary_scopeHost :
    boundary (scopeEnv []).boundary registeredJob (scopeHost []) = .ok () := by
  decide +kernel

theorem scopeHost_steady (members : List Pid) :
    SteadyPasses (fun _ => scopeEnv members) registeredJob (scopeHost members) members
      fun _ => members where
  unhindered _ := by constructor <;> intros <;> rfl
  boundary _ := boundary_scopeHost
  listed _ _ := Iff.rfl
  inScope pid hpid _ := if_pos hpid

theorem scopeHost_plan (members : List Pid) :
    drainPlan (scopeEnv members) jobId false none (scopeHost members) =
      .ok (some (biasedDebt, registeredJob, .drain)) := rfl

theorem drained_scopeHost :
    (∃ n, ∀ pid ∈ [8, 7], AwaitsRestore ["editor"] (scopeHost [8, 7]).table pid →
        AtBaseline registeredJob
          (drainRun (fun _ => scopeEnv [8, 7]) (fun _ => false) jobId ["editor"] (scopeHost [8, 7])
            n).table pid) ↔
      ∀ pid ∈ [8, 7], AwaitsRestore ["editor"] (scopeHost [8, 7]).table pid →
        pid ≠ registeredJob.sentinel ∧
          ∃ _ : Nat, pid ∈ served ["editor"] registeredJob (scopeHost [8, 7]).table [8, 7] :=
  drained_iff (scopeHost_steady [8, 7]) (scopeHost_plan [8, 7])

/-- A scope one member larger than a pass. -/
def crowd : List Pid := (List.range 257).map fun k => 100 + (k : Int)

private theorem served_editor :
    8 ∉ served ["editor"] registeredJob (scopeHost [7, 8]).table [7, 8] := by decide +kernel

private theorem served_crowd : 356 ∉ crowd.take 256 ∧ 356 ∈ crowd := by decide +kernel

/-- **Members that no pass restores**: one behind an editor, and the last of 257. -/
theorem members_starved :
    (∀ n, ¬∀ pid ∈ [7, 8], AwaitsRestore ["editor"] (scopeHost [7, 8]).table pid →
        AtBaseline registeredJob
          (drainRun (fun _ => scopeEnv [7, 8]) (fun _ => false) jobId ["editor"] (scopeHost [7, 8])
            n).table pid) ∧
      ∀ n, ¬∀ pid ∈ crowd, AwaitsRestore [] (scopeHost crowd).table pid →
        AtBaseline registeredJob
          (drainRun (fun _ => scopeEnv crowd) (fun _ => false) jobId [] (scopeHost crowd)
            n).table pid := by
  constructor
  · intro n h
    have hawaits : AwaitsRestore ["editor"] (scopeHost [7, 8]).table 8 :=
      ⟨⟨6, "cc1", 100, 0, 250, false⟩, rfl, by decide +kernel, rfl⟩
    obtain ⟨-, k, -, hserved⟩ := (atBaseline_drainRun_iff (scopeHost_steady [7, 8])
      (scopeHost_plan [7, 8]) hawaits n).1 (h 8 (by simp) hawaits)
    exact served_editor hserved
  · intro n h
    have hawaits : AwaitsRestore [] (scopeHost crowd).table 356 := by
      refine ⟨⟨6, "cc1", 100, 0, 250, false⟩, ?_, by decide +kernel, rfl⟩
      change (if (356 : Pid) ∈ crowd then some _ else none) = _
      rw [if_pos served_crowd.2]
      rfl
    obtain ⟨-, k, -, hserved⟩ := (atBaseline_drainRun_iff (scopeHost_steady crowd)
      (scopeHost_plan crowd) hawaits n).1 (h 356 served_crowd.2 hawaits)
    exact served_crowd.1 ((List.takeWhile_subset _) hserved)

end ManagedOom

end DraconGuard
