import DraconGuard.Lib.Runs
import DraconGuard.Lib.Text
import DraconGuard.Guard.Oom

/-!
# Managed jobs and their OOM debts

A managed job runs in a scope of its own under a sentinel, which registers it before the workload
starts and certifies its end. While a member of the job may be biased there is a debt file, saved
before the first write; it leaves by a certificate, by archiving after a reboot, or by a confirmed
reconciliation.

| here | there |
| --- | --- |
| `Job`, `sameAdmission`, `admission`, `certify` | oom_job.rs:29, 287, 297-370, 388-424 |
| `idFor`, `loadDebt`, `saveDebt` | managed_oom.rs:91, 105, 126 |
| `archivePreviousBoot`, `retire`, `boundary` | managed_oom.rs:141, 150, 171 |
| `biasInner`, `drainOne`, `reconcileOrphan` | managed_oom.rs:308, 468, 560 |
| `Facts.decide` | managed_oom.rs:45 |
| `pressureBias` | the bias loop of `check_memory_pressure`, one turn (main.rs:6554-6585) |

`drain` and `recover_loop` call `drain_one` for every debt file they list, each under the lock of its
own job: a pass of theirs is so many `drainOne` steps, and others may come in between. A rename is on
disk once the directory is synced, which syncs every rename before it.
-/

namespace DraconGuard

namespace ManagedOom

open Function (update)

/-! ## Records -/

inductive Phase where
  | admitted | active | draining | terminal
deriving DecidableEq, Repr

/-- `Job` (oom_job.rs:29). -/
structure Job where
  version : Nat := 1
  id : String
  bootId : String
  unit : String
  invocation : String
  group : String
  groupDevice : Nat
  groupInode : Nat
  sentinel : Pid
  sentinelIdentity : ProcessIdentity
  baseline : Int
  phase : Phase := .admitted
  terminalProof : Bool := false
deriving DecidableEq

/-- `same_admission` (oom_job.rs:287). -/
def sameAdmission (left right : Job) : Bool :=
  decide ({ left with phase := right.phase, terminalProof := right.terminalProof } = right)

/-- `Debt` (managed_oom.rs:15). -/
structure Debt where
  admission : Job
  deadline : Nat
  draining : Bool
  attempts : Nat
  lastError : Option String
deriving DecidableEq

/-- `valid_id` (oom_job.rs:46). -/
def validId (id : String) : Bool :=
  id.toList.length == 36 && id.toList.zipIdx.all fun (c, i) =>
    if [8, 13, 18, 23].contains i then c == '-' else
      ('0' ≤ c && c ≤ '9') || ('a' ≤ c && c ≤ 'f') || ('A' ≤ c && c ≤ 'F')

/-- `id_for` (managed_oom.rs:91). -/
def idFor (group : String) : Option String :=
  let name := (Text.afterLast group.toList '/').getD group.toList
  match (Text.stripPrefix name "dracon-managed-job-".toList).bind
      fun rest => Text.stripSuffix rest ".scope".toList with
  | some id => if validId (String.ofList id) then some (String.ofList id) else none
  | none => none

/-! ## The world -/

/-- The files of the registry, by the id of the job. -/
structure Registry where
  jobs : String → Option Job
  debts : String → Option Debt
  retired : String → Option Debt
  archived : String → Option Debt

/-- A directory of the cgroup file system. -/
structure CgroupDir where
  device : Nat
  inode : Nat
  nested : Bool := false
deriving DecidableEq

/-- A bias the guard wrote, and the registry as a power loss would have left it then. -/
structure BiasWrite where
  pid : Pid
  disk : Registry

structure ManagedWorld where
  oom : OomWorld
  /-- The cgroup of a pid, as `/proc/<pid>/cgroup` says it. -/
  group : Pid → Option String
  groups : String → Option CgroupDir
  boot : String
  now : Nat
  visible : Registry
  durable : Registry
  /-- A ghost: the bias writes of the last step. -/
  biased : List BiasWrite := []
  /-- A ghost: the jobs with a member biased on the job's account, and no end of the job seen. -/
  owed : String → Option Job := fun _ => none

abbrev ManagedWorld.table (w : ManagedWorld) : ProcTable := w.oom.table

inductive Failure where
  /-- A system call or the manager fails. -/
  | io
  | refused (text : String)
deriving DecidableEq

abbrev Outcome := Except Failure

def ensure (ok : Bool) (text : String) : Outcome Unit :=
  if ok then .ok () else .error (.refused text)

def attempt (ok : Bool) : Outcome Unit := if ok then .ok () else .error .io

/-- How far a rename into the registry gets. -/
inductive SaveOutcome where
  | failed
  | unsynced
  | synced
deriving DecidableEq

namespace ManagedWorld

/-- One change of the registry and the sync of its directory. -/
def publish (w : ManagedWorld) (o : SaveOutcome) (f : Registry → Registry) :
    ManagedWorld × Bool :=
  match o with
  | .failed => (w, false)
  | .unsynced => ({ w with visible := f w.visible }, false)
  | .synced => ({ w with visible := f w.visible, durable := f w.visible }, true)

/-- `save` (oom_job.rs:139). -/
def saveJob (w : ManagedWorld) (o : SaveOutcome) (job : Job) : ManagedWorld × Bool :=
  w.publish o fun r => { r with jobs := update r.jobs job.id (some job) }

/-- `save_debt` (managed_oom.rs:126). -/
def saveDebt (w : ManagedWorld) (o : SaveOutcome) (debt : Debt) : ManagedWorld × Bool :=
  w.publish o fun r => { r with debts := update r.debts debt.admission.id (some debt) }

end ManagedWorld

/-- `load` (oom_job.rs:162). -/
def loadJob (readable : Bool) (id : String) (w : ManagedWorld) : Outcome Job :=
  match w.visible.jobs id with
  | some job =>
    if readable then do
      ensure (job.version == 1 && job.id == id) "unsupported or mismatched job record"
      pure job
    else .error .io
  | none => .error .io

/-- `load_debt` (managed_oom.rs:105). -/
def loadDebt (readable : Bool) (id : String) (w : ManagedWorld) : Outcome (Option Debt) :=
  if readable then
    match w.visible.debts id with
    | none => .ok none
    | some debt => do
      ensure (debt.admission.id == id && debt.admission.version == 1)
        "mismatched OOM debt generation"
      pure (some debt)
  else .error .io

/-- What the manager answers about the unit of a job. -/
structure ManagerAnswers where
  invocation : Option String
  controlGroup : Option String
  delegate : Option String

/-- What `boundary` is answered. -/
structure BoundaryEnv where
  bootReadable : Bool := true
  manager : ManagerAnswers
  groupReadable : Bool := true

def supportedBaseline (baseline : Int) : Bool := -499 ≤ baseline && baseline < 250

/-- A path with `..`, or with `.` where `Path::components` keeps it. -/
def dotted (group : String) : Bool :=
  let parts := group.toList.splitOn '/'
  parts.contains ['.', '.'] || parts.head? == some ['.']

/-- `boundary` (managed_oom.rs:171). -/
def boundary (env : BoundaryEnv) (job : Job) (w : ManagedWorld) : Outcome Unit := do
  ensure (job.version == 1 && validId job.id && idFor job.group == some job.id)
    "invalid OOM admission"
  ensure (supportedBaseline job.baseline) "unsupported OOM baseline"
  attempt env.bootReadable
  ensure (job.bootId == w.boot) "OOM job belongs to previous boot"
  attempt env.manager.invocation.isSome
  ensure (env.manager.invocation == some job.invocation && job.invocation != "")
    "OOM job invocation unavailable or replaced"
  attempt env.manager.controlGroup.isSome
  ensure (env.manager.controlGroup == some job.group) "OOM job cgroup changed"
  attempt env.manager.delegate.isSome
  ensure (env.manager.delegate == some "no") "delegated OOM job is unsupported"
  ensure (!dotted job.group) "invalid job cgroup path"
  match w.groups job.group with
  | some dir => do
    attempt env.groupReadable
    ensure (dir.device == job.groupDevice && dir.inode == job.groupInode)
      "OOM job cgroup incarnation changed"
    ensure (!dir.nested) "nested job cgroups are unsupported"
  | none => .error .io

/-! ## The sentinel -/

/-- The admission of `enter` (oom_job.rs:318-358): never over a record that is there. -/
def admission (o : SaveOutcome) (locked : Bool) (job : Job) (w : ManagedWorld) : ManagedWorld :=
  if locked && validId job.id && supportedBaseline job.baseline && (w.visible.jobs job.id).isNone
  then (w.saveJob o { job with phase := .admitted, terminalProof := false }).1
  else w

/-- What one attempt of the sentinel meets. -/
structure CertifyEnv where
  members : List Pid
  tasks : Nat
  threads : Nat
  locked : Bool := true
  jobReadable : Bool := true
  save : SaveOutcome := .synced

/-- `terminal_candidate` (oom_job.rs:283). -/
def terminalCandidate (sentinel : Pid) (members : List Pid) (tasks threads : Nat) : Bool :=
  threads == 1 && tasks == 1 && members == [sentinel]

/-- The closing attempt of `enter` (oom_job.rs:388-424), by the sentinel of `job`. -/
def certify (env : CertifyEnv) (job : Job) (w : ManagedWorld) : ManagedWorld :=
  if w.groups job.group = some ⟨job.groupDevice, job.groupInode, false⟩ &&
      terminalCandidate job.sentinel env.members env.tasks env.threads && env.locked then
    match loadJob env.jobReadable job.id w with
    | .ok final =>
      if sameAdmission final job then
        (w.saveJob env.save { final with phase := .terminal, terminalProof := true }).1
      else w
    | .error _ => w
  else w

/-! ## Leaving the registry -/

structure RetireEnv where
  liveReadable : Bool := true
  retiredReadable : Bool := true
  rename : SaveOutcome := .synced

/-- The end of a job has been seen: nothing is owed to it. -/
def ManagedWorld.settle (w : ManagedWorld) (id : String) : ManagedWorld :=
  { w with owed := update w.owed id none }

/-- `retire` up to the rename (managed_oom.rs:150-165). -/
def retirable (env : RetireEnv) (debt : Debt) (w : ManagedWorld) : Outcome Unit := do
  let live ← loadDebt env.liveReadable debt.admission.id w
  match live with
  | none => .error (.refused "no live debt to retire")
  | some live => do
    ensure (sameAdmission live.admission debt.admission)
      "retiring record does not own the live debt"
    match w.visible.retired debt.admission.id with
    | none => pure ()
    | some previous => do
      attempt env.retiredReadable
      ensure (sameAdmission previous.admission debt.admission)
        "conflicting retired OOM generation"

/-- `retire` (managed_oom.rs:150). -/
def retire (env : RetireEnv) (debt : Debt) (w : ManagedWorld) : ManagedWorld × Outcome Unit :=
  match retirable env debt w with
  | .error e => (w, .error e)
  | .ok () =>
    let id := debt.admission.id
    let (after, synced) := w.publish env.rename fun r =>
      { r with debts := update r.debts id none, retired := update r.retired id (r.debts id) }
    (if env.rename = .failed then w else after.settle id, attempt synced)

structure ArchiveEnv where
  copied : Bool := true
  remove : SaveOutcome := .synced

/-- `archive_previous_boot` (managed_oom.rs:141). -/
def archivePreviousBoot (env : ArchiveEnv) (debt : Debt) (w : ManagedWorld) :
    ManagedWorld × Outcome Unit :=
  let id := debt.admission.id
  if (w.visible.archived id).isNone && !env.copied then (w, .error .io)
  else
    let archived := (w.visible.archived id).or (w.visible.debts id)
    let w := { w with visible :=
      { w.visible with archived := update w.visible.archived id archived } }
    let (after, synced) := w.publish env.remove fun r =>
      { r with debts := update r.debts id none }
    (if env.remove = .failed then w else after.settle id, attempt synced)

/-! ## Biasing -/

def u64Max : Nat := 2 ^ 64 - 1

def leaseSecs : Nat := 120

/-- What one `bias_inner` meets. -/
structure ManagedBiasEnv where
  /-- The three readings of the sample's identity. -/
  entryReadable : Bool := true
  openReadable : Bool := true
  writeReadable : Bool := true
  /-- The three readings of `/proc/<pid>/cgroup`. -/
  entryGroup : Bool := true
  openGroup : Bool := true
  writeGroup : Bool := true
  locked : Bool := true
  jobReadable : Bool := true
  boundary : BoundaryEnv
  sentinelReadable : Bool := true
  identityReadable : Bool := true
  opened : Bool := true
  parsed : Bool := true
  debtReadable : Bool := true
  clock : Bool := true
  saveDebt : SaveOutcome := .synced
  saveJob : SaveOutcome := .synced
  /-- `ensure_recoverer` returns `Ok`. -/
  recoverer : Bool := true
  wrote : Bool := true
  verified : Bool := true

/-- `group_for` (managed_oom.rs:68). -/
def groupFor (readable : Bool) (pid : Pid) (w : ManagedWorld) : Option String :=
  if readable then w.group pid else none

/-- What `bias_inner` has found when it starts to write. -/
structure BiasPlan where
  job : Job
  original : Int
  previous : Option Debt

/-- The checks on the process to be biased (managed_oom.rs:343-386); its score. -/
def biasTarget (env : ManagedBiasEnv) (p : ProcSample) (exempt : List String) (job : Job)
    (w : ManagedWorld) : Outcome Int := do
  ensure (p.pid != job.sentinel && processIdentityStatus w.table env.sentinelReadable job.sentinel
      job.sentinelIdentity == .matching) "sentinel is exempt or cannot be verified"
  match w.table p.pid with
  | none => .error .io
  | some current => do
    attempt env.identityReadable
    ensure (current.starttime == p.starttime && !exemptComm exempt current.comm)
      "current process is exempt or changed"
    attempt env.opened
    ensure (processSampleIsCurrent w.table env.openReadable p &&
      groupFor env.openGroup p.pid w == some job.group) "process changed after descriptor open"
    attempt env.parsed
    pure current.oomScoreAdj

/-- `bias_inner` up to the debt it saves (managed_oom.rs:313-398). -/
def biasPlan (env : ManagedBiasEnv) (p : ProcSample) (exempt : List String) (expected : Option Job)
    (w : ManagedWorld) : Outcome BiasPlan := do
  ensure (processSampleIsCurrent w.table env.entryReadable p)
    "process incarnation changed before managed OOM application"
  match groupFor env.entryGroup p.pid w with
  | none => .error .io
  | some group =>
    match idFor group with
    | none => .error (.refused "unsupported OOM workload: no managed launch admission")
    | some id => do
      ensure (expected.all fun e => id == e.id) "target is outside the expected job generation"
      attempt env.locked
      let job ← loadJob env.jobReadable id w
      ensure (expected.all fun e => sameAdmission job e) "expected job admission changed"
      ensure (!job.terminalProof && job.phase != .terminal) "managed job has terminated"
      ensure (job.group == group) "process is outside its admitted job"
      boundary env.boundary job w
      let original ← biasTarget env p exempt job w
      let previous ← loadDebt env.debtReadable id w
      ensure (previous.all fun debt => sameAdmission debt.admission job && !debt.draining)
        "managed OOM job is draining or generation changed"
      ensure (original == job.baseline || (original == oomBiasTargetValue && previous.isSome))
        "independent or unsupported OOM score change"
      attempt env.clock
      pure ⟨job, original, previous⟩

/-- The debt of the plan: the lifetime of the one that is there begins anew. -/
def BiasPlan.debt (plan : BiasPlan) (now : Nat) : Debt :=
  { plan.previous.getD ⟨plan.job, 0, false, 0, none⟩ with deadline := min (now + leaseSecs) u64Max }

/-- The write to `oom_score_adj`. -/
def ManagedWorld.writeBias (w : ManagedWorld) (pid : Pid) (job : Job) : ManagedWorld :=
  { w with
    oom := { w.oom with table := w.oom.table.setAdj pid oomBiasTargetValue }
    biased := ⟨pid, w.durable⟩ :: w.biased
    owed := update w.owed job.id (some job) }

/-- `bias_inner` from the debt on (managed_oom.rs:399-428). -/
def biasApply (env : ManagedBiasEnv) (p : ProcSample) (plan : BiasPlan) (w : ManagedWorld) :
    ManagedWorld × Outcome (Option (Int × Int)) :=
  let (w, saved) := w.saveDebt env.saveDebt (plan.debt w.now)
  if !saved then (w, .error .io)
  else
    let (w, saved) := w.saveJob env.saveJob { plan.job with phase := .active }
    if !saved || !env.recoverer then (w, .error .io)
    else if plan.original = oomBiasTargetValue then (w, .ok none)
    else if !(processSampleIsCurrent w.table env.writeReadable p &&
        groupFor env.writeGroup p.pid w == some plan.job.group) then
      (w, .error (.refused "process changed before managed OOM write"))
    else if !env.wrote then (w, .error .io)
    else
      let w := w.writeBias p.pid plan.job
      if !env.verified then
        (w, .error (.refused "managed OOM apply verification failed; lifetime debt retained"))
      else (w, .ok (some (plan.original, oomBiasTargetValue)))

/-- `bias_inner` (managed_oom.rs:308). -/
def biasInner (env : ManagedBiasEnv) (p : ProcSample) (exempt : List String)
    (expected : Option Job) (w : ManagedWorld) : ManagedWorld × Outcome (Option (Int × Int)) :=
  match biasPlan env p exempt expected w with
  | .error e => (w, .error e)
  | .ok plan => biasApply env p plan w

/-! ## Draining -/

inductive Action where
  | drain | hold | retire | archivePreviousBoot
deriving DecidableEq, Repr

structure Facts where
  sameBoot : Bool
  terminalProof : Bool
  sameAdmission : Bool
  deadlinePassed : Bool
  draining : Bool

/-- `decide` (managed_oom.rs:45). -/
def Facts.decide (facts : Facts) : Action :=
  if !facts.sameBoot then .archivePreviousBoot
  else if !facts.sameAdmission then .drain
  else if facts.terminalProof then .retire
  else if facts.draining || facts.deadlinePassed then .drain
  else .hold

/-- What one `drain_one` meets. -/
structure DrainEnv where
  locked : Bool := true
  debtReadable : Bool := true
  jobReadable : Bool := true
  bootReadable : Bool := true
  clock : Bool := true
  retire : RetireEnv := {}
  archive : ArchiveEnv := {}
  saveDraining : SaveOutcome := .synced
  saveJob : SaveOutcome := .synced
  boundary : BoundaryEnv
  /-- `cgroup.procs`. -/
  procs : Option (List Pid) := some []
  identityReadable : Pid → Bool := fun _ => true
  groupReadable : Pid → Bool := fun _ => true
  restore : Pid → RestoreEnv := fun _ => {}
  /-- The text of the error of a failed pass. -/
  errorText : String := ""
  saveAttempt : SaveOutcome := .synced

/-- One member of the pass (managed_oom.rs:519-541). -/
def restoreMember (env : DrainEnv) (exempt : List String) (job : Job) (w : ManagedWorld)
    (pid : Pid) : ManagedWorld × Outcome Unit :=
  if pid = job.sentinel then (w, .ok ())
  else match w.table pid with
    | none => (w, .ok ())
    | some p =>
      if !env.identityReadable pid then (w, .error .io)
      else if exemptComm exempt p.comm then
        (w, .error (.refused "member currently exempt; job debt retained"))
      else if groupFor (env.groupReadable pid) pid w ≠ some job.group then
        (w, .error (.refused "member left admitted job; debt retained"))
      else
        let (oom, r) := oomRestore (env.restore pid) w.oom pid ⟨p.comm, p.starttime⟩ job.baseline
          .release
        match r with
        | .ok _ => ({ w with oom := oom }, .ok ())
        | .error _ => ({ w with oom := oom }, .error .io)

/-- The pass stops at its first error. -/
def restoreMembers (env : DrainEnv) (exempt : List String) (job : Job) :
    List Pid → ManagedWorld → ManagedWorld × Outcome Unit
  | [], w => (w, .ok ())
  | pid :: pids, w =>
    match restoreMember env exempt job w pid with
    | (w, .ok ()) => restoreMembers env exempt job pids w
    | (w, .error e) => (w, .error e)

/-- The bounded pass over the members (managed_oom.rs:509-543). -/
def drainPass (env : DrainEnv) (exempt : List String) (job : Job) (w : ManagedWorld) :
    ManagedWorld × Outcome Unit :=
  match boundary env.boundary job w with
  | .error e => (w, .error e)
  | .ok () =>
    match env.procs with
    | none => (w, .error .io)
    | some pids => restoreMembers env exempt job (pids.take 256) w

/-- The pass, and the debt with the attempt counted (managed_oom.rs:509-546). -/
def drainAttempt (env : DrainEnv) (exempt : List String) (debt : Debt) (job : Job)
    (w : ManagedWorld) : ManagedWorld × Outcome Bool :=
  let (w, result) := drainPass env exempt job w
  let lastError := match result with
    | .ok () => none
    | .error _ => some env.errorText
  let (w, saved) := w.saveDebt env.saveAttempt
    { debt with attempts := min (debt.attempts + 1) u64Max, lastError := lastError }
  (w, if saved then .ok true else .error .io)

/-- The drain of `drain_one` (managed_oom.rs:504-556): the result is whether a debt remains. -/
def drainMembers (env : DrainEnv) (exempt : List String) (debt : Debt) (job : Job)
    (w : ManagedWorld) : ManagedWorld × Outcome Bool :=
  let debt := { debt with draining := true }
  let (w, saved) := w.saveDebt env.saveDraining debt
  if !saved then (w, .error .io)
  else
    let job := { job with phase := .draining }
    let (w, saved) := w.saveJob env.saveJob job
    if !saved then (w, .error .io) else drainAttempt env exempt debt job w

/-- `drain_one` up to its decision (managed_oom.rs:475-494). -/
def drainPlan (env : DrainEnv) (id : String) (force : Bool) (expected : Option Job)
    (w : ManagedWorld) : Outcome (Option (Debt × Job × Action)) := do
  attempt env.locked
  let debt ← loadDebt env.debtReadable id w
  match debt with
  | none => pure none
  | some debt => do
    let job ← loadJob env.jobReadable id w
    ensure (expected.all fun e =>
        id == e.id && sameAdmission job e && sameAdmission debt.admission e)
      "refusing restoration of a different job admission"
    attempt (env.bootReadable && (force || env.clock))
    let facts : Facts :=
      { sameBoot := job.bootId == w.boot
        terminalProof := job.phase == .terminal && job.terminalProof
        sameAdmission := sameAdmission job debt.admission
        deadlinePassed := force || debt.deadline ≤ w.now
        draining := debt.draining }
    pure (some (debt, job, facts.decide))

/-- `drain_one` (managed_oom.rs:468). -/
def drainOne (env : DrainEnv) (id : String) (force : Bool) (exempt : List String)
    (expected : Option Job) (w : ManagedWorld) : ManagedWorld × Outcome Bool :=
  match drainPlan env id force expected w with
  | .error e => (w, .error e)
  | .ok none => (w, .ok false)
  | .ok (some (_, _, .hold)) => (w, .ok true)
  | .ok (some (debt, _, .retire)) =>
    let (w, r) := retire env.retire debt w
    (w, r.map fun _ => false)
  | .ok (some (debt, _, .archivePreviousBoot)) =>
    let (w, r) := archivePreviousBoot env.archive debt w
    (w, r.map fun _ => false)
  | .ok (some (debt, job, .drain)) => drainMembers env exempt debt job w

/-! ## Reconciling -/

structure ReconcileEnv where
  debtReadable : Bool := true
  /-- `LoadState` of the job's scope. -/
  loadState : Option String
  retire : RetireEnv := {}

/-- The evidence that a job is gone without a certificate (managed_oom.rs:566-583). -/
def orphaned (env : ReconcileEnv) (debt : Debt) (w : ManagedWorld) : Outcome Unit := do
  let scopeState := env.loadState.getD "unavailable"
  ensure (scopeState == "not-found" || scopeState == "unavailable")
    "job scope is still known to the manager"
  ensure (w.groups debt.admission.group).isNone "job cgroup still exists"
  ensure (w.table debt.admission.sentinel).isNone "job sentinel is still running"

/-- `reconcile_orphan` (managed_oom.rs:560); it takes no lock. -/
def reconcileOrphan (env : ReconcileEnv) (id : String) (confirmed : Bool) (w : ManagedWorld) :
    ManagedWorld :=
  if validId id && confirmed then
    match loadDebt env.debtReadable id w with
    | .ok (some debt) =>
      match orphaned env debt w with
      | .ok () => (retire env.retire debt w).1
      | .error _ => w
    | _ => w
  else w

/-! ## The bias loop of the guard -/

/-- What one turn of the loop meets. -/
structure PressureBiasEnv where
  /-- The reading of `/proc/<pid>/cgroup` by `is_managed_job_process`. -/
  groupReadable : Bool := true
  managed : ManagedBiasEnv
  ancestry : BiasEnv

/-- `is_managed_job_process` (managed_oom.rs:80). -/
def isManagedJobProcess (readable : Bool) (pid : Pid) (w : ManagedWorld) : Bool :=
  match groupFor readable pid w with
  | some group => (idFor group).isSome
  | none => false

/-- `apply_oom_bias` in this world. -/
def ancestryBias (env : BiasEnv) (p : ProcSample) (samples : List ProcSample) (w : ManagedWorld) :
    ManagedWorld :=
  let oom := (applyOomBias env p samples w.oom).1
  let wrote := w.oom.adjWrites.length < oom.adjWrites.length
  { w with oom := oom, biased := if wrote then ⟨p.pid, w.durable⟩ :: w.biased else w.biased }

/-- One turn (main.rs:6554-6585). -/
def pressureBias (env : PressureBiasEnv) (p : ProcSample) (samples : List ProcSample)
    (exempt : List String) (w : ManagedWorld) : ManagedWorld :=
  if isManagedJobProcess env.groupReadable p.pid w then (biasInner env.managed p exempt none w).1
  else ancestryBias env.ancestry p samples w

/-! ## Runs -/

inductive ManagedStep where
  | admission (o : SaveOutcome) (locked : Bool) (job : Job)
  | certify (env : CertifyEnv) (job : Job)
  | pressureBias (env : PressureBiasEnv) (p : ProcSample) (samples : List ProcSample)
      (exempt : List String)
  /-- `bias_job` (managed_oom.rs:296). -/
  | biasJob (env : ManagedBiasEnv) (p : ProcSample) (exempt : List String) (expected : Job)
  /-- By a pass of `drain` or `recover_loop`, or by `drain_job` (managed_oom.rs:433). -/
  | drainOne (env : DrainEnv) (id : String) (force : Bool) (exempt : List String)
      (expected : Option Job)
  | reconcile (env : ReconcileEnv) (id : String) (confirmed : Bool)
  /-- The processes are gone, and so is what had not reached the disk. -/
  | reboot (boot : String) (oom : OomWorld)
  /-- The files of a job reach the disk by themselves. -/
  | flush (id : String)
  /-- Processes, groups and the clock go on, and so do the other tools of the guard. -/
  | outside (oom : OomWorld) (group : Pid → Option String) (groups : String → Option CgroupDir)
      (now : Nat)

/-- The entries of one job, as they read now. -/
def Registry.flush (durable : Registry) (id : String) (visible : Registry) : Registry where
  jobs := update durable.jobs id (visible.jobs id)
  debts := update durable.debts id (visible.debts id)
  retired := update durable.retired id (visible.retired id)
  archived := update durable.archived id (visible.archived id)

/-- One step; the bias writes of the step before are forgotten. -/
def managedStep (w : ManagedWorld) (i : ManagedStep) : ManagedWorld :=
  let w := { w with biased := [] }
  match i with
  | .admission o locked job => admission o locked job w
  | .certify env job => certify env job w
  | .pressureBias env p samples exempt => pressureBias env p samples exempt w
  | .biasJob env p exempt expected => (biasInner env p exempt (some expected) w).1
  | .drainOne env id force exempt expected => (drainOne env id force exempt expected w).1
  | .reconcile env id confirmed => reconcileOrphan env id confirmed w
  | .reboot boot oom =>
    { w with oom := oom, group := fun _ => none, groups := fun _ => none, boot := boot,
             visible := w.durable }
  | .flush id => { w with durable := w.durable.flush id w.visible }
  | .outside oom group groups now =>
    { w with oom := oom, group := group, groups := groups, now := now }

end ManagedOom

end DraconGuard
