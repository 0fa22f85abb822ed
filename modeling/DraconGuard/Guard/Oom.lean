import Mathlib.Data.Finset.Card
import DraconGuard.Guard.Ledger

/-!
# OOM steering and its restoration

Under critical pressure the guard raises `oom_score_adj` of an offender to
`OOM_BIAS_TARGET`; children forked while it is raised inherit the value. The biased roots,
the descendants that predate the bias and the descendants still to be restored live in the
three maps of `OomState`.

| definition | source |
| --- | --- |
| `applyOomBias` | `apply_oom_bias` (main.rs:2548) |
| `oomRestore` | `oom_restore::restore` (oom_restore.rs:8) |
| `restorePendingOomDescendants` | main.rs:2697 |
| `sweepStrandedOomDescendants` | main.rs:2799 |
| `releaseOomBiases` | `check_memory_pressure`, release (main.rs:6884-6939) |
| `pruneOom` | `check_memory_pressure`, prune (main.rs:7039-7049) |
| `restoreRuntimeOom` | `restore_runtime_adjustments`, OOM part (main.rs:3258, 3323) |

`OomWorld` carries three ghosts: whom the guard has raised and not written back, every
write it made to an `oom_score_adj`, and what a crash after each durable effect would find.
Managed jobs (`managed_oom`) keep their own debts and never reach `applyOomBias`.
-/

namespace DraconGuard

def oomBiasTargetValue : Int := 250

def oomProtectedAdj : Int := -500

def oomKnownDescendantsCap : Nat := 256

def u32Max : Nat := 2 ^ 32 - 1

/-- `oom_bias_target` (main.rs:2626). -/
def oomBiasTarget (current : Int) : Option Int :=
  if oomBiasTargetValue ≤ current || current ≤ oomProtectedAdj then none
  else some oomBiasTargetValue

/-- On whose account the guard wrote an `oom_score_adj`. -/
inductive AdjCause where
  /-- `apply_oom_bias`. -/
  | bias
  /-- The release of a biased process. -/
  | release
  /-- A descendant debt of this root. -/
  | debt (root : Pid)
deriving DecidableEq, Repr

structure AdjWrite where
  pid : Pid
  starttime : Nat
  value : Int
  cause : AdjCause
deriving DecidableEq, Repr

/-- The incarnation the guard raised, and the value it found. -/
structure Raised where
  starttime : Nat
  original : Int
deriving DecidableEq, Repr

structure CrashPoint where
  images : List (Option LedgerText)
  raised : Pid → Option Raised

structure OomWorld where
  table : ProcTable
  state : GuardRuntimeState
  disk : LedgerDisk
  raised : Pid → Option Raised := fun _ => none
  adjWrites : List AdjWrite := []
  crashPoints : List CrashPoint := []

namespace OomWorld

/-- The system may crash here. -/
def mark (w : OomWorld) : OomWorld :=
  { w with crashPoints := ⟨w.disk.images, w.raised⟩ :: w.crashPoints }

def setOom (w : OomWorld) (o : OomState) : OomWorld :=
  { w with state := { w.state with oom := o } }

/-- A write to `/proc/<pid>/oom_score_adj` that took effect. -/
def writeAdj (w : OomWorld) (pid : Pid) (value : Int) (cause : AdjCause) : OomWorld :=
  match w.table pid with
  | none => w
  | some p =>
    let raised := if cause = .bias then some ⟨p.starttime, p.oomScoreAdj⟩ else none
    mark { w with
      table := w.table.setAdj pid value
      raised := Function.update w.raised pid raised
      adjWrites := ⟨pid, p.starttime, value, cause⟩ :: w.adjWrites }

/-- `persist_mitigations`. -/
def persist (env : PersistEnv) (w : OomWorld) : OomWorld × Bool :=
  let r := persistMitigations env w.state w.disk
  (mark { w with state := r.1, disk := r.2.1 }, r.2.2)

end OomWorld

/-! ## Ancestry in a snapshot -/

/-- `parent_by_pid`: collecting a map keeps the last row of a pid. -/
def parentByPid (samples : List ProcSample) (pid : Pid) : Option Pid :=
  (samples.reverse.find? fun s => s.pid == pid).map (·.ppid)

def isDescendantLoop (parents : Pid → Option Pid) (root : Pid) : Nat → List Pid → Pid → Bool
  | 0, _, _ => false
  | n + 1, seen, current =>
    match parents current with
    | none => false
    | some parent =>
      if parent = root then true
      else if parent ≤ 0 || seen.contains current then false
      else isDescendantLoop parents root n (current :: seen) parent

/-- `process_is_descendant_of` (main.rs:2160). -/
def processIsDescendantOf (pid root : Pid) (parents : Pid → Option Pid) : Bool :=
  if pid = root then false else isDescendantLoop parents root 1024 [] pid

/-- `process_descendant_samples` (main.rs:2181). -/
def processDescendantSamples (samples : List ProcSample) (root : Pid) : List ProcSample :=
  samples.filter fun s => processIsDescendantOf s.pid root (parentByPid samples)

def nearestAncestorLoop (parents : Pid → Option Pid) (roots : Pid → Bool) :
    Nat → List Pid → Pid → Option Pid
  | 0, _, _ => none
  | n + 1, seen, current =>
    match parents current with
    | none => none
    | some parent =>
      if roots parent then some parent
      else if parent ≤ 0 || seen.contains current then none
      else nearestAncestorLoop parents roots n (current :: seen) parent

/-- `nearest_biased_ancestor` (main.rs:2193). -/
def nearestBiasedAncestor (pid : Pid) (parents : Pid → Option Pid) (roots : Pid → Bool) :
    Option Pid :=
  nearestAncestorLoop parents roots 1024 [] pid

/-! ## Applying a bias -/

/-- `oom_root_has_pending_descendants` (main.rs:3148). -/
def oomRootHasPendingDescendants (s : OomState) (pid : Pid) : Bool :=
  s.oomPendingDescendants.entries.any fun e => e.2.rootPid == pid

/-- `remove_oom_bias` (main.rs:3177): the known descendants stay while a debt is live. -/
def removeOomBias (s : OomState) (pid : Pid) : OomState :=
  let s := { s with
    oomBiasedPids := s.oomBiasedPids.erase pid
    oomCooledSince := s.oomCooledSince.erase pid
    oomIdentityUnavailableAttempts := s.oomIdentityUnavailableAttempts.erase pid }
  if oomRootHasPendingDescendants s pid then s
  else { s with oomKnownDescendants := s.oomKnownDescendants.erase pid }

/-- What the outside answers during one `apply_oom_bias`. -/
structure BiasEnv where
  /-- The three `process_sample_is_current` reads. -/
  entryReadable : Bool := true
  openReadable : Bool := true
  writeReadable : Bool := true
  opened : Bool := true
  parsed : Bool := true
  persist : PersistEnv
  wrote : Bool := true
  verified : Bool := true

inductive BiasError where
  | openFailed | changedAfterOpen | readFailed | notPersisted | changedBeforeWrite
  | writeFailed | notVerified
deriving DecidableEq, Repr

abbrev BiasResult := Except BiasError (Option (Int × Int))

/-- How far `apply_oom_bias` gets before the write-ahead. -/
inductive BiasIntent where
  | stop (s : GuardRuntimeState) (r : BiasResult)
  | intend (s : GuardRuntimeState) (original target : Int)

/-- `oom_biased_pids.remove`. -/
def dropBiasRecord (o : OomState) (pid : Pid) : OomState :=
  { o with oomBiasedPids := o.oomBiasedPids.erase pid }

/-- Insert the record and the descendants that predate the bias (main.rs:2596-2606). -/
def recordOomBias (p : ProcSample) (samples : List ProcSample) (original : Int)
    (o : OomState) : OomState :=
  let known := ((processDescendantSamples samples p.pid).map fun c => (c.pid, c.starttime)).toFinset
  { o with
    oomBiasedPids := o.oomBiasedPids.insert p.pid (original, processSampleIdentity p)
    oomKnownDescendants := o.oomKnownDescendants.insert p.pid known }

/-- The runtime `apply_oom_bias` wants durable before it writes. -/
def biasedRuntime (p : ProcSample) (samples : List ProcSample) (original : Int)
    (s : GuardRuntimeState) : GuardRuntimeState :=
  { s with oom := recordOomBias p samples original (dropBiasRecord s.oom p.pid) }

/-- `apply_oom_bias` up to the write-ahead (main.rs:2553-2606). A record whose live value is
not the target is a leftover: it is dropped, and the bias applied afresh. -/
def oomBiasIntent (env : BiasEnv) (p : ProcSample) (samples : List ProcSample) (w : OomWorld) :
    BiasIntent :=
  let s := w.state
  if s.mitigationLedgerUnavailable || !processSampleIsCurrent w.table env.entryReadable p then
    .stop s (.ok none)
  else if !env.opened then .stop s (.error .openFailed)
  else if !processSampleIsCurrent w.table env.openReadable p then
    .stop s (.error .changedAfterOpen)
  else if !env.parsed then .stop s (.error .readFailed)
  else match w.table p.pid with
    | none => .stop s (.error .readFailed)
    | some q =>
      let original := q.oomScoreAdj
      if (s.oom.oomBiasedPids.lookup p.pid).isSome && original == oomBiasTargetValue then
        .stop s (.ok none)
      else
        match oomBiasTarget original with
        | none => .stop { s with oom := dropBiasRecord s.oom p.pid } (.ok none)
        | some target => .intend (biasedRuntime p samples original s) original target

/-- `apply_oom_bias` (main.rs:2548). -/
def applyOomBias (env : BiasEnv) (p : ProcSample) (samples : List ProcSample) (w : OomWorld) :
    OomWorld × BiasResult :=
  match oomBiasIntent env p samples w with
  | .stop s r => ({ w with state := s }, r)
  | .intend s original target =>
    let r := ({ w with state := s } : OomWorld).persist env.persist
    if !r.2 then (r.1.setOom (removeOomBias r.1.state.oom p.pid), .error .notPersisted)
    else if !processSampleIsCurrent w.table env.writeReadable p then
      (r.1, .error .changedBeforeWrite)
    else if !env.wrote then (r.1, .error .writeFailed)
    else
      let w := r.1.writeAdj p.pid target .bias
      if !env.verified then (w, .error .notVerified) else (w, .ok (some (original, target)))

/-! ## Compare and restore -/

/-- What the outside answers during one `oom_restore::restore`. -/
structure RestoreEnv where
  opened : Bool := true
  readable : Bool := true
  parsed : Bool := true
  wrote : Bool := true
  verified : Bool := true

inductive RestoreError where
  | openFailed | identityChanged | readFailed | writeFailed | notVerified
deriving DecidableEq, Repr

/-- `oom_restore::restore` (oom_restore.rs:8): only a value that is still the target is ours
to put back. -/
def oomRestore (env : RestoreEnv) (w : OomWorld) (pid : Pid) (identity : ProcessIdentity)
    (original : Int) (cause : AdjCause) : OomWorld × Except RestoreError Bool :=
  if !env.opened then (w, .error .openFailed)
  else if processIdentityStatus w.table env.readable pid identity != .matching then
    (w, .error .identityChanged)
  else if !env.parsed then (w, .error .readFailed)
  else if (w.table pid).map (·.oomScoreAdj) != some oomBiasTargetValue then (w, .ok false)
  else if !env.wrote then (w, .error .writeFailed)
  else
    let w := w.writeAdj pid original cause
    if !env.verified then (w, .error .notVerified) else (w, .ok true)

/-! ## Pending descendants -/

/-- What the outside answers while pending descendants are retried. -/
structure PendingEnv where
  readable : Incarnation → Bool := fun _ => true
  /-- Whether `/proc/<pid>/stat` shows the state. -/
  stateReadable : Incarnation → Bool := fun _ => true
  identityReadable : Incarnation → Bool := fun _ => true
  restore : Incarnation → RestoreEnv := fun _ => {}

/-- `record_oom_retry` (main.rs:918); its verdict only bounds log lines. -/
def recordOomRetry (o : OomState) (key : Incarnation) (pending : OomPendingDescendant) : OomState :=
  let pending := { pending with attempts := min (pending.attempts + 1) u32Max }
  { o with oomPendingDescendants := o.oomPendingDescendants.insert key pending }

/-- `remember_oom_descendant_identity` (main.rs:2682). -/
def rememberOomDescendantIdentity (o : OomState) (root pid : Pid) (identity : ProcessIdentity) :
    OomState :=
  let known := (o.oomKnownDescendants.lookup root).getD ∅
  { o with oomKnownDescendants :=
      o.oomKnownDescendants.insert root (insert (pid, identity.starttime) known) }

def removePending (o : OomState) (key : Incarnation) : OomState :=
  { o with oomPendingDescendants := o.oomPendingDescendants.erase key }

def exemptComm (exempt : List String) (comm : String) : Bool :=
  exempt.contains comm || isKernelProcess comm

/-- One iteration of `restore_pending_oom_descendants`. -/
def restorePendingStep (env : PendingEnv) (exempt : List String) (w : OomWorld)
    (key : Incarnation) : OomWorld :=
  let o := w.state.oom
  match o.oomPendingDescendants.lookup key with
  | none => w
  | some pending =>
    match processIdentityStatus w.table (env.readable key) key.1 pending.identity with
    | .gone | .mismatch => w.setOom (removePending o key)
    | .unavailable => w.setOom (recordOomRetry o key pending)
    | .matching =>
      let row := w.table key.1
      -- A defunct child has no adjustment left to restore.
      if env.stateReadable key && row.any (·.zombie) then w.setOom (removePending o key)
      else if !env.identityReadable key then w.setOom (recordOomRetry o key pending)
      else if row.any fun p => exemptComm exempt p.comm then w.setOom (recordOomRetry o key pending)
      else
        let r := oomRestore (env.restore key) w key.1 pending.identity pending.originalAdj
          (.debt pending.rootPid)
        match r.2 with
        | .error _ => r.1.setOom (recordOomRetry o key pending)
        | .ok _ =>
          r.1.setOom (rememberOomDescendantIdentity (removePending o key) pending.rootPid key.1
            pending.identity)

/-- `restore_pending_oom_descendants` (main.rs:2697). -/
def restorePendingOomDescendants (env : PendingEnv) (exempt : List String) (w : OomWorld) :
    OomWorld :=
  w.state.oom.oomPendingDescendants.keys.foldl (restorePendingStep env exempt) w

/-! ## The sweep -/

structure SweepEnv where
  rootReadable : Pid → Bool := fun _ => true
  intent : PersistEnv
  pending : PendingEnv := {}
  settled : PersistEnv

/-- `root_original_adj`: the readable or gone biased roots, then the roots of pending
descendants, which may have been released (main.rs:2806-2833). -/
def rootOriginalAdj (t : ProcTable) (readable : Pid → Bool) (o : OomState) : FinMap Pid Int :=
  let biased := o.oomBiasedPids.entries.foldl (fun m e =>
    match processIdentityStatus t (readable e.1) e.1 e.2.2 with
    | .matching | .gone => m.insert e.1 e.2.1
    | .mismatch | .unavailable => m) (∅ : FinMap Pid Int)
  o.oomPendingDescendants.entries.foldl
    (fun m e => FinMap.orInsert e.2.rootPid e.2.originalAdj m) biased

/-- One iteration of the attribution loop of the sweep (main.rs:2839-2867). -/
def enlistStep (tracked : Pid → Bool) (exempt : List String) (parents : Pid → Option Pid)
    (roots : FinMap Pid Int) (o : OomState) (child : ProcSample) : OomState :=
  if tracked child.pid || exemptComm exempt child.command then o
  else match nearestBiasedAncestor child.pid parents fun pid => (roots.lookup pid).isSome with
    | none => o
    | some root =>
      let key : Incarnation := (child.pid, child.starttime)
      if (o.oomPendingDescendants.lookup key).isSome ||
          (o.oomKnownDescendants.lookup root).any fun known => key ∈ known then o
      else match roots.lookup root with
        | none => o
        | some originalAdj =>
          let pending : OomPendingDescendant :=
            { rootPid := root, originalAdj := originalAdj
              identity := processSampleIdentity child, attempts := 0 }
          { o with oomPendingDescendants := o.oomPendingDescendants.insert key pending }

/-- The sweep up to the write-ahead: every new descendant of a root becomes a debt. -/
def enlistStrandedDescendants (t : ProcTable) (readable : Pid → Bool) (samples : List ProcSample)
    (exempt : List String) (o : OomState) : OomState :=
  let tracked := fun pid => (o.oomBiasedPids.lookup pid).isSome
  samples.foldl
    (enlistStep tracked exempt (parentByPid samples) (rootOriginalAdj t readable o)) o

/-- `sweep_stranded_oom_descendants` (main.rs:2799). -/
def sweepStrandedOomDescendants (env : SweepEnv) (exempt : List String) (samples : List ProcSample)
    (w : OomWorld) : OomWorld :=
  let enlisted := enlistStrandedDescendants w.table env.rootReadable samples exempt w.state.oom
  let r := (w.setOom enlisted).persist env.intent
  if !r.2 then r.1
  else ((restorePendingOomDescendants env.pending exempt r.1).persist env.settled).1

/-! ## Release and prune -/

structure ReleaseEnv where
  now : Time
  releaseAfterSecs : Nat
  readable : Pid → Bool := fun _ => true
  restore : Pid → RestoreEnv := fun _ => {}

/-- Restore a biased process, then drop its record (main.rs:6926 and 3332). -/
def settleOomBias (env : RestoreEnv) (w : OomWorld) (pid : Pid) (identity : ProcessIdentity)
    (orig : Int) : OomWorld :=
  let r := oomRestore env w pid identity orig .release
  match r.2 with
  | .error _ => r.1
  | .ok _ => r.1.setOom (removeOomBias r.1.state.oom pid)

/-- The release of one biased process (main.rs:6892-6935). -/
def releaseOomBias (env : ReleaseEnv) (w : OomWorld) (pid : Pid) : OomWorld :=
  let o := w.state.oom
  match o.oomBiasedPids.lookup pid with
  | none => w
  | some (orig, identity) =>
    match processIdentityStatus w.table (env.readable pid) pid identity with
    | .gone | .mismatch => w.setOom (removeOomBias o pid)
    | .unavailable =>
      -- A retry limit bounds warning cadence, never proof of a restoration.
      let attempts := (o.oomIdentityUnavailableAttempts.lookup pid).getD 0 + 1
      w.setOom { o with oomIdentityUnavailableAttempts :=
        o.oomIdentityUnavailableAttempts.insert pid (min attempts identityUnavailableRetryLimit) }
    | .matching =>
      let o := { o with oomIdentityUnavailableAttempts := o.oomIdentityUnavailableAttempts.erase pid }
      settleOomBias (env.restore pid) (w.setOom o) pid identity orig

/-- The OOM release of `check_memory_pressure` once pressure is ok (main.rs:6884-6939). -/
def releaseOomBiases (env : ReleaseEnv) (w : OomWorld) : OomWorld :=
  if w.state.mitigationLedgerUnavailable then w
  else
    let o := w.state.oom
    let cooled := o.oomBiasedPids.keys.foldl
      (coolStep (fun _ => false) env.now env.releaseAfterSecs) (o.oomCooledSince, [])
    let w := cooled.2.foldl (releaseOomBias env) (w.setOom { o with oomCooledSince := cooled.1 })
    let o := w.state.oom
    w.setOom { o with oomCooledSince :=
      o.oomCooledSince.retain fun pid _ => (o.oomBiasedPids.lookup pid).isSome }

/-- Pressure persists: `oom_cooled_since.clear()`. -/
def clearOomTimers (w : OomWorld) : OomWorld := w.setOom { w.state.oom with oomCooledSince := ∅ }

/-- `prune_oom_known_descendants` (main.rs:896). -/
def pruneOomKnownDescendants (samples : List ProcSample) (o : OomState) : OomState :=
  let live : Finset Incarnation := (samples.map fun p => (p.pid, p.starttime)).toFinset
  let kept : FinMap Pid (Finset Incarnation) :=
    o.oomKnownDescendants.retain fun pid _ => (o.oomBiasedPids.lookup pid).isSome
  { o with oomKnownDescendants := kept.mapValues fun known =>
      if oomKnownDescendantsCap < known.card then known.filter (· ∈ live) else known }

/-- The OOM part of the closing prune (main.rs:7039-7049). -/
def pruneOom (readable : Pid → Bool) (samples : List ProcSample) (w : OomWorld) : OomWorld :=
  let o := w.state.oom
  let kept := o.oomBiasedPids.retain fun pid b =>
    !(processIdentityStatus w.table (readable pid) pid b.2).dead ||
      oomRootHasPendingDescendants o pid
  w.setOom (pruneOomKnownDescendants samples { o with oomBiasedPids := kept })

/-- The `OomBias` arm of `restore_runtime_adjustments` (main.rs:3323). -/
def restoreOomBias (env : ReleaseEnv) (w : OomWorld) (pid : Pid) : OomWorld :=
  match w.state.oom.oomBiasedPids.lookup pid with
  | none => w
  | some (orig, identity) =>
    match processIdentityStatus w.table (env.readable pid) pid identity with
    | .gone | .mismatch => w.setOom (removeOomBias w.state.oom pid)
    | .unavailable => w
    | .matching => settleOomBias (env.restore pid) w pid identity orig

/-- `restore_runtime_adjustments` (main.rs:3231), its OOM part: sweep, then every root. -/
def restoreRuntimeOom (sweep : SweepEnv) (env : ReleaseEnv) (samples : List ProcSample)
    (w : OomWorld) : OomWorld :=
  if w.state.mitigationLedgerUnavailable then w
  else
    let w := sweepStrandedOomDescendants sweep [] samples w
    w.state.oom.oomBiasedPids.keys.foldl (restoreOomBias env) w

/-- A policy reload discards a runtime with nothing left to restore (main.rs:12094). -/
def reloadRuntime (w : OomWorld) : OomWorld :=
  let s := w.state
  let restored := s.nice.legacy.renicedPids.entries == [] && s.nice.memory.renicedPids.entries == [] &&
    s.oom.oomBiasedPids.entries == [] && s.oom.oomPendingDescendants.entries == [] &&
    s.caps.cappedPids.entries == []
  if restored && !s.mitigationLedgerUnavailable then
    { w with state := { persistMitigations := s.persistMitigations } }
  else w

/-! ## Runs of the daemon -/

/-- What can happen next. Snapshots may be older than the table. -/
inductive OomInput where
  | spawn (pid : Pid) (p : Proc)
  | exit (pid : Pid)
  /-- Somebody else changes a live process: its adjustment, parent, name or zombie state. -/
  | change (pid : Pid) (ppid : Pid) (comm : String) (oomScoreAdj : Int) (zombie : Bool)
  /-- The other limiters change their maps. -/
  | others (nice : NiceState) (caps : CapState)
  | bias (env : BiasEnv) (p : ProcSample) (samples : List ProcSample)
  | sweep (env : SweepEnv) (exempt : List String) (samples : List ProcSample)
  | release (env : ReleaseEnv)
  | pressurePersists
  | prune (readable : Pid → Bool) (samples : List ProcSample)
  | persist (env : PersistEnv)
  | restoreRuntime (sweep : SweepEnv) (env : ReleaseEnv) (samples : List ProcSample)
  | reload

def oomStep (w : OomWorld) : OomInput → OomWorld
  | .spawn pid p => if (w.table pid).isSome then w else { w with table := Function.update w.table pid p }
  | .exit pid =>
    { w with
      table := Function.update w.table pid none
      raised := Function.update w.raised pid none }
  | .change pid ppid comm adj zombie =>
    match w.table pid with
    | none => w
    | some p =>
      let p' := { p with ppid := ppid, comm := comm, oomScoreAdj := adj, zombie := zombie }
      { w with
        table := Function.update w.table pid (some p')
        -- Another's value is not the guard's to write back.
        raised := if adj = p.oomScoreAdj then w.raised else Function.update w.raised pid none }
  | .others nice caps => { w with state := { w.state with nice := nice, caps := caps } }
  | .bias env p samples => (applyOomBias env p samples w).1
  | .sweep env exempt samples => sweepStrandedOomDescendants env exempt samples w
  | .release env => releaseOomBiases env w
  | .pressurePersists => clearOomTimers w
  | .prune readable samples => pruneOom readable samples w
  | .persist env => (w.persist env).1
  | .restoreRuntime sweep env samples => restoreRuntimeOom sweep env samples w
  | .reload => reloadRuntime w

/-- A daemon that has just started, with whatever its hydration left in `s`. -/
def oomStart (t : ProcTable) (s : GuardRuntimeState) (disk : LedgerDisk) : OomWorld :=
  { table := t, disk := disk
    state := { s with persistMitigations := true, lastPersistedMitigations := none } }

/-! ## What the operations do -/

@[simp] theorem OomWorld.setOom_table (w : OomWorld) (o : OomState) : (w.setOom o).table = w.table :=
  rfl

@[simp] theorem OomWorld.setOom_raised (w : OomWorld) (o : OomState) :
    (w.setOom o).raised = w.raised := rfl

@[simp] theorem OomWorld.setOom_oom (w : OomWorld) (o : OomState) : (w.setOom o).state.oom = o := rfl

@[simp] theorem OomWorld.setOom_adjWrites (w : OomWorld) (o : OomState) :
    (w.setOom o).adjWrites = w.adjWrites := rfl

@[simp] theorem writeAdj_state (w : OomWorld) (pid : Pid) (v : Int) (cause : AdjCause) :
    (w.writeAdj pid v cause).state = w.state := by
  unfold OomWorld.writeAdj; split <;> rfl

@[simp] theorem persist_adjWrites (env : PersistEnv) (w : OomWorld) :
    (w.persist env).1.adjWrites = w.adjWrites := rfl

@[simp] theorem persist_oom (env : PersistEnv) (w : OomWorld) :
    (w.persist env).1.state.oom = w.state.oom := persistMitigations_oom env w.state w.disk

/-- `oom_restore::restore` either does nothing (and reports success only when the value is no
longer the target) or writes the original back to the incarnation it was asked about. -/
theorem oomRestore_cases (env : RestoreEnv) (w : OomWorld) (pid : Pid) (id : ProcessIdentity)
    (original : Int) (cause : AdjCause) :
    ((oomRestore env w pid id original cause).1 = w ∧
      ∀ b, (oomRestore env w pid id original cause).2 = .ok b →
        (w.table pid).map (·.oomScoreAdj) ≠ some oomBiasTargetValue) ∨
    ((oomRestore env w pid id original cause).1 = w.writeAdj pid original cause ∧
      ∀ p, w.table pid = some p → p.starttime = id.starttime) := by
  unfold oomRestore
  split_ifs with h1 h2 h3 h4 h5 h6
  · exact Or.inl ⟨rfl, fun b hb => by cases hb⟩
  · exact Or.inl ⟨rfl, fun b hb => by cases hb⟩
  · exact Or.inl ⟨rfl, fun b hb => by cases hb⟩
  · exact Or.inl ⟨rfl, fun b _ => bne_iff_ne.1 h4⟩
  · exact Or.inl ⟨rfl, fun b hb => by cases hb⟩
  all_goals
    refine Or.inr ⟨rfl, fun p hp => ?_⟩
    obtain ⟨-, p', hp', hst⟩ := processIdentityStatus_matching (by simpa using h2)
    obtain rfl : p = p' := Option.some.inj (hp.symm.trans hp')
    exact hst

theorem oomRestore_state (env : RestoreEnv) (w : OomWorld) (pid : Pid) (id : ProcessIdentity)
    (original : Int) (cause : AdjCause) :
    (oomRestore env w pid id original cause).1.state = w.state := by
  rcases oomRestore_cases env w pid id original cause with ⟨he, -⟩ | ⟨he, -⟩
  · rw [he]
  · rw [he, writeAdj_state]

/-- One retry of a pending descendant: nothing, the debt dropped, the debt counted once more,
or a restore followed by either. -/
theorem restorePendingStep_cases (env : PendingEnv) (exempt : List String) (w : OomWorld)
    (key : Incarnation) :
    restorePendingStep env exempt w key = w ∨
    ∃ pd, w.state.oom.oomPendingDescendants.lookup key = some pd ∧
      (restorePendingStep env exempt w key = w.setOom (removePending w.state.oom key) ∨
       restorePendingStep env exempt w key = w.setOom (recordOomRetry w.state.oom key pd) ∨
       ∃ w', w' = (oomRestore (env.restore key) w key.1 pd.identity pd.originalAdj
            (.debt pd.rootPid)).1 ∧
          (restorePendingStep env exempt w key = w'.setOom (recordOomRetry w.state.oom key pd) ∨
           restorePendingStep env exempt w key =
            w'.setOom (rememberOomDescendantIdentity (removePending w.state.oom key) pd.rootPid
              key.1 pd.identity))) := by
  unfold restorePendingStep
  simp only
  split
  · exact Or.inl rfl
  · rename_i pd hpd
    refine Or.inr ⟨pd, hpd, ?_⟩
    split
    · exact Or.inl rfl
    · exact Or.inl rfl
    · exact Or.inr (Or.inl rfl)
    · split_ifs
      · exact Or.inl rfl
      · exact Or.inr (Or.inl rfl)
      · exact Or.inr (Or.inl rfl)
      · refine Or.inr (Or.inr ⟨_, rfl, ?_⟩)
        split
        · exact Or.inl rfl
        · exact Or.inr rfl

/-- A retry works on the debts and the known descendants, and on nothing else in memory. -/
theorem restorePendingStep_state (env : PendingEnv) (exempt : List String) (w : OomWorld)
    (key : Incarnation) :
    ∃ o, (restorePendingStep env exempt w key).state = { w.state with oom := o } ∧
      o.oomBiasedPids = w.state.oom.oomBiasedPids ∧
      o.oomCooledSince = w.state.oom.oomCooledSince := by
  rcases restorePendingStep_cases env exempt w key with
    heq | ⟨pd, -, heq | heq | ⟨w', rfl, heq | heq⟩⟩
  · exact ⟨w.state.oom, by rw [heq], rfl, rfl⟩
  · exact ⟨removePending w.state.oom key, by rw [heq]; rfl, rfl, rfl⟩
  · exact ⟨recordOomRetry w.state.oom key pd, by rw [heq]; rfl, rfl, rfl⟩
  · refine ⟨recordOomRetry w.state.oom key pd, ?_, rfl, rfl⟩
    rw [heq, OomWorld.setOom, oomRestore_state]
  · refine ⟨rememberOomDescendantIdentity (removePending w.state.oom key) pd.rootPid key.1
      pd.identity, ?_, rfl, rfl⟩
    rw [heq, OomWorld.setOom, oomRestore_state]

/-- What the attribution, a persist and a retry keep is kept by a sweep. -/
theorem sweep_induction {P : OomWorld → Prop} {env : SweepEnv} {exempt : List String}
    {samples : List ProcSample} {w : OomWorld}
    (enlist : P (w.setOom (enlistStrandedDescendants w.table env.rootReadable samples exempt
      w.state.oom)))
    (persist : ∀ w env, P w → P (w.persist env).1)
    (retry : ∀ w key, P w → P (restorePendingStep env.pending exempt w key)) :
    P (sweepStrandedOomDescendants env exempt samples w) := by
  have hloop : ∀ (keys : List Incarnation) (w : OomWorld), P w →
      P (keys.foldl (restorePendingStep env.pending exempt) w) := by
    intro keys
    induction keys with
    | nil => exact fun _ h => h
    | cons key rest ih => exact fun w h => ih _ (retry w key h)
  unfold sweepStrandedOomDescendants
  simp only
  split
  · exact persist _ _ enlist
  · exact persist _ _ (hloop _ _ (persist _ _ enlist))

theorem oomBiasTarget_eq_some {v t : Int} (h : oomBiasTarget v = some t) :
    t = oomBiasTargetValue ∧ v ≠ oomBiasTargetValue := by
  unfold oomBiasTarget at h
  split at h
  · cases h
  · rename_i hv
    simp only [Bool.or_eq_true, decide_eq_true_eq, not_or] at hv
    exact ⟨(Option.some.inj h).symm, by omega⟩

/-- What `apply_oom_bias` intends: the live incarnation of the sample, below the target, is
recorded with the value found. -/
theorem oomBiasIntent_intend {env : BiasEnv} {p : ProcSample} {samples : List ProcSample}
    {w : OomWorld} {s : GuardRuntimeState} {original target : Int}
    (h : oomBiasIntent env p samples w = .intend s original target) :
    ∃ q, w.table p.pid = some q ∧ q.starttime = p.starttime ∧ original = q.oomScoreAdj ∧
      target = oomBiasTargetValue ∧ original ≠ oomBiasTargetValue ∧
      s = biasedRuntime p samples original w.state := by
  unfold oomBiasIntent at h
  simp only at h
  split_ifs at h with h1 h2 h3 h4
  split at h
  · cases h
  · rename_i q hq
    split_ifs at h with h5
    split at h
    · cases h
    · rename_i t ht
      cases h
      obtain ⟨rfl, hne⟩ := oomBiasTarget_eq_some ht
      simp only [Bool.or_eq_true, Bool.not_eq_true', not_or, Bool.not_eq_false,
        processSampleIsCurrent, beq_iff_eq] at h1
      obtain ⟨-, q', hq', hst⟩ := processIdentityStatus_matching h1.2
      obtain rfl : q = q' := Option.some.inj (hq.symm.trans hq')
      exact ⟨q, hq, hst, rfl, rfl, hne, rfl⟩

/-- When it stops short, at most a leftover record is gone: one whose live value is not the
target. -/
theorem oomBiasIntent_stop {env : BiasEnv} {p : ProcSample} {samples : List ProcSample}
    {w : OomWorld} {s : GuardRuntimeState} {r : BiasResult}
    (h : oomBiasIntent env p samples w = .stop s r) :
    s = w.state ∨
      (s = { w.state with oom := dropBiasRecord w.state.oom p.pid } ∧
        ∃ q, w.table p.pid = some q ∧ ((w.state.oom.oomBiasedPids.lookup p.pid).isSome →
          q.oomScoreAdj ≠ oomBiasTargetValue)) := by
  unfold oomBiasIntent at h
  simp only at h
  split_ifs at h with h1 h2 h3 h4
  · cases h; exact Or.inl rfl
  · cases h; exact Or.inl rfl
  · cases h; exact Or.inl rfl
  · cases h; exact Or.inl rfl
  · split at h
    · cases h; exact Or.inl rfl
    · rename_i q hq
      split_ifs at h with h5
      · cases h; exact Or.inl rfl
      · split at h
        · cases h
          refine Or.inr ⟨rfl, q, hq, fun hsome hadj => h5 ?_⟩
          rw [hsome, hadj]; rfl
        · cases h

@[simp] theorem removeOomBias_pending (o : OomState) (pid : Pid) :
    (removeOomBias o pid).oomPendingDescendants = o.oomPendingDescendants := by
  unfold removeOomBias; simp only; split <;> rfl

@[simp] theorem removeOomBias_biased (o : OomState) (pid : Pid) :
    (removeOomBias o pid).oomBiasedPids = o.oomBiasedPids.erase pid := by
  unfold removeOomBias; simp only; split <;> rfl

end DraconGuard
