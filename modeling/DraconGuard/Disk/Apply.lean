import DraconGuard.Disk.References

/-!
# The delete pass of the disk cleaner

`apply_with_floors` (disk.rs:1079-1224) and `clean_git_temp_files` (git_temp.rs:321-355). Each
finding comes with what the system answers when the pass looks at it (`OsAnswers`), so a run
covers every file system at apply time and every change to it while the pass is going on. The
run records what it refuses and what it removes, in order.
-/

namespace DraconGuard

open FileTree (Name Location render)

/-- `Disposition` (disk.rs:44). -/
inductive Disposition where
  | apply
  | skip
  | report
deriving DecidableEq, Repr

/-- `TrashClass` (disk.rs:66). -/
inductive TrashClass where
  | gitTemp
  | tempAndLogs
  | cachesAndNix
  | strays
deriving DecidableEq, Repr

/-- `Finding` (disk.rs:92). -/
structure Finding where
  cls : TrashClass
  path : Location
  bytes : Nat
  disposition : Disposition
  reason : String := ""
  references : ReferenceCapture := {}
  humanCommand : Option String := none
  qualifyingFloorHours : Option Nat := none
deriving DecidableEq

/-- `DeletedRecord` (disk.rs:1228). -/
structure DeletedRecord where
  cls : TrashClass
  path : Location
  bytes : Nat
  references : ReferenceCapture
deriving DecidableEq

/-- How a removal ends. A failed `remove_dir_all` may have taken some of the tree. -/
inductive RemovalAnswer where
  | done
  | failed (error : String) (gone : List Location)
deriving DecidableEq

/-- What the system answers about one finding. -/
structure OsAnswers where
  /-- Seconds since the modification time, when it can be read and does not lie ahead. -/
  secondsOld : Option Nat := none
  /-- Where the entry the path names lies when the git cleaner comes to it, if anywhere. -/
  gitPlace : Option Location := none
  gitUnlinks : Bool := false
  /-- Where it lies in the second loop. -/
  place : Location := []
  dirAtCheck : Bool := false
  /-- `directory_bytes_and_age`, second component. -/
  newestAgeHours : Option Nat := none
  dirAtRemoval : Bool := false
  removal : RemovalAnswer := .done

/-- A finding and the answers about it. -/
structure Seen where
  finding : Finding
  os : OsAnswers

/-- What a run does to the file system, and the refusals of the git cleaner. Every event says
which path the run named and where that path led. -/
inductive DiskEvent where
  /-- The git cleaner leaves the file alone. -/
  | refused (path : Location) (place : Option Location)
  | unlinked (path : Location) (place : Option Location)
  | removedTree (path place : Location)
  | stoppedRemoval (path place : Location) (gone : List Location)
deriving DecidableEq

/-- The event deletes the file named `path` that lies at `place`: under that name, or under
any other path that leads to it. -/
def DiskEvent.Deletes (path : Location) (place : Option Location) : DiskEvent → Prop
  | .refused _ _ => False
  | .unlinked p l => p = path ∨ ∃ q, place = some q ∧ l = some q
  | .removedTree p l => p <+: path ∨ ∃ q, place = some q ∧ l <+: q
  | .stoppedRemoval p l gone =>
    (∃ rest, path = p ++ rest ∧ l ++ rest ∈ gone) ∨ ∃ q, place = some q ∧ q ∈ gone

/-! ## The git cleaner -/

/-- `GitTempFile` (git_temp.rs:30), with the answers about it. -/
structure GitTempFile where
  path : Location
  bytes : Nat
  ageHours : Option Nat
  os : OsAnswers

/-- `GitTempFile::is_expired` (git_temp.rs:45). -/
def GitTempFile.isExpired (c : GitTempFile) (minAgeHours : Nat) : Bool :=
  match c.ageHours with
  | some age => minAgeHours ≤ age
  | none => false

/-- `GitTempCleanupOutcome` (git_temp.rs:55), and the events. -/
structure GitTempCleanupOutcome where
  cleaned : List GitTempFile := []
  skippedFresh : List GitTempFile := []
  skippedOwned : List GitTempFile := []
  reclaimedBytes : Nat := 0
  events : List DiskEvent := []

/-- The cleaner leaves the candidate alone. -/
def GitTempFile.refusal (c : GitTempFile) : DiskEvent := .refused c.path c.os.gitPlace

/-- One candidate of `clean_git_temp_files`, applied (git_temp.rs:332-352). -/
def cleanGitTempFile (minAgeHours : Nat) (ownerOf : Location → Option String)
    (outcome : GitTempCleanupOutcome) (c : GitTempFile) : GitTempCleanupOutcome :=
  if (ownerOf c.path).isSome then
    { outcome with skippedOwned := outcome.skippedOwned ++ [c],
                   events := outcome.events ++ [c.refusal] }
  else if !c.isExpired minAgeHours then
    { outcome with skippedFresh := outcome.skippedFresh ++ [c],
                   events := outcome.events ++ [c.refusal] }
  -- a file that cannot be removed is in none of the lists
  else if !c.os.gitUnlinks then { outcome with events := outcome.events ++ [c.refusal] }
  else
    { outcome with reclaimedBytes := outcome.reclaimedBytes + c.bytes,
                   cleaned := outcome.cleaned ++ [c],
                   events := outcome.events ++ [.unlinked c.path c.os.gitPlace] }

/-- `clean_git_temp_files` (git_temp.rs:321-355) with `apply` set. -/
def cleanGitTempFiles (candidates : List GitTempFile) (minAgeHours : Nat)
    (ownerOf : Location → Option String) : GitTempCleanupOutcome :=
  candidates.foldl (cleanGitTempFile minAgeHours ownerOf) {}

/-! ## `apply_with_floors` -/

/-- The candidate a finding becomes in the draining loop (disk.rs:1097-1117). -/
def gitCandidate (s : Seen) : Option GitTempFile :=
  if s.finding.disposition = .apply ∧ s.finding.cls = .gitTemp then
    some { path := s.finding.path, bytes := s.finding.bytes,
           ageHours := s.os.secondsOld.map (· / 3600), os := s.os }
  else none

/-- `owner_of` (disk.rs:1122-1125). -/
def ownerOf (owners : List GitOwner) (candidate : Location) : Option String :=
  match repoRootForGitPath candidate with
  | none => none
  | some repo =>
    (gitOwnerFor owners repo).map fun o => o.name ++ "(pid " ++ toString o.pid ++ ")"

structure ApplyState where
  findings : List Seen
  freed : Nat := 0
  records : List DeletedRecord := []

def DeletedRecord.fromFinding (f : Finding) : DeletedRecord :=
  { cls := f.cls, path := f.path, bytes := f.bytes, references := f.references }

/-- One cleaned candidate (disk.rs:1127-1138): recorded under the first finding with its path,
and every finding with its path is dropped. -/
def recordCleaned (s : ApplyState) (cleaned : GitTempFile) : ApplyState :=
  match s.findings.find? fun f => f.finding.path = cleaned.path with
  | none => s
  | some f =>
    { findings := s.findings.filter fun g => g.finding.path ≠ cleaned.path
      freed := s.freed + cleaned.bytes
      records := s.records ++ [DeletedRecord.fromFinding f.finding] }

/-- `tree_is_live_churn` (disk.rs:553). -/
def treeIsLiveChurn (newestContentAgeHours : Option Nat) (thresholdHours : Nat) : Bool :=
  match newestContentAgeHours with
  | some age => age < thresholdHours
  | none => true

/-- The churn check at delete time (disk.rs:1170-1179). -/
def becameChurn (s : Seen) : Bool :=
  s.os.dirAtCheck &&
    match s.finding.qualifyingFloorHours with
    | some floor => treeIsLiveChurn s.os.newestAgeHours floor
    | none => true

def churnReason (s : Seen) : String :=
  let contentNote := match s.os.newestAgeHours with
    | some age => "newest nested content is " ++ toString age ++ "h old"
    | none =>
      "nested content is unreadable (permissions) — cannot prove the tree is idle"
  let floorText := match s.finding.qualifyingFloorHours with
    | some floor => toString floor ++ "h"
    | none => "unknown"
  "became live churn before delete (" ++ contentNote ++ ", qualifying floor " ++ floorText ++
    ") — kept"

/-- What the removal of a finding does (disk.rs:1204-1210). -/
def removalEvents (s : Seen) : List DiskEvent :=
  match s.os.dirAtRemoval, s.os.removal with
  | true, .done => [.removedTree s.finding.path s.os.place]
  | true, .failed _ gone => [.stoppedRemoval s.finding.path s.os.place gone]
  | false, .done => [.unlinked s.finding.path (some s.os.place)]
  | false, .failed _ _ => []

structure SweepState where
  remaining : List Finding := []
  freed : Nat := 0
  records : List DeletedRecord := []
  events : List DiskEvent := []

/-- One finding of the second loop (disk.rs:1143-1221). The class is not looked at. -/
def sweepFinding (snapshot : ProcSnapshot) (w : SweepState) (s : Seen) : SweepState :=
  let finding := s.finding
  if finding.disposition ≠ .apply then { w with remaining := w.remaining ++ [finding] }
  else
    let fresh := snapshot.capture finding.path
    match fresh.blockingReason finding.path with
    | some reason =>
      let skipped : Finding :=
        { finding with disposition := .skip, reason := "in use at delete time — " ++ reason,
                       references := fresh }
      { w with remaining := w.remaining ++ [skipped] }
    | none =>
      if becameChurn s then
        let skipped : Finding :=
          { finding with disposition := .report, reason := churnReason s, references := fresh }
        { w with remaining := w.remaining ++ [skipped] }
      else
        let events := w.events ++ removalEvents s
        match s.os.removal with
        | .done =>
          let record := { DeletedRecord.fromFinding finding with references := fresh }
          { w with freed := w.freed + finding.bytes, records := w.records ++ [record],
                   events := events }
        | .failed error _ =>
          let failed : Finding :=
            { finding with reason := "delete failed: " ++ error, disposition := .skip }
          { w with remaining := w.remaining ++ [failed], events := events }

structure ApplyRun where
  findings : List Finding
  freed : Nat
  records : List DeletedRecord
  events : List DiskEvent

/-- `apply_with_floors` (disk.rs:1079-1224). `/proc` is read twice, once for the git owners and
once for the references. -/
def applyWithFloors (report : List Seen) (ownerScan snapshotScan : ProcScan)
    (gitTempMinAgeHours : Nat) : ApplyRun :=
  let owners := liveGitOwners ownerScan
  let snapshot := ProcSnapshot.read snapshotScan
  let gitCandidates := report.filterMap gitCandidate
  let outcome := cleanGitTempFiles gitCandidates gitTempMinAgeHours (ownerOf owners)
  let cleaned := outcome.cleaned.foldl recordCleaned { findings := report }
  let swept := cleaned.findings.foldl (sweepFinding snapshot)
    { freed := cleaned.freed, records := cleaned.records }
  { findings := swept.remaining, freed := swept.freed, records := swept.records,
    events := outcome.events ++ swept.events }

end DraconGuard
