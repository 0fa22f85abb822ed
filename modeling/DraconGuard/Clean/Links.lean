import Mathlib.Data.List.DropRight
import DraconGuard.Clean.Stash
import DraconGuard.Guard.PolicyBounds
import DraconGuard.Lib.DiskCalls

/-!
# Link reconciliation

`evaluate_link` and `apply_link_policy` (src/links.rs:15-64, 147-314), over a disk, with a record
of what the system does in each turn: which calls fail, and what time it is.

| here | there |
|---|---|
| `evaluateLink`, `normalizePath`, `lexicalNormalize` | lines 15-97 |
| `buildLinkReportWith` | lines 105-145 |
| `backupPathFor`, `uniqueBackupPathWith` | lines 147-179 |
| `applyOneLink`: `prepareLink`, then `createLink` | lines 249-314 |
| `restoreAfterFailedSymlink` | lines 218-233 |
| `applyLinkPolicy` | lines 198-214 |

The target is tested as the process sees it, stored in the link as it is written, and read from
the link's directory ever after. **Whatever was at the link path is out of the way before
`symlink(2)` is called**: a link is unlinked, anything else is renamed, and only the second can be
put back.
-/

namespace DraconGuard

open FileTree

/-- `LinkEntry` (policy.rs:46). -/
structure LinkEntry where
  link : String
  target : String
deriving DecidableEq

/-- `expand_tilde`: `home` is `dirs::home_dir()`. -/
def expandTilde (home : Option String) (raw : String) : String :=
  String.ofList (expandTildeWithHome raw.toList (home.map String.toList))

/-! ## Paths taken apart -/

/-- A path as a walk takes it; the empty one has no component. -/
def spelled (text : String) : Spelled :=
  (Spelled.parse text).getD { absolute := false, parts := [] }

/-- The components without the `.`s at the end. -/
def trimmedParts (parts : List Name) : List Name := parts.rdropWhile fun n => n = Name.current

/-- `Path::parent`. -/
def parentOfPath (p : Spelled) : Spelled where
  absolute := p.absolute
  parts := (trimmedParts p.parts).dropLast

/-- `Path::file_name`. -/
def fileName (p : Spelled) : Option Name :=
  (trimmedParts p.parts).getLast?.filter Name.isPlain

/-- `Path::join`, on paths. -/
def joinPath (p q : Spelled) : Spelled :=
  if q.absolute then q else { absolute := p.absolute, parts := p.parts ++ q.parts }

/-- `Path::exists`. -/
def pathExists (t : Disk FileData) (text : String) : Bool := (t.canonicalize text).toOption.isSome

/-! ## Evaluation -/

/-- Which calls of one evaluation fail. -/
structure EvaluateFaults where
  statTarget : Bool := false
  inspect : Bool := false
  readLink : Bool := false
  canonicalizeActual : Bool := false
  canonicalizeTarget : Bool := false

/-- The `issue`s of `evaluate_link`. -/
inductive LinkIssue where
  | ok
  | targetMissing
  | linkMissing
  | pathNotSymlink
  | linkTargetMismatch
  | readlinkFailed
deriving DecidableEq, Repr

def LinkIssue.text : LinkIssue → String
  | .ok => "ok"
  | .targetMissing => "target_missing"
  | .linkMissing => "link_missing"
  | .pathNotSymlink => "path_not_symlink"
  | .linkTargetMismatch => "link_target_mismatch"
  | .readlinkFailed => "readlink_failed"

/-- `LinkEntryStatus` (main.rs:10627), less its display texts. -/
structure LinkStatus where
  /-- `exists`. -/
  present : Bool
  isSymlink : Bool
  targetExists : Bool
  inSync : Bool
  issue : LinkIssue

/-- The loop of `lexical_normalize` (links.rs:78). -/
def lexicalStep (out : List Name) (c : Name) : List Name :=
  if c.text = "." then out
  else if c.text = ".." then
    -- without a name to take back the `..` is kept
    if out.getLast?.any Name.isPlain then out.dropLast else out ++ [c]
  else out ++ [c]

/-- `lexical_normalize` (links.rs:78). -/
def lexicalNormalize (p : Spelled) : Spelled where
  absolute := p.absolute
  parts := p.parts.foldl lexicalStep []

/-- `normalize_path` (links.rs:66). -/
def normalizePath (t : Disk FileData) (fails : Bool) (p : Spelled) : Spelled :=
  if fails then lexicalNormalize p
  else match resolve t.fs maxLinks (p.start t.cwd) p.parts with
  | .ok q => { absolute := true, parts := q }
  | .error _ => lexicalNormalize p

/-- The `issue` (links.rs:28-51), `found` being what `lstat` of the link says. -/
def evaluateIssue (t : Disk FileData) (faults : EvaluateFaults) (link target : String)
    (targetExists : Bool) (found : Option (Entry FileData)) : LinkIssue :=
  if !targetExists then .targetMissing
  else match found with
  | none => .linkMissing
  | some (.symlink actual) =>
    if faults.readLink then .readlinkFailed
    else
      let actualAbs := joinPath (parentOfPath (spelled link)) actual
      if normalizePath t faults.canonicalizeActual actualAbs =
          normalizePath t faults.canonicalizeTarget (spelled target) then .ok
      else .linkTargetMismatch
  | some _ => .pathNotSymlink

def entryIsSymlink : Entry FileData → Bool
  | .symlink _ => true
  | _ => false

/-- `evaluate_link` (links.rs:15). -/
def evaluateLink (t : Disk FileData) (home : Option String) (faults : EvaluateFaults)
    (entry : LinkEntry) : LinkStatus :=
  let link := expandTilde home entry.link
  let target := expandTilde home entry.target
  let targetExists := !faults.statTarget && pathExists t target
  let found := if faults.inspect then none else (t.lstat link).toOption.map Prod.snd
  let issue := evaluateIssue t faults link target targetExists found
  { present := found.isSome
    isSymlink := found.any entryIsSymlink
    targetExists := targetExists
    inSync := issue = .ok
    issue := issue }

/-- `LinkStatusReport` (main.rs:10639). -/
structure LinkReport where
  entries : List LinkStatus
  total : Nat
  healthy : Nat
  drifted : Nat
  missingTarget : Nat
  missingLink : Nat
  errors : List String

/-- `build_link_report_with` (links.rs:111). -/
def buildLinkReportWith (t : Disk FileData) (home : Option String)
    (faults : LinkEntry → EvaluateFaults) (entries extra : List LinkEntry) : LinkReport :=
  let statuses := (entries ++ extra).map fun entry => evaluateLink t home (faults entry) entry
  { entries := statuses
    total := statuses.length
    healthy := statuses.countP fun s => s.issue = .ok
    drifted := statuses.countP fun s => s.issue ≠ .ok
    missingTarget := statuses.countP fun s => s.issue = .targetMissing
    missingLink := statuses.countP fun s => s.issue = .linkMissing
    errors := [] }

/-! ## Backups -/

/-- What the system does in one turn: the calls that fail, and the time. -/
structure LinkCalls where
  statTarget : Bool := false
  /-- `create_dir_all`, failed after that many components of the path. -/
  createDirs : Option Nat := none
  inspect : Bool := false
  evaluate : EvaluateFaults := {}
  removeFile : Bool := false
  guardCheck : Bool := false
  /-- The candidates of a backup path whose inspection fails. -/
  probe : Nat → Bool := fun _ => false
  rename : Bool := false
  symlink : Bool := false
  restore : Bool := false
  nanos : Nat := 0
  ioError : String := ""

/-- A path below a directory path, as a text names it. -/
structure BackupPath where
  dir : Spelled
  name : Name

/-- Where the path leads: a name in the directory the rest leads to. -/
def BackupPath.place (b : BackupPath) (t : Disk FileData) : Except Errno Location :=
  match resolveDir t.fs (b.dir.start t.cwd) b.dir.parts with
  | .error e => .error e
  | .ok q => .ok (q ++ [b.name])

/-- `<name>.dracon-system-backup-<ts>`. -/
def backupBase (name : Name) (ts : Nat) : Name where
  text := name.text ++ ".dracon-system-backup-" ++ toString ts
  valid := by
    have h := name.valid
    have hdigits := slash_not_mem_toString ts
    simp_all

/-- `unique_backup_path` (links.rs:171), when the inspection of some candidates fails: one that
cannot be inspected is taken for free. -/
def uniqueBackupPathWith (probe : Nat → Bool) (fs : Fs FileData) (dir : Location) (base : Name) :
    Name :=
  let free := fun k => probe k || (fs.lookup (dir ++ [backupCandidate base k])).isNone
  (((List.range (fs.keys.length + 1)).find? free).map (backupCandidate base)).getD base

/-- `backup_path_for` (links.rs:147). -/
def backupPathFor (t : Disk FileData) (calls : LinkCalls) (link : String) : BackupPath :=
  let dir := parentOfPath (spelled link)
  let name := ((fileName (spelled link)).map Name.lossy).getD ⟨"link", by decide⟩
  let base := backupBase name calls.nanos
  match resolveDir t.fs (dir.start t.cwd) dir.parts with
  -- nothing is there
  | .error _ => { dir := dir, name := base }
  | .ok q => { dir := dir, name := uniqueBackupPathWith calls.probe t.fs q base }

/-! ## Applying one entry -/

/-- What the steps before `symlink(2)` come to. -/
inductive LinkPrepared where
  | finished (t : Disk FileData) (result : Except String Unit)
  | ready (t : Disk FileData) (backup : Option BackupPath)

/-- A force replace: the check, and the rename to the backup (links.rs:281-289). `q` is what the
link path names. -/
def moveAside (t : Disk FileData) (calls : LinkCalls) (link : String)
    (protectedPaths : List String) (q : Location) : LinkPrepared :=
  if calls.guardCheck then .finished t (.error calls.ioError)
  else match checkSafeToDeleteGuard t link protectedPaths with
  | .error e => .finished t (.error e)
  | .ok safeLink =>
    let backup := backupPathFor t calls link
    if calls.rename then .finished t (.error calls.ioError)
    else match backup.place t with
    | .error e => .finished t (.error e.message)
    | .ok dst => match t.renameAt (safeLink.location q) dst with
      | .error e => .finished t (.error e.message)
      | .ok t' => .ready t' (some backup)

/-- The `if let Some(meta)` of `apply_one_link` (links.rs:267-295). -/
def clearLinkPath (t : Disk FileData) (home : Option String) (calls : LinkCalls)
    (force : Bool) (protectedPaths : List String) (entry : LinkEntry) : LinkPrepared :=
  let link := expandTilde home entry.link
  match if calls.inspect then none else (t.lstat link).toOption with
  | none => .ready t none
  | some (q, .symlink _) =>
    if (evaluateLink t home calls.evaluate entry).inSync then .finished t (.ok ())
    else if calls.removeFile then .finished t (.error calls.ioError)
    else match t.unlinkAt q with
      | .error e => .finished t (.error e.message)
      | .ok t' => .ready t' none
  | some (q, _) =>
    if force then moveAside t calls link protectedPaths q else .finished t (.ok ())

/-- `fs::create_dir_all(parent)?` (links.rs:260), which may fail half way. -/
def createParent (t : Disk FileData) (calls : LinkCalls) (link : String) :
    Disk FileData × Except String Unit :=
  let parent := parentOfPath (spelled link)
  match calls.createDirs with
  | some k =>
    ((t.createDirAll { parent with parts := parent.parts.take k }).1, .error calls.ioError)
  | none => match t.createDirAll parent with
    | (t', .ok _) => (t', .ok ())
    | (t', .error e) => (t', .error e.message)

/-- `apply_one_link` up to `symlink(2)` (links.rs:254-295). -/
def prepareLink (t : Disk FileData) (home : Option String) (calls : LinkCalls) (force : Bool)
    (protectedPaths : List String) (entry : LinkEntry) : LinkPrepared :=
  if calls.statTarget || !pathExists t (expandTilde home entry.target) then .finished t (.ok ())
  else match createParent t calls (expandTilde home entry.link) with
  | (t', .error e) => .finished t' (.error e)
  | (t', .ok ()) => clearLinkPath t' home calls force protectedPaths entry

/-- `restore_after_failed_symlink` (links.rs:218): `rename(backup, link)`. -/
def restoreAfterFailedSymlink (t : Disk FileData) (backup : BackupPath) (link : String) :
    Except CallError (Disk FileData) :=
  match backup.place t with
  | .error e => .error (.walk e)
  | .ok src => match EntryPath.parse link with
    | none => .error .busy
    | some p => match t.parentOf p with
      | .error e => .error (.walk e)
      | .ok q =>
        if p.slash && !(entryAt t.fs src).any Entry.isDir then .error (.walk .notADirectory)
        else t.renameAt src (q ++ [p.last])

structure LinkRun where
  disk : Disk FileData
  result : Except String Unit
  created : Bool := false
  /-- The path at which the message of a failed restore says the original is. -/
  keptAt : Option BackupPath := none

/-- What follows a failed `symlink(2)` (links.rs:302-307). -/
def undoLink (t : Disk FileData) (calls : LinkCalls) (link : String)
    (backup : Option BackupPath) (error : String) : LinkRun :=
  match backup with
  | none => { disk := t, result := .error error }
  | some b =>
    if calls.restore then { disk := t, result := .error error, keptAt := some b }
    else match restoreAfterFailedSymlink t b link with
    | .ok t' => { disk := t', result := .error error }
    | .error _ => { disk := t, result := .error error, keptAt := some b }

/-- `symlink(2)` and what follows it (links.rs:297-313). -/
def createLink (t : Disk FileData) (calls : LinkCalls) (link target : String)
    (backup : Option BackupPath) : LinkRun :=
  if calls.symlink then undoLink t calls link backup calls.ioError
  else match t.symlinkAt (spelled target) link with
  | .error e => undoLink t calls link backup e.message
  | .ok t' => { disk := t', result := .ok (), created := true }

/-- `apply_one_link` (links.rs:249). -/
def applyOneLink (t : Disk FileData) (home : Option String) (calls : LinkCalls) (force : Bool)
    (protectedPaths : List String) (entry : LinkEntry) : LinkRun :=
  match prepareLink t home calls force protectedPaths entry with
  | .finished t' result => { disk := t', result := result }
  | .ready t' backup =>
    createLink t' calls (expandTilde home entry.link) (expandTilde home entry.target) backup

/-! ## The batch -/

/-- One turn of the loop: the disk it found, and what became of it. -/
structure LinkTurn where
  entry : LinkEntry
  calls : LinkCalls
  before : Disk FileData
  run : LinkRun

/-- The loop of `apply_link_policy` (links.rs:203-208); turn `i` meets `calls i`. -/
def applyEntries (home : Option String) (force : Bool) (protectedPaths : List String)
    (calls : Nat → LinkCalls) : Nat → Disk FileData → List LinkEntry →
      Disk FileData × List LinkTurn
  | _, t, [] => (t, [])
  | i, t, entry :: rest =>
    let run := applyOneLink t home (calls i) force protectedPaths entry
    let (last, turns) := applyEntries home force protectedPaths calls (i + 1) run.disk rest
    (last, { entry := entry, calls := calls i, before := t, run := run } :: turns)

/-- The message of a failed turn. -/
def LinkTurn.error? (turn : LinkTurn) : Option String :=
  match turn.run.result with
  | .error e => some (turn.entry.link ++ ": " ++ e)
  | .ok () => none

structure LinkBatch where
  disk : Disk FileData
  turns : List LinkTurn
  report : LinkReport

/-- `apply_link_policy` (links.rs:198). -/
def applyLinkPolicy (t : Disk FileData) (home : Option String) (force : Bool)
    (protectedPaths : List String) (calls : Nat → LinkCalls)
    (faults : LinkEntry → EvaluateFaults) (entries : List LinkEntry) : LinkBatch :=
  let (last, turns) := applyEntries home force protectedPaths calls 0 t entries
  { disk := last
    turns := turns
    report := { buildLinkReportWith last home faults entries [] with
      errors := turns.filterMap LinkTurn.error? } }

end DraconGuard
