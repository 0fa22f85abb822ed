import DraconGuard.Disk.TmpCruft

/-!
# The walk for git scratch files

`src/src/git_temp.rs:70-169` finds them, and two roads delete them: the clean command
(`src/src/main.rs:12648-12670`) and the disk sweep, whose audit classifies each file first
(`src/src/disk.rs:585-640`) and whose delete pass is `applyWithFloors`.

| here | there |
|---|---|
| `isGitTempName` | `is_git_temp_name` (git_temp.rs:66) |
| `findGitTempFiles` | `find_git_temp_files`, `collect_git_temp_files` (lines 81-119) |
| `scanGitDir` | `scan_git_dir` (lines 122-144) |
| `scanFlatDir` | `scan_flat_dir` (lines 146-169) |
| `gitAgeHours` | `age_hours` (lines 172-176) |
| `auditGitVerdict`, `auditGitFinding`, `auditGit` | `audit`, class 1 (disk.rs:585-640) |

A path is its components as `Path::components` gives them, except that a relative one starts with
`.` here. `readDir` follows every link on the way to the directory; the entries it lists are not
followed. A directory that cannot be listed has no entries.
-/

namespace DraconGuard

open FileTree (Name Location Mount Fs Entry Errno resolve maxLinks walk)

/-- What `metadata` says of a file. -/
structure FileMeta where
  len : Nat
  modified : Option SystemTime
deriving DecidableEq

/-- What the walk finds on the machine. -/
structure GitHost extends Mount FileMeta where
  now : SystemTime

/-- The entries of a directory. -/
def childrenOf {δ : Type} (fs : Fs δ) (dir : Location) : List (Name × Entry δ) :=
  (walk fs dir).filterMap fun item => match item.1 with
    | [n] => some (n, item.2)
    | _ => none

namespace GitHost

variable (host : GitHost)

/-- Where the kernel starts from. -/
def start (p : Location) : Location := if p.head? = some Name.current then host.cwd else []

/-- Where a path leads. -/
def resolved (p : Location) : Except Errno Location := resolve host.fs maxLinks (host.start p) p

/-- `fs::read_dir`. Nothing lies below what is no directory. -/
def readDir (p : Location) : List (Name × Entry FileMeta) :=
  match host.resolved p with
  | .ok q => childrenOf host.fs q
  | .error _ => []

end GitHost

/-! ## The walk -/

/-- `TMP_PREFIXES` (git_temp.rs:28). -/
def gitTempPrefixes : List String := ["tmp_pack_", "tmp_idx_", "tmp_obj_"]

def isGitTempName (n : Name) : Bool :=
  gitTempPrefixes.any fun p =>
    p.toList.isPrefixOf n.text.toList && p.toList.length < n.text.toList.length

/-- Whole hours, zero for a time ahead. -/
def gitAgeHours (modified : Option SystemTime) (now : SystemTime) : Option Nat :=
  modified.map fun m => (now.nanos - m.nanos).toNat / 10 ^ 9 / 3600

private theorem objects_valid : "objects".toList ≠ [] ∧ '/' ∉ "objects".toList := by decide
private theorem pack_valid : "pack".toList ≠ [] ∧ '/' ∉ "pack".toList := by decide

def objectsName : Name := ⟨"objects", objects_valid⟩
def packName : Name := ⟨"pack", pack_valid⟩

/-- `char::is_ascii_hexdigit`. -/
def isAsciiHexdigit (c : Char) : Bool :=
  c.isDigit || ('a' ≤ c && c ≤ 'f') || ('A' ≤ c && c ≤ 'F')

def isFanoutName (n : Name) : Bool :=
  n.text.toList.length = 2 && n.text.toList.all isAsciiHexdigit

/-- A name the walk takes for a scratch file. -/
def takesName (n : Name) : Bool := n.isUtf8 && isGitTempName n

def scratchFile (host : GitHost) (path : Location) (data : FileMeta) : GitTempFile :=
  { path := path, bytes := data.len, ageHours := gitAgeHours data.modified host.now, os := {} }

def scanFlatDir (host : GitHost) (dir : Location) : List GitTempFile :=
  (host.readDir dir).filterMap fun entry =>
    if takesName entry.1 then
      match entry.2 with
      | .file data => some (scratchFile host (dir ++ [entry.1]) data)
      | .dir | .symlink _ | .special => none
    else none

def scanGitDir (host : GitHost) (gitDir : Location) : List GitTempFile :=
  scanFlatDir host (gitDir ++ [objectsName, packName]) ++
    (host.readDir (gitDir ++ [objectsName])).flatMap fun entry =>
      if entry.2.isDir && entry.1.isUtf8 && isFanoutName entry.1 then
        scanFlatDir host (gitDir ++ [objectsName, entry.1])
      else []

/-- The first argument is how much deeper the walk may go. -/
def collectGitTempFiles (host : GitHost) : Nat → Location → List GitTempFile
  | deeper, dir =>
    -- a link is no directory
    let dirs := (host.readDir dir).filter fun entry => entry.2.isDir && entry.1.isUtf8
    let found := (dirs.filter fun entry => entry.1 = gitDirName).flatMap fun entry =>
      scanGitDir host (dir ++ [entry.1])
    let subdirs := dirs.filter fun entry => entry.1 ≠ gitDirName
    match deeper with
    | 0 => found
    | deeper + 1 => found ++ subdirs.flatMap fun entry =>
        collectGitTempFiles host deeper (dir ++ [entry.1])

def findGitTempFiles (host : GitHost) (root : Location) (maxDepth : Nat) : List GitTempFile :=
  collectGitTempFiles host maxDepth root

/-! ## Two roads to a deletion -/

/-- The files under all roots. -/
def gitTempCandidates (host : GitHost) (roots : List Location) : List GitTempFile :=
  roots.flatMap fun root => findGitTempFiles host root 4

/-- The paths the clean command deletes, given which of them can be unlinked. A path found twice
is there twice. -/
def cleanGitTemp (host : GitHost) (roots : List Location) (scan : ProcScan) (minAgeHours : Nat)
    (unlinks : Location → Bool) : List Location :=
  let candidates := (gitTempCandidates host roots).map fun c =>
    { c with os := { gitPlace := (host.resolved c.path).toOption, gitUnlinks := unlinks c.path } }
  ((cleanGitTempFiles candidates minAgeHours (ownerOf (liveGitOwners scan))).cleaned).map (·.path)

/-- The audit's verdict on a candidate, and the reason it gives. -/
def auditGitVerdict (snapshot : ProcSnapshot) (owners : List GitOwner) (minAgeHours : Nat)
    (c : GitTempFile) : Disposition × String :=
  match (snapshot.capture c.path).blockingReason c.path with
  | some reason => (.skip, "in use — " ++ reason)
  | none => match ownerOf owners c.path with
    | some owner => (.skip, "live " ++ owner ++ " is packing this repository")
    | none =>
      if !c.isExpired minAgeHours then
        (.skip, "younger than git_temp_min_age_hours=" ++ toString minAgeHours ++
          "h (may be an in-flight pack)")
      else
        (.apply, "orphaned scratch, older than " ++ toString minAgeHours ++
          "h, no owning git process")

def auditGitFinding (snapshot : ProcSnapshot) (owners : List GitOwner) (minAgeHours : Nat)
    (c : GitTempFile) : Finding :=
  let verdict := auditGitVerdict snapshot owners minAgeHours c
  { cls := .gitTemp, path := c.path, bytes := c.bytes, disposition := verdict.1,
    reason := verdict.2, references := snapshot.capture c.path }

/-- The git class of the audit, where something is to be freed. -/
def auditGit (host : GitHost) (roots : List Location) (scan : ProcScan) (minAgeHours : Nat) :
    List Finding :=
  (gitTempCandidates host roots).map
    (auditGitFinding (ProcSnapshot.read scan) (liveGitOwners scan) minAgeHours)

/-- The audit and the delete pass on one process table, with what the system answers about each
path when the pass comes to it. -/
def sweepGitTemp (host : GitHost) (roots : List Location) (scan : ProcScan) (minAgeHours : Nat)
    (answers : Location → OsAnswers) : ApplyRun :=
  let report := (auditGit host roots scan minAgeHours).map fun f =>
    { finding := f, os := answers f.path : Seen }
  applyWithFloors report scan scan minAgeHours

end DraconGuard
