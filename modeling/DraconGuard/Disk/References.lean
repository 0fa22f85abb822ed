import Mathlib.Data.List.Dedup
import Mathlib.Data.List.Sort
import DraconGuard.Lib.FileTree
import DraconGuard.Lib.Text

/-!
# Who is using a path

The two readings of `/proc` the disk cleaner rests on: the git processes of
`live_git_owners` (git_temp.rs:243), which refuse a scratch file of their repository, and the
reference index of `ProcSnapshot::read` (disk_refs.rs:221), which refuses any path a process
holds. They look at different things: an owner need not hold the file.

Paths here are component lists as they are written; only `FileTree` follows links.
-/

namespace DraconGuard

open FileTree (Name Location render)

/-- What can be read of one `/proc/<pid>`: links as `readlink` gives them, of which only those to
an absolute path count. -/
structure ProcDir where
  pid : Nat
  comm : Option String := none
  exe : Option Location := none
  cwd : Option Location := none
  cmdline : Option (List String) := none
  /-- Descriptor numbers and what they point at. -/
  fds : Option (List (Nat × Location)) := none
deriving DecidableEq

/-- One reading of `/proc`, `none` when it cannot be listed. -/
abbrev ProcScan := Option (List ProcDir)

/-! ## Live git processes -/

/-- `GitOwner` (git_temp.rs:175). -/
structure GitOwner where
  pid : Nat
  name : String
  cwd : Option Location
  writesPacks : Bool
deriving DecidableEq

/-- The text after the last `/`. -/
def fileNameText (text : String) : List Char :=
  (text.toList.reverse.takeWhile (· ≠ '/')).reverse

/-- `is_git_process_name` (git_temp.rs:185). -/
def isGitProcessName (name : String) : Bool :=
  let base := fileNameText name
  base == "git".toList || "git-".toList.isPrefixOf base

/-- `PACK_WRITING_SUBCOMMANDS` (git_temp.rs:202). -/
def packWritingSubcommands : List String :=
  ["gc", "repack", "pack-objects", "index-pack", "prune", "unpack-objects"]

/-- `argv_writes_packs` (git_temp.rs:217). -/
def argvWritesPacks (argv : List String) : Bool :=
  (argv.any fun a => packWritingSubcommands.any fun sub =>
    a == sub || ('/' :: sub.toList).isSuffixOf a.toList) ||
  match argv.head? with
  | none => false
  | some a =>
    let base := fileNameText a
    "git-remote-".toList.isPrefixOf base || base == "git-upload-pack".toList ||
      base == "git-receive-pack".toList

/-- `live_git_owners` (git_temp.rs:243). -/
def liveGitOwners (scan : ProcScan) : List GitOwner :=
  (scan.getD []).filterMap fun entry =>
    match entry.comm with
    | none => none
    | some comm =>
      let name := String.ofList (Text.trim comm)
      if isGitProcessName name then
        some { pid := entry.pid, name := name, cwd := entry.cwd,
               writesPacks := argvWritesPacks (entry.cmdline.getD []) }
      else none

/-- `git_owner_for` (git_temp.rs:286): the first pack-writing git working in `repo`. -/
def gitOwnerFor (owners : List GitOwner) (repo : Location) : Option GitOwner :=
  owners.find? fun owner => owner.writesPacks && owner.cwd.any fun cwd => repo.isPrefixOf cwd

def gitDirName : Name := ⟨".git", by decide⟩

/-- `repo_root_for_git_path` (git_temp.rs:304), on absolute paths: what stands before the last
`.git`. -/
def repoRootForGitPath (path : Location) : Option Location :=
  match path.reverse.dropWhile (· ≠ gitDirName) with
  | [] => none
  | _ :: before => some before.reverse

/-! ## References to a path -/

/-- `ProcessRef` (disk_refs.rs:22). -/
structure ProcessRef where
  pid : Nat
  exe : Option Location
  cwd : Option Location
  fds : List Nat
deriving DecidableEq

/-- `ReferenceCapture` (disk_refs.rs:75), its rows in index order. -/
structure ReferenceCapture where
  refs : List ProcessRef := []
  scanFailed : Bool := false
deriving DecidableEq

/-- `ProcSnapshot` (disk_refs.rs:205): rows filed under the path they refer to. -/
structure ProcSnapshot where
  refs : List (Location × ProcessRef) := []
  scanFailed : Bool := false

/-- `strip_deleted` (disk_refs.rs:330). What is left after a suffix is the text as displayed. -/
def stripDeleted (path : Location) : Location :=
  match path.reverse with
  | [] => path
  | last :: above =>
    match Text.stripSuffix last.lossy.text.toList " (deleted)".toList with
    | none => path
    | some plain => FileTree.displayed above.reverse ++ (Name.ofChars? plain).toList

/-- The rows one process contributes: its executable, its working directory and each of its
descriptors. -/
def procRefRows (entry : ProcDir) : List (Location × ProcessRef) :=
  let row := fun fds => ProcessRef.mk entry.pid entry.exe entry.cwd fds
  (entry.exe.toList.map fun exe => (stripDeleted exe, row [])) ++
    (entry.cwd.toList.map fun cwd => (stripDeleted cwd, row [])) ++
    ((entry.fds.getD []).map fun fd => (stripDeleted fd.2, row [fd.1]))

/-- `ProcSnapshot::read` (disk_refs.rs:221). -/
def ProcSnapshot.read (scan : ProcScan) : ProcSnapshot :=
  match scan with
  | none => { scanFailed := true }
  | some entries => { refs := entries.flatMap procRefRows }

/-- `ProcSnapshot::capture` (disk_refs.rs:294): the rows at the target and inside it. -/
def ProcSnapshot.capture (snapshot : ProcSnapshot) (target : Location) : ReferenceCapture :=
  if snapshot.scanFailed then { scanFailed := true }
  else { refs := (snapshot.refs.filter fun row => target.isPrefixOf row.1).map (·.2) }

/-- `ProcessRef::blocks_deletion` (disk_refs.rs:38). -/
def ProcessRef.blocksDeletion (r : ProcessRef) (target : Location) : Bool :=
  !r.fds.isEmpty || r.exe.any (fun exe => target.isPrefixOf exe) ||
    r.cwd.any fun cwd => target.isPrefixOf cwd

def joinTexts (sep : String) (texts : List String) : String :=
  match texts with
  | [] => ""
  | t :: rest => rest.foldl (fun acc u => acc ++ sep ++ u) t

/-- `ProcessRef::describe` (disk_refs.rs:57). -/
def ProcessRef.describe (r : ProcessRef) : String :=
  let parts := (r.exe.toList.map fun exe => "exe=" ++ render exe) ++
    (r.cwd.toList.map fun cwd => "cwd=" ++ render cwd) ++
    (if r.fds.isEmpty then []
     else ["fds=[" ++ joinTexts "," (r.fds.map toString) ++ "]"])
  if parts.isEmpty then "pid " ++ toString r.pid ++ " (no refs readable)"
  else "pid " ++ toString r.pid ++ " (" ++ joinTexts ", " parts ++ ")"

/-- `merged_by_pid` (disk_refs.rs:167): one row a process, ascending. -/
def mergedByPid (refs : List ProcessRef) : List ProcessRef :=
  ((refs.map (·.pid)).dedup.insertionSort (· ≤ ·)).map fun pid =>
    let rows := refs.filter fun r => r.pid = pid
    { pid := pid, exe := rows.findSome? (·.exe), cwd := rows.findSome? (·.cwd),
      fds := ((rows.flatMap (·.fds)).dedup).insertionSort (· ≤ ·) }

/-- Rows that agree are merged into what they agree on. -/
theorem findSome?_of_const {α β : Type} {f : α → Option β} {l : List α} {a : α} {b : Option β}
    (ha : a ∈ l) (h : ∀ x ∈ l, f x = b) : l.findSome? f = b := by
  induction l with
  | nil => cases ha
  | cons x rest ih =>
    rw [List.findSome?_cons, h x (List.mem_cons_self ..)]
    cases b with
    | some b => rfl
    | none => exact List.findSome?_eq_none_iff.mpr fun y hy => h y (List.mem_cons_of_mem x hy)

/-- `ReferenceCapture::blocking_reason` (disk_refs.rs:85). -/
def ReferenceCapture.blockingReason (capture : ReferenceCapture) (target : Location) :
    Option String :=
  if capture.scanFailed then some "/proc unreadable — usage cannot be verified"
  else
    let blocking := (mergedByPid capture.refs).filter (·.blocksDeletion target)
    if blocking.isEmpty then none
    else
      let shown := 4
      let text := joinTexts "; " ((blocking.take shown).map ProcessRef.describe)
      if shown < blocking.length then
        some (text ++ "; … and " ++ toString (blocking.length - shown) ++ " more process(es)")
      else some text

end DraconGuard
