import Mathlib.Algebra.GroupWithZero.Nat
import DraconGuard.Clean.Safety
import DraconGuard.Lib.Subtree
import DraconGuard.Lib.Text

/-!
# Moving a directory into the stash

`stash_move_inner` (stash.rs:176-286) and `copy_tree` (relocate.rs:95-131) over a file tree,
with a fault plan that says which of the fallible steps fail, and how far a failing removal
gets. The steps after the checks are three functions, one after another: `stashPreflight`,
`moveIntoEntry` (a rename, or copy, verify and remove), `publishManifest`.
-/

namespace DraconGuard

open FileTree

/-- `StashManifest` (stash.rs:23-39). -/
structure StashManifest where
  name : String
  origin : String
  movedAtUnix : Nat
  bytes : Nat
  files : Nat
  auto : Bool
deriving DecidableEq, Repr

/-- What a file holds: bytes, or `length` bytes of JSON text that reads as a manifest. -/
inductive FileData where
  | bytes (content : List UInt8)
  | manifest (m : StashManifest) (length : Nat)
deriving DecidableEq

def FileData.length : FileData → Nat
  | .bytes content => content.length
  | .manifest _ length => length

/-- `MANIFEST_NAME`. -/
def manifestName : Name := ⟨".stash.json", by decide⟩

/-- `read_manifest` (stash.rs:139). The manifest is published as a regular file. -/
def readManifest (fs : Fs FileData) (entryDir : Location) : Option StashManifest :=
  match fs.lookup (entryDir ++ [manifestName]) with
  | some (.file (.manifest m _)) => some m
  | _ => none

/-- Which steps fail. `ioError` is how the system words it. -/
structure MoveFaults where
  inspectOrigin : Bool := false
  inspectReserved : Bool := false
  canonicalizeRoot : Bool := false
  walkOrigin : Bool := false
  /-- Any reason, another device included. -/
  rename : Bool := false
  /-- Entries, by location in the tree, that cannot be copied. -/
  copyEntry : Location → Bool := fun _ => false
  walkEntry : Bool := false
  /-- The removal of a failed copy: `some` of the entries it got to. -/
  removeEntry : Option (List Location) := none
  /-- The removal of the origin: `some` of the entries it got to before it failed. -/
  removeOrigin : Option (List Location) := none
  publish : Bool := false
  moveBack : Bool := false
  ioError : String := ""

/-- What the clock says: seconds for the manifest, nanoseconds for the entry name. -/
structure StashClock where
  unix : Nat
  nanos : Nat

/-! ## Entry names -/

theorem slash_not_mem_toString (n : Nat) : '/' ∉ (toString n).toList := by
  rw [Text.toList_toString]
  intro hin
  have := Nat.isDigit_of_mem_toDigits (b := 10) (n := n) (by decide) (by decide) hin
  simp at this

/-- `<base>.<ts>`. -/
def entryBase (base : Name) (ts : Nat) : Name where
  text := base.text ++ "." ++ toString ts
  valid := by
    have h := base.valid
    have hdigits := slash_not_mem_toString ts
    simp_all

/-- `<base>-<n>`. -/
def backupName (base : Name) (n : Nat) : Name where
  text := base.text ++ "-" ++ toString n
  valid := by
    have h := base.valid
    have hdigits := slash_not_mem_toString n
    simp_all

/-- The candidates of `unique_backup_path` (links.rs:171), in order. -/
def backupCandidate (base : Name) : Nat → Name
  | 0 => base
  | n + 1 => backupName base (n + 1)

/-- `unique_backup_path` (links.rs:171): the first candidate under `dir` that is free. One more
than there are entries is enough to look at. -/
def uniqueBackupPath (fs : Fs FileData) (dir : Location) (base : Name) : Name :=
  let candidates := (List.range (fs.keys.length + 1)).map (backupCandidate base)
  (candidates.find? fun n => (fs.lookup (dir ++ [n])).isNone).getD base

/-- `entry_dir_for` (stash.rs:146). -/
def entryNameFor (fs : Fs FileData) (root origin : Location) (clock : StashClock) : Name :=
  let base := (origin.getLast?.map Name.lossy).getD ⟨"entry", by decide⟩
  uniqueBackupPath fs root (entryBase base clock.nanos)

/-! ## The checks -/

/-- `walk_stats_strict` (relocate.rs:70): regular files and their bytes. -/
def walkStats (fs : Fs FileData) (root : Location) : Nat × Nat :=
  let sizes := (walk fs root).filterMap fun i => match i.2 with
    | .file data => some data.length
    | _ => none
  (sizes.length, sizes.sum)

/-- What the checks settle. -/
structure Prepared where
  origin : Location
  root : Location
  entryName : Name
  files : Nat
  bytes : Nat

def Prepared.entry (p : Prepared) : Location := p.root ++ [p.entryName]

/-- `fs::create_dir_all(root)`. -/
def createRoot (t : Disk FileData) (root : String) : Fs FileData × Except Errno Location :=
  match Spelled.parse root with
  | none => (t.fs, .ok t.cwd)
  | some p => makeDirs t.fs (p.start t.cwd) p.parts

/-- Where the gate's answer points, `loc` being what the path as given names. -/
def CheckedPath.location (loc : Location) : CheckedPath → Location
  | .canonical q => q
  | .asGiven _ => loc

/-- The checks of `stash_move_inner`, up to the entry name (stash.rs:182-218). They change
nothing but the directories of the stash root. -/
def stashPreflight (t : Disk FileData) (faults : MoveFaults) (clock : StashClock)
    (origin root : String) (userProtected : List String) : Fs FileData × Except String Prepared :=
  if faults.inspectOrigin then
    (t.fs, .error ("cannot inspect " ++ origin ++ ": " ++ faults.ioError))
  else match t.lstat origin with
  | .error e => (t.fs, .error ("cannot inspect " ++ origin ++ ": " ++ e.message))
  | .ok (_, .symlink _) => (t.fs, .error ("refusing to stash symlink " ++ origin))
  | .ok (loc, .dir) =>
    match checkSafeToDeleteGuard t origin userProtected with
    | .error e => (t.fs, .error e)
    | .ok checked =>
      let canonOrigin := checked.location loc
      if faults.inspectReserved then (t.fs, .error faults.ioError)
      else if (t.fs.lookup (canonOrigin ++ [manifestName])).isSome then
        (t.fs, .error ("refusing to stash " ++ display canonOrigin ++ ": reserved metadata name " ++
          manifestName.text ++ " already exists; source untouched"))
      else
        match createRoot t root with
        | (fs, .error e) => (fs, .error e.message)
        | (fs, .ok _) =>
          if faults.canonicalizeRoot then (fs, .error faults.ioError)
          else match canonicalize fs t.cwd root with
          | .error e => (fs, .error e.message)
          | .ok canonRoot =>
            if canonRoot.isPrefixOf canonOrigin || canonOrigin.isPrefixOf canonRoot then
              (fs, .error "origin and stash root nest — refusing")
            else if faults.walkOrigin then (fs, .error faults.ioError)
            else
              let (files, bytes) := walkStats fs canonOrigin
              (fs, .ok
                { origin := canonOrigin, root := canonRoot, files := files, bytes := bytes,
                  entryName := entryNameFor fs canonRoot canonOrigin clock })
  | .ok _ => (t.fs, .error ("stash supports directories only: " ++ origin))

/-! ## The move -/

/-- The loop of `copy_tree`: special files are counted and left behind. -/
def copyEntries (faults : MoveFaults) (dst : Location) :
    List (Location × Entry FileData) → Nat → Fs FileData → Fs FileData × Except String Nat
  | [], skipped, fs => (fs, .ok skipped)
  | (rel, entry) :: rest, skipped, fs =>
    if faults.copyEntry rel then (fs, .error faults.ioError)
    else if entry = .special then copyEntries faults dst rest (skipped + 1) fs
    else copyEntries faults dst rest skipped (fs.insert (dst ++ rel) entry)

/-- `copy_tree` (relocate.rs:95-131). -/
def copyTree (faults : MoveFaults) (src dst : Location) (fs : Fs FileData) :
    Fs FileData × Except String Nat :=
  if faults.copyEntry [] then (fs, .error faults.ioError)
  else copyEntries faults dst ((walk fs src).filter (·.1 ≠ [])) 0 (fs.insert dst .dir)

/-- `fs::remove_dir_all(&canon_origin)?` after a verified copy (stash.rs:256). -/
def removeOriginal (faults : MoveFaults) (p : Prepared) (fs : Fs FileData) :
    Fs FileData × Except String Unit :=
  match removeDirAllAt p.origin faults.removeOrigin fs with
  | (fs, true) => (fs, .ok ())
  | (fs, false) => (fs, .error faults.ioError)

/-- The `match fs::rename(..)` of `stash_move_inner` (stash.rs:220-258). -/
def moveIntoEntry (faults : MoveFaults) (p : Prepared) (fs : Fs FileData) :
    Fs FileData × Except String Unit :=
  if !faults.rename then (FileTree.rename p.origin p.entry fs, .ok ())
  else
    let cleanUp := fun fs => (removeDirAllAt p.entry faults.removeEntry fs).1
    match copyTree faults p.origin p.entry fs with
    | (fs, .error e) => (cleanUp fs, .error e)
    | (fs, .ok _) =>
      if faults.walkEntry then
        (cleanUp fs, .error ("copy verification could not read the copied entry (" ++
          faults.ioError ++ ") — entry directory removed, origin untouched"))
      else if walkStats fs p.entry ≠ (p.files, p.bytes) then
        (cleanUp fs, .error "copy verification failed — origin untouched")
      else removeOriginal faults p fs

/-- Publishing the manifest, or moving the data back (stash.rs:260-285). `length` is the size of
the JSON text. -/
def publishManifest (faults : MoveFaults) (p : Prepared) (manifest : StashManifest)
    (length : Nat) (fs : Fs FileData) : Fs FileData × Except String StashManifest :=
  let target := p.entry ++ [manifestName]
  -- `persist_noclobber` replaces nothing
  if faults.publish || (fs.lookup target).isSome then
    if faults.moveBack then
      (fs, .error ("stash manifest write failed AND move-back failed: data is at " ++
        display p.entry ++ " with no manifest, origin " ++ display p.origin ++ " is gone"))
    else
      (FileTree.rename p.entry p.origin fs,
        .error ("stash manifest write failed — moved back to origin: " ++ faults.ioError))
  else (fs.insert target (.file (.manifest manifest length)), .ok manifest)

structure StashRun where
  fs : Fs FileData
  result : Except String StashManifest

/-- The steps of `stash_move_inner` after its checks (stash.rs:220-286). -/
def completeMove (faults : MoveFaults) (clock : StashClock) (jsonLength : StashManifest → Nat)
    (auto : Bool) (p : Prepared) (fs : Fs FileData) : StashRun :=
  match moveIntoEntry faults p fs with
  | (fs, .error e) => ⟨fs, .error e⟩
  | (fs, .ok ()) =>
    let manifest : StashManifest :=
      { name := p.entryName.lossy.text, origin := display p.origin, movedAtUnix := clock.unix,
        bytes := p.bytes, files := p.files, auto := auto }
    let (fs, result) := publishManifest faults p manifest (jsonLength manifest) fs
    ⟨fs, result⟩

/-- `stash_move_inner` (stash.rs:176-286). -/
def stashMoveInner (t : Disk FileData) (faults : MoveFaults) (clock : StashClock)
    (jsonLength : StashManifest → Nat) (origin root : String) (userProtected : List String)
    (auto : Bool) : StashRun :=
  match stashPreflight t faults clock origin root userProtected with
  | (fs, .error e) => ⟨fs, .error e⟩
  | (fs, .ok p) => completeMove faults clock jsonLength auto p fs

/-- `stash_move` (stash.rs:162). -/
def stashMove (t : Disk FileData) (faults : MoveFaults) (clock : StashClock)
    (jsonLength : StashManifest → Nat) (origin root : String) (userProtected : List String) :
    StashRun :=
  stashMoveInner t faults clock jsonLength origin root userProtected false

end DraconGuard
