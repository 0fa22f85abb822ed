import DraconGuard.Clean.Stash

/-!
# Restoring a stash entry

`resolve_entry_dir` (stash.rs:440) and `stash_restore` (stash.rs:506). The manifest is read back,
the origin's parent is made, and the entry is renamed home, or copied, verified and removed.
-/

namespace DraconGuard

open FileTree

/-- Which steps of `stash_restore` fail. -/
structure RestoreFaults where
  readManifest : Bool := false
  makeParent : Bool := false
  /-- Any reason, another device included. -/
  rename : Bool := false
  /-- Entries, by location in the tree, that cannot be copied. -/
  copyEntry : Location → Bool := fun _ => false
  /-- The removal of a failed copy: `some` of the entries it got to. -/
  cleanup : Option (List Location) := none
  removeManifest : Bool := false
  walkOrigin : Bool := false
  /-- The removal of the entry: `some` of the entries it got to before it failed. -/
  removeEntry : Option (List Location) := none
  ioError : String := ""

/-- What the copier is told. -/
def RestoreFaults.copying (faults : RestoreFaults) : MoveFaults :=
  { copyEntry := faults.copyEntry, ioError := faults.ioError }

/-- `resolve_entry_dir` (stash.rs:440). -/
def resolveEntryDir (fs : Fs FileData) (cwd : Location) (root name : String) :
    Except String Location :=
  let invalid := Except.error ("invalid stash entry name: " ++ name)
  if name = "." ∨ name = ".." ∨ '\\' ∈ name.toList ∨ '\x00' ∈ name.toList then invalid
  else match Name.ofChars? name.toList with
  | none => invalid
  | some n =>
    match canonicalize fs cwd root with
    | .error e => .error ("cannot canonicalize stash root " ++ root ++ ": " ++ e.message)
    | .ok canonRoot =>
      match fs.lookup (canonRoot ++ [n]) with
      | some .dir => .ok (canonRoot ++ [n])
      | some (.symlink _) => .error ("refusing to operate on symlink entry " ++ name)
      | _ => .error ("no such stash entry: " ++ name)

/-- A path as `Path` takes it apart: where it starts, and its components without the `.`s. The
empty path names nothing. -/
def pathParts (cwd : Location) (text : String) : Location × List Name :=
  match Spelled.parse text with
  | none => (cwd, [])
  | some p => (p.start cwd, p.parts.filter (· ≠ Name.current))

/-- A component below a directory. -/
def childAt (parent : Location) (n : Name) : Location :=
  if n.text = ".." then parent.dropLast else parent ++ [n]

/-- `fs::remove_file` of the manifest in a restored tree, whose failure is passed over. -/
def dropManifest (faults : RestoreFaults) (origin : Location) (fs : Fs FileData) : Fs FileData :=
  if faults.removeManifest then fs else fs.erase (origin ++ [manifestName])

/-- The `match fs::rename(..)` of `stash_restore` (stash.rs:517-541). -/
def moveHome (faults : RestoreFaults) (m : StashManifest) (entry origin : Location)
    (fs : Fs FileData) : Fs FileData × Except String String :=
  if !(faults.rename || (entryAt fs origin).isSome || entry.isPrefixOf origin) then
    (dropManifest faults origin (FileTree.rename entry origin fs), .ok m.origin)
  else
    let cleanUp := fun fs => (removeDirAllAt origin faults.cleanup fs).1
    match copyTree faults.copying entry origin fs with
    | (fs, .error e) => (cleanUp fs, .error e)
    | (fs, .ok _) =>
      -- a copy into the entry itself is walked into, until a path is too long
      if entry.isPrefixOf origin then (cleanUp fs, .error faults.ioError)
      else
      let fs := dropManifest faults origin fs
      if faults.walkOrigin then (fs, .error faults.ioError)
      else if walkStats fs origin ≠ (m.files, m.bytes) then
        (cleanUp fs, .error "restore verification failed — stash entry kept")
      else match removeDirAllAt entry faults.removeEntry fs with
        | (fs, true) => (fs, .ok m.origin)
        | (fs, false) => (fs, .error faults.ioError)

/-- `stash_restore` (stash.rs:506): the path restored to. -/
def stashRestore (fs : Fs FileData) (cwd : Location) (faults : RestoreFaults)
    (root name : String) : Fs FileData × Except String String :=
  match resolveEntryDir fs cwd root name with
  | .error e => (fs, .error e)
  | .ok entry =>
    match if faults.readManifest then none else readManifest fs entry with
    | none => (fs, .error ("entry " ++ name ++ " has no manifest — refusing blind restore"))
    | some m =>
      match lstat fs cwd m.origin with
      | .ok _ => (fs, .error ("origin " ++ m.origin ++ " already exists — refusing"))
      | .error _ =>
        let (start, parts) := pathParts cwd m.origin
        match makeDirs fs start parts.dropLast with
        | (fs, .error e) => (fs, .error e.message)
        | (fs, .ok _) =>
          if faults.makeParent then (fs, .error faults.ioError)
          else match resolveDir fs start parts.dropLast with
          -- the whole way is one walk
          | .error e => (fs, .error e.message)
          | .ok parent =>
            moveHome faults m entry (parts.getLast?.elim parent (childAt parent)) fs

end DraconGuard
