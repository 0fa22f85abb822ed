import DraconGuard.Clean.Links
import DraconGuard.Disk.Apply
import DraconGuard.Disk.NixSwap
import DraconGuard.Lib.PathParts

/-!
# Swap in the disk audit

The swap part of `audit` (src/disk.rs:815-875) with `classify_swapfile`, `check_swap_health` and
what they call (src/space_report.rs:101-223, 423-652). Two reports are merged: swapfiles that are
not in `/proc/swaps`, and swap that the configuration does not name.

| here | there |
|---|---|
| `procSwaps`, `swapColumn` | the kernel writes it, the first column is read |
| `activeSwapTable`, `underPrefix`, `checkActiveSwapPlacement` | space_report.rs:101-223 |
| `checkSwapReferences`, `evaluateSwapHealth`, `checkSwapHealth` | space_report.rs:498-636 |
| `classifySwapfile` | space_report.rs:642 |
| `deadSwapfileFinding`, `wrongSwapFinding`, `unreferencedSwapfileFinding` | disk.rs:1000-1060 |

**The kernel writes a blank in a path as `\040`, and the reader leaves it so**: the path that is
compared with the candidates is the one that is written.
-/

namespace DraconGuard

open FileTree Text

/-! ## Paths -/

/-- The segments of a path without those that name nothing at its end. -/
def dropTrailing (segments : List (List Char)) : List (List Char) :=
  segments.rdropWhile fun s => s = [] || s = ['.']

/-- `Path::parent` and `Path::file_name` of an absolute path, as texts. -/
def parentAndName (text : List Char) : Option (List Char × List Char) :=
  match text with
  | '/' :: rest =>
    let segments := dropTrailing (rest.splitOn '/')
    match segments.getLast? with
    | none => none
    | some name =>
      if name = ['.', '.'] then none
      else some ('/' :: List.intercalate ['/'] (dropTrailing segments.dropLast), name)
  | _ => none

/-- `under_prefix` (space_report.rs:166). A relative prefix has no parent that an absolute path
could have. -/
def underPrefix (path : String) (pre : String) : Bool :=
  if pre.isEmpty then false
  else
    let trimmed := pre.toList.rdropWhile (· = '/')
    if trimmed.isEmpty then true
    else if path.toList = trimmed then true
    else if (trimmed ++ ['/']).isPrefixOf path.toList then true
    else if !"/dev/".toList.isPrefixOf path.toList then false
    else match parentAndName trimmed, parentAndName path.toList with
      | some (prefixParent, prefixName), some (pathParent, pathName) =>
        prefixParent = pathParent &&
          (stripPrefix pathName prefixName).any fun rest => !rest.isEmpty && rest.all Char.isDigit
      | _, _ => false

/-! ## `/proc/swaps` -/

/-- An active swap device or file, and what the kernel writes behind its path: a blank first, all
on one line. -/
structure ActiveSwap where
  path : String
  columns : List Char
  apart : ∃ c ∈ columns.head?, isWhitespace c = true
  oneLine : ∀ c ∈ columns, c ≠ '\n' ∧ c ≠ '\r'

/-- The kernel's octal escapes. -/
def octalEscape (c : Char) : List Char :=
  if c = ' ' then "\\040".toList
  else if c = '\t' then "\\011".toList
  else if c = '\n' then "\\012".toList
  else if c = '\\' then "\\134".toList
  else [c]

def escapedPath (path : String) : List Char := path.toList.flatMap octalEscape

def ActiveSwap.line (s : ActiveSwap) : List Char := escapedPath s.path ++ s.columns

def swapsHeader : List Char := "Filename\t\t\t\tType\t\tSize\t\tUsed\t\tPriority".toList

/-- What `/proc/swaps` holds. -/
def procSwaps (active : List ActiveSwap) : String :=
  String.ofList (((swapsHeader :: active.map ActiveSwap.line).map (· ++ ['\n'])).flatten)

/-- `SwapEntry` (space_report.rs:86). -/
structure SwapEntry where
  path : String
  sizeKib : Nat
deriving DecidableEq

/-- One line of the table (space_report.rs:106-116). -/
def swapEntry (line : List Char) : Option SwapEntry :=
  match splitWhitespace line with
  | [] => none
  | path :: columns =>
    some { path := String.ofList path, sizeKib := (columns[1]?.bind parseU64).getD 0 }

/-- `active_swap_table` (space_report.rs:101). -/
def activeSwapTable (swapsContents : String) : List SwapEntry :=
  ((Text.lines swapsContents).drop 1).filterMap swapEntry

/-- `active_swap_paths` (space_report.rs:123). -/
def activeSwapPaths (swapsContents : String) : List String :=
  (activeSwapTable swapsContents).map SwapEntry.path

/-- `WrongSwap` (space_report.rs:137). -/
structure WrongSwap where
  path : String
  bytes : Nat

/-- `u64::saturating_mul(1024)`. -/
def kibBytes (sizeKib : Nat) : Nat := min (sizeKib * 1024) (2 ^ 64 - 1)

/-- `check_active_swap_placement` (space_report.rs:210). -/
def checkActiveSwapPlacement (active : List SwapEntry) (expected : List String) :
    List WrongSwap :=
  (active.filter fun entry => !expected.any fun p => underPrefix entry.path p).map fun entry =>
    { path := entry.path, bytes := kibBytes entry.sizeKib }

/-! ## References -/

/-- `UnreferencedSwap` (space_report.rs:481). -/
structure UnreferencedSwap where
  path : String
  bytes : Nat
  isActive : Bool

/-- `check_swap_references` (space_report.rs:498). -/
def checkSwapReferences (onDisk : List (String × Nat)) (configDevices active : List String) :
    List UnreferencedSwap :=
  (onDisk.filter fun (path, _) =>
    !underPrefix path "/dev/" && !configDevices.any fun d => samePath d path).map
      fun (path, bytes) =>
        { path := path, bytes := bytes, isActive := active.any fun a => samePath a path }

/-- `SwapCheckOutcome` (space_report.rs:522). -/
structure SwapCheckOutcome where
  probeOk : Bool := false
  wrong : List WrongSwap := []
  unreferenced : List UnreferencedSwap := []
  configKnown : Bool := false

/-- What `metadata` says of a path. -/
structure SwapStat where
  isDir : Bool
  len : Nat

/-- The disk universe of the reference check (space_report.rs:574-594). -/
def onDiskSwap (metadata : String → Option SwapStat) (candidates : List String)
    (table : List SwapEntry) : List (String × Nat) :=
  let named := candidates.foldl (fun onDisk candidate =>
    match metadata candidate with
    | some stat =>
      if !stat.isDir && !onDisk.any fun (p, _) => samePath p candidate then
        onDisk ++ [(candidate, stat.len)]
      else onDisk
    | none => onDisk) []
  table.foldl (fun onDisk entry =>
    if !underPrefix entry.path "/dev/" && !onDisk.any fun (p, _) => samePath p entry.path then
      onDisk ++ [(entry.path, ((metadata entry.path).map SwapStat.len).getD (kibBytes entry.sizeKib))]
    else onDisk) named

section
variable (alphanumeric : Char → Bool)

/-- `evaluate_swap_health` (space_report.rs:607); nothing when the configuration's parser
panics. -/
def evaluateSwapHealth (swapsContents configText : Option String) (expectedPrefixes : List String)
    (onDisk : List (String × Nat)) : Option SwapCheckOutcome :=
  match swapsContents with
  | none => some {}
  | some swaps =>
    let table := activeSwapTable swaps
    let wrong := checkActiveSwapPlacement table expectedPrefixes
    match configText with
    | none => some { probeOk := true, wrong := wrong }
    | some config =>
      if !hasSwapDevicesBlock alphanumeric config.toList then
        some { probeOk := true, wrong := wrong }
      else (nixosSwapDevices alphanumeric config.toList).map fun devices =>
        { probeOk := true, wrong := wrong, configKnown := true,
          unreferenced := checkSwapReferences onDisk devices (table.map SwapEntry.path) }

/-- `check_swap_health` (space_report.rs:564). -/
def checkSwapHealth (swaps config : Option String) (metadata : String → Option SwapStat)
    (expectedPrefixes candidates : List String) : Option SwapCheckOutcome :=
  let table := (swaps.map activeSwapTable).getD []
  evaluateSwapHealth alphanumeric swaps config expectedPrefixes
    (onDiskSwap metadata candidates table)

/-! ## The audit -/

/-- `DeadSwapfile` (space_report.rs:29). -/
structure DeadSwapfile where
  path : String
  bytes : Nat
  needsRoot : Bool

/-- `DeadSwapfile::removal_command` (space_report.rs:39). -/
def DeadSwapfile.removalCommand (dead : DeadSwapfile) : String :=
  if dead.needsRoot then "sudo rm -f " ++ dead.path else "rm -f " ++ dead.path

/-- `classify_swapfile` (space_report.rs:642). -/
def classifySwapfile (writable : Bool) (path : String) (bytes : Nat) (active : List String) :
    Option DeadSwapfile :=
  if active.any fun a => samePath a path then none
  else some { path := path, bytes := bytes, needsRoot := !writable }

/-- A `Finding` (disk.rs:92) about a path of the configuration or of `/proc/swaps`. -/
structure SwapFinding where
  path : String
  bytes : Nat
  disposition : Disposition := .report
  reason : String
  humanCommand : Option String := none

/-- `dead_swapfile_finding` (disk.rs:1048). -/
def deadSwapfileFinding (dead : DeadSwapfile) : SwapFinding where
  path := dead.path
  bytes := dead.bytes
  reason := "inactive swapfile (not in /proc/swaps): deleting it is a privileged decision, never " ++
    "automatic"
  humanCommand := some dead.removalCommand

/-- `wrong_swap_finding` (disk.rs:1000). -/
def wrongSwapFinding (wrong : WrongSwap) (expected : List String) : SwapFinding where
  path := wrong.path
  bytes := wrong.bytes
  reason := "ACTIVE swap on an unexpected device (expected under: " ++ joinTexts ", " expected ++
    "); fix the placement or extend expected_swap_prefixes, never delete it blind"

/-- `unreferenced_swapfile_finding` (disk.rs:1016). -/
def unreferencedSwapfileFinding (writable : Bool) (found : UnreferencedSwap) (config : String) :
    SwapFinding :=
  if found.isActive then
    { path := found.path
      bytes := found.bytes
      reason := "ACTIVE swap with no NixOS swapDevices entry in " ++ config ++
        ": a rebuild/reboot may lose it — add a device entry, never delete it while active" }
  else
    { path := found.path
      bytes := found.bytes
      reason := "not referenced by any NixOS swapDevices entry in " ++ config ++
        ": stale or unmanaged, delete only by explicit approval"
      humanCommand :=
        some (if writable then "rm -f " ++ found.path else "sudo rm -f " ++ found.path) }

/-- `split_roots` (disk.rs:978). -/
def splitRoots (home : Option String) (raw : String) : List String :=
  (raw.toList.splitOn ',').filterMap fun s =>
    let s := trim (String.ofList s)
    if s.isEmpty then none else some (expandTilde home (String.ofList s))

/-- `split_prefixes` (disk.rs:988). -/
def splitPrefixes (raw : String) : List String :=
  ((raw.toList.splitOn ',').map fun s => trim (String.ofList s)).filterMap fun s =>
    if s.isEmpty then none else some (String.ofList s)

/-- What the audit reads about swap: the active swap, whether each of the two reads of
`/proc/swaps` fails, the configuration as it is read for the check and for the note, and the
files. -/
structure SwapWorld where
  home : Option String := none
  active : List ActiveSwap := []
  swapsFails : Bool := false
  swapsFailsAgain : Bool := false
  config : Option String := none
  configReads : Bool := false
  metadata : String → Option SwapStat
  metadataAgain : String → Option SwapStat
  writable : String → Bool := fun _ => false

/-- The options about swap. -/
structure SwapOptions where
  deadSwapfileCandidates : String
  expectedSwapPrefixes : String
  nixosSwapConfig : String

/-- The swapfiles reported as dead (disk.rs:815-837). -/
def deadSwapfiles (world : SwapWorld) (options : SwapOptions) : List DeadSwapfile :=
  let active := activeSwapPaths (if world.swapsFails then "" else procSwaps world.active)
  (splitRoots world.home options.deadSwapfileCandidates).filterMap fun path =>
    match world.metadata path with
    | none => none
    | some stat => classifySwapfile (world.writable path) path stat.len active

/-- The swap part of `audit` (disk.rs:815-875): the findings, and the note of what was not
checked. -/
def auditSwap (world : SwapWorld) (options : SwapOptions) :
    Option (List SwapFinding × Option String) :=
  let dead := deadSwapfiles world options
  let deadReported := dead.map DeadSwapfile.path
  let expected := splitPrefixes options.expectedSwapPrefixes
  let configPath := expandTilde world.home options.nixosSwapConfig
  let swaps := if world.swapsFailsAgain then none else some (procSwaps world.active)
  (checkSwapHealth alphanumeric swaps world.config world.metadataAgain expected deadReported).map
    fun outcome =>
      let unreferenced := outcome.unreferenced.filter fun unref =>
        !deadReported.any fun p => samePath p unref.path
      (dead.map deadSwapfileFinding ++
        outcome.wrong.map (fun wrong => wrongSwapFinding wrong expected) ++
        unreferenced.map fun unref =>
          unreferencedSwapfileFinding (world.writable unref.path) unref configPath,
        if outcome.configKnown then none
        else if world.configReads then
          some ("no swapDevices block in " ++ configPath ++ "; swap reference check skipped")
        else some ("NixOS swap config unreadable; swap reference check skipped: " ++ configPath))

end

end DraconGuard
