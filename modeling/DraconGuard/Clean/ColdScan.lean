import DraconGuard.Clean.Safety
import DraconGuard.Guard.DiskPass
import DraconGuard.Lib.DirWalk
import DraconGuard.Lib.FinMap
import DraconGuard.Lib.Nesting
import DraconGuard.Lib.Text

/-!
# Scanning for cold directories

| here | there |
| --- | --- |
| `seenAt`, `coldFiles`   | the walk of `dir_sizes_bottom_up` (relocate.rs:667-692): eight levels, three names pruned |
| `accumulate`, `dirSizes` | its loop (`:693-713`); files have a slot of their own |
| `isOwnToplevel`, `isTrackedByParent` | `is_git_tracked_with` (`:177-226`) |
| `coldItem`, `qualified` | the first loop of `find_cold_candidates` (`:721-748`) |
| `Nesting.shortlist`     | the collapse, the sort and the cut (`:749-771`) |
| `GitAnswers`            | **git boundary**: what the two commands print |

What the walk does not come to moves with the directory all the same: `cold_candidates_iff` says
what has to hold of it. A repository inside a candidate is asked about by neither git command
(`nested_repository_listed`).
-/

namespace DraconGuard

open FileTree

/-! ## git -/

/-- How a git command ends. -/
inductive GitRun where
  | notStarted (e : String)
  | failed
  | printed (stdout : String)

/-- What git answers, by the directory it is asked in. -/
structure GitAnswers where
  /-- `rev-parse --show-toplevel`. -/
  showToplevel : Location → GitRun
  /-- `ls-files -- <name>`. -/
  lsFiles : Location → String → GitRun

/-- `is_ascii_whitespace`. -/
def isBlank (c : Char) : Bool := c = ' ' || c = '\t' || c = '\n' || c = '\x0C' || c = '\r'

/-- The toplevel printed is the directory itself. -/
def isToplevel {δ : Type} (t : Disk δ) (canon : Location) (stdout : String) : Bool :=
  let top := String.ofList (Text.trim (String.ofList (Utf8.lossy stdout.toList)))
  if top = "" then false
  else match t.canonicalize top with
    | .ok canonTop => canonTop = canon
    | .error _ => (Spelled.parse top).any fun p =>
        p.absolute && p.parts.filter (· ≠ Name.current) = canon

/-- The first probe of `is_git_tracked_with`: the top of a work tree is tracked (relocate.rs:178). -/
def isOwnToplevel {δ : Type} (t : Disk δ) (git : GitAnswers) (path : Location) : Bool :=
  match resolve t.fs maxLinks [] path with
  | .error _ => false
  | .ok canon => match git.showToplevel path with
    | .printed stdout => isToplevel t canon stdout
    | _ => false

/-- The second probe: the repository of the parent is asked for the name (relocate.rs:197). -/
def isTrackedByParent (git : GitAnswers) (path : Location) : Except String Bool :=
  let parent := path.dropLast
  let name := (path.getLast?.map fun n => n.lossy.text).getD ""
  match git.showToplevel parent with
  | .notStarted e => .error ("cannot run git rev-parse for " ++ display parent ++ ": " ++ e)
  -- it ran and failed: no work tree
  | .failed => .ok false
  | .printed _ => match git.lsFiles parent name with
    | .notStarted e => .error ("cannot run git ls-files for " ++ display path ++ ": " ++ e)
    | .failed => .error ("git ls-files failed for " ++ display path)
    | .printed stdout => .ok (!stdout.toList.all isBlank)

/-- `is_git_tracked_with` (relocate.rs:177). -/
def isGitTracked {δ : Type} (t : Disk δ) (git : GitAnswers) (path : Location) :
    Except String Bool :=
  if isOwnToplevel t git path then .ok true else isTrackedByParent git path

/-! ## Sizing -/

/-- What a scan meets. -/
structure ColdHost (δ : Type) extends Mount δ where
  scan : Scan := {}
  /-- Entries whose metadata cannot be read. -/
  unreadable : Location → Bool := fun _ => false
  len : Location → Nat
  /-- The time of last modification, in seconds since the epoch; none where that is before. -/
  modified : Location → Option Nat
  now : Nat
  git : GitAnswers
  /-- The order in which the map of the `i`-th root is iterated. -/
  order : Nat → List Location → List Location := fun _ => id
  order_perm : ∀ i l, (order i l).Perm l := by exact fun _ l => List.Perm.refl l

def scanMaxDepth : Nat := 8

def scanMaxCandidates : Nat := 20

/-- `SCAN_SKIP_NAMES`. -/
def scanSkipNames : List String := ["target", "node_modules", ".git"]

/-- Bytes, files, and the newest time. -/
structure SizeSlot where
  bytes : Nat := 0
  files : Nat := 0
  newest : Nat := 0

section Scanning

variable {δ : Type} (host : ColdHost δ)

/-- The seconds a file counts with. -/
def ColdHost.mtimeSecs (f : Location) : Nat := (host.modified f).getD 0

/-- A regular file below no pruned name whose metadata can be read. -/
def seenAt (root : Location) : WalkItem δ → Option Location
  | .entry rel (.file _) =>
    if rel.any (fun n => n.isUtf8 && scanSkipNames.contains n.text) then none
    else if host.unreadable (root ++ rel) then none
    else some (root ++ rel)
  | _ => none

/-- The files that are counted. -/
def coldFiles (root : Location) : List Location :=
  (walkDir host.fs host.scan (some scanMaxDepth) root).filterMap (seenAt host root)

/-- One more file in a slot. The sum of bytes wraps. -/
def SizeSlot.adding (f : Location) (slot : SizeSlot) : SizeSlot :=
  ⟨(slot.bytes + host.len f) % 2 ^ 64, slot.files + 1, max slot.newest (host.mtimeSecs f)⟩

/-- The path and what is above it, as far as the root. -/
def ancestorsTo (root f : Location) : List Location :=
  f.inits.reverse.takeWhile (root.isPrefixOf ·)

/-- A file is counted at every ancestor, itself first. -/
def accumulate (root : Location) (sizes : FinMap Location SizeSlot) (f : Location) :
    FinMap Location SizeSlot :=
  (ancestorsTo root f).foldl
    (fun sizes p => sizes.insert p (((sizes.lookup p).getD {}).adding host f)) sizes

/-- `dir_sizes_bottom_up` (relocate.rs:667). -/
def dirSizes (root : Location) : FinMap Location SizeSlot :=
  (coldFiles host root).foldl (accumulate host root) ∅

/-! ## Candidates -/

/-- A directory that qualifies, and the root it was found from. -/
structure ColdItem where
  root : Location
  path : Location
  bytes : Nat
  files : Nat
  ageDays : Nat

/-- `now.saturating_sub(secs) / 86_400`. -/
def ageDays (now secs : Nat) : Nat := (now - secs) / 86400

/-- One turn of the first loop. -/
def coldItem (minBytes minAgeDays : Nat) (root p : Location) : Option ColdItem :=
  match (dirSizes host root).lookup p with
  | none => none
  | some slot =>
    if p = root || slot.bytes < minBytes then none
    else
      let age := ageDays host.now slot.newest
      if age < minAgeDays then none
      else match isGitTracked host.toDisk host.git p with
        | .ok false => some ⟨root, p, slot.bytes, slot.files, age⟩
        | _ => none

/-- The qualifiers of the `i`-th root. -/
def qualifiedOf (minBytes minAgeDays : Nat) (root : String) (i : Nat) : List ColdItem :=
  match host.canonicalize root with
  | .error _ => []
  | .ok canonRoot =>
    if !(entryAt host.fs canonRoot).any Entry.isDir then []
    else (host.order i (dirSizes host canonRoot).keys).filterMap
      (coldItem host minBytes minAgeDays canonRoot)

/-- Everything that qualifies, in the order it is met. -/
def qualified (roots : List String) (minBytes minAgeDays : Nat) : List ColdItem :=
  roots.zipIdx.flatMap fun r => qualifiedOf host minBytes minAgeDays r.1 r.2

def ColdItem.candidate (c : ColdItem) : ColdCandidate :=
  ⟨display c.path, c.bytes, c.files, c.ageDays⟩

/-- `find_cold_candidates` (relocate.rs:721). -/
def findColdCandidates (roots : List String) (minBytes minAgeDays : Nat) : List ColdCandidate :=
  let found := qualified host roots minBytes minAgeDays
  let kept := Nesting.collapse ColdItem.path
    (found.insertionSort fun a b => a.path.length ≤ b.path.length)
  ((kept.map ColdItem.candidate).insertionSort fun a b => b.bytes ≤ a.bytes).take
    scanMaxCandidates

theorem findColdCandidates_eq (roots : List String) (minBytes minAgeDays : Nat) :
    findColdCandidates host roots minBytes minAgeDays =
      (Nesting.shortlist ColdItem.path ColdItem.bytes scanMaxCandidates
        (qualified host roots minBytes minAgeDays)).map ColdItem.candidate := by
  have hsort : ∀ kept : List ColdItem,
      (kept.insertionSort fun a b => b.bytes ≤ a.bytes).map ColdItem.candidate =
        (kept.map ColdItem.candidate).insertionSort fun a b => b.bytes ≤ a.bytes :=
    fun kept => List.map_insertionSort _ _ _ _ fun _ _ _ _ => Iff.rfl
  unfold findColdCandidates Nesting.shortlist
  rw [List.map_take, hsort]

end Scanning

end DraconGuard
