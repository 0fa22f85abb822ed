import Mathlib.Data.List.Lex
import Mathlib.Data.String.Basic
import Mathlib.Algebra.Order.Ring.Rat
import DraconGuard.Clean.Safety
import DraconGuard.Disk.Apply
import DraconGuard.Lib.DirWalk

/-!
# Two roads to the deletion of a `/tmp` entry

The one-shot cleaner finds old entries of `/tmp` and `/var/tmp` (`find_temp_cruft`,
disk_tmp.rs:118), classifies them (`audit`, disk.rs:653-787) and hands them to the delete pass of
`Disk/Apply`. The daemon asks `tmp_entry_block` (main.rs:8078) and `tree_has_fresh_content`
(main.rs:7736) about the entries of its own roots. Both sides are given here on one state of the
machine, a `TmpHost`. What one `/proc` link, one socket or one directory listing says is the same
for both; what they make of it is not.
-/

namespace DraconGuard

open FileTree (Disk Mount Location Fs Name Entry Scan WalkItem Listing Errno render entryAt walkDir
  below)

/-! ## Time -/

/-- `SystemTime`: nanoseconds from 1970 on, the seconds a signed 64-bit number. -/
structure SystemTime where
  nanos : Int
  inRange : -(2 ^ 63 * 10 ^ 9) ≤ nanos ∧ nanos < 2 ^ 63 * 10 ^ 9
deriving DecidableEq

/-- `age_hours` (disk_tmp.rs:81). -/
def ageHours (modified now : SystemTime) : Option Nat :=
  if modified.nanos ≤ now.nanos then some ((now.nanos - modified.nanos).toNat / 10 ^ 9 / 3600)
  else none

/-- The cutoff of an age floor (main.rs:8228-8231), nanoseconds from 1970 on: saturated above by
`age_of` (main.rs:8038) and below by 1970. -/
def tmpAgeCutoff (now : SystemTime) (hours : Nat) : Int :=
  max 0 (now.nanos - (min (hours * 3600) (2 ^ 64 - 1) : Nat) * 10 ^ 9)

/-! ## The machine -/

/-- What both sides read. -/
structure TmpHost (δ : Type) extends Mount δ where
  scan : Scan := {}
  /-- `metadata.modified()`. -/
  mtime : Location → Option SystemTime
  len : Location → Nat := fun _ => 0
  now : SystemTime
  procs : ProcScan
  /-- A process id names one directory of `/proc`. -/
  pids : ∀ entries, procs = some entries → (entries.map (·.pid)).Nodup
  /-- The listing of `/proc` breaks off after the entries given. -/
  procsCut : Bool := false
  /-- The paths of the listening unix sockets (`live_unix_socket_paths`, main.rs:4437). -/
  sockets : List Location := []
  /-- How removing a path ends. -/
  removal : Location → RemovalAnswer := fun _ => .done

/-- An empty `/proc` names nothing twice. -/
theorem nodup_noProcs (entries : List ProcDir) (h : some [] = some entries) :
    (entries.map (·.pid)).Nodup := by
  obtain rfl := Option.some.inj h
  exact List.nodup_nil

namespace TmpHost

variable {δ : Type} (host : TmpHost δ)

/-- `symlink_metadata`, with the place of the entry. -/
def symlinkMetadata (path : Location) : Option (Location × Entry δ) :=
  match host.lstat (render path) with
  | .ok (q, e) => if host.scan.untyped q then none else some (q, e)
  | .error _ => none

/-- The names `read_dir(path).flatten()` yields. -/
def readDirNames (path : Location) : List Name :=
  match host.canonicalize (render path) with
  | .error _ => []
  | .ok r => host.fs.keys.filterMap fun q =>
      match below r q with
      | some [n] => if (host.scan.listing r).shows n then some n else none
      | _ => none

end TmpHost

/-! ## Finding old entries -/

/-- `directory_bytes_and_age` gives up beyond this many entries (disk_tmp.rs:281). -/
def walkLimit : Nat := 200000

/-- The state of the loop in `directory_bytes_and_age` (disk_tmp.rs:282-287). -/
structure TreeWalk where
  total : Nat := 0
  seen : Nat := 0
  newest : Option SystemTime := none
  unreadable : Bool := false
  /-- The loop returned at the limit. -/
  truncated : Bool := false

def TreeWalk.count (w : TreeWalk) : TreeWalk :=
  if walkLimit < w.seen + 1 then { w with seen := w.seen + 1, truncated := true }
  else { w with seen := w.seen + 1 }

/-- One modification time read, or not (disk_tmp.rs:306-313). -/
def TreeWalk.touch (w : TreeWalk) : Option SystemTime → TreeWalk
  | none => { w with unreadable := true }
  | some modified =>
    match w.newest with
    | none => { w with newest := some modified }
    | some current =>
      if current.nanos < modified.nanos then { w with newest := some modified } else w

section Walk

variable {δ : Type} (host : TmpHost δ)

/-- One entry below the root of the walk (disk_tmp.rs:294-318). -/
def TreeWalk.entry (root rel : Location) (e : Entry δ) (w : TreeWalk) : TreeWalk :=
  let counted := w.count
  if counted.truncated then counted
  else match e with
    | .symlink _ => counted
    | .dir => counted.touch (host.mtime (root ++ rel))
    | _ =>
      let touched := counted.touch (host.mtime (root ++ rel))
      { touched with total := touched.total + host.len (root ++ rel) }

/-- One item of the walk. An error in the middle of a listing is passed over
(`entries.flatten()`, disk_tmp.rs:293). -/
def TreeWalk.visit (root : Location) (w : TreeWalk) (item : WalkItem δ) : TreeWalk :=
  if w.truncated then w
  else match item with
    | .entry rel e => if rel = [] then w else w.entry host root rel e
    | .failed none => w
    | .failed (some rel) =>
      -- an entry without metadata counts, a directory that does not open has counted already
      let counted := if host.scan.untyped (root ++ rel) then w.count else w
      if counted.truncated then counted else { counted with unreadable := true }

/-- `directory_bytes_and_age` (disk_tmp.rs:280). -/
def directoryBytesAndAge (root : Location) : Nat × Option Nat :=
  let w := (walkDir host.fs host.scan none root).foldl (TreeWalk.visit host root) {}
  if w.truncated || w.unreadable then (w.total, none)
  else
    let newest := match w.newest with
      | some modified => some modified
      -- an empty tree is as old as its root
      | none => if w.seen = 0 then host.mtime root else none
    (w.total, newest.bind fun modified => ageHours modified host.now)

/-- `TempEntry` (disk_tmp.rs:18). -/
structure TempEntry where
  path : Location
  bytes : Nat
  isDir : Bool
  ageHours : Nat
  newestContentAgeHours : Option Nat

/-- `TempEntry::label` (disk_tmp.rs:38). -/
def TempEntry.label (entry : TempEntry) : String := if entry.isDir then "tmp-dir" else "tmp-file"

def tmpDirName : Name := ⟨"tmp", by decide⟩

/-- `TEMP_ROOTS` (disk_tmp.rs:108). -/
def tempRoots : List Location := [[tmpDirName], [⟨"var", by decide⟩, tmpDirName]]

/-- One entry of a root in `find_temp_cruft` (disk_tmp.rs:128-163), measured (165-181). -/
def tempEntry (minAgeHours : Nat) (path : Location) : Option TempEntry :=
  match host.symlinkMetadata path with
  | none => none
  | some (_, .symlink _) => none
  | some (q, e) =>
    match (host.mtime q).bind fun modified => ageHours modified host.now with
    | none => none
    | some hours =>
      if hours < minAgeHours then none
      else if e.isDir then
        let measured := directoryBytesAndAge host q
        some { path := path, bytes := measured.1, isDir := true, ageHours := hours,
               newestContentAgeHours := measured.2 }
      else
        some { path := path, bytes := host.len q, isDir := false, ageHours := hours,
               newestContentAgeHours := some hours }

/-- Larger entries first, then by path. -/
def cruftBefore (a b : TempEntry) : Prop :=
  b.bytes < a.bytes ∨ a.bytes = b.bytes ∧ a.path.map (·.text) ≤ b.path.map (·.text)

instance : DecidableRel cruftBefore := fun _ _ => inferInstanceAs (Decidable (_ ∨ _))

/-- `find_temp_cruft` (disk_tmp.rs:118). -/
def findTempCruft (minAgeHours : Nat) : List TempEntry :=
  (tempRoots.flatMap fun root => (host.readDirNames root).filterMap fun n =>
    tempEntry host minAgeHours (root ++ [n])).insertionSort cruftBefore

end Walk

/-! ## Classifying them -/

/-- `DiskOptions` (disk.rs:503): what the classification of temporary files and the delete pass
read of it. The patterns are parsed: trimmed, and none of them empty. -/
structure DiskOptions where
  gitTempMinAgeHours : Nat
  tmpMinAgeHours : Nat
  tmpE2ePatterns : List (List Char)
  tmpE2eMinAgeHours : Nat

/-- The patterns in force (disk.rs:661-665). -/
def DiskOptions.e2ePatterns (options : DiskOptions) : List (List Char) :=
  if options.tmpE2eMinAgeHours = 0 then [] else options.tmpE2ePatterns

/-- The age from which an entry is looked at (disk.rs:666-672). -/
def DiskOptions.walkFloor (options : DiskOptions) : Nat :=
  if options.e2ePatterns.isEmpty then options.tmpMinAgeHours
  else min options.tmpMinAgeHours options.tmpE2eMinAgeHours

def trimStars (pattern : List Char) : List Char :=
  ((pattern.dropWhile (· = '*')).reverse.dropWhile (· = '*')).reverse

/-- `tmp_e2e_match` (main.rs:7825). -/
def tmpE2eMatch (fileName : List Char) (patterns : List (List Char)) : Bool :=
  patterns.any fun pattern =>
    if pattern.isEmpty then false
    else if pattern = ['*'] then true
    else
      let core := trimStars pattern
      match pattern.head? == some '*', pattern.getLast? == some '*' with
      | false, false => fileName == pattern
      | true, false => core.isSuffixOf fileName
      | false, true => core.isPrefixOf fileName
      | true, true => Text.containsChars fileName core

/-- `tmp_cruft_floor` (disk.rs:524). -/
def tmpCruftFloor (fileName : List Char) (age : Nat) (e2ePatterns : List (List Char))
    (generalFloorHours e2eFloorHours : Nat) : Option Nat :=
  let floor :=
    if e2ePatterns.isEmpty then generalFloorHours
    else if tmpE2eMatch fileName e2ePatterns then e2eFloorHours
    else generalFloorHours
  if floor ≤ age then some floor else none

/-- The last component as `to_string_lossy` gives it, a character for each byte. -/
def baseName (path : Location) : List Char :=
  match path.getLast? with
  | some n => n.lossy.text.toList
  | none => []

def hiddenName (path : Location) : Bool := (baseName path).head? == some '.'

/-- `HIDDEN_TMP_REPORT_BYTES` (disk.rs:499). -/
def hiddenTmpReportBytes : Nat := 256 * 1024 * 1024

/-- The floor an entry clears (disk.rs:694-708). -/
def DiskOptions.floorOf (options : DiskOptions) (path : Location) (age : Nat) : Option Nat :=
  tmpCruftFloor (baseName path) age options.e2ePatterns options.tmpMinAgeHours
    options.tmpE2eMinAgeHours

/-- A directory whose content is younger than the floor (disk.rs:720-721). -/
def TempEntry.liveChurn (entry : TempEntry) (floor : Nat) : Bool :=
  entry.isDir && treeIsLiveChurn entry.newestContentAgeHours floor

/-- The reason of a finding that no process holds (disk.rs:746-776). -/
def tmpReason (options : DiskOptions) (entry : TempEntry) (floor : Nat) : String :=
  let fastPath := floor = options.tmpE2eMinAgeHours ∧ floor ≠ options.tmpMinAgeHours ∧
    !options.e2ePatterns.isEmpty
  if entry.liveChurn floor then
    let contentNote := match entry.newestContentAgeHours with
      | some age => "newest nested content is " ++ toString age ++ "h old"
      | none =>
        "nested content is unreadable (permissions) — cannot prove the tree is idle"
    entry.label ++ " top-level mtime " ++ toString entry.ageHours ++ "h old but " ++ contentNote ++
      " — live churn, under the " ++ toString floor ++ "h floor; never auto-deleted"
  else if fastPath then
    entry.label ++ " untouched for " ++ toString entry.ageHours ++
      "h (e2e fast-path floor tmp_e2e_min_age_hours=" ++ toString options.tmpE2eMinAgeHours ++ ")"
  else
    entry.label ++ " untouched for " ++ toString entry.ageHours ++ "h (tmp_min_age_hours=" ++
      toString options.tmpMinAgeHours ++ ")"

/-- One entry of the second class in `audit` (disk.rs:678-787). -/
def tmpFinding (options : DiskOptions) (snapshot : ProcSnapshot) (entry : TempEntry) :
    Option Finding :=
  if hiddenName entry.path && entry.bytes < hiddenTmpReportBytes then none
  else match options.floorOf entry.path entry.ageHours with
    | none => none
    | some floor =>
      let references := snapshot.capture entry.path
      let finding : Finding :=
        match references.blockingReason entry.path with
        | some reason =>
          { cls := .tempAndLogs, path := entry.path, bytes := entry.bytes, disposition := .skip,
            reason := "in use — " ++ reason }
        | none =>
          { cls := .tempAndLogs, path := entry.path, bytes := entry.bytes,
            disposition :=
              if hiddenName entry.path || entry.liveChurn floor then .report else .apply,
            reason := tmpReason options entry floor }
      some { finding with references := references, qualifyingFloorHours := some floor }

section Run

variable {δ : Type} (host : TmpHost δ)

/-- The findings of `audit` about entries of the temporary roots (disk.rs:653-787). -/
def auditTmp (options : DiskOptions) : List Finding :=
  (findTempCruft host options.walkFloor).filterMap
    (tmpFinding options (ProcSnapshot.read host.procs))

/-- What the delete pass is answered about a path. -/
def TmpHost.answers (path : Location) : OsAnswers :=
  match host.symlinkMetadata path with
  | none => { removal := host.removal path }
  | some (q, e) =>
    { place := q, dirAtCheck := e.isDir,
      newestAgeHours := if e.isDir then (directoryBytesAndAge host q).2 else none,
      dirAtRemoval := e.isDir, removal := host.removal path }

/-- A finding of another kind: it names no entry of a temporary root. Scratch of git lies inside
a `.git`, logs lie in `LOG_ROOTS`, and no other kind is put up for deletion. -/
structure OtherFinding where
  seen : Seen
  elsewhere : ∀ root ∈ tempRoots, ∀ n, seen.finding.path ≠ root ++ [n]

/-- `audit` followed by `apply_with_floors`, the findings about temporary roots among those made
before and after them. -/
def cleanDisk (options : DiskOptions) (earlier later : List OtherFinding) : ApplyRun :=
  applyWithFloors
    (earlier.map (·.seen) ++
      (auditTmp host options).map (fun f => { finding := f, os := host.answers f.path }) ++
      later.map (·.seen))
    host.procs host.procs options.gitTempMinAgeHours

/-- The event takes away what the path leads to, or part of it. -/
def DiskEvent.Removes (path place : Location) : DiskEvent → Prop
  | .refused _ _ => False
  | .unlinked p l => p = path ∧ l = some place
  | .removedTree p l => p = path ∧ l = place
  | .stoppedRemoval p l _ => p = path ∧ l = place

/-- The run deletes the entry of a temporary root it knows as `path`, which lies at `place`. -/
def DeletesTmpEntry (options : DiskOptions) (earlier later : List OtherFinding)
    (path place : Location) : Prop :=
  (∃ root ∈ tempRoots, ∃ n, path = root ++ [n]) ∧
    ∃ e ∈ (cleanDisk host options earlier later).events, e.Removes path place

end Run

/-! ## The daemon -/

/-- `check_safe_tmp_root` (safety.rs:136). -/
def checkSafeTmpRoot {δ : Type} (host : TmpHost δ) (path : String) : Except String Location :=
  match host.lstat path with
  | .error e => .error ("cannot inspect configured tmp root " ++ path ++ ": " ++ e.message ++
      " — refusing to scan")
  | .ok (_, .symlink _) => .error ("refusing configured tmp root " ++ path ++
      " because it is a symlink")
  | .ok (_, .dir) =>
    match host.canonicalize path with
    | .error e => .error ("cannot canonicalize configured tmp root " ++ path ++ ": " ++ e.message ++
        " — refusing to scan")
    | .ok canon =>
      if [tmpDirName].isPrefixOf canon then .ok canon
      else .error ("refusing configured tmp root " ++ render canon ++
        ": it must be /tmp (or a descendant)")
  | .ok _ => .error ("refusing configured tmp root " ++ path ++ " because it is not a directory")

/-- `resolve_safe_tmp_roots` (main.rs:7778), of entries that are trimmed, not empty and have their
`~` expanded. -/
def resolveSafeTmpRoots {δ : Type} (host : TmpHost δ) :
    List String → List Location → Except String (List Location)
  | [], resolved => .ok resolved
  | requested :: rest, resolved =>
    match checkSafeTmpRoot host requested with
    | .error e => .error e
    | .ok root =>
      resolveSafeTmpRoots host rest (if root ∈ resolved then resolved else resolved ++ [root])

/-- The links of one process. -/
def ProcDir.links (entry : ProcDir) : List Location :=
  (entry.fds.getD []).map (·.2) ++ entry.cwd.toList ++ entry.exe.toList

/-- `collect_open_paths_under_from` (main.rs:7650). -/
def collectOpenPaths {δ : Type} (host : TmpHost δ) (roots : List Location) :
    Option (List Location) :=
  match host.procs with
  | none => none
  | some entries =>
    if host.procsCut then none
    else some ((entries.flatMap ProcDir.links).filter fun o => roots.any (·.isPrefixOf o))

/-- `path_has_open_ancestor` (main.rs:7773). -/
def pathHasOpenAncestor (path : Location) (openPaths : List Location) : Bool :=
  openPaths.any fun o => path.isPrefixOf o || o.isPrefixOf path

/-- `path_holds_live_unix_socket` (main.rs:4505). -/
def pathHoldsLiveUnixSocket (candidate : Location) (liveSockets : List Location) : Bool :=
  liveSockets.any fun sock => candidate.isPrefixOf sock

/-- `TmpEntryBlock` (main.rs:8057). -/
inductive TmpEntryBlock where
  | heldOpen
  | liveSocket
  | protectedPath
deriving DecidableEq

/-- `tmp_entry_block` (main.rs:8078). -/
def tmpEntryBlock {δ : Type} (t : Disk δ) (path root : Location) (protectedPaths : List String)
    (openPaths liveSockets : List Location) : Option TmpEntryBlock :=
  if pathHasOpenAncestor path openPaths then some .heldOpen
  else if pathHoldsLiveUnixSocket path liveSockets then some .liveSocket
  else match checkSafeToDeleteTmpEntry t (render path) root protectedPaths with
    | .error _ => some .protectedPath
    | .ok _ => none

/-- What an item of the walk says to `tree_has_fresh_content`: any error is fresh. -/
def freshItem {δ : Type} (host : TmpHost δ) (dir : Location) (cutoff : Int) : WalkItem δ → Bool
  | .failed _ => true
  | .entry _ (.symlink _) => false
  | .entry rel _ =>
    match host.mtime (dir ++ rel) with
    | some modified => cutoff < modified.nanos
    | none => true

/-- `tree_has_fresh_content` (main.rs:7736). -/
def treeHasFreshContent {δ : Type} (host : TmpHost δ) (dir : Location) (cutoff : Int) : Bool :=
  (walkDir host.fs host.scan none dir).any (freshItem host dir cutoff)

end DraconGuard
