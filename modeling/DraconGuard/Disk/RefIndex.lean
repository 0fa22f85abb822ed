import Mathlib.Data.List.Dedup
import Mathlib.Data.List.Sort
import DraconGuard.Disk.References
import DraconGuard.Lib.PathParts
import DraconGuard.Lib.PrefixRange

/-!
# The reference index

`ProcSnapshot` (src/disk_refs.rs:199-336) as the code keeps it: links of any kind as they read,
an ordered map from paths to rows, and a query that scans from the target to the first path
outside. `Disk/References.lean` looks at the links to absolute paths only, and searches all rows
(`capture_eq_search`).

**The suffix ` (deleted)` is dropped from the key a row is filed under, and kept in the link**
that `blocks_deletion` compares: an executable or a working directory whose link reads
`<target> (deleted)` is found and does not count. And it is dropped from the text that
`to_string_lossy` makes of a link, so bytes that are no UTF-8 are filed under another path.
-/

namespace DraconGuard

open FileTree PrefixRange

/-! ## Rows -/

/-- What can be read of one `/proc/<pid>`: links as `readlink` gives them, a character for each
byte. -/
structure ProcLinks where
  pid : Nat
  exe : Option String := none
  cwd : Option String := none
  /-- Descriptors and what they point at. -/
  fds : Option (List (Nat × String)) := none

/-- A reading of `/proc`; a process id names one directory. -/
structure ProcReading where
  listed : Option (List ProcLinks)
  pids : ∀ entries, listed = some entries → (entries.map (·.pid)).Nodup

def ProcReading.processes (table : ProcReading) : List ProcLinks := table.listed.getD []

/-- `ProcessRef` (disk_refs.rs:22). -/
structure LinkRef where
  pid : Nat
  exe : Option String
  cwd : Option String
  fds : List Nat

def deletedSuffix : List Char := " (deleted)".toList

/-- `strip_deleted` (disk_refs.rs:330). -/
def stripDeletedLink (link : String) : String :=
  match Text.stripSuffix (Utf8.lossy link.toList) deletedSuffix with
  | some plain => String.ofList plain
  | none => link

/-- The rows of one process (disk_refs.rs:239-283). -/
def linkRows (p : ProcLinks) : List (List PathPart × LinkRef) :=
  let row := fun fds => LinkRef.mk p.pid p.exe p.cwd fds
  (p.exe.toList.map fun exe => (pathParts (stripDeletedLink exe), row [])) ++
    (p.cwd.toList.map fun cwd => (pathParts (stripDeletedLink cwd), row [])) ++
    ((p.fds.getD []).map fun fd => (pathParts (stripDeletedLink fd.2), row [fd.1]))

/-- An optional path as the order sees it: none comes first. -/
def optionalParts (path : Option String) : List (List PathPart) := path.toList.map pathParts

/-- The derived order of the rows. -/
def LinkRef.before (a b : LinkRef) : Prop :=
  a.pid < b.pid ∨ a.pid = b.pid ∧
    (optionalParts a.exe < optionalParts b.exe ∨ optionalParts a.exe = optionalParts b.exe ∧
      (optionalParts a.cwd < optionalParts b.cwd ∨
        optionalParts a.cwd = optionalParts b.cwd ∧ ¬ b.fds < a.fds))

instance : DecidableRel LinkRef.before := fun _ _ => inferInstanceAs (Decidable (_ ∨ _))

/-! ## The index -/

/-- `ProcSnapshot` (disk_refs.rs:205). -/
structure RefIndex where
  refs : List (List PathPart × List LinkRef) := []
  scanFailed : Bool := false

/-- `ProcSnapshot::read` (disk_refs.rs:221). -/
def RefIndex.read (table : ProcReading) : RefIndex :=
  match table.listed with
  | none => { scanFailed := true }
  | some entries =>
    { refs := (fileAll (entries.flatMap linkRows)).map fun e =>
        (e.1, e.2.insertionSort LinkRef.before) }

/-- `ReferenceCapture` (disk_refs.rs:75). -/
structure LinkCapture where
  refs : List LinkRef := []
  scanFailed : Bool := false

/-- `ProcSnapshot::capture` (disk_refs.rs:294). -/
def RefIndex.capture (index : RefIndex) (target : String) : LinkCapture :=
  if index.scanFailed then { scanFailed := true }
  else { refs := (insideOf (pathParts target) index.refs).insertionSort LinkRef.before }

/-- `ProcessRef::blocks_deletion` (disk_refs.rs:38). -/
def LinkRef.blocksDeletion (r : LinkRef) (target : String) : Bool :=
  !r.fds.isEmpty || r.exe.any (fun exe => (pathParts target).isPrefixOf (pathParts exe)) ||
    r.cwd.any fun cwd => (pathParts target).isPrefixOf (pathParts cwd)

/-- `ProcessRef::describe` (disk_refs.rs:57). -/
def LinkRef.describe (r : LinkRef) : String :=
  let shown := fun link : String => String.ofList (Utf8.lossy link.toList)
  let parts := (r.exe.toList.map fun exe => "exe=" ++ shown exe) ++
    (r.cwd.toList.map fun cwd => "cwd=" ++ shown cwd) ++
    (if r.fds.isEmpty then []
     else ["fds=[" ++ joinTexts "," (r.fds.map toString) ++ "]"])
  if parts.isEmpty then "pid " ++ toString r.pid ++ " (no refs readable)"
  else "pid " ++ toString r.pid ++ " (" ++ joinTexts ", " parts ++ ")"

/-- The rows of one process as one. -/
def mergedRow (refs : List LinkRef) (pid : Nat) : LinkRef :=
  let rows := refs.filter fun r => r.pid = pid
  { pid := pid, exe := rows.findSome? (·.exe), cwd := rows.findSome? (·.cwd),
    fds := ((rows.flatMap (·.fds)).dedup).insertionSort (· ≤ ·) }

/-- `merged_by_pid` (disk_refs.rs:167), in ascending order. -/
def mergedLinkRefs (refs : List LinkRef) : List LinkRef :=
  ((refs.map (·.pid)).dedup.insertionSort (· ≤ ·)).map (mergedRow refs)

/-- `ReferenceCapture::blocking_reason` (disk_refs.rs:85). -/
def LinkCapture.blockingReason (capture : LinkCapture) (target : String) : Option String :=
  if capture.scanFailed then some "/proc unreadable — usage cannot be verified"
  else if capture.refs.isEmpty then none
  else
    let blocking := (mergedLinkRefs capture.refs).filter (·.blocksDeletion target)
    if blocking.isEmpty then none
    else
      let shown := 4
      let text := joinTexts "; " ((blocking.take shown).map LinkRef.describe)
      if shown < blocking.length then
        some (text ++ "; … and " ++ toString (blocking.length - shown) ++ " more process(es)")
      else some text

/-- `read`, then `capture` and `blocking_reason`. -/
def ProcReading.blockingReason (table : ProcReading) (target : String) : Option String :=
  ((RefIndex.read table).capture target).blockingReason target

/-! ## What a capture holds -/

/-- A link is filed at the target or inside it. -/
def FiledUnder (target link : String) : Prop :=
  pathParts target <+: pathParts (stripDeletedLink link)

/-- A link, as it reads, is the target or inside it. -/
def StandsIn (target link : String) : Prop := pathParts target <+: pathParts link

/-- The links of a process. -/
def ProcLinks.links (p : ProcLinks) : List String :=
  p.exe.toList ++ p.cwd.toList ++ (p.fds.getD []).map Prod.snd

theorem sorted_read (table : ProcReading) : Sorted (RefIndex.read table).refs := by
  unfold RefIndex.read
  cases table.listed with
  | none => exact List.Pairwise.nil
  | some entries =>
    refine List.pairwise_map.mpr ?_
    exact (sorted_fileAll (entries.flatMap linkRows)).imp fun h => h

/-- **The ordered scan finds the rows of the full scan.** -/
theorem mem_capture {table : ProcReading} {target : String} {r : LinkRef} :
    r ∈ ((RefIndex.read table).capture target).refs ↔
      ∃ p ∈ table.processes, ∃ row ∈ linkRows p, pathParts target <+: row.1 ∧ r = row.2 := by
  unfold RefIndex.capture ProcReading.processes
  cases hlisted : table.listed with
  | none =>
    have hread : RefIndex.read table = { scanFailed := true } := by rw [RefIndex.read, hlisted]
    rw [hread]
    simp
  | some entries =>
    have hread : RefIndex.read table = { refs := (fileAll (entries.flatMap linkRows)).map fun e =>
        (e.1, e.2.insertionSort LinkRef.before) } := by rw [RefIndex.read, hlisted]
    have hfailed : (RefIndex.read table).scanFailed = false := by rw [hread]
    rw [hfailed, if_neg Bool.false_ne_true, List.mem_insertionSort,
      mem_insideOf (sorted_read table), hread]
    have hrows : (∃ e ∈ (fileAll (entries.flatMap linkRows)).map fun e =>
        (e.1, e.2.insertionSort LinkRef.before), pathParts target <+: e.1 ∧ r ∈ e.2) ↔
        ∃ e ∈ fileAll (entries.flatMap linkRows), pathParts target <+: e.1 ∧ r ∈ e.2 := by
      simp only [List.mem_map, exists_exists_and_eq_and, List.mem_insertionSort]
    rw [hrows, mem_fileAll (q := fun key => pathParts target <+: key)]
    simp only [List.mem_flatMap, Option.getD_some]
    constructor
    · rintro ⟨row, ⟨p, hp, hrow⟩, hin, rfl⟩
      exact ⟨p, hp, row, hrow, hin, rfl⟩
    · rintro ⟨p, hp, row, hrow, hin, rfl⟩
      exact ⟨row, ⟨p, hp, hrow⟩, hin, rfl⟩

/-- **The search of all rows** of `ProcSnapshot.capture` finds what the scan of an index of them
finds. -/
theorem capture_eq_search {snapshot : ProcSnapshot} (hread : snapshot.scanFailed = false)
    (target : FileTree.Location) (r : ProcessRef) :
    r ∈ (snapshot.capture target).refs ↔ r ∈ insideOf (target.map PathPart.normal)
      (fileAll (snapshot.refs.map fun row => (row.1.map PathPart.normal, row.2))) := by
  have hnames : Function.Injective PathPart.normal := fun a b h => PathPart.normal.inj h
  rw [mem_insideOf (sorted_fileAll _),
    mem_fileAll (q := fun key => target.map PathPart.normal <+: key)]
  unfold ProcSnapshot.capture
  rw [hread, if_neg Bool.false_ne_true]
  simp only [List.mem_map, List.mem_filter, List.isPrefixOf_iff_prefix, exists_exists_and_eq_and,
    List.prefix_map_iff_of_injective hnames]
  constructor
  · rintro ⟨row, ⟨hrow, hin⟩, rfl⟩
    exact ⟨row, hrow, hin, rfl⟩
  · rintro ⟨row, hrow, hin, rfl⟩
    exact ⟨row, ⟨hrow, hin⟩, rfl⟩

/-- A row for each link, with the descriptor where it is one. -/
theorem mem_linkRows {p : ProcLinks} {row : List PathPart × LinkRef} :
    row ∈ linkRows p ↔
      (∃ link ∈ p.exe.toList ++ p.cwd.toList,
        row = (pathParts (stripDeletedLink link), ⟨p.pid, p.exe, p.cwd, []⟩)) ∨
      ∃ fd ∈ p.fds.getD [],
        row = (pathParts (stripDeletedLink fd.2), ⟨p.pid, p.exe, p.cwd, [fd.1]⟩) := by
  unfold linkRows
  simp only [List.mem_append, List.mem_map]
  constructor
  · rintro ((⟨link, hlink, rfl⟩ | ⟨link, hlink, rfl⟩) | ⟨fd, hfd, rfl⟩)
    · exact Or.inl ⟨link, Or.inl hlink, rfl⟩
    · exact Or.inl ⟨link, Or.inr hlink, rfl⟩
    · exact Or.inr ⟨fd, hfd, rfl⟩
  · rintro (⟨link, hlink | hlink, rfl⟩ | ⟨fd, hfd, rfl⟩)
    · exact Or.inl (Or.inl ⟨link, hlink, rfl⟩)
    · exact Or.inl (Or.inr ⟨link, hlink, rfl⟩)
    · exact Or.inr ⟨fd, hfd, rfl⟩

/-- The rows of a process differ only in the descriptor. -/
theorem linkRows_agree {p : ProcLinks} {row : List PathPart × LinkRef} (h : row ∈ linkRows p) :
    row.2.pid = p.pid ∧ row.2.exe = p.exe ∧ row.2.cwd = p.cwd := by
  rcases mem_linkRows.mp h with ⟨_, -, rfl⟩ | ⟨_, -, rfl⟩ <;> exact ⟨rfl, rfl, rfl⟩

theorem exists_row_iff {p : ProcLinks} {target : String} :
    (∃ row ∈ linkRows p, pathParts target <+: row.1) ↔ ∃ link ∈ p.links, FiledUnder target link := by
  constructor
  · rintro ⟨row, hrow, hin⟩
    rcases mem_linkRows.mp hrow with ⟨link, hlink, rfl⟩ | ⟨fd, hfd, rfl⟩
    · exact ⟨link, List.mem_append_left _ hlink, hin⟩
    · exact ⟨fd.2, List.mem_append_right _ (List.mem_map_of_mem hfd), hin⟩
  · rintro ⟨link, hlink, hin⟩
    rcases List.mem_append.mp hlink with hlink | hlink
    · exact ⟨_, mem_linkRows.mpr (Or.inl ⟨link, hlink, rfl⟩), hin⟩
    · obtain ⟨fd, hfd, rfl⟩ := List.mem_map.mp hlink
      exact ⟨_, mem_linkRows.mpr (Or.inr ⟨fd, hfd, rfl⟩), hin⟩

theorem exists_fd_row_iff {p : ProcLinks} {target : String} :
    (∃ row ∈ linkRows p, pathParts target <+: row.1 ∧ row.2.fds ≠ []) ↔
      ∃ fd ∈ p.fds.getD [], FiledUnder target fd.2 := by
  constructor
  · rintro ⟨row, hrow, hin, hfds⟩
    rcases mem_linkRows.mp hrow with ⟨link, hlink, rfl⟩ | ⟨fd, hfd, rfl⟩
    · exact absurd rfl hfds
    · exact ⟨fd, hfd, hin⟩
  · rintro ⟨fd, hfd, hin⟩
    exact ⟨_, mem_linkRows.mpr (Or.inr ⟨fd, hfd, rfl⟩), hin, List.cons_ne_nil _ _⟩

/-- A process counts as a user of the target: by a descriptor filed there, or by its executable
or working directory as they read, when any link of it is filed there. -/
def Held (target : String) (p : ProcLinks) : Prop :=
  (∃ fd ∈ p.fds.getD [], FiledUnder target fd.2) ∨
    (∃ link ∈ p.links, FiledUnder target link) ∧
      ∃ link ∈ p.exe.toList ++ p.cwd.toList, StandsIn target link

/-! ## Blocking -/

theorem blockingReason_isSome_iff {capture : LinkCapture} {target : String} :
    (capture.blockingReason target).isSome = true ↔
      capture.scanFailed = true ∨ ∃ m ∈ mergedLinkRefs capture.refs, m.blocksDeletion target = true := by
  unfold LinkCapture.blockingReason
  cases hfailed : capture.scanFailed with
  | true => simp
  | false =>
    rw [if_neg Bool.false_ne_true]
    by_cases hempty : capture.refs.isEmpty = true
    · have hnil : capture.refs = [] := List.isEmpty_iff.mp hempty
      rw [if_pos hempty, hnil]
      simp [mergedLinkRefs]
    · rw [if_neg hempty]
      by_cases hblocking : ((mergedLinkRefs capture.refs).filter (·.blocksDeletion target)).isEmpty = true
      · rw [if_pos hblocking]
        have hnone := List.filter_eq_nil_iff.mp (List.isEmpty_iff.mp hblocking)
        refine iff_of_false (by simp) ?_
        rintro (h | ⟨m, hm, hblocks⟩)
        · cases h
        · exact hnone m hm hblocks
      · rw [if_neg hblocking]
        have hne : (mergedLinkRefs capture.refs).filter (·.blocksDeletion target) ≠ [] := by
          simpa using hblocking
        obtain ⟨m, hm⟩ := List.exists_mem_of_ne_nil _ hne
        obtain ⟨hm, hblocks⟩ := List.mem_filter.mp hm
        refine iff_of_true ?_ (Or.inr ⟨m, hm, hblocks⟩)
        dsimp only
        split <;> rfl

theorem mem_mergedLinkRefs {refs : List LinkRef} {m : LinkRef} :
    m ∈ mergedLinkRefs refs ↔ ∃ r ∈ refs, mergedRow refs r.pid = m := by
  unfold mergedLinkRefs
  simp only [List.mem_map, List.mem_insertionSort, List.mem_dedup, exists_exists_and_eq_and]

/-- The merged row of a process has its executable and working directory, and the descriptors of
all its rows. -/
theorem mergedRow_of_agree {refs : List LinkRef} {p : ProcLinks}
    (hagree : ∀ r ∈ refs, r.pid = p.pid → r.exe = p.exe ∧ r.cwd = p.cwd)
    (hsome : ∃ r ∈ refs, r.pid = p.pid) :
    (mergedRow refs p.pid).exe = p.exe ∧ (mergedRow refs p.pid).cwd = p.cwd ∧
      ∀ fd, fd ∈ (mergedRow refs p.pid).fds ↔ ∃ r ∈ refs, r.pid = p.pid ∧ fd ∈ r.fds := by
  obtain ⟨first, hfirst, hpid⟩ := hsome
  have hmine : first ∈ refs.filter fun r => r.pid = p.pid :=
    List.mem_filter.mpr ⟨hfirst, by simpa using hpid⟩
  have hall : ∀ r ∈ refs.filter (fun r => r.pid = p.pid), r.exe = p.exe ∧ r.cwd = p.cwd := by
    intro r hr
    obtain ⟨hr, heq⟩ := List.mem_filter.mp hr
    exact hagree r hr (by simpa using heq)
  refine ⟨findSome?_of_const hmine fun r hr => (hall r hr).1,
    findSome?_of_const hmine fun r hr => (hall r hr).2, fun fd => ?_⟩
  unfold mergedRow
  dsimp only
  rw [List.mem_insertionSort, List.mem_dedup]
  simp only [List.mem_flatMap, List.mem_filter, decide_eq_true_eq, and_assoc]

end DraconGuard
