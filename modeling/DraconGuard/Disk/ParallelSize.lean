import DraconGuard.Disk.TmpCruft
import DraconGuard.Lib.ForkJoin

/-!
# Sizing directories in parallel

`find_temp_cruft` (disk_tmp.rs:118-183) lists the entries first, with blanks for the directories,
has these measured by up to eight threads (`directory_bytes_and_age_parallel`, disk_tmp.rs:239),
and then fills in the blanks in the order of the list. `findTempCruft` measures each directory
where it finds it.

**`findTempCruft_parallel`**: they agree, however many threads there are and in whatever order
they get on. The threads share no slot, and none is left blank.
-/

namespace DraconGuard

open FileTree ForkJoin

variable {δ : Type} (host : TmpHost δ)

/-- A directory as a thread measures it, by the path it was given. -/
def measureAt (path : Location) : Nat × Option Nat :=
  match host.symlinkMetadata path with
  | none => (0, none)
  | some (q, _) => directoryBytesAndAge host q

/-- `available_parallelism().map(|n| n.get().min(8)).unwrap_or(4)`. -/
def sizingWorkers (parallelism : Option {n : Nat // 0 < n}) : Nat :=
  (parallelism.map fun n => min n.1 8).getD 4

/-- `roots.len().div_ceil(workers).max(1)`. -/
def chunkSize (parallelism : Option {n : Nat // 0 < n}) (roots : List Location) : Nat :=
  let workers := sizingWorkers parallelism
  max ((roots.length + workers - 1) / workers) 1

/-- `directory_bytes_and_age_parallel` (disk_tmp.rs:239) returns `out`, for some order in which
the threads get on. -/
def MeasuredParallel (parallelism : Option {n : Nat // 0 < n}) (roots : List Location)
    (out : List (Nat × Option Nat)) : Prop :=
  if roots = [] then out = []
  else ∃ last, Run (measureAt host) (start (chunkSize parallelism roots) (0, none) roots) last ∧
    last.Finished ∧ last.slots = out

/-- The first loop (disk_tmp.rs:128-163): directories are blank. -/
def collectTempEntry (minAgeHours : Nat) (path : Location) : Option TempEntry :=
  match host.symlinkMetadata path with
  | none => none
  | some (_, .symlink _) => none
  | some (q, e) =>
    match (host.mtime q).bind fun modified => ageHours modified host.now with
    | none => none
    | some hours =>
      if hours < minAgeHours then none
      else some
        { path := path, bytes := if e.isDir then 0 else host.len q, isDir := e.isDir,
          ageHours := hours, newestContentAgeHours := if e.isDir then none else some hours }

def collectTempCruft (minAgeHours : Nat) : List TempEntry :=
  tempRoots.flatMap fun root => (host.readDirNames root).filterMap fun n =>
    collectTempEntry host minAgeHours (root ++ [n])

/-- The directories to measure (disk_tmp.rs:167-171). -/
def dirPaths (found : List TempEntry) : List Location :=
  (found.filter (·.isDir)).map (·.path)

/-- The second loop (disk_tmp.rs:174-178): each directory takes the next measurement. -/
def fillMeasured : List TempEntry → List (Nat × Option Nat) → List TempEntry
  | [], _ => []
  | entry :: rest, measured =>
    if entry.isDir then
      let next := measured.headD (0, none)
      { entry with bytes := next.1, newestContentAgeHours := next.2 } ::
        fillMeasured rest measured.tail
    else entry :: fillMeasured rest measured

/-- `find_temp_cruft` with the measurements the threads come back with. -/
def findTempCruftWith (minAgeHours : Nat) (measured : List (Nat × Option Nat)) :
    List TempEntry :=
  (fillMeasured (collectTempCruft host minAgeHours) measured).insertionSort cruftBefore

variable {host} {parallelism : Option {n : Nat // 0 < n}} {roots : List Location}
  {measured : List (Nat × Option Nat)} {minAgeHours : Nat}

/-- **The threads compute what a loop would.** -/
theorem measuredParallel_iff :
    MeasuredParallel host parallelism roots measured ↔ measured = roots.map (measureAt host) := by
  unfold MeasuredParallel
  split
  · next hempty => simp [hempty]
  · have hsize : chunkSize parallelism roots ≠ 0 := by
      unfold chunkSize
      simp only
      omega
    constructor
    · rintro ⟨last, hrun, hfin, rfl⟩
      exact finished_map hsize hrun hfin
    · rintro rfl
      obtain ⟨last, hrun, hfin⟩ := exists_finished (measureAt host)
        (start (chunkSize parallelism roots) (0, none) roots)
      exact ⟨last, hrun, hfin, finished_map hsize hrun hfin⟩

/-- An entry with its measurement. -/
def fillEntry (measure : Location → Nat × Option Nat) (entry : TempEntry) : TempEntry :=
  if entry.isDir then
    { entry with bytes := (measure entry.path).1, newestContentAgeHours := (measure entry.path).2 }
  else entry

/-- Each directory takes its own measurement. -/
theorem fillMeasured_map (measure : Location → Nat × Option Nat) (found : List TempEntry) :
    fillMeasured found ((dirPaths found).map measure) = found.map (fillEntry measure) := by
  induction found with
  | nil => rfl
  | cons entry rest ih =>
    rw [fillMeasured, List.map_cons]
    cases hdir : entry.isDir with
    | true =>
      have hpaths : dirPaths (entry :: rest) = entry.path :: dirPaths rest := by
        simp [dirPaths, hdir]
      simp only [hpaths, List.map_cons, List.headD_cons, List.tail_cons, if_true, fillEntry, hdir,
        ih]
    | false =>
      have hpaths : dirPaths (entry :: rest) = dirPaths rest := by simp [dirPaths, hdir]
      simp only [hpaths, Bool.false_eq_true, if_false, fillEntry, hdir, ih]

/-- What is collected blank and measured by its path is what is measured on the spot. -/
theorem collectTempEntry_fill (path : Location) :
    (collectTempEntry host minAgeHours path).map (fillEntry (measureAt host)) =
      tempEntry host minAgeHours path := by
  unfold collectTempEntry tempEntry
  cases hmeta : host.symlinkMetadata path with
  | none => rfl
  | some found =>
    obtain ⟨q, e⟩ := found
    cases e
    case symlink => rfl
    all_goals
      simp only
      cases (host.mtime q).bind fun modified => ageHours modified host.now with
      | none => rfl
      | some hours =>
        simp only
        split
        · rfl
        · simp [fillEntry, measureAt, hmeta, Entry.isDir]

/-- **The parallel scan is the plain one**: with whatever the threads come back with, the entries
found are those a single loop finds, sizes, ages and order included. -/
theorem findTempCruft_parallel {δ : Type} (host : TmpHost δ) (minAgeHours : Nat)
    (parallelism : Option {n : Nat // 0 < n}) (measured : List (Nat × Option Nat))
    (h : MeasuredParallel host parallelism (dirPaths (collectTempCruft host minAgeHours))
      measured) :
    findTempCruftWith host minAgeHours measured = findTempCruft host minAgeHours := by
  rw [measuredParallel_iff] at h
  subst h
  unfold findTempCruftWith findTempCruft
  rw [fillMeasured_map, collectTempCruft, List.map_flatMap]
  congr 1
  refine List.flatMap_congr fun root _ => ?_
  rw [List.map_filterMap]
  exact List.filterMap_congr fun n _ => collectTempEntry_fill (root ++ [n])

section TwoDirectories

private theorem sizedName_valid : "a".toList ≠ [] ∧ '/' ∉ "a".toList := by decide

private theorem sizedOther_valid : "b".toList ≠ [] ∧ '/' ∉ "b".toList := by decide

private def sizedName : Name := ⟨"a", sizedName_valid⟩

private def sizedOther : Name := ⟨"b", sizedOther_valid⟩

private def sizedFs : Fs Unit :=
  ((((∅ : Fs Unit).insert [tmpDirName] .dir).insert [tmpDirName, sizedName] .dir).insert
    [tmpDirName, sizedOther] .dir).insert [tmpDirName, sizedOther, sizedName] (.file ())

private theorem sizedFs_closed : Closed sizedFs := FileTree.closed_of_keys (by decide)

private theorem sizedFs_plain : ∀ p ∈ sizedFs.keys, ∀ n ∈ p, n.isPlain = true := by decide

private theorem sizedEpoch_inRange :
    -(2 ^ 63 * 10 ^ 9) ≤ (0 : Int) ∧ (0 : Int) < 2 ^ 63 * 10 ^ 9 := by decide

private theorem sizedNow_inRange :
    -(2 ^ 63 * 10 ^ 9) ≤ (200000 * 10 ^ 9 : Int) ∧ (200000 * 10 ^ 9 : Int) < 2 ^ 63 * 10 ^ 9 := by
  decide

private def sizedHost : TmpHost Unit where
  fs := sizedFs
  closed := sizedFs_closed
  cwd := []
  cwd_dir := rfl
  plain := FileTree.plain_of_keys sizedFs_plain
  mtime := fun _ => some ⟨0, sizedEpoch_inRange⟩
  len := fun _ => 7
  now := ⟨200000 * 10 ^ 9, sizedNow_inRange⟩
  procs := some []
  pids := nodup_noProcs

/-- Two directories, two threads: the one with the file comes first. -/
theorem findTempCruft_parallel_two :
    ∃ measured,
      MeasuredParallel sizedHost (some ⟨2, by decide⟩) (dirPaths (collectTempCruft sizedHost 24))
        measured ∧
      findTempCruftWith sizedHost 24 measured = findTempCruft sizedHost 24 ∧
      (findTempCruft sizedHost 24).map (·.bytes) = [7, 0] :=
  ⟨_, measuredParallel_iff.mpr rfl,
    findTempCruft_parallel sizedHost 24 (some ⟨2, by decide⟩) _ (measuredParallel_iff.mpr rfl),
    by decide +kernel⟩

end TwoDirectories

end DraconGuard
