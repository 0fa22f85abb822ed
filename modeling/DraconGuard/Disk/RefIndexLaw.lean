import DraconGuard.Disk.RefIndex

/-!
# What the reference index answers

A process counts as a user exactly when it is `Held` (`blocks_iff_held`): a descriptor filed under
the target, or any link filed there and the executable or working directory standing there as it
reads. The question is whether any link **leads** there once its suffix is dropped; the two agree
but for the suffix that `blocks_deletion` keeps and the bytes that `to_string_lossy` replaces
(**`capture_exact_iff`**).
-/

namespace DraconGuard

open FileTree PrefixRange

variable {table : ProcReading} {target : String}

/-! ## Which processes block -/

/-- Rows under a process id are rows of one process. -/
theorem capture_agree {p : ProcLinks} (hp : p ∈ table.processes) :
    ∀ r ∈ ((RefIndex.read table).capture target).refs, r.pid = p.pid →
      r.exe = p.exe ∧ r.cwd = p.cwd ∧
        ∃ row ∈ linkRows p, pathParts target <+: row.1 ∧ r = row.2 := by
  intro r hr hpid
  obtain ⟨q, hq, row, hrow, hin, rfl⟩ := mem_capture.mp hr
  obtain ⟨hpid', hexe, hcwd⟩ := linkRows_agree hrow
  have hsame : q = p := by
    unfold ProcReading.processes at hp hq
    cases hlisted : table.listed with
    | none =>
      rw [hlisted] at hp
      cases hp
    | some entries =>
      rw [hlisted] at hp hq
      exact List.inj_on_of_nodup_map (table.pids entries hlisted) hq hp (hpid'.symm.trans hpid)
  subst hsame
  exact ⟨hexe, hcwd, row, hrow, hin, rfl⟩

/-- The merged row of a process that was found blocks exactly when the process is held. -/
theorem mergedRow_blocks_iff {p : ProcLinks} (hp : p ∈ table.processes)
    (hfound : ∃ link ∈ p.links, FiledUnder target link) :
    (mergedRow ((RefIndex.read table).capture target).refs p.pid).blocksDeletion target = true ↔
      Held target p := by
  have hsome : ∃ r ∈ ((RefIndex.read table).capture target).refs, r.pid = p.pid := by
    obtain ⟨row, hrow, hin⟩ := exists_row_iff.mpr hfound
    exact ⟨row.2, mem_capture.mpr ⟨p, hp, row, hrow, hin, rfl⟩, (linkRows_agree hrow).1⟩
  obtain ⟨hexe, hcwd, hfds⟩ := mergedRow_of_agree
    (fun r hr hpid => ⟨(capture_agree hp r hr hpid).1, (capture_agree hp r hr hpid).2.1⟩) hsome
  have hopen : (mergedRow ((RefIndex.read table).capture target).refs p.pid).fds ≠ [] ↔
      ∃ fd ∈ p.fds.getD [], FiledUnder target fd.2 := by
    rw [← exists_fd_row_iff]
    constructor
    · intro hne
      obtain ⟨fd, hfd⟩ := List.exists_mem_of_ne_nil _ hne
      obtain ⟨r, hr, hpid, hin⟩ := (hfds fd).mp hfd
      obtain ⟨-, -, row, hrow, hprefix, rfl⟩ := capture_agree hp r hr hpid
      exact ⟨row, hrow, hprefix, List.ne_nil_of_mem hin⟩
    · rintro ⟨row, hrow, hprefix, hne⟩
      obtain ⟨fd, hfd⟩ := List.exists_mem_of_ne_nil _ hne
      exact List.ne_nil_of_mem ((hfds fd).mpr ⟨row.2,
        mem_capture.mpr ⟨p, hp, row, hrow, hprefix, rfl⟩, (linkRows_agree hrow).1, hfd⟩)
  unfold Held LinkRef.blocksDeletion
  rw [← hopen, hexe, hcwd]
  have hstands : (∃ link ∈ p.exe.toList ++ p.cwd.toList, StandsIn target link) ↔
      (p.exe.any (fun exe => (pathParts target).isPrefixOf (pathParts exe)) ||
        p.cwd.any fun cwd => (pathParts target).isPrefixOf (pathParts cwd)) = true := by
    unfold StandsIn
    cases p.exe <;> cases p.cwd <;> simp
  rw [hstands, Bool.or_assoc, Bool.or_eq_true]
  simp [hfound]

/-- **What the answer rests on.** -/
theorem blocks_iff_held : (table.blockingReason target).isSome = true ↔
    table.listed = none ∨ ∃ p ∈ table.processes, Held target p := by
  unfold ProcReading.blockingReason
  rw [blockingReason_isSome_iff]
  have hfailed : ((RefIndex.read table).capture target).scanFailed = true ↔ table.listed = none := by
    unfold RefIndex.capture RefIndex.read
    cases table.listed <;> simp
  rw [hfailed]
  refine or_congr_right ⟨?_, ?_⟩
  · rintro ⟨m, hm, hblocks⟩
    obtain ⟨r, hr, rfl⟩ := mem_mergedLinkRefs.mp hm
    obtain ⟨p, hp, row, hrow, hin, rfl⟩ := mem_capture.mp hr
    rw [(linkRows_agree hrow).1] at hblocks
    exact ⟨p, hp, (mergedRow_blocks_iff hp (exists_row_iff.mp ⟨row, hrow, hin⟩)).mp hblocks⟩
  · rintro ⟨p, hp, hheld⟩
    have hfound : ∃ link ∈ p.links, FiledUnder target link := by
      rcases hheld with ⟨fd, hfd, hin⟩ | ⟨hfound, -⟩
      · exact ⟨fd.2, List.mem_append_right _ (List.mem_map_of_mem hfd), hin⟩
      · exact hfound
    obtain ⟨row, hrow, hin⟩ := exists_row_iff.mpr hfound
    refine ⟨_, mem_mergedLinkRefs.mpr ⟨row.2, mem_capture.mpr ⟨p, hp, row, hrow, hin, rfl⟩, rfl⟩, ?_⟩
    rw [(linkRows_agree hrow).1]
    exact (mergedRow_blocks_iff hp hfound).mpr hheld

/-! ## Main result -/

/-- A link without one trailing ` (deleted)`. -/
def dropDeleted (link : String) : String :=
  match Text.stripSuffix link.toList deletedSuffix with
  | some plain => String.ofList plain
  | none => link

/-- Some link of a process leads to the target or inside it. -/
def Leads (table : ProcReading) (target : String) : Prop :=
  ∃ p ∈ table.processes, ∃ link ∈ p.links, pathParts target <+: pathParts (dropDeleted link)

/-- The answer is that of a scan of all links. -/
def AnswersExactly (table : ProcReading) (target : String) : Prop :=
  (table.blockingReason target).isSome = true ↔ table.listed = none ∨ Leads table target

/-- **The capture is the full scan**, and the answer is the full scan's exactly when the table
could not be listed, or a process is held where a link leads to the target and none is where none
does. -/
theorem capture_exact_iff (table : ProcReading) (target : String) :
    (∀ r, r ∈ ((RefIndex.read table).capture target).refs ↔
      ∃ p ∈ table.processes, ∃ row ∈ linkRows p, pathParts target <+: row.1 ∧ r = row.2) ∧
    (AnswersExactly table target ↔ table.listed = none ∨
      (Leads table target → ∃ p ∈ table.processes, Held target p) ∧
        ∀ p ∈ table.processes, Held target p → Leads table target) := by
  refine ⟨fun r => mem_capture, ?_⟩
  unfold AnswersExactly
  rw [blocks_iff_held]
  by_cases hlisted : table.listed = none
  · simp [hlisted]
  · simp only [hlisted, false_or]
    constructor
    · exact fun h => ⟨h.mpr, fun p hp hheld => h.mp ⟨p, hp, hheld⟩⟩
    · rintro ⟨hfound, hmeant⟩
      exact ⟨fun ⟨p, hp, hheld⟩ => hmeant p hp hheld, hfound⟩

/-- A process runs a program that has been deleted. -/
def deletedProgram : ProcReading where
  listed := some [{ pid := 7, exe := some "/t/app (deleted)", cwd := some "/", fds := some [] }]
  pids := by
    rintro _ ⟨⟩
    decide

/-- `/t/app` is the program of process 7, which is found and does not count. -/
theorem deleted_program_not_counted :
    ¬ AnswersExactly deletedProgram "/t/app" ∧
      (((RefIndex.read deletedProgram).capture "/t/app").refs.map (·.pid)) = [7] := by
  refine ⟨fun h => ?_, by decide +kernel⟩
  have hleads : Leads deletedProgram "/t/app" :=
    ⟨_, List.mem_singleton_self _, "/t/app (deleted)", by decide +kernel, by decide +kernel⟩
  have hanswer : (deletedProgram.blockingReason "/t/app").isSome = false := by decide +kernel
  exact Bool.false_ne_true (hanswer.symm.trans (h.mpr (Or.inr hleads)))

/-! ## Links of UTF-8 -/

theorem stripDeletedLink_eq {link : String} (h : Utf8.isUtf8 link.toList = true) :
    stripDeletedLink link = dropDeleted link := by
  unfold stripDeletedLink dropDeleted
  cases hstrip : Text.stripSuffix link.toList deletedSuffix <;>
    simp [Utf8.lossy_eq_self h, hstrip]

/-- **Where all links are UTF-8** the answer is wrong in one way: links lead to the target, no
descriptor among them, and no process that has one stands in the target by its executable or
working directory as the link reads. -/
theorem answersExactly_iff_of_utf8
    (hutf8 : ∀ p ∈ table.processes, ∀ link ∈ p.links, Utf8.isUtf8 link.toList = true) :
    AnswersExactly table target ↔ table.listed = none ∨ (Leads table target →
      ∃ p ∈ table.processes, (∃ fd ∈ p.fds.getD [], pathParts target <+: pathParts (dropDeleted fd.2)) ∨
        (∃ link ∈ p.links, pathParts target <+: pathParts (dropDeleted link)) ∧
          ∃ link ∈ p.exe.toList ++ p.cwd.toList, StandsIn target link) := by
  have hfiled : ∀ p ∈ table.processes, ∀ link ∈ p.links,
      (FiledUnder target link ↔ pathParts target <+: pathParts (dropDeleted link)) := by
    intro p hp link hlink
    rw [FiledUnder, stripDeletedLink_eq (hutf8 p hp link hlink)]
  have hheld : ∀ p ∈ table.processes, (Held target p ↔
      (∃ fd ∈ p.fds.getD [], pathParts target <+: pathParts (dropDeleted fd.2)) ∨
        (∃ link ∈ p.links, pathParts target <+: pathParts (dropDeleted link)) ∧
          ∃ link ∈ p.exe.toList ++ p.cwd.toList, StandsIn target link) := by
    intro p hp
    have hfds : ∀ fd ∈ p.fds.getD [],
        (FiledUnder target fd.2 ↔ pathParts target <+: pathParts (dropDeleted fd.2)) :=
      fun fd hfd => hfiled p hp fd.2 (List.mem_append_right _ (List.mem_map_of_mem hfd))
    unfold Held
    refine or_congr ?_ (and_congr_left' ?_)
    · exact exists_congr fun fd => and_congr_right fun hfd => hfds fd hfd
    · exact exists_congr fun link => and_congr_right fun hlink => hfiled p hp link hlink
  rw [(capture_exact_iff table target).2]
  refine or_congr_right ⟨?_, ?_⟩
  · rintro ⟨hfound, -⟩ hleads
    obtain ⟨p, hp, h⟩ := hfound hleads
    exact ⟨p, hp, (hheld p hp).mp h⟩
  · intro h
    refine ⟨fun hleads => ?_, fun p hp hh => ?_⟩
    · obtain ⟨p, hp, hone⟩ := h hleads
      exact ⟨p, hp, (hheld p hp).mpr hone⟩
    · rcases (hheld p hp).mp hh with ⟨fd, hfd, hin⟩ | ⟨⟨link, hlink, hin⟩, -⟩
      · exact ⟨p, hp, fd.2, List.mem_append_right _ (List.mem_map_of_mem hfd), hin⟩
      · exact ⟨p, hp, link, hlink, hin⟩

end DraconGuard
