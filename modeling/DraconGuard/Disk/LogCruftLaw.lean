import DraconGuard.Disk.LogCruft
import DraconGuard.Disk.TmpCruftLaw

/-!
# Which logs the cleaner deletes

Every name that marks a rotation passes the name test (`isRotatedLogName_of_marked`), and so do
others. A log is marked for deletion exactly when no process holds it and it is large, or passes
the test and is old (`marked_log_iff`), and the delete pass removes what is marked
(`apply_of_removes`). So only old rotations are deleted exactly when no free log is large under a
name that does not pass, or old under one that passes and marks nothing (**`logs_spared_iff`**).
-/

namespace DraconGuard

open FileTree (Location Name Entry)

/-! ## The name test -/

theorem afterLastPart_none {part text : List Char} {c : Char} (hc : c ∈ part) (htext : c ∉ text) :
    afterLastPart part text = none := by
  induction text with
  | nil => rfl
  | cons d text ih =>
    have hno : ¬ part.isPrefixOf (d :: text) = true := fun h =>
      htext ((List.isPrefixOf_iff_prefix.mp h).subset hc)
    rw [afterLastPart, ih fun h => htext (List.mem_cons_of_mem d h)]
    exact if_neg hno

theorem afterLastPart_append {part text behind : List Char}
    (h : afterLastPart part text = some behind) (front : List Char) :
    afterLastPart part (front ++ text) = some behind := by
  induction front with
  | nil => exact h
  | cons c front ih => rw [List.cons_append, afterLastPart, ih]

theorem afterLastPart_logMark {stem rest : List Char} (h : 'l' ∉ rest) :
    afterLastPart logMark (stem ++ logMark ++ rest) = some rest := by
  rw [List.append_assoc]
  refine afterLastPart_append ?_ stem
  have hrest : afterLastPart logMark rest = none := afterLastPart_none (c := 'l') (by decide) h
  have hmark : logMark ++ rest = '.' :: 'l' :: 'o' :: 'g' :: rest := rfl
  have hstring : logMark = ['.', 'l', 'o', 'g'] := rfl
  rw [hstring] at hrest
  rw [hmark]
  simp [afterLastPart, hrest, hstring]

theorem trimEndTimes_of_none {part text : List Char} (h : Text.stripSuffix text part = none)
    (times : Nat) : trimEndTimes part times text = text := by
  cases times with
  | zero => rfl
  | succ times => rw [trimEndTimes, h]; rfl

theorem stripSuffix_append (text part : List Char) :
    Text.stripSuffix (text ++ part) part = some text := by
  unfold Text.stripSuffix
  rw [if_pos (List.isSuffixOf_iff_suffix.mpr (List.suffix_append text part))]
  simp

theorem stripSuffix_none {text part : List Char} {c d : Char} (htext : text.getLast? = some c)
    (hpart : part.getLast? = some d) (hne : c ≠ d) : Text.stripSuffix text part = none := by
  unfold Text.stripSuffix
  refine if_neg fun h => hne ?_
  obtain ⟨front, rfl⟩ := List.isSuffixOf_iff_suffix.mp h
  have hpne : part ≠ [] := by
    rintro rfl
    cases hpart
  rw [List.getLast?_append_of_ne_nil front hpne, hpart] at htext
  exact (Option.some.inj htext).symm

theorem trimEndMatches_of_last {text part : List Char} {c d : Char} (htext : text.getLast? = some c)
    (hpart : part.getLast? = some d) (hne : c ≠ d) : trimEndMatches part text = text :=
  trimEndTimes_of_none (stripSuffix_none htext hpart hne) text.length

theorem trimEndMatches_append {text part : List Char} {c d : Char} (htext : text.getLast? = some c)
    (hpart : part.getLast? = some d) (hne : c ≠ d) : trimEndMatches part (text ++ part) = text := by
  obtain ⟨times, htimes⟩ : ∃ times, (text ++ part).length = times + 1 := by
    cases part with
    | nil => cases hpart
    | cons e part => exact ⟨text.length + part.length, by simp; omega⟩
  rw [trimEndMatches, htimes, trimEndTimes, stripSuffix_append]
  exact trimEndTimes_of_none (stripSuffix_none htext hpart hne) times

theorem Digits.last {digits : List Char} (h : Digits digits) (c : Char) :
    ∃ d, (c :: digits).getLast? = some d ∧ d.isDigit = true := by
  obtain ⟨hne, hall⟩ := h
  refine ⟨digits.getLast hne, ?_, hall _ (List.getLast_mem hne)⟩
  rw [List.getLast?_cons_of_ne_nil hne, List.getLast?_eq_some_getLast hne]

/-- A compressed number is trimmed to the number. -/
theorem trim_packed {digits packed : List Char} (h : Digits digits)
    (hpacked : packed ∈ [[], gzMark, xzMark]) :
    trimEndMatches xzMark (trimEndMatches gzMark ('.' :: (digits ++ packed))) = '.' :: digits := by
  obtain ⟨d, hlast, hdigit⟩ := h.last '.'
  have hz : d ≠ 'z' := by
    rintro rfl
    cases hdigit
  have hgz : gzMark.getLast? = some 'z' := rfl
  have hxz : xzMark.getLast? = some 'z' := rfl
  have hcases : packed = [] ∨ packed = gzMark ∨ packed = xzMark := by simpa using hpacked
  rcases hcases with rfl | rfl | rfl
  · rw [List.append_nil, trimEndMatches_of_last hlast hgz hz, trimEndMatches_of_last hlast hxz hz]
  · rw [← List.cons_append, trimEndMatches_append hlast hgz hz,
      trimEndMatches_of_last hlast hxz hz]
  · have hkeep : Text.stripSuffix ('.' :: digits ++ xzMark) gzMark = none := by
      unfold Text.stripSuffix
      refine if_neg fun hsuffix => ?_
      have hone := List.isSuffixOf_iff_suffix.mp hsuffix
      have htwo := List.suffix_append ('.' :: digits) xzMark
      have hsame := (List.suffix_of_suffix_length_le hone htwo (by decide)).eq_of_length (by decide)
      exact absurd hsame (by decide)
    have htrim : trimEndMatches gzMark ('.' :: digits ++ xzMark) = '.' :: digits ++ xzMark :=
      trimEndTimes_of_none hkeep _
    rw [← List.cons_append, htrim, trimEndMatches_append hlast hxz hz]

theorem isAlphanum_of_digit {c : Char} (h : c.isDigit = true) : (!c.isAlphanum) = false := by
  simp [Char.isAlphanum, h]

/-- **Every rotation passes the name test.** -/
theorem isRotatedLogName_of_marked {name : List Char} (h : MarkedRotation name) :
    isRotatedLogName name = true := by
  obtain ⟨stem, -, hrotation⟩ := h
  unfold isRotatedLogName
  dsimp only
  generalize name.map Char.toLower = lower at hrotation
  have hcontains : ∀ front behind, lower = front ++ (logMark ++ behind) →
      Text.containsChars lower logMark = true := by
    rintro front behind rfl
    exact List.any_eq_true.mpr ⟨logMark ++ behind, List.mem_tails _ _ |>.mpr (List.suffix_append _ _),
      List.isPrefixOf_iff_prefix.mpr (List.prefix_append _ _)⟩
  have hdate : ∀ (front date behind : List Char) (d : Char), Digits date → date.length = 8 →
      (!d.isAlphanum) = true → lower = front ++ d :: (date ++ behind) →
      (behind = [] ∨ ∃ e rest, behind = e :: rest ∧ (!e.isAlphanum) = true) →
      datedLog lower = true := by
    rintro front date behind d ⟨-, hall⟩ hlen hd rfl hbehind
    have hdigits : ∀ c ∈ date, (!c.isAlphanum) = false := fun c hc => isAlphanum_of_digit (hall c hc)
    refine List.any_eq_true.mpr ⟨date, ?_, ?_⟩
    · rw [List.splitOnP_append_cons front _ hd]
      refine List.mem_append_right _ ?_
      rcases hbehind with rfl | ⟨e, rest, rfl, he⟩
      · rw [List.append_nil, List.splitOnP_eq_singleton hdigits]
        exact List.mem_singleton_self _
      · rw [List.splitOnP_append_cons_of_forall_mem hdigits e he]
        exact List.mem_cons_self ..
    · have hallDigits : date.all Char.isDigit = true := List.all_eq_true.mpr hall
      simp [hlen, hallDigits]
  cases hrotation with
  | numbered digits packed hdigits hpacked =>
    have hletters : 'l' ∉ '.' :: (digits ++ packed) := by
      have hcases : packed = [] ∨ packed = gzMark ∨ packed = xzMark := by simpa using hpacked
      intro hin
      rcases List.mem_cons.mp hin with hin | hin
      · cases hin
      rcases List.mem_append.mp hin with hin | hin
      · have := hdigits.2 _ hin
        cases this
      · rcases hcases with rfl | rfl | rfl
        · cases hin
        · exact absurd hin (by decide)
        · exact absurd hin (by decide)
    have hnumber : numberedLog (stem ++ logMark ++ '.' :: (digits ++ packed)) = true := by
      obtain ⟨hne, hall⟩ := hdigits
      have hdots : ('.' :: digits).dropWhile (· = '.') = digits := by
        cases digits with
        | nil => exact absurd rfl hne
        | cons c digits =>
          have hc : c ≠ '.' := by
            rintro rfl
            have := hall '.' (List.mem_cons_self ..)
            cases this
          simp [hc]
      unfold numberedLog
      rw [afterLastPart_logMark hletters, Option.any_some]
      dsimp only
      rw [trim_packed ⟨hne, hall⟩ hpacked, hdots, List.all_eq_true.mpr hall]
      rfl
    rw [hcontains stem ('.' :: (digits ++ packed)) (List.append_assoc ..), hnumber]
    rfl
  | dated date packed hdigits hlen hpacked =>
    rw [hcontains (stem ++ '-' :: date) packed (by simp),
      hdate stem date (logMark ++ packed) '-' hdigits hlen (by decide) rfl
        (Or.inr ⟨'.', _, rfl, by decide⟩), Bool.or_true]
    rfl
  | datedBehind date packed hdigits hlen hpacked =>
    have hbehind : packed = [] ∨ ∃ e rest, packed = e :: rest ∧ (!e.isAlphanum) = true := by
      have hcases : packed = [] ∨ packed = gzMark ∨ packed = xzMark := by simpa using hpacked
      rcases hcases with rfl | rfl | rfl
      · exact Or.inl rfl
      · exact Or.inr ⟨'.', _, rfl, by decide⟩
      · exact Or.inr ⟨'.', _, rfl, by decide⟩
    rw [hcontains stem ('-' :: (date ++ packed)) (List.append_assoc ..),
      hdate (stem ++ logMark) date packed '-' hdigits hlen (by decide) rfl hbehind, Bool.or_true]
    rfl

/-! ## What is marked and what is deleted -/

/-- A path in a directory that is searched for logs. -/
def InLogRoot (path : Location) : Prop := ∃ root ∈ logRoots, ∃ n, path = root ++ [n]

section Logs

variable {δ : Type} (host : TmpHost δ) (options : DiskOptions)

/-- The path is listed in a log root, and a file that no process holds. -/
structure FreeLog (path q : Location) : Prop where
  listed : ∃ root ∈ logRoots, ∃ n ∈ host.readDirNames root, path = root ++ [n]
  file : ∃ data, host.symlinkMetadata path = some (q, .file data)
  free : (((ProcSnapshot.read host.procs).capture path).blockingReason path) = none

/-- The log is large, or passes the name test and is old. -/
def DueLog (path q : Location) : Prop :=
  if isRotatedLogName (baseName path) then options.tmpMinAgeHours ≤ logAge host q
  else oversizedLogBytes ≤ host.len q

/-- The name marks a rotation, and the age is at least the floor. -/
def OldRotation (path : Location) : Prop :=
  MarkedRotation (baseName path) ∧ ∃ q data, host.symlinkMetadata path = some (q, .file data) ∧
    options.tmpMinAgeHours ≤ logAge host q

variable {host options}

theorem logEntry_eq_some {path : Location} {log : OversizedLog} :
    logEntry host options.tmpMinAgeHours path = some log ↔
      ∃ q data, host.symlinkMetadata path = some (q, .file data) ∧ DueLog host options path q ∧
        log = { path := path, bytes := host.len q, rotated := isRotatedLogName (baseName path),
                ageHours := logAge host q } := by
  unfold logEntry DueLog
  cases hmeta : host.symlinkMetadata path with
  | none => simp
  | some found =>
    obtain ⟨q, e⟩ := found
    cases e with
    | file data =>
      cases isRotatedLogName (baseName path) <;> grind
    | dir => simp
    | symlink target => simp
    | special => simp

theorem mem_findOversizedLogs {log : OversizedLog} :
    log ∈ findOversizedLogs host options.tmpMinAgeHours ↔
      ∃ root ∈ logRoots, ∃ n ∈ host.readDirNames root,
        logEntry host options.tmpMinAgeHours (root ++ [n]) = some log := by
  unfold findOversizedLogs
  rw [List.mem_insertionSort]
  simp only [List.mem_flatMap, List.mem_filterMap]

/-- **What is marked for deletion**: the logs that no process holds and that are due. -/
theorem marked_log_iff {path : Location} :
    (∃ f ∈ auditLogs host options, f.disposition = .apply ∧ f.path = path) ↔
      ∃ q, FreeLog host path q ∧ DueLog host options path q := by
  have hfinding : ∀ log : OversizedLog,
      (logFinding (ProcSnapshot.read host.procs) log).path = log.path ∧
      ((logFinding (ProcSnapshot.read host.procs) log).disposition = .apply ↔
        ((ProcSnapshot.read host.procs).capture log.path).blockingReason log.path = none) := by
    intro log
    unfold logFinding
    dsimp only
    cases ((ProcSnapshot.read host.procs).capture log.path).blockingReason log.path with
    | none => simp
    | some reason => simp
  unfold auditLogs
  constructor
  · rintro ⟨f, hf, happly, rfl⟩
    obtain ⟨log, hlog, rfl⟩ := List.mem_map.mp hf
    obtain ⟨root, hroot, n, hn, hentry⟩ := mem_findOversizedLogs.mp hlog
    obtain ⟨q, data, hmeta, hdue, rfl⟩ := logEntry_eq_some.mp hentry
    rw [(hfinding _).1]
    exact ⟨q, ⟨⟨root, hroot, n, hn, rfl⟩, ⟨data, hmeta⟩, (hfinding _).2.mp happly⟩, hdue⟩
  · rintro ⟨q, ⟨⟨root, hroot, n, hn, rfl⟩, ⟨data, hmeta⟩, hfree⟩, hdue⟩
    have hentry := logEntry_eq_some.mpr ⟨q, data, hmeta, hdue, rfl⟩
    refine ⟨_, List.mem_map_of_mem (mem_findOversizedLogs.mpr ⟨root, hroot, n, hn, hentry⟩),
      (hfinding _).2.mpr hfree, (hfinding _).1⟩

end Logs

/-- **The delete pass removes what is marked**, whatever else the report says. -/
theorem apply_of_removes {report : List Seen} {ownerScan snapshotScan : ProcScan}
    {gitTempMinAgeHours : Nat} {e : DiskEvent} {path place : Location}
    (he : e ∈ (applyWithFloors report ownerScan snapshotScan gitTempMinAgeHours).events)
    (hremoves : e.Removes path place) :
    ∃ s ∈ report, s.finding.path = path ∧ s.finding.disposition = .apply := by
  obtain ⟨s, hs, hpath, hgit | ⟨-, hremoved⟩⟩ := seen_of_removes he hremoves
  · exact ⟨s, hs, hpath, hgit.1⟩
  · unfold removes at hremoved
    simp only [Bool.and_eq_true, decide_eq_true_eq] at hremoved
    exact ⟨s, hs, hpath, hremoved.1.1⟩

/-! ## Main result -/

section Spared

variable {δ : Type} (host : TmpHost δ) (options : DiskOptions)

/-- Only old rotations are marked, and only they are deleted, by a run over any report whose
findings about logs are those of the audit. -/
def LogsSpared : Prop :=
  (∀ f ∈ auditLogs host options, f.disposition = .apply → OldRotation host options f.path) ∧
    ∀ (report : List Seen) (ownerScan snapshotScan : ProcScan),
      (∀ s ∈ report, InLogRoot s.finding.path → s.finding ∈ auditLogs host options) →
        ∀ e ∈ (applyWithFloors report ownerScan snapshotScan options.gitTempMinAgeHours).events,
          ∀ path place, InLogRoot path → e.Removes path place → OldRotation host options path

/-- **Logs are deleted only when rotated and old**, exactly when no log that is free is large
under a name that does not pass the test, or old under a name that passes and marks nothing. -/
theorem logs_spared_iff :
    LogsSpared host options ↔
      ∀ path q, FreeLog host path q →
        if isRotatedLogName (baseName path) then
          options.tmpMinAgeHours ≤ logAge host q → MarkedRotation (baseName path)
        else host.len q < oversizedLogBytes := by
  constructor
  · rintro ⟨hmarked, -⟩ path q hlog
    have hgood : DueLog host options path q → OldRotation host options path := by
      intro hdue
      obtain ⟨f, hf, happly, rfl⟩ := marked_log_iff.mpr ⟨q, hlog, hdue⟩
      exact hmarked f hf happly
    unfold DueLog at hgood
    split
    · next hname =>
      rw [if_pos hname] at hgood
      exact fun hold => (hgood hold).1
    · next hname =>
      rw [if_neg hname] at hgood
      by_contra hlarge
      exact hname (isRotatedLogName_of_marked (hgood (Nat.le_of_not_lt hlarge)).1)
  · intro hcond
    have hmarked : ∀ f ∈ auditLogs host options, f.disposition = .apply →
        OldRotation host options f.path := by
      intro f hf happly
      obtain ⟨q, hlog, hdue⟩ := marked_log_iff.mp ⟨f, hf, happly, rfl⟩
      have hq := hcond f.path q hlog
      obtain ⟨data, hmeta⟩ := hlog.file
      unfold DueLog at hdue
      split at hq
      · next hname =>
        rw [if_pos hname] at hdue
        exact ⟨hq hdue, q, data, hmeta, hdue⟩
      · next hname =>
        rw [if_neg hname] at hdue
        exact absurd hq (Nat.not_lt.mpr hdue)
    refine ⟨hmarked, fun report ownerScan snapshotScan hreport e he path place hin hremoves => ?_⟩
    obtain ⟨s, hs, hpath, happly⟩ := apply_of_removes he hremoves
    rw [← hpath] at hin ⊢
    exact hmarked _ (hreport s hs hin) happly

end Spared

/-! ## A live log -/

private def appLogName : Name := ⟨"app.log", by decide⟩

private def appLogFs : FileTree.Fs Unit :=
  (((∅ : FileTree.Fs Unit).insert [varDirName] .dir).insert [varDirName, logDirName] .dir).insert
    [varDirName, logDirName, appLogName] (.file ())

private theorem epoch_inRange : -(2 ^ 63 * 10 ^ 9) ≤ (0 : Int) ∧ (0 : Int) < 2 ^ 63 * 10 ^ 9 := by
  decide

/-- `/var/log/app.log`, a gibibyte, written a moment ago. -/
private def liveLogHost : TmpHost Unit where
  fs := appLogFs
  closed := FileTree.closed_of_keys (by decide)
  cwd := []
  cwd_dir := rfl
  plain := FileTree.plain_of_keys (by decide)
  mtime := fun _ => some ⟨0, epoch_inRange⟩
  len := fun _ => 1024 * 1024 * 1024
  now := ⟨0, epoch_inRange⟩
  procs := some []
  pids := nodup_noProcs

private def dayFloors : DiskOptions where
  gitTempMinAgeHours := 24
  tmpMinAgeHours := 24
  tmpE2ePatterns := []
  tmpE2eMinAgeHours := 6

/-- **A live log that is merely large** is marked, and the run unlinks it. -/
theorem live_log_deleted :
    ¬ LogsSpared liveLogHost dayFloors ∧
      DiskEvent.unlinked [varDirName, logDirName, appLogName]
          (some [varDirName, logDirName, appLogName]) ∈
        (applyWithFloors ((auditLogs liveLogHost dayFloors).map fun f =>
          { finding := f, os := liveLogHost.answers f.path }) (some []) (some []) 24).events := by
  refine ⟨?_, by decide +kernel⟩
  rintro ⟨hmarked, -⟩
  have hfound : ∃ f ∈ auditLogs liveLogHost dayFloors, f.disposition = .apply ∧
      f.path = [varDirName, logDirName, appLogName] := by
    decide +kernel
  obtain ⟨f, hf, happly, hpath⟩ := hfound
  obtain ⟨hname, -⟩ := hmarked f hf happly
  have hpass := isRotatedLogName_of_marked hname
  rw [hpath] at hpass
  exact absurd hpass (by decide)

end DraconGuard
