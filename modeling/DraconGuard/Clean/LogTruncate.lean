import DraconGuard.Lib.Lines

/-!
# Cutting a log file

`truncate_log_file` (main.rs:6029). Without header lines the file is cut at the maximum; with
them its lines are collected, the headers whatever they take and then as many as fit, and
written back over the same inode.

| here | there |
|------|-------|
| `Lines.lines` | `BufReader::split`: an empty last segment is an empty last line, the file's own terminator yields none |
| `keepSegments` | 6073-6104, the loop over the segments |
| `Lines.unlines` | 6105-6109 `replacement` |
| `overwrite`, `setLen` | 6119 `write_all` at offset 0, 6121 `set_len` |
| `now` | the file as the two size checks and the write find it |

The source says of the replacement "always shorter: capped at max_size < original", and of an
empty last segment that it "is always the artifact". Neither holds when every line is a header:
a last line that is open gains a newline, and one that is blank is lost
(`truncation_law_iff`). Failing system calls are left out.
-/

namespace DraconGuard

def newline : UInt8 := 10

/-- What `truncate_log_file` leaves in the file, and what it returns. -/
structure LogTruncation where
  content : List UInt8
  reclaimed : Nat
deriving DecidableEq, Repr

/-- `File::set_len`. -/
def setLen (content : List UInt8) (size : Nat) : List UInt8 :=
  content.take size ++ List.replicate (size - content.length) 0

/-- `write_all` at offset 0. -/
def overwrite (content bytes : List UInt8) : List UInt8 := bytes ++ content.drop bytes.length

/-- The loop over the segments (main.rs:6073-6104): what was kept before takes `keptBytes`. -/
def keepSegments (maxSizeBytes preserveHeaderLines : Nat) :
    Nat → Nat → List (List UInt8) → List (List UInt8)
  | _, _, [] => []
  | keptBytes, headersKept, seg :: rest =>
    -- taken for the terminator of the file
    if rest = [] ∧ seg = [] then []
    else if headersKept < preserveHeaderLines then
      seg :: keepSegments maxSizeBytes preserveHeaderLines (keptBytes + seg.length + 1)
        (headersKept + 1) rest
    else if maxSizeBytes < keptBytes + seg.length + 1 then []
    else
      seg :: keepSegments maxSizeBytes preserveHeaderLines (keptBytes + seg.length + 1)
        headersKept rest

/-- `truncate_log_file` (main.rs:6029-6126): `content` is measured and read, `now` is what is
there when it is about to be cut. -/
def truncateLogFile (content now : List UInt8) (maxSizeBytes preserveHeaderLines : Nat) :
    LogTruncation :=
  let originalSize := content.length
  if originalSize ≤ maxSizeBytes then { content := now, reclaimed := 0 }
  else if preserveHeaderLines = 0 then
    if now.length ≠ originalSize then { content := now, reclaimed := 0 }
    else
      let cut := setLen now maxSizeBytes
      { content := cut, reclaimed := originalSize - cut.length }
  else
    let segments :=
      keepSegments maxSizeBytes preserveHeaderLines 0 0 (Lines.lines newline content)
    let replacement := Lines.unlines newline segments
    if now.length ≠ originalSize then { content := now, reclaimed := 0 }
    else
      let output := setLen (overwrite now replacement) replacement.length
      { content := output, reclaimed := originalSize - output.length }

/-- What a cut may do to a log that nobody else writes to. -/
structure TruncationLaw (content : List UInt8) (maxSizeBytes preserveHeaderLines : Nat)
    (out : LogTruncation) : Prop where
  /-- What is left is a beginning of the file. -/
  start : out.content <+: content
  /-- With header lines it is whole lines, all the headers among them. -/
  lines : 0 < preserveHeaderLines →
    ∃ m, min preserveHeaderLines (Lines.wholeLines newline content).length ≤ m ∧
      out.content = ((Lines.wholeLines newline content).take m).flatten
  /-- It fits, unless the headers alone do not. -/
  size : out.content.length ≤ maxSizeBytes ∨
    maxSizeBytes <
      ((Lines.wholeLines newline content).take preserveHeaderLines).flatten.length
  accounted : out.reclaimed + out.content.length = content.length

/-- The file ends with a closed line that is not blank. -/
def EndsInText (content : List UInt8) : Prop :=
  ∃ front b, content = front ++ [b, newline] ∧ b ≠ newline

/-! ## Writing back -/

/-- Writing at the front and cutting behind it leaves what was written. -/
theorem setLen_overwrite (content bytes : List UInt8) :
    setLen (overwrite content bytes) bytes.length = bytes := by
  have hlen : bytes.length - (overwrite content bytes).length = 0 := by
    simp [overwrite]
  rw [setLen, hlen, overwrite, List.take_left, List.replicate_zero, List.append_nil]

theorem setLen_of_le {content : List UInt8} {size : Nat} (h : size ≤ content.length) :
    setLen content size = content.take size := by
  rw [setLen, Nat.sub_eq_zero_of_le h, List.replicate_zero, List.append_nil]

/-! ## The loop -/

section Loop

variable {maxSizeBytes preserveHeaderLines : Nat} {segments : List (List UInt8)}

theorem unlines_cons (seg : List UInt8) (segments : List (List UInt8)) :
    (Lines.unlines newline (seg :: segments)).length =
      seg.length + 1 + (Lines.unlines newline segments).length := by
  simp only [Lines.unlines, List.flatMap_cons, List.length_append, List.length_singleton]

/-- **The loop**: it keeps the first segments, the headers that have a line behind them, and
beyond them only what fits. -/
theorem keepSegments_take (segments : List (List UInt8))
    (maxSizeBytes keptBytes headersKept : Nat) (hheaders : headersKept ≤ preserveHeaderLines) :
    ∃ m ≤ segments.length,
      keepSegments maxSizeBytes preserveHeaderLines keptBytes headersKept segments =
        segments.take m ∧
      (preserveHeaderLines - headersKept < segments.length →
        preserveHeaderLines - headersKept ≤ m) ∧
      (m ≤ preserveHeaderLines - headersKept ∨
        keptBytes + (Lines.unlines newline (segments.take m)).length ≤ maxSizeBytes) := by
  induction segments generalizing keptBytes headersKept with
  | nil => exact ⟨0, Nat.le_refl 0, rfl, by simp, Or.inl (Nat.zero_le _)⟩
  | cons seg rest ih =>
    rw [keepSegments]
    split
    · next hblank =>
      refine ⟨0, Nat.zero_le _, rfl, ?_, Or.inl (Nat.zero_le _)⟩
      simp [hblank.1]
    · split
      · next hheader =>
        obtain ⟨m, hm, hkeep, hall, hfit⟩ := ih (keptBytes + seg.length + 1) (headersKept + 1) hheader
        refine ⟨m + 1, by simpa using hm, by rw [hkeep, List.take_succ_cons], ?_, ?_⟩
        · intro hlt
          rw [List.length_cons] at hlt
          have := hall (by omega)
          omega
        · rw [List.take_succ_cons, unlines_cons]
          omega
      · split
        · refine ⟨0, Nat.zero_le _, rfl, fun _ => by omega, Or.inl (Nat.zero_le _)⟩
        · obtain ⟨m, hm, hkeep, -, hfit⟩ := ih (keptBytes + seg.length + 1) headersKept hheaders
          refine ⟨m + 1, by simpa using hm, by rw [hkeep, List.take_succ_cons],
            fun _ => by omega, Or.inr ?_⟩
          rw [List.take_succ_cons, unlines_cons]
          rcases hfit with hnone | hfit
          · have hzero : m = 0 := by omega
            simp [hzero, Lines.unlines]
            omega
          · omega

/-- All segments are headers: each is kept but a blank last one. -/
theorem keepSegments_headers (keptBytes headersKept : Nat)
    (h : headersKept + segments.length ≤ preserveHeaderLines) :
    keepSegments maxSizeBytes preserveHeaderLines keptBytes headersKept segments =
      if segments.getLast? = some [] then segments.dropLast else segments := by
  induction segments generalizing keptBytes headersKept with
  | nil => rfl
  | cons seg rest ih =>
    rw [List.length_cons] at h
    rw [keepSegments]
    by_cases hrest : rest = []
    · subst hrest
      by_cases hseg : seg = []
      · simp [hseg]
      · simp [hseg, keepSegments, show headersKept < preserveHeaderLines by omega]
    · rw [if_neg (fun hboth => hrest hboth.1), if_pos (by omega), ih _ _ (by omega),
        List.getLast?_cons_of_ne_nil hrest, List.dropLast_cons_of_ne_nil hrest]
      split <;> rfl

end Loop

/-! ## The law -/

section Law

variable {content : List UInt8} {maxSizeBytes preserveHeaderLines : Nat}

/-- What is written back in place of a log with header lines. -/
def headerCut (content : List UInt8) (maxSizeBytes preserveHeaderLines : Nat) : List UInt8 :=
  Lines.unlines newline
    (keepSegments maxSizeBytes preserveHeaderLines 0 0 (Lines.lines newline content))

theorem truncateLogFile_of_le (h : content.length ≤ maxSizeBytes) :
    truncateLogFile content content maxSizeBytes preserveHeaderLines =
      { content := content, reclaimed := 0 } := by
  rw [truncateLogFile, if_pos h]

theorem truncateLogFile_no_headers (h : maxSizeBytes < content.length) :
    truncateLogFile content content maxSizeBytes 0 =
      { content := content.take maxSizeBytes, reclaimed := content.length - maxSizeBytes } := by
  have hle : maxSizeBytes ≤ content.length := Nat.le_of_lt h
  rw [truncateLogFile, if_neg (Nat.not_le.mpr h), if_pos rfl, if_neg (fun hne => hne rfl)]
  dsimp only
  rw [setLen_of_le hle, List.length_take_of_le hle]

theorem truncateLogFile_headers (h : maxSizeBytes < content.length)
    (hheaders : 0 < preserveHeaderLines) :
    truncateLogFile content content maxSizeBytes preserveHeaderLines =
      { content := headerCut content maxSizeBytes preserveHeaderLines
        reclaimed :=
          content.length - (headerCut content maxSizeBytes preserveHeaderLines).length } := by
  rw [truncateLogFile, if_neg (Nat.not_le.mpr h), if_neg (Nat.pos_iff_ne_zero.mp hheaders),
    if_neg (fun hne => hne rfl)]
  dsimp only
  rw [setLen_overwrite]
  rfl

theorem flatten_take_prefix (lists : List (List UInt8)) (m : Nat) :
    (lists.take m).flatten <+: lists.flatten :=
  ⟨(lists.drop m).flatten, by rw [← List.flatten_append, List.take_append_drop]⟩

/-- Whole lines from the start, the headers among them: only their size is left to show. -/
theorem law_of_whole_lines {cut : List UInt8} {m : Nat}
    (hm : min preserveHeaderLines (Lines.wholeLines newline content).length ≤ m)
    (hcut : cut = ((Lines.wholeLines newline content).take m).flatten)
    (hsize : cut.length ≤ maxSizeBytes ∨ maxSizeBytes <
      ((Lines.wholeLines newline content).take preserveHeaderLines).flatten.length) :
    TruncationLaw content maxSizeBytes preserveHeaderLines
      { content := cut, reclaimed := content.length - cut.length } := by
  have hstart : cut <+: content := by
    have h := flatten_take_prefix (Lines.wholeLines newline content) m
    rwa [← hcut, Lines.flatten_wholeLines] at h
  exact ⟨hstart, fun _ => ⟨m, hm, hcut⟩, hsize, Nat.sub_add_cancel hstart.length_le⟩

theorem law_of_le (h : content.length ≤ maxSizeBytes) :
    TruncationLaw content maxSizeBytes preserveHeaderLines
      (truncateLogFile content content maxSizeBytes preserveHeaderLines) := by
  rw [truncateLogFile_of_le h]
  refine ⟨List.prefix_refl content, fun _ => ⟨_, Nat.min_le_right _ _, ?_⟩, Or.inl h,
    Nat.zero_add _⟩
  rw [List.take_length, Lines.flatten_wholeLines]

theorem law_no_headers (h : maxSizeBytes < content.length) :
    TruncationLaw content maxSizeBytes 0 (truncateLogFile content content maxSizeBytes 0) := by
  rw [truncateLogFile_no_headers h]
  refine ⟨List.take_prefix _ _, fun hpos => absurd hpos (Nat.lt_irrefl 0), Or.inl ?_, ?_⟩
  · exact List.length_take_le _ _
  · have hlen := List.length_take_of_le (Nat.le_of_lt h)
    dsimp only
    omega

/-- A line behind the headers: the loop stops before the end of the file. -/
theorem law_of_more_lines (h : maxSizeBytes < content.length)
    (hlines : preserveHeaderLines < (Lines.wholeLines newline content).length)
    (hheaders : 0 < preserveHeaderLines) :
    TruncationLaw content maxSizeBytes preserveHeaderLines
      (truncateLogFile content content maxSizeBytes preserveHeaderLines) := by
  rw [truncateLogFile_headers h hheaders]
  rw [Lines.length_wholeLines] at hlines
  obtain ⟨m, hm, hkeep, hall, hfit⟩ :=
    keepSegments_take (Lines.lines newline content) maxSizeBytes 0 0 (Nat.zero_le _)
  have hmany : preserveHeaderLines ≤ m := hall hlines
  have hlt : m < (Lines.lines newline content).length := by
    by_contra hlast
    have hm' : m = (Lines.lines newline content).length := by omega
    have hlong := Lines.length_le_unlines newline content
    rw [hm', List.take_length] at hfit
    omega
  have hcut : headerCut content maxSizeBytes preserveHeaderLines =
      ((Lines.wholeLines newline content).take m).flatten := by
    rw [headerCut, hkeep, Lines.unlines_eq_flatten, Lines.take_wholeLines hlt]
  refine law_of_whole_lines (Nat.le_trans (Nat.min_le_left _ _) hmany) hcut ?_
  rcases hfit with honly | hfit
  · have heq : m = preserveHeaderLines := by omega
    rw [hcut, heq]
    omega
  · left
    rw [headerCut, hkeep]
    omega

/-- Every line is a header: what the loop leaves, by how the file ends. -/
theorem headerCut_headers
    (hlines : (Lines.wholeLines newline content).length ≤ preserveHeaderLines) :
    headerCut content maxSizeBytes preserveHeaderLines =
      if (Lines.lines newline content).getLast? = some [] then
        Lines.unlines newline (Lines.lines newline content).dropLast
      else Lines.unlines newline (Lines.lines newline content) := by
  rw [Lines.length_wholeLines] at hlines
  rw [headerCut, keepSegments_headers 0 0 (by omega)]
  split <;> rfl

/-- A closed last line: kept when it is not blank, else lost. -/
theorem headerCut_closed {front line : List UInt8} (maxSizeBytes : Nat)
    (hfront : Lines.AtStart newline front)
    (hline : newline ∉ line) (hcontent : content = front ++ (line ++ [newline]))
    (hlines : (Lines.wholeLines newline content).length ≤ preserveHeaderLines) :
    headerCut content maxSizeBytes preserveHeaderLines = if line = [] then front else content := by
  have hsplit : Lines.lines newline content = Lines.lines newline front ++ [line] := by
    rw [hcontent, Lines.lines_append hfront, Lines.lines_record hline]
    rfl
  have hclosed : Lines.AtStart newline content := Or.inr (by simp [hcontent])
  have hall := Lines.unlines_lines hclosed
  rw [headerCut_headers hlines]
  rw [hsplit] at hall ⊢
  simp only [List.getLast?_concat, List.dropLast_concat, Option.some.injEq]
  split
  · exact Lines.unlines_lines hfront
  · exact hall

/-- An open last line gains the newline it did not have. -/
theorem headerCut_open {front line : List UInt8} (maxSizeBytes : Nat)
    (hfront : Lines.AtStart newline front)
    (hline : newline ∉ line) (hne : line ≠ []) (hcontent : content = front ++ line)
    (hlines : (Lines.wholeLines newline content).length ≤ preserveHeaderLines) :
    headerCut content maxSizeBytes preserveHeaderLines = content ++ [newline] := by
  have hsplit : Lines.lines newline content = Lines.lines newline front ++ [line] := by
    rw [hcontent, Lines.lines_append_open hfront hline hne]
  have hall := Lines.unlines_lines hfront
  rw [headerCut_headers hlines, hsplit, if_neg (by simp [hne])]
  unfold Lines.unlines at hall ⊢
  rw [List.flatMap_append, hall, hcontent]
  simp

theorem endsInText_closed_iff {front line : List UInt8} (hfront : Lines.AtStart newline front)
    (hline : newline ∉ line) : EndsInText (front ++ (line ++ [newline])) ↔ line ≠ [] := by
  constructor
  · rintro ⟨init, b, heq, hb⟩ rfl
    have hlast : front = init ++ [b] := by
      have h : front ++ [newline] = (init ++ [b]) ++ [newline] := by simpa using heq
      exact List.append_cancel_right h
    rcases hfront with hnil | hend
    · simp [hnil] at hlast
    · exact hb (by simpa [hlast] using hend)
  · intro hne
    obtain ⟨init, b, rfl⟩ := (List.eq_nil_or_concat line).resolve_left hne
    refine ⟨front ++ init, b, by simp, ?_⟩
    rintro rfl
    simp at hline

theorem not_endsInText_open {front line : List UInt8} (hline : newline ∉ line)
    (hne : line ≠ []) : ¬ EndsInText (front ++ line) := by
  rintro ⟨init, b, heq, -⟩
  obtain ⟨start, c, rfl⟩ := (List.eq_nil_or_concat line).resolve_left hne
  have hlast := congrArg List.getLast? heq
  have hc : c = newline := by simpa using hlast
  simp [hc] at hline

/-- **Every line a header**: the law is kept exactly when the file ends in text. -/
theorem law_headers_iff (h : maxSizeBytes < content.length) (hheaders : 0 < preserveHeaderLines)
    (hlines : (Lines.wholeLines newline content).length ≤ preserveHeaderLines) :
    TruncationLaw content maxSizeBytes preserveHeaderLines
      (truncateLogFile content content maxSizeBytes preserveHeaderLines) ↔
      EndsInText content := by
  have hne : content ≠ [] := List.ne_nil_of_length_pos (Nat.zero_lt_of_lt h)
  obtain ⟨front, line, hfront, hline, hcontent | ⟨hcontent, hopen⟩⟩ :=
    Lines.exists_last_line newline hne
  · have hcut := headerCut_closed maxSizeBytes hfront hline hcontent hlines
    rw [truncateLogFile_headers h hheaders, hcontent, endsInText_closed_iff hfront hline,
      ← hcontent]
    constructor
    · rintro hlaw rfl
      -- the blank last line is missing, but every line is a header
      obtain ⟨m, hm, hwhole⟩ := hlaw.lines hheaders
      rw [Nat.min_eq_right hlines] at hm
      rw [hcut, if_pos rfl, List.take_of_length_le hm, Lines.flatten_wholeLines, hcontent]
        at hwhole
      simp at hwhole
    · intro hblank
      rw [if_neg hblank] at hcut
      refine law_of_whole_lines (Nat.min_le_right _ _) ?_ (Or.inr ?_)
      · rw [hcut, List.take_length, Lines.flatten_wholeLines]
      · rw [List.take_of_length_le hlines, Lines.flatten_wholeLines]
        exact h
  · have hcut := headerCut_open maxSizeBytes hfront hline hopen hcontent hlines
    rw [truncateLogFile_headers h hheaders]
    refine iff_of_false (fun hlaw => ?_) (hcontent ▸ not_endsInText_open hline hopen)
    have hlen := hlaw.start.length_le
    rw [hcut, List.length_append, List.length_singleton] at hlen
    exact Nat.not_succ_le_self _ hlen

end Law

/-- **Cutting a log** keeps to the law exactly when there is nothing to cut, no header line to
preserve, a line behind the headers, or a last line that is closed and not blank. -/
theorem truncation_law_iff (content : List UInt8) (maxSizeBytes preserveHeaderLines : Nat) :
    TruncationLaw content maxSizeBytes preserveHeaderLines
      (truncateLogFile content content maxSizeBytes preserveHeaderLines) ↔
      content.length ≤ maxSizeBytes ∨ preserveHeaderLines = 0 ∨
        preserveHeaderLines < (Lines.wholeLines newline content).length ∨
        EndsInText content := by
  by_cases hsmall : content.length ≤ maxSizeBytes
  · exact iff_of_true (law_of_le hsmall) (Or.inl hsmall)
  have hlarge : maxSizeBytes < content.length := Nat.lt_of_not_le hsmall
  rcases Nat.eq_zero_or_pos preserveHeaderLines with rfl | hheaders
  · exact iff_of_true (law_no_headers hlarge) (Or.inr (Or.inl rfl))
  by_cases hmore : preserveHeaderLines < (Lines.wholeLines newline content).length
  · exact iff_of_true (law_of_more_lines hlarge hmore hheaders) (Or.inr (Or.inr (Or.inl hmore)))
  rw [law_headers_iff hlarge hheaders (Nat.le_of_not_lt hmore)]
  have hpos := Nat.pos_iff_ne_zero.mp hheaders
  simp [hsmall, hmore, hpos]

/-- `ab` and no newline, one header line: the file grows by one byte and 0 is returned. -/
theorem open_header_grows :
    ¬ (∀ content maxSizeBytes preserveHeaderLines,
      TruncationLaw content maxSizeBytes preserveHeaderLines
        (truncateLogFile content content maxSizeBytes preserveHeaderLines)) ∧
      truncateLogFile [97, 98] [97, 98] 1 1 =
        { content := [97, 98, 10], reclaimed := 0 } ∧
      -- `a`, a blank line, two header lines: the blank line is lost
      truncateLogFile [97, 10, 10] [97, 10, 10] 1 2 =
        { content := [97, 10], reclaimed := 1 } := by
  have hgrown : truncateLogFile [97, 98] [97, 98] 1 1 =
      { content := [97, 98, 10], reclaimed := 0 } := by decide
  refine ⟨fun hlaw => ?_, hgrown, by decide⟩
  have hstart := (hlaw [97, 98] 1 1).start
  rw [hgrown] at hstart
  exact absurd hstart.length_le (by decide)

end DraconGuard
