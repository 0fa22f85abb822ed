import DraconGuard.Guard.EventLogLaw

/-!
# The tail reader, buffer by buffer

`read_tail_from_reader` and `discard_partial_line` (src/src/events.rs:292-352) as they read: a
buffer at a time, cut at its first newline. `EventLog.lean` feeds the same states a byte at a time;
here both are the same, however the bytes come in buffers (**`readTailFromBuffers_eq`**), and what
is kept is said of the whole content (**`readTailFromBuffers_exact`**).

`retain_event_line` pops from an empty queue forever when it counts more bytes than its bound; the
model stops there, and a queue whose bytes are counted (`Retained.Within`) does not come there.
-/

/-! ## Reading -/

/-- A `BufRead` over what is left of its content. -/
structure BufReader where
  rest : Bytes
  /-- how many bytes each further call of `fill_buf` shows beside the first -/
  sizes : Nat → Nat

/-- Empty at the end of the content and nowhere else. -/
def BufReader.fillBuf (reader : BufReader) : Bytes := reader.rest.take (reader.sizes 0 + 1)

def BufReader.consume (reader : BufReader) (count : Nat) : BufReader where
  rest := reader.rest.drop count
  sizes := fun call => reader.sizes (call + 1)

theorem BufReader.fillBuf_isEmpty {reader : BufReader} :
    reader.fillBuf.isEmpty = true ↔ reader.rest = [] := by
  simp [fillBuf, List.take_eq_nil_iff]

theorem BufReader.consume_lt {reader : BufReader} {count : Nat}
    (h : ¬ reader.fillBuf.isEmpty = true) (hcount : 0 < count) :
    (reader.consume count).rest.length < reader.rest.length := by
  have hpos : 0 < reader.rest.length :=
    List.length_pos_iff.mpr fun hnil => h (BufReader.fillBuf_isEmpty.mpr hnil)
  rw [consume, List.length_drop]
  omega

theorem BufReader.fillBuf_pos {reader : BufReader} (h : ¬ reader.fillBuf.isEmpty = true) :
    0 < reader.fillBuf.length := List.length_pos_iff.mpr (by simpa using h)

/-- `discard_partial_line` (lines 292-306). -/
def discardPartialBuffers (reader : BufReader) : BufReader :=
  if _ : reader.fillBuf.isEmpty then reader
  else
    match reader.fillBuf.findIdx? (· == newline) with
    | some position => reader.consume (position + 1)
    | none => discardPartialBuffers (reader.consume reader.fillBuf.length)
termination_by reader.rest.length
decreasing_by
  exact BufReader.consume_lt ‹_› (BufReader.fillBuf_pos ‹_›)

/-- A part of a line. -/
def TailReader.extend (r : TailReader) (bytes : Bytes) : TailReader :=
  let (current, tooLong) := appendBoundedLineBytes r.current r.currentTooLong bytes
  { r with current := current, currentTooLong := tooLong }

/-- The loop of `read_tail_from_reader`. -/
def readBuffers (tail : Nat) (reader : BufReader) (r : TailReader) : TailReader :=
  if _ : reader.fillBuf.isEmpty then r
  else
    match reader.fillBuf.findIdx? (· == newline) with
    | some position =>
      readBuffers tail (reader.consume (position + 1))
        ((r.extend (reader.fillBuf.take position)).endLine tail)
    | none => readBuffers tail (reader.consume reader.fillBuf.length) (r.extend reader.fillBuf)
termination_by reader.rest.length
decreasing_by
  · exact BufReader.consume_lt ‹_› (Nat.succ_pos position)
  · exact BufReader.consume_lt ‹_› (BufReader.fillBuf_pos ‹_›)

/-- `read_tail_from_reader` (lines 308-352). -/
def readTailFromBuffers (tail : Nat) (reader : BufReader) (retained : Retained) : Retained × Nat :=
  let r := (readBuffers tail reader { retained := retained }).finish tail
  (r.retained, r.totalLines)

/-! ## Buffers do not matter -/

/-- What a buffer with a newline says of the content. -/
theorem BufReader.rest_of_some {reader : BufReader} {position : Nat}
    (h : reader.fillBuf.findIdx? (· == newline) = some position) :
    newline ∉ reader.fillBuf.take position ∧
      reader.rest = reader.fillBuf.take position ++
        newline :: (reader.consume (position + 1)).rest := by
  obtain ⟨hlt, hat, hbefore⟩ := List.findIdx?_eq_some_iff_getElem.mp h
  have hposition : position < reader.sizes 0 + 1 ∧ position < reader.rest.length := by
    rw [fillBuf, List.length_take] at hlt
    exact Nat.lt_min.mp hlt
  have hnewline : reader.rest.get ⟨position, hposition.2⟩ = newline := by
    simpa [fillBuf] using hat
  constructor
  · intro hmem
    obtain ⟨i, hi, heq⟩ := List.getElem_of_mem hmem
    have hbound : i < position := by
      rw [List.length_take] at hi
      omega
    rw [List.getElem_take] at heq
    exact hbefore i hbound (by simp [heq])
  · have htake : reader.fillBuf.take position = reader.rest.take position := by
      rw [fillBuf, List.take_take, Nat.min_eq_left (Nat.le_of_lt hposition.1)]
    rw [htake, consume]
    calc reader.rest = reader.rest.take position ++ reader.rest.drop position :=
          (List.take_append_drop ..).symm
      _ = reader.rest.take position ++ newline :: reader.rest.drop (position + 1) := by
          rw [List.drop_eq_getElem_cons hposition.2, ← hnewline, List.get_eq_getElem]

/-- What a buffer without one says. -/
theorem BufReader.rest_of_none {reader : BufReader}
    (h : reader.fillBuf.findIdx? (· == newline) = none) :
    newline ∉ reader.fillBuf ∧
      reader.rest = reader.fillBuf ++ (reader.consume reader.fillBuf.length).rest := by
  constructor
  · intro hmem
    have hno := List.findIdx?_eq_none_iff.mp h newline hmem
    simp at hno
  · rw [consume]
    unfold fillBuf
    rw [List.length_take]
    by_cases hle : reader.sizes 0 + 1 ≤ reader.rest.length
    · rw [Nat.min_eq_left hle, List.take_append_drop]
    · have hall : reader.rest.length ≤ reader.sizes 0 + 1 := Nat.le_of_not_le hle
      rw [Nat.min_eq_right hall, List.take_of_length_le hall, List.drop_length, List.append_nil]

theorem TailReader.extend_extend (r : TailReader) (xs ys : Bytes) :
    (r.extend xs).extend ys = r.extend (xs ++ ys) := by
  unfold TailReader.extend
  rw [appendBoundedLineBytes_append]

/-- The bytes of a part of a line may come one at a time. -/
theorem TailReader.foldl_byte_eq_extend (tail : Nat) {bytes : Bytes} (h : newline ∉ bytes)
    (r : TailReader) : bytes.foldl (TailReader.byte tail) r = r.extend bytes := by
  induction bytes generalizing r with
  | nil =>
    unfold TailReader.extend appendBoundedLineBytes
    cases hlong : r.currentTooLong <;> simp [← hlong]
  | cons b bytes ih =>
    obtain ⟨hb, hrest⟩ := List.ne_and_not_mem_of_not_mem_cons h
    have hone : r.byte tail b = r.extend [b] := if_neg hb.symm
    rw [List.foldl_cons, hone, ih hrest, TailReader.extend_extend, List.singleton_append]

/-- **The loop reads its content.** -/
theorem readBuffers_eq (tail : Nat) (reader : BufReader) (r : TailReader) :
    readBuffers tail reader r = reader.rest.foldl (TailReader.byte tail) r := by
  induction reader, r using readBuffers.induct tail with
  | case1 reader r hempty =>
    rw [readBuffers, dif_pos hempty, BufReader.fillBuf_isEmpty.mp hempty, List.foldl_nil]
  | case2 reader r hempty position hfind ih =>
    obtain ⟨hline, hrest⟩ := BufReader.rest_of_some hfind
    have hend : ∀ s : TailReader, s.byte tail newline = s.endLine tail := fun s => if_pos rfl
    rw [readBuffers, dif_neg hempty, hfind]
    dsimp only
    rw [ih, hrest, List.foldl_append, List.foldl_cons, TailReader.foldl_byte_eq_extend tail hline,
      hend]
  | case3 reader r hempty hfind ih =>
    obtain ⟨hline, hrest⟩ := BufReader.rest_of_none hfind
    rw [readBuffers, dif_neg hempty, hfind]
    dsimp only
    rw [ih]
    conv_rhs => rw [hrest, List.foldl_append, TailReader.foldl_byte_eq_extend tail hline]

/-- **Any buffers give what single bytes give.** -/
theorem readTailFromBuffers_eq (tail : Nat) (reader : BufReader) (retained : Retained) :
    readTailFromBuffers tail reader retained = readTailFromReader tail reader.rest retained := by
  unfold readTailFromBuffers readTailFromReader
  rw [readBuffers_eq]

/-- **The partial line is passed over**, in any buffers. -/
theorem discardPartialBuffers_rest (reader : BufReader) :
    (discardPartialBuffers reader).rest = discardPartialLine reader.rest := by
  unfold discardPartialLine
  induction reader using discardPartialBuffers.induct with
  | case1 reader hempty =>
    rw [discardPartialBuffers, dif_pos hempty, BufReader.fillBuf_isEmpty.mp hempty]
    rfl
  | case2 reader hempty position hfind =>
    obtain ⟨hline, hrest⟩ := BufReader.rest_of_some hfind
    have hall : ∀ b ∈ reader.fillBuf.take position, (b != newline) = true := fun b hb => by
      have hne : b ≠ newline := fun heq => hline (heq ▸ hb)
      simpa using hne
    rw [discardPartialBuffers, dif_neg hempty, hfind]
    dsimp only
    conv_rhs => rw [hrest, List.dropWhile_append_of_pos hall]
    simp
  | case3 reader hempty hfind ih =>
    obtain ⟨hline, hrest⟩ := BufReader.rest_of_none hfind
    have hall : ∀ b ∈ reader.fillBuf, (b != newline) = true := fun b hb => by
      have hne : b ≠ newline := fun heq => hline (heq ▸ hb)
      simpa using hne
    rw [discardPartialBuffers, dif_neg hempty, hfind]
    dsimp only
    rw [ih]
    conv_rhs => rw [hrest, List.dropWhile_append_of_pos hall]

/-! ## What is kept -/

/-- The state between two lines: the bytes are counted, and the lines fit. -/
structure Retained.Within (tail : Nat) (retained : Retained) : Prop where
  counted : retained.Counted
  fits : FitsTail tail retained.lines

/-- The longest end of the lines that fits. -/
structure LastLines (tail : Nat) (lines kept : List Bytes) : Prop where
  suffix : kept <:+ lines
  fits : FitsTail tail kept
  longest : ∀ other, other <:+ lines → FitsTail tail other → other <:+ kept

/-- There is one. -/
theorem LastLines.unique {tail : Nat} {lines kept kept' : List Bytes}
    (h : LastLines tail lines kept) (h' : LastLines tail lines kept') : kept = kept' :=
  (h'.longest kept h.suffix h.fits).eq_of_length_le
    (h.longest kept' h'.suffix h'.fits).length_le

theorem Retained.trim_bytes (tail : Nat) (lines : List Bytes) :
    ((Retained.trim tail lines (lines.map List.length).sum).lines.map List.length).sum ≤
      maxEventTailBytes := by
  induction lines with
  | nil => exact Nat.zero_le _
  | cons old rest ih =>
    rw [Retained.trim]
    split
    · rwa [List.map_cons, List.sum_cons, Nat.add_sub_cancel_left]
    · next hstop => exact Nat.not_lt.mp fun hover => hstop (Or.inr hover)

/-- **One line more.** -/
theorem Retained.Within.retain {tail : Nat} {retained : Retained} (h : retained.Within tail)
    (line : Bytes) : (retainEventLine tail retained line).Within tail := by
  obtain ⟨hcounted, -, hlength⟩ := retainEventLine_suffix line h.counted h.fits.1
  refine ⟨hcounted, hlength, ?_⟩
  unfold retainEventLine
  split
  · exact h.fits.2
  · rw [h.counted.concat]
    exact Retained.trim_bytes tail _

/-- **All lines.** -/
theorem Retained.Within.foldl {tail : Nat} {retained : Retained} (h : retained.Within tail)
    (lines : List Bytes) : (lines.foldl (retainEventLine tail) retained).Within tail :=
  List.foldlRecOn (motive := Retained.Within tail) lines _ h fun _ hr line _ => hr.retain line

theorem lastLines_foldl {tail : Nat} {retained : Retained} (h : retained.Within tail)
    (lines : List Bytes) : LastLines tail (retained.lines ++ lines)
      (lines.foldl (retainEventLine tail) retained).lines where
  suffix := (foldl_retainEventLine_suffix lines h.counted h.fits.1).1
  fits := (h.foldl lines).fits
  longest := fun _ hother hfits =>
    suffix_foldl_retainEventLine lines h.counted h.fits.1 hfits hother

/-! ## What is counted -/

theorem TailReader.Begun.finish_total {r : TailReader} {begun : Bytes} (h : r.Begun begun)
    (tail : Nat) :
    (r.finish tail).totalLines = r.totalLines + (Lines.linesFrom newline begun []).length := by
  unfold TailReader.finish Lines.linesFrom
  by_cases hbegun : begun = []
  · subst hbegun
    simp [h.current, h.tooLong]
  · have hcurrent : r.current.isEmpty = false := by
      rw [h.current, List.isEmpty_eq_false_iff]
      simp [hbegun, maxEventRecordBytes]
    simp [hcurrent, hbegun, TailReader.endLine]

theorem TailReader.Begun.total {r : TailReader} {begun : Bytes} (h : r.Begun begun)
    (tail : Nat) (bytes : Bytes) :
    ((bytes.foldl (TailReader.byte tail) r).finish tail).totalLines =
      r.totalLines + (Lines.linesFrom newline begun bytes).length := by
  induction bytes generalizing r begun with
  | nil => exact h.finish_total tail
  | cons b bytes ih =>
    by_cases hb : b = newline
    · have hnext : (r.endLine tail).Begun [] := ⟨rfl, rfl⟩
      have hstep : r.byte tail b = r.endLine tail := if_pos hb
      have hcount : (r.endLine tail).totalLines = r.totalLines + 1 := rfl
      rw [List.foldl_cons, hstep, ih hnext, hcount, Lines.linesFrom, if_pos hb, List.length_cons]
      omega
    · have hsame : (r.byte tail b).totalLines = r.totalLines := by
        rw [TailReader.byte, if_neg hb]
      rw [List.foldl_cons, ih (h.byte hb tail).1, hsame, Lines.linesFrom, if_neg hb]

/-- **Skipped lines count**, and one that is not closed. -/
theorem readTailFromReader_total (tail : Nat) (segment : Bytes) (retained : Retained) :
    (readTailFromReader tail segment retained).2 = (Lines.lines newline segment).length := by
  have hbegun : TailReader.Begun { retained := retained } [] := ⟨rfl, rfl⟩
  have htotal := hbegun.total tail segment
  rwa [Nat.zero_add] at htotal

/-! ## Main result -/

/-- **The tail reader is exact**, however its content comes in buffers: it keeps the longest end
that fits of the lines kept before and the lines of the content that are text and not too long,
and counts every line. What it keeps is a queue for the next file. -/
theorem readTailFromBuffers_exact (tail : Nat) (reader : BufReader) (retained : Retained)
    (h : retained.Within tail) :
    let read := readTailFromBuffers tail reader retained
    LastLines tail (retained.lines ++ (Lines.lines newline reader.rest).filterMap readLine)
        read.1.lines ∧
      read.2 = (Lines.lines newline reader.rest).length ∧
      read.1.Within tail := by
  intro read
  have hread : read = readTailFromReader tail reader.rest retained :=
    readTailFromBuffers_eq tail reader retained
  rw [hread, readTailFromReader_retained, readTailFromReader_total]
  exact ⟨lastLines_foldl h _, rfl, h.foldl _⟩

theorem retained_within_start (tail : Nat) : Retained.Within tail {} :=
  ⟨rfl, Nat.zero_le _, Nat.zero_le _⟩

/-- Two lines in buffers of one byte, and a tail of one line. -/
theorem two_lines_by_bytes :
    Retained.Within 1 {} ∧
      let read := readTailFromBuffers 1 ⟨[0x61, 0x0A, 0x62], fun _ => 0⟩ {}
      LastLines 1 ([] ++ (Lines.lines newline [0x61, 0x0A, 0x62]).filterMap readLine)
          read.1.lines ∧
        read.2 = (Lines.lines newline [0x61, 0x0A, 0x62]).length ∧
        read.1.Within 1 :=
  ⟨retained_within_start 1,
    readTailFromBuffers_exact 1 ⟨[0x61, 0x0A, 0x62], fun _ => 0⟩ {} (retained_within_start 1)⟩
