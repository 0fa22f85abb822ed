import Mathlib.Algebra.GroupWithZero.Nat
import DraconGuard.Guard.EventLog

/-!
# What the event log keeps

`src/src/events.rs:160-206` and `:354-408`. Whatever calls were made and wherever they stopped, a
segment never outgrows its bound. A record whose call returned `Ok` is read back as a line when it
was appended at the start of one. The appender does not look at the last byte of the file: after a
call that wrote a part of its line, the next record continues that line and is not read back. And
no tail reaches further than the reader's own bounds, `MAX_EVENT_TAIL_LINES` and
`MAX_EVENT_TAIL_BYTES`.
-/

/-- What `serde_json` writes: text, with every control character escaped. -/
structure Record where
  bytes : Bytes
  text : isText bytes = true
  escaped : ∀ b ∈ bytes, 0x20 ≤ b.toNat

structure PersistCall where
  record : Record
  fate : Fate

/-- A record whose call returned `Ok`. -/
structure Acknowledged where
  record : Record
  /-- the active segment was empty or ended with a newline when the record was appended -/
  atLineStart : Bool

/-- The files, and the acknowledged records by the segment they are in: a rotation takes those of
the active segment along, and those that it rotates away for the second time are gone. -/
structure History where
  log : EventLog := {}
  rotated : List Acknowledged := []
  active : List Acknowledged := []

def Fate.makesRoom : Fate → Bool
  | .refused | .discarded => false
  | .ok | .roomMade | .wrote _ => true

/-- Does the call rename the active segment? -/
def PersistCall.rotates (c : PersistCall) (log : EventLog) : Bool :=
  c.record.bytes.length ≤ maxEventRecordBytes && c.fate.makesRoom &&
    segmentSize log.active ≤ maxEventLogBytes && log.mustRotate c.record.bytes

def History.call (h : History) (c : PersistCall) : History :=
  let (log, isOk) := persistEvent h.log c.record.bytes c.fate
  let room := h.log.discardRotated.makeRoom c.record.bytes
  let rotated := if c.rotates h.log then h.active else h.rotated
  let active := if c.rotates h.log then [] else h.active
  { log, rotated
    active :=
      if isOk then active ++ [⟨c.record, Lines.AtStart newline (room.active.getD [])⟩] else active }

def History.run (h : History) (calls : List PersistCall) : History := calls.foldl History.call h

/-- The acknowledged records not rotated away twice, in the order of their calls. -/
def History.surviving (h : History) : List Acknowledged := h.rotated ++ h.active

structure EventLog.Bounded (log : EventLog) : Prop where
  active : segmentSize log.active ≤ maxEventLogBytes
  rotated : segmentSize log.rotated ≤ maxEventLogBytes

/-! ## One call -/

/-- What a call that made room writes of its line. -/
def Fate.written (line : Bytes) : Fate → Bytes
  | .ok => line
  | .wrote count => line.take count
  | .refused | .discarded | .roomMade => []

theorem Fate.length_written_le (line : Bytes) (fate : Fate) :
    (fate.written line).length ≤ line.length := by
  cases fate with
  | ok => exact Nat.le_refl _
  | wrote count => exact List.length_take_le' _ _
  | refused | discarded | roomMade => exact Nat.zero_le _

theorem EventLog.Bounded.discardRotated {log : EventLog} (h : log.Bounded) :
    log.discardRotated = log := by
  have hkept : discardOversizedSegment log.rotated = log.rotated :=
    if_neg (Nat.not_lt.mpr h.rotated)
  unfold EventLog.discardRotated
  rw [hkept]

theorem EventLog.Bounded.makeRoom {log : EventLog} (h : log.Bounded) (json : Bytes) :
    log.makeRoom json = if log.mustRotate json then rotateEventLog log else log :=
  if_neg (Nat.not_lt.mpr h.active)

theorem EventLog.Bounded.of_makeRoom {log : EventLog} (h : log.Bounded) (json : Bytes) :
    (log.makeRoom json).Bounded := by
  rw [h.makeRoom]
  split
  · exact ⟨Nat.zero_le _, h.active⟩
  · exact h

/-- The line fits where room was made for it. -/
theorem EventLog.Bounded.fits {log : EventLog} (h : log.Bounded) {json : Bytes}
    (hjson : json.length ≤ maxEventRecordBytes) :
    segmentSize (log.makeRoom json).active + (json.length + 1) ≤ maxEventLogBytes := by
  have hsmall : json.length + 1 ≤ maxEventLogBytes := by
    unfold maxEventRecordBytes at hjson
    unfold maxEventLogBytes
    omega
  rw [h.makeRoom]
  split
  · have hempty : segmentSize (rotateEventLog log).active = 0 := rfl
    omega
  · next hstay =>
    simp only [EventLog.mustRotate, Bool.and_eq_true, decide_eq_true_eq, not_and] at hstay
    rcases Nat.eq_zero_or_pos (segmentSize log.active) with hzero | hpos
    · omega
    · exact Nat.not_lt.mp (hstay hpos)

/-- A call that is refused, or stops before the room is made, leaves a bounded log alone. -/
theorem persistEvent_of_not_makesRoom {log : EventLog} (h : log.Bounded) {json : Bytes}
    {fate : Fate} (hstop : ¬ (json.length ≤ maxEventRecordBytes ∧ fate.makesRoom = true)) :
    persistEvent log json fate = (log, false) := by
  unfold persistEvent
  split
  · rfl
  · next hfits =>
    have hno : fate.makesRoom ≠ true := fun hroom => hstop ⟨Nat.not_lt.mp hfits, hroom⟩
    cases fate with
    | refused => rfl
    | discarded => rw [h.discardRotated]
    | ok | roomMade | wrote => exact absurd rfl hno

/-- **Any other call makes room, and appends what it gets to write.** -/
theorem persistEvent_of_makesRoom {log : EventLog} (h : log.Bounded) {json : Bytes} {fate : Fate}
    (hjson : json.length ≤ maxEventRecordBytes) (hroom : fate.makesRoom = true) :
    (persistEvent log json fate).1.active.getD [] =
        (log.makeRoom json).active.getD [] ++ fate.written (json ++ [newline]) ∧
      (persistEvent log json fate).1.rotated = (log.makeRoom json).rotated ∧
      ((persistEvent log json fate).2 = true ↔ fate = .ok) := by
  rw [persistEvent, if_neg (Nat.not_lt.mpr hjson), h.discardRotated]
  cases fate with
  | refused | discarded => exact absurd hroom Bool.false_ne_true
  | ok => exact ⟨rfl, rfl, iff_of_true rfl rfl⟩
  | roomMade => exact ⟨(List.append_nil _).symm, rfl, iff_of_false Bool.false_ne_true nofun⟩
  | wrote count => exact ⟨rfl, rfl, iff_of_false Bool.false_ne_true nofun⟩

/-- **No call lets a segment outgrow its bound**, wherever it stops. -/
theorem EventLog.Bounded.persistEvent {log : EventLog} (h : log.Bounded) (json : Bytes)
    (fate : Fate) : (persistEvent log json fate).1.Bounded := by
  by_cases hroom : json.length ≤ maxEventRecordBytes ∧ fate.makesRoom = true
  · obtain ⟨hactive, hrotated, -⟩ := persistEvent_of_makesRoom h hroom.1 hroom.2
    refine ⟨?_, ?_⟩
    · have hfits := h.fits hroom.1
      have hwritten := fate.length_written_le (json ++ [newline])
      rw [List.length_append, List.length_singleton] at hwritten
      rw [segmentSize, hactive, List.length_append]
      exact Nat.le_trans (Nat.add_le_add_left hwritten _) hfits
    · rw [hrotated]
      exact (h.of_makeRoom json).rotated
  · rw [persistEvent_of_not_makesRoom h hroom]
    exact h

/-! ## A whole run -/

/-- The records of the entries that were appended at the start of a line. -/
def ownLines (entries : List Acknowledged) : List Bytes :=
  (entries.filter (·.atLineStart)).map (·.record.bytes)

theorem ownLines_concat (entries : List Acknowledged) (record : Record) (p : Prop) [Decidable p] :
    ownLines (entries ++ [⟨record, p⟩]) =
      if p then ownLines entries ++ [record.bytes] else ownLines entries := by
  by_cases hp : p <;> simp [ownLines, hp]

theorem Record.newline_not_mem (r : Record) : newline ∉ r.bytes := by
  intro h
  have hescaped := r.escaped newline h
  exact absurd hescaped (by decide)

/-- What holds after any calls. -/
structure History.Sound (h : History) : Prop where
  bounded : h.log.Bounded
  active : Lines.Carries newline (ownLines h.active) (h.log.active.getD [])
  rotated : Lines.Carries newline (ownLines h.rotated) (h.log.rotated.getD [])
  fits : ∀ a ∈ h.surviving, a.record.bytes.length ≤ maxEventRecordBytes

theorem History.call_log (h : History) (c : PersistCall) :
    (h.call c).log = (persistEvent h.log c.record.bytes c.fate).1 := rfl

theorem PersistCall.rotates_iff {c : PersistCall} {log : EventLog} (hlog : log.Bounded) :
    c.rotates log = true ↔ (c.record.bytes.length ≤ maxEventRecordBytes ∧ c.fate.makesRoom = true) ∧
      log.mustRotate c.record.bytes = true := by
  simp [PersistCall.rotates, hlog.active]

/-- The entries and the files move together when room is made. -/
theorem History.Sound.room {h : History} (hs : h.Sound) {c : PersistCall}
    (hroom : c.record.bytes.length ≤ maxEventRecordBytes ∧ c.fate.makesRoom = true) :
    let log := h.log.makeRoom c.record.bytes
    Lines.Carries newline (ownLines (if c.rotates h.log then [] else h.active))
        (log.active.getD []) ∧
      Lines.Carries newline (ownLines (if c.rotates h.log then h.active else h.rotated))
        (log.rotated.getD []) := by
  intro log
  have hlog : log = if h.log.mustRotate c.record.bytes then rotateEventLog h.log else h.log :=
    hs.bounded.makeRoom _
  by_cases hmust : h.log.mustRotate c.record.bytes = true
  · have hrotates := (PersistCall.rotates_iff hs.bounded).mpr ⟨hroom, hmust⟩
    rw [hlog, if_pos hmust, if_pos hrotates, if_pos hrotates]
    exact ⟨.nil _, hs.active⟩
  · have hrotates : ¬ c.rotates h.log = true := fun h' =>
      hmust ((PersistCall.rotates_iff hs.bounded).mp h').2
    rw [hlog, if_neg hmust, if_neg hrotates, if_neg hrotates]
    exact ⟨hs.active, hs.rotated⟩

/-- After a call an entry is one of before, or that of the call. -/
theorem History.mem_call {h : History} {c : PersistCall} {a : Acknowledged}
    (ha : a ∈ (h.call c).surviving) :
    a ∈ h.surviving ∨ (persistEvent h.log c.record.bytes c.fate).2 = true ∧
      a = ⟨c.record, Lines.AtStart newline
        ((h.log.discardRotated.makeRoom c.record.bytes).active.getD [])⟩ := by
  have hactive : ∀ a, a ∈ (if c.rotates h.log then [] else h.active) → a ∈ h.surviving := by
    intro a ha
    split at ha
    · cases ha
    · exact List.mem_append_right _ ha
  rcases List.mem_append.mp ha with ha | ha
  · simp only [History.call] at ha
    split at ha
    · exact Or.inl (List.mem_append_right _ ha)
    · exact Or.inl (List.mem_append_left _ ha)
  · simp only [History.call] at ha
    split at ha
    · next hok =>
      rcases List.mem_append.mp ha with ha | ha
      · exact Or.inl (hactive a ha)
      · exact Or.inr ⟨hok, List.mem_singleton.mp ha⟩
    · exact Or.inl (hactive a ha)

theorem History.Sound.call_fits {h : History} (hs : h.Sound) (c : PersistCall) :
    ∀ a ∈ (h.call c).surviving, a.record.bytes.length ≤ maxEventRecordBytes := by
  intro a ha
  rcases History.mem_call ha with ha | ⟨hok, rfl⟩
  · exact hs.fits a ha
  · by_contra hlong
    rw [persistEvent, if_pos (Nat.not_le.mp hlong)] at hok
    exact Bool.false_ne_true hok

/-- **One call.** -/
theorem History.Sound.call {h : History} (hs : h.Sound) (c : PersistCall) : (h.call c).Sound := by
  have hbounded : (h.call c).log.Bounded := hs.bounded.persistEvent _ _
  by_cases hroom : c.record.bytes.length ≤ maxEventRecordBytes ∧ c.fate.makesRoom = true
  · obtain ⟨hactive, hrotated, hok⟩ := persistEvent_of_makesRoom hs.bounded hroom.1 hroom.2
    obtain ⟨hroomActive, hroomRotated⟩ := hs.room hroom
    refine ⟨hbounded, ?_, ?_, hs.call_fits c⟩
    · rw [History.call_log, hactive]
      simp only [History.call]
      split
      · next h' =>
        have hline : c.fate.written (c.record.bytes ++ [newline]) = c.record.bytes ++ [newline] := by
          rw [hok.mp h']
          rfl
        rw [hline, ownLines_concat, hs.bounded.discardRotated]
        by_cases hstart : Lines.AtStart newline ((h.log.makeRoom c.record.bytes).active.getD [])
        · rw [if_pos hstart]
          exact hroomActive.concat hstart c.record.newline_not_mem
        · rw [if_neg hstart]
          exact hroomActive.append _
      · exact hroomActive.append _
    · rw [History.call_log, hrotated]
      exact hroomRotated
  · have hstay := persistEvent_of_not_makesRoom hs.bounded hroom
    have hrotates : ¬ c.rotates h.log = true := fun h' =>
      hroom ((PersistCall.rotates_iff hs.bounded).mp h').1
    refine ⟨hbounded, ?_, ?_, hs.call_fits c⟩
    · simp only [History.call, hstay, if_neg hrotates]
      exact hs.active
    · simp only [History.call, hstay, if_neg hrotates]
      exact hs.rotated

/-- **All calls.** -/
theorem History.Sound.run {h : History} (hs : h.Sound) (calls : List PersistCall) :
    (h.run calls).Sound := by
  induction calls generalizing h with
  | nil => exact hs
  | cons c calls ih => exact ih (hs.call c)

/-- Any files within their bounds, before the first call. -/
theorem History.sound_start {log : EventLog} (h : log.Bounded) : History.Sound { log := log } where
  bounded := h
  active := .nil _
  rotated := .nil _
  fits := nofun

/-- The call stopped in the middle of its line. -/
def PersistCall.Torn (c : PersistCall) : Prop :=
  ∃ count, c.fate = .wrote count ∧ 0 < count ∧ count ≤ c.record.bytes.length

/-- The next record begins a line, and so did every record there is. -/
structure History.Whole (h : History) : Prop where
  atLineStart : Lines.AtStart newline (h.log.active.getD [])
  entries : ∀ a ∈ h.surviving, a.atLineStart = true

theorem PersistCall.written_atStart {c : PersistCall} (h : ¬ c.Torn) {segment : Bytes}
    (hstart : Lines.AtStart newline segment) :
    Lines.AtStart newline (segment ++ c.fate.written (c.record.bytes ++ [newline])) := by
  have hclosed : Lines.AtStart newline (segment ++ (c.record.bytes ++ [newline])) :=
    Or.inr (by simp [← List.append_assoc])
  cases hfate : c.fate with
  | ok => exact hclosed
  | refused | discarded | roomMade => simpa [Fate.written] using hstart
  | wrote count =>
    rcases Nat.eq_zero_or_pos count with rfl | hpos
    · simpa [Fate.written] using hstart
    · have hlong : c.record.bytes.length < count := by
        by_contra hshort
        exact h ⟨count, hfate, hpos, Nat.not_lt.mp hshort⟩
      rw [Fate.written, List.take_of_length_le (by rw [List.length_append]; exact hlong)]
      exact hclosed

theorem History.Whole.call {h : History} (hw : h.Whole) (hlog : h.log.Bounded) {c : PersistCall}
    (hc : ¬ c.Torn) : (h.call c).Whole := by
  have hroomStart : Lines.AtStart newline ((h.log.makeRoom c.record.bytes).active.getD []) := by
    rw [hlog.makeRoom]
    split
    · exact Or.inl rfl
    · exact hw.atLineStart
  constructor
  · rw [History.call_log]
    by_cases hroom : c.record.bytes.length ≤ maxEventRecordBytes ∧ c.fate.makesRoom = true
    · rw [(persistEvent_of_makesRoom hlog hroom.1 hroom.2).1]
      exact PersistCall.written_atStart hc hroomStart
    · rw [persistEvent_of_not_makesRoom hlog hroom]
      exact hw.atLineStart
  · intro a ha
    rcases History.mem_call ha with ha | ⟨-, rfl⟩
    · exact hw.entries a ha
    · rw [hlog.discardRotated]
      exact decide_eq_true hroomStart

/-- **Where no call stops in its line, every record begins one.** -/
theorem History.Whole.run {h : History} (hw : h.Whole) (hs : h.Sound) {calls : List PersistCall}
    (hcalls : ∀ c ∈ calls, ¬ c.Torn) : (h.run calls).Whole := by
  induction calls generalizing h with
  | nil => exact hw
  | cons c calls ih =>
    have hstep := hw.call hs.bounded (hcalls c List.mem_cons_self)
    exact ih hstep (hs.call c) fun c' hc' => hcalls c' (List.mem_cons_of_mem c hc')

/-! ## Reading back -/

/-- What the reader makes of a line: too long or not text, it is left out. -/
def readLine (line : Bytes) : Option Bytes :=
  if maxEventRecordBytes < line.length then none
  else
    let text := dropCarriageReturn line
    if isText text then some text else none

/-- The lines of a segment that the reader hands on. -/
def textLines (segment : Bytes) : List Bytes := (Lines.lines newline segment).filterMap readLine

def EventLog.lines (log : EventLog) : List Bytes :=
  textLines (log.rotated.getD []) ++ textLines (log.active.getD [])

/-- Lines that a tail has room for. -/
def FitsTail (tail : Nat) (lines : List Bytes) : Prop :=
  lines.length ≤ tail ∧ (lines.map List.length).sum ≤ maxEventTailBytes

/-- The reader is in the middle of a line that began with `begun`. -/
structure TailReader.Begun (r : TailReader) (begun : Bytes) : Prop where
  current : r.current = begun.take maxEventRecordBytes
  tooLong : r.currentTooLong = decide (maxEventRecordBytes < begun.length)

theorem TailReader.Begun.byte {r : TailReader} {begun : Bytes} (h : r.Begun begun) {b : UInt8}
    (hb : b ≠ newline) (tail : Nat) :
    (r.byte tail b).Begun (begun ++ [b]) ∧ (r.byte tail b).retained = r.retained := by
  rw [TailReader.byte, if_neg hb]
  refine ⟨?_, rfl⟩
  by_cases hlong : maxEventRecordBytes < begun.length
  · have htake : (begun ++ [b]).take maxEventRecordBytes = begun.take maxEventRecordBytes :=
      List.take_append_of_le_length (Nat.le_of_lt hlong)
    have hlong' : maxEventRecordBytes < begun.length + 1 := Nat.lt_succ_of_lt hlong
    constructor <;> simp [appendBoundedLineBytes, h.current, h.tooLong, hlong, hlong', htake]
  · have hcurrent : r.current = begun := by
      rw [h.current, List.take_of_length_le (Nat.not_lt.mp hlong)]
    by_cases hfull : maxEventRecordBytes - begun.length < 1
    · have hlength : begun.length = maxEventRecordBytes := by omega
      constructor
      · simp [appendBoundedLineBytes, hcurrent, h.tooLong, ← hlength]
      · simp [appendBoundedLineBytes, hcurrent, h.tooLong, hlength]
    · have hroom : begun.length + 1 ≤ maxEventRecordBytes := by omega
      have htake : (begun ++ [b]).take maxEventRecordBytes = begun ++ [b] :=
        List.take_of_length_le (by simpa using hroom)
      constructor
      · simp [appendBoundedLineBytes, hcurrent, h.tooLong, hlong, hfull, htake]
      · simp [appendBoundedLineBytes, hcurrent, h.tooLong, hlong, hfull, Nat.not_lt.mpr hroom]

theorem TailReader.Begun.endLine {r : TailReader} {begun : Bytes} (h : r.Begun begun)
    (tail : Nat) :
    (r.endLine tail).retained =
      (readLine begun).toList.foldl (retainEventLine tail) r.retained := by
  unfold TailReader.endLine readLine
  by_cases hlong : maxEventRecordBytes < begun.length
  · simp [h.tooLong, hlong]
  · rw [h.current, List.take_of_length_le (Nat.not_lt.mp hlong), h.tooLong]
    by_cases htext : isText (dropCarriageReturn begun) = true
    · simp [hlong, htext]
    · simp [hlong, htext]

theorem TailReader.Begun.finish {r : TailReader} {begun : Bytes} (h : r.Begun begun)
    (tail : Nat) :
    (r.finish tail).retained =
      ((Lines.linesFrom newline begun []).filterMap readLine).foldl (retainEventLine tail)
        r.retained := by
  unfold TailReader.finish Lines.linesFrom
  by_cases hbegun : begun = []
  · subst hbegun
    simp [h.current, h.tooLong]
  · have hcurrent : r.current.isEmpty = false := by
      rw [h.current, List.isEmpty_eq_false_iff]
      simp [hbegun, maxEventRecordBytes]
    simp only [hcurrent, Bool.not_false, Bool.true_or, if_true, h.endLine, if_neg hbegun]
    cases hread : readLine begun <;> simp [hread]

theorem TailReader.Begun.foldl_byte {r : TailReader} {begun : Bytes} (h : r.Begun begun)
    (tail : Nat) (bytes : Bytes) :
    ((bytes.foldl (TailReader.byte tail) r).finish tail).retained =
      ((Lines.linesFrom newline begun bytes).filterMap readLine).foldl (retainEventLine tail)
        r.retained := by
  induction bytes generalizing r begun with
  | nil => exact h.finish tail
  | cons b bytes ih =>
    by_cases hb : b = newline
    · have hnext : (r.endLine tail).Begun [] := ⟨rfl, rfl⟩
      have hstep : r.byte tail b = r.endLine tail := if_pos hb
      rw [List.foldl_cons, hstep, ih hnext, h.endLine, Lines.linesFrom, if_pos hb]
      cases hread : readLine begun <;> simp [hread]
    · obtain ⟨hnext, hretained⟩ := h.byte hb tail
      rw [List.foldl_cons, ih hnext, hretained, Lines.linesFrom, if_neg hb]

/-- **The reader retains the lines**, one after the other. -/
theorem readTailFromReader_retained (tail : Nat) (segment : Bytes) (retained : Retained) :
    (readTailFromReader tail segment retained).1 =
      (textLines segment).foldl (retainEventLine tail) retained := by
  have hbegun : TailReader.Begun { retained := retained } [] := ⟨rfl, rfl⟩
  exact hbegun.foldl_byte tail segment

theorem readSegment_retained (tail : Nat) (acc : Retained × Nat) {segment : Option Bytes}
    (h : segmentSize segment ≤ maxEventLogBytes) :
    (readSegment tail acc segment).1 =
      (textLines (segment.getD [])).foldl (retainEventLine tail) acc.1 := by
  cases segment with
  | none => rfl
  | some bytes =>
    have hstart : bytes.length - min bytes.length maxEventTailBytes = 0 := by
      have hall : bytes.length ≤ maxEventTailBytes := h
      rw [Nat.min_eq_left hall, Nat.sub_self]
    simp only [readSegment, hstart, Nat.lt_irrefl, if_false, List.drop_zero, Option.getD_some]
    exact readTailFromReader_retained tail bytes acc.1

/-- **A bounded log is read whole**: its lines, oldest first, through the tail. -/
theorem readTailSegments_lines {log : EventLog} (h : log.Bounded) (tail : Nat) :
    (readTailSegments log.segments tail).1 =
      (log.lines.foldl (retainEventLine (min tail maxEventTailLines)) {}).lines := by
  simp only [readTailSegments, EventLog.segments, List.foldl_cons, List.foldl_nil,
    readSegment_retained _ _ h.active, readSegment_retained _ _ h.rotated, EventLog.lines,
    List.foldl_append]

def Retained.Counted (retained : Retained) : Prop :=
  retained.bytes = (retained.lines.map List.length).sum

theorem Retained.Counted.concat {retained : Retained} (h : retained.Counted) (line : Bytes) :
    retained.bytes + line.length = ((retained.lines ++ [line]).map List.length).sum := by
  rw [List.map_append, List.sum_append, ← h]
  rfl

theorem Retained.trim_counted (tail : Nat) (lines : List Bytes) :
    (Retained.trim tail lines (lines.map List.length).sum).Counted := by
  induction lines with
  | nil => rfl
  | cons old rest ih =>
    rw [Retained.trim]
    split
    · rwa [List.map_cons, List.sum_cons, Nat.add_sub_cancel_left]
    · rfl

theorem Retained.trim_suffix (tail : Nat) (lines : List Bytes) (bytes : Nat) :
    (Retained.trim tail lines bytes).lines <:+ lines ∧
      (Retained.trim tail lines bytes).lines.length ≤ tail := by
  induction lines generalizing bytes with
  | nil => exact ⟨List.suffix_refl _, Nat.zero_le _⟩
  | cons old rest ih =>
    rw [Retained.trim]
    split
    · obtain ⟨hsuffix, hlength⟩ := ih (bytes - old.length)
      exact ⟨hsuffix.trans (List.suffix_cons old rest), hlength⟩
    · next hstop =>
      exact ⟨List.suffix_refl _, Nat.not_lt.mp fun h => hstop (Or.inl h)⟩

/-- The front is popped only from lines that do not fit. -/
theorem Retained.suffix_trim {tail : Nat} {kept lines : List Bytes} (hfits : FitsTail tail kept)
    (hkept : kept <:+ lines) :
    kept <:+ (Retained.trim tail lines (lines.map List.length).sum).lines := by
  induction lines with
  | nil => exact hkept
  | cons old rest ih =>
    rw [Retained.trim]
    split
    · next hover =>
      rw [List.map_cons, List.sum_cons, Nat.add_sub_cancel_left]
      rcases List.suffix_cons_iff.mp hkept with rfl | hrest
      · exact absurd hover (by
          rintro (hlength | hbytes)
          · exact absurd hfits.1 (Nat.not_le.mpr hlength)
          · exact absurd hfits.2 (Nat.not_le.mpr hbytes))
      · exact ih hrest
    · exact hkept

/-- One line more: what is retained stays counted, and is an end of what there was. -/
theorem retainEventLine_suffix {tail : Nat} {retained : Retained} (line : Bytes)
    (hcounted : retained.Counted) (hlength : retained.lines.length ≤ tail) :
    (retainEventLine tail retained line).Counted ∧
      (retainEventLine tail retained line).lines <:+ retained.lines ++ [line] ∧
      (retainEventLine tail retained line).lines.length ≤ tail := by
  unfold retainEventLine
  split
  · next hzero =>
    have hnil : retained.lines = [] := List.length_eq_zero_iff.mp (by omega)
    exact ⟨hcounted, hnil ▸ List.nil_suffix, hlength⟩
  · rw [hcounted.concat]
    exact ⟨Retained.trim_counted tail _, Retained.trim_suffix tail _ _⟩

theorem suffix_retainEventLine {tail : Nat} {retained : Retained} {kept : List Bytes}
    (line : Bytes) (hcounted : retained.Counted) (hfits : FitsTail tail kept)
    (hkept : kept <:+ retained.lines ++ [line]) :
    kept <:+ (retainEventLine tail retained line).lines := by
  unfold retainEventLine
  split
  · next hzero =>
    have hnil : kept = [] := List.length_eq_zero_iff.mp (by have := hfits.1; omega)
    exact hnil ▸ List.nil_suffix
  · rw [hcounted.concat]
    exact Retained.suffix_trim hfits hkept

/-- **A tail is an end of the lines**, of its own length at most. -/
theorem foldl_retainEventLine_suffix {tail : Nat} (lines : List Bytes) {retained : Retained}
    (hcounted : retained.Counted) (hlength : retained.lines.length ≤ tail) :
    (lines.foldl (retainEventLine tail) retained).lines <:+ retained.lines ++ lines ∧
      (lines.foldl (retainEventLine tail) retained).lines.length ≤ tail := by
  induction lines generalizing retained with
  | nil => exact ⟨by rw [List.append_nil]; exact List.suffix_refl _, hlength⟩
  | cons line lines ih =>
    obtain ⟨hcounted', hsuffix, hlength'⟩ := retainEventLine_suffix line hcounted hlength
    obtain ⟨hrest, hshort⟩ := ih hcounted' hlength'
    refine ⟨hrest.trans ?_, hshort⟩
    obtain ⟨front, hfront⟩ := hsuffix
    exact ⟨front, by rw [← List.append_assoc, hfront, List.append_assoc, List.singleton_append]⟩

/-- **Every end of the lines that fits is in the tail.** -/
theorem suffix_foldl_retainEventLine {tail : Nat} (lines : List Bytes) {retained : Retained}
    {kept : List Bytes} (hcounted : retained.Counted) (hlength : retained.lines.length ≤ tail)
    (hfits : FitsTail tail kept) (hkept : kept <:+ retained.lines ++ lines) :
    kept <:+ (lines.foldl (retainEventLine tail) retained).lines := by
  induction lines generalizing retained with
  | nil => rwa [List.append_nil] at hkept
  | cons line lines ih =>
    obtain ⟨hcounted', -, hlength'⟩ := retainEventLine_suffix line hcounted hlength
    refine ih hcounted' hlength' ?_
    rw [← List.singleton_append, ← List.append_assoc] at hkept
    rcases List.suffix_or_suffix_of_suffix hkept (List.suffix_append _ lines) with hend | hmore
    · exact hend.trans (List.suffix_append _ lines)
    · obtain ⟨front, rfl⟩ := hmore
      have hfront := List.suffix_append_self_iff.mp hkept
      refine List.suffix_append_self_iff.mpr (suffix_retainEventLine line hcounted ?_ hfront)
      obtain ⟨hcount, hbytes⟩ := hfits
      rw [List.length_append] at hcount
      rw [List.map_append, List.sum_append] at hbytes
      exact ⟨by omega, by omega⟩

/-- What is retained before the first file is read. -/
theorem retained_start (tail : Nat) :
    Retained.Counted {} ∧ ({} : Retained).lines.length ≤ tail := ⟨rfl, Nat.zero_le tail⟩

theorem readTailSegments_suffix {log : EventLog} (h : log.Bounded) (tail : Nat) :
    (readTailSegments log.segments tail).1 <:+ log.lines ∧
      (readTailSegments log.segments tail).1.length ≤ min tail maxEventTailLines := by
  obtain ⟨hcounted, hlength⟩ := retained_start (min tail maxEventTailLines)
  rw [readTailSegments_lines h]
  exact foldl_retainEventLine_suffix log.lines hcounted hlength

theorem suffix_readTailSegments {log : EventLog} (h : log.Bounded) {tail : Nat}
    {kept : List Bytes} (hfits : FitsTail (min tail maxEventTailLines) kept)
    (hkept : kept <:+ log.lines) : kept <:+ (readTailSegments log.segments tail).1 := by
  obtain ⟨hcounted, hlength⟩ := retained_start (min tail maxEventTailLines)
  rw [readTailSegments_lines h]
  exact suffix_foldl_retainEventLine log.lines hcounted hlength hfits hkept

/-! ## The law -/

/-- A record is read as it was written. -/
theorem Record.readLine_eq (r : Record) (h : r.bytes.length ≤ maxEventRecordBytes) :
    readLine r.bytes = some r.bytes := by
  have hlast : r.bytes.getLast? ≠ some carriageReturn := fun hcr =>
    absurd (r.escaped carriageReturn (List.mem_of_getLast? hcr)) (by decide)
  have htext : dropCarriageReturn r.bytes = r.bytes := if_neg hlast
  simp [readLine, Nat.not_lt.mpr h, htext, r.text]

theorem ownLines_textLines {entries : List Acknowledged} {segment : Bytes}
    (hcarries : Lines.Carries newline (ownLines entries) segment)
    (hfits : ∀ a ∈ entries, a.record.bytes.length ≤ maxEventRecordBytes) :
    List.Sublist (ownLines entries) (textLines segment) := by
  have hread : (ownLines entries).filterMap readLine = ownLines entries := by
    rw [ownLines, List.filterMap_map]
    have hkeep : ∀ a ∈ entries.filter (·.atLineStart),
        (readLine ∘ (·.record.bytes)) a = some a.record.bytes := fun a ha =>
      a.record.readLine_eq (hfits a (List.mem_of_mem_filter ha))
    rw [List.filterMap_congr hkeep]
    exact congrFun List.filterMap_eq_map _
  rw [← hread]
  exact hcarries.sublist_lines.filterMap readLine

/-- The lines hold the records appended at the start of a line, in the order of their calls. -/
theorem History.Sound.sublist_lines {h : History} (hs : h.Sound) :
    List.Sublist (ownLines h.surviving) h.log.lines := by
  have hrotated := ownLines_textLines hs.rotated fun a ha => hs.fits a (List.mem_append_left _ ha)
  have hactive := ownLines_textLines hs.active fun a ha => hs.fits a (List.mem_append_right _ ha)
  have hparts : ownLines h.surviving = ownLines h.rotated ++ ownLines h.active := by
    simp [ownLines, History.surviving]
  rw [hparts]
  exact hrotated.append hactive

/-- **Whatever calls are made and wherever they stop**, from segments within their bounds. The
segments stay within them. An acknowledged record that was not rotated away twice and was appended
at the start of a line is a line of its own, the later ones stand after it in the order of their
calls, and a tail with room for the lines from it on returns them. Where no call stopped in its
line, that is every acknowledged record. -/
theorem event_log_durable (log : EventLog) (hlog : log.Bounded) (calls : List PersistCall) :
    let h := History.run { log := log } calls
    h.log.Bounded ∧
      (∀ older a newer, h.surviving = older ++ a :: newer → a.atLineStart = true →
        ∃ after, a.record.bytes :: after <:+ h.log.lines ∧
          List.Sublist (ownLines newer) after ∧
          ∀ tail, FitsTail (min tail maxEventTailLines) (a.record.bytes :: after) →
            a.record.bytes :: after <:+ (readTailSegments h.log.segments tail).1) ∧
      (Lines.AtStart newline (log.active.getD []) → (∀ c ∈ calls, ¬ c.Torn) →
        ∀ a ∈ h.surviving, a.atLineStart = true) := by
  intro h
  have hstart := History.sound_start hlog
  have hs : h.Sound := hstart.run calls
  have huntorn : Lines.AtStart newline (log.active.getD []) → (∀ c ∈ calls, ¬ c.Torn) →
      ∀ a ∈ h.surviving, a.atLineStart = true := by
    intro hline hcalls
    have hwhole : History.Whole { log := log } := ⟨hline, nofun⟩
    exact (hwhole.run hstart hcalls).entries
  refine ⟨hs.bounded, ?_, huntorn⟩
  intro older a newer hsplit ha
  have hsub : List.Sublist (a.record.bytes :: ownLines newer) h.log.lines := by
    have hown : ownLines h.surviving = ownLines older ++ a.record.bytes :: ownLines newer := by
      simp [ownLines, hsplit, ha]
    have hall := hs.sublist_lines
    rw [hown] at hall
    exact (List.sublist_append_right _ _).trans hall
  obtain ⟨before, rest, hlines, hmem, hnewer⟩ := List.cons_sublist_iff.mp hsub
  obtain ⟨front, back, rfl⟩ := List.append_of_mem hmem
  have hsuffix : a.record.bytes :: (back ++ rest) <:+ h.log.lines :=
    ⟨front, by rw [hlines, List.append_assoc, List.cons_append]⟩
  refine ⟨back ++ rest, hsuffix, hnewer.trans (List.sublist_append_right _ _), ?_⟩
  intro tail hfits
  exact suffix_readTailSegments hs.bounded hfits hsuffix

theorem braces_text : isText [0x7B, 0x7D] = true := by decide

theorem braces_escaped : ∀ b ∈ ([0x7B, 0x7D] : Bytes), 0x20 ≤ b.toNat := by simp

theorem brackets_text : isText [0x5B, 0x5D] = true := by decide

theorem brackets_escaped : ∀ b ∈ ([0x5B, 0x5D] : Bytes), 0x20 ≤ b.toNat := by simp

/-- An empty object. -/
def braces : Record := ⟨[0x7B, 0x7D], braces_text, braces_escaped⟩

/-- An empty array. -/
def brackets : Record := ⟨[0x5B, 0x5D], brackets_text, brackets_escaped⟩

theorem emptyLog_bounded : EventLog.Bounded {} := ⟨Nat.zero_le _, Nat.zero_le _⟩

/-- The record before a call that is killed after one byte. -/
theorem event_log_durable_before_torn :
    EventLog.Bounded {} ∧
      ∃ after, braces.bytes :: after <:+
          (History.run {} [⟨braces, .ok⟩, ⟨brackets, .wrote 1⟩]).log.lines ∧
        List.Sublist (ownLines []) after ∧
        ∀ tail, FitsTail (min tail maxEventTailLines) (braces.bytes :: after) →
          braces.bytes :: after <:+ (readTailSegments
            (History.run {} [⟨braces, .ok⟩, ⟨brackets, .wrote 1⟩]).log.segments tail).1 :=
  ⟨emptyLog_bounded,
    (event_log_durable {} emptyLog_bounded [⟨braces, .ok⟩, ⟨brackets, .wrote 1⟩]).2.1 []
      ⟨braces, true⟩ [] rfl rfl⟩

/-! ## Where a record is not read back -/

/-- An acknowledged call that needs no rotation appends its line. -/
theorem History.call_ok {h : History} (hlog : h.log.Bounded) (r : Record)
    (hstart : Lines.AtStart newline (h.log.active.getD []))
    (hjson : r.bytes.length ≤ maxEventRecordBytes)
    (hroom : segmentSize h.log.active + (r.bytes.length + 1) ≤ maxEventLogBytes) :
    h.call ⟨r, .ok⟩ =
      { log := h.log.append (r.bytes ++ [newline]), rotated := h.rotated
        active := h.active ++ [⟨r, true⟩] } := by
  have hmust : h.log.mustRotate r.bytes = false := by
    simp [EventLog.mustRotate, Nat.not_lt.mpr hroom]
  have hstay : h.log.makeRoom r.bytes = h.log := by
    rw [hlog.makeRoom, hmust]
    rfl
  have hrotates : PersistCall.rotates ⟨r, .ok⟩ h.log = false := by
    simp [PersistCall.rotates, hmust]
  simp [History.call, persistEvent, Nat.not_lt.mpr hjson, hlog.discardRotated, hstay, hrotates,
    hstart]

theorem textLines_append_record {segment : Bytes} (hstart : Lines.AtStart newline segment)
    (r : Record) (hjson : r.bytes.length ≤ maxEventRecordBytes) :
    textLines (segment ++ (r.bytes ++ [newline])) = textLines segment ++ [r.bytes] := by
  rw [textLines, Lines.lines_append hstart, Lines.lines_record r.newline_not_mem,
    List.filterMap_append]
  simp [r.readLine_eq hjson, Lines.lines, Lines.linesFrom, textLines]

/-- One record, appended so many times. -/
theorem History.run_replicate (r : Record) (hjson : r.bytes.length ≤ maxEventRecordBytes) (n : Nat)
    {h : History} (hlog : h.log.Bounded) (hstart : Lines.AtStart newline (h.log.active.getD []))
    (hroom : segmentSize h.log.active + n * (r.bytes.length + 1) ≤ maxEventLogBytes) :
    (h.run (List.replicate n ⟨r, .ok⟩)).surviving = h.surviving ++ List.replicate n ⟨r, true⟩ ∧
      (h.run (List.replicate n ⟨r, .ok⟩)).log.lines =
        h.log.lines ++ List.replicate n r.bytes := by
  induction n generalizing h with
  | zero => simp [History.run]
  | succ n ih =>
    rw [Nat.succ_mul] at hroom
    have hone : h.call ⟨r, .ok⟩ =
        { log := h.log.append (r.bytes ++ [newline]), rotated := h.rotated
          active := h.active ++ [⟨r, true⟩] } := History.call_ok hlog r hstart hjson (by omega)
    have hbounded : (h.call ⟨r, .ok⟩).log.Bounded :=
      hlog.persistEvent r.bytes .ok
    have hclosed : Lines.AtStart newline ((h.call ⟨r, .ok⟩).log.active.getD []) := by
      rw [hone]
      exact Or.inr (by simp [EventLog.append, ← List.append_assoc])
    have hsize : segmentSize (h.call ⟨r, .ok⟩).log.active =
        segmentSize h.log.active + (r.bytes.length + 1) := by
      rw [hone]
      simp [segmentSize, EventLog.append]
    obtain ⟨hsurviving, hlines⟩ := ih hbounded hclosed (by omega)
    have hrun : h.run (List.replicate (n + 1) ⟨r, .ok⟩) =
        (h.call ⟨r, .ok⟩).run (List.replicate n ⟨r, .ok⟩) := rfl
    constructor
    · rw [hrun, hsurviving, hone]
      simp [History.surviving, List.replicate_succ]
    · rw [hrun, hlines, hone]
      simp [EventLog.lines, EventLog.append, textLines_append_record hstart r hjson,
        List.replicate_succ]

/-- The calls of two runs from no files. In the first all return `Ok`; in the second the first one
is killed after one byte. -/
def manyCalls : List PersistCall := ⟨braces, .ok⟩ :: List.replicate 1000 ⟨brackets, .ok⟩

def tornCalls : List PersistCall := [⟨brackets, .wrote 1⟩, ⟨braces, .ok⟩]

theorem tornCalls_lines : (History.run {} tornCalls).log.lines = [[0x5B, 0x7B, 0x7D]] := by decide

theorem manyCalls_run :
    (History.run {} manyCalls).surviving = ⟨braces, true⟩ :: List.replicate 1000 ⟨brackets, true⟩ ∧
      (History.run {} manyCalls).log.lines =
        braces.bytes :: List.replicate 1000 brackets.bytes := by
  have hbounded : (History.call {} ⟨braces, .ok⟩).log.Bounded :=
    emptyLog_bounded.persistEvent braces.bytes .ok
  have hfirst : (History.call {} ⟨braces, .ok⟩).log.lines = [braces.bytes] := by decide
  obtain ⟨hsurviving, hlines⟩ := History.run_replicate brackets (by decide) 1000 hbounded
    (by decide) (by decide)
  rw [hfirst, List.singleton_append] at hlines
  rw [manyCalls, History.run, List.foldl_cons]
  exact ⟨hsurviving, hlines⟩

/-- **No tail reads back the first of 1001 records**, all acknowledged and none rotated away; and
none reads back the record that follows one byte of another. -/
theorem event_log_not_durable :
    (⟨braces, true⟩ ∈ (History.run {} manyCalls).surviving ∧
      ∀ tail, braces.bytes ∉
        (readTailSegments (History.run {} manyCalls).log.segments tail).1) ∧
    ((History.run {} tornCalls).surviving.map (·.record.bytes) = [braces.bytes] ∧
      ∀ tail, braces.bytes ∉
        (readTailSegments (History.run {} tornCalls).log.segments tail).1) := by
  have hmany := (History.sound_start emptyLog_bounded).run manyCalls
  have htorn := (History.sound_start emptyLog_bounded).run tornCalls
  obtain ⟨hsurviving, hlines⟩ := manyCalls_run
  refine ⟨⟨hsurviving ▸ List.mem_cons_self, fun tail hmem => ?_⟩, ⟨by decide, fun tail hmem => ?_⟩⟩
  · obtain ⟨hsuffix, hlength⟩ := readTailSegments_suffix hmany.bounded tail
    rw [show (History.run { log := {} } manyCalls).log.lines = _ from hlines] at hsuffix
    have hshort := Nat.le_trans hlength (Nat.min_le_right _ _)
    rcases List.suffix_cons_iff.mp hsuffix with hall | hrest
    · rw [hall, List.length_cons, List.length_replicate] at hshort
      exact absurd hshort (by decide)
    · have hbrackets := List.eq_of_mem_replicate (hrest.subset hmem)
      exact absurd hbrackets (by decide)
  · obtain ⟨hsuffix, -⟩ := readTailSegments_suffix htorn.bounded tail
    have hone := hsuffix.subset hmem
    rw [show (History.run { log := {} } tornCalls).log.lines = _ from tornCalls_lines] at hone
    exact absurd hone (by decide)
