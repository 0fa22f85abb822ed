import DraconGuard.Lib.Lines
import DraconGuard.Lib.Utf8

/-!
# The event log

`src/src/events.rs`. Events are appended to a JSONL file; before the file outgrows its bound it is
renamed over the one rotated segment. Writers and readers take the lock file, so calls follow one
another whichever process makes them.

| here | there |
|---|---|
| `discardOversizedSegment` | `discard_oversized_segment` (lines 151-158) |
| `rotateEventLog` | `rotate_event_log` (lines 132-149) |
| `EventLog.makeRoom`, `persistEvent` | `persist_event` (lines 160-206) |
| `appendBoundedLineBytes` | `append_bounded_line_bytes` (lines 258-271) |
| `retainEventLine` | `retain_event_line` (lines 273-290) |
| `discardPartialLine` | `discard_partial_line` (lines 292-306) |
| `readTailFromReader` | `read_tail_from_reader` (lines 308-352) |
| `readTailSegments` | `read_tail_segments` (lines 354-408) |

A file is its bytes, or none. Where a call stops is its `Fate`: the system call that failed or the
point at which the process was killed. On Unix a rename replaces what is there, so the branch for
`AlreadyExists` is not taken. No segment here comes near the range of `u64`, so its saturating
sums are sums. The buffers of a reader are not modelled: bytes come one at a time, which for
`appendBoundedLineBytes` is the same (`appendBoundedLineBytes_append`).
-/

abbrev Bytes := List UInt8

-- lines 13-16
def maxEventLogBytes : Nat := 10 * 1024 * 1024
def maxEventRecordBytes : Nat := 64 * 1024
def maxEventTailLines : Nat := 1000
def maxEventTailBytes : Nat := maxEventLogBytes

def newline : UInt8 := 10
def carriageReturn : UInt8 := 13

/-- The active segment and the rotated one. -/
structure EventLog where
  active : Option Bytes := none
  rotated : Option Bytes := none
  deriving DecidableEq, Repr

/-- `metadata.len()`, zero for no file. -/
def segmentSize (segment : Option Bytes) : Nat := (segment.getD []).length

/-! ## Writing -/

def discardOversizedSegment (segment : Option Bytes) : Option Bytes :=
  if maxEventLogBytes < segmentSize segment then none else segment

def EventLog.discardRotated (log : EventLog) : EventLog :=
  { log with rotated := discardOversizedSegment log.rotated }

def rotateEventLog (log : EventLog) : EventLog := { active := none, rotated := log.active }

/-- The record and its newline do not fit after what is there. -/
def EventLog.mustRotate (log : EventLog) (json : Bytes) : Bool :=
  let appendSize := json.length + 1
  0 < segmentSize log.active && maxEventLogBytes < segmentSize log.active + appendSize

def EventLog.makeRoom (log : EventLog) (json : Bytes) : EventLog :=
  -- an unbounded legacy log is not moved into the retained segment
  if maxEventLogBytes < segmentSize log.active then { log with active := none }
  else if log.mustRotate json then rotateEventLog log
  else log

/-- Open with `create` and `append`, and write. -/
def EventLog.append (log : EventLog) (bytes : Bytes) : EventLog :=
  { log with active := some (log.active.getD [] ++ bytes) }

/-- How far a call comes. -/
inductive Fate
  /-- it returns `Ok` -/
  | ok
  /-- nothing was touched: the directory, the lock or the first removal failed -/
  | refused
  /-- the rotated segment was looked at, and then the look at the active one, its removal or
  its rename failed -/
  | discarded
  /-- room was made, and then the file did not open -/
  | roomMade
  /-- so many bytes were written: the disk was full, the process was killed, or all was written
  and the flush or the unlocking failed -/
  | wrote (count : Nat)
  deriving DecidableEq, Repr

/-- The files after the call, and whether it returned `Ok`. -/
def persistEvent (log : EventLog) (json : Bytes) (fate : Fate) : EventLog × Bool :=
  if maxEventRecordBytes < json.length then (log, false)
  else
    let room := log.discardRotated.makeRoom json
    let line := json ++ [newline]
    match fate with
    | .refused => (log, false)
    | .discarded => (log.discardRotated, false)
    | .roomMade => (room, false)
    | .wrote count => (room.append (line.take count), false)
    | .ok => (room.append line, true)

/-! ## Reading -/

def appendBoundedLineBytes (line : Bytes) (tooLong : Bool) (bytes : Bytes) : Bytes × Bool :=
  if tooLong then (line, tooLong)
  else
    let remaining := maxEventRecordBytes - line.length
    if remaining < bytes.length then (line ++ bytes.take remaining, true)
    else (line ++ bytes, false)

/-- `retained` and `retained_bytes`. -/
structure Retained where
  lines : List Bytes := []
  bytes : Nat := 0
  deriving DecidableEq, Repr

/-- The loop that pops the front. -/
def Retained.trim (tail : Nat) : List Bytes → Nat → Retained
  | [], bytes => ⟨[], bytes⟩
  | old :: rest, bytes =>
    if tail < (old :: rest).length ∨ maxEventTailBytes < bytes then
      Retained.trim tail rest (bytes - old.length)
    else ⟨old :: rest, bytes⟩

def retainEventLine (tail : Nat) (retained : Retained) (line : Bytes) : Retained :=
  if tail = 0 then retained
  else Retained.trim tail (retained.lines ++ [line]) (retained.bytes + line.length)

def discardPartialLine (bytes : Bytes) : Bytes := (bytes.dropWhile (· != newline)).drop 1

/-- `String::from_utf8(line).is_ok()`. -/
def isText (line : Bytes) : Bool := Utf8.isUtf8 (line.map fun b => Char.ofNat b.toNat)

/-- The state of the reading loop. -/
structure TailReader where
  current : Bytes := []
  currentTooLong : Bool := false
  totalLines : Nat := 0
  retained : Retained := {}
  deriving DecidableEq, Repr

def dropCarriageReturn (line : Bytes) : Bytes :=
  if line.getLast? = some carriageReturn then line.dropLast else line

/-- The end of a line: it is counted, and kept when it is text and not too long. -/
def TailReader.endLine (tail : Nat) (r : TailReader) : TailReader :=
  let line := dropCarriageReturn r.current
  { totalLines := r.totalLines + 1
    retained :=
      if !r.currentTooLong && isText line then retainEventLine tail r.retained line else r.retained }

def TailReader.byte (tail : Nat) (r : TailReader) (b : UInt8) : TailReader :=
  if b = newline then r.endLine tail
  else
    let (current, tooLong) := appendBoundedLineBytes r.current r.currentTooLong [b]
    { r with current := current, currentTooLong := tooLong }

/-- A last line without its newline counts as well. -/
def TailReader.finish (tail : Nat) (r : TailReader) : TailReader :=
  if !r.current.isEmpty || r.currentTooLong then r.endLine tail else r

def readTailFromReader (tail : Nat) (bytes : Bytes) (retained : Retained) : Retained × Nat :=
  let r := (bytes.foldl (TailReader.byte tail) { retained := retained }).finish tail
  (r.retained, r.totalLines)

/-- One file of the reader's loop: its last `MAX_EVENT_TAIL_BYTES`, from the start of a line on. -/
def readSegment (tail : Nat) (acc : Retained × Nat) (segment : Option Bytes) : Retained × Nat :=
  match segment with
  | none => acc
  | some bytes =>
    let start := bytes.length - min bytes.length maxEventTailBytes
    let window := bytes.drop start
    let window := if 0 < start then discardPartialLine window else window
    let (retained, lines) := readTailFromReader tail window acc.1
    (retained, acc.2 + lines)

/-- The lines read and the number of lines there are, when no system call fails. -/
def readTailSegments (segments : List (Option Bytes)) (tail : Nat) : List Bytes × Nat :=
  let (retained, totalLines) := segments.foldl (readSegment (min tail maxEventTailLines)) ({}, 0)
  (retained.lines, totalLines)

/-- The order in which `cmd_events` reads them (lines 443-446). -/
def EventLog.segments (log : EventLog) : List (Option Bytes) := [log.rotated, log.active]

/-- Bytes may come in any slices. -/
theorem appendBoundedLineBytes_append (line : Bytes) (tooLong : Bool) (xs ys : Bytes) :
    appendBoundedLineBytes line tooLong (xs ++ ys) =
      appendBoundedLineBytes (appendBoundedLineBytes line tooLong xs).1
        (appendBoundedLineBytes line tooLong xs).2 ys := by
  cases tooLong with
  | true => rfl
  | false =>
    unfold appendBoundedLineBytes
    by_cases hxs : maxEventRecordBytes - line.length < xs.length
    · have hall : maxEventRecordBytes - line.length < (xs ++ ys).length := by
        rw [List.length_append]
        omega
      have htake : (xs ++ ys).take (maxEventRecordBytes - line.length) =
          xs.take (maxEventRecordBytes - line.length) :=
        List.take_append_of_le_length (Nat.le_of_lt hxs)
      simp only [hxs, hall, htake, if_true, if_false, Bool.false_eq_true]
    · have hrest : maxEventRecordBytes - (line ++ xs).length =
          maxEventRecordBytes - line.length - xs.length := by
        rw [List.length_append]
        omega
      by_cases hys : maxEventRecordBytes - line.length - xs.length < ys.length
      · have hall : maxEventRecordBytes - line.length < (xs ++ ys).length := by
          rw [List.length_append]
          omega
        have htake : (xs ++ ys).take (maxEventRecordBytes - line.length) =
            xs ++ ys.take (maxEventRecordBytes - line.length - xs.length) := by
          rw [List.take_append, List.take_of_length_le (by omega)]
        simp only [hxs, hall, htake, hrest, hys, if_true, if_false, Bool.false_eq_true,
          List.append_assoc]
      · have hall : ¬ maxEventRecordBytes - line.length < (xs ++ ys).length := by
          rw [List.length_append]
          omega
        simp only [hxs, hall, hrest, hys, if_false, Bool.false_eq_true, List.append_assoc]
