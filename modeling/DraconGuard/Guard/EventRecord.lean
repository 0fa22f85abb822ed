import Mathlib.Data.List.Destutter
import DraconGuard.Lib.JsonText
import DraconGuard.Lib.Utf8Encode
import DraconGuard.Guard.EventLogLaw

/-!
# An event, from its emission to the events command

`src/src/events.rs`. `EventLog.lean` has the file under the records; here is what a record is made
of and what is made of it again.

| here | there |
|---|---|
| `EventSeverity`, `DraconEvent` | `EventSeverity`, `DraconEvent` (lines 18-43) |
| `truncateUtf8`, `boundedEvent` | `truncate_utf8`, `bounded_event` (lines 62-91) |
| `DraconEvent.json` | `serde_json::to_string` of an event (line 105) |
| `serializeEventForStorage` | `serialize_event_for_storage` (lines 93-115) |
| `emitEvent` | `emit_event` (lines 216-256), less what it prints |
| `EventQuery.parsed`, `EventQuery.run` | `cmd_events` (lines 418-485), up to the output |

A text is its characters. `truncateUtf8` is `none` where slicing inside a character would panic,
which is never (`truncateUtf8_cut`). The reader of the command is `serde_json`, which `JsonReader`
stands for: a parser, and the values it makes. Of it only `JsonReader.Reads` is assumed, that it
reads the objects of strings that `JsonText.readObject` reads. An event whose call returned `Ok`
is then shown, with the fields that were stored (**`emitted_shown`**).
-/

namespace DraconGuard

open TextSlice JsonText

inductive EventSeverity where
  | info
  | warn
  | error
deriving DecidableEq, Repr

/-- What `Serialize` makes of a variant. -/
def EventSeverity.name : EventSeverity → List Char
  | .info => "Info".toList
  | .warn => "Warn".toList
  | .error => "Error".toList

structure DraconEvent where
  domain : List Char
  severity : EventSeverity
  path : List Char
  message : List Char
  timestamp : List Char
deriving DecidableEq

/-! ## The record -/

def ellipsis : List Char := ['…']

/-- `value.is_char_boundary(index)`. -/
def isCharBoundary (value : List Char) (index : Nat) : Bool := (sliceTo index value).isSome

/-- The loop that lowers `end`. -/
def floorBoundary (value : List Char) : Nat → Nat
  | 0 => 0
  | index + 1 =>
    if isCharBoundary value (index + 1) then index + 1 else floorBoundary value index

def truncateUtf8 (value : List Char) (maxBytes : Nat) : Option (List Char) :=
  if size value ≤ maxBytes then some value
  else if maxBytes < size ellipsis then sliceTo (floorBoundary value maxBytes) value
  else (sliceTo (floorBoundary value (maxBytes - size ellipsis)) value).map (· ++ ellipsis)

def boundedEvent (event : DraconEvent) : Option DraconEvent := do
  let domain ← truncateUtf8 event.domain 512
  let path ← truncateUtf8 event.path 2048
  let message ← truncateUtf8 event.message 4096
  let timestamp ← truncateUtf8 event.timestamp 128
  return { domain, severity := event.severity, path, message, timestamp }

def DraconEvent.members (event : DraconEvent) : Members :=
  [("domain".toList, event.domain), ("severity".toList, event.severity.name),
    ("path".toList, event.path), ("message".toList, event.message),
    ("timestamp".toList, event.timestamp)]

def DraconEvent.json (event : DraconEvent) : List Char := writeObject event.members

/-- A field is longer than the bounded event would have it. -/
def DraconEvent.unbounded (event : DraconEvent) : Bool :=
  512 < size event.domain || 2048 < size event.path || 4096 < size event.message ||
    128 < size event.timestamp

/-- The event that is stored. -/
def DraconEvent.candidate (event : DraconEvent) : Option DraconEvent :=
  if event.unbounded then boundedEvent event else some event

def serializeEventForStorage (event : DraconEvent) : Option (List Char) := do
  let candidate ← event.candidate
  let json := candidate.json
  if size json ≤ maxEventRecordBytes then some json
  else
    let json := (← boundedEvent candidate).json
    if size json ≤ maxEventRecordBytes then some json else none

/-- The files after an event, whose call comes as far as `fate` says. -/
def emitEvent (log : EventLog) (emission : DraconEvent × Fate) : EventLog :=
  match serializeEventForStorage emission.1 with
  | some json => (persistEvent log (Utf8.encode json) emission.2).1
  | none => log

/-! ### Truncation -/

/-- A text cut after the characters it is cut after. -/
theorem sliceTo_eq_some {index : Nat} {value pre : List Char} (h : sliceTo index value = some pre) :
    pre <+: value ∧ size pre = index := by
  induction value generalizing index pre with
  | nil =>
    rw [sliceTo] at h
    split at h
    · next hzero =>
      cases h
      exact ⟨List.prefix_refl _, hzero.symm⟩
    · cases h
  | cons c value ih =>
    rw [sliceTo] at h
    split at h
    · next hzero =>
      cases h
      exact ⟨List.nil_prefix, hzero.symm⟩
    · split at h
      · cases h
      · obtain ⟨front, hfront, rfl⟩ := Option.map_eq_some_iff.mp h
        obtain ⟨hfit, hsize⟩ := ih hfront
        exact ⟨List.cons_prefix_cons.mpr ⟨rfl, hfit⟩, by rw [size_cons]; omega⟩

/-- **The loop ends on a boundary**, and passes none. -/
theorem floorBoundary_spec (value : List Char) (index : Nat) :
    isCharBoundary value (floorBoundary value index) = true ∧ floorBoundary value index ≤ index ∧
      ∀ k ≤ index, isCharBoundary value k = true → k ≤ floorBoundary value index := by
  induction index with
  | zero =>
    have hzero : isCharBoundary value 0 = true := by cases value <;> rfl
    exact ⟨hzero, Nat.le_refl _, fun k hk _ => hk⟩
  | succ index ih =>
    rw [floorBoundary]
    split
    · next hhere => exact ⟨hhere, Nat.le_refl _, fun k hk _ => hk⟩
    · next hinside =>
      obtain ⟨hboundary, hle, hpassed⟩ := ih
      refine ⟨hboundary, Nat.le_succ_of_le hle, ?_⟩
      intro k hk hat
      rcases Nat.lt_or_ge index k with hover | hunder
      · have heq : k = index + 1 := by omega
        exact absurd (heq ▸ hat) hinside
      · exact hpassed k hunder hat

/-- What a cut to so many bytes keeps: the longest beginning that fits. -/
theorem sliceTo_floorBoundary (value : List Char) (index : Nat) :
    ∃ pre, sliceTo (floorBoundary value index) value = some pre ∧ pre <+: value ∧
      size pre ≤ index ∧ ∀ longer, longer <+: value → size longer ≤ index → longer <+: pre := by
  obtain ⟨hboundary, hle, hpassed⟩ := floorBoundary_spec value index
  obtain ⟨pre, hpre⟩ := Option.isSome_iff_exists.mp hboundary
  obtain ⟨hfit, hsize⟩ := sliceTo_eq_some hpre
  refine ⟨pre, hpre, hfit, by omega, ?_⟩
  intro longer hlonger hfits
  obtain ⟨post, rfl⟩ := hlonger
  have hat : isCharBoundary (longer ++ post) (size longer) = true := by
    rw [isCharBoundary, sliceTo_size, Option.isSome_some]
  have hshort := hpassed (size longer) hfits hat
  rcases List.prefix_or_prefix_of_prefix hfit (List.prefix_append longer post) with h | h
  · obtain ⟨more, rfl⟩ := h
    have hmore : size more = 0 := by rw [size_append] at hshort; omega
    cases more with
    | nil => rw [List.append_nil]
    | cons c more =>
      have hpos := c.utf8Size_pos
      rw [size_cons] at hmore
      omega
  · exact h

/-- A text as it is stored under a bound: itself where it fits, else the longest beginning that
leaves room for the ellipsis, and the ellipsis. -/
structure Cut (value : List Char) (maxBytes : Nat) (stored : List Char) : Prop where
  fits : size stored ≤ maxBytes
  whole : size value ≤ maxBytes → stored = value
  cut : maxBytes < size value → ∃ pre, stored = pre ++ ellipsis ∧ pre <+: value ∧
    ∀ longer, longer <+: value → size longer + size ellipsis ≤ maxBytes → longer <+: pre

/-- **No slice of a truncation panics**, and what is stored is the text or its longest cut. -/
theorem truncateUtf8_cut (value : List Char) {maxBytes : Nat} (hroom : size ellipsis ≤ maxBytes) :
    ∃ stored, truncateUtf8 value maxBytes = some stored ∧ Cut value maxBytes stored := by
  unfold truncateUtf8
  by_cases hfits : size value ≤ maxBytes
  · rw [if_pos hfits]
    exact ⟨value, rfl, hfits, fun _ => rfl, fun hlong => absurd hlong (Nat.not_lt.mpr hfits)⟩
  · obtain ⟨pre, hpre, hfit, hsize, hlongest⟩ :=
      sliceTo_floorBoundary value (maxBytes - size ellipsis)
    rw [if_neg hfits, if_neg (Nat.not_lt.mpr hroom), hpre, Option.map_some]
    refine ⟨pre ++ ellipsis, rfl, ?_, fun h => absurd h hfits, fun _ => ⟨pre, rfl, hfit, ?_⟩⟩
    · rw [size_append]
      omega
    · intro longer hlonger hlongerFits
      exact hlongest longer hlonger (by omega)

/-! ### Serialization -/

structure DraconEvent.Bounded (event : DraconEvent) : Prop where
  domain : size event.domain ≤ 512
  path : size event.path ≤ 2048
  message : size event.message ≤ 4096
  timestamp : size event.timestamp ≤ 128

/-- The stored fields of an event. -/
structure DraconEvent.Stored (event stored : DraconEvent) : Prop where
  severity : stored.severity = event.severity
  domain : Cut event.domain 512 stored.domain
  path : Cut event.path 2048 stored.path
  message : Cut event.message 4096 stored.message
  timestamp : Cut event.timestamp 128 stored.timestamp

theorem DraconEvent.Stored.bounded {event stored : DraconEvent} (h : event.Stored stored) :
    stored.Bounded := ⟨h.domain.fits, h.path.fits, h.message.fits, h.timestamp.fits⟩

theorem boundedEvent_stored (event : DraconEvent) :
    ∃ stored, boundedEvent event = some stored ∧ event.Stored stored := by
  have hellipsis : size ellipsis = 3 := rfl
  obtain ⟨domain, hdomain, hdomainCut⟩ :=
    truncateUtf8_cut event.domain (show size ellipsis ≤ 512 by omega)
  obtain ⟨path, hpath, hpathCut⟩ :=
    truncateUtf8_cut event.path (show size ellipsis ≤ 2048 by omega)
  obtain ⟨message, hmessage, hmessageCut⟩ :=
    truncateUtf8_cut event.message (show size ellipsis ≤ 4096 by omega)
  obtain ⟨timestamp, htimestamp, htimestampCut⟩ :=
    truncateUtf8_cut event.timestamp (show size ellipsis ≤ 128 by omega)
  refine ⟨{ domain, severity := event.severity, path, message, timestamp }, ?_,
    rfl, hdomainCut, hpathCut, hmessageCut, htimestampCut⟩
  simp only [boundedEvent, hdomain, hpath, hmessage, htimestamp, Option.bind_eq_bind,
    Option.bind_some, Option.pure_def]

theorem DraconEvent.bounded_of_not_unbounded {event : DraconEvent}
    (h : ¬ event.unbounded = true) : event.Bounded := by
  simp only [unbounded, Bool.or_eq_true, decide_eq_true_eq, not_or, Nat.not_lt] at h
  exact ⟨h.1.1.1, h.1.1.2, h.1.2, h.2⟩

theorem Cut.refl {value : List Char} {maxBytes : Nat} (h : size value ≤ maxBytes) :
    Cut value maxBytes value :=
  ⟨h, fun _ => rfl, fun hlong => absurd hlong (Nat.not_lt.mpr h)⟩

theorem DraconEvent.candidate_stored (event : DraconEvent) :
    ∃ stored, event.candidate = some stored ∧ event.Stored stored := by
  unfold candidate
  by_cases hlong : event.unbounded = true
  · rw [if_pos hlong]
    exact boundedEvent_stored event
  · have hb := DraconEvent.bounded_of_not_unbounded hlong
    rw [if_neg hlong]
    exact ⟨event, rfl, rfl, .refl hb.domain, .refl hb.path, .refl hb.message, .refl hb.timestamp⟩

theorem EventSeverity.size_name (severity : EventSeverity) : size severity.name ≤ 5 := by
  cases severity <;> decide

/-- Six bytes for one of a field, and the names. -/
theorem DraconEvent.Bounded.size_json {event : DraconEvent} (h : event.Bounded) :
    size event.json ≤ maxEventRecordBytes := by
  obtain ⟨hdomain, hpath, hmessage, htimestamp⟩ := h
  have hseverity := event.severity.size_name
  have hcolon : (':' : Char).utf8Size = 1 := rfl
  have hcomma : (',' : Char).utf8Size = 1 := rfl
  have hopen : ('\x7b' : Char).utf8Size = 1 := rfl
  have hclose : ('\x7d' : Char).utf8Size = 1 := rfl
  have hnames : size (quoted "domain".toList) = 8 ∧ size (quoted "severity".toList) = 10 ∧
      size (quoted "path".toList) = 6 ∧ size (quoted "message".toList) = 9 ∧
      size (quoted "timestamp".toList) = 11 := by decide
  have hd := size_quoted event.domain
  have hs := size_quoted event.severity.name
  have hp := size_quoted event.path
  have hm := size_quoted event.message
  have ht := size_quoted event.timestamp
  simp only [json, members, writeObject, writeMembers, size_append, size_cons, size_nil, hcolon,
    hcomma, hopen, hclose, hnames, maxEventRecordBytes]
  omega

/-- The bytes of a JSON text are a record of the log. -/
def jsonRecord (members : Members) : Record where
  bytes := Utf8.encode (writeObject members)
  text := Utf8.isUtf8_encode _
  escaped := by
    intro b hb
    rcases Nat.lt_or_ge 0x7F b.toNat with hlong | hascii
    · omega
    · obtain ⟨c, hc, hcode⟩ := Utf8.mem_of_mem_encode hb hascii
      have hprintable := printable_writeObject members c hc
      omega

/-- The event with the fields it is stored with. -/
def DraconEvent.stored (event : DraconEvent) : DraconEvent := event.candidate.getD event

/-- **An event always has a record**: that of the fields it is stored with. -/
theorem DraconEvent.stored_spec (event : DraconEvent) :
    event.Stored event.stored ∧ serializeEventForStorage event = some event.stored.json ∧
      size event.stored.json ≤ maxEventRecordBytes := by
  obtain ⟨stored, hcandidate, hstored⟩ := event.candidate_stored
  have heq : event.stored = stored := by rw [DraconEvent.stored, hcandidate, Option.getD_some]
  have hsize := hstored.bounded.size_json
  rw [heq]
  refine ⟨hstored, ?_, hsize⟩
  simp only [serializeEventForStorage, hcandidate, Option.bind_eq_bind, Option.bind_some,
    if_pos hsize]

/-- Its record. -/
def DraconEvent.record (event : DraconEvent) : Record := jsonRecord event.stored.members

/-- The call that an emission makes. -/
def emissionCall (emission : DraconEvent × Fate) : PersistCall := ⟨emission.1.record, emission.2⟩

/-- The files and the acknowledged records after so many events. -/
def emitted (log : EventLog) (emissions : List (DraconEvent × Fate)) : History :=
  History.run { log := log } (emissions.map emissionCall)

/-- Every emission is a call with its record, so the files are those of the history. -/
theorem emitted_log (log : EventLog) (emissions : List (DraconEvent × Fate)) :
    (emitted log emissions).log = emissions.foldl emitEvent log := by
  suffices hrun : ∀ h : History, (h.run (emissions.map emissionCall)).log =
      emissions.foldl emitEvent h.log from hrun { log := log }
  induction emissions with
  | nil => exact fun h => rfl
  | cons emission emissions ih =>
    intro h
    have hone : (h.call (emissionCall emission)).log = emitEvent h.log emission := by
      rw [History.call_log, emitEvent, emission.1.stored_spec.2.1]
      rfl
    show ((h.call (emissionCall emission)).run (emissions.map emissionCall)).log = _
    rw [ih, hone, List.foldl_cons]

/-- An acknowledged record is that of an event. -/
theorem emitted_surviving (log : EventLog) (emissions : List (DraconEvent × Fate)) :
    ∀ a ∈ (emitted log emissions).surviving, ∃ event ∈ emissions.map Prod.fst,
      a.record = event.record := by
  suffices hrun : ∀ (h : History) (a : Acknowledged),
      a ∈ (h.run (emissions.map emissionCall)).surviving →
        a ∈ h.surviving ∨ ∃ event ∈ emissions.map Prod.fst, a.record = event.record by
    intro a ha
    exact (hrun { log := log } a ha).resolve_left List.not_mem_nil
  induction emissions with
  | nil => exact fun h a ha => Or.inl ha
  | cons emission emissions ih =>
    intro h a ha
    rcases ih (h.call (emissionCall emission)) a ha with hbefore | ⟨event, hevent, hrecord⟩
    · rcases History.mem_call hbefore with hold | ⟨-, rfl⟩
      · exact Or.inl hold
      · exact Or.inr ⟨emission.1, List.mem_cons_self, rfl⟩
    · exact Or.inr ⟨event, List.mem_cons_of_mem _ hevent, hrecord⟩

/-! ## The events command -/

/-- `serde_json` as the command uses it: a parser of lines, and the values it makes. -/
structure JsonReader (Value : Type) where
  fromStr : Bytes → Option Value
  get : Value → List Char → Option Value
  asStr : Value → Option (List Char)

section Query

variable {Value : Type}

/-- `v.get(name).and_then(|v| v.as_str())`. -/
def JsonReader.field (reader : JsonReader Value) (value : Value) (name : List Char) :
    Option (List Char) := (reader.get value name).bind reader.asStr

/-- What is assumed of the parser: an object of strings without a name twice is read as its
members. -/
def JsonReader.Reads (reader : JsonReader Value) : Prop :=
  ∀ text members, readObject text = some members → (members.map Prod.fst).Nodup →
    ∃ value, reader.fromStr (Utf8.encode text) = some value ∧
      ∀ name, reader.field value name = members.lookup name

/-- The arguments of the command. `toLowercase` is `str::to_lowercase`. -/
structure EventQuery where
  tail : Nat
  source : Option (List Char)
  severity : Option (List Char)
  dedup : Bool
  toLowercase : List Char → List Char

/-- The two filters. -/
def EventQuery.passes (q : EventQuery) (reader : JsonReader Value) (value : Value) : Bool :=
  q.source.all (fun source => reader.field value "domain".toList == some source) &&
    q.severity.all fun severity =>
      q.toLowercase ((reader.field value "severity".toList).getD []) == q.toLowercase severity

def EventQuery.parsed (q : EventQuery) (reader : JsonReader Value) (lines : List Bytes) :
    List Value :=
  lines.filterMap fun line => (reader.fromStr line).filter (q.passes reader)

/-- The names that `--dedup` compares. -/
def dedupNames : List (List Char) :=
  ["domain".toList, "severity".toList, "path".toList, "message".toList]

def sameEvent [DecidableEq Value] (reader : JsonReader Value) (a b : Value) : Bool :=
  dedupNames.all fun name => reader.get a name == reader.get b name

/-- The events that are shown: without neighbours alike where `--dedup` is given. Files that do
not exist show nothing. -/
def EventQuery.run [DecidableEq Value] (q : EventQuery) (reader : JsonReader Value)
    (log : EventLog) : List Value :=
  let parsed := q.parsed reader (readTailSegments log.segments q.tail).1
  if q.dedup then parsed.destutter fun last value => ¬ sameEvent reader value last else parsed

/-- The event passes the filters. -/
def EventQuery.Wants (q : EventQuery) (event : DraconEvent) : Prop :=
  (∀ source, q.source = some source → event.domain = source) ∧
    ∀ severity, q.severity = some severity →
      q.toLowercase event.severity.name = q.toLowercase severity

/-- The value shows the event's field of this name. -/
def ShowsField (reader : JsonReader Value) (value : Value) (event : DraconEvent)
    (name : List Char) : Prop := reader.field value name = event.members.lookup name

theorem DraconEvent.members_nodup (event : DraconEvent) :
    (event.members.map Prod.fst).Nodup := by
  show (["domain".toList, "severity".toList, "path".toList, "message".toList,
    "timestamp".toList] : List (List Char)).Nodup
  decide

/-- **The line of an event is parsed as the event.** -/
theorem JsonReader.Reads.record {reader : JsonReader Value} (hreads : reader.Reads)
    (event : DraconEvent) : ∃ value, reader.fromStr event.record.bytes = some value ∧
      ∀ name, ShowsField reader value event.stored name :=
  hreads _ _ (readObject_writeObject event.stored.members) event.stored.members_nodup

theorem EventQuery.passes_of_wants {q : EventQuery} {reader : JsonReader Value} {value : Value}
    {event : DraconEvent} (hwants : q.Wants event)
    (hshows : ∀ name, ShowsField reader value event name) : q.passes reader value = true := by
  have hdomain : reader.field value "domain".toList = some event.domain := by
    rw [hshows]
    rfl
  have hseverity : reader.field value "severity".toList = some event.severity.name := by
    rw [hshows]
    rfl
  rw [passes, Bool.and_eq_true, hdomain, hseverity]
  constructor
  · cases hsource : q.source with
    | none => rfl
    | some source => simp [hwants.1 source hsource]
  · cases hgiven : q.severity with
    | none => rfl
    | some severity => simp [hwants.2 severity hgiven]

/-- **The lines of events are parsed in their order**, those that the filters pass. -/
theorem EventQuery.parsed_records {q : EventQuery} {reader : JsonReader Value}
    (hreads : reader.Reads) {events : List DraconEvent} {lines : List Bytes}
    (hsub : List.Sublist (events.map (·.record.bytes)) lines)
    (hwants : ∀ event ∈ events, q.Wants event.stored) :
    ∃ values, List.Sublist values (q.parsed reader lines) ∧
      List.Forall₂ (fun event value => ∀ name, ShowsField reader value event.stored name)
        events values := by
  have hparse : ∃ values,
      (events.map (·.record.bytes)).filterMap
          (fun line => (reader.fromStr line).filter (q.passes reader)) = values ∧
        List.Forall₂ (fun event value => ∀ name, ShowsField reader value event.stored name)
          events values := by
    clear hsub
    induction events with
    | nil => exact ⟨[], rfl, .nil⟩
    | cons event events ih =>
      obtain ⟨values, hvalues, hall⟩ := ih fun e he => hwants e (List.mem_cons_of_mem _ he)
      obtain ⟨value, hvalue, hshows⟩ := hreads.record event
      have hpasses := EventQuery.passes_of_wants (hwants event List.mem_cons_self) hshows
      have hone : (reader.fromStr event.record.bytes).filter (q.passes reader) = some value := by
        rw [hvalue, Option.filter_some, if_pos hpasses]
      refine ⟨value :: values, ?_, .cons hshows hall⟩
      rw [List.map_cons, List.filterMap_cons, hone, hvalues]
  obtain ⟨values, hvalues, hall⟩ := hparse
  exact ⟨values, hvalues ▸ hsub.filterMap _, hall⟩

theorem exists_of_forall₂ {α β : Type} {R : α → β → Prop} {xs : List α} {ys : List β}
    (h : List.Forall₂ R xs ys) {x : α} (hx : x ∈ xs) : ∃ y ∈ ys, R x y := by
  induction h with
  | nil => exact absurd hx List.not_mem_nil
  | cons hhead _ ih =>
    rcases List.mem_cons.mp hx with rfl | hrest
    · exact ⟨_, List.mem_cons_self, hhead⟩
    · obtain ⟨y, hy, hr⟩ := ih hrest
      exact ⟨y, List.mem_cons_of_mem _ hy, hr⟩

/-- What is left out as a neighbour alike is like one that stays. -/
theorem exists_mem_destutter {α : Type} {R : α → α → Prop} [DecidableRel R] {xs : List α} {x : α}
    (hx : x ∈ xs) : ∃ y ∈ xs.destutter R, y = x ∨ ¬ R y x := by
  cases xs with
  | nil => exact absurd hx List.not_mem_nil
  | cons first xs =>
    rw [List.destutter_cons']
    induction xs generalizing first with
    | nil => exact ⟨first, List.mem_singleton_self first, Or.inl (List.mem_singleton.mp hx).symm⟩
    | cons next xs ih =>
      rw [List.destutter'_cons]
      split
      · rcases List.mem_cons.mp hx with rfl | hrest
        · exact ⟨x, List.mem_cons_self, Or.inl rfl⟩
        · obtain ⟨y, hy, hlike⟩ := ih next hrest
          exact ⟨y, List.mem_cons_of_mem _ hy, hlike⟩
      · next hlike =>
        rcases List.mem_cons.mp hx with rfl | hrest
        · exact ih x List.mem_cons_self
        · rcases List.mem_cons.mp hrest with rfl | hlater
          · exact ⟨first, List.mem_destutter' _ _ _, Or.inr hlike⟩
          · exact ih first (List.mem_cons_of_mem _ hlater)

/-- The event is shown as some value, whole or, where neighbours alike were left out, in the
fields these were compared by. -/
def EventQuery.Shown (q : EventQuery) (reader : JsonReader Value) (shown : List Value)
    (event : DraconEvent) : Prop :=
  ∃ value ∈ shown, ∀ name, (q.dedup = true → name ∈ dedupNames) →
    ShowsField reader value event name

theorem sameEvent_field [DecidableEq Value] {reader : JsonReader Value} {a b : Value}
    (h : sameEvent reader a b = true) {name : List Char} (hname : name ∈ dedupNames) :
    reader.field a name = reader.field b name := by
  have hget := List.all_eq_true.mp h name hname
  rw [JsonReader.field, JsonReader.field, beq_iff_eq.mp hget]

theorem EventQuery.shown_of_mem [DecidableEq Value] {q : EventQuery}
    {reader : JsonReader Value} {log : EventLog} {value : Value} {event : DraconEvent}
    (hmem : value ∈ q.parsed reader (readTailSegments log.segments q.tail).1)
    (hshows : ∀ name, ShowsField reader value event name) :
    q.Shown reader (q.run reader log) event := by
  unfold EventQuery.run
  by_cases hdedup : q.dedup = true
  · simp only [hdedup, if_true]
    obtain ⟨kept, hkept, hlike⟩ := exists_mem_destutter
      (R := fun last value => ¬ sameEvent reader value last) hmem
    refine ⟨kept, hkept, fun name hname => ?_⟩
    rcases hlike with rfl | hlike
    · exact hshows name
    · have hsame : sameEvent reader value kept = true := Decidable.not_not.mp hlike
      rw [ShowsField, ← sameEvent_field hsame (hname hdedup)]
      exact hshows name
  · simp only [hdedup]
    exact ⟨value, hmem, fun name _ => hshows name⟩

/-- The lines of the records that were appended at the start of one, from an entry on. -/
theorem emitted_sublist {log : EventLog} (hlog : log.Bounded)
    {emissions : List (DraconEvent × Fate)} {older newer : List Acknowledged} {a : Acknowledged}
    (hsplit : (emitted log emissions).surviving = older ++ a :: newer)
    (ha : a.atLineStart = true) :
    ∃ after, a.record.bytes :: after <:+ (emitted log emissions).log.lines ∧
      List.Sublist (ownLines newer) after := by
  have hs : (emitted log emissions).Sound := (History.sound_start hlog).run _
  have hown : ownLines (emitted log emissions).surviving =
      ownLines older ++ a.record.bytes :: ownLines newer := by simp [ownLines, hsplit, ha]
  have hall := hs.sublist_lines
  rw [hown] at hall
  obtain ⟨before, rest, hlines, hmem, hnewer⟩ :=
    List.cons_sublist_iff.mp ((List.sublist_append_right _ _).trans hall)
  obtain ⟨front, back, rfl⟩ := List.append_of_mem hmem
  exact ⟨back ++ rest, ⟨front, by rw [hlines, List.append_assoc, List.cons_append]⟩,
    hnewer.trans (List.sublist_append_right _ _)⟩

/-- **From emission to display**, whatever events are emitted and wherever their calls stop. Every
event has a record, of the fields it is stored with: itself, or cut after the longest beginning that
fits. What the log acknowledged are records of events. Take one that was not rotated away twice and
was appended at the start of a line, a tail with room for the lines from it on, and events of it and
the later ones like it that the filters want: each is shown, and without `--dedup` in the order of
their calls. -/
theorem emitted_shown [DecidableEq Value] (reader : JsonReader Value) (hreads : reader.Reads)
    (log : EventLog) (hlog : log.Bounded) (emissions : List (DraconEvent × Fate)) :
    let h := emitted log emissions
    (∀ event, event.Stored event.stored ∧
        serializeEventForStorage event = some event.stored.json) ∧
      h.log = emissions.foldl emitEvent log ∧
      (∀ a ∈ h.surviving, ∃ event ∈ emissions.map Prod.fst, a.record = event.record) ∧
      ∀ older a newer, h.surviving = older ++ a :: newer → a.atLineStart = true →
        ∃ after, a.record.bytes :: after <:+ h.log.lines ∧
          ∀ (q : EventQuery) (events : List DraconEvent),
            FitsTail (min q.tail maxEventTailLines) (a.record.bytes :: after) →
            List.Sublist (events.map (·.record.bytes)) (a.record.bytes :: ownLines newer) →
            (∀ event ∈ events, q.Wants event.stored) →
            (∀ event ∈ events, q.Shown reader (q.run reader h.log) event.stored) ∧
              (q.dedup = false → ∃ values, List.Sublist values (q.run reader h.log) ∧
                List.Forall₂ (fun event value =>
                  ∀ name, ShowsField reader value event.stored name) events values) := by
  intro h
  refine ⟨fun event => ⟨event.stored_spec.1, event.stored_spec.2.1⟩, emitted_log log emissions,
    emitted_surviving log emissions, ?_⟩
  intro older a newer hsplit ha
  have hs : h.Sound := (History.sound_start hlog).run _
  obtain ⟨after, hsuffix, hnewer⟩ := emitted_sublist hlog hsplit ha
  refine ⟨after, hsuffix, ?_⟩
  intro q events hfits hevents hwants
  have htail : List.Sublist (events.map (·.record.bytes))
      (readTailSegments h.log.segments q.tail).1 :=
    (hevents.trans (hnewer.cons_cons _)).trans
      (suffix_readTailSegments hs.bounded hfits hsuffix).sublist
  obtain ⟨values, hvalues, hall⟩ := EventQuery.parsed_records hreads htail hwants
  constructor
  · intro event hevent
    obtain ⟨value, hvalue, hshows⟩ := exists_of_forall₂ hall hevent
    exact EventQuery.shown_of_mem (hvalues.subset hvalue) hshows
  · intro hdedup
    have hrun : q.run reader h.log =
        q.parsed reader (readTailSegments h.log.segments q.tail).1 := by
      unfold EventQuery.run
      simp only [hdedup, Bool.false_eq_true, if_false]
    exact ⟨values, hrun ▸ hvalues, hall⟩

end Query

/-! ## A reader -/

/-- An object of strings, or one of its strings. -/
abbrev MemberValue := Members ⊕ List Char

/-- A reader of objects of strings, and of nothing else. -/
def memberReader : JsonReader MemberValue where
  fromStr := fun line => ((Utf8.decode line).bind readObject).map Sum.inl
  get := fun value name => value.getLeft?.bind fun members => (members.lookup name).map Sum.inr
  asStr := Sum.getRight?

theorem memberReader_reads : memberReader.Reads := by
  intro text members hread _
  refine ⟨Sum.inl members, ?_, fun name => ?_⟩
  · show ((Utf8.decode (Utf8.encode text)).bind readObject).map Sum.inl = _
    rw [Utf8.decode_encode, Option.bind_some, hread, Option.map_some]
  · show ((members.lookup name).map Sum.inr).bind Sum.getRight? = members.lookup name
    cases members.lookup name <;> rfl

/-- An event whose message needs an escape. -/
def tornEvent : DraconEvent where
  domain := "system".toList
  severity := .warn
  path := "/tmp".toList
  message := "a\nb".toList
  timestamp := "2026".toList

/-- The last events of severity `warn`. -/
def warnQuery : EventQuery where
  tail := 20
  source := none
  severity := some "warn".toList
  dedup := true
  toLowercase := fun text => text.map Char.toLower

theorem warnQuery_wants : warnQuery.Wants tornEvent.stored := by
  refine ⟨fun source h => absurd h (Option.some_ne_none _).symm, fun severity h => ?_⟩
  cases h
  decide

/-- One event, with its record alone in the log. -/
theorem emitted_shown_warn :
    memberReader.Reads ∧ EventLog.Bounded {} ∧
      warnQuery.Shown memberReader
        (warnQuery.run memberReader (emitted {} [(tornEvent, .ok)]).log) tornEvent.stored := by
  refine ⟨memberReader_reads, emptyLog_bounded, ?_⟩
  obtain ⟨after, hsuffix, hshown⟩ := (emitted_shown memberReader memberReader_reads {}
    emptyLog_bounded [(tornEvent, .ok)]).2.2.2 [] ⟨tornEvent.record, true⟩ [] rfl rfl
  have hlines : (emitted {} [(tornEvent, .ok)]).log.lines = [tornEvent.record.bytes] := by decide
  have hafter : after = [] := by
    have hlength := hsuffix.length_le
    rw [hlines] at hlength
    exact List.eq_nil_of_length_eq_zero (by simpa using hlength)
  subst hafter
  exact (hshown warnQuery [tornEvent] ⟨by decide, by decide⟩ (List.Sublist.refl _)
    (by simpa using warnQuery_wants)).1 tornEvent (List.mem_singleton_self _)

end DraconGuard
