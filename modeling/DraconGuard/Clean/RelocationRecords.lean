import Mathlib.Logic.Encodable.Basic
import Mathlib.Logic.Equiv.List
import DraconGuard.Lib.Runs

/-!
# The records of automatic relocations

`record_relocation` (relocate.rs:801) reads the whole file, changes one record and writes the whole
file again. A file it cannot read or parse counts as empty (`load_relocation_records`,
relocate.rs:794), and `fs::write` empties the file before it writes. What becomes of the records of
the other links is `keepsOthers_iff`.

| here | there |
| --- | --- |
| `RecordCodec` | `serde_json::to_string_pretty` and `from_str`, for lists of records |
| `recordRelocation` | `record_relocation`, with how far it comes |
| `RecordState.recorded` | a ghost: the last record of each link a call returned `Ok` for |
-/

namespace DraconGuard

namespace RelocationRecords

open Runs

/-- `RelocationRecord` (relocate.rs:780). -/
structure RelocationRecord where
  link : String
  target : String
  movedAtUnix : Nat
  bytes : Nat
deriving DecidableEq

/-- What is relied on of `serde_json`: it reads what it wrote, and no front of that. -/
structure RecordCodec where
  toStringPretty : List RelocationRecord → List UInt8
  fromStr : List UInt8 → Option (List RelocationRecord)
  roundTrip : ∀ records, fromStr (toStringPretty records) = some records
  torn : ∀ records k, k < (toStringPretty records).length →
    fromStr ((toStringPretty records).take k) = none

/-- One call, and what it meets. -/
structure RecordCall where
  link : String
  target : String
  bytes : Nat
  now : Nat
  readable : Bool := true
  dirMade : Bool := true
  opened : Bool := true
  /-- How many bytes come to the file before a write fails or the process ends. -/
  written : Nat
  /-- The call comes to its end. -/
  returns : Bool := true

variable (codec : RecordCodec)

/-- `load_relocation_records` (relocate.rs:794). -/
def loadRelocationRecords (readable : Bool) (file : Option (List UInt8)) : List RelocationRecord :=
  if readable then (file.bind codec.fromStr).getD [] else []

namespace RecordCall

variable (c : RecordCall)

def record : RelocationRecord := ⟨c.link, c.target, c.now, c.bytes⟩

/-- The records the call writes. -/
def records (file : Option (List UInt8)) : List RelocationRecord :=
  (loadRelocationRecords codec c.readable file).filter (fun r => r.link ≠ c.link) ++ [c.record]

def text (file : Option (List UInt8)) : List UInt8 := codec.toStringPretty (c.records codec file)

/-- The call comes to empty the file. -/
def truncates : Bool := c.dirMade && c.opened

/-- All of the text is in the file. -/
def complete (file : Option (List UInt8)) : Bool :=
  decide ((c.text codec file).length ≤ c.written)

/-- `record_relocation` (relocate.rs:801): the file it leaves, and whether it returns `Ok`. -/
def recordRelocation (file : Option (List UInt8)) : Option (List UInt8) × Bool :=
  if !c.truncates then (file, false)
  else (some ((c.text codec file).take c.written), c.complete codec file && c.returns)

end RecordCall

structure RecordState where
  file : Option (List UInt8)
  recorded : List RelocationRecord

/-- A call, or anything else that happens to the file. -/
inductive RecordInput where
  | call (c : RecordCall)
  | outside (file : Option (List UInt8))

def recordStep (s : RecordState) : RecordInput → RecordState
  | .outside file => { s with file := file }
  | .call c =>
    let after := c.recordRelocation codec s.file
    { file := after.1
      recorded := if after.2 then s.recorded.filter (fun r => r.link ≠ c.link) ++ [c.record]
        else s.recorded }

/-- The records of the other links are there to be read. -/
def HoldsOthers (s : RecordState) (link : String) (held : List RelocationRecord) : Prop :=
  ∀ r ∈ s.recorded, r.link ≠ link → r ∈ held

/-- A call keeps the records of the other links, or fails and leaves the file. -/
def KeepsOthers (s : RecordState) : RecordInput → Prop
  | .outside _ => True
  | .call c =>
    HoldsOthers s c.link (loadRelocationRecords codec true (c.recordRelocation codec s.file).1) ∨
      ((c.recordRelocation codec s.file).2 = false ∧ (c.recordRelocation codec s.file).1 = s.file)

/-- A call that does not empty the file; or writes it in full over records it has read; or has no
other record to lose; or fails with as many bytes written as the file had, and the same. -/
inductive Careful (s : RecordState) : RecordInput → Prop
  | outside (file : Option (List UInt8)) : Careful s (.outside file)
  | ended {c : RecordCall} (h : c.truncates = false) : Careful s (.call c)
  | rewritten {c : RecordCall} (hwhole : c.complete codec s.file = true)
      (hread : HoldsOthers s c.link (loadRelocationRecords codec c.readable s.file)) :
      Careful s (.call c)
  | alone {c : RecordCall} (h : ∀ r ∈ s.recorded, r.link = c.link) : Careful s (.call c)
  | unchanged {c : RecordCall} (h : (c.complete codec s.file && c.returns) = false)
      (hsame : s.file = some ((c.text codec s.file).take c.written)) : Careful s (.call c)

section Step

variable {codec} {s : RecordState} {c : RecordCall}

theorem recordRelocation_of_truncates (h : c.truncates = true) (file : Option (List UInt8)) :
    c.recordRelocation codec file =
      (some ((c.text codec file).take c.written), c.complete codec file && c.returns) := by
  simp [RecordCall.recordRelocation, h]

/-- What is read after a full write. -/
theorem load_complete {file : Option (List UInt8)} (h : c.complete codec file = true) :
    loadRelocationRecords codec true (some ((c.text codec file).take c.written)) =
      c.records codec file := by
  rw [List.take_of_length_le (of_decide_eq_true h)]
  unfold loadRelocationRecords RecordCall.text
  simp [codec.roundTrip]

/-- What is read after a write that ended early. -/
theorem load_torn {file : Option (List UInt8)} (h : c.complete codec file = false) :
    loadRelocationRecords codec true (some ((c.text codec file).take c.written)) = [] := by
  have hshort : c.written < (c.text codec file).length :=
    Nat.lt_of_not_le (of_decide_eq_false h)
  unfold loadRelocationRecords
  simp [RecordCall.text, codec.torn _ _ hshort]

theorem mem_records {file : Option (List UInt8)} {r : RelocationRecord} (hr : r.link ≠ c.link) :
    r ∈ c.records codec file ↔ r ∈ loadRelocationRecords codec c.readable file := by
  unfold RecordCall.records
  rw [List.mem_append, List.mem_filter]
  constructor
  · rintro (⟨hin, -⟩ | hin)
    · exact hin
    · obtain rfl := List.mem_singleton.mp hin
      exact absurd rfl hr
  · exact fun hin => Or.inl ⟨hin, by simpa using hr⟩

/-- **One call.** -/
theorem keepsOthers_iff_careful (s : RecordState) (i : RecordInput) :
    KeepsOthers codec s i ↔ Careful codec s i := by
  cases i with
  | outside file => exact iff_of_true trivial (.outside file)
  | call c =>
    cases htruncates : c.truncates with
    | false =>
      have hended : c.recordRelocation codec s.file = (s.file, false) := by
        simp [RecordCall.recordRelocation, htruncates]
      refine iff_of_true (Or.inr ?_) (.ended htruncates)
      rw [hended]
      exact ⟨rfl, rfl⟩
    | true =>
      change (HoldsOthers s c.link (loadRelocationRecords codec true
        (c.recordRelocation codec s.file).1) ∨ _) ↔ _
      rw [recordRelocation_of_truncates htruncates]
      dsimp only
      constructor
      · rintro (hheld | ⟨hfailed, hsame⟩)
        · cases hwhole : c.complete codec s.file with
          | true =>
            rw [load_complete hwhole] at hheld
            exact .rewritten hwhole fun r hr hne => (mem_records hne).1 (hheld r hr hne)
          | false =>
            rw [load_torn hwhole] at hheld
            refine .alone fun r hr => ?_
            by_contra hne
            cases hheld r hr hne
        · exact .unchanged hfailed hsame.symm
      · intro hcareful
        cases hcareful with
        | ended h => rw [htruncates] at h; cases h
        | rewritten hwhole hread =>
          refine Or.inl fun r hr hne => ?_
          rw [load_complete hwhole]
          exact (mem_records hne).2 (hread r hr hne)
        | alone h => exact Or.inl fun r hr hne => absurd (h r hr) hne
        | unchanged hfailed hsame => exact Or.inr ⟨hfailed, hsame.symm⟩

end Step

/-- **Every sequence of calls**, with anything between them: no record of another link is lost,
except by a call that is not careful. -/
theorem records_kept_iff (s : RecordState) (inputs : List RecordInput) :
    Along (recordStep codec) (KeepsOthers codec) s inputs ↔
      Along (recordStep codec) (Careful codec) s inputs :=
  along_congr keepsOthers_iff_careful

/-! ## A file that cannot be read -/

section Sample

def photos : RelocationRecord := ⟨"/home/u/photos", "/cold/photos", 7, 3⟩

def music : RelocationRecord := ⟨"/home/u/music", "/cold/music", 9, 5⟩

/-- The text of a list of one record. -/
def singleText (r : RelocationRecord) : List UInt8 :=
  ("[\n  \x7b\n    \"link\": \"" ++ r.link ++ "\",\n    \"target\": \"" ++ r.target ++
    "\",\n    \"moved_at_unix\": " ++ toString r.movedAtUnix ++ ",\n    \"bytes\": " ++
    toString r.bytes ++ "\n  \x7d\n]").toList.map fun c => c.toNat.toUInt8

/-- A number with a mark at its end. -/
def framed (n : Nat) : List UInt8 := 0 :: (List.replicate n 1 ++ [2])

def unframed (text : List UInt8) : Option Nat :=
  if text = framed (text.length - 2) then some (text.length - 2) else none

theorem unframed_framed (n : Nat) : unframed (framed n) = some n := by
  have hlength : (framed n).length - 2 = n := by simp [framed]
  simp [unframed, hlength]

theorem unframed_take {n k : Nat} (hk : k < (framed n).length) :
    unframed ((framed n).take k) = none := by
  refine if_neg fun heq => ?_
  have hmark : (2 : UInt8) ∈ (framed n).take k := by
    rw [heq]
    simp [framed]
  have hfront : (framed n).take k = (0 :: List.replicate n 1).take k := by
    have hle : k ≤ (0 :: List.replicate n (1 : UInt8)).length := by
      simpa [framed] using Nat.le_of_lt_succ (by simpa [framed] using hk)
    exact List.take_append_of_le_length hle
  rw [hfront] at hmark
  have hin := List.mem_of_mem_take hmark
  simp at hin

def recordKey (r : RelocationRecord) : List Nat × List Nat × Nat × Nat :=
  (r.link.toList.map Char.toNat, r.target.toList.map Char.toNat, r.movedAtUnix, r.bytes)

def recordOfKey (key : List Nat × List Nat × Nat × Nat) : RelocationRecord :=
  ⟨String.ofList (key.1.map Char.ofNat), String.ofList (key.2.1.map Char.ofNat), key.2.2.1,
    key.2.2.2⟩

theorem recordOfKey_recordKey (r : RelocationRecord) : recordOfKey (recordKey r) = r := by
  simp [recordOfKey, recordKey, Function.comp_def]

instance : Encodable RelocationRecord :=
  Encodable.ofLeftInverse recordKey recordOfKey recordOfKey_recordKey

def sampleText (records : List RelocationRecord) : List UInt8 :=
  if records = [photos] then singleText photos
  else if records = [music] then singleText music
  else framed (Encodable.encode records)

def sampleParse (text : List UInt8) : Option (List RelocationRecord) :=
  if text = singleText photos then some [photos]
  else if text = singleText music then some [music]
  else (unframed text).bind Encodable.decode

private theorem single_apart : singleText photos ≠ singleText music ∧
    ¬singleText photos <+: singleText music ∧ ¬singleText music <+: singleText photos := by
  decide +kernel

private theorem single_head : (singleText photos).head? = some 91 ∧
    (singleText music).head? = some 91 := by
  decide +kernel

theorem framed_ne_single (n : Nat) {text : List UInt8} (h : text.head? = some 91) :
    framed n ≠ text := by
  rintro rfl
  cases h

theorem unframed_of_head {text : List UInt8} (h : text.head? = some 91) (k : Nat) :
    unframed (text.take k) = none := by
  refine if_neg fun heq => ?_
  cases text with
  | nil => cases h
  | cons b rest =>
    obtain rfl : b = 91 := Option.some.inj h
    cases k with
    | zero => cases heq
    | succ k => cases heq

theorem take_framed_ne {n k : Nat} {text : List UInt8} (h : text.head? = some 91) :
    (framed n).take k ≠ text := by
  rintro rfl
  cases k with
  | zero => cases h
  | succ k => cases h

theorem take_ne_of_not_prefix {text other : List UInt8} (h : ¬other <+: text) {k : Nat} :
    text.take k ≠ other := by
  rintro rfl
  exact h (List.take_prefix k text)

/-- A reader and a writer: the text of the source for two lists, one of the kind for the others. -/
def sampleCodec : RecordCodec where
  toStringPretty := sampleText
  fromStr := sampleParse
  roundTrip records := by
    unfold sampleText
    split
    · next h => simp [sampleParse, h]
    · split
      · next h => simp [sampleParse, h, single_apart.1.symm]
      · unfold sampleParse
        rw [if_neg (framed_ne_single _ single_head.1), if_neg (framed_ne_single _ single_head.2),
          unframed_framed]
        exact Encodable.encodek records
  torn records k hk := by
    unfold sampleText at hk ⊢
    have hshort : ∀ {text : List UInt8}, k < text.length → text.take k ≠ text := by
      intro text hlt heq
      have hlength := congrArg List.length heq
      rw [List.length_take] at hlength
      omega
    split
    · next h =>
      rw [if_pos h] at hk
      unfold sampleParse
      rw [if_neg (hshort hk), if_neg ( take_ne_of_not_prefix single_apart.2.2),
        unframed_of_head single_head.1]
      rfl
    · next h =>
      rw [if_neg h] at hk
      split
      · next h' =>
        rw [if_pos h'] at hk
        unfold sampleParse
        rw [if_neg ( take_ne_of_not_prefix single_apart.2.1), if_neg (hshort hk),
          unframed_of_head single_head.2]
        rfl
      · next h' =>
        rw [if_neg h'] at hk
        unfold sampleParse
        rw [if_neg (take_framed_ne single_head.1), if_neg (take_framed_ne single_head.2),
          unframed_take hk]
        rfl

end Sample

theorem same_link_kept :
    Along (recordStep sampleCodec) (KeepsOthers sampleCodec) ⟨some (singleText photos), [photos]⟩
      [.call ⟨photos.link, photos.target, 3, 7, true, true, true, 1000, true⟩] :=
  (records_kept_iff sampleCodec _ _).2 ⟨.alone (by simp), trivial⟩

private theorem unread_after :
    (RecordCall.recordRelocation sampleCodec
        ⟨music.link, music.target, 5, 9, false, true, true, 1000, true⟩
        (some (singleText photos))).2 = true ∧
      loadRelocationRecords sampleCodec true (RecordCall.recordRelocation sampleCodec
        ⟨music.link, music.target, 5, 9, false, true, true, 1000, true⟩
        (some (singleText photos))).1 = [music] := by
  decide +kernel

/-- **A record is lost**: the file cannot be read, and the call returns `Ok`. -/
theorem unread_file_overwritten :
    ¬Along (recordStep sampleCodec) (KeepsOthers sampleCodec)
      ⟨some (singleText photos), [photos]⟩
      [.call ⟨music.link, music.target, 5, 9, false, true, true, 1000, true⟩] := by
  rintro ⟨hheld | ⟨hfailed, -⟩, -⟩
  · have hin := hheld photos List.mem_cons_self (by decide)
    rw [unread_after.2] at hin
    exact absurd hin (by decide)
  · rw [unread_after.1] at hfailed
    cases hfailed

end RelocationRecords

end DraconGuard
