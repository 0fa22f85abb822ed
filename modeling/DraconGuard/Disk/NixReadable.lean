import DraconGuard.Disk.NixSwap
import DraconGuard.Lib.NixText

/-!
# What should be found of a configuration

`nixos_swap_devices` should find the string values of the `device` attributes of the list that is
assigned to `swapDevices` (`listedDevices`). It does where the configuration is `Readable`, which it
stops being in three ways.

| | the source says | the source does |
|---|---|---|
| `code_only` | the same length in bytes | two blanks for the last character of a block comment that nothing ends: `Ended` |
| `block_after` | a `;` before the `[` is another construct | looks for the `;` behind the next `=` only: `NoStray` |
| the loop over the block | comments and strings are passed over | reads what is between `''` as code, and a name by the characters `_` and `.` only: `PlainList` |
-/

namespace DraconGuard

open NixText TextSlice

/-- `char::is_alphanumeric`, as far as it is relied on. -/
def OnAscii (alphanumeric : Char → Bool) : Prop :=
  ∀ c : Char, c.toNat < 128 → alphanumeric c = c.isAlphanum

/-! ## Blanking -/

/-- A block comment that nothing ends is blanked as if its last character took two bytes. -/
def Ended (s : Reading) (text : List Char) : Prop :=
  readingAfter s text = .block → text.getLast?.map Char.utf8Size = some 2

instance (s : Reading) (text : List Char) : Decidable (Ended s text) :=
  inferInstanceAs (Decidable (_ → _))

/-- What blanking leaves of a character. -/
def view (m : Mark) : List Char :=
  match m.1 with
  | .bare | .quote => [m.2]
  | _ => blankChar m.2

def codeView (ms : List Mark) : List Char := ms.flatMap view

section Spec

variable (alphanumeric : Char → Bool)

/-! ## The list -/

/-- The list that should be read. -/
def selected (config : List Char) : Option (List Mark) :=
  (attributes alphanumeric swapDevicesKey (marks .bare config)).findSome? listValue

/-- A mention that assigns a list. -/
def assignedList (mention : List Mark × List Mark) : Option (List Mark) :=
  if beginsName alphanumeric mention.1 then (assigned mention.2).bind listValue else none

/-- What the search takes to be assigned: of the text behind the name what leads to a list, and
the list. -/
def reach (behind : List Mark) : Option (List Mark × List Mark) :=
  match behind.dropWhile (!isBare '=' ·) with
  | [] => none
  | eq :: value =>
    let before := value.takeWhile (!isBare '[' ·)
    if (.bare, ';') ∈ before then none
    else (closedList 0 (value.dropWhile (!isBare '[' ·))).map
      (behind.takeWhile (!isBare '=' ·) ++ eq :: before, ·)

/-- A mention, as the search takes it. -/
def taken (mention : List Mark × List Mark) : Option (List Mark × List Mark) :=
  if nameBoundary alphanumeric (mention.1.head?.bind fun m => (view m).getLast?) then
    reach mention.2
  else none

/-- The first mention that is taken assigns a list. -/
def NoStray (config : List Char) : Prop :=
  ∀ mention ∈ (mentions swapDevicesKey [] (marks .bare config)).find?
    (fun mention => (taken alphanumeric mention).isSome),
      (assignedList alphanumeric mention).isSome = true

instance (config : List Char) : Decidable (NoStray alphanumeric config) :=
  Option.decidableForallMem _

/-! ## The devices -/

/-- What a mention of `device` gives. -/
def deviceOf (mention : List Mark × List Mark) : Option (List Char) :=
  if beginsName alphanumeric mention.1 then (assigned mention.2).bind stringValue else none

/-- What the loop over the block needs of it; `before` is what is in front, the last first. -/
structure PlainList (before list : List Mark) : Prop where
  /-- In the open and between `''` every character takes one byte. -/
  ascii : ∀ m ∈ list, m.1 = .bare ∨ m.1 = .indented → m.2.utf8Size = 1
  /-- Between `''` nothing looks like a string or a comment. -/
  quiet : ∀ m ∈ list, m.1 = .indented → m.2 ≠ '"' ∧ m.2 ≠ '#'
  noComment : ((Place.indented, '/'), (Place.indented, '*')) ∉ list.zip list.tail
  /-- What the loop takes for a `device` is the beginning of a name. -/
  named : ∀ mention ∈ mentions deviceKey before list,
    nameBoundary alphanumeric (mention.1.head?.map Prod.snd) = true →
      (deviceValue (chars mention.2)).isSome = true → beginsName alphanumeric mention.1 = true
  /-- A `device` is followed by blanks, `=`, blanks and a string without escapes. -/
  written : ∀ mention ∈ mentions deviceKey before list, beginsName alphanumeric mention.1 = true →
    ∀ value ∈ assigned mention.2, ∀ text ∈ literal value, text.1 = .string ∧ '\\' ∉ text.2 ∧
      ∀ m ∈ mention.2.takeWhile between ++ value.takeWhile between,
        m.1 = .bare ∧ deviceBlank m.2 = true

instance (before list : List Mark) : Decidable (PlainList alphanumeric before list) :=
  decidable_of_iff (_ ∧ _ ∧ _ ∧ _ ∧ _)
    ⟨fun h => ⟨h.1, h.2.1, h.2.2.1, h.2.2.2.1, h.2.2.2.2⟩,
      fun h => ⟨h.ascii, h.quiet, h.noComment, h.named, h.written⟩⟩

/-! ## The whole -/

/-- What should be found. -/
def listedDevices (config : List Char) : List String :=
  match selected alphanumeric config with
  | none => []
  | some list =>
    ((attributes alphanumeric deviceKey list).filterMap stringValue).map String.ofList

structure ReadsDevices (config : List Char) : Prop where
  sameSize : size (codeOnly config) = size config
  exact : nixosSwapDevices alphanumeric config = some (listedDevices alphanumeric config)

structure Readable (config : List Char) : Prop where
  ended : Ended .bare config
  noStray : NoStray alphanumeric config
  plain : ∀ list ∈ selected alphanumeric config, PlainList alphanumeric [] list

instance (config : List Char) : Decidable (Readable alphanumeric config) :=
  decidable_of_iff (_ ∧ _ ∧ _)
    ⟨fun h => ⟨h.1, h.2.1, h.2.2⟩, fun h => ⟨h.ended, h.noStray, h.plain⟩⟩

end Spec

end DraconGuard
