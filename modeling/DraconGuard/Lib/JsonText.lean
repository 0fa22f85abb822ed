import DraconGuard.Lib.Text
import DraconGuard.Lib.TextSlice

/-!
# JSON objects of strings

`escape` and `writeObject` are how a compact JSON writer writes strings and an object of them: the
short escapes, `\u00..` for the other control characters, every other character as it is.
`readObject` reads such objects, with every escape of the grammar but that of a surrogate, and
without blanks between the tokens. Reading inverts writing (**`readObject_writeObject`**). What is
written has no control character, and six bytes for one at the most.
-/

namespace JsonText

open Text

/-! ## Writing -/

def hexDigit (n : Nat) : Char := if n < 10 then Char.ofNat (48 + n) else Char.ofNat (87 + n)

/-- The letter of a short escape. -/
def shortEscape (c : Char) : Option Char :=
  if c = '"' ∨ c = '\\' then some c
  else if c = '\x08' then some 'b'
  else if c = '\t' then some 't'
  else if c = '\n' then some 'n'
  else if c = '\x0c' then some 'f'
  else if c = '\r' then some 'r'
  else none

def escapeChar (c : Char) : List Char :=
  match shortEscape c with
  | some letter => ['\\', letter]
  | none =>
    if c.toNat < 0x20 then ['\\', 'u', '0', '0', hexDigit (c.toNat / 16), hexDigit (c.toNat % 16)]
    else [c]

def escape (text : List Char) : List Char := text.flatMap escapeChar

def quoted (text : List Char) : List Char := '"' :: escape text ++ ['"']

/-- The names and the values. -/
abbrev Members := List (List Char × List Char)

def writeMembers : Members → List Char
  | [] => []
  | [(name, value)] => quoted name ++ ':' :: quoted value
  | (name, value) :: next :: rest =>
    quoted name ++ ':' :: quoted value ++ ',' :: writeMembers (next :: rest)

def writeObject (members : Members) : List Char := '\x7b' :: writeMembers members ++ ['\x7d']

/-! ## Reading -/

/-- What a short escape stands for. -/
def plainEscape (c : Char) : Option Char :=
  if c = '"' ∨ c = '\\' ∨ c = '/' then some c
  else if c = 'b' then some '\x08'
  else if c = 't' then some '\t'
  else if c = 'n' then some '\n'
  else if c = 'f' then some '\x0c'
  else if c = 'r' then some '\r'
  else none

def readHex (digits : List Char) : Option Char :=
  match parseHex digits with
  | some n => if n < 0xD800 ∨ 0xDFFF < n then some (Char.ofNat n) else none
  | none => none

/-- The rest of a string, after its quotation mark, and what follows it. -/
def readString : List Char → Option (List Char × List Char)
  | [] => none
  | c :: text =>
    if c = '"' then some ([], text)
    else if c = '\\' then
      match text with
      | [] => none
      | letter :: text =>
        if letter = 'u' then
          match text with
          | h3 :: h2 :: h1 :: h0 :: text =>
            (readHex [h3, h2, h1, h0]).bind fun d =>
              (readString text).map fun read => (d :: read.1, read.2)
          | _ => none
        else
          (plainEscape letter).bind fun d =>
            (readString text).map fun read => (d :: read.1, read.2)
    else if c.toNat < 0x20 then none
    else (readString text).map fun read => (c :: read.1, read.2)

/-- A string with its quotation marks. -/
def readQuoted (text : List Char) : Option (List Char × List Char) :=
  if text.head? = some '"' then readString text.tail else none

def readMember (text : List Char) : Option ((List Char × List Char) × List Char) :=
  (readQuoted text).bind fun name =>
    if name.2.head? = some ':' then
      (readQuoted name.2.tail).map fun value => ((name.1, value.1), value.2)
    else none

/-- Members up to the closing brace, which is the end of the text. -/
def readMembers : Nat → List Char → Option Members
  | 0, _ => none
  | fuel + 1, text =>
    (readMember text).bind fun member =>
      if member.2 = ['\x7d'] then some [member.1]
      else if member.2.head? = some ',' then
        (readMembers fuel member.2.tail).map (member.1 :: ·)
      else none

/-- A member is at least a character, so the text has fuel for all of them. -/
def readObject (text : List Char) : Option Members :=
  if text = ['\x7b', '\x7d'] then some []
  else if text.head? = some '\x7b' then readMembers text.length text.tail
  else none

/-! ## Strings -/

theorem hexValue_hexDigit : ∀ d < 16, hexValue (hexDigit d) = some d := by decide

theorem parseHex_control {n : Nat} (h : n < 0x20) :
    parseHex ['0', '0', hexDigit (n / 16), hexDigit (n % 16)] = some n := by
  have hhigh := hexValue_hexDigit (n / 16) (by omega)
  have hlow := hexValue_hexDigit (n % 16) (by omega)
  have hzero : hexValue '0' = some 0 := rfl
  simp only [parseHex, List.cons_ne_nil, if_false, List.foldl_cons, List.foldl_nil,
    Option.bind_some, Option.map_some, hzero, hhigh, hlow, Option.some.injEq]
  omega

theorem readHex_control {c : Char} (h : c.toNat < 0x20) :
    readHex ['0', '0', hexDigit (c.toNat / 16), hexDigit (c.toNat % 16)] = some c := by
  simp only [readHex, parseHex_control h]
  rw [if_pos (Or.inl (by omega)), Char.ofNat_toNat]

/-- A short escape is read back, and its letter is no `u`. -/
theorem plainEscape_shortEscape {c letter : Char} (h : shortEscape c = some letter) :
    plainEscape letter = some c ∧ letter ≠ 'u' := by
  unfold shortEscape at h
  split at h
  · next hself =>
    cases h
    rcases hself with rfl | rfl <;> exact ⟨rfl, by decide⟩
  repeat'
    split at h
    · next heq =>
      cases h
      subst heq
      exact ⟨rfl, by decide⟩
  cases h

theorem of_shortEscape_none {c : Char} (h : shortEscape c = none) : c ≠ '"' ∧ c ≠ '\\' := by
  constructor
  · rintro rfl
    exact absurd h (by decide)
  · rintro rfl
    exact absurd h (by decide)

theorem readString_escapeChar (c : Char) (text : List Char) :
    readString (escapeChar c ++ text) =
      (readString text).map fun read => (c :: read.1, read.2) := by
  have hslash : ('\\' : Char) ≠ '"' := by decide
  unfold escapeChar
  cases hshort : shortEscape c with
  | some letter =>
    obtain ⟨hplain, hu⟩ := plainEscape_shortEscape hshort
    simp only [List.cons_append, List.nil_append]
    rw [readString.eq_def]
    simp only [if_neg hslash, if_true, if_neg hu, hplain, Option.bind_some]
  | none =>
    obtain ⟨hquote, hself⟩ := of_shortEscape_none hshort
    simp only []
    split
    · next hcontrol =>
      simp only [List.cons_append, List.nil_append]
      rw [readString.eq_def]
      simp only [if_neg hslash, if_true, readHex_control hcontrol, Option.bind_some]
    · next hplain =>
      rw [List.singleton_append, readString.eq_def]
      simp only [if_neg hquote, if_neg hself, if_neg hplain]

/-- **A string is read back**, and what follows it is left. -/
theorem readString_escape (text rest : List Char) :
    readString (escape text ++ '"' :: rest) = some (text, rest) := by
  induction text with
  | nil =>
    rw [escape, List.flatMap_nil, List.nil_append, readString.eq_def]
    simp only [if_true]
  | cons c text ih =>
    have hcons : escape (c :: text) = escapeChar c ++ escape text := List.flatMap_cons
    rw [hcons, List.append_assoc, readString_escapeChar, ih]
    rfl

theorem readQuoted_quoted (text rest : List Char) :
    readQuoted (quoted text ++ rest) = some (text, rest) := by
  have hread := readString_escape text rest
  simp only [quoted, readQuoted, List.cons_append, List.head?_cons, if_true, List.tail_cons,
    List.append_assoc, List.nil_append, hread]

/-! ## Objects -/

theorem readMember_write (name value rest : List Char) :
    readMember (quoted name ++ ':' :: quoted value ++ rest) = some ((name, value), rest) := by
  rw [readMember, List.append_assoc, readQuoted_quoted]
  simp only [Option.bind_some, List.cons_append, List.head?_cons, if_true, List.tail_cons,
    readQuoted_quoted, Option.map_some]

theorem readMembers_write (members : Members) (hne : members ≠ []) {fuel : Nat}
    (hfuel : members.length ≤ fuel) :
    readMembers fuel (writeMembers members ++ ['\x7d']) = some members := by
  induction members generalizing fuel with
  | nil => exact absurd rfl hne
  | cons member members ih =>
    obtain ⟨fuel, rfl⟩ : ∃ more, fuel = more + 1 := by
      rw [List.length_cons] at hfuel
      exact ⟨fuel - 1, by omega⟩
    obtain ⟨name, value⟩ := member
    cases members with
    | nil =>
      rw [writeMembers, readMembers, readMember_write]
      simp only [Option.bind_some, if_true]
    | cons next rest =>
      have hrest := ih (List.cons_ne_nil _ _) (Nat.le_of_succ_le_succ hfuel)
      rw [writeMembers, readMembers, List.append_assoc, readMember_write]
      simp only [Option.bind_some, List.cons_append, List.head?_cons, if_true, List.tail_cons,
        hrest, Option.map_some]
      rw [if_neg (by simp)]

theorem length_le_writeMembers (members : Members) :
    members.length ≤ (writeMembers members).length := by
  induction members with
  | nil => exact Nat.zero_le _
  | cons member members ih =>
    obtain ⟨name, value⟩ := member
    cases members with
    | nil =>
      simp only [writeMembers, List.length_cons, List.length_append, List.length_nil]
      omega
    | cons next rest =>
      simp only [writeMembers, List.length_cons, List.length_append] at ih ⊢
      omega

/-- **An object is read back.** -/
theorem readObject_writeObject (members : Members) :
    readObject (writeObject members) = some members := by
  by_cases hnil : members = []
  · subst hnil
    rfl
  · have hlength := length_le_writeMembers members
    have hpos : 0 < members.length := List.length_pos_iff.mpr hnil
    have hlong : writeObject members ≠ ['\x7b', '\x7d'] := by
      intro heq
      have hcount := congrArg List.length heq
      simp only [writeObject, List.length_cons, List.length_append, List.length_nil] at hcount
      omega
    rw [readObject, if_neg hlong, writeObject, List.cons_append, List.head?_cons, if_pos rfl,
      List.tail_cons]
    refine readMembers_write members hnil ?_
    simp only [List.length_cons, List.length_append]
    omega

/-! ## What is written -/

theorem size_hexDigit : ∀ d < 16, (hexDigit d).utf8Size = 1 ∧ 0x20 ≤ (hexDigit d).toNat := by
  decide

theorem size_shortEscape {c letter : Char} (h : shortEscape c = some letter) :
    letter.utf8Size = 1 ∧ 0x20 ≤ letter.toNat := by
  unfold shortEscape at h
  split at h
  · next hself =>
    cases h
    rcases hself with rfl | rfl <;> decide
  repeat'
    split at h
    · cases h
      decide
  cases h

/-- Six bytes for a control character, which is one byte itself. -/
theorem size_escapeChar (c : Char) : TextSlice.size (escapeChar c) ≤ 6 * c.utf8Size := by
  have hpos := c.utf8Size_pos
  have hslash : ('\\' : Char).utf8Size = 1 := rfl
  unfold escapeChar
  cases hshort : shortEscape c with
  | some letter =>
    simp only [TextSlice.size_cons, TextSlice.size_nil, (size_shortEscape hshort).1, hslash]
    omega
  | none =>
    simp only []
    split
    · have hu : ('u' : Char).utf8Size = 1 := rfl
      have hzero : ('0' : Char).utf8Size = 1 := rfl
      simp only [TextSlice.size_cons, TextSlice.size_nil, hslash, hu, hzero,
        (size_hexDigit (c.toNat / 16) (by omega)).1, (size_hexDigit (c.toNat % 16) (by omega)).1]
      omega
    · simp only [TextSlice.size_cons, TextSlice.size_nil]
      omega

theorem size_escape (text : List Char) :
    TextSlice.size (escape text) ≤ 6 * TextSlice.size text := by
  induction text with
  | nil => exact Nat.zero_le _
  | cons c text ih =>
    have hcons : escape (c :: text) = escapeChar c ++ escape text := List.flatMap_cons
    have hc := size_escapeChar c
    rw [hcons, TextSlice.size_append, TextSlice.size_cons]
    omega

theorem size_quoted (text : List Char) :
    TextSlice.size (quoted text) ≤ 6 * TextSlice.size text + 2 := by
  have hescape := size_escape text
  have hquote : ('"' : Char).utf8Size = 1 := rfl
  simp only [quoted, List.cons_append, TextSlice.size_cons, TextSlice.size_append,
    TextSlice.size_nil, hquote]
  omega

/-- No character that a text could not hold on one line. -/
def Printable (text : List Char) : Prop := ∀ c ∈ text, 0x20 ≤ c.toNat

theorem Printable.append {pre post : List Char} (hpre : Printable pre) (hpost : Printable post) :
    Printable (pre ++ post) := by
  intro c hc
  rcases List.mem_append.mp hc with hc | hc
  · exact hpre c hc
  · exact hpost c hc

theorem Printable.cons {c : Char} {text : List Char} (hc : 0x20 ≤ c.toNat)
    (htext : Printable text) : Printable (c :: text) := by
  intro d hd
  rcases List.mem_cons.mp hd with rfl | hd
  · exact hc
  · exact htext d hd

theorem printable_nil : Printable [] := fun _ hc => absurd hc List.not_mem_nil

theorem printable_escapeChar (c : Char) : Printable (escapeChar c) := by
  unfold escapeChar
  cases hshort : shortEscape c with
  | some letter =>
    exact .cons (by decide) (.cons (size_shortEscape hshort).2 printable_nil)
  | none =>
    simp only []
    split
    · exact .cons (by decide) (.cons (by decide) (.cons (by decide) (.cons (by decide)
        (.cons (size_hexDigit _ (by omega)).2 (.cons (size_hexDigit _ (by omega)).2
          printable_nil)))))
    · next hplain => exact .cons (Nat.not_lt.mp hplain) printable_nil

theorem printable_quoted (text : List Char) : Printable (quoted text) := by
  have hescape : Printable (escape text) := by
    intro c hc
    obtain ⟨d, -, hmem⟩ := List.mem_flatMap.mp hc
    exact printable_escapeChar d c hmem
  exact .cons (by decide) (hescape.append (.cons (by decide) printable_nil))

/-- **What is written stands on one line.** -/
theorem printable_writeObject (members : Members) : Printable (writeObject members) := by
  have hmember (name value : List Char) : Printable (quoted name ++ ':' :: quoted value) :=
    (printable_quoted name).append (.cons (by decide) (printable_quoted value))
  have hmembers : Printable (writeMembers members) := by
    induction members with
    | nil => exact printable_nil
    | cons member members ih =>
      obtain ⟨name, value⟩ := member
      cases members with
      | nil => exact hmember name value
      | cons next rest => exact (hmember name value).append (.cons (by decide) ih)
  exact .cons (by decide) (hmembers.append (.cons (by decide) printable_nil))

end JsonText
