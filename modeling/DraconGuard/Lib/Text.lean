import Mathlib.Data.List.Infix
import Mathlib.Data.List.TakeWhile

/-!
# Reading text line by line

The fragments of a string library that parsers of command output share: lines, whitespace
separated words, numbers. `parseDigits_toString` is the round trip through the
decimal rendering.
-/

namespace Text

/-- The Unicode `White_Space` property. -/
def isWhitespace (c : Char) : Bool :=
  (0x09 ≤ c.val && c.val ≤ 0x0D) || c.val == 0x20 || c.val == 0x85 || c.val == 0xA0 ||
    c.val == 0x1680 || (0x2000 ≤ c.val && c.val ≤ 0x200A) || c.val == 0x2028 ||
    c.val == 0x2029 || c.val == 0x202F || c.val == 0x205F || c.val == 0x3000

def trim (s : String) : List Char :=
  ((s.toList.dropWhile isWhitespace).reverse.dropWhile isWhitespace).reverse

def containsChars (text part : List Char) : Bool :=
  text.tails.any fun t => part.isPrefixOf t

def contains (text part : String) : Bool :=
  containsChars text.toList part.toList

/-- A line terminator is `\n` or `\r\n`; a carriage return alone ends nothing. -/
def stripCarriage (line : List Char) : List Char :=
  if line.getLast? = some '\r' then line.dropLast else line

/-- Lines without their terminators. Text after the last `\n` is a line only when there is
some, and it keeps a trailing carriage return. -/
def lines (text : String) : List (List Char) :=
  match (text.toList.splitOn '\n').reverse with
  | [] => []
  | last :: ended => ended.reverse.map stripCarriage ++ (if last = [] then [] else [last])

def splitWhitespace (line : List Char) : List (List Char) :=
  (line.splitOnP isWhitespace).filter (· ≠ [])

def stripPrefix (cs part : List Char) : Option (List Char) :=
  if part.isPrefixOf cs then some (cs.drop part.length) else none

def stripSuffix (cs part : List Char) : Option (List Char) :=
  if part.isSuffixOf cs then some (cs.take (cs.length - part.length)) else none

/-! ## Looking for a part of a text -/

/-- The text behind the first occurrence of `part`. -/
def afterFirst (text part : List Char) : Option (List Char) :=
  (text.tails.find? fun t => part.isPrefixOf t).map fun t => t.drop part.length

/-- The text behind the last `c`. -/
def afterLast (text : List Char) (c : Char) : Option (List Char) :=
  if c ∈ text then some (text.reverse.takeWhile (· ≠ c)).reverse else none

/-- The text before the first character of a kind. -/
def upTo (stop : Char → Bool) (text : List Char) : List Char := text.takeWhile fun c => !stop c

/-! ### The first occurrence, piece by piece -/

theorem afterFirst_nil {part : List Char} (h : part ≠ []) : afterFirst [] part = none := by
  cases part with
  | nil => exact absurd rfl h
  | cons c part => rfl

theorem afterFirst_cons (c : Char) (text part : List Char) :
    afterFirst (c :: text) part =
      if part <+: c :: text then some ((c :: text).drop part.length) else afterFirst text part := by
  unfold afterFirst
  rw [List.tails_cons, List.find?_cons]
  by_cases h : part <+: c :: text
  · rw [List.isPrefixOf_iff_prefix.mpr h, if_pos h]
    rfl
  · have hb : part.isPrefixOf (c :: text) = false := by
      rw [Bool.eq_false_iff]
      exact fun hin => h (List.isPrefixOf_iff_prefix.mp hin)
    rw [hb, if_neg h]

/-- What a text does not contain does not start where the text ends. -/
theorem prefix_append_cons_iff {part text rest : List Char} {sep : Char} (hsep : sep ∉ part) :
    part <+: text ++ sep :: rest ↔ part <+: text := by
  refine ⟨fun h => ?_, fun h => h.trans (List.prefix_append text _)⟩
  rcases List.prefix_or_prefix_of_prefix h (List.prefix_append text (sep :: rest)) with hp | hp
  · exact hp
  · obtain ⟨tail, rfl⟩ := hp
    rw [List.prefix_append_right_inj] at h
    cases tail with
    | nil => simp
    | cons d tail =>
      obtain ⟨rfl, -⟩ := List.cons_prefix_cons.mp h
      simp at hsep

/-- A part without the separator is found in the first piece that has it. -/
theorem afterFirst_append_cons {part : List Char} {sep : Char} (hne : part ≠ [])
    (hsep : sep ∉ part) (text rest : List Char) :
    afterFirst (text ++ sep :: rest) part =
      match afterFirst text part with
      | some tail => some (tail ++ sep :: rest)
      | none => afterFirst rest part := by
  induction text with
  | nil =>
    have hno : ¬ part <+: sep :: rest := by
      intro h
      cases part with
      | nil => exact hne rfl
      | cons c part =>
        obtain ⟨rfl, -⟩ := List.cons_prefix_cons.mp h
        simp at hsep
    rw [List.nil_append, afterFirst_cons, if_neg hno, afterFirst_nil hne]
  | cons c text ih =>
    rw [List.cons_append, afterFirst_cons, afterFirst_cons, ← List.cons_append]
    by_cases h : part <+: c :: text
    · rw [if_pos ((prefix_append_cons_iff hsep).mpr h), if_pos h,
        List.drop_append_of_le_length h.length_le]
    · rw [if_neg (fun hin => h ((prefix_append_cons_iff hsep).mp hin)), if_neg h]
      exact ih

theorem afterFirst_of_prefix {part text : List Char} (hne : part ≠ []) (h : part <+: text) :
    afterFirst text part = some (text.drop part.length) := by
  cases text with
  | nil => exact absurd (List.prefix_nil.mp h) hne
  | cons c text => rw [afterFirst_cons, if_pos h]

theorem containsChars_eq (text part : List Char) :
    containsChars text part = (afterFirst text part).isSome := by
  unfold containsChars afterFirst
  rw [Option.isSome_map, List.isSome_find?]

/-! ### The last occurrence -/

theorem exists_last_occurrence {text : List Char} {c : Char} (h : c ∈ text) :
    ∃ front tail, text = front ++ c :: tail ∧ c ∉ tail := by
  obtain ⟨as, bs, heq, has⟩ := List.eq_append_cons_of_mem (List.mem_reverse.mpr h)
  refine ⟨bs.reverse, as.reverse, ?_, fun hin => has (List.mem_reverse.mp hin)⟩
  have htext := congrArg List.reverse heq
  simpa using htext

theorem afterLast_append_cons {c : Char} {tail : List Char} (h : c ∉ tail)
    (front : List Char) : afterLast (front ++ c :: tail) c = some tail := by
  have hall : ∀ x ∈ tail.reverse, decide (x ≠ c) = true := by
    intro x hx
    exact decide_eq_true fun heq => h (heq ▸ List.mem_reverse.mp hx)
  have htake : (front ++ c :: tail).reverse.takeWhile (fun x => decide (x ≠ c)) =
      tail.reverse := by
    rw [List.reverse_append, List.reverse_cons, List.append_assoc,
      List.takeWhile_append_of_pos hall]
    simp
  rw [afterLast, if_pos (by simp), htake, List.reverse_reverse]

/-! ### Words, character by character -/

theorem splitWhitespace_cons_blank {c : Char} (hc : isWhitespace c = true) (rest : List Char) :
    splitWhitespace (c :: rest) = splitWhitespace rest := by
  unfold splitWhitespace
  rw [List.splitOnP_cons_eq_if_modifyHead, if_pos hc, List.filter_cons_of_neg (by simp)]

/-- A character that is no blank begins the first word; without it the word is shorter, or it
is gone. -/
theorem splitWhitespace_cons_letter {c : Char} (hc : isWhitespace c = false)
    (rest : List Char) :
    ∃ word words, splitWhitespace (c :: rest) = (c :: word) :: words ∧
      splitWhitespace rest = if word = [] then words else word :: words := by
  unfold splitWhitespace
  rw [List.splitOnP_cons_eq_if_modifyHead, if_neg (by simp [hc])]
  cases hsplit : rest.splitOnP isWhitespace with
  | nil => exact absurd hsplit (List.splitOnP_ne_nil isWhitespace rest)
  | cons word words =>
    refine ⟨word, words.filter (· ≠ []), ?_, ?_⟩
    · rw [List.modifyHead_cons, List.filter_cons_of_pos (by simp)]
    · by_cases hword : word = []
      · rw [if_pos hword, List.filter_cons_of_neg (by simp [hword])]
      · rw [if_neg hword, List.filter_cons_of_pos (by simp [hword])]

/-! ### Cutting -/

theorem upTo_append_cons {stop : Char → Bool} {sep : Char} (hsep : stop sep = true)
    (text rest : List Char) : upTo stop (text ++ sep :: rest) = upTo stop text := by
  induction text with
  | nil => simp [upTo, hsep]
  | cons c text ih =>
    by_cases hc : stop c
    · simp [upTo, hc]
    · simpa [upTo, hc] using ih

theorem stop_of_mem_upTo {stop : Char → Bool} {text : List Char} {c : Char}
    (h : c ∈ upTo stop text) : stop c = false := by
  simpa using List.mem_takeWhile_imp h

/-- A piece that no stop is in and that a stop or the end follows is the cut. -/
theorem upTo_eq_iff {stop : Char → Bool} {text value : List Char} :
    upTo stop text = value ↔
      (∀ c ∈ value, stop c = false) ∧
        ∃ rest, text = value ++ rest ∧ ∀ c ∈ rest.head?, stop c = true := by
  constructor
  · rintro rfl
    refine ⟨fun c hc => stop_of_mem_upTo hc, text.dropWhile fun c => !stop c, ?_, ?_⟩
    · exact List.takeWhile_append_dropWhile.symm
    · intro c hc
      have hhead := List.head?_dropWhile_not (fun c => !stop c) text
      rw [Option.mem_def.mp hc] at hhead
      simpa using hhead
  · rintro ⟨hvalue, rest, rfl, hrest⟩
    have hcut : upTo stop rest = [] := by
      cases rest with
      | nil => rfl
      | cons c rest => simp [upTo, hrest c rfl]
    have hkeep : List.takeWhile (fun c => !stop c) value = value := by
      simpa [List.takeWhile_eq_self_iff] using hvalue
    unfold upTo at hcut ⊢
    rw [List.takeWhile_append, hkeep, if_pos rfl, hcut, List.append_nil]

/-- A text of no blanks is trimmed already. -/
theorem trim_eq_self {text : List Char} (h : ∀ c ∈ text, isWhitespace c = false) :
    trim (String.ofList text) = text := by
  have hkeep : ∀ l : List Char, (∀ c ∈ l, isWhitespace c = false) → l.dropWhile isWhitespace = l := by
    intro l hl
    cases l with
    | nil => rfl
    | cons c l => simp [hl c List.mem_cons_self]
  unfold trim
  rw [String.toList_ofList, hkeep text h, hkeep text.reverse (by simpa using h), List.reverse_reverse]

/-- Trimming takes blanks from both ends. -/
theorem exists_trim (s : String) : ∃ front back,
    s.toList = front ++ trim s ++ back ∧ (∀ c ∈ front, isWhitespace c = true) ∧
      ∀ c ∈ back, isWhitespace c = true := by
  set rest := s.toList.dropWhile isWhitespace with hrest
  refine ⟨s.toList.takeWhile isWhitespace, (rest.reverse.takeWhile isWhitespace).reverse, ?_, ?_, ?_⟩
  · have hback : trim s ++ (rest.reverse.takeWhile isWhitespace).reverse = rest := by
      unfold trim
      rw [← hrest, ← List.reverse_append, List.takeWhile_append_dropWhile, List.reverse_reverse]
    rw [List.append_assoc, hback, hrest, List.takeWhile_append_dropWhile]
  · exact fun c hc => List.mem_takeWhile_imp hc
  · intro c hc
    exact List.mem_takeWhile_imp (List.mem_reverse.mp hc)

/-- No white space at either end. -/
def Trimmed (cs : List Char) : Prop :=
  (∀ c, cs.head? = some c → isWhitespace c = false) ∧
    ∀ c, cs.getLast? = some c → isWhitespace c = false

/-- What is trimmed stays as it is. -/
theorem Trimmed.trim_eq {cs : List Char} (h : Trimmed cs) : trim (String.ofList cs) = cs := by
  have hkeep : ∀ l : List Char, (∀ c, l.head? = some c → isWhitespace c = false) →
      l.dropWhile isWhitespace = l := by
    intro l hl
    cases l with
    | nil => rfl
    | cons c l => rw [List.dropWhile_cons, hl c rfl, if_neg Bool.false_ne_true]
  have hlast : ∀ c, cs.reverse.head? = some c → isWhitespace c = false := by
    rw [List.head?_reverse]
    exact h.2
  unfold trim
  rw [String.toList_ofList, hkeep cs h.1, hkeep cs.reverse hlast, List.reverse_reverse]

/-- **A trimmed text is bare at both ends.** -/
theorem trimmed_trim (s : String) : Trimmed (trim s) := by
  have hfirst : ∀ (l : List Char) (c : Char), (l.dropWhile isWhitespace).head? = some c →
      isWhitespace c = false := by
    intro l c hc
    have := List.head?_dropWhile_not isWhitespace l
    rw [hc] at this
    simpa using this
  set rest := s.toList.dropWhile isWhitespace with hrest
  constructor
  · intro c hc
    -- the trimmed text is a prefix of what the first trimming left
    have hsuffix : rest.reverse.dropWhile isWhitespace <:+ rest.reverse := List.dropWhile_suffix _
    have hprefix : trim s <+: rest := by
      have hreverse := List.reverse_prefix.mpr hsuffix
      rwa [List.reverse_reverse] at hreverse
    obtain ⟨tail, htail⟩ := hprefix
    refine hfirst s.toList c ?_
    rw [← hrest, ← htail, List.head?_append, hc]
    rfl
  · intro c hc
    refine hfirst rest.reverse c ?_
    rw [← List.getLast?_reverse]
    exact hc

/-! ## Letters -/

theorem isWhitespace_of_letter {c : Char} (hlow : 65 ≤ c.val.toNat) (hhigh : c.val.toNat ≤ 122) :
    isWhitespace c = false := by
  have hne : ∀ v : UInt32, (v.toNat < 65 ∨ 122 < v.toNat) → c.val ≠ v := by
    rintro v hv rfl
    omega
  simp only [isWhitespace, Bool.or_eq_false_iff, Bool.and_eq_false_iff, decide_eq_false_iff_not,
    UInt32.le_iff_toNat_le, beq_eq_false_iff_ne]
  refine ⟨⟨⟨⟨⟨⟨⟨⟨⟨⟨?_, ?_⟩, ?_⟩, ?_⟩, ?_⟩, ?_⟩, ?_⟩, ?_⟩, ?_⟩, ?_⟩, ?_⟩
  case refine_1 =>
    right
    change ¬ c.val.toNat ≤ 13
    omega
  case refine_6 =>
    left
    change ¬ 8192 ≤ c.val.toNat
    omega
  all_goals exact hne _ (by decide)

theorem toLower_letter {c : Char} (h : c.toLower ≠ c) :
    (65 ≤ c.val.toNat ∧ c.val.toNat ≤ 122) ∧
      65 ≤ c.toLower.val.toNat ∧ c.toLower.val.toNat ≤ 122 := by
  unfold Char.toLower at h ⊢
  split at h
  · next hupper =>
    rw [dif_pos hupper]
    obtain ⟨hlow, hhigh⟩ := hupper
    simp only [ge_iff_le, UInt32.le_iff_toNat_le] at hlow hhigh
    simp at hlow hhigh ⊢
    omega
  · exact absurd rfl h

/-- Lower case makes no blanks and takes none. -/
theorem isWhitespace_toLower (c : Char) : isWhitespace c.toLower = isWhitespace c := by
  by_cases hself : c.toLower = c
  · rw [hself]
  · obtain ⟨⟨hlow, hhigh⟩, hlow', hhigh'⟩ := toLower_letter hself
    rw [isWhitespace_of_letter hlow hhigh, isWhitespace_of_letter hlow' hhigh']

/-! ## Numbers -/

def hexValue (c : Char) : Option Nat :=
  if c.isDigit then some (c.toNat - '0'.toNat)
  else if 'a' ≤ c ∧ c ≤ 'f' then some (c.toNat - 'a'.toNat + 10)
  else if 'A' ≤ c ∧ c ≤ 'F' then some (c.toNat - 'A'.toNat + 10)
  else none

/-- Hexadecimal digits as a number. -/
def parseHex (cs : List Char) : Option Nat :=
  if cs = [] then none
  else cs.foldl (fun acc c => acc.bind fun n => (hexValue c).map fun d => 16 * n + d) (some 0)

def parseDigits (cs : List Char) : Option Nat :=
  if cs ≠ [] ∧ cs.all Char.isDigit then some (Nat.ofDigitChars 10 cs 0) else none

/-- An optional `+`, decimal digits, and a value below `bound`. -/
def parseUnsigned (bound : Nat) (cs : List Char) : Option Nat :=
  let digits := match cs with
    | '+' :: rest => rest
    | _ => cs
  (parseDigits digits).filter (· < bound)

/-- `str::parse::<u32>`. -/
def parseU32 (cs : List Char) : Option Nat := parseUnsigned 4294967296 cs

/-- `str::parse::<u64>`. -/
def parseU64 (cs : List Char) : Option Nat := parseUnsigned 18446744073709551616 cs

/-- `str::parse::<u16>`. -/
def parseU16 (cs : List Char) : Option Nat := parseUnsigned 65536 cs

/-- `str::parse::<i32>`. -/
def parseI32 (cs : List Char) : Option Int :=
  match cs with
  | '-' :: digits => ((parseDigits digits).filter (· ≤ 2147483648)).map fun n => -(n : Int)
  | _ => (parseUnsigned 2147483648 cs).map fun n => (n : Int)

theorem parseDigits_toDigits (n : Nat) : parseDigits (Nat.toDigits 10 n) = some n := by
  have hdigits : ∀ c ∈ Nat.toDigits 10 n, c.isDigit = true := fun c hc =>
    Nat.isDigit_of_mem_toDigits (by decide) (by decide) hc
  have hall : (Nat.toDigits 10 n).all Char.isDigit = true := by simpa using hdigits
  simp [parseDigits, Nat.toDigits_ne_nil, hall, Nat.ofDigitChars_ten_toDigits]

theorem toList_toString (n : Nat) : (toString n).toList = Nat.toDigits 10 n := by
  rw [Nat.toString_eq_repr, Nat.toList_repr]

/-- **Round trip**: the decimal rendering of a number reads back as that number. -/
theorem parseDigits_toString (n : Nat) : parseDigits (toString n).toList = some n := by
  rw [toList_toString]
  exact parseDigits_toDigits n

/-- A decimal rendering starts with a digit. -/
theorem toString_head (n : Nat) : ∃ c cs, (toString n).toList = c :: cs ∧ c.isDigit = true := by
  rw [toList_toString]
  cases h : Nat.toDigits 10 n with
  | nil => exact absurd h Nat.toDigits_ne_nil
  | cons c cs =>
    refine ⟨c, cs, rfl, ?_⟩
    apply Nat.isDigit_of_mem_toDigits (b := 10) (n := n) (by decide) (by decide)
    rw [h]
    exact List.mem_cons_self

/-- So it is no text that starts with another character. -/
theorem toString_ne_cons {n : Nat} {c : Char} (hc : c.isDigit = false) (rest : List Char) :
    (toString n).toList ≠ c :: rest := by
  obtain ⟨d, ds, hd, hdigit⟩ := toString_head n
  rw [hd]
  rintro ⟨rfl, rfl⟩
  simp [hc] at hdigit

end Text
