import Mathlib.Data.List.Basic

/-!
# Where a character of a Nix text stands

A text is read from the left: a character stands in the open, in a comment, or in a string. The
reading looks ahead by two characters at most, so a text may be cut behind a character in the open
that opens nothing (`marks_cut`). An interpolation is text of its string.

On the characters in the open rest the attributes of a text (`attributes`), and the list or the
string that is the value of one.
-/

namespace NixText

/-- Where a character stands. `fence` is the `''` around an indented string, `quote` the mark
around another; `block` is a block comment without its end. -/
inductive Place where
  | bare | comment | block | quote | string | fence | indented
deriving DecidableEq, Repr

/-- What has been read so far: in the second line the states of which the next characters are
known. -/
inductive Reading where
  | bare | line | block | string | escape | indented
  | blockOpen | blockClose | fenceOpen | fenceClose | indentedEscape | indentedEscaped
deriving DecidableEq, Repr

/-- Behind `''` these stand for themselves. -/
def standsBehindFence (c : Char) : Bool := c = '\'' || c = '$' || c = '\\'

namespace Reading

/-- The state behind `c`, which `rest` follows. -/
def next (c : Char) (rest : List Char) : Reading → Reading
  | .bare =>
    if c = '#' then .line
    else if c = '/' && rest.head? = some '*' then .blockOpen
    else if c = '"' then .string
    else if c = '\'' && rest.head? = some '\'' then .fenceOpen
    else .bare
  | .line => if c = '\n' then .bare else .line
  | .block => if c = '*' && rest.head? = some '/' then .blockClose else .block
  | .string => if c = '"' then .bare else if c = '\\' then .escape else .string
  | .escape => .string
  | .indented =>
    if c = '\'' && rest.head? = some '\'' then
      if rest.tail.head?.any standsBehindFence then .indentedEscape else .fenceClose
    else .indented
  | .blockOpen => .block
  | .blockClose => .bare
  | .fenceOpen => .indented
  | .fenceClose => .bare
  | .indentedEscape => .indentedEscaped
  | .indentedEscaped => .indented

/-- Where `c` stands. A newline is in the open behind a comment that it ends. -/
def place (c : Char) (rest : List Char) : Reading → Place
  | .bare =>
    if c = '#' then .comment
    else if c = '/' && rest.head? = some '*' then .block
    else if c = '"' then .quote
    else if c = '\'' && rest.head? = some '\'' then .fence
    else .bare
  | .line => if c = '\n' then .bare else .comment
  | .block => if c = '*' && rest.head? = some '/' then .comment else .block
  | .string => if c = '"' then .quote else .string
  | .escape => .string
  | .indented =>
    if c = '\'' && rest.head? = some '\'' && !rest.tail.head?.any standsBehindFence then .fence
    else .indented
  | .blockOpen => .block
  | .blockClose => .comment
  | .fenceOpen | .fenceClose => .fence
  | .indentedEscape | .indentedEscaped => .indented

/-- The characters that a state waits for. -/
def Expects : Reading → List Char → Prop
  | .blockOpen, rest => rest.head? = some '*'
  | .blockClose, rest => rest.head? = some '/'
  | .fenceOpen, rest | .fenceClose, rest => rest.head? = some '\''
  | .indentedEscape, rest =>
    rest.head? = some '\'' ∧ rest.tail.head?.any standsBehindFence = true
  | .indentedEscaped, rest => rest.head?.any standsBehindFence = true
  | _, _ => True

end Reading

/-- A character and where it stands. -/
abbrev Mark := Place × Char

def marks (s : Reading) : List Char → List Mark
  | [] => []
  | c :: rest => (s.place c rest, c) :: marks (s.next c rest) rest

/-- The state behind a text. -/
def readingAfter (s : Reading) : List Char → Reading
  | [] => s
  | c :: rest => readingAfter (s.next c rest) rest

def chars (ms : List Mark) : List Char := ms.map Prod.snd

/-- A text in the open. -/
def inOpen (text : List Char) : List Mark := text.map (Place.bare, ·)

/-- `x` in the open. -/
def isBare (x : Char) (m : Mark) : Bool := m = (.bare, x)

@[simp] theorem isBare_iff {x : Char} {m : Mark} : isBare x m = true ↔ m = (.bare, x) :=
  decide_eq_true_iff

/-! ## Attributes -/

/-- Between the words of a Nix text. -/
def between (m : Mark) : Bool :=
  match m with
  | (.bare, c) => c = ' ' || c = '\t' || c = '\n' || c = '\r'
  | (.comment, _) | (.block, _) => true
  | _ => false

/-- Every place of `name` in the open, with what is before it, the last first, and behind it. -/
def mentions (name : List Char) (before : List Mark) : List Mark → List (List Mark × List Mark)
  | [] => []
  | m :: rest =>
    if (inOpen name).isPrefixOf (m :: rest) then
      (before, (m :: rest).drop name.length) :: mentions name (m :: before) rest
    else mentions name (m :: before) rest

section Names

variable (alphanumeric : Char → Bool)

/-- A name that begins here is no part of a longer one, and not selected from anything. -/
def beginsName (before : List Mark) : Bool :=
  !before.head?.any (fun m => alphanumeric m.2 || m.2 = '_' || m.2 = '-' || m.2 = '\'' ||
    m.2 = '.') && !(before.dropWhile between).head?.any (isBare '.')

/-- What is assigned: the text behind `=`. -/
def assigned (behind : List Mark) : Option (List Mark) :=
  match behind.dropWhile between with
  | (.bare, '=') :: value => some value
  | _ => none

/-- The values of the attributes of this name, each with the text that follows it. -/
def attributes (name : List Char) (ms : List Mark) : List (List Mark) :=
  (mentions name [] ms).filterMap fun (before, behind) =>
    if beginsName alphanumeric before then assigned behind else none

end Names

/-- A list up to its closing bracket. -/
def closedList (depth : Nat) : List Mark → Option (List Mark)
  | [] => none
  | m :: rest =>
    if m = (.bare, '[') then (closedList (depth + 1) rest).map (m :: ·)
    else if m = (.bare, ']') then
      if depth = 1 then some [m] else (closedList (depth - 1) rest).map (m :: ·)
    else (closedList depth rest).map (m :: ·)

/-- The list that a value is or is made from: in front of it neither the value ends nor another
one is assigned. -/
def listValue (value : List Mark) : Option (List Mark) :=
  match value.dropWhile (fun m => !(isBare '[' m || isBare ';' m || isBare '=' m)) with
  | m :: rest => if isBare '[' m then closedList 0 (m :: rest) else none
  | [] => none

/-- A string as it is written, and of which kind it is. -/
def literal (value : List Mark) : Option (Place × List Char) :=
  match value.dropWhile between with
  | (.quote, _) :: rest => some (.string, chars (rest.takeWhile (·.1 = .string)))
  | (.fence, _) :: _ :: rest => some (.indented, chars (rest.takeWhile (·.1 = .indented)))
  | _ => none

/-- What `\c` stands for. -/
def escaped (c : Char) : Char :=
  if c = 'n' then '\n' else if c = 'r' then '\r' else if c = 't' then '\t' else c

def unescape : List Char → List Char
  | [] => []
  | '\\' :: c :: rest => escaped c :: unescape rest
  | c :: rest => c :: unescape rest

/-- The string that a value is. An indented one is taken as it is written. -/
def stringValue (value : List Mark) : Option (List Char) :=
  (literal value).map fun (kind, text) => if kind = .string then unescape text else text

/-! ## Reading -/

section Reading

variable {s : Reading} {text rest : List Char} {ms post : List Mark} {c : Char}

@[simp] theorem chars_marks (s : Reading) (text : List Char) : chars (marks s text) = text := by
  induction text generalizing s with
  | nil => rfl
  | cons c rest ih =>
    rw [marks, chars, List.map_cons]
    exact congrArg (c :: ·) (ih _)

@[simp] theorem chars_append (ms post : List Mark) : chars (ms ++ post) = chars ms ++ chars post :=
  List.map_append

@[simp] theorem chars_inOpen (text : List Char) : chars (inOpen text) = text := by
  rw [chars, inOpen, List.map_map]
  exact List.map_id _

/-- What a state waits for comes. -/
theorem Reading.Expects.next (h : s.Expects (c :: rest)) : (s.next c rest).Expects rest := by
  cases s with
  | bare | line | block | string | indented =>
    simp only [Reading.next]
    split_ifs <;> simp_all [Reading.Expects]
  | indentedEscape => exact h.2
  | escape | blockOpen | blockClose | fenceOpen | fenceClose | indentedEscaped => trivial

/-- The rest of the marks is what the rest of the text reads as. -/
theorem marks_split (h : marks s text = ms ++ post) :
    ∃ s', text = chars ms ++ chars post ∧ post = marks s' (chars post) := by
  induction ms generalizing s text with
  | nil =>
    obtain rfl : marks s text = post := h
    rw [chars_marks]
    exact ⟨s, rfl, rfl⟩
  | cons m ms ih =>
    cases text with
    | nil => cases h
    | cons c rest =>
      obtain ⟨rfl, hrest⟩ := List.cons.inj h
      obtain ⟨s', htext, hpost⟩ := ih hrest
      exact ⟨s', congrArg (c :: ·) htext, hpost⟩

/-- A step looks at two characters, at the second only behind a quotation mark. -/
theorem step_congr {rest' : List Char} (hhead : rest.head? = rest'.head?)
    (hnext : rest.head? = some '\'' → rest.tail.head? = rest'.tail.head?) :
    s.place c rest = s.place c rest' ∧ s.next c rest = s.next c rest' := by
  cases s with
  | indented =>
    unfold Reading.place Reading.next
    dsimp only
    rw [← hhead]
    by_cases hquote : rest.head? = some '\''
    · rw [hnext hquote]
      exact ⟨rfl, rfl⟩
    · simp [hquote]
  | bare | block => simp only [Reading.place, Reading.next, hhead, and_self]
  | _ => exact ⟨rfl, rfl⟩

/-- A character other than these, in the open, opens nothing. -/
theorem bare_step (hcomment : c ≠ '#') (hslash : c ≠ '/') (hquote : c ≠ '"') (hfence : c ≠ '\'') :
    Reading.bare.place c rest = .bare ∧ Reading.bare.next c rest = .bare := by
  simp [Reading.place, Reading.next, hcomment, hslash, hquote, hfence]

/-- A closing bracket in the open is read there whatever follows it. -/
theorem bracket_step {rest' : List Char} (h : s.place ']' rest = .bare) :
    s = .bare ∧ s.place ']' rest' = .bare := by
  cases s <;> simp_all [Reading.place]

/-- **A text may be cut** behind a closing bracket in the open. -/
theorem marks_cut (h : marks s text = ms ++ (.bare, ']') :: post) :
    marks s (chars ms ++ [']']) = ms ++ [(.bare, ']')] := by
  induction ms generalizing s text with
  | nil =>
    cases text with
    | nil => cases h
    | cons c rest =>
      obtain ⟨hplace, -⟩ := List.cons.inj h
      obtain ⟨hplace, rfl⟩ := Prod.mk.inj hplace
      rw [chars, List.map_nil, List.nil_append, marks, (bracket_step hplace).2]
      rfl
  | cons m ms ih =>
    cases text with
    | nil => cases h
    | cons c rest =>
      obtain ⟨rfl, hmarks⟩ := List.cons.inj h
      have hrest : rest = chars ms ++ ']' :: chars post := by
        have htext := congrArg chars hmarks
        rw [chars_marks] at htext
        exact htext.trans (chars_append _ _)
      have hsame : s.place c rest = s.place c (chars ms ++ [']']) ∧
          s.next c rest = s.next c (chars ms ++ [']']) := by
        subst hrest
        refine step_congr ?_ ?_ <;> cases ms with
        | nil => simp [chars]
        | cons m ms => cases ms <;> simp [chars]
      show marks s (c :: (chars ms ++ [']'])) = _
      rw [marks, ← hsame.1, ← hsame.2, ih hmarks]
      rfl

/-! ## Stretches of one kind -/

/-- Characters that open nothing stand in the open. -/
theorem marks_bare {xs : List Char}
    (h : ∀ c ∈ xs, c ≠ '#' ∧ c ≠ '/' ∧ c ≠ '"' ∧ c ≠ '\'') (ys : List Char) :
    marks .bare (xs ++ ys) = inOpen xs ++ marks .bare ys := by
  induction xs with
  | nil => rfl
  | cons c xs ih =>
    obtain ⟨hcomment, hslash, hquote, hfence⟩ := h c List.mem_cons_self
    have hstep := @bare_step (xs ++ ys) c hcomment hslash hquote hfence
    rw [List.cons_append, marks, hstep.1, hstep.2, ih fun d hd => h d (List.mem_cons_of_mem c hd)]
    rfl

/-- Without a quotation mark an indented string goes on. -/
theorem marks_indented {xs : List Char} (h : '\'' ∉ xs) (ys : List Char) :
    marks .indented (xs ++ ys) = xs.map (Place.indented, ·) ++ marks .indented ys := by
  induction xs with
  | nil => rfl
  | cons c xs ih =>
    rw [List.mem_cons, not_or] at h
    have hstep : Reading.indented.place c (xs ++ ys) = .indented ∧
        Reading.indented.next c (xs ++ ys) = .indented := by
      simp [Reading.place, Reading.next, Ne.symm h.1]
    rw [List.cons_append, marks, hstep.1, hstep.2, ih h.2]
    rfl

/-- A string without escapes ends at the next quotation mark. -/
theorem marks_string {quoted : List Char}
    (h : '\\' ∉ chars ((marks .string quoted).takeWhile (·.1 = .string))) :
    ∃ value tail, quoted = value ++ tail ∧ '"' ∉ value ∧
      chars ((marks .string quoted).takeWhile (·.1 = .string)) = value ∧
      (tail = [] ∧ marks .string quoted = value.map (Place.string, ·) ∨
        ∃ rest, tail = '"' :: rest ∧ marks .string quoted =
          value.map (Place.string, ·) ++ (.quote, '"') :: marks .bare rest) := by
  induction quoted with
  | nil => exact ⟨[], [], rfl, List.not_mem_nil, rfl, Or.inl ⟨rfl, rfl⟩⟩
  | cons c quoted ih =>
    by_cases hend : c = '"'
    · subst hend
      exact ⟨[], '"' :: quoted, rfl, List.not_mem_nil, rfl, Or.inr ⟨quoted, rfl, rfl⟩⟩
    · have hplace : Reading.string.place c quoted = .string := by simp [Reading.place, hend]
      rw [marks, hplace, List.takeWhile_cons_of_pos (by simp)] at h ⊢
      rw [chars, List.map_cons, List.mem_cons, not_or] at h
      have hnext : Reading.string.next c quoted = .string := by
        simp [Reading.next, hend, Ne.symm h.1]
      rw [hnext] at h ⊢
      obtain ⟨value, tail, rfl, hquote, hvalue, hmarks⟩ := ih h.2
      refine ⟨c :: value, tail, rfl, ?_, congrArg (c :: ·) hvalue, ?_⟩
      · rw [List.mem_cons, not_or]
        exact ⟨Ne.symm hend, hquote⟩
      · rcases hmarks with ⟨htail, hmarks⟩ | ⟨rest, htail, hmarks⟩
        · exact Or.inl ⟨htail, by rw [hmarks]; rfl⟩
        · exact Or.inr ⟨rest, htail, by rw [hmarks]; rfl⟩

/-- What is marked as a quotation mark is one. -/
theorem quote_of_mem {m : Mark} (hm : m ∈ marks s text) (hquote : m.1 = .quote) : m.2 = '"' := by
  induction text generalizing s with
  | nil => cases hm
  | cons c rest ih =>
    rcases List.mem_cons.mp hm with rfl | hm
    · cases s with
      | bare | line | block | string | indented =>
        simp only [Reading.place] at hquote
        split_ifs at hquote <;> assumption
      | _ => cases hquote
    · exact ih hm

/-! ## Mentions -/

section Mentions

variable {name : List Char} {before : List Mark} {m : Mark}

theorem mentions_cons_of_not (h : ¬ inOpen name <+: m :: ms) :
    mentions name before (m :: ms) = mentions name (m :: before) ms := by
  rw [mentions, if_neg (mt List.isPrefixOf_iff_prefix.mp h)]

theorem mentions_cons_of {behind : List Mark} (h : m :: ms = inOpen name ++ behind) :
    mentions name before (m :: ms) = (before, behind) :: mentions name (m :: before) ms := by
  have hdrop : (m :: ms).drop name.length = behind := by
    rw [h, List.drop_append_of_le_length (by simp [inOpen])]
    simp [inOpen]
  rw [mentions, if_pos (List.isPrefixOf_iff_prefix.mpr ⟨behind, h.symm⟩), hdrop]

/-- Where the first character of the name is missing there is no mention. -/
theorem mentions_append {first : Char} {tail : List Char} {xs : List Mark}
    (h : (Place.bare, first) ∉ xs) (ms : List Mark) :
    mentions (first :: tail) before (xs ++ ms) =
      mentions (first :: tail) (xs.reverse ++ before) ms := by
  induction xs generalizing before with
  | nil => rfl
  | cons x xs ih =>
    rw [List.mem_cons, not_or] at h
    rw [List.cons_append, mentions_cons_of_not, ih h.2, List.reverse_cons, List.append_assoc,
      List.singleton_append]
    rintro ⟨behind, hprefix⟩
    exact h.1 (List.cons.inj hprefix).1

/-- What is around a mention. -/
theorem of_mem_mentions {around : List Mark × List Mark} (h : around ∈ mentions name before ms) :
    ∃ pre, around.1 = pre.reverse ++ before ∧ ms = pre ++ inOpen name ++ around.2 := by
  induction ms generalizing before with
  | nil => cases h
  | cons m ms ih =>
    have hlater : around ∈ mentions name (m :: before) ms →
        ∃ pre, around.1 = pre.reverse ++ before ∧ m :: ms = pre ++ inOpen name ++ around.2 := by
      intro hmem
      obtain ⟨pre, hbefore, hms⟩ := ih hmem
      exact ⟨m :: pre, by simp [hbefore], by rw [hms]; rfl⟩
    by_cases hprefix : inOpen name <+: m :: ms
    · obtain ⟨behind, hbehind⟩ := hprefix
      rw [mentions_cons_of hbehind.symm] at h
      rcases List.mem_cons.mp h with rfl | h
      · exact ⟨[], rfl, hbehind.symm⟩
      · exact hlater h
    · exact hlater (mentions_cons_of_not hprefix ▸ h)

end Mentions

/-- A closed list ends with its bracket. -/
theorem closedList_eq_some {depth : Nat} {list : List Mark} (h : closedList depth ms = some list) :
    ∃ init rest, list = init ++ [(.bare, ']')] ∧ ms = list ++ rest := by
  induction ms generalizing depth list with
  | nil => cases h
  | cons m ms ih =>
    have hmore : ∀ {d}, (closedList d ms).map (m :: ·) = some list →
        ∃ init rest, list = init ++ [(.bare, ']')] ∧ m :: ms = list ++ rest := by
      intro d hsome
      obtain ⟨list', hlist', rfl⟩ := Option.map_eq_some_iff.mp hsome
      obtain ⟨init, rest, rfl, hms⟩ := ih hlist'
      exact ⟨m :: init, rest, rfl, by rw [hms]; rfl⟩
    rw [closedList] at h
    split_ifs at h with hopen hclose hlast
    · exact hmore h
    · obtain rfl := Option.some.inj h
      exact ⟨[], ms, by rw [hclose]; rfl, rfl⟩
    · exact hmore h
    · exact hmore h

end Reading

end NixText
