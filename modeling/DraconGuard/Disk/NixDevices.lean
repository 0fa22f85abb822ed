import Mathlib.Data.List.TakeDrop
import Mathlib.Data.List.TakeWhile
import DraconGuard.Disk.NixBlank

/-!
# The devices of a list

The loop of `nixos_swap_devices` over the block goes with the reading of it (`modeOf`), as long as
the list is written plainly: it finds what the mentions of `device` give (`findsDevices`).
-/

namespace DraconGuard

open NixText TextSlice

section Devices

variable {alphanumeric : Char → Bool} {s : Reading} {c : Char} {text rest : List Char}
  {before ms : List Mark} {m : Mark}

theorem filterMap_attributes (ms : List Mark) :
    (attributes alphanumeric deviceKey ms).filterMap stringValue =
      (mentions deviceKey [] ms).filterMap (deviceOf alphanumeric) := by
  rw [attributes, List.filterMap_filterMap]
  congr 1
  funext mention
  obtain ⟨before, behind⟩ := mention
  dsimp only [deviceOf]
  split <;> rfl

/-- The loop where the reading stands. It takes what is between `''` for code. -/
def modeOf : Reading → ScanMode
  | .bare | .indented | .fenceOpen | .fenceClose | .indentedEscape | .indentedEscaped => .bare
  | .line => .line
  | .block => .comment
  | .blockOpen => .commentOpen
  | .blockClose => .skip 1
  | .string => .string
  | .escape => .escape

/-- From here on the loop finds what it should. -/
def FindsDevices (alphanumeric : Char → Bool) (s : Reading) (before : List Mark)
    (text : List Char) : Prop :=
  scanDevices alphanumeric (modeOf s) (before.head?.map Prod.snd) text =
    some ((mentions deviceKey before (marks s text)).filterMap (deviceOf alphanumeric))

theorem mentions_tail {mention : List Mark × List Mark} {name : List Char}
    (h : mention ∈ mentions name (m :: before) ms) : mention ∈ mentions name before (m :: ms) := by
  rw [mentions]
  split
  · exact List.mem_cons_of_mem _ h
  · exact h

theorem PlainList.tail (h : PlainList alphanumeric before (m :: ms)) :
    PlainList alphanumeric (m :: before) ms where
  ascii x hx := h.ascii x (List.mem_cons_of_mem m hx)
  quiet x hx := h.quiet x (List.mem_cons_of_mem m hx)
  noComment hpair := by
    cases ms with
    | nil => cases hpair
    | cons x ms => exact h.noComment (List.mem_cons_of_mem (m, x) hpair)
  named mention hmention := h.named mention (mentions_tail hmention)
  written mention hmention := h.written mention (mentions_tail hmention)

theorem PlainList.append {xs : List Mark} (h : PlainList alphanumeric before (xs ++ ms)) :
    PlainList alphanumeric (xs.reverse ++ before) ms := by
  induction xs generalizing before with
  | nil => exact h
  | cons x xs ih =>
    rw [List.reverse_cons, List.append_assoc]
    exact ih h.tail

/-! ### One character -/

/-- A step at which there is nothing to find. -/
theorem FindsDevices.cons (hlater : FindsDevices alphanumeric (s.next c rest)
      ((s.place c rest, c) :: before) rest)
    (hmention : ¬ inOpen deviceKey <+: marks s (c :: rest))
    (hstep : scanDevices alphanumeric (modeOf s) (before.head?.map Prod.snd) (c :: rest) =
      scanDevices alphanumeric (modeOf (s.next c rest)) (some c) rest) :
    FindsDevices alphanumeric s before (c :: rest) := by
  unfold FindsDevices at hlater ⊢
  rw [hstep]
  rw [marks] at hmention ⊢
  rw [mentions_cons_of_not hmention]
  exact hlater

theorem scanDevices_skip_zero (b : Option Char) (text : List Char) :
    scanDevices alphanumeric (.skip 0) b text = scanDevices alphanumeric .bare b text := by
  cases text <;> simp [scanDevices]

/-- A character at which the loop does nothing. -/
theorem scanDevices_pass (b : Option Char) (hquote : c ≠ '"') (hcomment : c ≠ '#')
    (hblock : ¬ (c = '/' ∧ rest.head? = some '*')) (hsize : c.utf8Size = 1)
    (hdevice : deviceKey <+: c :: rest → nameBoundary alphanumeric b = true →
      deviceValue ((c :: rest).drop deviceKey.length) = none) :
    scanDevices alphanumeric .bare b (c :: rest) =
      scanDevices alphanumeric .bare (some c) rest := by
  have hslash : ¬ (decide (c = '/') && decide (rest.head? = some '*')) = true := by
    simpa using hblock
  rw [scanDevices, if_neg hquote, if_neg hcomment, if_neg hslash, if_neg (by rw [hsize]; decide)]
  split
  · next h =>
    rw [Bool.and_eq_true, List.isPrefixOf_iff_prefix] at h
    rw [hdevice h.1 h.2]
  · rfl

/-- Nothing begins with this character. -/
theorem scanDevices_pass_of_ne (b : Option Char) (hquote : c ≠ '"') (hcomment : c ≠ '#')
    (hslash : c ≠ '/') (hfirst : c ≠ 'd') (hsize : c.utf8Size = 1) :
    scanDevices alphanumeric .bare b (c :: rest) = scanDevices alphanumeric .bare (some c) rest :=
  scanDevices_pass b hquote hcomment (fun h => hslash h.1) hsize fun hprefix _ =>
    absurd (List.cons_prefix_cons.mp hprefix).1.symm hfirst

theorem deviceValue_eq_some {value : List Char} {n : Nat} (h : deviceValue text = some (value, n)) :
    ∃ blanks blanks' quoted, text = blanks ++ '=' :: (blanks' ++ '"' :: quoted) ∧
      (∀ c ∈ blanks ++ blanks', deviceBlank c = true) ∧ value = quoted.takeWhile (· ≠ '"') ∧
        n = blanks.length + 1 + blanks'.length + 1 + value.length + 1 := by
  unfold deviceValue at h
  rw [List.span_eq_takeWhile_dropWhile] at h
  split at h
  · next blanks afterEq heq =>
    rw [List.span_eq_takeWhile_dropWhile] at h
    split at h
    · next blanks' quoted heq' =>
      obtain ⟨rfl, hrest⟩ := Prod.mk.inj heq
      obtain ⟨rfl, hrest'⟩ := Prod.mk.inj heq'
      obtain ⟨rfl, rfl⟩ := Prod.mk.inj (Option.some.inj h)
      refine ⟨_, _, quoted, ?_, fun c hc => ?_, rfl, rfl⟩
      · rw [← hrest', List.takeWhile_append_dropWhile, ← hrest, List.takeWhile_append_dropWhile]
      · exact (List.mem_append.mp hc).elim List.mem_takeWhile_imp List.mem_takeWhile_imp
    · cases h
  · cases h

theorem deviceValue_isSome {blanks blanks' quoted : List Char}
    (h : ∀ c ∈ blanks ++ blanks', deviceBlank c = true) :
    (deviceValue (blanks ++ '=' :: (blanks' ++ '"' :: quoted))).isSome = true := by
  have hspan : ∀ {xs : List Char} {x : Char} (ys : List Char), (∀ c ∈ xs, deviceBlank c = true) →
      deviceBlank x = false → (xs ++ x :: ys).span deviceBlank = (xs, x :: ys) := by
    intro xs x ys hxs hx
    have hx' : ¬ deviceBlank x = true := by rw [hx]; decide
    rw [List.span_eq_takeWhile_dropWhile, List.takeWhile_append_of_pos hxs,
      List.dropWhile_append_of_pos hxs, List.takeWhile_cons_of_neg hx',
      List.dropWhile_cons_of_neg hx', List.append_nil]
  have hblanks := @hspan blanks '=' (blanks' ++ '"' :: quoted)
    (fun c hc => h c (List.mem_append_left _ hc)) (by decide)
  have hblanks' := @hspan blanks' '"' quoted
    (fun c hc => h c (List.mem_append_right _ hc)) (by decide)
  simp only [deviceValue, hblanks, hblanks', Option.isSome_some]

/-- A blank opens nothing. -/
theorem ne_of_deviceBlank (h : deviceBlank c = true) :
    c ≠ '#' ∧ c ≠ '/' ∧ c ≠ '"' ∧ c ≠ '\'' := by
  refine ⟨?_, ?_, ?_, ?_⟩ <;> rintro rfl <;> exact absurd h (by decide)

/-- Between `''` there is no device. -/
theorem deviceValue_of_quiet (hquiet : ∀ m ∈ marks .indented (c :: rest),
      m.1 = .indented → m.2 ≠ '"' ∧ m.2 ≠ '#') ( hprefix : deviceKey <+: c :: rest) :
    deviceValue ((c :: rest).drop deviceKey.length) = none := by
  obtain ⟨behind, hbehind⟩ := hprefix
  have hdrop : (c :: rest).drop deviceKey.length = behind := by
    rw [← hbehind]
    rfl
  rw [hdrop]
  by_contra hsome
  obtain ⟨⟨value, n⟩, hvalue⟩ := Option.ne_none_iff_exists'.mp hsome
  obtain ⟨blanks, blanks', quoted, rfl, hblank, -⟩ := deviceValue_eq_some hvalue
  have htext : c :: rest = (deviceKey ++ blanks ++ '=' :: blanks' ++ ['"']) ++ quoted := by
    rw [← hbehind]
    simp
  have hfree : '\'' ∉ deviceKey ++ blanks ++ '=' :: blanks' ++ ['"'] := by
    have hkey : '\'' ∉ deviceKey := by decide
    have hone : '\'' ∉ blanks ++ blanks' := fun h => (ne_of_deviceBlank (hblank _ h)).2.2.2 rfl
    simp only [List.mem_append, List.mem_cons, not_or, List.not_mem_nil] at hone ⊢
    exact ⟨⟨⟨hkey, hone.1⟩, by decide, hone.2⟩, by decide, not_false⟩
  have hmem : (Place.indented, '"') ∈ marks .indented (c :: rest) := by
    rw [htext, marks_indented hfree]
    exact List.mem_append_left _ (List.mem_map.mpr ⟨'"', by simp, rfl⟩)
  exact (hquiet _ hmem rfl).1 rfl

end Devices

section Steps

variable {alphanumeric : Char → Bool} {s : Reading} {c : Char} {text rest : List Char}
  {before ms : List Mark}

theorem not_mention_of_ne_bare (hs : s ≠ .bare) : ¬ inOpen deviceKey <+: marks s (c :: rest) := by
  intro hprefix
  have hfirst : (Place.bare, 'd') = (s.place c rest, c) := (List.cons_prefix_cons.mp hprefix).1
  obtain ⟨hplace, rfl⟩ := Prod.mk.inj hfirst
  cases s with
  | bare => exact hs rfl
  | line =>
    have hcomment : Reading.line.place 'd' rest = .comment := rfl
    rw [hcomment] at hplace
    cases hplace
  | block | string | indented =>
    simp only [Reading.place] at hplace
    split_ifs at hplace
  | _ => cases hplace

/-- Outside the code the loop goes with the reading. -/
theorem scanDevices_inside (hs : s ≠ .bare) (hexpects : s.Expects (c :: rest))
    (hplain : PlainList alphanumeric before (marks s (c :: rest))) (b : Option Char) :
    scanDevices alphanumeric (modeOf s) b (c :: rest) =
      scanDevices alphanumeric (modeOf (s.next c rest)) (some c) rest := by
  have hfence : c = '\'' → scanDevices alphanumeric .bare b (c :: rest) =
      scanDevices alphanumeric .bare (some c) rest := by
    rintro rfl
    exact scanDevices_pass_of_ne b (by decide) (by decide) (by decide) (by decide) rfl
  cases s with
  | bare => exact absurd rfl hs
  | line | block =>
    rw [modeOf, scanDevices, Reading.next]
    split <;> rfl
  | string =>
    rw [modeOf, scanDevices, Reading.next]
    split
    · rfl
    · split <;> rfl
  | escape | blockOpen => rfl
  | blockClose => exact scanDevices_skip_zero (some c) rest
  | fenceOpen | fenceClose => exact hfence (Option.some.inj hexpects)
  | indentedEscape => exact hfence (Option.some.inj hexpects.1)
  | indentedEscaped =>
    have hc : c = '\'' ∨ c = '$' ∨ c = '\\' := by
      simpa [Reading.Expects, standsBehindFence, or_assoc] using hexpects
    rcases hc with rfl | rfl | rfl <;>
      exact scanDevices_pass_of_ne b (by decide) (by decide) (by decide) (by decide) rfl
  | indented =>
    by_cases hc : c = '\''
    · have hnext : modeOf (Reading.indented.next c rest) = .bare := by
        unfold Reading.next
        dsimp only
        split_ifs <;> rfl
      rw [hnext]
      exact hfence hc
    · have hplace : ∀ tail, Reading.indented.place c tail = .indented ∧
          Reading.indented.next c tail = .indented := by
        intro tail
        simp [Reading.place, Reading.next, hc]
      have hmem : (Place.indented, c) ∈ marks .indented (c :: rest) := by
        rw [marks, (hplace rest).1]
        exact List.mem_cons_self
      obtain ⟨hquote, hcomment⟩ := hplain.quiet _ hmem rfl
      rw [(hplace rest).2]
      refine scanDevices_pass b hquote hcomment ?_ (hplain.ascii _ hmem (Or.inr rfl))
        fun hprefix _ => deviceValue_of_quiet hplain.quiet hprefix
      rintro ⟨rfl, hstar⟩
      obtain ⟨tail, rfl⟩ := List.head?_eq_some_iff.mp hstar
      exact hplain.noComment List.mem_cons_self

/-- In the open, where no `device` begins. -/
theorem scanDevices_open (hplain : PlainList alphanumeric before (marks .bare (c :: rest)))
    ( hprefix : ¬ deviceKey <+: c :: rest) (b : Option Char) :
    scanDevices alphanumeric .bare b (c :: rest) =
      scanDevices alphanumeric (modeOf (Reading.bare.next c rest)) (some c) rest := by
  by_cases hquote : c = '"'
  · subst hquote
    rfl
  by_cases hcomment : c = '#'
  · subst hcomment
    rfl
  by_cases hblock : c = '/' ∧ rest.head? = some '*'
  · obtain ⟨rfl, hstar⟩ := hblock
    obtain ⟨tail, rfl⟩ := List.head?_eq_some_iff.mp hstar
    rfl
  have hslash : ¬ (decide (c = '/') && decide (rest.head? = some '*')) = true := by
    simpa using hblock
  have hmode : modeOf (Reading.bare.next c rest) = .bare := by
    rw [Reading.next, if_neg hcomment, if_neg hslash, if_neg hquote]
    split <;> rfl
  rw [hmode]
  refine scanDevices_pass b hquote hcomment hblock ?_ fun h => absurd h hprefix
  by_cases hfence : c = '\''
  · rw [hfence]
    rfl
  · have hplace : Reading.bare.place c rest = .bare := by
      rw [Reading.place, if_neg hcomment, if_neg hslash, if_neg hquote, if_neg (by simp [hfence])]
    exact hplain.ascii (Reading.bare.place c rest, c) List.mem_cons_self (Or.inl hplace)

/-! ### A device -/

theorem nameBoundary_of_beginsName (h : beginsName alphanumeric before = true) :
    nameBoundary alphanumeric (before.head?.map Prod.snd) = true := by
  rw [beginsName, Bool.and_eq_true] at h
  cases before with
  | nil => rfl
  | cons m before =>
    have hm := h.1
    simp only [List.head?_cons, Option.any_some, Bool.not_or, Bool.and_eq_true] at hm
    simp only [nameBoundary, List.head?_cons, Option.map_some, Option.any_some, Bool.not_or,
      Bool.and_eq_true]
    exact ⟨⟨hm.1.1.1.1, hm.1.1.1.2⟩, hm.2⟩

theorem unescape_of_plain (h : '\\' ∉ text) : unescape text = text := by
  induction text with
  | nil => rfl
  | cons c text ih =>
    rw [List.mem_cons, not_or] at h
    rw [unescape.eq_3 c text fun d tail hc _ => h.1 hc.symm, ih h.2]

/-- What the loop passes over of a string it has read, and what it goes on with. -/
theorem scanDevices_skip (xs ys : List Char) (b : Option Char) :
    scanDevices alphanumeric (.skip xs.length) b (xs ++ ys) =
      scanDevices alphanumeric .bare (xs.getLast?.or b) ys := by
  induction xs generalizing b with
  | nil => exact scanDevices_skip_zero b ys
  | cons c xs ih =>
    rw [List.cons_append, List.length_cons, scanDevices, ih, getLast?_or_cons]

theorem scanDevices_skip_all {n : Nat} (h : text.length ≤ n) (b : Option Char) :
    scanDevices alphanumeric (.skip n) b text = some [] := by
  induction text generalizing n b with
  | nil => rfl
  | cons c text ih =>
    obtain ⟨n, rfl⟩ := Nat.exists_eq_add_one.mpr (Nat.lt_of_lt_of_le (Nat.succ_pos _) h)
    rw [scanDevices]
    exact ih (Nat.le_of_succ_le_succ h) (some c)

/-- The marks of a value and of what is around it. -/
theorem marks_value {blanks blanks' : List Char}
    (h : ∀ c ∈ blanks ++ blanks', deviceBlank c = true) (quoted : List Char) :
    marks .bare (blanks ++ '=' :: (blanks' ++ '"' :: quoted)) =
      inOpen blanks ++
        (.bare, '=') :: (inOpen blanks' ++ (.quote, '"') :: marks .string quoted) := by
  have hblanks := @marks_bare (blanks ++ '=' :: blanks') (fun c hc => by
    rcases List.mem_append.mp hc with hc | hc
    · exact ne_of_deviceBlank (h c (List.mem_append_left _ hc))
    · rcases List.mem_cons.mp hc with rfl | hc
      · decide
      · exact ne_of_deviceBlank (h c (List.mem_append_right _ hc))) ('"' :: quoted)
  rw [List.append_assoc, List.cons_append] at hblanks
  rw [hblanks, inOpen, List.map_append, List.map_cons, List.append_assoc, List.cons_append]
  rfl

theorem dropWhile_between {blanks : List Char} (h : ∀ c ∈ blanks, deviceBlank c = true)
    {m : Mark} (hm : between m = false) (ms : List Mark) :
    (inOpen blanks ++ m :: ms).dropWhile between = m :: ms := by
  have hbetween : ∀ m ∈ inOpen blanks, between m = true := by
    intro m hm
    obtain ⟨c, hc, rfl⟩ := List.mem_map.mp hm
    have hc := h c hc
    simp only [deviceBlank, Bool.or_eq_true, decide_eq_true_eq] at hc
    rcases hc with (rfl | rfl) | rfl <;> rfl
  rw [List.dropWhile_append_of_pos hbetween, List.dropWhile_cons_of_neg (by rw [hm]; decide)]

theorem literal_value {blanks blanks' : List Char}
    (h : ∀ c ∈ blanks ++ blanks', deviceBlank c = true) (quoted : List Char) :
    ∃ value, assigned (marks .bare (blanks ++ '=' :: (blanks' ++ '"' :: quoted))) = some value ∧
      literal value =
        some (.string, chars ((marks .string quoted).takeWhile (·.1 = .string))) := by
  refine ⟨inOpen blanks' ++ (.quote, '"') :: marks .string quoted, ?_, ?_⟩
  · have hequals := dropWhile_between (fun c hc => h c (List.mem_append_left _ hc))
      (m := (.bare, '=')) rfl (inOpen blanks' ++ (.quote, '"') :: marks .string quoted)
    simp only [marks_value h, assigned, hequals]
  · rw [literal, dropWhile_between (fun c hc => h c (List.mem_append_right _ hc)) rfl]

/-- A device that is written as the loop expects is read. -/
theorem deviceValue_of_deviceOf
    (hplain : PlainList alphanumeric before (marks .bare (deviceKey ++ text)))
    (hmem : (before, marks .bare text) ∈
      mentions deviceKey before (marks .bare (deviceKey ++ text)))
    {value : List Char} (h : deviceOf alphanumeric (before, marks .bare text) = some value) :
    nameBoundary alphanumeric (before.head?.map Prod.snd) = true ∧
      (deviceValue text).isSome = true := by
  unfold deviceOf at h
  split at h
  · next hbegins =>
    refine ⟨nameBoundary_of_beginsName hbegins, ?_⟩
    obtain ⟨assignment, hassigned, hstring⟩ := Option.bind_eq_some_iff.mp h
    obtain ⟨⟨kind, written⟩, hliteral, -⟩ := Option.map_eq_some_iff.mp hstring
    obtain ⟨hkind, -, hblank⟩ := hplain.written _ hmem hbegins _ hassigned _ hliteral
    obtain rfl : kind = .string := hkind
    have hopen : ∃ rest, (marks .bare text).dropWhile between = (.bare, '=') :: assignment ∧
        assignment.dropWhile between = (.quote, '"') :: rest := by
      unfold assigned at hassigned
      split at hassigned
      · next assignment' heq =>
        obtain rfl := Option.some.inj hassigned
        unfold literal at hliteral
        split at hliteral
        · next q rest hrest =>
          refine ⟨rest, heq, ?_⟩
          have hq : (Place.quote, q) ∈ marks .bare text :=
            (List.dropWhile_sublist _).subset (heq ▸ List.mem_cons_of_mem _
              ((List.dropWhile_sublist _).subset (hrest ▸ List.mem_cons_self)))
          rw [hrest, show q = '"' from quote_of_mem hq rfl]
        · cases hliteral
        · cases hliteral
      · cases hassigned
    obtain ⟨rest, hequals, hquoted⟩ := hopen
    have htext : text = chars ((marks .bare text).takeWhile between) ++
        '=' :: (chars (assignment.takeWhile between) ++ '"' :: chars rest) := by
      have houter := List.takeWhile_append_dropWhile (p := between) (l := marks .bare text)
      have hinner := List.takeWhile_append_dropWhile (p := between) (l := assignment)
      rw [hquoted] at hinner
      rw [hequals] at houter
      have hchars := congrArg chars houter
      rw [chars_marks, chars_append] at hchars
      have htail : chars ((Place.bare, '=') :: assignment) =
          '=' :: (chars (assignment.takeWhile between) ++ '"' :: chars rest) :=
        congrArg ('=' :: ·) ((congrArg chars hinner.symm).trans (chars_append _ _))
      exact hchars.symm.trans (congrArg (_ ++ ·) htail)
    rw [htext]
    refine deviceValue_isSome fun c hc => ?_
    rw [← chars_append] at hc
    obtain ⟨m, hm, rfl⟩ := List.mem_map.mp hc
    exact (hblank m hm).2
  · cases h

end Steps

section Run

variable {alphanumeric : Char → Bool} {s : Reading} {c : Char} {text rest : List Char}
  {before list : List Mark}

/-- A word opens nothing. -/
theorem marks_word {xs : List Char} (h : xs.all Char.isAlphanum = true) (ys : List Char) :
    marks .bare (xs ++ ys) = inOpen xs ++ marks .bare ys := by
  refine marks_bare (fun c hc => ?_) ys
  have hword := List.all_eq_true.mp h c hc
  refine ⟨?_, ?_, ?_, ?_⟩ <;> rintro rfl <;> exact absurd hword (by decide)

/-- Where the loop reads a value that is the value, and what follows it is still to be read. -/
theorem read_value (hplain : PlainList alphanumeric before (marks .bare (deviceKey ++ text)))
    (hmem : (before, marks .bare text) ∈
      mentions deviceKey before (marks .bare (deviceKey ++ text)))
    (hboundary : nameBoundary alphanumeric (before.head?.map Prod.snd) = true)
    {value : List Char} {n : Nat} (hvalue : deviceValue text = some (value, n)) :
    deviceOf alphanumeric (before, marks .bare text) = some value ∧
      ∃ passed, (Place.bare, 'd') ∉ passed ∧
        (marks .bare text = passed ∧ text.length ≤ n ∨
          ∃ rest, marks .bare text = passed ++ marks .bare rest ∧
            text = chars passed ++ rest ∧ n = passed.length ∧ rest.length < text.length) := by
  have hbegins := hplain.named _ hmem (by
    cases before <;> exact hboundary) (by rw [chars_marks, hvalue]; rfl)
  obtain ⟨blanks, blanks', quoted, rfl, hblank, rfl, rfl⟩ := deviceValue_eq_some hvalue
  obtain ⟨assignment, hassigned, hliteral⟩ := literal_value hblank quoted
  obtain ⟨-, hescape, -⟩ := hplain.written _ hmem hbegins _ hassigned _ hliteral
  obtain ⟨value, tail, rfl, hquote, hchars, hmarks⟩ := marks_string hescape
  have htake : (value ++ tail).takeWhile (· ≠ '"') = value := by
    have hpass : ∀ c ∈ value, decide (c ≠ '"') = true := by
      intro c hc
      rw [decide_eq_true_eq]
      rintro rfl
      exact hquote hc
    rw [List.takeWhile_append_of_pos hpass]
    rcases hmarks with ⟨rfl, -⟩ | ⟨rest, rfl, -⟩
    · simp
    · simp
  rw [hchars] at hliteral hescape
  have hfree : ∀ xs : List Char, (∀ c ∈ xs, deviceBlank c = true) →
      (Place.bare, 'd') ∉ inOpen xs := by
    intro xs hxs hd
    obtain ⟨d, hd, heq⟩ := List.mem_map.mp hd
    obtain ⟨-, rfl⟩ := Prod.mk.inj heq
    exact absurd (hxs 'd' hd) (by decide)
  have hblanks := hfree blanks fun c hc => hblank c (List.mem_append_left _ hc)
  have hblanks' := hfree blanks' fun c hc => hblank c (List.mem_append_right _ hc)
  refine ⟨?_, ?_⟩
  · rw [deviceOf, if_pos hbegins, hassigned, Option.bind_some, stringValue, hliteral, htake]
    exact congrArg some (unescape_of_plain hescape)
  · rw [htake, marks_value hblank]
    rcases hmarks with ⟨rfl, hmarks⟩ | ⟨rest, rfl, hmarks⟩
    · rw [List.append_nil] at hmarks ⊢
      refine ⟨inOpen blanks ++ (.bare, '=') :: (inOpen blanks' ++
        (.quote, '"') :: value.map (Place.string, ·)), by simp [hblanks, hblanks'], Or.inl ?_⟩
      rw [hmarks]
      refine ⟨rfl, ?_⟩
      simp only [List.length_append, List.length_cons]
      omega
    · refine ⟨inOpen blanks ++ (.bare, '=') :: (inOpen blanks' ++
        (.quote, '"') :: (value.map (Place.string, ·) ++ [(.quote, '"')])),
        by simp [hblanks, hblanks'], Or.inr ⟨rest, ?_, ?_, ?_, ?_⟩⟩
      · rw [hmarks]
        simp
      · simp [chars, inOpen, Function.comp_def]
      · simp only [inOpen, List.length_append, List.length_cons, List.length_map, List.length_nil]
        omega
      · simp only [List.length_append, List.length_cons]
        omega

/-- The character before. -/
theorem head?_reverse_append (xs before : List Mark) :
    (xs.reverse ++ before).head?.map Prod.snd =
      (chars xs).getLast?.or (before.head?.map Prod.snd) := by
  rw [List.head?_append, List.head?_reverse, chars, List.getLast?_map]
  cases xs.getLast? <;> rfl

/-- **A device is found**, or is none. -/
theorem findsDevices_device
    (hplain : PlainList alphanumeric before (marks .bare (deviceKey ++ text)))
    (hlater : FindsDevices alphanumeric .bare ((.bare, 'd') :: before) ("evice".toList ++ text))
    (hjump : ∀ rest before', rest.length < text.length →
      PlainList alphanumeric before' (marks .bare rest) →
        FindsDevices alphanumeric .bare before' rest) :
    FindsDevices alphanumeric .bare before (deviceKey ++ text) := by
  have hmarks : marks .bare (deviceKey ++ text) = inOpen deviceKey ++ marks .bare text :=
    marks_word rfl text
  have hrest : marks .bare ("evice".toList ++ text) =
      inOpen "evice".toList ++ marks .bare text := marks_word rfl text
  have hmention : mentions deviceKey before (marks .bare (deviceKey ++ text)) =
      (before, marks .bare text) ::
        mentions deviceKey ((.bare, 'd') :: before) (marks .bare ("evice".toList ++ text)) := by
    rw [hrest, hmarks]
    exact mentions_cons_of rfl
  have hmem : (before, marks .bare text) ∈
      mentions deviceKey before (marks .bare (deviceKey ++ text)) :=
    hmention ▸ List.mem_cons_self
  have hdrop : (deviceKey ++ text).drop deviceKey.length = text := List.drop_left
  have hkey : deviceKey ++ text = 'd' :: ("evice".toList ++ text) := rfl
  unfold FindsDevices
  rw [hmention]
  by_cases hfound : nameBoundary alphanumeric (before.head?.map Prod.snd) = true ∧
      (deviceValue text).isSome = true
  · obtain ⟨hboundary, hsome⟩ := hfound
    obtain ⟨⟨value, n⟩, hvalue⟩ := Option.isSome_iff_exists.mp hsome
    obtain ⟨hdevice, passed, hd, hpassed⟩ := read_value hplain hmem hboundary hvalue
    have hscan : scanDevices alphanumeric .bare (before.head?.map Prod.snd) (deviceKey ++ text) =
        (scanDevices alphanumeric (.skip (5 + n)) (some 'd') ("evice".toList ++ text)).map
          (value :: ·) := by
      have hkeyed : (deviceKey.isPrefixOf (deviceKey ++ text) &&
          nameBoundary alphanumeric (before.head?.map Prod.snd)) = true := by
        rw [hboundary, Bool.and_true, List.isPrefixOf_iff_prefix]
        exact List.prefix_append deviceKey text
      rw [← hdrop] at hvalue
      rw [hkey] at hkeyed hvalue ⊢
      rw [scanDevices, if_neg (by decide), if_neg (by decide), if_neg (by simp),
        if_neg (by decide), if_pos hkeyed, hvalue]
      rfl
    have hpass : ∀ ms, mentions deviceKey ((Place.bare, 'd') :: before)
        (inOpen "evice".toList ++ (passed ++ ms)) =
          mentions deviceKey ((inOpen "evice".toList ++ passed).reverse ++ (.bare, 'd') :: before)
            ms := by
      intro ms
      have hfree : (Place.bare, 'd') ∉ inOpen "evice".toList ++ passed := by
        rw [List.mem_append, not_or]
        exact ⟨by decide, hd⟩
      rw [← List.append_assoc]
      exact mentions_append hfree ms
    rw [List.filterMap_cons_some hdevice]
    show scanDevices alphanumeric .bare _ _ = _
    rw [hscan, hrest]
    rcases hpassed with ⟨hall, hlength⟩ | ⟨rest, hall, htext, rfl, hshort⟩
    · have hnone := hpass []
      rw [List.append_nil, ← hall] at hnone
      rw [hnone, scanDevices_skip_all (by simp; omega)]
      rfl
    · have hplain' : PlainList alphanumeric
          ((inOpen "evice".toList ++ passed).reverse ++ (.bare, 'd') :: before)
            (marks .bare rest) := by
        have hall' : marks .bare (deviceKey ++ text) =
            ((.bare, 'd') :: (inOpen "evice".toList ++ passed)) ++ marks .bare rest := by
          rw [hmarks, hall, ← List.append_assoc]
          rfl
        rw [hall'] at hplain
        have h := hplain.append
        rwa [List.reverse_cons, List.append_assoc] at h
      have hnext := hjump rest _ hshort hplain'
      unfold FindsDevices at hnext
      rw [head?_reverse_append] at hnext
      have hlength : 5 + passed.length = (chars (inOpen "evice".toList ++ passed)).length := by
        simp [chars, inOpen]
        omega
      have htext' : "evice".toList ++ text = chars (inOpen "evice".toList ++ passed) ++ rest := by
        rw [htext, chars_append, chars_inOpen, List.append_assoc]
      rw [hall, hpass, htext', hlength, scanDevices_skip]
      exact congrArg (Option.map (value :: ·)) hnext
  · have hnone : deviceOf alphanumeric (before, marks .bare text) = none := by
      by_contra hsome
      obtain ⟨value, hvalue⟩ := Option.ne_none_iff_exists'.mp hsome
      exact hfound (deviceValue_of_deviceOf hplain hmem hvalue)
    rw [List.filterMap_cons_none hnone, ← hlater]
    refine scanDevices_pass _ (by decide) (by decide) (fun h => absurd h.1 (by decide)) rfl
      fun _ hboundary => ?_
    show deviceValue ((deviceKey ++ text).drop deviceKey.length) = none
    rw [hdrop]
    exact Option.not_isSome_iff_eq_none.mp fun hsome => hfound ⟨hboundary, hsome⟩

/-- **The loop finds the devices** of a list that is written plainly. -/
theorem findsDevices (n : Nat) : ∀ text, text.length ≤ n → ∀ s before, s.Expects text →
    PlainList alphanumeric before (marks s text) → FindsDevices alphanumeric s before text := by
  induction n with
  | zero =>
    intro text htext s before _ _
    obtain rfl := List.length_eq_zero_iff.mp (Nat.le_zero.mp htext)
    rfl
  | succ n ih =>
    intro text htext s before hexpects hplain
    cases text with
    | nil => rfl
    | cons c rest =>
      have hlater := ih rest (Nat.le_of_succ_le_succ htext) (s.next c rest)
        ((s.place c rest, c) :: before) hexpects.next hplain.tail
      by_cases hs : s = .bare
      · subst hs
        by_cases hprefix : deviceKey <+: c :: rest
        · obtain ⟨behind, hbehind⟩ := hprefix
          obtain ⟨rfl, rfl⟩ := List.cons.inj hbehind
          have hlength : (deviceKey ++ behind).length ≤ n + 1 := htext
          rw [List.length_append] at hlength
          refine findsDevices_device hplain hlater fun rest before' hrest hplain' => ?_
          exact ih rest (by omega) .bare before' trivial hplain'
        · refine hlater.cons (fun hmention => hprefix ?_) (scanDevices_open hplain hprefix _)
          have hchars := hmention.map Prod.snd
          rwa [← chars, ← chars, chars_inOpen, chars_marks] at hchars
      · exact hlater.cons (not_mention_of_ne_bare hs) (scanDevices_inside hs hexpects hplain _)

end Run

end DraconGuard
