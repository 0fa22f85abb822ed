import DraconGuard.Clean.Links
import DraconGuard.Lib.ShellWords

/-!
# Words of `notify_command`

`split_command_words` and `NotifyCommand::parse` (src/policy.rs:943-1102) against the grammar of
`Lib/ShellWords.lean`.

| here | there |
|---|---|
| `splitBare`, `splitEscape` | the `while let`, lines 1005-1061 |
| `splitSingle` | the loop of lines 1016-1022 |
| `splitDouble`, `splitDoubleEscape` | the loop of lines 1026-1046 |
| `splitCommandWords` | `split_command_words` |
| `NotifyCommand.parse` | lines 1075-1101 |

The machine marks a word as begun at every backslash, **a line continuation's too**, so it cuts
where the grammar cuts with the continuations in place: one that stands alone between blanks is
an empty word here and nothing there.
-/

namespace DraconGuard

open FileTree Text ShellWords

/-- `NotifyCommand` (policy.rs:982). -/
structure NotifyCommand where
  program : String
  args : List String
deriving DecidableEq

/-! ## The machine -/

mutual

/-- Outside quotes; `hasWord` tells an empty word from none. -/
def splitBare (words : List String) (current : List Char) (hasWord : Bool) :
    List Char → Except String (List String)
  | [] => .ok (if hasWord then words ++ [String.ofList current] else words)
  | c :: rest =>
    if isWhitespace c then
      if hasWord then splitBare (words ++ [String.ofList current]) [] false rest
      else splitBare words current false rest
    else if c = '\'' then splitSingle words current rest
    else if c = '"' then splitDouble words current rest
    else if c = '\\' then splitEscape words current rest
    else splitBare words (current ++ [c]) true rest
termination_by structural cs => cs

/-- Behind a backslash outside quotes. -/
def splitEscape (words : List String) (current : List Char) :
    List Char → Except String (List String)
  | [] => .error "trailing backslash"
  | c :: rest =>
    if c = '\n' then splitBare words current true rest
    else splitBare words (current ++ [c]) true rest
termination_by structural cs => cs

/-- Inside single quotes. -/
def splitSingle (words : List String) (current : List Char) :
    List Char → Except String (List String)
  | [] => .error "unterminated single quote"
  | c :: rest =>
    if c = '\'' then splitBare words current true rest
    else splitSingle words (current ++ [c]) rest
termination_by structural cs => cs

/-- Inside double quotes. -/
def splitDouble (words : List String) (current : List Char) :
    List Char → Except String (List String)
  | [] => .error "unterminated double quote"
  | c :: rest =>
    if c = '"' then splitBare words current true rest
    else if c = '\\' then splitDoubleEscape words current rest
    else splitDouble words (current ++ [c]) rest
termination_by structural cs => cs

/-- Behind a backslash inside double quotes. -/
def splitDoubleEscape (words : List String) (current : List Char) :
    List Char → Except String (List String)
  | [] => .error "trailing backslash inside double quotes"
  | c :: rest =>
    if escapable c then splitDouble words (current ++ [c]) rest
    else if c = '\n' then splitDouble words current rest
    else splitDouble words (current ++ ['\\', c]) rest
termination_by structural cs => cs

end

/-- `split_command_words` (policy.rs:999). -/
def splitCommandWords (input : String) : Except String (List String) :=
  splitBare [] [] false input.toList

/-! ## One piece -/

section
variable (words : List String) (current : List Char) (hasWord : Bool) (rest : List Char)

theorem splitSingle_run {cs : List Char} (hcs : '\'' ∉ cs) :
    splitSingle words current (cs ++ '\'' :: rest) =
      splitBare words (current ++ cs) true rest := by
  induction cs generalizing current with
  | nil => rw [List.nil_append, splitSingle, if_pos rfl, List.append_nil]
  | cons c cs ih =>
    obtain ⟨hc, htail⟩ := List.ne_and_not_mem_of_not_mem_cons hcs
    rw [List.cons_append, splitSingle, if_neg (Ne.symm hc), ih _ htail, List.append_assoc]
    rfl

/-- One item of a quoted run. -/
theorem splitDouble_item (item : Quoted) :
    splitDouble words current (item.spell ++ rest) =
      splitDouble words (current ++ item.text) rest := by
  cases item with
  | char c hc =>
    rw [Quoted.spell, List.singleton_append, splitDouble, if_neg hc.1, if_neg hc.2]
    rfl
  | escaped c hc =>
    have hquote : ('\\' : Char) ≠ '"' := by decide
    rw [Quoted.spell, List.cons_append, List.singleton_append, splitDouble, if_neg hquote,
      if_pos rfl, Quoted.text, splitDoubleEscape]
    by_cases hesc : escapable c = true
    · rw [if_pos hesc, if_pos hesc]
    · rw [if_neg hesc, if_neg hc, if_neg hesc]
  | continuation =>
    rw [Quoted.text, List.append_nil]
    rfl

theorem splitDouble_run (items : List Quoted) :
    splitDouble words current (items.flatMap Quoted.spell ++ rest) =
      splitDouble words (current ++ items.flatMap Quoted.text) rest := by
  induction items generalizing current with
  | nil => rw [List.flatMap_nil, List.nil_append, List.flatMap_nil, List.append_nil]
  | cons item items ih =>
    rw [List.flatMap_cons, List.append_assoc, splitDouble_item, ih, List.flatMap_cons,
      List.append_assoc]

theorem splitBare_blank (c : Char) (hc : isWhitespace c = true) :
    splitBare words current hasWord (c :: rest) =
      if hasWord then splitBare (words ++ [String.ofList current]) [] false rest
      else splitBare words current false rest := by
  rw [splitBare, if_pos hc]

/-- **Every piece but a blank begins a word**, or goes on with it. -/
theorem splitBare_piece (p : Piece) (hp : p.isBlank = false) :
    splitBare words current hasWord (p.spell ++ rest) =
      splitBare words (current ++ p.text) true rest := by
  cases p with
  | blank c hc => cases hp
  | plain c hc =>
    obtain ⟨hblank, hsingle, hdouble, hback⟩ := hc
    rw [Piece.spell, List.singleton_append, splitBare, if_neg (by simp [hblank]),
      if_neg hsingle, if_neg hdouble, if_neg hback]
    rfl
  | escaped c hc =>
    have h : splitBare words current hasWord ('\\' :: c :: rest) =
        if c = '\n' then splitBare words current true rest
        else splitBare words (current ++ [c]) true rest := rfl
    exact h.trans (if_neg hc)
  | continuation =>
    rw [Piece.text, List.append_nil]
    rfl
  | single cs hcs =>
    have h : splitBare words current hasWord ('\'' :: (cs ++ ['\'']) ++ rest) =
        splitSingle words current (cs ++ ['\''] ++ rest) := rfl
    rw [Piece.spell, h, List.append_assoc, List.singleton_append,
      splitSingle_run words current rest hcs]
    rfl
  | double items =>
    have h : splitBare words current hasWord ('"' :: (items.flatMap Quoted.spell ++ ['"']) ++ rest) =
        splitDouble words current (items.flatMap Quoted.spell ++ ['"'] ++ rest) := rfl
    rw [Piece.spell, h, List.append_assoc, List.singleton_append, splitDouble_run]
    rfl

end

/-! ## Whole texts -/

theorem splitBare_spellAll (ps : List Piece) (words : List String) (current : List Char)
    (hasWord : Bool) (hcurrent : hasWord = false → current = []) :
    splitBare words current hasWord (spellAll ps) =
      .ok (words ++
        (if hasWord then wordsBehind current ps else cutWords ps).map String.ofList) := by
  induction ps generalizing words current hasWord with
  | nil => cases hasWord <;> simp [spellAll, splitBare, cutWords, wordsBehind]
  | cons p ps ih =>
    have hspell : spellAll (p :: ps) = p.spell ++ spellAll ps := List.flatMap_cons
    rw [hspell]
    cases hp : p.isBlank with
    | true =>
      cases p with
      | blank c hc =>
        rw [Piece.spell, List.singleton_append, splitBare_blank _ _ _ _ _ hc,
          wordsBehind_blank hp, cutWords_blank hp]
        cases hasWord with
        | true =>
          rw [if_pos rfl, if_pos rfl, ih _ _ _ fun _ => rfl, if_neg Bool.false_ne_true,
            List.append_assoc]
          rfl
        | false =>
          rw [if_neg Bool.false_ne_true, if_neg Bool.false_ne_true, ih _ _ _ hcurrent,
            if_neg Bool.false_ne_true]
      | _ => cases hp
    | false =>
      rw [splitBare_piece _ _ _ _ _ hp, ih _ _ _ (by simp), if_pos rfl,
        wordsBehind_piece hp, cutWords_piece hp]
      cases hasWord with
      | true => rw [if_pos rfl]
      | false => rw [if_neg Bool.false_ne_true, hcurrent rfl, List.nil_append]

/-- **What the machine makes of a list of pieces.** -/
theorem splitCommandWords_of_pieces {text : String} {ps : List Piece}
    (h : spellAll ps = text.toList) :
    splitCommandWords text = .ok ((cutWords ps).map String.ofList) := by
  rw [splitCommandWords, ← h, splitBare_spellAll ps [] [] false fun _ => rfl]
  rfl

/-- The texts of the errors. -/
def faultMessage : Fault → String
  | .singleQuote => "unterminated single quote"
  | .backslashInDouble => "trailing backslash inside double quotes"
  | .doubleQuote => "unterminated double quote"
  | .backslash => "trailing backslash"

theorem splitSingle_open {cs : List Char} (hcs : '\'' ∉ cs) (words : List String)
    (current : List Char) :
    splitSingle words current cs = .error "unterminated single quote" := by
  induction cs generalizing current with
  | nil => rfl
  | cons c cs ih =>
    obtain ⟨hc, htail⟩ := List.ne_and_not_mem_of_not_mem_cons hcs
    rw [splitSingle, if_neg (Ne.symm hc), ih htail]

theorem splitBare_unfinished {tail : List Char} {fault : Fault} (h : Unfinished tail fault)
    (words : List String) (current : List Char) (hasWord : Bool) :
    splitBare words current hasWord tail = .error (faultMessage fault) := by
  cases h with
  | single cs hcs => exact splitSingle_open hcs words current
  | double items =>
    have h : splitBare words current hasWord ('"' :: items.flatMap Quoted.spell) =
        splitDouble words current (items.flatMap Quoted.spell ++ []) := by
      rw [List.append_nil]
      rfl
    rw [h, splitDouble_run]
    rfl
  | doubleEscape items =>
    have h : splitBare words current hasWord ('"' :: (items.flatMap Quoted.spell ++ ['\\'])) =
        splitDouble words current (items.flatMap Quoted.spell ++ ['\\']) := rfl
    rw [h, splitDouble_run]
    rfl
  | escape => rfl

/-- **What the machine makes of a text that ends too early.** -/
theorem splitCommandWords_of_unfinished {text : String} {ps : List Piece} {tail : List Char}
    {fault : Fault} (hfault : Unfinished tail fault) (h : text.toList = spellAll ps ++ tail) :
    splitCommandWords text = .error (faultMessage fault) := by
  have hrun : ∀ words current hasWord, splitBare words current hasWord (spellAll ps ++ tail) =
      .error (faultMessage fault) := by
    clear h
    induction ps with
    | nil => exact splitBare_unfinished hfault
    | cons p ps ih =>
      intro words current hasWord
      have hspell : spellAll (p :: ps) ++ tail = p.spell ++ (spellAll ps ++ tail) := by
        rw [spellAll, List.flatMap_cons, List.append_assoc]
        rfl
      rw [hspell]
      cases hp : p.isBlank with
      | false => rw [splitBare_piece _ _ _ _ _ hp, ih]
      | true =>
        cases p with
        | blank c hc =>
          rw [Piece.spell, List.singleton_append, splitBare_blank _ _ _ _ _ hc]
          split
          · exact ih _ _ _
          · exact ih _ _ _
        | _ => cases hp
  rw [splitCommandWords, h, hrun]

/-! ## Main result -/

/-- The reference: the words of the pieces that the text is made of, or what is wrong with the
end that is none. -/
def Tokenizes (text : String) : Except String (List String) → Prop
  | .ok words => ∃ ps, spellAll ps = text.toList ∧ (wordsOf ps).map String.ofList = words
  | .error e => ∃ ps tail fault, Unfinished tail fault ∧ text.toList = spellAll ps ++ tail ∧
      faultMessage fault = e

/-- A word of the text is made of line continuations outside quotes, and of nothing else. -/
def HasLoneContinuation (text : String) : Prop :=
  ∃ ps, spellAll ps = text.toList ∧ LoneContinuation ps

/-- A POSIX single-quoted word: `'\''` for a quote within. -/
def quoteWord (word : String) : List Char :=
  '\'' :: (word.toList.flatMap (fun c => if c = '\'' then ['\'', '\\', '\'', '\''] else [c]) ++
    ['\''])

theorem splitBare_quoteWord (words : List String) (word : String) (rest : List Char) :
    splitBare words [] false (quoteWord word ++ rest) = splitBare words word.toList true rest := by
  have hrun : ∀ (cs current : List Char), splitSingle words current
      (cs.flatMap (fun c => if c = '\'' then ['\'', '\\', '\'', '\''] else [c]) ++ '\'' :: rest) =
        splitBare words (current ++ cs) true rest := by
    intro cs
    induction cs with
    | nil => exact fun current => splitSingle_run words current rest List.not_mem_nil
    | cons c cs ih =>
      intro current
      rw [List.flatMap_cons, List.append_assoc]
      by_cases hc : c = '\''
      · rw [if_pos hc, hc]
        exact (ih (current ++ ['\''])).trans (by simp)
      · rw [if_neg hc, List.singleton_append, splitSingle, if_neg hc, ih]
        simp
  have hopen : splitBare words [] false (quoteWord word ++ rest) = splitSingle words []
      (word.toList.flatMap (fun c => if c = '\'' then ['\'', '\\', '\'', '\''] else [c]) ++
        ['\''] ++ rest) := rfl
  rw [hopen, List.append_assoc, List.singleton_append, hrun, List.nil_append]

theorem splitBare_gap {gap : List Char} (hgap : gap ≠ []) (hblank : ∀ c ∈ gap, isWhitespace c = true)
    (words : List String) (current : List Char) (rest : List Char) :
    splitBare words current true (gap ++ rest) =
      splitBare (words ++ [String.ofList current]) [] false rest := by
  have hmore : ∀ (more : List Char), (∀ c ∈ more, isWhitespace c = true) → ∀ ws,
      splitBare ws [] false (more ++ rest) = splitBare ws [] false rest := by
    intro more hall ws
    induction more with
    | nil => rfl
    | cons c more ih =>
      rw [List.cons_append, splitBare_blank _ _ _ _ _ (hall c (List.mem_cons_self ..)),
        if_neg Bool.false_ne_true]
      exact ih fun d hd => hall d (List.mem_cons_of_mem c hd)
  cases gap with
  | nil => exact absurd rfl hgap
  | cons c gap =>
    rw [List.cons_append, splitBare_blank _ _ _ _ _ (hblank c (List.mem_cons_self ..)),
      if_pos rfl]
    exact hmore gap (fun d hd => hblank d (List.mem_cons_of_mem c hd)) _

/-- **Quoted, joined and split again**, words come back. -/
theorem splitBare_quoted {gap : List Char} (hgap : gap ≠ [])
    (hblank : ∀ c ∈ gap, isWhitespace c = true) (words done : List String) :
    splitBare done [] false (List.intercalate gap (words.map quoteWord)) = .ok (done ++ words) := by
  induction words generalizing done with
  | nil => simp [List.intercalate, splitBare]
  | cons word words ih =>
    cases words with
    | nil =>
      have h := splitBare_quoteWord done word []
      rw [List.append_nil] at h
      have hone : List.intercalate gap ([word].map quoteWord) = quoteWord word := by
        simp [List.intercalate]
      rw [hone, h]
      simp [splitBare]
    | cons next words =>
      have hmany : List.intercalate gap ((word :: next :: words).map quoteWord) =
          quoteWord word ++ (gap ++ List.intercalate gap ((next :: words).map quoteWord)) := by
        simp [List.intercalate]
      rw [hmany, splitBare_quoteWord, splitBare_gap hgap hblank, ih, String.ofList_toList,
        List.append_assoc]
      rfl

/-- **The machine agrees with the grammar exactly on the texts without a lone line
continuation**, and gives quoted words back whatever they are. -/
theorem splitCommandWords_posix (text : String) :
    (Tokenizes text (splitCommandWords text) ↔ ¬ HasLoneContinuation text) ∧
      ∀ (words : List String) (gap : List Char), gap ≠ [] →
        (∀ c ∈ gap, isWhitespace c = true) →
          splitCommandWords (String.ofList (List.intercalate gap (words.map quoteWord))) =
            .ok words := by
  constructor
  · obtain ⟨ps, hps | ⟨tail, fault, hfault, hps⟩⟩ := reads_or_breaks text.toList
    · have hrun := splitCommandWords_of_pieces hps
      have hone : HasLoneContinuation text ↔ LoneContinuation ps := by
        constructor
        · rintro ⟨ps', hps', hlone⟩
          rwa [spell_inj (hps.trans hps'.symm)]
        · exact fun hlone => ⟨ps, hps, hlone⟩
      rw [hone, ← cutWords_eq_iff, hrun]
      constructor
      · rintro ⟨ps', hps', hwords⟩
        rw [spell_inj (hps'.trans hps.symm)] at hwords
        exact (List.map_injective_iff.mpr (fun _ _ h => String.ofList_injective h) hwords).symm
      · exact fun hwords => ⟨ps, hps, by rw [hwords]⟩
    · have hrun := splitCommandWords_of_unfinished hfault hps
      refine iff_of_true ?_ ?_
      · rw [hrun]
        exact ⟨ps, tail, fault, hfault, hps, rfl⟩
      · rintro ⟨ps', hps', -⟩
        have hok := splitCommandWords_of_pieces hps'
        rw [hrun] at hok
        cases hok
  · intro words gap hgap hblank
    rw [splitCommandWords, String.toList_ofList, splitBare_quoted hgap hblank]
    rfl

/-- **A continuation between blanks**: `a`, the continuation, `b` are three words here. -/
theorem lone_continuation_is_a_word :
    splitCommandWords "a \\\n b" = .ok ["a", "", "b"] ∧
      ¬ Tokenizes "a \\\n b" (splitCommandWords "a \\\n b") := by
  have hrun : splitCommandWords "a \\\n b" = .ok ["a", "", "b"] := by rfl
  refine ⟨hrun, ?_⟩
  rw [hrun]
  rintro ⟨ps, hps, hwords⟩
  have hpieces : ps = [.plain 'a' (by decide), .blank ' ' (by decide), .continuation,
      .blank ' ' (by decide), .plain 'b' (by decide)] := spell_inj (hps.trans rfl)
  have hlen := congrArg List.length hwords
  rw [hpieces] at hlen
  cases hlen

/-! ## The configured command -/

/-- `NOTIFY_FORBIDDEN_PROGRAMS` (policy.rs:943). -/
def notifyForbiddenPrograms : List String :=
  ["sh", "bash", "dash", "zsh", "ksh", "mksh", "csh", "tcsh", "fish", "ash", "busybox", "sudo", "su",
    "doas", "pkexec", "setuidgid", "env", "xargs", "nohup", "setsid", "nice", "ionice", "timeout",
    "watch", "stdbuf", "systemd-run", "flatpak-run", "chroot", "unshare"]

/-- The name that the list is searched for. -/
def programName (program : String) : String := ((fileName (spelled program)).map Name.text).getD program

/-- What is checked of the words (policy.rs:1081-1101). -/
def NotifyCommand.ofWords (program : String) (args : List String) :
    Except String NotifyCommand :=
  if !"/".toList.isPrefixOf program.toList then
    .error ("notify_command must start with an absolute path, got: " ++ program)
  else if notifyForbiddenPrograms.contains (programName program) then
    .error ("notify_command may not use \x60" ++ programName program ++ "\x60 (shell, privilege " ++
      "escalator, or argument pass-through wrapper) — point it at a notifier binary")
  else .ok { program := program, args := args }

/-- `NotifyCommand::parse` (policy.rs:1075); nothing is `words.remove(0)` of no words. -/
def NotifyCommand.parse (raw : String) : Option (Except String NotifyCommand) :=
  if (trim raw).isEmpty then some (.error "notify_command is empty")
  else match splitCommandWords (String.ofList (trim raw)) with
  | .error e => some (.error e)
  | .ok [] => none
  | .ok (program :: args) => some (NotifyCommand.ofWords program args)

/-- **There is always a first word**: `words.remove(0)` never panics. -/
theorem notifyCommand_parse_total (raw : String) : (NotifyCommand.parse raw).isSome = true := by
  unfold NotifyCommand.parse
  by_cases hempty : (trim raw).isEmpty = true
  · rw [if_pos hempty]
    rfl
  rw [if_neg hempty]
  cases hsplit : splitCommandWords (String.ofList (trim raw)) with
  | error e => rfl
  | ok words =>
    cases words with
    | cons program args => rfl
    | nil =>
      obtain ⟨ps, hps | ⟨tail, fault, hfault, hps⟩⟩ := reads_or_breaks (trim raw)
      · rw [splitCommandWords_of_pieces (hps.trans (String.toList_ofList ..).symm)] at hsplit
        cases ps with
        | nil =>
          rw [← hps] at hempty
          exact absurd rfl hempty
        | cons p ps =>
          -- the first character is no blank, so the first piece is none
          have hp : p.isBlank = false := by
            cases p with
            | blank c hc =>
              have hhead : (trim raw).head? = some c := by rw [← hps]; rfl
              have hno := (trimmed_trim raw).1 c hhead
              rw [hc] at hno
              cases hno
            | _ => rfl
          rw [cutWords_piece hp] at hsplit
          obtain ⟨first, others, hfirst, -⟩ := splitOnP_piece hp ps
          unfold wordsBehind at hsplit
          rw [hfirst] at hsplit
          cases hsplit
      · rw [splitCommandWords_of_unfinished hfault
          ((String.toList_ofList ..).trans hps)] at hsplit
        cases hsplit

/-- **What is accepted** is an absolute program that the list does not name, and the words behind
it as they are. -/
theorem notifyCommand_parse_ok {raw : String} {cmd : NotifyCommand}
    (h : NotifyCommand.parse raw = some (.ok cmd)) :
    splitCommandWords (String.ofList (trim raw)) = .ok (cmd.program :: cmd.args) ∧
      "/".toList <+: cmd.program.toList ∧ programName cmd.program ∉ notifyForbiddenPrograms := by
  unfold NotifyCommand.parse at h
  split at h
  · cases h
  split at h
  · cases h
  · cases h
  · next program args hsplit =>
    have hwords := Option.some.inj h
    unfold NotifyCommand.ofWords at hwords
    split at hwords
    · cases hwords
    next habs =>
    split at hwords
    · cases hwords
    next hname =>
    obtain rfl := Except.ok.inj hwords
    refine ⟨hsplit, List.isPrefixOf_iff_prefix.mp (by simpa using habs), ?_⟩
    simpa using hname

end DraconGuard
