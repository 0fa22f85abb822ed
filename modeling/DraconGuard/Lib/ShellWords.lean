import Mathlib.Data.List.Basic
import DraconGuard.Lib.Text

/-!
# Words of a shell command

The quoting half of the shell's grammar, as the pieces a text is made of: blanks, characters,
quoted runs, line continuations. A piece carries what makes it one, so a list of pieces is always
well formed and its spelling determines it (`spell_inj`); a text that is no list of pieces ends in
a piece that is not finished (`reads_or_breaks`).

`wordsOf` takes the continuations out first and cuts at the blanks then. To cut with the
continuations in place (`cutWords`) gives the same words unless one of them is made of
continuations only (`cutWords_eq_iff`).
-/

namespace ShellWords

open Text

/-- What stands between double quotes. -/
inductive Quoted where
  | char (c : Char) (h : c ≠ '"' ∧ c ≠ '\\')
  | escaped (c : Char) (h : c ≠ '\n')
  | continuation

/-- What a backslash escapes between double quotes; before anything else it is itself. -/
def escapable (c : Char) : Bool := c = '"' || c = '\\' || c = '$' || c = '\x60'

def Quoted.spell : Quoted → List Char
  | .char c _ => [c]
  | .escaped c _ => ['\\', c]
  | .continuation => ['\\', '\n']

def Quoted.text : Quoted → List Char
  | .char c _ => [c]
  | .escaped c _ => if escapable c then [c] else ['\\', c]
  | .continuation => []

inductive Piece where
  | blank (c : Char) (h : isWhitespace c = true)
  | plain (c : Char) (h : isWhitespace c = false ∧ c ≠ '\'' ∧ c ≠ '"' ∧ c ≠ '\\')
  | escaped (c : Char) (h : c ≠ '\n')
  | continuation
  | single (cs : List Char) (h : '\'' ∉ cs)
  | double (items : List Quoted)

def Piece.spell : Piece → List Char
  | .blank c _ => [c]
  | .plain c _ => [c]
  | .escaped c _ => ['\\', c]
  | .continuation => ['\\', '\n']
  | .single cs _ => '\'' :: (cs ++ ['\''])
  | .double items => '"' :: (items.flatMap Quoted.spell ++ ['"'])

/-- What a piece adds to its word. -/
def Piece.text : Piece → List Char
  | .blank _ _ => []
  | .plain c _ => [c]
  | .escaped c _ => [c]
  | .continuation => []
  | .single cs _ => cs
  | .double items => items.flatMap Quoted.text

def Piece.isBlank : Piece → Bool
  | .blank _ _ => true
  | _ => false

def Piece.isContinuation : Piece → Bool
  | .continuation => true
  | _ => false

def spellAll (ps : List Piece) : List Char := ps.flatMap Piece.spell

/-- What is wrong at the end of a text. -/
inductive Fault where
  | singleQuote
  | backslashInDouble
  | doubleQuote
  | backslash
deriving DecidableEq

/-- A piece that the end of the text cuts off. -/
inductive Unfinished : List Char → Fault → Prop
  | single (cs : List Char) (h : '\'' ∉ cs) : Unfinished ('\'' :: cs) .singleQuote
  | double (items : List Quoted) : Unfinished ('"' :: items.flatMap Quoted.spell) .doubleQuote
  | doubleEscape (items : List Quoted) :
      Unfinished ('"' :: (items.flatMap Quoted.spell ++ ['\\'])) .backslashInDouble
  | escape : Unfinished ['\\'] .backslash

/-! ## One reading -/

/-- A quoted run is not over where one of its items begins. -/
theorem Quoted.spell_ne_close (item : Quoted) (tail rest : List Char) :
    item.spell ++ tail ≠ '"' :: rest := by
  cases item with
  | char c hc =>
    intro h
    exact hc.1 (List.cons.inj h).1
  | escaped c hc => simp [Quoted.spell]
  | continuation => simp [Quoted.spell]

theorem item_inj {item item' : Quoted} {rest rest' : List Char}
    (h : item.spell ++ rest = item'.spell ++ rest') : item = item' ∧ rest = rest' := by
  cases item <;> cases item' <;> grind [Quoted.spell]

theorem quoted_inj {items items' : List Quoted} {rest rest' : List Char}
    (h : items.flatMap Quoted.spell ++ '"' :: rest = items'.flatMap Quoted.spell ++ '"' :: rest') :
    items = items' ∧ rest = rest' := by
  induction items generalizing items' with
  | nil =>
    cases items' with
    | nil => exact ⟨rfl, by simpa using h⟩
    | cons item' items' =>
      rw [List.flatMap_cons, List.append_assoc] at h
      exact absurd h.symm (item'.spell_ne_close _ _)
  | cons item items ih =>
    cases items' with
    | nil =>
      rw [List.flatMap_cons, List.append_assoc] at h
      exact absurd h (item.spell_ne_close _ _)
    | cons item' items' =>
      rw [List.flatMap_cons, List.flatMap_cons, List.append_assoc, List.append_assoc] at h
      obtain ⟨rfl, htail⟩ := item_inj h
      obtain ⟨rfl, hrest⟩ := ih htail
      exact ⟨rfl, hrest⟩

theorem single_inj {cs cs' rest rest' : List Char} (hcs : '\'' ∉ cs) (hcs' : '\'' ∉ cs')
    (h : cs ++ '\'' :: rest = cs' ++ '\'' :: rest') : cs = cs' ∧ rest = rest' := by
  induction cs generalizing cs' with
  | nil => cases cs' <;> grind
  | cons c cs ih => cases cs' <;> grind

/-- The first piece of a text is determined by the text. -/
theorem piece_inj {p p' : Piece} {rest rest' : List Char}
    (h : p.spell ++ rest = p'.spell ++ rest') : p = p' ∧ rest = rest' := by
  have hsingle : isWhitespace '\'' = false := by decide
  have hdouble : isWhitespace '"' = false := by decide
  have hback : isWhitespace '\\' = false := by decide
  cases p <;> cases p'
  case single.single cs hcs cs' hcs' =>
    simp only [Piece.spell, List.cons_append, List.append_assoc, List.nil_append,
      List.cons.injEq, true_and] at h
    obtain ⟨rfl, hrest⟩ := single_inj hcs hcs' h
    exact ⟨rfl, hrest⟩
  case double.double items items' =>
    simp only [Piece.spell, List.cons_append, List.append_assoc, List.nil_append,
      List.cons.injEq, true_and] at h
    obtain ⟨rfl, hrest⟩ := quoted_inj h
    exact ⟨rfl, hrest⟩
  -- the first characters tell the others apart
  all_goals grind [Piece.spell]

theorem Piece.spell_ne_nil (p : Piece) : p.spell ≠ [] := by
  cases p <;> simp [Piece.spell]

/-- **A text is read in one way.** -/
theorem spell_inj {ps qs : List Piece} (h : spellAll ps = spellAll qs) : ps = qs := by
  unfold spellAll at h
  induction ps generalizing qs with
  | nil =>
    cases qs with
    | nil => rfl
    | cons q qs => simp [Piece.spell_ne_nil] at h
  | cons p ps ih =>
    cases qs with
    | nil => simp [Piece.spell_ne_nil] at h
    | cons q qs =>
      rw [List.flatMap_cons, List.flatMap_cons] at h
      obtain ⟨rfl, hrest⟩ := piece_inj h
      rw [ih hrest]

/-! ## Every text -/

/-- A text behind a single quote: the quote is closed, or it is not. -/
theorem single_or_breaks (cs : List Char) :
    (∃ inner rest, '\'' ∉ inner ∧ cs = inner ++ '\'' :: rest) ∨ '\'' ∉ cs := by
  by_cases h : '\'' ∈ cs
  · obtain ⟨inner, rest, heq, hinner⟩ := List.eq_append_cons_of_mem h
    exact Or.inl ⟨inner, rest, hinner, heq⟩
  · exact Or.inr h

/-- A text behind a double quote. -/
theorem double_or_breaks (cs : List Char) :
    ∃ items : List Quoted, (∃ rest, cs = items.flatMap Quoted.spell ++ '"' :: rest) ∨
      cs = items.flatMap Quoted.spell ∨ cs = items.flatMap Quoted.spell ++ ['\\'] := by
  induction hlen : cs.length using Nat.strongRecOn generalizing cs with
  | _ n ih =>
    -- a first item, and what is behind it
    have hcons : ∀ (item : Quoted) (rest : List Char), cs = item.spell ++ rest →
        rest.length < n → ∃ items : List Quoted,
          (∃ rest, cs = items.flatMap Quoted.spell ++ '"' :: rest) ∨
            cs = items.flatMap Quoted.spell ∨ cs = items.flatMap Quoted.spell ++ ['\\'] := by
      intro item rest heq hlt
      obtain ⟨items, hitems⟩ := ih rest.length hlt rest rfl
      refine ⟨item :: items, ?_⟩
      rw [List.flatMap_cons, heq]
      rcases hitems with ⟨after, hafter⟩ | hafter | hafter
      · exact Or.inl ⟨after, by rw [hafter, List.append_assoc]⟩
      · exact Or.inr (Or.inl (by rw [hafter]))
      · exact Or.inr (Or.inr (by rw [hafter, List.append_assoc]))
    cases cs with
    | nil => exact ⟨[], Or.inr (Or.inl rfl)⟩
    | cons c rest =>
      by_cases hquote : c = '"'
      · exact ⟨[], Or.inl ⟨rest, by rw [hquote]; rfl⟩⟩
      by_cases hback : c = '\\'
      · subst hback
        cases rest with
        | nil => exact ⟨[], Or.inr (Or.inr rfl)⟩
        | cons d rest =>
          by_cases hd : d = '\n'
          · exact hcons .continuation rest (by rw [hd]; rfl) (by simp only [← hlen, List.length_cons]; omega)
          · exact hcons (.escaped d hd) rest rfl (by simp only [← hlen, List.length_cons]; omega)
      · exact hcons (.char c ⟨hquote, hback⟩) rest rfl (by rw [← hlen]; simp)

/-- **Every text** is a list of pieces, or ends in one that is not finished. -/
theorem reads_or_breaks (cs : List Char) :
    ∃ ps, spellAll ps = cs ∨ ∃ tail fault, Unfinished tail fault ∧ cs = spellAll ps ++ tail := by
  induction hlen : cs.length using Nat.strongRecOn generalizing cs with
  | _ n ih =>
    have hcons : ∀ (p : Piece) (rest : List Char), cs = p.spell ++ rest → rest.length < n →
        ∃ ps, spellAll ps = cs ∨
          ∃ tail fault, Unfinished tail fault ∧ cs = spellAll ps ++ tail := by
      intro p rest heq hlt
      obtain ⟨ps, hps⟩ := ih rest.length hlt rest rfl
      refine ⟨p :: ps, ?_⟩
      rw [heq, spellAll, List.flatMap_cons]
      rcases hps with hps | ⟨tail, fault, hfault, hps⟩
      · exact Or.inl (congrArg _ hps)
      · exact Or.inr ⟨tail, fault, hfault, by rw [hps, spellAll, List.append_assoc]⟩
    cases cs with
    | nil => exact ⟨[], Or.inl rfl⟩
    | cons c rest =>
      cases hblank : isWhitespace c with
      | true => exact hcons (.blank c hblank) rest rfl (by rw [← hlen]; simp)
      | false =>
        by_cases hsingle : c = '\''
        · subst hsingle
          rcases single_or_breaks rest with ⟨inner, after, hinner, heq⟩ | hopen
          · exact hcons (.single inner hinner) after (by rw [heq]; simp [Piece.spell])
              (by rw [← hlen, heq]; simp; omega)
          · exact ⟨[], Or.inr ⟨_, _, .single rest hopen, rfl⟩⟩
        by_cases hdouble : c = '"'
        · subst hdouble
          obtain ⟨items, ⟨after, heq⟩ | heq | heq⟩ := double_or_breaks rest
          · exact hcons (.double items) after (by rw [heq]; simp [Piece.spell])
              (by rw [← hlen, heq]; simp; omega)
          · exact ⟨[], Or.inr ⟨_, _, .double items, by rw [heq]; rfl⟩⟩
          · exact ⟨[], Or.inr ⟨_, _, .doubleEscape items, by rw [heq]; rfl⟩⟩
        by_cases hback : c = '\\'
        · subst hback
          cases rest with
          | nil => exact ⟨[], Or.inr ⟨_, _, .escape, rfl⟩⟩
          | cons d rest =>
            by_cases hd : d = '\n'
            · exact hcons .continuation rest (by rw [hd]; rfl) (by simp only [← hlen, List.length_cons]; omega)
            · exact hcons (.escaped d hd) rest rfl (by simp only [← hlen, List.length_cons]; omega)
        · exact hcons (.plain c ⟨hblank, hsingle, hdouble, hback⟩) rest rfl
            (by rw [← hlen]; simp)

/-! ## Words -/

/-- The words of pieces cut at the blanks. -/
def cutWords (ps : List Piece) : List (List Char) :=
  ((ps.splitOnP Piece.isBlank).filter fun chunk => !chunk.isEmpty).map (List.flatMap Piece.text)

/-- The words of pieces behind a word that is begun. -/
def wordsBehind (current : List Char) (ps : List Piece) : List (List Char) :=
  match ps.splitOnP Piece.isBlank with
  | [] => []
  | first :: others => (current ++ first.flatMap Piece.text) ::
      (others.filter fun chunk => !chunk.isEmpty).map (List.flatMap Piece.text)

theorem cutWords_blank {p : Piece} (hp : p.isBlank = true) (ps : List Piece) :
    cutWords (p :: ps) = cutWords ps := by
  unfold cutWords
  rw [List.splitOnP_cons_eq_if_modifyHead, if_pos hp]
  rfl

theorem wordsBehind_blank {p : Piece} (hp : p.isBlank = true) (current : List Char)
    (ps : List Piece) : wordsBehind current (p :: ps) = current :: cutWords ps := by
  unfold wordsBehind cutWords
  rw [List.splitOnP_cons_eq_if_modifyHead, if_pos hp]
  simp

theorem splitOnP_piece {p : Piece} (hp : p.isBlank = false) (ps : List Piece) :
    ∃ first others, ps.splitOnP Piece.isBlank = first :: others ∧
      (p :: ps).splitOnP Piece.isBlank = (p :: first) :: others := by
  cases hsplit : ps.splitOnP Piece.isBlank with
  | nil => exact absurd hsplit (List.splitOnP_ne_nil Piece.isBlank ps)
  | cons first others =>
    refine ⟨first, others, rfl, ?_⟩
    rw [List.splitOnP_cons_eq_if_modifyHead, if_neg (by simp [hp]), hsplit]
    rfl

theorem cutWords_piece {p : Piece} (hp : p.isBlank = false) (ps : List Piece) :
    cutWords (p :: ps) = wordsBehind p.text ps := by
  obtain ⟨first, others, hps, hcons⟩ := splitOnP_piece hp ps
  unfold cutWords wordsBehind
  rw [hcons, hps]
  rfl

theorem wordsBehind_piece {p : Piece} (hp : p.isBlank = false) (current : List Char)
    (ps : List Piece) : wordsBehind current (p :: ps) = wordsBehind (current ++ p.text) ps := by
  obtain ⟨first, others, hps, hcons⟩ := splitOnP_piece hp ps
  unfold wordsBehind
  rw [hcons, hps]
  simp

/-- **The words of a command**: continuations vanish, blanks separate what is left. -/
def wordsOf (ps : List Piece) : List (List Char) :=
  cutWords (ps.filter fun p => !p.isContinuation)

/-- Some word has nothing in it but continuations. -/
def LoneContinuation (ps : List Piece) : Prop :=
  ∃ chunk ∈ ps.splitOnP Piece.isBlank, chunk ≠ [] ∧ ∀ p ∈ chunk, p.isContinuation = true

theorem splitOnP_filter {α : Type} {sep keep : α → Bool} (h : ∀ a, sep a = true → keep a = true)
    (l : List α) : (l.filter keep).splitOnP sep = (l.splitOnP sep).map (List.filter keep) := by
  induction l with
  | nil => rfl
  | cons a l ih =>
    cases hsplit : l.splitOnP sep with
    | nil => exact absurd hsplit (List.splitOnP_ne_nil sep l)
    | cons first others =>
      rw [hsplit] at ih
      by_cases hsep : sep a = true
      · rw [List.filter_cons_of_pos (h a hsep), List.splitOnP_cons_eq_if_modifyHead, if_pos hsep,
          List.splitOnP_cons_eq_if_modifyHead, if_pos hsep, hsplit, ih]
        rfl
      · by_cases hkeep : keep a = true
        · rw [List.filter_cons_of_pos hkeep, List.splitOnP_cons_eq_if_modifyHead, if_neg hsep,
            List.splitOnP_cons_eq_if_modifyHead, if_neg hsep, hsplit, ih]
          simp [hkeep]
        · rw [List.filter_cons_of_neg hkeep, List.splitOnP_cons_eq_if_modifyHead, if_neg hsep,
            hsplit, ih]
          simp [hkeep]

theorem flatMap_text_filter (chunk : List Piece) :
    (chunk.filter fun p => !p.isContinuation).flatMap Piece.text = chunk.flatMap Piece.text := by
  induction chunk with
  | nil => rfl
  | cons p chunk ih =>
    cases p <;> simp_all [Piece.isContinuation, Piece.text]

/-- **To cut first changes nothing**, unless a word is made of continuations only. -/
theorem cutWords_eq_iff (ps : List Piece) : cutWords ps = wordsOf ps ↔ ¬ LoneContinuation ps := by
  have hsep : ∀ p : Piece, p.isBlank = true → (!p.isContinuation) = true := by
    intro p hp
    cases p <;> simp_all [Piece.isBlank, Piece.isContinuation]
  have hwords : wordsOf ps = ((ps.splitOnP Piece.isBlank).filter fun chunk =>
      !(chunk.filter fun p => !p.isContinuation).isEmpty).map (List.flatMap Piece.text) := by
    unfold wordsOf cutWords
    rw [splitOnP_filter hsep, List.filter_map, List.map_map]
    exact List.map_congr_left fun chunk _ => flatMap_text_filter chunk
  have htwo : ((ps.splitOnP Piece.isBlank).filter fun chunk =>
      !(chunk.filter fun p => !p.isContinuation).isEmpty) =
      (((ps.splitOnP Piece.isBlank).filter fun chunk => !chunk.isEmpty).filter fun chunk =>
        !(chunk.filter fun p => !p.isContinuation).isEmpty) := by
    rw [List.filter_filter]
    refine List.filter_congr fun chunk _ => ?_
    cases chunk <;> simp
  rw [hwords, cutWords, htwo]
  constructor
  · intro h hlone
    obtain ⟨chunk, hmem, hne, hall⟩ := hlone
    have hlen := congrArg List.length h
    rw [List.length_map, List.length_map] at hlen
    have hkeep := List.length_filter_eq_length_iff.mp hlen.symm chunk
      (List.mem_filter.mpr ⟨hmem, by simpa using hne⟩)
    have hnil : (chunk.filter fun p => !p.isContinuation) = [] := by
      rw [List.filter_eq_nil_iff]
      intro p hp
      simp [hall p hp]
    rw [hnil] at hkeep
    cases hkeep
  · intro hlone
    refine congrArg _ (List.filter_eq_self.mpr fun chunk hchunk => ?_).symm
    obtain ⟨hmem, hne⟩ := List.mem_filter.mp hchunk
    by_contra hempty
    refine hlone ⟨chunk, hmem, by simpa using hne, fun p hp => ?_⟩
    have hnil : (chunk.filter fun p => !p.isContinuation) = [] := by simpa using hempty
    simpa using List.filter_eq_nil_iff.mp hnil p hp

end ShellWords
