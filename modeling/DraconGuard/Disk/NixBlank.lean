import Mathlib.Data.List.Basic
import DraconGuard.Disk.NixReadable

/-!
# The blanked text

`code_only` blanks what the reading of the text marks as comment or string, of the same length in
bytes unless a block comment is left open (`codeOnly_agrees`, `codeOnly_size_iff`).
-/

namespace DraconGuard

open NixText TextSlice

theorem size_blankChar (c : Char) : size (blankChar c) = c.utf8Size := by
  unfold blankChar
  split
  · next hline => rw [hline]; rfl
  · generalize c.utf8Size = n
    induction n with
    | zero => rfl
    | succ n ih =>
      rw [List.replicate_succ, size_cons, ih, Nat.add_comm]
      rfl

theorem size_view (m : Mark) : size (view m) = m.2.utf8Size := by
  unfold view
  split
  · simp
  · simp
  · exact size_blankChar _

theorem size_codeView (ms : List Mark) : size (codeView ms) = size (chars ms) := by
  induction ms with
  | nil => rfl
  | cons m ms ih =>
    show size (view m ++ codeView ms) = size (m.2 :: chars ms)
    rw [size_append, size_view, size_cons, ih]

/-- Only a last character can make a difference to what follows it. -/
theorem ended_cons {s : Reading} {c : Char} {rest : List Char}
    (h : rest ≠ [] ∨ s.next c rest ≠ .block ∨ c.utf8Size ≠ 2) :
    Ended s (c :: rest) ↔ Ended (s.next c rest) rest := by
  unfold Ended
  rw [readingAfter]
  cases rest with
  | nil =>
    have hlast := h.resolve_left (not_not.mpr rfl)
    simp only [readingAfter, List.getLast?_singleton, Option.map_some, Option.some.injEq,
      List.getLast?_nil, Option.map_none, reduceCtorEq]
    exact ⟨fun himp hblock => (hlast.resolve_left (not_not.mpr hblock)) (himp hblock),
      fun himp hblock => (himp hblock).elim⟩
  | cons d rest => rw [List.getLast?_cons_cons]

/-- A blanked text against the marks of the text: they agree as long as a last block comment is
blanked right, and a blanked text of another length shows that it is not. -/
structure Agrees (code : List Char) (s : Reading) (text : List Char) : Prop where
  view : Ended s text → code = codeView (marks s text)
  size : size code = size text → Ended s text

section Step

variable {s' : Reading} {c : Char} {code rest : List Char}

theorem Agrees.cons (s : Reading) (p : Place) (h : Agrees code s' rest)
    (hplace : s.place c rest = p) (hnext : s.next c rest = s')
    (hlast : rest ≠ [] ∨ s' ≠ .block ∨ c.utf8Size ≠ 2) :
    Agrees (DraconGuard.view (p, c) ++ code) s (c :: rest) := by
  subst hplace hnext
  constructor
  · intro hended
    rw [h.view ((ended_cons hlast).mp hended)]
    rfl
  · intro hsize
    rw [size_append, size_view, size_cons] at hsize
    exact (ended_cons hlast).mpr (h.size (Nat.add_left_cancel hsize))

/-- One byte more. -/
theorem Agrees.byte (s : Reading) (c : Char) (p : Place) (h : Agrees code s' rest)
    (hplace : s.place c rest = p) (hnext : s.next c rest = s') (hc : c.utf8Size = 1) :
    Agrees (DraconGuard.view (p, c) ++ code) s (c :: rest) :=
  h.cons s p hplace hnext (Or.inr (Or.inr (by rw [hc]; decide)))

theorem agrees_nil {s : Reading} (h : s ≠ .block) : Agrees [] s [] where
  view _ := rfl
  size _ hblock := absurd hblock h

end Step

theorem not_pair {c d e : Char} {rest : List Char} (h : ∀ tail, c = d → rest = e :: tail → False) :
    ¬ (decide (c = d) && decide (rest.head? = some e)) = true := by
  rw [Bool.and_eq_true, decide_eq_true_eq, decide_eq_true_eq, List.head?_eq_some_iff]
  exact fun hpair => hpair.2.elim fun tail htail => h tail hpair.1 htail

/-- **`code_only` keeps the length exactly where it blanks what the reading marks.** -/
theorem codeOnly_agrees (config : List Char) : Agrees (codeOnly config) .bare config := by
  unfold codeOnly
  induction config using codeBare.induct
    (motive_2 := fun text => Agrees (codeIndented text) .indented text)
    (motive_3 := fun text => Agrees (codeString text) .string text)
    (motive_4 := fun text => Agrees (codeBlock text) .block text)
    (motive_5 := fun text => Agrees (codeLine text) .line text) with
  | case1 | case7 | case12 | case20 => exact agrees_nil (by decide)
  | case2 rest ih => exact ih.byte .bare '#' .comment rfl rfl rfl
  | case3 rest ih =>
    exact (ih.byte .blockOpen '*' .block rfl rfl rfl).byte .bare '/' .block rfl rfl rfl
  | case4 rest ih => exact ih.byte .bare '"' .quote rfl rfl rfl
  | case5 rest ih =>
    exact (ih.byte .fenceOpen '\'' .fence rfl rfl rfl).byte .bare '\'' .fence rfl rfl rfl
  | case6 c rest hcomment hopen hquote hfence ih =>
    have hplace : Reading.bare.place c rest = .bare := by
      rw [Reading.place, if_neg hcomment, if_neg (not_pair hopen), if_neg hquote,
        if_neg (not_pair hfence)]
    have hnext : Reading.bare.next c rest = .bare := by
      rw [Reading.next, if_neg hcomment, if_neg (not_pair hopen), if_neg hquote,
        if_neg (not_pair hfence)]
    have hstep := ih.cons .bare .bare hplace hnext (Or.inr (Or.inl (by decide)))
    rw [codeBare]
    · exact hstep
    all_goals assumption
  | case8 c rest hescape ih =>
    rw [codeIndented, if_pos hescape]
    have hstands : standsBehindFence c = true := hescape
    have hc : c = '\'' ∨ c = '$' ∨ c = '\\' := by
      simpa [standsBehindFence, or_assoc] using hstands
    have hblank : blankChar c = [' '] ∧ c.utf8Size = 1 := by
      rcases hc with rfl | rfl | rfl <;> exact ⟨rfl, rfl⟩
    have hlast : Agrees (' ' :: codeIndented rest) .indentedEscaped (c :: rest) := by
      have h := ih.byte .indentedEscaped c .indented rfl rfl hblank.2
      rwa [view, hblank.1] at h
    exact (hlast.byte .indentedEscape '\'' .indented rfl rfl rfl).byte .indented '\'' .indented
      (by simp [Reading.place, hstands]) (by simp [Reading.next, hstands]) rfl
  | case9 c rest hescape ih =>
    rw [codeIndented, if_neg hescape]
    have hstands : standsBehindFence c = false := Bool.eq_false_iff.mpr hescape
    exact (ih.byte .fenceClose '\'' .fence rfl rfl rfl).byte .indented '\'' .fence
      (by simp [Reading.place, hstands]) (by simp [Reading.next, hstands]) rfl
  | case10 =>
    have hlast := (agrees_nil (s := .bare) (by decide)).byte .fenceClose '\'' .fence rfl rfl rfl
    exact hlast.byte .indented '\'' .fence rfl rfl rfl
  | case11 c rest hlong hend ih =>
    have hnone := @not_pair c '\'' '\'' rest fun tail hc htail => by
      cases tail with
      | nil => exact hend hc htail
      | cons d tail => exact hlong d tail hc htail
    have hplace : Reading.indented.place c rest = .indented := by
      rw [Reading.place, Bool.eq_false_iff.mpr hnone, Bool.false_and]
      rfl
    have hstep := ih.cons .indented .indented hplace (by rw [Reading.next, if_neg hnone])
      (Or.inr (Or.inl (by decide)))
    rw [codeIndented]
    · exact hstep
    all_goals assumption
  | case13 rest ih => exact ih.byte .string '"' .quote rfl rfl rfl
  | case14 c rest ih =>
    rw [codeString]
    have hlast := ih.cons (c := c) .escape .string rfl rfl (Or.inr (Or.inl (by decide)))
    exact hlast.byte .string '\\' .string rfl rfl rfl
  | case15 c rest hquote hescape ih =>
    have hplace : Reading.string.place c rest = .string := if_neg hquote
    have hstep : Agrees (view (.string, c) ++ codeString rest) .string (c :: rest) := by
      by_cases hback : c = '\\'
      · cases rest with
        | nil =>
          have hnext : Reading.string.next c [] = .escape := by
            rw [Reading.next, if_neg hquote, if_pos hback]
          have hnil : Agrees (codeString []) .escape [] := agrees_nil (by decide)
          exact hnil.cons .string .string hplace hnext (Or.inr (Or.inl (by decide)))
        | cons d rest => exact (hescape d rest hback rfl).elim
      · have hnext : Reading.string.next c rest = .string := by
          rw [Reading.next, if_neg hquote, if_neg hback]
        exact ih.cons .string .string hplace hnext (Or.inr (Or.inl (by decide)))
    rw [codeString]
    · exact hstep
    all_goals assumption
  | case16 =>
    constructor
    · exact fun hended => absurd (hended rfl) (by decide)
    · exact fun hsize => absurd hsize (by decide)
  | case17 rest ih =>
    exact (ih.byte .blockClose '/' .comment rfl rfl rfl).byte .block '*' .comment rfl rfl rfl
  | case18 c =>
    have hmarks : marks .block [c] = [(.block, c)] := by simp [marks, Reading.place]
    have hafter : readingAfter .block [c] = .block := by simp [readingAfter, Reading.next]
    rw [codeBlock]
    constructor
    · intro hended
      have hc : c.utf8Size = 2 := by simpa using hended hafter
      have hline : c ≠ '\n' := fun h => by rw [h] at hc; exact absurd hc (by decide)
      rw [hmarks]
      simp [codeView, view, blankChar, hline, hc]
    · intro hsize _
      have hc : 2 = c.utf8Size := hsize
      rw [List.getLast?_singleton, Option.map_some, hc]
  | case19 c d rest hclose ih =>
    have hnone := @not_pair c '*' '/' (d :: rest) fun tail hc htail =>
      hclose hc (List.cons.inj htail).1
    have hstep := ih.cons .block .block (by rw [Reading.place, if_neg hnone])
      (by rw [Reading.next, if_neg hnone]) (Or.inl (List.cons_ne_nil d rest))
    rw [codeBlock]
    · exact hstep
    all_goals assumption
  | case21 rest ih => exact ih.byte .line '\n' .bare rfl rfl rfl
  | case22 c rest hline ih =>
    rw [codeLine, if_neg hline]
    exact ih.cons .line .comment (by simp [Reading.place, hline]) (by simp [Reading.next, hline])
      (Or.inr (Or.inl (by decide)))


theorem codeOnly_size_iff (config : List Char) :
    size (codeOnly config) = size config ↔ Ended .bare config := by
  refine ⟨(codeOnly_agrees config).size, fun hended => ?_⟩
  rw [(codeOnly_agrees config).view hended, size_codeView, chars_marks]

/-- The last character, or the one before. -/
theorem getLast?_or_cons (c : Char) (xs : List Char) (b : Option Char) :
    (c :: xs).getLast?.or b = xs.getLast?.or (some c) := by
  cases hlast : xs.getLast? <;> simp [List.getLast?_cons, hlast]

end DraconGuard
