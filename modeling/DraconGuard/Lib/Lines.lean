import Mathlib.Data.List.Basic

/-!
# Lines that are appended to

A string over any alphabet is cut at a separator: `lines` are the stretches between separators,
and what stands after the last one when that is not empty. A string is at the start of a line
(`AtStart`) when it is empty or ends with the separator. `Carries rs xs`: the records `rs` were
each written at the start of a line, in their order, and closed, with anything between them. Then
they are lines of `xs`, in their order (`Carries.sublist_lines`), whatever is appended later.

`wholeLines` are the lines with the separators that close them, so that they make up the string
(`flatten_wholeLines`). All are closed but the last, which need not be
(`wholeLines_of_atStart`, `wholeLines_append_open`).
-/

namespace Lines

variable {α : Type*} (sep : α)

def AtStart (xs : List α) : Prop := xs = [] ∨ xs.getLast? = some sep

instance [DecidableEq α] (xs : List α) : Decidable (AtStart sep xs) :=
  inferInstanceAs (Decidable (_ ∨ _))

/-- Records written each at the start of a line and closed, in their order. -/
inductive Carries : List (List α) → List α → Prop
  | nil (xs : List α) : Carries [] xs
  | cons {pre record post : List α} {records : List (List α)} (hstart : AtStart sep pre)
      (hrecord : sep ∉ record) (hrest : Carries records post) :
      Carries (record :: records) (pre ++ (record ++ sep :: post))

variable {sep} {xs ys record : List α} {records : List (List α)}

theorem AtStart.of_append (h : AtStart sep (xs ++ ys)) : AtStart sep ys := by
  by_cases hys : ys = []
  · exact Or.inl hys
  · rcases h with h | h
    · exact Or.inl (List.append_eq_nil_iff.mp h).2
    · rw [List.getLast?_append_of_ne_nil xs hys] at h
      exact Or.inr h

/-- What is appended later takes nothing away. -/
theorem Carries.append (h : Carries sep records xs) (ys : List α) :
    Carries sep records (xs ++ ys) := by
  induction h with
  | nil xs => exact .nil _
  | cons hstart hrecord _ ih =>
    rw [List.append_assoc, List.append_assoc, List.cons_append]
    exact .cons hstart hrecord ih

/-- **One more record**, at the start of a line. -/
theorem Carries.concat (h : Carries sep records xs) (hstart : AtStart sep xs)
    (hrecord : sep ∉ record) : Carries sep (records ++ [record]) (xs ++ (record ++ [sep])) := by
  induction h with
  | nil xs => exact .cons hstart hrecord (.nil [])
  | @cons _ _ post _ hfirst hold _ ih =>
    have hclosed : AtStart sep ([sep] ++ post) := hstart.of_append.of_append
    rw [List.append_assoc, List.append_assoc, List.cons_append, List.cons_append]
    exact .cons hfirst hold (ih hclosed.of_append)

/-! ## Reading -/

section Reading

variable [DecidableEq α]

/-- The lines of a string whose first one has begun with `begun`. -/
def linesFrom (sep : α) (begun : List α) : List α → List (List α)
  | [] => if begun = [] then [] else [begun]
  | x :: xs => if x = sep then begun :: linesFrom sep [] xs else linesFrom sep (begun ++ [x]) xs

def lines (sep : α) (xs : List α) : List (List α) := linesFrom sep [] xs

theorem linesFrom_append_sep (begun : List α) :
    linesFrom sep begun (xs ++ sep :: ys) = linesFrom sep begun (xs ++ [sep]) ++ lines sep ys := by
  induction xs generalizing begun with
  | nil => simp [linesFrom, lines]
  | cons x xs ih =>
    simp only [List.cons_append, linesFrom]
    split
    · rw [ih, List.cons_append]
    · exact ih _

/-- **Lines are read one string after the other** where the second begins a line. -/
theorem lines_append (h : AtStart sep xs) : lines sep (xs ++ ys) = lines sep xs ++ lines sep ys := by
  rcases h with rfl | h
  · simp [lines, linesFrom]
  · obtain ⟨front, rfl⟩ := List.getLast?_eq_some_iff.mp h
    rw [List.append_assoc, List.singleton_append, lines, linesFrom_append_sep]
    rfl

theorem linesFrom_record (begun : List α) (h : sep ∉ record) :
    linesFrom sep begun (record ++ sep :: ys) = (begun ++ record) :: lines sep ys := by
  induction record generalizing begun with
  | nil => simp [linesFrom, lines]
  | cons x record ih =>
    rw [List.mem_cons, not_or] at h
    rw [List.cons_append, linesFrom, if_neg (Ne.symm h.1), ih _ h.2, List.append_assoc,
      List.singleton_append]

/-- A record and its separator are one line. -/
theorem lines_record (h : sep ∉ record) :
    lines sep (record ++ sep :: ys) = record :: lines sep ys := linesFrom_record [] h

/-- **What was written at the start of a line is a line**, each record in its place. -/
theorem Carries.sublist_lines (h : Carries sep records xs) : List.Sublist records (lines sep xs) := by
  induction h with
  | nil xs => exact List.nil_sublist _
  | cons hstart hrecord _ ih =>
    rw [lines_append hstart, lines_record hrecord]
    exact (ih.cons_cons _).trans (List.sublist_append_right _ _)

end Reading

/-! ## Whole lines -/

/-- Lines written out, each one closed. -/
def unlines (sep : α) (segments : List (List α)) : List α :=
  segments.flatMap (· ++ [sep])

theorem unlines_eq_flatten (sep : α) (segments : List (List α)) :
    unlines sep segments = (segments.map (· ++ [sep])).flatten := List.flatMap_def

section Whole

variable [DecidableEq α]

/-- The lines of a string whose first one has begun with `begun`, each with its separator. -/
def wholeLinesFrom (sep : α) (begun : List α) : List α → List (List α)
  | [] => if begun = [] then [] else [begun]
  | x :: xs =>
    if x = sep then (begun ++ [x]) :: wholeLinesFrom sep [] xs
    else wholeLinesFrom sep (begun ++ [x]) xs

def wholeLines (sep : α) (xs : List α) : List (List α) := wholeLinesFrom sep [] xs

theorem flatten_wholeLinesFrom (begun : List α) :
    (wholeLinesFrom sep begun xs).flatten = begun ++ xs := by
  induction xs generalizing begun with
  | nil =>
    by_cases hbegun : begun = []
    · simp [wholeLinesFrom, hbegun]
    · simp [wholeLinesFrom, hbegun]
  | cons x xs ih =>
    rw [wholeLinesFrom]
    split
    · rw [List.flatten_cons, ih, List.nil_append, List.append_assoc, List.singleton_append]
    · rw [ih, List.append_assoc, List.singleton_append]

/-- **Whole lines lose nothing.** -/
@[simp] theorem flatten_wholeLines (sep : α) (xs : List α) : (wholeLines sep xs).flatten = xs :=
  flatten_wholeLinesFrom []

theorem wholeLinesFrom_append_sep (begun : List α) :
    wholeLinesFrom sep begun (xs ++ sep :: ys) =
      wholeLinesFrom sep begun (xs ++ [sep]) ++ wholeLines sep ys := by
  induction xs generalizing begun with
  | nil => simp [wholeLinesFrom, wholeLines]
  | cons x xs ih =>
    simp only [List.cons_append, wholeLinesFrom]
    split
    · rw [ih, List.cons_append]
    · exact ih _

theorem wholeLines_append (h : AtStart sep xs) :
    wholeLines sep (xs ++ ys) = wholeLines sep xs ++ wholeLines sep ys := by
  rcases h with rfl | h
  · simp [wholeLines, wholeLinesFrom]
  · obtain ⟨front, rfl⟩ := List.getLast?_eq_some_iff.mp h
    rw [List.append_assoc, List.singleton_append, wholeLines, wholeLinesFrom_append_sep]
    rfl

/-- What is left open at the end is one line. -/
theorem linesFrom_open (begun : List α) (h : sep ∉ record) (hne : begun ++ record ≠ []) :
    linesFrom sep begun record = [begun ++ record] ∧
      wholeLinesFrom sep begun record = [begun ++ record] := by
  induction record generalizing begun with
  | nil =>
    rw [List.append_nil] at hne ⊢
    simp [linesFrom, wholeLinesFrom, hne]
  | cons x record ih =>
    rw [List.mem_cons, not_or] at h
    have hrest := ih (begun ++ [x]) h.2 (by simp)
    rw [List.append_assoc, List.singleton_append] at hrest
    simp only [linesFrom, wholeLinesFrom, if_neg (Ne.symm h.1)]
    exact hrest

/-- Whole lines are the lines closed, where the string ends with the separator. -/
theorem wholeLinesFrom_of_atStart (begun : List α) (h : xs.getLast? = some sep) :
    wholeLinesFrom sep begun xs = (linesFrom sep begun xs).map (· ++ [sep]) := by
  induction xs generalizing begun with
  | nil => simp at h
  | cons x xs ih =>
    by_cases hxs : xs = []
    · obtain rfl : x = sep := by simpa [hxs] using h
      simp [hxs, wholeLinesFrom, linesFrom]
    · rw [List.getLast?_cons_of_ne_nil hxs] at h
      rw [wholeLinesFrom, linesFrom]
      split
      · next heq => rw [List.map_cons, ih [] h, heq]
      · exact ih _ h

theorem wholeLines_of_atStart (h : AtStart sep xs) :
    wholeLines sep xs = (lines sep xs).map (· ++ [sep]) := by
  rcases h with rfl | h
  · rfl
  · exact wholeLinesFrom_of_atStart [] h

theorem lines_append_open (h : AtStart sep xs) (hrecord : sep ∉ record) (hne : record ≠ []) :
    lines sep (xs ++ record) = lines sep xs ++ [record] := by
  rw [lines_append h]
  exact congrArg _ (linesFrom_open [] hrecord hne).1

theorem wholeLines_append_open (h : AtStart sep xs) (hrecord : sep ∉ record)
    (hne : record ≠ []) :
    wholeLines sep (xs ++ record) = (lines sep xs).map (· ++ [sep]) ++ [record] := by
  rw [wholeLines_append h, wholeLines_of_atStart h]
  exact congrArg _ (linesFrom_open [] hrecord hne).2

/-- Closed lines written out again are the string. -/
theorem unlines_lines (h : AtStart sep xs) : unlines sep (lines sep xs) = xs := by
  rw [unlines_eq_flatten, ← wholeLines_of_atStart h, flatten_wholeLines]

variable (sep) in
/-- A string is closed lines, and what is left open. -/
theorem exists_open (xs : List α) :
    ∃ front last, xs = front ++ last ∧ AtStart sep front ∧ sep ∉ last := by
  induction xs with
  | nil => exact ⟨[], [], rfl, Or.inl rfl, List.not_mem_nil⟩
  | cons x xs ih =>
    obtain ⟨front, last, rfl, hfront, hlast⟩ := ih
    by_cases hnil : front = []
    · subst hnil
      by_cases hx : x = sep
      · exact ⟨[x], last, rfl, Or.inr (by simp [hx]), hlast⟩
      · refine ⟨[], x :: last, rfl, Or.inl rfl, ?_⟩
        rw [List.mem_cons, not_or]
        exact ⟨Ne.symm hx, hlast⟩
    · have hfront' := hfront.resolve_left hnil
      refine ⟨x :: front, last, rfl, Or.inr ?_, hlast⟩
      rw [List.getLast?_cons_of_ne_nil hnil, hfront']

theorem length_wholeLines (sep : α) (xs : List α) :
    (wholeLines sep xs).length = (lines sep xs).length := by
  obtain ⟨front, last, rfl, hfront, hlast⟩ := exists_open sep xs
  by_cases hopen : last = []
  · subst hopen
    rw [List.append_nil, wholeLines_of_atStart hfront, List.length_map]
  · rw [wholeLines_append_open hfront hlast hopen, lines_append_open hfront hlast hopen,
      List.length_append, List.length_append, List.length_map]

/-- All lines but the last are closed. -/
theorem take_wholeLines {m : Nat} (hm : m < (lines sep xs).length) :
    (wholeLines sep xs).take m = ((lines sep xs).take m).map (· ++ [sep]) := by
  obtain ⟨front, last, rfl, hfront, hlast⟩ := exists_open sep xs
  by_cases hopen : last = []
  · subst hopen
    rw [List.append_nil, wholeLines_of_atStart hfront, List.map_take]
  · rw [lines_append_open hfront hlast hopen] at hm ⊢
    rw [List.length_append, List.length_singleton] at hm
    have hle : m ≤ (lines sep front).length := by omega
    rw [wholeLines_append_open hfront hlast hopen,
      List.take_append_of_le_length (by rw [List.length_map]; exact hle),
      List.take_append_of_le_length hle, List.map_take]

/-- Closing every line adds at most a separator. -/
theorem length_le_unlines (sep : α) (xs : List α) :
    xs.length ≤ (unlines sep (lines sep xs)).length := by
  obtain ⟨front, last, rfl, hfront, hlast⟩ := exists_open sep xs
  by_cases hopen : last = []
  · subst hopen
    have hsame : unlines sep (lines sep (front ++ [])) = front ++ [] := by
      rw [List.append_nil, unlines_lines hfront]
    exact Nat.le_of_eq (congrArg List.length hsame.symm)
  · have hfront' := unlines_lines hfront
    rw [lines_append_open hfront hlast hopen]
    unfold unlines at hfront' ⊢
    rw [List.flatMap_append, hfront']
    simp

variable (sep) in
/-- A string that is not empty ends with a closed line or with an open one. -/
theorem exists_last_line (hxs : xs ≠ []) :
    ∃ front line, AtStart sep front ∧ sep ∉ line ∧
      (xs = front ++ (line ++ [sep]) ∨ xs = front ++ line ∧ line ≠ []) := by
  obtain ⟨front, last, rfl, hfront, hlast⟩ := exists_open sep xs
  by_cases hopen : last = []
  · subst hopen
    rw [List.append_nil] at hxs
    obtain ⟨closed, rfl⟩ := List.getLast?_eq_some_iff.mp (hfront.resolve_left hxs)
    obtain ⟨front', line, rfl, hfront', hline⟩ := exists_open sep closed
    exact ⟨front', line, hfront', hline, Or.inl (by simp)⟩
  · exact ⟨front, last, hfront, hlast, Or.inr ⟨rfl, hopen⟩⟩

end Whole

end Lines
