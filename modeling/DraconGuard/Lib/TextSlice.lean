import Mathlib.Data.List.Basic

/-!
# Slicing text by bytes

A text is its characters; an index is a number of UTF-8 bytes. `sliceFrom` and `sliceTo` are
`none` where the index is past the end or inside a character, which is where indexing such a
text aborts. An index that `find` or `rfind` returned is always good (`sliceTo_size`,
`sliceFrom_size`); one that is computed from it need not be (`sliceFrom_size_add`).
-/

namespace TextSlice

/-- The bytes a text takes. -/
def size : List Char → Nat
  | [] => 0
  | c :: cs => c.utf8Size + size cs

/-- `&text[index..]`. -/
def sliceFrom (index : Nat) : List Char → Option (List Char)
  | [] => if index = 0 then some [] else none
  | c :: cs =>
    if index = 0 then some (c :: cs)
    else if index < c.utf8Size then none
    else sliceFrom (index - c.utf8Size) cs

/-- `&text[..index]`. -/
def sliceTo (index : Nat) : List Char → Option (List Char)
  | [] => if index = 0 then some [] else none
  | c :: cs =>
    if index = 0 then some []
    else if index < c.utf8Size then none
    else (sliceTo (index - c.utf8Size) cs).map (c :: ·)

/-- `&text[first..last]`. -/
def slice (first last : Nat) (text : List Char) : Option (List Char) :=
  (sliceTo last text).bind (sliceFrom first)

/-- Where `c` comes first. -/
def find (c : Char) : List Char → Option Nat
  | [] => none
  | d :: cs => if d = c then some 0 else (find c cs).map (· + d.utf8Size)

/-- Where `c` comes last. -/
def rfind (c : Char) : List Char → Option Nat
  | [] => none
  | d :: cs =>
    match rfind c cs with
    | some i => some (i + d.utf8Size)
    | none => if d = c then some 0 else none

variable {c : Char} {pre post text : List Char}

@[simp] theorem size_nil : size [] = 0 := rfl

@[simp] theorem size_cons : size (c :: text) = c.utf8Size + size text := rfl

@[simp] theorem size_append : size (pre ++ post) = size pre + size post := by
  induction pre with
  | nil => rw [List.nil_append, size_nil, Nat.zero_add]
  | cons d pre ih => rw [List.cons_append, size_cons, size_cons, ih, Nat.add_assoc]

/-! ## Finding -/

theorem find_eq_none (h : c ∉ text) : find c text = none := by
  induction text with
  | nil => rfl
  | cons d text ih =>
    rw [List.mem_cons, not_or] at h
    rw [find, if_neg (Ne.symm h.1), ih h.2]
    rfl

theorem find_append_cons (h : c ∉ pre) : find c (pre ++ c :: post) = some (size pre) := by
  induction pre with
  | nil => rw [List.nil_append, find, if_pos rfl, size_nil]
  | cons d pre ih =>
    rw [List.mem_cons, not_or] at h
    rw [List.cons_append, find, if_neg (Ne.symm h.1), ih h.2, Option.map_some, size_cons,
      Nat.add_comm]

theorem rfind_eq_none (h : c ∉ text) : rfind c text = none := by
  induction text with
  | nil => rfl
  | cons d text ih =>
    rw [List.mem_cons, not_or] at h
    rw [rfind, ih h.2]
    exact if_neg (Ne.symm h.1)

theorem rfind_append_cons (h : c ∉ post) : rfind c (pre ++ c :: post) = some (size pre) := by
  induction pre with
  | nil =>
    rw [List.nil_append, rfind, rfind_eq_none h]
    exact if_pos rfl
  | cons d pre ih => rw [List.cons_append, rfind, ih, size_cons, Nat.add_comm]

/-! ## Slicing at a place that was found -/

theorem sliceFrom_size_add (pre post : List Char) (k : Nat) :
    sliceFrom (size pre + k) (pre ++ post) = sliceFrom k post := by
  induction pre with
  | nil => rw [size_nil, Nat.zero_add, List.nil_append]
  | cons d pre ih =>
    have hd := d.utf8Size_pos
    rw [List.cons_append, sliceFrom, size_cons, if_neg (by omega), if_neg (by omega),
      show d.utf8Size + size pre + k - d.utf8Size = size pre + k by omega, ih]

@[simp] theorem sliceFrom_zero : sliceFrom 0 text = some text := by
  cases text <;> rfl

theorem sliceFrom_size (pre post : List Char) :
    sliceFrom (size pre) (pre ++ post) = some post := by
  have h := sliceFrom_size_add pre post 0
  rwa [Nat.add_zero, sliceFrom_zero] at h

theorem sliceTo_size : sliceTo (size pre) (pre ++ post) = some pre := by
  induction pre with
  | nil => cases post <;> rfl
  | cons d pre ih =>
    have hd := d.utf8Size_pos
    rw [List.cons_append, sliceTo, size_cons, if_neg (by omega), if_neg (by omega),
      Nat.add_sub_cancel_left, ih]
    rfl

/-- Between two places that were found. -/
theorem slice_size (c : Char) (pre mid post : List Char) :
    slice (size (pre ++ [c])) (size (pre ++ c :: mid)) (pre ++ c :: mid ++ post) = some mid := by
  rw [slice, sliceTo_size, Option.bind_some]
  have h := sliceFrom_size (pre ++ [c]) mid
  rwa [List.append_assoc, List.singleton_append] at h

/-- One byte into a text: over a character of one byte. -/
theorem sliceFrom_one_isSome :
    (sliceFrom 1 text).isSome = true ↔ ∃ d rest, text = d :: rest ∧ d.utf8Size = 1 := by
  cases text with
  | nil => simp [sliceFrom]
  | cons d rest =>
    have hd := d.utf8Size_pos
    by_cases hone : d.utf8Size = 1
    · simp [sliceFrom, hone]
    · have hlong : 1 < d.utf8Size := by omega
      simp [sliceFrom, hlong, hone]

end TextSlice
