import Mathlib.Data.List.Basic

/-!
# Byte strings read as UTF-8

A byte string is a list of characters, one for each byte. `isUtf8` runs over it with what the
character begun still owes; `lossy` is the same run with a replacement character in place of
what does not read: one for the longest start of a character, or for a byte that starts none.
A character above `0xFF` is no byte and stands for itself.
-/

namespace Utf8

/-- What a character begun still owes: so many bytes, the next of them between two bounds. -/
structure Owed where
  count : Nat
  low : Nat := 0x80
  high : Nat := 0xBF

/-- What the first byte of a longer character owes. -/
def lead (b : Char) : Option Owed :=
  let n := b.toNat
  if 0xC2 ≤ n ∧ n ≤ 0xDF then some { count := 1 }
  else if n = 0xE0 then some { count := 2, low := 0xA0 }
  else if n = 0xED then some { count := 2, high := 0x9F }
  else if 0xE1 ≤ n ∧ n ≤ 0xEF then some { count := 2 }
  else if n = 0xF0 then some { count := 3, low := 0x90 }
  else if 0xF1 ≤ n ∧ n ≤ 0xF3 then some { count := 3 }
  else if n = 0xF4 then some { count := 3, high := 0x8F }
  else none

/-- A character of one byte. -/
def single (b : Char) : Bool := b.toNat ≤ 0x7F || 0xFF < b.toNat

def Owed.takes (o : Owed) (b : Char) : Bool := o.low ≤ b.toNat && b.toNat ≤ o.high

/-- What is owed after another byte, none when that was the last one. -/
def Owed.next (o : Owed) : Option Owed :=
  if o.count ≤ 1 then none else some { count := o.count - 1 }

/-- Does the rest read, with what is owed? -/
def reads : Option Owed → List Char → Bool
  | none, [] => true
  | some _, [] => false
  | none, b :: bs => if single b then reads none bs else (lead b).isSome && reads (lead b) bs
  | some o, b :: bs => o.takes b && reads o.next bs

/-- `str::from_utf8` is `Ok`. -/
def isUtf8 (bs : List Char) : Bool := reads none bs

theorem reads_append {owed : Option Owed} {xs ys : List Char} (hxs : reads owed xs = true)
    (hys : isUtf8 ys = true) : reads owed (xs ++ ys) = true := by
  induction xs generalizing owed with
  | nil =>
    cases owed with
    | none => exact hys
    | some o => simp [reads] at hxs
  | cons b xs ih =>
    cases owed with
    | none =>
      rw [List.cons_append, reads]
      rw [reads] at hxs
      split
      · next hsingle =>
        rw [if_pos hsingle] at hxs
        exact ih hxs
      · next hsingle =>
        rw [if_neg hsingle, Bool.and_eq_true] at hxs
        rw [Bool.and_eq_true]
        exact ⟨hxs.1, ih hxs.2⟩
    | some o =>
      rw [List.cons_append, reads, Bool.and_eq_true]
      rw [reads, Bool.and_eq_true] at hxs
      exact ⟨hxs.1, ih hxs.2⟩

/-- Text and text is text. -/
theorem isUtf8_append {xs ys : List Char} (hxs : isUtf8 xs = true) (hys : isUtf8 ys = true) :
    isUtf8 (xs ++ ys) = true := reads_append hxs hys

theorem isUtf8_of_single {bs : List Char} (h : ∀ b ∈ bs, single b = true) : isUtf8 bs = true := by
  induction bs with
  | nil => rfl
  | cons b bs ih =>
    rw [isUtf8, reads, if_pos (h b List.mem_cons_self)]
    exact ih fun c hc => h c (List.mem_cons_of_mem b hc)

/-- U+FFFD in its three bytes. -/
def replacement : List Char := ['\xEF', '\xBF', '\xBD']

/-- Where a reader stands: the bytes of the character begun, and what it owes. -/
structure Reader where
  begun : List Char := []
  owed : Option Owed := none

/-- A byte between two characters, with what can be written out. -/
def start (b : Char) : List Char × Reader :=
  if single b then ([b], {})
  else match lead b with
    | some owed => ([], { begun := [b], owed := some owed })
    | none => (replacement, {})

def step (r : Reader) (b : Char) : List Char × Reader :=
  match r.owed with
  | none => start b
  | some owed =>
    if owed.takes b then
      match owed.next with
      | some rest => ([], { begun := r.begun ++ [b], owed := some rest })
      | none => (r.begun ++ [b], {})
    -- the byte that does not fit starts anew
    else (replacement ++ (start b).1, (start b).2)

def repair (r : Reader) : List Char → List Char
  | [] => if r.owed.isSome then replacement else []
  | b :: bs => (step r b).1 ++ repair (step r b).2 bs

/-- `String::from_utf8_lossy`. -/
def lossy (bs : List Char) : List Char := repair {} bs

/-- Nothing is begun between two characters. -/
def Reader.Sound (r : Reader) : Prop := r.owed = none → r.begun = []

/-- A byte that reads is kept, in what is written or in what is begun. -/
theorem step_reads {r : Reader} {b : Char} {bs : List Char} (hr : r.Sound)
    (h : reads r.owed (b :: bs) = true) :
    reads (step r b).2.owed bs = true ∧ (step r b).2.Sound ∧
      (step r b).1 ++ (step r b).2.begun = r.begun ++ [b] := by
  obtain ⟨begun, owed⟩ := r
  cases owed with
  | none =>
    obtain rfl : begun = [] := hr rfl
    unfold reads at h
    unfold step start
    by_cases hsingle : single b = true
    · rw [if_pos hsingle] at h ⊢
      exact ⟨h, fun _ => rfl, rfl⟩
    · rw [if_neg hsingle, Bool.and_eq_true] at h
      rw [if_neg hsingle]
      cases hlead : lead b with
      | none => simp [hlead] at h
      | some owed =>
        rw [hlead] at h
        exact ⟨h.2, fun hnone => by simp at hnone, rfl⟩
  | some owed =>
    unfold reads at h
    rw [Bool.and_eq_true] at h
    unfold step
    dsimp only
    rw [if_pos h.1]
    cases hnext : owed.next with
    | none =>
      rw [hnext] at h
      exact ⟨h.2, fun _ => rfl, List.append_nil _⟩
    | some rest =>
      rw [hnext] at h
      exact ⟨h.2, fun hnone => by simp at hnone, rfl⟩

theorem repair_eq_self {bs : List Char} {r : Reader} (hr : r.Sound)
    (h : reads r.owed bs = true) : repair r bs = r.begun ++ bs := by
  induction bs generalizing r with
  | nil =>
    obtain ⟨begun, owed⟩ := r
    cases owed with
    | none => rw [hr rfl]; rfl
    | some owed => simp [reads] at h
  | cons b bs ih =>
    obtain ⟨hrest, hsound, hkept⟩ := step_reads hr h
    rw [repair, ih hsound hrest, ← List.append_assoc, hkept, List.append_assoc]
    rfl

/-- **What reads is left as it is.** -/
theorem lossy_eq_self {bs : List Char} (h : isUtf8 bs = true) : lossy bs = bs :=
  repair_eq_self (fun _ => rfl) h

theorem mem_start {b c : Char} (h : c ∈ (start b).1 ++ (start b).2.begun) :
    c = b ∨ c ∈ replacement := by
  unfold start at h
  split at h
  · exact Or.inl (by simpa using h)
  · split at h
    · exact Or.inl (by simpa using h)
    · exact Or.inr (by simpa using h)

/-- No byte comes from nowhere. -/
theorem mem_step {r : Reader} {b c : Char} (h : c ∈ (step r b).1 ++ (step r b).2.begun) :
    c ∈ r.begun ∨ c = b ∨ c ∈ replacement := by
  unfold step at h
  split at h
  · exact Or.inr (mem_start h)
  · split at h
    · have hkept : c ∈ r.begun ∨ c = b := by
        split at h <;> simpa using h
      rcases hkept with hin | hin
      · exact Or.inl hin
      · exact Or.inr (Or.inl hin)
    · rw [List.append_assoc] at h
      rcases List.mem_append.mp h with hin | hin
      · exact Or.inr (Or.inr hin)
      · exact Or.inr (mem_start hin)

theorem mem_repair {bs : List Char} {r : Reader} {c : Char} (h : c ∈ repair r bs) :
    c ∈ r.begun ∨ c ∈ bs ∨ c ∈ replacement := by
  induction bs generalizing r with
  | nil =>
    unfold repair at h
    split at h
    · exact Or.inr (Or.inr h)
    · simp at h
  | cons b bs ih =>
    rw [repair, List.mem_append] at h
    have hstep : c ∈ (step r b).1 ++ (step r b).2.begun →
        c ∈ r.begun ∨ c ∈ b :: bs ∨ c ∈ replacement := by
      intro hin
      rcases mem_step hin with hbegun | rfl | hnew
      · exact Or.inl hbegun
      · exact Or.inr (Or.inl List.mem_cons_self)
      · exact Or.inr (Or.inr hnew)
    rcases h with hin | hin
    · exact hstep (List.mem_append_left _ hin)
    · rcases ih hin with hbegun | hbs | hnew
      · exact hstep (List.mem_append_right _ hbegun)
      · exact Or.inr (Or.inl (List.mem_cons_of_mem b hbs))
      · exact Or.inr (Or.inr hnew)

theorem mem_lossy {c : Char} {bs : List Char} (h : c ∈ lossy bs) : c ∈ bs ∨ c ∈ replacement := by
  simpa using mem_repair h

/-- What is not written out at once is owed. -/
theorem owed_of_step_nil {r : Reader} {b : Char} (h : (step r b).1 = []) :
    (step r b).2.owed.isSome = true := by
  have hstart : ∀ b, (start b).1 = [] → (start b).2.owed.isSome = true := by
    intro b hnil
    unfold start at hnil ⊢
    split at hnil
    · simp at hnil
    · next hsingle =>
      split at hnil
      · simp [hsingle]
      · simp [replacement] at hnil
  unfold step at h ⊢
  split at h
  · exact hstart b h
  · next o ho =>
    split at h
    · next htakes =>
      split at h
      · simp [htakes]
      · simp at h
    · simp [replacement] at h

theorem repair_ne_nil {bs : List Char} {r : Reader} (h : r.owed.isSome = true) :
    repair r bs ≠ [] := by
  induction bs generalizing r with
  | nil => simp [repair, h, replacement]
  | cons b bs ih =>
    intro hnil
    rw [repair, List.append_eq_nil_iff] at hnil
    exact ih (owed_of_step_nil hnil.1) hnil.2

theorem lossy_ne_nil {bs : List Char} (h : bs ≠ []) : lossy bs ≠ [] := by
  cases bs with
  | nil => exact absurd rfl h
  | cons b bs =>
    intro hnil
    rw [lossy, repair, List.append_eq_nil_iff] at hnil
    exact repair_ne_nil (owed_of_step_nil hnil.1) hnil.2

/-- What is begun reads with what it owes. -/
def Reader.Whole (r : Reader) : Prop :=
  ∀ tail, reads r.owed tail = true → isUtf8 (r.begun ++ tail) = true

theorem start_reads (b : Char) : isUtf8 (start b).1 = true ∧ (start b).2.Whole := by
  have hnew : Reader.Whole {} := fun _ => id
  unfold start
  by_cases hsingle : single b = true
  · rw [if_pos hsingle]
    exact ⟨by simp [isUtf8, reads, hsingle], hnew⟩
  · rw [if_neg hsingle]
    cases hlead : lead b with
    | none => exact ⟨(by decide : isUtf8 replacement = true), hnew⟩
    | some owed =>
      refine ⟨rfl, fun tail htail => ?_⟩
      rw [List.singleton_append, isUtf8, reads, if_neg hsingle, hlead]
      exact htail

/-- What is written out reads. -/
theorem step_whole {r : Reader} (b : Char) (hr : r.Whole) :
    isUtf8 (step r b).1 = true ∧ (step r b).2.Whole := by
  obtain ⟨begun, owed⟩ := r
  cases owed with
  | none => exact start_reads b
  | some owed =>
    unfold step
    dsimp only
    by_cases htakes : owed.takes b = true
    · rw [if_pos htakes]
      cases hnext : owed.next with
      | none => exact ⟨hr [b] (by simp [reads, htakes, hnext]), fun _ => id⟩
      | some rest =>
        refine ⟨rfl, fun tail htail => ?_⟩
        rw [List.append_assoc]
        exact hr (b :: tail) (by simp [reads, htakes, hnext, htail])
    · rw [if_neg htakes]
      exact ⟨isUtf8_append (by decide) (start_reads b).1, (start_reads b).2⟩

theorem isUtf8_repair {bs : List Char} {r : Reader} (hr : r.Whole) :
    isUtf8 (repair r bs) = true := by
  induction bs generalizing r with
  | nil =>
    unfold repair
    split <;> decide
  | cons b bs ih =>
    rw [repair]
    exact isUtf8_append (step_whole b hr).1 (ih (step_whole b hr).2)

/-- **What is repaired reads.** -/
theorem isUtf8_lossy (bs : List Char) : isUtf8 (lossy bs) = true := isUtf8_repair fun _ => id

/-- A byte that starts nothing, and a character that is cut off. -/
example : lossy ['a', '\xFF', 'b'] = 'a' :: replacement ++ ['b'] ∧
    lossy ['\xE2', '\x82', 'b'] = replacement ++ ['b'] := by decide

/-- What does not read is replaced somewhere. -/
theorem mem_repair_of_not_reads {r : Reader} {bs : List Char} (h : reads r.owed bs = false) :
    '\xEF' ∈ repair r bs := by
  induction bs generalizing r with
  | nil =>
    obtain ⟨begun, owed⟩ := r
    cases owed with
    | none => simp [reads] at h
    | some o => simp [repair, replacement]
  | cons b bs ih =>
    rw [repair, List.mem_append]
    obtain ⟨begun, owed⟩ := r
    unfold reads at h
    unfold step
    cases owed with
    | none =>
      dsimp only at h ⊢
      unfold start
      split
      · next hsingle =>
        rw [if_pos hsingle] at h
        exact Or.inr (ih h)
      · next hsingle =>
        rw [if_neg hsingle] at h
        cases hlead : lead b with
        | none => simp [replacement]
        | some o =>
          rw [hlead] at h
          exact Or.inr (ih (by simpa using h))
    | some o =>
      dsimp only at h ⊢
      split
      · next htakes =>
        rw [htakes, Bool.true_and] at h
        cases hnext : o.next with
        | none =>
          rw [hnext] at h
          exact Or.inr (ih h)
        | some rest =>
          rw [hnext] at h
          exact Or.inr (ih h)
      · simp [replacement]

end Utf8
