import DraconGuard.Lib.Lines

/-!
# Stanzas

A reader that takes one item after the other, and closes what it has gathered at a separator and at
the end. Separators that come one after the other close nothing. It reads what a reader would that
was given the stretches between the separators (`foldlM_stanzas`).
-/

namespace Lines

variable {α σ β ε : Type}

/-- What is closed, and what is gathered since. -/
def stanzaStep [DecidableEq α] (sep : α) (add : σ → α → Except ε σ) (close : β → σ → Except ε β)
    (untouched : σ → Bool) (start : σ) (state : β × σ) (x : α) : Except ε (β × σ) :=
  if x = sep then
    if untouched state.2 then .ok state
    else (close state.1 state.2).map fun r => (r, start)
  else (add state.2 x).map fun s => (state.1, s)

/-- One stretch, read whole. -/
def readStanza (add : σ → α → Except ε σ) (close : β → σ → Except ε β) (start : σ) (r : β)
    (block : List α) : Except ε β := do
  close r (← block.foldlM add start)

/-- The stretches that are not empty. -/
def stanzas [DecidableEq α] (sep : α) (xs : List α) : List (List α) :=
  (lines sep xs).filter fun block => block ≠ []

variable {sep : α} {add : σ → α → Except ε σ} {close : β → σ → Except ε β} {untouched : σ → Bool}
  {start : σ}

theorem foldlM_concat_ok {begun : List α} {s : σ} {x : α}
    (h : begun.foldlM add start = .ok s) : (begun ++ [x]).foldlM add start = add s x := by
  rw [List.foldlM_append, h]
  show List.foldlM add s [x] = add s x
  rw [List.foldlM_cons]
  cases add s x <;> rfl

theorem foldlM_append_error {begun : List α} {e : ε} (h : begun.foldlM add start = .error e)
    (tail : List α) : (begun ++ tail).foldlM add start = .error e := by
  rw [List.foldlM_append, h]
  rfl

variable [DecidableEq α]

/-- A stretch that has begun goes on. -/
theorem linesFrom_begun (sep : α) {begun : List α} (h : begun ≠ []) (xs : List α) :
    ∃ tail rest, linesFrom sep begun xs = (begun ++ tail) :: rest := by
  induction xs generalizing begun with
  | nil => exact ⟨[], [], by rw [linesFrom, if_neg h, List.append_nil]⟩
  | cons x xs ih =>
    rw [linesFrom]
    by_cases hx : x = sep
    · exact ⟨[], linesFrom sep [] xs, by rw [if_pos hx, List.append_nil]⟩
    · have hne : begun ++ [x] ≠ [] := by simp
      obtain ⟨tail, rest, heq⟩ := ih hne
      exact ⟨x :: tail, rest, by rw [if_neg hx, heq, List.append_assoc, List.singleton_append]⟩

/-- **Item by item as stretch by stretch.** `begun` is the stretch that is open. -/
theorem foldlM_stanzaStep (hstart : untouched start = true)
    (hadd : ∀ s x s', add s x = .ok s' → untouched s' = false) (xs : List α) :
    ∀ (begun : List α) (r : β) (s : σ), begun.foldlM add start = .ok s →
      (begun = [] ∨ untouched s = false) →
      (((xs ++ [sep]).foldlM (stanzaStep sep add close untouched start) (r, s)).map Prod.fst) =
        ((linesFrom sep begun xs).filter fun block => block ≠ []).foldlM
          (readStanza add close start) r := by
  induction xs with
  | nil =>
    intro begun r s hbegun htouched
    rw [List.nil_append, List.foldlM_cons, stanzaStep, if_pos rfl, linesFrom]
    by_cases hempty : begun = []
    · subst hempty
      obtain rfl : start = s := Except.ok.inj hbegun
      simp [hstart, bind, Except.bind, Except.map, pure, Except.pure]
    · have hopen : untouched s = false := htouched.resolve_left hempty
      simp only [hopen, Bool.false_eq_true, if_false, if_neg hempty]
      rw [List.filter_cons_of_pos (by simpa using hempty), List.filter_nil, List.foldlM_cons,
        readStanza, hbegun]
      cases hclose : close r s <;>
        simp [hclose, bind, Except.bind, Except.map, pure, Except.pure]
  | cons x xs ih =>
    intro begun r s hbegun htouched
    rw [List.cons_append, List.foldlM_cons, linesFrom, stanzaStep]
    by_cases hx : x = sep
    · rw [if_pos hx, if_pos hx]
      by_cases hempty : begun = []
      · subst hempty
        obtain rfl : start = s := Except.ok.inj hbegun
        rw [if_pos hstart, List.filter_cons_of_neg (by simp)]
        exact ih [] r start rfl (Or.inl rfl)
      · have hopen : untouched s = false := htouched.resolve_left hempty
        simp only [hopen, Bool.false_eq_true, if_false]
        rw [List.filter_cons_of_pos (by simpa using hempty), List.foldlM_cons, readStanza, hbegun]
        cases hclose : close r s with
        | error e => simp [hclose, bind, Except.bind, Except.map]
        | ok r' =>
          have hrest := ih [] r' start rfl (Or.inl rfl)
          simpa [hclose, bind, Except.bind, Except.map] using hrest
    · rw [if_neg hx, if_neg hx]
      have hconcat := foldlM_concat_ok (x := x) hbegun
      cases hs' : add s x with
      | error e =>
        have hne : begun ++ [x] ≠ [] := by simp
        obtain ⟨tail, rest, heq⟩ := linesFrom_begun sep hne xs
        rw [heq, List.filter_cons_of_pos (by simp), List.foldlM_cons, readStanza,
          foldlM_append_error (hconcat.trans hs') tail]
        rfl
      | ok s' =>
        have hrest := ih (begun ++ [x]) r s' (hconcat.trans hs') (Or.inr (hadd s x s' hs'))
        simpa [bind, Except.bind, Except.map] using hrest

/-- From the beginning to the end. -/
theorem foldlM_stanzas (hstart : untouched start = true)
    (hadd : ∀ s x s', add s x = .ok s' → untouched s' = false) (xs : List α) (r : β) :
    ((xs ++ [sep]).foldlM (stanzaStep sep add close untouched start) (r, start)).map Prod.fst =
      (stanzas sep xs).foldlM (readStanza add close start) r :=
  foldlM_stanzaStep hstart hadd xs [] r start rfl (Or.inl rfl)

end Lines
