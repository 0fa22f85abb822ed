import Mathlib.Data.List.Basic
import Mathlib.Order.Defs.PartialOrder

/-!
# Streaks in a history

A history lists timed samples, the newest first. A timer that is set while every sample passes a
test, and dropped as soon as one fails it, measures a streak: the stamp `c` it holds satisfies
`Since`, which every passing sample keeps (`Since.cons`) and which says how long ago the last
failure was (`Since.failed_before`).
-/

namespace Streak

variable {α τ : Type*} [Preorder τ] (good : α → Prop) (time : α → τ)

/-- The history starts with a streak of good samples that reaches back to `c`. -/
def Since (hist : List α) (c : τ) : Prop :=
  ∃ recent older, hist = recent ++ older ∧ (∀ x ∈ recent, good x) ∧ ∃ x ∈ recent, time x ≤ c

/-- The newest sample comes first. -/
def NewestFirst (hist : List α) : Prop := hist.Pairwise fun x y => time y ≤ time x

variable {good time} {hist : List α} {x : α} {c c' : τ}

theorem Since.start (hx : good x) (hc : time x ≤ c) : Since good time (x :: hist) c :=
  ⟨[x], hist, rfl, by simpa using hx, x, by simp, hc⟩

/-- **Step.** One more good sample. -/
theorem Since.cons (hx : good x) : Since good time hist c → Since good time (x :: hist) c := by
  rintro ⟨recent, older, rfl, hgood, y, hy, hc⟩
  refine ⟨x :: recent, older, rfl, ?_, y, List.mem_cons_of_mem x hy, hc⟩
  rintro z (_ | ⟨_, hz⟩)
  · exact hx
  · exact hgood z hz

theorem Since.mono (hle : c ≤ c') : Since good time hist c → Since good time hist c' := by
  rintro ⟨recent, older, rfl, hgood, y, hy, hc⟩
  exact ⟨recent, older, rfl, hgood, y, hy, le_trans hc hle⟩

/-- The newest sample is good. -/
theorem Since.head : Since good time (x :: hist) c → good x := by
  rintro ⟨recent, older, heq, hgood, y, hy, -⟩
  cases recent with
  | nil => cases hy
  | cons z recent =>
    obtain ⟨rfl, -⟩ := List.cons.inj heq
    exact hgood x List.mem_cons_self

/-- **A streak since `c` has its last failure no later than `c`.** -/
theorem Since.failed_before (hord : NewestFirst time hist) :
    Since good time hist c → ∀ x ∈ hist, ¬ good x → time x ≤ c := by
  rintro ⟨recent, older, rfl, hgood, y, hy, hc⟩ x hx hbad
  have hold : x ∈ older := by
    rcases List.mem_append.1 hx with hx | hx
    · exact absurd (hgood x hx) hbad
    · exact hx
  exact le_trans ((List.pairwise_append.1 hord).2.2 y hy x hold) hc

theorem NewestFirst.cons (h : NewestFirst time hist) (hx : ∀ y ∈ hist, time y ≤ time x) :
    NewestFirst time (x :: hist) := List.pairwise_cons.2 ⟨hx, h⟩

end Streak

/-! ## Maximal runs

Here a history is read forwards, the oldest sample first. -/

namespace Streak

variable {α τ : Type*} {good : α → Prop} {time : α → τ} {hist : List α} {x : α} {c c' : τ}

/-- The history ends with a maximal run of good samples, the first of them at `c`. -/
def RunSince (good : α → Prop) (time : α → τ) (hist : List α) (c : τ) : Prop :=
  ∃ older first recent, hist = older ++ first :: recent ∧ (∀ x ∈ first :: recent, good x) ∧
    (∀ y, older.getLast? = some y → ¬ good y) ∧ time first = c

/-- A run of one. -/
theorem RunSince.start {older : List α} (hx : good x)
    (holder : ∀ y, older.getLast? = some y → ¬ good y) :
    RunSince good time (older ++ [x]) (time x) :=
  ⟨older, x, [], rfl, by simpa using hx, holder, rfl⟩

/-- **Step.** One more good sample. -/
theorem RunSince.snoc (hx : good x) : RunSince good time hist c →
    RunSince good time (hist ++ [x]) c := by
  rintro ⟨older, first, recent, rfl, hgood, holder, hc⟩
  refine ⟨older, first, recent ++ [x], by simp, ?_, holder, hc⟩
  intro y hy
  rw [← List.cons_append, List.mem_append, List.mem_singleton] at hy
  rcases hy with hy | rfl
  · exact hgood y hy
  · exact hx

theorem RunSince.exists_last (h : RunSince good time hist c) :
    ∃ y, hist.getLast? = some y ∧ good y := by
  obtain ⟨older, first, recent, rfl, hgood, -, -⟩ := h
  refine ⟨(first :: recent).getLast (List.cons_ne_nil first recent), ?_,
    hgood _ (List.getLast_mem _)⟩
  rw [List.getLast?_append_of_ne_nil _ (List.cons_ne_nil first recent),
    List.getLast?_eq_some_getLast]

/-- No run starts within another one. -/
theorem eq_nil_of_run {older older' between recent recent' : List α} {first first' : α}
    (hbetween : older' = older ++ between) (hrest : first :: recent = between ++ first' :: recent')
    (hgood : ∀ x ∈ first :: recent, good x) (holder' : ∀ y, older'.getLast? = some y → ¬ good y) :
    between = [] := by
  cases between with
  | nil => rfl
  | cons y between =>
    have hlast : older'.getLast? = some ((y :: between).getLast (List.cons_ne_nil y between)) := by
      rw [hbetween, List.getLast?_append_of_ne_nil _ (List.cons_ne_nil y between),
        List.getLast?_eq_some_getLast]
    exact absurd (hgood _ (hrest ▸ List.mem_append_left _ (List.getLast_mem _))) (holder' _ hlast)

/-- **There is one maximal run at the end.** -/
theorem RunSince.unique (h : RunSince good time hist c) (h' : RunSince good time hist c') :
    c = c' := by
  obtain ⟨older, first, recent, rfl, hgood, holder, rfl⟩ := h
  obtain ⟨older', first', recent', heq, hgood', holder', rfl⟩ := h'
  rcases List.append_eq_append_iff.mp heq with ⟨between, hbetween, hrest⟩ | ⟨between, hbetween, hrest⟩
  · obtain rfl := eq_nil_of_run hbetween hrest hgood holder'
    rw [(List.cons.inj hrest).1]
  · obtain rfl := eq_nil_of_run hbetween hrest hgood' holder
    rw [(List.cons.inj hrest).1]

end Streak
