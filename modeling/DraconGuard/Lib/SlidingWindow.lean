import Mathlib.Data.List.Pairwise

/-!
# A sliding window of dated samples

Samples are kept in the order of their times, each at least `gap` after the one before. The front
goes as soon as the second sample is as old as the window, so one sample older than that stays
(`aged_expire`) and the rest are inside it (`recent_expire`): with `n * gap` covering the window
there are never more than `n + 1` of them (`length_expire_le`).
-/

namespace SlidingWindow

variable {α : Type*} (time : α → Nat)

/-- Each sample at least `gap` after every earlier one. -/
def Spaced (gap : Nat) (xs : List α) : Prop := xs.Pairwise fun a b => time a + gap ≤ time b

/-- Drop the front while the sample behind it is as old as the window. -/
def expire (window now : Nat) : List α → List α
  | a :: b :: rest => if window ≤ now - time b then expire window now (b :: rest) else a :: b :: rest
  | xs => xs

variable {time} {window now gap : Nat} {xs : List α}

theorem expire_suffix : ∀ xs : List α, expire time window now xs <:+ xs
  | [] => List.suffix_refl _
  | [_] => List.suffix_refl _
  | a :: b :: rest => by
    rw [expire]
    split
    · exact (expire_suffix (b :: rest)).trans (List.suffix_cons a (b :: rest))
    · exact List.suffix_refl _

theorem expire_ne_nil : ∀ {xs : List α}, xs ≠ [] → expire time window now xs ≠ []
  | [], h => absurd rfl h
  | [_], h => h
  | a :: b :: rest, h => by
    rw [expire]
    split
    · exact expire_ne_nil (List.cons_ne_nil b rest)
    · exact h

/-- **What stays behind the front is inside the window.** -/
theorem recent_expire (hspaced : Spaced time gap xs) :
    ∀ x ∈ (expire time window now xs).tail, now - time x < window := by
  induction xs with
  | nil => simp [expire]
  | cons a rest ih =>
    cases rest with
    | nil => simp [expire]
    | cons b rest =>
      have htail := (List.pairwise_cons.mp hspaced).2
      rw [expire]
      split
      · exact ih htail
      · next hyoung =>
        intro x hx
        rcases List.mem_cons.mp hx with rfl | hx
        · omega
        · have hlater := (List.pairwise_cons.mp htail).1 x hx
          omega

/-- **A front that is as old as the window stays so**, whichever sample it is. -/
theorem aged_expire {a : α} (hhead : xs.head? = some a) (hold : window ≤ now - time a) :
    ∃ b, (expire time window now xs).head? = some b ∧ window ≤ now - time b := by
  induction xs generalizing a with
  | nil => cases hhead
  | cons x rest ih =>
    obtain rfl := Option.some.inj hhead
    cases rest with
    | nil => exact ⟨x, rfl, hold⟩
    | cons b rest =>
      rw [expire]
      split
      · next hb => exact ih rfl hb
      · exact ⟨x, rfl, hold⟩

theorem Spaced.le_getLast (h : Spaced time gap xs) (hne : xs ≠ []) {a : α} (ha : a ∈ xs) :
    time a ≤ time (xs.getLast hne) := by
  have hle : xs.Pairwise fun a b => time a ≤ time b := h.imp fun hab => Nat.le_of_add_right_le hab
  exact hle.rel_getLast_of_rel_getLast_getLast ha (Nat.le_refl _)

/-- A sample far enough behind the last one can be added. -/
theorem Spaced.concat (h : Spaced time gap xs) (hne : xs ≠ []) {a : α}
    (hfar : time (xs.getLast hne) + gap ≤ time a) : Spaced time gap (xs ++ [a]) := by
  refine List.pairwise_append.mpr ⟨h, List.pairwise_singleton _ a, fun b hb c hc => ?_⟩
  obtain rfl := List.mem_singleton.mp hc
  have hb := h.le_getLast hne hb
  omega

/-- What is less than a gap before a sample of the back is in the back itself. -/
theorem Spaced.mem_of_suffix {ys : List α} (h : Spaced time gap xs) (hsuffix : ys <:+ xs) {a b : α}
    (hb : b ∈ ys) (ha : a ∈ xs) (hnear : time b < time a + gap) : a ∈ ys := by
  obtain ⟨front, rfl⟩ := hsuffix
  rcases List.mem_append.mp ha with ha | ha
  · have hfar := (List.pairwise_append.mp h).2.2 a ha b hb
    omega
  · exact ha

/-- Spaced samples take their time. -/
theorem Spaced.span {a : α} (h : Spaced time gap (a :: xs)) :
    ∀ b, (a :: xs).getLast? = some b → time a + xs.length * gap ≤ time b := by
  induction xs generalizing a with
  | nil =>
    intro b hb
    obtain rfl : a = b := Option.some.inj hb
    simp
  | cons x rest ih =>
    intro b hb
    obtain ⟨hfirst, htail⟩ := List.pairwise_cons.mp h
    have hstep := hfirst x List.mem_cons_self
    have hrest := ih htail b (by rwa [List.getLast?_cons_cons] at hb)
    rw [List.length_cons, Nat.succ_mul]
    omega

/-- **The window bounds the number of samples.** -/
theorem length_expire_le {n : Nat} (hspaced : Spaced time gap xs) (hcover : window ≤ n * gap)
    (hnow : ∀ x ∈ xs, time x ≤ now) : (expire time window now xs).length ≤ n + 1 := by
  have hsuffix : expire time window now xs <:+ xs := expire_suffix xs
  have hkept : Spaced time gap (expire time window now xs) := hspaced.sublist hsuffix.sublist
  have hrecent : ∀ x ∈ (expire time window now xs).tail, now - time x < window :=
    recent_expire hspaced
  cases hlist : expire time window now xs with
  | nil => simp
  | cons a rest =>
    rw [hlist] at hkept hrecent hsuffix
    cases rest with
    | nil => simp
    | cons b rest =>
      obtain ⟨last, hlast⟩ : ∃ last, (b :: rest).getLast? = some last :=
        Option.isSome_iff_exists.mp (by simp)
      have hspan := Spaced.span (List.pairwise_cons.mp hkept).2 last hlast
      have hmem : last ∈ a :: b :: rest := List.mem_cons_of_mem a (List.mem_of_getLast? hlast)
      have hle := hnow last (hsuffix.subset hmem)
      have hb := hrecent b List.mem_cons_self
      -- fewer gaps fit between `b` and now than cover the window
      have hlt : rest.length * gap < n * gap := by omega
      have hlen := Nat.lt_of_mul_lt_mul_right hlt
      simp only [List.length_cons]
      omega

end SlidingWindow
