import DraconGuard.Lib.Median
import DraconGuard.Guard.Alerts

/-!
# The disk fill rate

`disk_fill_rate` (main.rs:1905) publishes the median of the pairwise slopes of the df history
(Theil-Sen): "each outlier touches only a minority of the pairs" (main.rs:1901). One upward step in
an otherwise constant window touches the pairs that straddle it, `k * j` with `k` samples before and
`j` after: not a minority near the middle of a window, nor anywhere in a window of three or four
(`step_published`). **`burst_notFilling_iff`** is the exact condition.

Slopes are exact rationals; a time is in nanoseconds.
-/

namespace DraconGuard

open Median (pairs median)

/-- An entry of the df history. -/
structure DiskSample where
  time : Nat
  used : Nat
deriving DecidableEq, Repr

/-- `duration_since(earlier).as_secs_f64()`. -/
def secondsSince (earlier later : DiskSample) : ℚ := ((later.time - earlier.time : Nat) : ℚ) / 10 ^ 9

/-- `rposition`. -/
def rposition {α : Type} (p : α → Bool) (xs : List α) : Option Nat :=
  (xs.reverse.findIdx? p).map fun i => xs.length - 1 - i

/-- Reclamation starts a new growth window (main.rs:1911-1917). -/
def growthWindow (recent : List DiskSample) : List DiskSample :=
  recent.drop (((rposition (fun p => decide (p.2.used < p.1.used)) (recent.zip recent.tail)).map
    (· + 1)).getD 0)

/-- The slope of a pair, in bytes a second (main.rs:1935-1940). -/
def slopeOf (p : DiskSample × DiskSample) : Option ℚ :=
  if secondsSince p.1 p.2 ≤ 0 then none
  else some (((p.2.used : ℚ) - p.1.used) / secondsSince p.1 p.2)

def spanSeconds (recent : List DiskSample) : ℚ :=
  match recent.head?, recent.getLast? with
  | some first, some last => secondsSince first last
  | _, _ => 0

/-- The samples that are looked at (main.rs:1906-1910). -/
def recentSamples (history : List DiskSample) : List DiskSample :=
  history.drop (history.length - min history.length 30)

/-- `disk_fill_rate` (main.rs:1905). -/
def diskFillRate (history : List DiskSample) : DiskFillRate :=
  if min history.length 30 < 3 then .unmeasured
  else
    let recent := growthWindow (recentSamples history)
    if recent.length < 3 then .unmeasured
    else if spanSeconds recent < 60 then .unmeasured
    else
      let slopes := (pairs recent).filterMap slopeOf
      if slopes.isEmpty then .unmeasured
      else
        let slope := median slopes
        if slope ≤ 0 then .notFilling else .filling (slope * 3600 / (1024 * 1024 * 1024))

/-! ## One burst -/

/-- A window with one upward step, between `before` and `after`. -/
structure SingleBurst (before after : List DiskSample) : Prop where
  times : (before ++ after).Pairwise fun a b => a.time < b.time
  step : ∃ low high, low < high ∧ (∀ s ∈ before, s.used = low) ∧ ∀ s ∈ after, s.used = high
  rises : before ≠ [] ∧ after ≠ []
  samples : 3 ≤ (before ++ after).length
  span : 60 ≤ spanSeconds (before ++ after)

/-- Of the samples looked at, `k` come before the step and `j` after it; the pairs that straddle it
are a minority, and the samples span a minute. -/
structure Outvoted (before after : List DiskSample) : Prop where
  minority :
    let dropped := (before ++ after).length - min (before ++ after).length 30
    let k := before.length - dropped
    let j := after.length - (dropped - before.length)
    4 * (k * j) < (k + j) * (k + j - 1)
  span : 60 ≤ spanSeconds (recentSamples (before ++ after))

section Step

variable {before after : List DiskSample} {low high : Nat}

/-- Usage that never falls is one growth window. -/
theorem growthWindow_eq {recent : List DiskSample}
    (h : ∀ p ∈ recent.zip recent.tail, p.1.used ≤ p.2.used) : growthWindow recent = recent := by
  have hnone : (recent.zip recent.tail).reverse.findIdx?
      (fun p => decide (p.2.used < p.1.used)) = none := by
    rw [List.findIdx?_eq_none_iff]
    intro p hp
    simpa using h p (List.mem_reverse.1 hp)
  unfold growthWindow rposition
  rw [hnone]
  rfl

theorem secondsSince_pos {a b : DiskSample} (h : a.time < b.time) : 0 < secondsSince a b := by
  unfold secondsSince
  have hdiff : (0 : ℚ) < ((b.time - a.time : Nat) : ℚ) := by
    exact_mod_cast Nat.sub_pos_of_lt h
  positivity

/-- With times that increase, every pair has a slope. -/
theorem slopeOf_eq {a b : DiskSample} (h : a.time < b.time) :
    slopeOf (a, b) = some (((b.used : ℚ) - a.used) / secondsSince a b) := by
  unfold slopeOf
  rw [if_neg (not_le.2 (secondsSince_pos h))]

theorem filterMap_slopeOf {recent : List DiskSample}
    (htimes : recent.Pairwise fun a b => a.time < b.time) :
    (pairs recent).filterMap slopeOf =
      (pairs recent).map fun p => ((p.2.used : ℚ) - p.1.used) / secondsSince p.1 p.2 := by
  rw [← List.filterMap_eq_map]
  refine List.filterMap_congr fun p hp => ?_
  exact slopeOf_eq (Median.mem_pairs htimes p hp).2.2

theorem rel_of_mem_zip_tail {α : Type} {R : α → α → Prop} :
    ∀ {xs : List α}, xs.Pairwise R → ∀ p ∈ xs.zip xs.tail, R p.1 p.2
  | [], _, p, hp => by cases hp
  | [_], _, p, hp => by cases hp
  | a :: b :: rest, h, p, hp => by
    rw [List.pairwise_cons] at h
    rcases List.mem_cons.1 hp with rfl | hp
    · exact h.1 b List.mem_cons_self
    · exact rel_of_mem_zip_tail h.2 p hp

/-- A step up in a window: usage, and the slopes that are positive. -/
structure StepUp (before after : List DiskSample) (low high : Nat) : Prop where
  times : (before ++ after).Pairwise fun a b => a.time < b.time
  rises : low < high
  before : ∀ s ∈ before, s.used = low
  after : ∀ s ∈ after, s.used = high

theorem StepUp.used_mono (h : StepUp before after low high) :
    (before ++ after).Pairwise fun a b => a.used ≤ b.used := by
  rw [List.pairwise_append]
  refine ⟨List.pairwise_of_forall_mem_list fun a ha b hb => ?_,
    List.pairwise_of_forall_mem_list fun a ha b hb => ?_, fun a ha b hb => ?_⟩
  · rw [h.before a ha, h.before b hb]
  · rw [h.after a ha, h.after b hb]
  · rw [h.before a ha, h.after b hb]
    exact h.rises.le

theorem StepUp.drop (h : StepUp before after low high) (n m : Nat) :
    StepUp (before.drop n) (after.drop m) low high where
  times := h.times.sublist ((List.drop_sublist n before).append (List.drop_sublist m after))
  rises := h.rises
  before s hs := h.before s (List.mem_of_mem_drop hs)
  after s hs := h.after s (List.mem_of_mem_drop hs)

/-- The slope of a pair. -/
def pairSlope (p : DiskSample × DiskSample) : ℚ :=
  ((p.2.used : ℚ) - p.1.used) / secondsSince p.1 p.2

theorem StepUp.slopes_eq (h : StepUp before after low high) :
    (pairs (before ++ after)).filterMap slopeOf = (pairs (before ++ after)).map pairSlope :=
  filterMap_slopeOf h.times

theorem StepUp.slope_nonneg (h : StepUp before after low high) :
    ∀ x ∈ (pairs (before ++ after)).map pairSlope, 0 ≤ x := by
  intro x hx
  obtain ⟨p, hp, rfl⟩ := List.mem_map.1 hx
  have hused := (Median.mem_pairs h.used_mono p hp).2.2
  have htime := secondsSince_pos (Median.mem_pairs h.times p hp).2.2
  have hdiff : (0 : ℚ) ≤ (p.2.used : ℚ) - p.1.used := sub_nonneg.2 (by exact_mod_cast hused)
  exact div_nonneg hdiff htime.le

/-- The pairs with a positive slope are those that straddle the step. -/
theorem StepUp.countP_slopes (h : StepUp before after low high) :
    ((pairs (before ++ after)).map pairSlope).countP (fun x => decide (0 < x)) =
      before.length * after.length := by
  have hsign : ∀ p ∈ pairs (before ++ after),
      decide (0 < pairSlope p) = decide (p.1.used < p.2.used) := by
    intro p hp
    have htime := secondsSince_pos (Median.mem_pairs h.times p hp).2.2
    rw [decide_eq_decide, pairSlope, div_pos_iff_of_pos_right htime, sub_pos]
    exact Nat.cast_lt
  rw [List.countP_map, List.countP_congr (q := fun p => decide (p.1.used < p.2.used)) ?_]
  · refine Median.countP_pairs_append (fun a ha b hb => ?_) (fun a ha b hb => ?_)
      fun a ha b hb => ?_
    · simp only [h.before a ha, h.before b hb, lt_irrefl, decide_false]
    · simp only [h.after a ha, h.after b hb, lt_irrefl, decide_false]
    · simp only [h.before a ha, h.after b hb, h.rises, decide_true]
  · intro p hp
    rw [Function.comp_apply, hsign p hp]

/-- **The median of a step**: not positive exactly if the pairs that straddle it are a minority. -/
theorem StepUp.median_le_zero_iff (h : StepUp before after low high)
    (hsamples : 2 ≤ (before ++ after).length) :
    median ((pairs (before ++ after)).map pairSlope) ≤ 0 ↔
      4 * (before.length * after.length) <
        (before.length + after.length) * (before.length + after.length - 1) := by
  have hlength := Median.two_mul_length_pairs (before ++ after)
  rw [List.length_append] at hlength hsamples
  have hmany : 0 < (before.length + after.length) * (before.length + after.length - 1) :=
    Nat.mul_pos (by omega) (by omega)
  have hne : (pairs (before ++ after)).map pairSlope ≠ [] := by
    intro hnil
    rw [List.map_eq_nil_iff] at hnil
    rw [hnil, List.length_nil] at hlength
    omega
  rw [Median.median_le_iff hne h.slope_nonneg, h.countP_slopes, List.length_map]
  omega

end Step

theorem length_recentSamples (history : List DiskSample) :
    (recentSamples history).length = min history.length 30 := by
  unfold recentSamples
  rw [List.length_drop]
  omega

theorem SingleBurst.stepUp {before after : List DiskSample} (h : SingleBurst before after) :
    ∃ low high, StepUp before after low high := by
  obtain ⟨low, high, hrise, hbefore, hafter⟩ := h.step
  exact ⟨low, high, h.times, hrise, hbefore, hafter⟩

theorem recentSamples_append (before after : List DiskSample) :
    recentSamples (before ++ after) =
      before.drop ((before ++ after).length - min (before ++ after).length 30) ++
        after.drop ((before ++ after).length - min (before ++ after).length 30 -
          before.length) := List.drop_append

/-- What decides about a burst: the span of the samples that are looked at, and their median. -/
theorem SingleBurst.notFilling_iff_median {before after : List DiskSample}
    (h : SingleBurst before after) :
    diskFillRate (before ++ after) = .notFilling ↔
      60 ≤ spanSeconds (recentSamples (before ++ after)) ∧
        median ((pairs (recentSamples (before ++ after))).map pairSlope) ≤ 0 := by
  obtain ⟨low, high, hstep⟩ := h.stepUp
  have hsamples := h.samples
  have hlength := length_recentSamples (before ++ after)
  have hwindow := hstep.drop ((before ++ after).length - min (before ++ after).length 30)
    ((before ++ after).length - min (before ++ after).length 30 - before.length)
  have hgrowth := growthWindow_eq (rel_of_mem_zip_tail hwindow.used_mono)
  have hslopes := hwindow.slopes_eq
  rw [← recentSamples_append] at hgrowth hslopes
  unfold diskFillRate
  rw [if_neg (by omega)]
  simp only [hgrowth, hslopes]
  rw [if_neg (by omega)]
  by_cases hspan : spanSeconds (recentSamples (before ++ after)) < 60
  · rw [if_pos hspan]
    exact iff_of_false (fun he => by cases he) fun hout => absurd hout.1 (not_le.2 hspan)
  · rw [if_neg hspan]
    have hpairs := Median.two_mul_length_pairs (recentSamples (before ++ after))
    have hne : ((pairs (recentSamples (before ++ after))).map pairSlope).isEmpty = false := by
      rw [List.isEmpty_eq_false_iff, ← List.length_pos_iff, List.length_map]
      have hmany : 0 < min (before ++ after).length 30 * (min (before ++ after).length 30 - 1) :=
        Nat.mul_pos (by omega) (by omega)
      rw [hlength] at hpairs
      omega
    rw [hne, if_neg Bool.false_ne_true]
    constructor
    · intro hrate
      split at hrate
      · next hle => exact ⟨not_lt.1 hspan, hle⟩
      · cases hrate
    · intro hout
      rw [if_pos hout.2]

/-- The median of the samples that are looked at. -/
theorem SingleBurst.median_le_zero_iff {before after : List DiskSample}
    (h : SingleBurst before after) :
    median ((pairs (recentSamples (before ++ after))).map pairSlope) ≤ 0 ↔
      let dropped := (before ++ after).length - min (before ++ after).length 30
      let k := before.length - dropped
      let j := after.length - (dropped - before.length)
      4 * (k * j) < (k + j) * (k + j - 1) := by
  obtain ⟨low, high, hstep⟩ := h.stepUp
  have hsamples := h.samples
  have hlength := length_recentSamples (before ++ after)
  have hmedian := (hstep.drop ((before ++ after).length - min (before ++ after).length 30)
    ((before ++ after).length - min (before ++ after).length 30 - before.length)).median_le_zero_iff
      (by rw [← recentSamples_append, hlength]; omega)
  rw [← recentSamples_append, List.length_drop, List.length_drop] at hmedian
  exact hmedian

/-- **A single burst is no fill** exactly if the pairs that straddle it are a minority of the
pairs, in the last thirty samples, and these span a minute. -/
theorem burst_notFilling_iff (before after : List DiskSample) (h : SingleBurst before after) :
    diskFillRate (before ++ after) = .notFilling ↔ Outvoted before after := by
  rw [h.notFilling_iff_median, h.median_le_zero_iff]
  exact ⟨fun hout => ⟨hout.2, hout.1⟩, fun hout => ⟨hout.span, hout.minority⟩⟩

/-! ## A step that is published -/

/-- Samples half a minute apart. -/
def samplesFrom (first : Nat) (used : Nat) (count : Nat) : List DiskSample :=
  (List.range count).map fun i => ⟨(first + i) * (30 * 10 ^ 9), used⟩

/-- Two minutes and a half, with a gigabyte written after the first of them. -/
theorem burst_notFilling_iff_early :
    diskFillRate (samplesFrom 0 0 1 ++ samplesFrom 1 (2 ^ 30) 5) = .notFilling ↔
      Outvoted (samplesFrom 0 0 1) (samplesFrom 1 (2 ^ 30) 5) := by
  refine burst_notFilling_iff _ _ ⟨by decide, ⟨0, 2 ^ 30, by decide, by decide, by decide⟩,
    ⟨by decide, by decide⟩, by decide, ?_⟩
  change (60 : ℚ) ≤ ((150000000000 - 0 : Nat) : ℚ) / 10 ^ 9
  norm_num

/-- The gigabyte is written in the middle: most pairs straddle it. -/
theorem step_published :
    ¬ ∀ before after : List DiskSample, SingleBurst before after →
      diskFillRate (before ++ after) = .notFilling := by
  intro h
  have hburst : SingleBurst (samplesFrom 0 0 3) (samplesFrom 3 (2 ^ 30) 3) := by
    refine ⟨by decide, ⟨0, 2 ^ 30, by decide, by decide, by decide⟩, ⟨by decide, by decide⟩,
      by decide, ?_⟩
    change (60 : ℚ) ≤ ((150000000000 - 0 : Nat) : ℚ) / 10 ^ 9
    norm_num
  have hmedian := ((hburst.notFilling_iff_median).1 (h _ _ hburst)).2
  exact absurd (hburst.median_le_zero_iff.1 hmedian) (by decide)

end DraconGuard
