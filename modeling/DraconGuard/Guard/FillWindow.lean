import DraconGuard.Lib.LastBreak
import DraconGuard.Guard.FillRate

/-!
# What the fill rate is measured on

`disk_fill_rate` (main.rs:1905) drops all but the last thirty samples, then everything up to
the last decrease of usage, "reclamation starts a new growth window". `AfterLastDecrease` says
which samples are left without the search of the source, and `diskFillRate_eq_windowRate` that
the rate is a function of those.

| there | here |
|-------|------|
| 1907 `n < 3`, 1918 `recent.len() < 3` | one condition on the window (`windowRate`) |
| 1915 `rposition` | `growthWindow_afterLastBreak` |
| 1926 `span < 60.0` | leaves a pair with time between its samples (`pairwiseSlopes_ne_nil`) |
| 1947 the median | `Median.median_halves`, `Median.min_le_median` |
-/

namespace DraconGuard

open Median (pairs median)

/-- The samples after the last decrease of usage among the last thirty. -/
def AfterLastDecrease (history w : List DiskSample) : Prop :=
  AfterLastBreak (fun a b => a.used ≤ b.used) (recentSamples history) w

/-- The slopes of the pairs with time between their samples. -/
def pairwiseSlopes (w : List DiskSample) : List ℚ := (pairs w).filterMap slopeOf

/-- The rate of a growth window (main.rs:1918-1956). -/
def windowRate (w : List DiskSample) : DiskFillRate :=
  if w.length < 3 then .unmeasured
  else if spanSeconds w < 60 then .unmeasured
  else if (pairwiseSlopes w).isEmpty then .unmeasured
  else
    let slope := median (pairwiseSlopes w)
    if slope ≤ 0 then .notFilling else .filling (slope * 3600 / (1024 * 1024 * 1024))

/-- A published rate, back in bytes a second. -/
def bytesPerSecond (gbph : ℚ) : ℚ := gbph * (1024 * 1024 * 1024) / 3600

/-! ## The window -/

section Window

variable {α : Type} {p : α → Bool} {xs : List α}

theorem rposition_eq_none (h : rposition p xs = none) : ∀ x ∈ xs, p x = false := by
  unfold rposition at h
  rw [Option.map_eq_none_iff, List.findIdx?_eq_none_iff] at h
  intro x hx
  exact h x (List.mem_reverse.mpr hx)

/-- The last position with the property. -/
theorem rposition_eq_some {i : Nat} (h : rposition p xs = some i) :
    ∃ hi : i < xs.length, p xs[i] = true ∧
      ∀ j (hj : j < xs.length), i < j → p xs[j] = false := by
  unfold rposition at h
  obtain ⟨k, hk, rfl⟩ := Option.map_eq_some_iff.mp h
  obtain ⟨hlt, hp, hfirst⟩ := List.findIdx?_eq_some_iff_getElem.mp hk
  rw [List.length_reverse] at hlt
  rw [List.getElem_reverse] at hp
  refine ⟨by omega, hp, fun j hj hij => ?_⟩
  have hlater := hfirst (xs.length - 1 - j) (by omega)
  rw [List.getElem_reverse] at hlater
  have hsame : xs.length - 1 - (xs.length - 1 - j) = j := by omega
  simpa only [hsame, Bool.not_eq_true] using hlater

end Window

/-- Neighbours, as `windows(2)` lists them. -/
theorem getElem_zip_tail {recent : List DiskSample} {j : Nat}
    (hj : j < (recent.zip recent.tail).length) (hj' : j + 1 < recent.length) :
    (recent.zip recent.tail)[j] = (recent[j], recent[j + 1]) := by
  rw [List.getElem_zip, List.getElem_tail]

theorem length_zip_tail (recent : List DiskSample) :
    (recent.zip recent.tail).length = recent.length - 1 := by
  rw [List.length_zip, List.length_tail]
  omega

/-- **The growth window** starts after the last decrease. -/
theorem growthWindow_afterLastBreak (recent : List DiskSample) :
    AfterLastBreak (fun a b => a.used ≤ b.used) recent (growthWindow recent) := by
  have hlength := length_zip_tail recent
  unfold growthWindow
  cases hpos : rposition (fun p => decide (p.2.used < p.1.used)) (recent.zip recent.tail) with
  | none =>
    have hnone := rposition_eq_none hpos
    refine AfterLastBreak.whole (List.isChain_iff_getElem.mpr fun j hj => ?_)
    have hzip : j < (recent.zip recent.tail).length := by omega
    have hgrows := hnone _ (List.getElem_mem hzip)
    rw [getElem_zip_tail hzip hj] at hgrows
    simpa using hgrows
  | some i =>
    obtain ⟨hi, hfall, hlater⟩ := rposition_eq_some hpos
    have hi' : i + 1 < recent.length := by omega
    rw [getElem_zip_tail hi hi'] at hfall
    refine ⟨List.isChain_iff_getElem.mpr fun j hj => ?_, recent.take (i + 1),
      (List.take_append_drop (i + 1) recent).symm, fun _ => ⟨recent[i], recent[i + 1], ?_, ?_, ?_⟩⟩
    · -- a neighbouring pair of the window comes after the last decrease
      have hj' : i + 1 + j + 1 < recent.length := by
        rw [Option.map_some, Option.getD_some, List.length_drop] at hj
        omega
      have hzip : i + 1 + j < (recent.zip recent.tail).length := by omega
      have hgrows := hlater _ hzip (by omega)
      rw [getElem_zip_tail hzip hj'] at hgrows
      simpa [List.getElem_drop, Nat.add_assoc] using hgrows
    · rw [List.getLast?_take, if_neg (Nat.succ_ne_zero i), Nat.add_sub_cancel,
        List.getElem?_eq_getElem (by omega : i < recent.length)]
      rfl
    · rw [Option.map_some, Option.getD_some, List.head?_drop, List.getElem?_eq_getElem hi']
    · simpa using hfall

theorem afterLastDecrease_iff {history w : List DiskSample} :
    AfterLastDecrease history w ↔ w = growthWindow (recentSamples history) := by
  have hwindow := growthWindow_afterLastBreak (recentSamples history)
  constructor
  · intro h
    exact h.unique hwindow
  · rintro rfl
    exact hwindow

/-- **The rate is the window's.** Too short a history has too short a window. -/
theorem diskFillRate_eq_windowRate (history : List DiskSample) :
    diskFillRate history = windowRate (growthWindow (recentSamples history)) := by
  have hle := (growthWindow_afterLastBreak (recentSamples history)).suffix.length_le
  rw [length_recentSamples] at hle
  unfold diskFillRate
  by_cases hshort : min history.length 30 < 3
  · rw [if_pos hshort, windowRate, if_pos (by omega)]
  · rw [if_neg hshort]
    rfl

/-! ## The rate of a window -/

/-- A window of a minute: its first and its last sample have a slope. -/
theorem pairwiseSlopes_ne_nil {w : List DiskSample} (hlen : 3 ≤ w.length)
    (hspan : 60 ≤ spanSeconds w) : pairwiseSlopes w ≠ [] := by
  obtain ⟨first, rest, rfl⟩ := List.exists_cons_of_length_pos (by omega : 0 < w.length)
  have hrest : rest ≠ [] := by
    rintro rfl
    simp at hlen
  have hlast : (first :: rest).getLast? = some (rest.getLast hrest) := by
    rw [List.getLast?_cons, List.getLast?_eq_some_getLast hrest]
    rfl
  have hpair : (first, rest.getLast hrest) ∈ pairs (first :: rest) := by
    rw [pairs]
    exact List.mem_append_left _ (List.mem_map_of_mem (List.getLast_mem hrest))
  unfold spanSeconds at hspan
  rw [hlast, List.head?_cons] at hspan
  have hpos : ¬ secondsSince first (rest.getLast hrest) ≤ 0 := by
    have hspan' : 60 ≤ secondsSince first (rest.getLast hrest) := hspan
    linarith
  have hslope : slopeOf (first, rest.getLast hrest) ≠ none := by
    simp [slopeOf, hpos]
  intro hnil
  exact hslope (List.filterMap_eq_nil_iff.mp hnil _ hpair)

/-- With times that increase, the slopes are those of all pairs. -/
theorem pairwiseSlopes_eq_map {w : List DiskSample}
    (htimes : w.Pairwise fun a b => a.time < b.time) :
    pairwiseSlopes w = (pairs w).map pairSlope := filterMap_slopeOf htimes

theorem windowRate_eq_unmeasured_iff {w : List DiskSample} :
    windowRate w = .unmeasured ↔ w.length < 3 ∨ spanSeconds w < 60 := by
  unfold windowRate
  by_cases hlen : w.length < 3
  · simp [hlen]
  · by_cases hspan : spanSeconds w < 60
    · simp [hspan]
    · have hne := pairwiseSlopes_ne_nil (Nat.le_of_not_lt hlen) (not_lt.mp hspan)
      rw [if_neg hlen, if_neg hspan, if_neg (by simpa using hne)]
      refine iff_of_false (fun hrate => ?_) (by simp [hlen, hspan])
      dsimp only at hrate
      split at hrate <;> cases hrate

/-- A published rate is the median of the slopes, which is positive. -/
theorem windowRate_eq_filling {w : List DiskSample} {r : ℚ} (h : windowRate w = .filling r) :
    pairwiseSlopes w ≠ [] ∧ 0 < r ∧ bytesPerSecond r = median (pairwiseSlopes w) := by
  unfold windowRate at h
  split at h
  · cases h
  · split at h
    · cases h
    · split at h
      · cases h
      · next hempty =>
        dsimp only at h
        split at h
        · cases h
        · next hpos =>
          obtain rfl := DiskFillRate.filling.inj h
          have hslope := not_le.mp hpos
          refine ⟨by simpa using hempty, by positivity, ?_⟩
          unfold bytesPerSecond
          ring

/-- **The fill rate and its window**: it depends on the samples after the last decrease among
the last thirty only, is `Unmeasured` exactly for too few of them or too short a span, and a
rate it publishes is positive and, in bytes a second, between the slopes with half of them on
either side. -/
theorem fill_rate_window (history : List DiskSample) :
    ∃ w, AfterLastDecrease history w ∧
      (∀ other, AfterLastDecrease other w → diskFillRate other = diskFillRate history) ∧
      (diskFillRate history = .unmeasured ↔ w.length < 3 ∨ spanSeconds w < 60) ∧
      (history.Pairwise (fun a b => a.time < b.time) →
        pairwiseSlopes w = (pairs w).map pairSlope) ∧
      ∀ r, diskFillRate history = .filling r →
        0 < r ∧
        (∃ lo hi, (pairwiseSlopes w).min? = some lo ∧ (pairwiseSlopes w).max? = some hi ∧
          lo ≤ bytesPerSecond r ∧ bytesPerSecond r ≤ hi) ∧
        (pairwiseSlopes w).length ≤
          2 * (pairwiseSlopes w).countP (fun x => decide (x ≤ bytesPerSecond r)) ∧
        (pairwiseSlopes w).length ≤
          2 * (pairwiseSlopes w).countP fun x => decide (bytesPerSecond r ≤ x) := by
  have hrate := diskFillRate_eq_windowRate history
  refine ⟨growthWindow (recentSamples history), afterLastDecrease_iff.mpr rfl, ?_, ?_, ?_, ?_⟩
  · intro other hother
    rw [hrate, diskFillRate_eq_windowRate other, ← afterLastDecrease_iff.mp hother]
  · rw [hrate]
    exact windowRate_eq_unmeasured_iff
  · intro htimes
    have hsuffix := (growthWindow_afterLastBreak (recentSamples history)).suffix
    have hsub := hsuffix.sublist.trans (List.drop_sublist _ history)
    exact pairwiseSlopes_eq_map (htimes.sublist hsub)
  · intro r hr
    rw [hrate] at hr
    obtain ⟨hne, hpos, hmedian⟩ := windowRate_eq_filling hr
    rw [hmedian]
    refine ⟨hpos, ?_, Median.median_halves hne⟩
    obtain ⟨lo, hlo⟩ := Option.isSome_iff_exists.mp (List.isSome_min?_of_ne_nil hne)
    obtain ⟨hi, hhi⟩ := Option.isSome_iff_exists.mp (List.isSome_max?_of_ne_nil hne)
    obtain ⟨hlow, hhigh⟩ := Median.min_le_median hlo hhi
    exact ⟨lo, hi, hlo, hhi, hlow, hhigh⟩

end DraconGuard
