import DraconGuard.Lib.Thinned
import DraconGuard.Guard.ServiceGrowthLaw

/-!
# A burst and sustained growth

The verdict splits the window at a point of the history (service_growth.rs:286-302), "not a
dominant burst plus negligible drift", and the history leaves out readings that follow a point too
soon (:270). `GrowthLook` is the tracker before one row, beside it every reading since the
comparison began, `GrowthComparison` the two as the row has them. The halves at the last reading
rather than the last point hold their quarters unless a `HiddenBurst` is among those left out
(`GrowthComparison.balanced_iff`).
-/

namespace DraconGuard

open SlidingWindow (expire)
open Thinned (lastBy Rising)

/-! ## The readings since a comparison began -/

/-- The readings of a target since its history started over, the new one included. -/
def readingsWith (settings : Nat × Nat) (previous : Option GrowthHistory)
    (generation : ServiceGeneration) (point : GrowthPoint) (readings : List GrowthPoint) :
    List GrowthPoint :=
  match previous with
  | none => [point]
  | some h =>
    if (resetReason settings h generation point).isSome then [point] else readings ++ [point]

/-- What a row is worked out from, and the readings of every target so far. -/
structure GrowthLook where
  sample : ServiceSample
  now : Nat
  histories : FinMap String GrowthHistory
  readings : String → List GrowthPoint

/-- The history with the new point, and the readings it was kept from. -/
structure GrowthComparison where
  history : GrowthHistory
  point : GrowthPoint
  readings : List GrowthPoint

namespace GrowthLook

def row (half : Nat → Nat) (settings : Nat × Nat) (look : GrowthLook) : ServiceRow :=
  (observeRow hardCap half settings look.now look.histories look.sample).2

def comparison (settings : Nat × Nat) (look : GrowthLook) : Option GrowthComparison :=
  (look.sample.complete look.now).map fun (generation, point) =>
    let previous := look.histories.lookup look.sample.target
    { history := (beginHistory settings previous generation point).1.extend hardCap settings point
      point := point
      readings :=
        readingsWith settings previous generation point (look.readings look.sample.target) }

/-- The readings with those of the row. -/
def noted (settings : Nat × Nat) (look : GrowthLook) : String → List GrowthPoint :=
  match look.comparison settings with
  | none => look.readings
  | some c => Function.update look.readings look.sample.target c.readings

end GrowthLook

/-- The rows of one pass, one after the other. -/
def looksOfRows (half : Nat → Nat) (settings : Nat × Nat) (now : Nat) :
    FinMap String GrowthHistory → (String → List GrowthPoint) → List ServiceSample →
      List GrowthLook × (String → List GrowthPoint)
  | _, readings, [] => ([], readings)
  | histories, readings, sample :: rest =>
    let look : GrowthLook := ⟨sample, now, histories, readings⟩
    let others := looksOfRows half settings now
      (observeRow hardCap half settings now histories sample).1 (look.noted settings) rest
    (look :: others.1, others.2)

/-- All the rows of a run. -/
def looksOfRun (half : Nat → Nat) (settings : Nat × Nat) :
    GrowthTracker → (String → List GrowthPoint) → List GrowthPass → List GrowthLook
  | _, _, [] => []
  | t, readings, pass :: rest =>
    let seen := looksOfRows half settings pass.now (t.kept settings pass) readings pass.looked
    seen.1 ++ looksOfRun half settings (observeWith hardCap half settings t pass).1 seen.2 rest

section Rows

variable (half : Nat → Nat) (settings : Nat × Nat)

theorem row_looksOfRows (now : Nat) (histories : FinMap String GrowthHistory)
    (readings : String → List GrowthPoint) (samples : List ServiceSample) :
    (looksOfRows half settings now histories readings samples).1.map (·.row half settings) =
      (observeRows hardCap half settings now histories samples).2 := by
  induction samples generalizing histories readings with
  | nil => rfl
  | cons sample rest ih =>
    rw [looksOfRows, observeRows, List.map_cons, ih]
    rfl

/-- **The looks are those of the run.** -/
theorem row_looksOfRun (t : GrowthTracker) (readings : String → List GrowthPoint)
    (passes : List GrowthPass) :
    (looksOfRun half settings t readings passes).map (·.row half settings) =
      (growthRun hardCap half settings t passes).2.flatMap (·.rows) := by
  induction passes generalizing t readings with
  | nil => rfl
  | cons pass rest ih =>
    rw [looksOfRun, growthRun, List.map_append, row_looksOfRows, ih, List.flatMap_cons]
    rfl

end Rows

/-! ## The halves of the window -/

namespace GrowthComparison

variable (half : Nat → Nat) (settings : Nat × Nat) (c : GrowthComparison)

def growth : Nat := c.history.growth c.point

/-- The middle of the window. -/
def midpoint : Nat := c.history.baseline.time + half (c.history.elapsed c.point)

/-- The last reading at or before the middle has a quarter of the growth on both sides. -/
def Balanced : Prop :=
  ∃ m, lastBy GrowthPoint.time (c.midpoint half) c.readings = some m ∧
    c.growth ≤ 4 * (m.total - c.history.baseline.total) ∧ c.growth ≤ 4 * (c.point.total - m.total)

/-- Of those two quarters the first. -/
def EarlyQuarter : Prop :=
  ∃ m, lastBy GrowthPoint.time (c.midpoint half) c.readings = some m ∧
    c.growth ≤ 4 * (m.total - c.history.baseline.total)

/-- One step at most, and the rest level. -/
def TwoValued : Prop := ∃ a b, ∀ r ∈ c.readings, r.total = a ∨ r.total = b

/-- A reading the history left out, following one of its points by less than the spacing, in the
first half, with more than three quarters of the growth behind it. -/
structure HiddenBurst (r : GrowthPoint) : Prop where
  read : r ∈ c.readings
  leftOut : r ∉ c.history.points
  soon : ∃ p ∈ c.history.points, p.time < r.time ∧ r.time < p.time + spacingNanos settings
  firstHalf : r.time ≤ c.midpoint half
  dominant : 3 * c.growth < 4 * (r.total - c.history.baseline.total)

end GrowthComparison

/-! ## What the history keeps of the readings -/

/-- A history and the readings it was kept from. -/
structure GrowthHistory.KeptFrom (settings : Nat × Nat) (readings : List GrowthPoint)
    (h : GrowthHistory) : Prop where
  rising : Rising GrowthPoint.time GrowthPoint.total readings
  stored : ∀ p ∈ h.points, p ∈ readings
  notLater : ∀ r ∈ readings, r.time ≤ h.last.time ∧ r.total ≤ h.last.total
  near : ∀ r ∈ readings, h.baseline.time ≤ r.time →
    ∃ p ∈ h.points, p.time ≤ r.time ∧ r.time < p.time + spacingNanos settings

section History

variable {settings : Nat × Nat} {h : GrowthHistory} {point : GrowthPoint}
  {readings : List GrowthPoint}

theorem resetReason_none_time {generation : ServiceGeneration}
    (hreset : resetReason settings h generation point = none) : h.last.time < point.time := by
  unfold resetReason at hreset
  split at hreset
  · cases hreset
  split at hreset
  · cases hreset
  next htime => exact Nat.lt_of_not_le htime

theorem hardCap_long : 31 ≤ hardCap.1 := by decide

theorem GrowthHistory.baseline_mem (h : GrowthHistory) : h.baseline ∈ h.points :=
  List.head_mem h.nonempty

theorem GrowthHistory.baseline_extend (hpaced : h.Paced settings) (hnext : h.Precedes point) :
    (h.extend hardCap settings point).baseline ∈ h.windowed settings point := by
  rw [← GrowthHistory.extend_points hardCap_long hpaced hnext]
  exact GrowthHistory.baseline_mem _

/-- A history that starts. -/
theorem GrowthHistory.keptFrom_start (hspacing : 0 < spacingNanos settings)
    (generation : ServiceGeneration) (point : GrowthPoint) :
    ((GrowthHistory.start generation point).extend hardCap settings point).KeptFrom settings
      [point] := by
  have hpaced : (GrowthHistory.start generation point).Paced settings :=
    GrowthHistory.paced_start generation point
  have hnext : (GrowthHistory.start generation point).Precedes point := ⟨le_rfl, le_rfl⟩
  have hpoints : ∀ p ∈ ((GrowthHistory.start generation point).extend hardCap settings point).points,
      p = point := by
    intro p hp
    rw [GrowthHistory.extend_points hardCap_long hpaced hnext] at hp
    rcases GrowthHistory.mem_windowed hp with hp | rfl
    · exact List.mem_singleton.mp hp
    · rfl
  have hbase := hpoints _ (GrowthHistory.baseline_mem _)
  refine ⟨List.pairwise_singleton _ _, fun p hp => ?_, fun r hr => ?_, fun r hr _ => ?_⟩
  · exact List.mem_singleton.mpr (hpoints p hp)
  · obtain rfl := List.mem_singleton.mp hr
    exact ⟨le_rfl, le_rfl⟩
  · obtain rfl := List.mem_singleton.mp hr
    refine ⟨_, GrowthHistory.baseline_mem _, ?_⟩
    rw [hbase]
    omega

/-- A reading is near a point of the history before anything is dropped. -/
theorem GrowthHistory.KeptFrom.near_added (hkept : h.KeptFrom settings readings)
    (hpaced : h.Paced settings) (hspacing : 0 < spacingNanos settings)
    (htime : h.last.time < point.time) {r : GrowthPoint} (hr : r ∈ readings ++ [point])
    (hbase : h.baseline.time ≤ r.time) :
    ∃ p ∈ h.added settings point, p.time ≤ r.time ∧ r.time < p.time + spacingNanos settings := by
  unfold GrowthHistory.added
  rcases List.mem_append.mp hr with hr | hr
  · obtain ⟨p, hp, hnear⟩ := hkept.near r hr hbase
    refine ⟨p, ?_, hnear⟩
    split
    · exact List.mem_append_left _ hp
    · exact hp
  · obtain rfl := List.mem_singleton.mp hr
    split
    · exact ⟨r, by simp, le_rfl, by omega⟩
    · next hclose =>
      have hlatest : h.latest ∈ h.points := List.getLast_mem h.nonempty
      have hlast := hpaced.lastTime h.latest hlatest
      exact ⟨h.latest, hlatest, by omega, by omega⟩

/-- **One more reading.** -/
theorem GrowthHistory.KeptFrom.extend (hkept : h.KeptFrom settings readings)
    (hpaced : h.Paced settings) (hspacing : 0 < spacingNanos settings) (hnext : h.Precedes point)
    (htime : h.last.time < point.time) :
    (h.extend hardCap settings point).KeptFrom settings (readings ++ [point]) := by
  have hpoints : (h.extend hardCap settings point).points = h.windowed settings point :=
    GrowthHistory.extend_points hardCap_long hpaced hnext
  have hsuffix : h.windowed settings point <:+ h.added settings point :=
    SlidingWindow.expire_suffix _
  refine ⟨?_, fun p hp => ?_, fun r hr => ?_, fun r hr hbase => ?_⟩
  · refine hkept.rising.concat fun x hx => ?_
    obtain ⟨hxtime, hxtotal⟩ := hkept.notLater x hx
    exact ⟨by omega, hxtotal.trans hnext.total⟩
  · rw [hpoints] at hp
    rcases GrowthHistory.mem_windowed hp with hp | rfl
    · exact List.mem_append_left _ (hkept.stored p hp)
    · simp
  · rcases List.mem_append.mp hr with hr | hr
    · obtain ⟨hrtime, hrtotal⟩ := hkept.notLater r hr
      exact ⟨hrtime.trans hnext.time, hrtotal.trans hnext.total⟩
    · obtain rfl := List.mem_singleton.mp hr
      exact ⟨le_rfl, le_rfl⟩
  · -- the point near it was not dropped, being less than a spacing before the new baseline
    have hbaseline := GrowthHistory.baseline_extend hpaced hnext
    have hold : h.baseline.time ≤ (h.extend hardCap settings point).baseline.time := by
      rcases GrowthHistory.mem_windowed hbaseline with hmem | heq
      · have hle : h.points.Pairwise fun a b => a.time ≤ b.time :=
          hpaced.spaced.imp fun hab => Nat.le_of_add_right_le hab
        exact hle.rel_head_of_rel_head_head hmem le_rfl
      · rw [heq]
        exact (hpaced.lastTime _ h.baseline_mem).trans hnext.time
    obtain ⟨p, hp, hbefore, hafter⟩ :=
      hkept.near_added hpaced hspacing htime hr (hold.trans hbase)
    refine ⟨p, ?_, hbefore, hafter⟩
    rw [hpoints]
    exact (hpaced.spaced_added hnext).mem_of_suffix hsuffix hbaseline hp (by omega)

end History

/-! ## The verdict -/

namespace GrowthComparison

variable {half : Nat → Nat} {settings : Nat × Nat} {c : GrowthComparison}

/-- A row reported as growing. -/
theorem of_sustainedGrowth (h : rowStatus half settings c.history c.point = .sustainedGrowth) :
    minGrowthBytes settings ≤ c.growth ∧
      ∃ p, lastBy GrowthPoint.time (c.midpoint half) c.history.points = some p ∧
        max (divCeil c.growth 4) (divCeil (minGrowthBytes settings) 4) ≤
            p.total - c.history.baseline.total ∧
          max (divCeil c.growth 4) (divCeil (minGrowthBytes settings) 4) ≤
            c.point.total - p.total := by
  unfold rowStatus at h
  split at h
  · cases h
  split at h
  · next hboth =>
    obtain ⟨hmin, hhalves⟩ := Bool.and_eq_true_iff.mp hboth
    obtain ⟨p, hp, hquarters⟩ := (Option.any_eq_true _ _).mp hhalves
    simp only [Bool.and_eq_true, decide_eq_true_eq] at hquarters
    exact ⟨of_decide_eq_true hmin, p, hp, hquarters⟩
  · cases h

/-- What a comparison is in every run: its history paced and kept from the readings. -/
structure Lawful (settings : Nat × Nat) (c : GrowthComparison) : Prop where
  paced : c.history.Paced settings
  keptFrom : c.history.KeptFrom settings c.readings
  now : c.point ∈ c.readings
  last : c.history.last = c.point

namespace Lawful

theorem rising_points (hc : c.Lawful settings) (hspacing : 0 < spacingNanos settings) :
    Rising GrowthPoint.time GrowthPoint.total c.history.points :=
  (hc.paced.spaced.and hc.paced.totals).imp fun ⟨hfar, htotal⟩ => ⟨by omega, htotal⟩

/-- The last reading by the middle, between the point the code takes and the present. -/
theorem exists_middle (hc : c.Lawful settings) {p : GrowthPoint}
    (hp : lastBy GrowthPoint.time (c.midpoint half) c.history.points = some p) :
    ∃ m, lastBy GrowthPoint.time (c.midpoint half) c.readings = some m ∧ p.total ≤ m.total ∧
      m.total ≤ c.point.total := by
  have hmem := hc.keptFrom.stored p (Thinned.mem_of_lastBy hp)
  obtain ⟨m, hm⟩ := Thinned.exists_lastBy hmem (Thinned.time_le_of_lastBy hp)
  refine ⟨m, hm, Thinned.lastBy_value_le hc.keptFrom.rising hc.keptFrom.stored hp hm, ?_⟩
  rw [← hc.last]
  exact (hc.keptFrom.notLater m (Thinned.mem_of_lastBy hm)).2

/-- **Above three quarters by the middle**: only by a burst left out. -/
theorem burst_iff (hc : c.Lawful settings) (hspacing : 0 < spacingNanos settings)
    {p m : GrowthPoint}
    (hp : lastBy GrowthPoint.time (c.midpoint half) c.history.points = some p)
    (hm : lastBy GrowthPoint.time (c.midpoint half) c.readings = some m)
    (hquarter : divCeil c.growth 4 ≤ c.point.total - p.total) :
    3 * c.growth < 4 * (m.total - c.history.baseline.total) ↔ ∃ r, c.HiddenBurst half settings r := by
  have hbase : ∀ r : GrowthPoint, 3 * c.growth < 4 * (r.total - c.history.baseline.total) ↔
      c.history.baseline.total + 3 * c.growth / 4 < r.total := by
    intro r
    omega
  have hbound : p.total ≤ c.history.baseline.total + 3 * c.growth / 4 := by
    have hgrowth : c.growth = c.point.total - c.history.baseline.total := rfl
    have hnow := hc.keptFrom.notLater p (hc.keptFrom.stored p (Thinned.mem_of_lastBy hp))
    rw [hc.last] at hnow
    unfold divCeil at hquarter
    omega
  rw [hbase, Thinned.lt_value_iff hc.keptFrom.rising hc.keptFrom.stored (hc.rising_points hspacing)
    hp hm hbound]
  constructor
  · rintro ⟨r, hr, hout, hlater, hfirst, hdominant⟩
    have hold : c.history.baseline.time ≤ r.time := by
      have hlast := (hc.rising_points hspacing).time_le_lastBy hp c.history.baseline_mem
        (Nat.le_add_right _ _)
      omega
    obtain ⟨q, hq, hbefore, hafter⟩ := hc.keptFrom.near r hr hold
    refine ⟨r, hr, hout, ⟨q, hq, ?_, hafter⟩, hfirst, (hbase r).mpr hdominant⟩
    refine Nat.lt_of_le_of_ne hbefore fun hsame => hout ?_
    rwa [← hc.keptFrom.rising.eq_of_time (hc.keptFrom.stored q hq) hr hsame]
  · rintro ⟨r, hr, hout, ⟨q, hq, hbefore, -⟩, hfirst, hdominant⟩
    refine ⟨r, hr, hout, ?_, hfirst, (hbase r).mp hdominant⟩
    -- a reading no later than the middle point is no higher than that
    by_contra hearly
    have hle := hc.keptFrom.rising.value_le hr (hc.keptFrom.stored p (Thinned.mem_of_lastBy hp))
      (Nat.le_of_not_lt hearly)
    have hdom := (hbase r).mp hdominant
    omega

/-- **The first half of a reported window.** -/
theorem earlyQuarter (hc : c.Lawful settings)
    (h : rowStatus half settings c.history c.point = .sustainedGrowth) : c.EarlyQuarter half := by
  obtain ⟨-, p, hp, hfirst, -⟩ := of_sustainedGrowth h
  obtain ⟨m, hm, hpm, -⟩ := hc.exists_middle hp
  have hquarter : divCeil c.growth 4 ≤ p.total - c.history.baseline.total :=
    (Nat.le_max_left _ _).trans hfirst
  refine ⟨m, hm, ?_⟩
  unfold divCeil at hquarter
  omega

/-- **The halves of a reported window.** -/
theorem balanced_iff (hc : c.Lawful settings) (hspacing : 0 < spacingNanos settings)
    (h : rowStatus half settings c.history c.point = .sustainedGrowth) :
    c.Balanced half ↔ ¬∃ r, c.HiddenBurst half settings r := by
  obtain ⟨-, p, hp, -, hsecond⟩ := of_sustainedGrowth h
  have hquarter : divCeil c.growth 4 ≤ c.point.total - p.total :=
    (Nat.le_max_left _ _).trans hsecond
  obtain ⟨m, hm, -, hmnow⟩ := hc.exists_middle hp
  obtain ⟨m', hm', hearly⟩ := hc.earlyQuarter h
  obtain rfl : m = m' := Option.some.inj (hm.symm.trans hm')
  rw [← hc.burst_iff hspacing hp hm hquarter]
  have hgrowth : c.growth = c.point.total - c.history.baseline.total := rfl
  constructor
  · rintro ⟨m', hm', -, hlate⟩
    obtain rfl : m = m' := Option.some.inj (hm.symm.trans hm')
    omega
  · intro hno
    exact ⟨m, hm, hearly, by omega⟩

/-- **A step and a plateau are not reported.** -/
theorem not_twoValued (hc : c.Lawful settings) (hmin : 0 < minGrowthBytes settings)
    (h : rowStatus half settings c.history c.point = .sustainedGrowth) : ¬c.TwoValued := by
  rintro ⟨a, b, hvalues⟩
  obtain ⟨-, p, hp, hfirst, hsecond⟩ := of_sustainedGrowth h
  have hpos : 0 < max (divCeil c.growth 4) (divCeil (minGrowthBytes settings) 4) := by
    refine Nat.lt_of_lt_of_le ?_ (Nat.le_max_right _ _)
    unfold divCeil
    omega
  have hpoint : c.point ∈ c.readings := hc.now
  have hbaseline := hvalues _ (hc.keptFrom.stored _ c.history.baseline_mem)
  have hmiddle := hvalues _ (hc.keptFrom.stored p (Thinned.mem_of_lastBy hp))
  have hnow := hvalues _ hpoint
  omega

end Lawful

end GrowthComparison

/-! ## A run -/

/-- Histories in order, with the readings they were kept from. -/
structure ReadingsOk (settings : Nat × Nat) (histories : FinMap String GrowthHistory)
    (readings : String → List GrowthPoint) : Prop where
  ordered : HistoriesOk settings (fun _ _ _ => True) histories
  keptFrom : ∀ target h, histories.lookup target = some h → h.KeptFrom settings (readings target)

section Run

variable {half : Nat → Nat} {settings : Nat × Nat}

/-- **The comparison of a row.** -/
theorem GrowthLook.comparison_lawful {look : GrowthLook} (hspacing : 0 < spacingNanos settings)
    (hok : ReadingsOk settings look.histories look.readings) {c : GrowthComparison}
    (hc : look.comparison settings = some c) : c.Lawful settings := by
  obtain ⟨⟨generation, point⟩, -, rfl⟩ := Option.map_eq_some_iff.mp hc
  dsimp only
  have hfresh : GrowthComparison.Lawful settings
      ⟨(GrowthHistory.start generation point).extend hardCap settings point, point, [point]⟩ :=
    ⟨(GrowthHistory.paced_start generation point).extend hardCap_long ⟨le_rfl, le_rfl⟩,
      GrowthHistory.keptFrom_start hspacing generation point, List.mem_singleton_self point, rfl⟩
  unfold beginHistory readingsWith
  cases hlook : look.histories.lookup look.sample.target with
  | none => exact hfresh
  | some h =>
    dsimp only
    cases hreset : resetReason settings h generation point with
    | some reason => exact hfresh
    | none =>
      have hpaced := (hok.ordered look.sample.target h hlook).1
      have hnext := (resetReason_none hreset).2
      refine ⟨hpaced.extend hardCap_long hnext, ?_, ?_, rfl⟩
      · exact (hok.keptFrom look.sample.target h hlook).extend hpaced hspacing hnext
          (resetReason_none_time hreset)
      · exact List.mem_append_right _ (List.mem_singleton_self point)

theorem observeRow_histories (half : Nat → Nat) (look : GrowthLook) :
    (observeRow hardCap half settings look.now look.histories look.sample).1 =
      match look.comparison settings with
      | none => look.histories.erase look.sample.target
      | some c => look.histories.insert look.sample.target c.history := by
  unfold observeRow GrowthLook.comparison
  cases look.sample.complete look.now with
  | none => rfl
  | some reading => rfl

/-- **One row keeps histories and readings together.** -/
theorem GrowthLook.readingsOk_noted (half : Nat → Nat) {look : GrowthLook}
    (hspacing : 0 < spacingNanos settings)
    (hok : ReadingsOk settings look.histories look.readings) :
    ReadingsOk settings
      (observeRow hardCap half settings look.now look.histories look.sample).1
      (look.noted settings) := by
  refine ⟨observeRow_ok half hardCap_long hok.ordered fun _ _ _ => trivial, ?_⟩
  intro target h hlook
  rw [observeRow_histories] at hlook
  unfold GrowthLook.noted
  cases hc : look.comparison settings with
  | none =>
    rw [hc] at hlook
    dsimp only at hlook ⊢
    rw [FinMap.lookup_erase_eq] at hlook
    split at hlook
    · cases hlook
    · exact hok.keptFrom target h hlook
  | some c =>
    rw [hc] at hlook
    dsimp only at hlook ⊢
    rw [FinMap.lookup_insert_eq] at hlook
    split at hlook
    · next heq =>
      obtain rfl := heq
      obtain rfl := Option.some.inj hlook
      rw [Function.update_self]
      exact (look.comparison_lawful hspacing hok hc).keptFrom
    · next hne =>
      rw [Function.update_of_ne hne]
      exact hok.keptFrom target h hlook

/-- **The rows of a pass.** -/
theorem looksOfRows_ok (half : Nat → Nat) (hspacing : 0 < spacingNanos settings) (now : Nat)
    {histories : FinMap String GrowthHistory} {readings : String → List GrowthPoint}
    (hok : ReadingsOk settings histories readings) (samples : List ServiceSample) :
    (∀ look ∈ (looksOfRows half settings now histories readings samples).1,
        ReadingsOk settings look.histories look.readings) ∧
      ReadingsOk settings (observeRows hardCap half settings now histories samples).1
        (looksOfRows half settings now histories readings samples).2 := by
  induction samples generalizing histories readings with
  | nil => exact ⟨(fun look hlook => nomatch hlook), hok⟩
  | cons sample rest ih =>
    have hrow : ReadingsOk settings (observeRow hardCap half settings now histories sample).1
        (GrowthLook.noted settings ⟨sample, now, histories, readings⟩) :=
      @GrowthLook.readingsOk_noted _ half ⟨sample, now, histories, readings⟩ hspacing hok
    obtain ⟨hlooks, hafter⟩ := ih hrow
    refine ⟨fun look hlook => ?_, hafter⟩
    rcases List.mem_cons.mp hlook with rfl | hlook
    · exact hok
    · exact hlooks look hlook

theorem looksOfRun_ok (half : Nat → Nat) (hspacing : 0 < spacingNanos settings) {t : GrowthTracker}
    {readings : String → List GrowthPoint} (hok : ReadingsOk settings t.histories readings)
    (passes : List GrowthPass) :
    ∀ look ∈ looksOfRun half settings t readings passes,
      ReadingsOk settings look.histories look.readings := by
  induction passes generalizing t readings with
  | nil => exact fun look hlook => by cases hlook
  | cons pass rest ih =>
    have hkept : ReadingsOk settings (t.kept settings pass) readings :=
      ⟨fun target h hlook => hok.ordered target h (lookup_kept hlook),
        fun target h hlook => hok.keptFrom target h (lookup_kept hlook)⟩
    obtain ⟨hlooks, hafter⟩ := looksOfRows_ok half hspacing pass.now hkept pass.looked
    intro look hlook
    rcases List.mem_append.mp hlook with hlook | hlook
    · exact hlooks look hlook
    · exact ih hafter look hlook

/-- The status of a row is the verdict on its comparison. -/
theorem GrowthLook.rowStatus_of_sustainedGrowth {look : GrowthLook}
    (h : (look.row half settings).status = .sustainedGrowth) :
    ∃ c, look.comparison settings = some c ∧
      rowStatus half settings c.history c.point = .sustainedGrowth := by
  unfold row observeRow at h
  unfold comparison
  cases hcomplete : look.sample.complete look.now with
  | none =>
    rw [hcomplete] at h
    cases h
  | some reading =>
    obtain ⟨generation, point⟩ := reading
    rw [hcomplete] at h
    dsimp only at h
    rw [filledRow_status] at h
    split at h
    · cases h
    · exact ⟨_, rfl, h⟩

end Run

theorem GrowthPolicy.spacing_pos (guard : GrowthPolicy) : 0 < spacingNanos guard.settings := by
  have hwindow : 60 ≤ guard.settings.1 := le_max_left 60 _
  have hsecs : 0 < divCeil guard.settings.1 (maxHistory - 2) := by
    unfold divCeil maxHistory
    omega
  exact Nat.mul_pos hsecs (by decide)

theorem GrowthPolicy.minGrowth_pos (guard : GrowthPolicy) : 0 < minGrowthBytes guard.settings := by
  have hmb : 1 ≤ guard.settings.2 := le_max_right _ 1
  exact Nat.lt_min.mpr ⟨Nat.mul_pos hmb (by decide), by decide⟩

/-- **Sustained growth, over every run**: a reported row has grown by the minimum, in more than
one step, with its first quarter by the middle of the window; its halves are balanced exactly when
no burst hides among the readings the history left out. -/
theorem sustainedGrowth_balanced_iff (half : Nat → Nat) (guard : GrowthPolicy)
    (passes : List GrowthPass) :
    ∀ look ∈ looksOfRun half guard.settings {} (fun _ => []) passes,
      (look.row half guard.settings).status = .sustainedGrowth →
        ∃ c, look.comparison guard.settings = some c ∧ minGrowthBytes guard.settings ≤ c.growth ∧
          c.EarlyQuarter half ∧ ¬c.TwoValued ∧
            (c.Balanced half ↔ ¬∃ r, c.HiddenBurst half guard.settings r) := by
  intro look hlook hstatus
  have hbegin : ReadingsOk guard.settings ({} : GrowthTracker).histories (fun _ => []) :=
    ⟨(fun target h hnone => nomatch hnone), (fun target h hnone => nomatch hnone)⟩
  have hok := looksOfRun_ok half guard.spacing_pos hbegin passes look hlook
  obtain ⟨c, hc, hreported⟩ := GrowthLook.rowStatus_of_sustainedGrowth hstatus
  have hlawful := look.comparison_lawful guard.spacing_pos hok hc
  exact ⟨c, hc, (GrowthComparison.of_sustainedGrowth hreported).1,
    hlawful.earlyQuarter hreported, hlawful.not_twoValued guard.minGrowth_pos hreported,
    hlawful.balanced_iff guard.spacing_pos hreported⟩

/-! ## A burst between two points of the history -/

def sampledService : ServiceSample where
  target := "user:db.service"
  generation := some
    { boot := "boot"
      target := ⟨.user, "db.service"⟩
      userUid := some 1000
      invocation := "run"
      group := "/app.slice/db.service"
      device := 1
      inode := 1
      pid := 100
      identity := ⟨"db", 7⟩ }
  residentBytes := none
  swapBytes := some 0
  footprintBytes := none
  reason := none

/-- One reading of the service, at a second and with a total in MiB. -/
def readingPass (secs total : Nat) : GrowthPass where
  monitor := true
  samples := [{ sampledService with
    residentBytes := some (total * mib), footprintBytes := some (total * mib) }]
  now := secs * nanosPerSec

def minuteWindow : GrowthPolicy := ⟨true, 60, 1⟩

/-- Thirty MiB in 29 s, the burst a second later, five MiB in the second half. -/
def burstPasses : List GrowthPass :=
  [readingPass 0 0, readingPass 29 30, readingPass 30 95, readingPass 60 100]

def steadyPasses : List GrowthPass :=
  [readingPass 0 0, readingPass 30 50, readingPass 60 100]

private theorem steady_reported :
    ∃ look ∈ looksOfRun (· / 2) minuteWindow.settings {} (fun _ => []) steadyPasses,
      (look.row (· / 2) minuteWindow.settings).status = .sustainedGrowth := by
  decide +kernel

private theorem burst_reported :
    ∃ look ∈ looksOfRun (· / 2) minuteWindow.settings {} (fun _ => []) burstPasses,
      (look.row (· / 2) minuteWindow.settings).status = .sustainedGrowth ∧
        (look.comparison minuteWindow.settings).all fun c =>
          (lastBy GrowthPoint.time (c.midpoint (· / 2)) c.readings).all fun m =>
            decide (4 * (c.point.total - m.total) < c.growth) := by
  decide +kernel

theorem steady_growth_balanced :
    ∃ look ∈ looksOfRun (· / 2) minuteWindow.settings {} (fun _ => []) steadyPasses,
      ∃ c, look.comparison minuteWindow.settings = some c ∧
        minGrowthBytes minuteWindow.settings ≤ c.growth ∧ c.EarlyQuarter (· / 2) ∧ ¬c.TwoValued ∧
          (c.Balanced (· / 2) ↔ ¬∃ r, c.HiddenBurst (· / 2) minuteWindow.settings r) := by
  obtain ⟨look, hlook, hstatus⟩ := steady_reported
  exact ⟨look, hlook, sustainedGrowth_balanced_iff (· / 2) minuteWindow steadyPasses look hlook
    hstatus⟩

/-- **A dominant burst is reported as sustained growth.** -/
theorem burst_reported_sustained :
    ∃ look ∈ looksOfRun (· / 2) minuteWindow.settings {} (fun _ => []) burstPasses,
      (look.row (· / 2) minuteWindow.settings).status = .sustainedGrowth ∧
        ∀ c, look.comparison minuteWindow.settings = some c → ¬c.Balanced (· / 2) := by
  obtain ⟨look, hlook, hstatus, hburst⟩ := burst_reported
  refine ⟨look, hlook, hstatus, fun c hc hbalanced => ?_⟩
  obtain ⟨m, hm, -, hlate⟩ := hbalanced
  rw [hc, Option.all_some, hm, Option.all_some] at hburst
  exact absurd hlate (Nat.not_le_of_lt (of_decide_eq_true hburst))

end DraconGuard
