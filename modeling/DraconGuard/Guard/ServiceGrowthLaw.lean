import DraconGuard.Guard.ServiceGrowth

/-!
# What a growth history is at any time

Insertion, expiry, the cap and four kinds of reset edit one list. `Paced` is what all of them keep,
for one history: `GrowthHistory.Paced.extend` is the step. From it the cap is idle
(`extend_uncapped`), and a history whose first point is as old as the window keeps one that is
(`Settled.extend`), so a target that has left the warming-up state stays out of it until its
comparison starts over: by a reset that is reported, by data that is missing, or by not being
looked at.
-/

namespace DraconGuard

open SlidingWindow (Spaced expire)

/-! ## One history -/

section History

variable {settings : Nat × Nat} {point : GrowthPoint} {h : GrowthHistory}

/-- Points in order, at their distance, with totals that do not fall; none is later than the last
reading or above it. -/
structure GrowthHistory.Paced (settings : Nat × Nat) (h : GrowthHistory) : Prop where
  spaced : Spaced GrowthPoint.time (spacingNanos settings) h.points
  totals : h.points.Pairwise fun a b => a.total ≤ b.total
  lastTime : ∀ p ∈ h.points, p.time ≤ h.last.time
  lastTotal : ∀ p ∈ h.points, p.total ≤ h.last.total
  length : h.points.length ≤ 31

theorem GrowthHistory.paced_start (generation : ServiceGeneration) (point : GrowthPoint) :
    (GrowthHistory.start generation point).Paced settings where
  spaced := List.pairwise_singleton _ _
  totals := List.pairwise_singleton _ _
  lastTime p hp := by
    obtain rfl := List.mem_singleton.mp hp
    exact le_rfl
  lastTotal p hp := by
    obtain rfl := List.mem_singleton.mp hp
    exact le_rfl
  length := by simp [GrowthHistory.start]

/-- A reading that can follow the last one. -/
structure GrowthHistory.Precedes (h : GrowthHistory) (point : GrowthPoint) : Prop where
  time : h.last.time ≤ point.time
  total : h.last.total ≤ point.total

theorem resetReason_none {generation : ServiceGeneration}
    (hreset : resetReason settings h generation point = none) :
    h.generation = generation ∧ h.Precedes point := by
  unfold resetReason at hreset
  split at hreset
  · cases hreset
  next hgeneration =>
  split at hreset
  · cases hreset
  next htime =>
  split at hreset
  · cases hreset
  split at hreset
  · cases hreset
  next htotal =>
  exact ⟨not_not.mp hgeneration, by omega, by omega⟩

/-- The points before anything is dropped. -/
def GrowthHistory.added (settings : Nat × Nat) (point : GrowthPoint) (h : GrowthHistory) :
    List GrowthPoint :=
  if spacingNanos settings ≤ point.time - h.latest.time then h.points ++ [point] else h.points

theorem GrowthHistory.windowed_eq : h.windowed settings point =
    expire GrowthPoint.time (windowNanos settings) point.time (h.added settings point) := rfl

theorem GrowthHistory.mem_added {p : GrowthPoint} (hp : p ∈ h.added settings point) :
    p ∈ h.points ∨ p = point := by
  unfold added at hp
  split at hp
  · simpa using hp
  · exact Or.inl hp

theorem GrowthHistory.mem_windowed {p : GrowthPoint} (hp : p ∈ h.windowed settings point) :
    p ∈ h.points ∨ p = point :=
  mem_added ((SlidingWindow.expire_suffix _).subset hp)

namespace GrowthHistory.Paced

theorem spaced_added (hpaced : h.Paced settings) (hnext : h.Precedes point) :
    Spaced GrowthPoint.time (spacingNanos settings) (h.added settings point) := by
  unfold added
  split
  · next hfar =>
    refine hpaced.spaced.concat h.nonempty ?_
    have hlast := hpaced.lastTime h.latest (List.getLast_mem h.nonempty)
    have hnow := hnext.time
    change h.latest.time + spacingNanos settings ≤ point.time
    omega
  · exact hpaced.spaced

theorem totals_added (hpaced : h.Paced settings) (hnext : h.Precedes point) :
    (h.added settings point).Pairwise fun a b => a.total ≤ b.total := by
  unfold added
  split
  · refine List.pairwise_append.mpr ⟨hpaced.totals, List.pairwise_singleton _ point, ?_⟩
    intro p hp q hq
    obtain rfl := List.mem_singleton.mp hq
    exact (hpaced.lastTotal p hp).trans hnext.total
  · exact hpaced.totals

theorem time_le (hpaced : h.Paced settings) (hnext : h.Precedes point) {p : GrowthPoint}
    (hp : p ∈ h.added settings point) : p.time ≤ point.time := by
  rcases mem_added hp with hp | rfl
  · exact (hpaced.lastTime p hp).trans hnext.time
  · exact le_rfl

theorem total_le (hpaced : h.Paced settings) (hnext : h.Precedes point) {p : GrowthPoint}
    (hp : p ∈ h.added settings point) : p.total ≤ point.total := by
  rcases mem_added hp with hp | rfl
  · exact (hpaced.lastTotal p hp).trans hnext.total
  · exact le_rfl

/-- **The length of a history**: the window holds thirty distances. -/
theorem length_windowed (hpaced : h.Paced settings) (hnext : h.Precedes point) :
    (h.windowed settings point).length ≤ 31 := by
  have hcover : windowNanos settings ≤ 30 * spacingNanos settings := by
    have hsecs : settings.1 ≤ 30 * divCeil settings.1 30 := by
      unfold divCeil
      omega
    unfold windowNanos spacingNanos
    rw [← Nat.mul_assoc]
    exact Nat.mul_le_mul_right nanosPerSec hsecs
  exact SlidingWindow.length_expire_le (hpaced.spaced_added hnext) hcover
    fun p hp => hpaced.time_le hnext hp

end GrowthHistory.Paced

/-- **The cap is idle.** -/
theorem GrowthHistory.extend_points {cap : HistoryCap} (hcap : 31 ≤ cap.1)
    (hpaced : h.Paced settings) (hnext : h.Precedes point) :
    (h.extend cap settings point).points = h.windowed settings point := by
  have hlength := hpaced.length_windowed hnext
  have hnone : (h.windowed settings point).length - cap.1 = 0 := by omega
  change (h.windowed settings point).drop ((h.windowed settings point).length - cap.1) = _
  rw [hnone, List.drop_zero]

theorem GrowthHistory.extend_uncapped {cap cap' : HistoryCap} (hcap : 31 ≤ cap.1)
    (hcap' : 31 ≤ cap'.1) (hpaced : h.Paced settings) (hnext : h.Precedes point) :
    h.extend cap settings point = h.extend cap' settings point := by
  have hpoints := (extend_points hcap hpaced hnext).trans (extend_points hcap' hpaced hnext).symm
  unfold extend at hpoints ⊢
  rw [GrowthHistory.mk.injEq]
  exact ⟨rfl, rfl, hpoints⟩

/-- **One more point.** -/
theorem GrowthHistory.Paced.extend {cap : HistoryCap} (hcap : 31 ≤ cap.1)
    (hpaced : h.Paced settings) (hnext : h.Precedes point) :
    (h.extend cap settings point).Paced settings := by
  have hpoints := extend_points hcap hpaced hnext
  have hsuffix : h.windowed settings point <:+ h.added settings point :=
    SlidingWindow.expire_suffix _
  refine ⟨?_, ?_, fun p hp => ?_, fun p hp => ?_, hpoints ▸ hpaced.length_windowed hnext⟩
  · rw [hpoints]
    exact (hpaced.spaced_added hnext).sublist hsuffix.sublist
  · rw [hpoints]
    exact (hpaced.totals_added hnext).sublist hsuffix.sublist
  · rw [hpoints] at hp
    exact hpaced.time_le hnext (hsuffix.subset hp)
  · rw [hpoints] at hp
    exact hpaced.total_le hnext (hsuffix.subset hp)

/-! ## Out of the warming-up state -/

/-- The history covers the window. -/
def GrowthHistory.Settled (settings : Nat × Nat) (h : GrowthHistory) : Prop :=
  windowNanos settings ≤ h.last.time - h.baseline.time

theorem GrowthHistory.head?_points (h : GrowthHistory) : h.points.head? = some h.baseline :=
  List.head?_eq_some_head h.nonempty

/-- **A history that covers the window goes on doing so.** -/
theorem GrowthHistory.Settled.extend {cap : HistoryCap} (hcap : 31 ≤ cap.1)
    (hsettled : h.Settled settings) (hpaced : h.Paced settings) (hnext : h.Precedes point) :
    (h.extend cap settings point).Settled settings := by
  have hhead : (h.added settings point).head? = some h.baseline := by
    unfold added
    split
    · rw [List.head?_append, h.head?_points]
      rfl
    · exact h.head?_points
  have hold : windowNanos settings ≤ point.time - h.baseline.time := by
    have htime := hnext.time
    unfold Settled at hsettled
    omega
  obtain ⟨b, hb, hage⟩ := SlidingWindow.aged_expire hhead hold
  have hbase : (h.extend cap settings point).baseline = b := by
    have hpoints := (h.extend cap settings point).head?_points
    rw [extend_points hcap hpaced hnext, windowed_eq, hb] at hpoints
    exact (Option.some.inj hpoints).symm
  unfold Settled
  rw [hbase]
  exact hage

theorem rowStatus_warmingUp {half : Nat → Nat} {cap : HistoryCap} :
    rowStatus half settings (h.extend cap settings point) point = .warmingUp ↔
      ¬ (h.extend cap settings point).Settled settings := by
  unfold rowStatus GrowthHistory.Settled GrowthHistory.elapsed
  have hlast : (h.extend cap settings point).last = point := rfl
  rw [hlast, not_le]
  constructor
  · intro hstatus
    by_contra hno
    rw [if_neg hno] at hstatus
    split at hstatus <;> cases hstatus
  · intro hyoung
    rw [if_pos hyoung]

end History

/-! ## One row -/

/-- Histories that are paced, their points readings of their own incarnation, as `R` has them. -/
def HistoriesOk (settings : Nat × Nat) (R : String → ServiceGeneration → GrowthPoint → Prop)
    (histories : FinMap String GrowthHistory) : Prop :=
  ∀ target h, histories.lookup target = some h →
    h.Paced settings ∧ ∀ p ∈ h.points, R target h.generation p

/-- What a status makes of the knowledge that a target has left the warming-up state. -/
def GrowthStatus.leaves (left : Bool) : GrowthStatus → Bool
  | .stable => true
  | .sustainedGrowth => true
  | .warmingUp => left
  | .reset => false
  | .unavailable => false

/-- A target that has left the warming-up state has a history that covers the window. -/
def LeftWarmUp (settings : Nat × Nat) (target : String) (left : Bool)
    (histories : FinMap String GrowthHistory) : Prop :=
  left = true → ∃ h, histories.lookup target = some h ∧ h.Settled settings

section Rows

variable {cap : HistoryCap} {half : Nat → Nat} {settings : Nat × Nat} {now : Nat}
  {histories : FinMap String GrowthHistory} {sample : ServiceSample}
  {R : String → ServiceGeneration → GrowthPoint → Prop}

/-- **What a reading goes on with.** -/
theorem beginHistory_ok (hok : HistoriesOk settings R histories) (target : String)
    (generation : ServiceGeneration) (point : GrowthPoint) :
    let begun := (beginHistory settings (histories.lookup target) generation point).1
    begun.Paced settings ∧ begun.Precedes point ∧ begun.generation = generation ∧
      ∀ p ∈ begun.points, R target generation p ∨ p = point := by
  have hstart : (GrowthHistory.start generation point).Paced settings ∧
      (GrowthHistory.start generation point).Precedes point ∧
        (GrowthHistory.start generation point).generation = generation ∧
          ∀ p ∈ (GrowthHistory.start generation point).points, R target generation p ∨ p = point :=
    ⟨GrowthHistory.paced_start generation point, ⟨le_rfl, le_rfl⟩, rfl,
      fun p hp => Or.inr (List.mem_singleton.mp hp)⟩
  unfold beginHistory
  cases hlook : histories.lookup target with
  | none => exact hstart
  | some h =>
    dsimp only
    cases hreset : resetReason settings h generation point with
    | some reason => exact hstart
    | none =>
      obtain ⟨hgeneration, hnext⟩ := resetReason_none hreset
      obtain ⟨hpaced, hrecorded⟩ := hok target h hlook
      exact ⟨hpaced, hnext, hgeneration, fun p hp => Or.inl (hgeneration ▸ hrecorded p hp)⟩

/-- **One row keeps the histories in order.** -/
theorem observeRow_ok (half : Nat → Nat) (hcap : 31 ≤ cap.1) (hok : HistoriesOk settings R histories)
    (hR : ∀ generation point, sample.complete now = some (generation, point) →
      R sample.target generation point) :
    HistoriesOk settings R (observeRow cap half settings now histories sample).1 := by
  intro target h hlook
  unfold observeRow at hlook
  cases hcomplete : sample.complete now with
  | none =>
    rw [hcomplete] at hlook
    dsimp only at hlook
    rw [FinMap.lookup_erase_eq] at hlook
    split at hlook
    · cases hlook
    · exact hok target h hlook
  | some reading =>
    obtain ⟨generation, point⟩ := reading
    rw [hcomplete] at hlook
    dsimp only at hlook
    rw [FinMap.lookup_insert_eq] at hlook
    split at hlook
    · next heq =>
      obtain rfl := heq
      obtain rfl := Option.some.inj hlook
      obtain ⟨hpaced, hnext, hgeneration, hpoints⟩ :=
        beginHistory_ok hok sample.target generation point
      refine ⟨hpaced.extend hcap hnext, fun p hp => ?_⟩
      rw [GrowthHistory.extend_points hcap hpaced hnext] at hp
      have hsame : R sample.target generation p := by
        rcases GrowthHistory.mem_windowed hp with hp | rfl
        · rcases hpoints p hp with h | rfl
          · exact h
          · exact hR _ _ hcomplete
        · exact hR _ _ hcomplete
      have hfield : ((beginHistory settings (histories.lookup sample.target) generation
          point).1.extend cap settings point).generation = generation := hgeneration
      rw [hfield]
      exact hsame
    · exact hok target h hlook

/-- With the cap idle, any other would do. -/
theorem observeRow_uncapped {cap' : HistoryCap} (hcap : 31 ≤ cap.1) (hcap' : 31 ≤ cap'.1)
    (hok : HistoriesOk settings R histories) :
    observeRow cap half settings now histories sample =
      observeRow cap' half settings now histories sample := by
  unfold observeRow
  cases sample.complete now with
  | none => rfl
  | some reading =>
    obtain ⟨generation, point⟩ := reading
    dsimp only
    obtain ⟨hpaced, hnext, -, -⟩ :=
      beginHistory_ok hok sample.target generation point
    rw [GrowthHistory.extend_uncapped hcap hcap' hpaced hnext]

/-- A row is about its own target. -/
theorem lookup_observeRow_ne {target : String} (hne : target ≠ sample.target) :
    (observeRow cap half settings now histories sample).1.lookup target =
      histories.lookup target := by
  unfold observeRow
  split
  · rw [FinMap.lookup_erase_eq, if_neg hne]
  · dsimp only
    rw [FinMap.lookup_insert_eq, if_neg hne]

theorem filledRow_status (h : GrowthHistory) (point : GrowthPoint) (reset : Option String) :
    (filledRow half settings h point sample reset).status =
      if reset.isSome then .reset else rowStatus half settings h point := rfl

/-- **One row and the warming-up state.** -/
theorem observeRow_leaves (half : Nat → Nat) (now : Nat) (hcap : 31 ≤ cap.1)
    (hok : HistoriesOk settings R histories) {left : Bool} (hleft : LeftWarmUp settings sample.target left histories) :
    let after := observeRow cap half settings now histories sample
    (after.2.status = .warmingUp → left = false) ∧
      LeftWarmUp settings sample.target (after.2.status.leaves left) after.1 := by
  unfold observeRow
  cases hcomplete : sample.complete now with
  | none =>
    refine ⟨fun hstatus => ?_, fun htrue => ?_⟩
    · cases hstatus
    · cases htrue
  | some reading =>
    obtain ⟨generation, point⟩ := reading
    dsimp only
    obtain ⟨hpaced, hnext, -, -⟩ :=
      beginHistory_ok hok sample.target generation point
    cases hreset : (beginHistory settings (histories.lookup sample.target) generation point).2 with
    | some reason =>
      rw [filledRow_status, Option.isSome_some, if_pos rfl]
      exact ⟨by simp, by simp [LeftWarmUp, GrowthStatus.leaves]⟩
    | none =>
      rw [filledRow_status, Option.isSome_none, if_neg Bool.false_ne_true]
      -- a history that covered the window before the row covers it after
      have hstays : left = true → ((beginHistory settings (histories.lookup sample.target)
          generation point).1.extend cap settings point).Settled settings := by
        intro htrue
        obtain ⟨h, hlook, hsettled⟩ := hleft htrue
        rw [hlook] at hreset hpaced hnext ⊢
        unfold beginHistory at hreset hpaced hnext ⊢
        dsimp only at hreset hpaced hnext ⊢
        cases hreason : resetReason settings h generation point with
        | some reason =>
          rw [hreason] at hreset
          cases hreset
        | none =>
          rw [hreason] at hpaced hnext
          exact hsettled.extend hcap hpaced hnext
      refine ⟨fun hwarm => ?_, fun hleaves => ?_⟩
      · rw [Bool.eq_false_iff]
        exact fun htrue => rowStatus_warmingUp.mp hwarm (hstays htrue)
      · refine ⟨_, by rw [FinMap.lookup_insert_eq, if_pos rfl], ?_⟩
        by_contra hyoung
        rw [rowStatus_warmingUp.mpr hyoung] at hleaves
        exact hyoung (hstays hleaves)

end Rows

/-! ## One pass -/

/-- What a list of rows says of a target. -/
def statusesOf (target : String) (rows : List ServiceRow) : List GrowthStatus :=
  (rows.filter fun row => row.sample.target = target).map ServiceRow.status

/-- What a report says of a target: nothing is as good as data that is missing. -/
def GrowthReport.looks (report : GrowthReport) (target : String) : List GrowthStatus :=
  match statusesOf target report.rows with
  | [] => [.unavailable]
  | found => found

/-- Never warming up once that is left, from `left` on. -/
def StaysOut : Bool → List GrowthStatus → Prop
  | _, [] => True
  | left, status :: rest => (status = .warmingUp → left = false) ∧ StaysOut (status.leaves left) rest

theorem staysOut_append {left : Bool} {xs ys : List GrowthStatus} :
    StaysOut left (xs ++ ys) ↔
      StaysOut left xs ∧ StaysOut (xs.foldl (fun left s => s.leaves left) left) ys := by
  induction xs generalizing left with
  | nil => simp [StaysOut]
  | cons status rest ih =>
    rw [List.cons_append, StaysOut, StaysOut, ih, List.foldl_cons, and_assoc]

section Passes

variable {cap : HistoryCap} {half : Nat → Nat} {settings : Nat × Nat} {now : Nat}
  {histories : FinMap String GrowthHistory} {samples : List ServiceSample} {target : String}
  {R : String → ServiceGeneration → GrowthPoint → Prop}

theorem observeRow_sample (sample : ServiceSample) :
    (observeRow cap half settings now histories sample).2.sample = sample := by
  unfold observeRow
  split <;> rfl

theorem observeRows_ok (hcap : 31 ≤ cap.1) (hok : HistoriesOk settings R histories)
    (hR : ∀ sample ∈ samples, ∀ generation point,
      sample.complete now = some (generation, point) → R sample.target generation point) :
    HistoriesOk settings R (observeRows cap half settings now histories samples).1 := by
  induction samples generalizing histories with
  | nil => exact hok
  | cons sample rest ih =>
    rw [observeRows]
    exact ih (observeRow_ok half hcap hok (hR sample List.mem_cons_self))
      fun other hother => hR other (List.mem_cons_of_mem sample hother)

theorem observeRows_uncapped {cap' : HistoryCap} (hcap : 31 ≤ cap.1) (hcap' : 31 ≤ cap'.1)
    (hok : HistoriesOk settings R histories)
    (hR : ∀ sample ∈ samples, ∀ generation point,
      sample.complete now = some (generation, point) → R sample.target generation point) :
    observeRows cap half settings now histories samples =
      observeRows cap' half settings now histories samples := by
  induction samples generalizing histories with
  | nil => rfl
  | cons sample rest ih =>
    rw [observeRows, observeRows, ← observeRow_uncapped hcap hcap' hok]
    rw [ih (observeRow_ok half hcap hok (hR sample List.mem_cons_self))
      fun other hother => hR other (List.mem_cons_of_mem sample hother)]

theorem statusesOf_cons (row : ServiceRow) (rows : List ServiceRow) :
    statusesOf target (row :: rows) =
      if row.sample.target = target then row.status :: statusesOf target rows
      else statusesOf target rows := by
  unfold statusesOf
  rw [List.filter_cons]
  by_cases h : row.sample.target = target
  · simp [h]
  · simp [h]

/-- The rows of a pass, and what they say of a target. -/
theorem observeRows_leaves (half : Nat → Nat) (hcap : 31 ≤ cap.1)
    (hok : HistoriesOk settings R histories)
    (hR : ∀ sample ∈ samples, ∀ generation point,
      sample.complete now = some (generation, point) → R sample.target generation point)
    {left : Bool} (hleft : LeftWarmUp settings target left histories) :
    let after := observeRows cap half settings now histories samples
    StaysOut left (statusesOf target after.2) ∧
      LeftWarmUp settings target
        ((statusesOf target after.2).foldl (fun left s => s.leaves left) left) after.1 := by
  induction samples generalizing histories left with
  | nil => exact ⟨trivial, hleft⟩
  | cons sample rest ih =>
    have hnext := observeRow_ok half hcap hok (hR sample List.mem_cons_self)
    have hrest := fun other hother => hR other (List.mem_cons_of_mem sample hother)
    rw [observeRows]
    dsimp only
    rw [statusesOf_cons, observeRow_sample]
    by_cases heq : sample.target = target
    · subst heq
      rw [if_pos rfl]
      obtain ⟨hstatus, hafter⟩ := observeRow_leaves half now hcap hok hleft
      obtain ⟨hstays, hflag⟩ := ih hnext hrest hafter
      exact ⟨⟨hstatus, hstays⟩, hflag⟩
    · rw [if_neg heq]
      refine ih hnext hrest fun htrue => ?_
      rw [lookup_observeRow_ne (Ne.symm heq)]
      exact hleft htrue

theorem statusesOf_observeRows_eq_nil :
    statusesOf target (observeRows cap half settings now histories samples).2 = [] ↔
      ∀ sample ∈ samples, sample.target ≠ target := by
  induction samples generalizing histories with
  | nil => simp [observeRows, statusesOf]
  | cons sample rest ih =>
    rw [observeRows]
    dsimp only
    rw [statusesOf_cons, observeRow_sample]
    by_cases heq : sample.target = target
    · simp [heq]
    · rw [if_neg heq, ih]
      simp [heq]

/-- The tracker between passes: histories in order, gathered under these settings. -/
structure TrackerOk (settings : Nat × Nat) (R : String → ServiceGeneration → GrowthPoint → Prop)
    (t : GrowthTracker) : Prop where
  histories : HistoriesOk settings R t.histories
  settled : t.settings = some settings ∨ t.histories = ∅

variable {t : GrowthTracker} {pass : GrowthPass}

theorem lookup_kept {h : GrowthHistory} (hlook : (t.kept settings pass).lookup target = some h) :
    t.histories.lookup target = some h := by
  unfold GrowthTracker.kept at hlook
  dsimp only at hlook
  obtain ⟨hlook, -⟩ := FinMap.lookup_retain_some.mp hlook
  split at hlook
  · cases hlook
  · exact hlook

/-- A target that is looked at keeps its history. -/
theorem kept_of_looked (ht : TrackerOk settings R t) {sample : ServiceSample}
    (hsample : sample ∈ pass.looked) {h : GrowthHistory}
    (hlook : t.histories.lookup sample.target = some h) :
    (t.kept settings pass).lookup sample.target = some h := by
  have hmonitor : pass.monitor = true := by
    by_contra hno
    unfold GrowthPass.looked at hsample
    rw [if_neg hno] at hsample
    simp at hsample
  have hsettings : t.settings = some settings := by
    rcases ht.settled with hsame | hempty
    · exact hsame
    · rw [hempty] at hlook
      cases hlook
  unfold GrowthTracker.kept
  dsimp only
  refine FinMap.lookup_retain_some.mpr ⟨?_, ?_⟩
  · simpa [hsettings, hmonitor] using hlook
  · exact List.any_eq_true.mpr ⟨sample, hsample, by simp⟩

theorem observeWith_ok (hcap : 31 ≤ cap.1) (ht : TrackerOk settings R t)
    (hR : ∀ sample ∈ pass.looked, ∀ generation point,
      sample.complete pass.now = some (generation, point) → R sample.target generation point) :
    TrackerOk settings R (observeWith cap half settings t pass).1 :=
  ⟨observeRows_ok hcap (fun target h hlook => ht.histories target h (lookup_kept hlook)) hR,
    Or.inl rfl⟩

theorem observeWith_uncapped {cap' : HistoryCap} (hcap : 31 ≤ cap.1) (hcap' : 31 ≤ cap'.1)
    (ht : TrackerOk settings R t)
    (hR : ∀ sample ∈ pass.looked, ∀ generation point,
      sample.complete pass.now = some (generation, point) → R sample.target generation point) :
    observeWith cap half settings t pass = observeWith cap' half settings t pass := by
  unfold observeWith
  rw [observeRows_uncapped hcap hcap'
    (fun target h hlook => ht.histories target h (lookup_kept hlook)) hR]

/-- **One pass and the warming-up state.** -/
theorem observeWith_leaves (half : Nat → Nat) (hcap : 31 ≤ cap.1) (ht : TrackerOk settings R t)
    (hR : ∀ sample ∈ pass.looked, ∀ generation point,
      sample.complete pass.now = some (generation, point) → R sample.target generation point)
    {left : Bool} (hleft : LeftWarmUp settings target left t.histories) :
    let after := observeWith cap half settings t pass
    StaysOut left (after.2.looks target) ∧
      LeftWarmUp settings target
        ((after.2.looks target).foldl (fun left s => s.leaves left) left) after.1.histories := by
  have hkept : HistoriesOk settings R (t.kept settings pass) :=
    fun target h hlook => ht.histories target h (lookup_kept hlook)
  have hrows : (observeWith cap half settings t pass).2.rows =
      (observeRows cap half settings pass.now (t.kept settings pass) pass.looked).2 := rfl
  dsimp only
  unfold GrowthReport.looks
  rw [hrows]
  by_cases hlooked : ∀ sample ∈ pass.looked, sample.target ≠ target
  · rw [statusesOf_observeRows_eq_nil.mpr hlooked]
    refine ⟨⟨fun h => ?_, trivial⟩, fun htrue => ?_⟩
    · cases h
    · cases htrue
  · have hsome : statusesOf target (observeRows cap half settings pass.now
        (t.kept settings pass) pass.looked).2 ≠ [] :=
      mt statusesOf_observeRows_eq_nil.mp hlooked
    obtain ⟨sample, hsample, htarget⟩ : ∃ sample ∈ pass.looked, sample.target = target := by
      simpa using hlooked
    have hbegin : LeftWarmUp settings target left (t.kept settings pass) := by
      intro htrue
      obtain ⟨h, hlook, hsettled⟩ := hleft htrue
      subst htarget
      exact ⟨h, kept_of_looked ht hsample hlook, hsettled⟩
    obtain ⟨hstays, hflag⟩ := observeRows_leaves half hcap hkept hR hbegin
    split
    · next hnil => exact absurd hnil hsome
    · exact ⟨hstays, hflag⟩

end Passes

/-! ## A run -/

/-- A reading of a target that one of the passes took, and of which incarnation. -/
def ReadIn (passes : List GrowthPass) (target : String) (generation : ServiceGeneration)
    (point : GrowthPoint) : Prop :=
  ∃ pass ∈ passes, ∃ sample ∈ pass.looked, sample.target = target ∧
    sample.complete pass.now = some (generation, point)

/-- All a run reports of a target. -/
def growthTrace (target : String) (reports : List GrowthReport) : List GrowthStatus :=
  reports.flatMap fun report => report.looks target

section Run

variable {cap : HistoryCap} {half : Nat → Nat} {settings : Nat × Nat} {t : GrowthTracker}
  {passes : List GrowthPass} {R : String → ServiceGeneration → GrowthPoint → Prop}

theorem growthRun_ok (hcap : 31 ≤ cap.1) (ht : TrackerOk settings R t)
    (hR : ∀ target generation point, ReadIn passes target generation point →
      R target generation point) :
    TrackerOk settings R (growthRun cap half settings t passes).1 := by
  induction passes generalizing t with
  | nil => exact ht
  | cons pass rest ih =>
    rw [growthRun]
    refine ih (observeWith_ok hcap ht fun sample hsample generation point hcomplete => ?_) ?_
    · exact hR _ _ _ ⟨pass, List.mem_cons_self, sample, hsample, rfl, hcomplete⟩
    · rintro target generation point ⟨other, hother, hread⟩
      exact hR _ _ _ ⟨other, List.mem_cons_of_mem pass hother, hread⟩

theorem growthRun_uncapped {cap' : HistoryCap} (hcap : 31 ≤ cap.1) (hcap' : 31 ≤ cap'.1)
    (ht : TrackerOk settings R t)
    (hR : ∀ target generation point, ReadIn passes target generation point →
      R target generation point) :
    growthRun cap half settings t passes = growthRun cap' half settings t passes := by
  induction passes generalizing t with
  | nil => rfl
  | cons pass rest ih =>
    have hpass : ∀ sample ∈ pass.looked, ∀ generation point,
        sample.complete pass.now = some (generation, point) →
          R sample.target generation point := fun sample hsample generation point hcomplete =>
      hR _ _ _ ⟨pass, List.mem_cons_self, sample, hsample, rfl, hcomplete⟩
    rw [growthRun, growthRun, ← observeWith_uncapped hcap hcap' ht hpass]
    rw [ih (observeWith_ok hcap ht hpass)]
    rintro target generation point ⟨other, hother, hread⟩
    exact hR _ _ _ ⟨other, List.mem_cons_of_mem pass hother, hread⟩

theorem growthRun_staysOut {target : String} (hcap : 31 ≤ cap.1) (ht : TrackerOk settings R t)
    (hR : ∀ target generation point, ReadIn passes target generation point →
      R target generation point)
    {left : Bool} (hleft : LeftWarmUp settings target left t.histories) :
    StaysOut left (growthTrace target (growthRun cap half settings t passes).2) := by
  induction passes generalizing t left with
  | nil => trivial
  | cons pass rest ih =>
    have hpass : ∀ sample ∈ pass.looked, ∀ generation point,
        sample.complete pass.now = some (generation, point) →
          R sample.target generation point := fun sample hsample generation point hcomplete =>
      hR _ _ _ ⟨pass, List.mem_cons_self, sample, hsample, rfl, hcomplete⟩
    obtain ⟨hstays, hafter⟩ := observeWith_leaves half hcap ht hpass hleft
    rw [growthRun, growthTrace, List.flatMap_cons]
    refine staysOut_append.mpr ⟨hstays, ih (observeWith_ok hcap ht hpass) ?_ hafter⟩
    rintro target generation point ⟨other, hother, hread⟩
    exact hR _ _ _ ⟨other, List.mem_cons_of_mem pass hother, hread⟩

end Run

/-- Nothing starts the comparison over. -/
theorem leaves_foldl {statuses : List GrowthStatus}
    (h : ∀ s ∈ statuses, s ≠ .reset ∧ s ≠ .unavailable) :
    statuses.foldl (fun left s => s.leaves left) true = true := by
  induction statuses with
  | nil => rfl
  | cons s rest ih =>
    have hs : s.leaves true = true := by
      obtain ⟨hreset, hmissing⟩ := h s List.mem_cons_self
      cases s with
      | unavailable => exact absurd rfl hmissing
      | reset => exact absurd rfl hreset
      | warmingUp => rfl
      | sustainedGrowth => rfl
      | stable => rfl
    rw [List.foldl_cons, hs]
    exact ih fun other hother => h other (List.mem_cons_of_mem s hother)

/-- A stored history, as the passes so far have made it. -/
structure HistoryLawful (settings : Nat × Nat) (passes : List GrowthPass) (target : String)
    (h : GrowthHistory) : Prop where
  increasing : h.points.Pairwise fun a b => a.time < b.time
  totals : h.points.Pairwise fun a b => a.total ≤ b.total
  spaced : h.points.Pairwise fun a b => a.time + spacingNanos settings ≤ b.time
  incarnation : ∀ p ∈ h.points, ReadIn passes target h.generation p
  bounded : h.points.length ≤ 31

/-- **What holds of every run**: of each stored history, of the cap, and of the warming-up
state. -/
structure GrowthLawful (half : Nat → Nat) (settings : Nat × Nat) (passes : List GrowthPass) :
    Prop where
  histories : ∀ target h,
    (growthRun hardCap half settings {} passes).1.histories.lookup target = some h →
      HistoryLawful settings passes target h
  uncapped : ∀ cap : HistoryCap, 31 ≤ cap.1 →
    growthRun hardCap half settings {} passes = growthRun cap half settings {} passes
  warmUp : ∀ target before between after status,
    growthTrace target (growthRun hardCap half settings {} passes).2 =
        before ++ status :: (between ++ .warmingUp :: after) →
      status = .stable ∨ status = .sustainedGrowth →
        ∃ s ∈ between, s = .reset ∨ s = .unavailable

/-- **The tracker**, whatever is read, whenever, and however the midpoint is rounded. -/
theorem service_growth_lawful (half : Nat → Nat) (guard : GrowthPolicy)
    (passes : List GrowthPass) : GrowthLawful half guard.settings passes := by
  have hbegin : TrackerOk guard.settings (ReadIn passes) {} := by
    refine ⟨fun target h hlook => ?_, Or.inr rfl⟩
    cases hlook
  have hcap : 31 ≤ hardCap.1 := by decide
  refine ⟨fun target h hlook => ?_, fun cap hother => ?_, ?_⟩
  · obtain ⟨hpaced, hread⟩ :=
      (growthRun_ok hcap hbegin fun _ _ _ hread => hread).histories target h hlook
    have hspacing : 0 < spacingNanos guard.settings := by
      have hwindow : 60 ≤ guard.settings.1 := le_max_left 60 _
      have hsecs : 0 < divCeil guard.settings.1 (maxHistory - 2) := by
        unfold divCeil maxHistory
        omega
      exact Nat.mul_pos hsecs (by decide)
    exact
      { increasing := hpaced.spaced.imp fun hfar => by omega
        totals := hpaced.totals
        spaced := hpaced.spaced
        incarnation := hread
        bounded := hpaced.length }
  · exact growthRun_uncapped hcap hother hbegin fun _ _ _ hread => hread
  · intro target before between after status htrace hstatus
    have hout : StaysOut false
        (growthTrace target (growthRun hardCap half guard.settings {} passes).2) :=
      growthRun_staysOut hcap hbegin (fun _ _ _ hread => hread) fun hno => by cases hno
    rw [htrace, List.append_cons, ← List.append_assoc] at hout
    have hwarm := (staysOut_append.mp hout).2.1 rfl
    rw [List.foldl_append, List.foldl_append] at hwarm
    have hleaves : ∀ left, status.leaves left = true := by
      rcases hstatus with rfl | rfl
      · exact fun _ => rfl
      · exact fun _ => rfl
    rw [List.foldl_cons, List.foldl_nil, hleaves] at hwarm
    by_contra hnone
    have hkept : ∀ s ∈ between, s ≠ .reset ∧ s ≠ .unavailable := by
      intro s hs
      exact ⟨fun h => hnone ⟨s, hs, Or.inl h⟩, fun h => hnone ⟨s, hs, Or.inr h⟩⟩
    rw [leaves_foldl hkept] at hwarm
    cases hwarm

end DraconGuard
