import DraconGuard.Lib.Runs
import DraconGuard.Guard.Alerts

/-!
# Alerts re-arm and are rate limited

An old verdict "must not suppress notification when a fresh growth window appears" (main.rs:6373):
after its condition was seen clear, an alarm is given at once when the condition holds again; and
while its value stays the same it repeats no sooner than `report_repeat_secs`. For that every check
must report the clear state too, under its own key and to the runtime state of the daemon. Three do
not: the log sizes, the mounts that cannot be read, and the links when there are none
(`log_alarm_muted`); and a background cleanup reports to a state of its own.
-/

namespace DraconGuard

/-- **The law of one condition.** -/
structure Rearms (guard : AlertPolicy) (hist : AlertHistory) : Prop where
  rearmed : Alarm.Rearmed hist
  limited : Alarm.RateLimited (max guard.reportRepeatSecs 1) hist

/-- The law of every condition. -/
def AlertsRearm (guard : AlertPolicy) (w : AlertWorld) : Prop :=
  ∀ key, Rearms guard (w.history key)

/-! ## What the checks report -/

/-- A reading passes on an alarm exactly if its condition holds. -/
structure Reading.Sound (r : Reading) : Prop where
  alarm : ∀ v, r.report = some v → v.alarm = r.holds
  told : r.holds = true → r.report ≠ none

/-- Under these keys a background cleanup reports, under the others a pass. -/
def ReportKey.ofCleanup : ReportKey → Bool
  | .autoCleanup | .proactiveCleanup => true
  | _ => false

def AlertEvent.Sound : AlertEvent → Prop
  | .read r _ => r.Sound ∧ r.key.ofCleanup = false
  | .dropHeavy _ _ => True
  | .readScratch r _ => r.Sound ∧ r.key.ofCleanup = true ∧ r.report ≠ none

theorem sound_of {key : ReportKey} {holds : Bool} {alarm clear : ReportValue}
    (halarm : alarm.alarm = true) (hclear : clear.alarm = false) :
    (Reading.of key holds alarm clear).Sound where
  alarm := by
    rintro v hv
    obtain rfl := Option.some.inj hv
    cases holds with
    | true => exact halarm
    | false => exact hclear
  told _ := Option.some_ne_none _

theorem alarm_diskState (s : DiskState) : s.value.alarm = decide (s ≠ .ok) := by
  cases s <;> rfl

theorem alarm_pressure (p : Pressure) : p.value.alarm = decide (p ≠ .ok) := by
  cases p <;> rfl

section Checks

variable {guard : AlertPolicy} {r : Reading}

/-- The checks of a pass that come before the process table. -/
theorem sound_disk {used availBytes : Nat} {p : PassReadings}
    (h : r ∈ checkExtraMounts guard p.extraMounts p.unreadableMounts ++
      checkDiskEarlyWarning guard used ++ checkRapidDiskFill guard p.fillRate ++
      checkDiskTrends guard availBytes p.fillRate ++ checkLinkDrift p.links) :
    r.Sound ∧ r.key.ofCleanup = false := by
  simp only [List.mem_append] at h
  rcases h with (((h | h) | h) | h) | h
  · unfold checkExtraMounts at h
    rw [List.mem_append, List.mem_map, List.mem_singleton] at h
    rcases h with ⟨m, -, rfl⟩ | rfl
    · refine ⟨⟨fun v hv => ?_, fun _ => Option.some_ne_none _⟩, rfl⟩
      obtain rfl := Option.some.inj hv
      exact alarm_diskState _
    · cases p.unreadableMounts with
      | nil => exact ⟨⟨nofun, nofun⟩, rfl⟩
      | cons m ms =>
        exact ⟨⟨fun v hv => by obtain rfl := Option.some.inj hv; rfl, fun _ => nofun⟩, rfl⟩
  · obtain rfl := List.mem_singleton.1 h
    exact ⟨sound_of rfl rfl, rfl⟩
  · cases hrate : p.fillRate with
    | filling rate =>
      rw [hrate] at h
      obtain rfl := List.mem_singleton.1 h
      exact ⟨sound_of rfl rfl, rfl⟩
    | unmeasured | notFilling =>
      rw [hrate] at h
      obtain rfl := List.mem_singleton.1 h
      exact ⟨sound_of rfl rfl, rfl⟩
  · unfold checkDiskTrends at h
    split at h
    · obtain rfl := List.mem_singleton.1 h
      exact ⟨sound_of rfl rfl, rfl⟩
    · cases h
  · unfold checkLinkDrift at h
    split at h
    · cases h
    · obtain rfl := List.mem_singleton.1 h
      exact ⟨⟨nofun, nofun⟩, rfl⟩
    · obtain rfl := List.mem_singleton.1 h
      exact ⟨sound_of rfl rfl, rfl⟩

/-- The checks after it. -/
theorem sound_late {p : PassReadings}
    (h : r ∈ checkInodeUsage guard p.inodePercent ++ checkZombieProcesses guard p.zombies ++
      checkLargeLogs guard p.logs ++ memoryPressureReport guard p.pressure ++
      checkServiceMemoryGrowth guard p.growth ++ checkSwapDevices p.swapIssues) :
    r.Sound ∧ r.key.ofCleanup = false := by
  simp only [List.mem_append] at h
  rcases h with ((((h | h) | h) | h) | h) | h
  · unfold checkInodeUsage at h
    split at h
    · split at h
      · obtain rfl := List.mem_singleton.1 h
        exact ⟨sound_of rfl rfl, rfl⟩
      · obtain rfl := List.mem_singleton.1 h
        exact ⟨sound_of rfl rfl, rfl⟩
    · cases h
  · unfold checkZombieProcesses at h
    split at h
    · obtain rfl := List.mem_singleton.1 h
      exact ⟨sound_of rfl rfl, rfl⟩
    · cases h
  · unfold checkLargeLogs at h
    split at h
    · next logs _ _ =>
      obtain rfl := List.mem_singleton.1 h
      cases logs with
      | nil => exact ⟨⟨nofun, nofun⟩, rfl⟩
      | cons l ls =>
        exact ⟨⟨fun v hv => by obtain rfl := Option.some.inj hv; rfl, fun _ => nofun⟩, rfl⟩
    · cases h
  · unfold memoryPressureReport at h
    split at h
    · obtain rfl := List.mem_singleton.1 h
      refine ⟨⟨fun v hv => ?_, fun _ => Option.some_ne_none _⟩, rfl⟩
      obtain rfl := Option.some.inj hv
      exact alarm_pressure _
    · cases h
  · obtain rfl := List.mem_singleton.1 h
    refine ⟨⟨fun v hv => ?_, fun _ => Option.some_ne_none _⟩, rfl⟩
    obtain rfl := Option.some.inj hv
    rfl
  · obtain rfl := List.mem_singleton.1 h
    exact ⟨sound_of rfl rfl, rfl⟩

theorem sound_heavy {samples : List HeavySample}
    (h : r ∈ samples.filterMap (HeavySample.reading guard)) :
    r.Sound ∧ r.key.ofCleanup = false := by
  obtain ⟨p, -, hp⟩ := List.mem_filterMap.1 h
  unfold HeavySample.reading at hp
  split at hp
  · obtain rfl := Option.some.inj hp
    refine ⟨⟨fun v hv => ?_, fun _ => Option.some_ne_none _⟩, rfl⟩
    obtain rfl := Option.some.inj hv
    split_ifs <;> rfl
  · cases hp

theorem sound_cleanup {key : ReportKey} (cleaned : List String) :
    (cleanupReading key guard cleaned).Sound :=
  sound_of (by split_ifs <;> rfl) rfl

/-- **Every check of a pass or of a cleanup reports as it sees.** -/
theorem sound_events (guard : AlertPolicy) (i : AlertInput) :
    ∀ e ∈ i.events guard, e.Sound := by
  intro e he
  cases i with
  | pass p =>
    change e ∈ passEvents guard p at he
    unfold passEvents at he
    dsimp only at he
    split at he
    · cases he
    · rw [List.mem_append, List.mem_map] at he
      rcases he with ⟨r, hr, rfl⟩ | he
      · exact sound_disk hr
      · split at he
        · cases he
        · rw [List.mem_append, List.mem_append, List.mem_map, List.mem_map,
            List.mem_singleton] at he
          rcases he with (⟨r, hr, rfl⟩ | rfl) | ⟨r, hr, rfl⟩
          · exact sound_heavy hr
          · trivial
          · exact sound_late hr
  | cleanup c =>
    change e ∈ cleanupEvents guard c at he
    unfold cleanupEvents at he
    rw [List.mem_map] at he
    obtain ⟨r, hr, rfl⟩ := he
    rw [List.mem_append, List.mem_map] at hr
    rcases hr with hr | ⟨cleaned, -, rfl⟩
    · split at hr
      · obtain rfl := List.mem_singleton.1 hr
        exact ⟨sound_cleanup _, rfl, Option.some_ne_none _⟩
      · cases hr
    · exact ⟨sound_cleanup _, rfl, Option.some_ne_none _⟩

end Checks

/-! ## What the stored report knows -/

/-- The report under a key; a key that is not there is the empty one. -/
def AlertWorld.stored (w : AlertWorld) (key : ReportKey) : ReportState :=
  (w.states.lookup key).getD {}

/-- A pass's reports track their condition. A cleanup's report is forgotten with its task: there
the last sighting itself is what the next one is compared with. -/
def InStep (w : AlertWorld) (key : ReportKey) : Prop :=
  if key.ofCleanup then
    ∃ last, Alarm.Tracks ReportValue.alarm ((w.history key).head?.bind (·.value)) last
        (w.history key) ∧
      ∀ e ∈ (w.history key).head?, e.holds = true → last = some e.time
  else
    Alarm.Tracks ReportValue.alarm (w.stored key).previous (w.stored key).lastEmitted
      (w.history key)

/-- **What a step must not do**: see a condition clear, and leave an alarm stored; or find, in a
background cleanup, what the last one found within the interval. -/
def Reported (guard : AlertPolicy) (w : AlertWorld) : AlertEvent → Prop
  | .read r _ => r.report = none → ∀ s, w.states.lookup r.key = some s → s.value = some .ok
  | .readScratch r now => r.holds = true → ∀ e ∈ (w.history r.key).head?, e.holds = true →
    e.value = r.report → max guard.reportRepeatSecs 1 ≤ now - e.time
  | .dropHeavy _ _ => True

section Step

variable {guard : AlertPolicy} {w : AlertWorld} {r : Reading} {now : Time}

theorem transition_due (states : ReportStates) (key : ReportKey) (value : ReportValue)
    (repeatSecs : Nat) (now : Time) {holds : Bool} (hholds : value.alarm = holds) :
    ((reportStateTransition states key value repeatSecs now).2.2 && holds) =
      (Alarm.fed (max repeatSecs 1) ReportValue.alarm ((states.lookup key).getD {}).previous
        ((states.lookup key).getD {}).lastEmitted value now).emitted := by
  subst hholds
  unfold reportStateTransition Alarm.fed Alarm.due
  dsimp only
  cases halarm : value.alarm with
  | false => rw [Bool.and_false, Bool.and_false]
  | true =>
    have hok : value ≠ .ok := by rintro rfl; cases halarm
    rw [decide_eq_true hok]

/-- The register behind a key, and what a report makes of it. -/
theorem transition_stored (states : ReportStates) (key : ReportKey) (value : ReportValue)
    (repeatSecs : Nat) (now : Time) :
    ∃ last, (reportStateTransition states key value repeatSecs now).1 =
        AList.insert key ⟨some value, last⟩ states ∧
      ((reportStateTransition states key value repeatSecs now).2.2 = true → last = some now) ∧
      ((reportStateTransition states key value repeatSecs now).2.2 = false →
        last = ((states.lookup key).getD {}).lastEmitted) := by
  unfold reportStateTransition
  exact ⟨_, rfl, fun h => if_pos h, fun h => if_neg (Bool.eq_false_iff.1 h)⟩

/-- A reading that is reported goes into the history as the alarm library has it. -/
theorem sightingOf_fed (guard : AlertPolicy) (states : ReportStates) (now : Time) (hr : r.Sound)
    {v : ReportValue} (hv : r.report = some v) : (sightingOf guard states r now).2 =
      Alarm.fed (max guard.reportRepeatSecs 1) ReportValue.alarm
        ((states.lookup r.key).getD {}).previous ((states.lookup r.key).getD {}).lastEmitted v
        now := by
  have hdue := transition_due states r.key v guard.reportRepeatSecs now (hr.alarm v hv)
  have hholds := hr.alarm v hv
  unfold sightingOf
  rw [hv]
  dsimp only
  rw [hdue, ← hholds]
  rfl

theorem sightingOf_unfed {states : ReportStates} (hnone : r.report = none) :
    sightingOf guard states r now = (states, ⟨now, r.holds, none, false⟩) := by
  unfold sightingOf
  rw [hnone]

theorem not_holds_of_unfed (hr : r.Sound) (hnone : r.report = none) : r.holds = false := by
  cases hholds : r.holds with
  | false => rfl
  | true => exact absurd hnone (hr.told hholds)

theorem isEmpty_not_alarm {v : ReportValue} (h : v.isEmpty = true) : v.alarm = false := by
  unfold ReportValue.isEmpty at h
  split at h
  · rfl
  · cases h

theorem saw_history (w : AlertWorld) (key key' : ReportKey) (e : Alarm.Sighting ReportValue) :
    (w.saw key e).history key' =
      if key' = key then e :: w.history key else w.history key' := by
  unfold AlertWorld.saw
  exact Function.update_apply _ _ _ _

/-- A report under one key is no report under another. -/
theorem stored_other {states : ReportStates} {key : ReportKey} (hne : key ≠ r.key) :
    (((sightingOf guard states r now).1.lookup key).getD {} : ReportState) =
      (states.lookup key).getD {} := by
  unfold sightingOf
  split
  · rfl
  · obtain ⟨last, heq, -, -⟩ := transition_stored states r.key _ guard.reportRepeatSecs now
    dsimp only
    rw [heq, FinMap.lookup_insert_eq, if_neg hne]

theorem inStep_read (hr : r.Sound) (hkey : r.key.ofCleanup = false) (h : InStep w r.key)
    (hok : Reported guard w (.read r now)) :
    InStep (alertStep guard w (.read r now)) r.key := by
  have hpos : 0 < max guard.reportRepeatSecs 1 := by omega
  unfold InStep at h ⊢
  rw [hkey] at h ⊢
  rw [if_neg (by decide)] at h ⊢
  dsimp only [alertStep]
  rw [saw_history, if_pos rfl]
  cases hv : r.report with
  | none =>
    rw [sightingOf_unfed hv]
    refine Alarm.Tracks.clear_cons (not_holds_of_unfed hr hv) rfl fun v hstored => ?_
    change (w.stored r.key).previous = some v at hstored
    unfold AlertWorld.stored at hstored
    cases hlookup : w.states.lookup r.key with
    | none => rw [hlookup] at hstored; cases hstored
    | some s =>
      rw [hlookup, Option.getD_some] at hstored
      unfold ReportState.previous at hstored
      rw [hok hv s hlookup] at hstored
      obtain rfl := Option.some.inj hstored
      rfl
  | some v =>
    have hfed := sightingOf_fed guard w.states now hr hv
    obtain ⟨last, hstates, hdue, hquiet⟩ :=
      transition_stored w.states r.key v guard.reportRepeatSecs now
    have hdueEq := transition_due w.states r.key v guard.reportRepeatSecs now rfl
    have hfirst : (sightingOf guard w.states r now).1 =
        AList.insert r.key ⟨some v, last⟩ w.states := by
      unfold sightingOf
      rw [hv]
      exact hstates
    have hstored : ({ w with states := (sightingOf guard w.states r now).1 }.saw r.key
        (sightingOf guard w.states r now).2).stored r.key = ⟨some v, last⟩ := by
      unfold AlertWorld.stored AlertWorld.saw
      dsimp only
      rw [hfirst, FinMap.lookup_insert_eq, if_pos rfl]
      rfl
    rw [hstored, hfed]
    cases hempty : v.isEmpty with
    | true =>
      have hnone : (⟨some v, last⟩ : ReportState).previous = none := by
        unfold ReportState.previous
        rw [Option.filter_some, hempty]
        rfl
      rw [hnone]
      have hclear : (Alarm.fed (max guard.reportRepeatSecs 1) ReportValue.alarm
          (w.stored r.key).previous (w.stored r.key).lastEmitted v now).emitted = false := by
        rw [Bool.eq_false_iff]
        intro hem
        rw [Alarm.fed_emitted, isEmpty_not_alarm hempty] at hem
        exact absurd hem.1 (by decide)
      exact Alarm.Tracks.clear_cons (isEmpty_not_alarm hempty) hclear nofun
    | false =>
      have hsome : (⟨some v, last⟩ : ReportState).previous = some v := by
        unfold ReportState.previous
        rw [Option.filter_some, hempty]
        rfl
      rw [hsome]
      refine h.feed hpos (fun hem => ?_) fun halarm hem => ?_
      · have hspoke := hdueEq.trans hem
        rw [Bool.and_eq_true] at hspoke
        exact hdue hspoke.1
      · have hsilent := hdueEq.trans hem
        rw [halarm, Bool.and_true] at hsilent
        exact hquiet hsilent

/-- A reading keeps the law of its condition. -/
theorem rearms_read (hr : r.Sound) (hkey : r.key.ofCleanup = false) (h : InStep w r.key)
    (hlaw : Rearms guard (w.history r.key)) :
    Rearms guard ((alertStep guard w (.read r now)).history r.key) := by
  unfold InStep at h
  rw [hkey, if_neg (by decide)] at h
  dsimp only [alertStep]
  rw [saw_history, if_pos rfl]
  cases hv : r.report with
  | none =>
    rw [sightingOf_unfed hv]
    exact ⟨Alarm.rearmed_clear hlaw.rearmed (not_holds_of_unfed hr hv),
      Alarm.rateLimited_silent hlaw.limited rfl⟩
  | some v =>
    rw [sightingOf_fed guard w.states now hr hv]
    exact ⟨h.rearmed_feed hlaw.rearmed v now, h.rateLimited_feed hlaw.limited v now⟩

/-- In a fresh state every value is a change. -/
theorem sightingOf_scratch (hr : r.Sound) {v : ReportValue} (hv : r.report = some v) :
    (sightingOf guard ∅ r now).2 = ⟨now, v.alarm, some v, v.alarm⟩ := by
  rw [sightingOf_fed guard ∅ now hr hv]
  unfold Alarm.fed Alarm.due
  rw [AList.lookup_empty]
  rfl

theorem readScratch_keeps (hr : r.Sound) (hkey : r.key.ofCleanup = true) {v : ReportValue}
    (hv : r.report = some v) (h : InStep w r.key) (hlaw : Rearms guard (w.history r.key))
    (hok : Reported guard w (.readScratch r now)) :
    InStep (alertStep guard w (.readScratch r now)) r.key ∧
      Rearms guard ((alertStep guard w (.readScratch r now)).history r.key) := by
  have hpos : 0 < max guard.reportRepeatSecs 1 := by omega
  unfold InStep at h ⊢
  rw [hkey, if_pos rfl] at h ⊢
  obtain ⟨last, htracks, hlast⟩ := h
  dsimp only [alertStep]
  rw [saw_history, if_pos rfl, sightingOf_scratch hr hv]
  -- What the cleanup emits is what it would emit next to the last sighting.
  have hsame : (⟨now, v.alarm, some v, v.alarm⟩ : Alarm.Sighting ReportValue) =
      Alarm.fed (max guard.reportRepeatSecs 1) ReportValue.alarm
        ((w.history r.key).head?.bind (·.value)) last v now := by
    have hem : (Alarm.fed (max guard.reportRepeatSecs 1) ReportValue.alarm
        ((w.history r.key).head?.bind (·.value)) last v now).emitted = v.alarm := by
      cases halarm : v.alarm with
      | false =>
        rw [Bool.eq_false_iff]
        intro hem
        exact absurd (halarm.symm.trans (Alarm.fed_emitted.1 hem).1) (by decide)
      | true =>
        refine Alarm.fed_emitted.2 ⟨halarm, ?_⟩
        by_contra hnot
        rw [not_or, not_not] at hnot
        obtain ⟨e, he, hvalue⟩ := Option.bind_eq_some_iff.1 hnot.1
        have hholds : e.holds = true := by
          cases hclear : e.holds with
          | true => rfl
          | false =>
            have hquiet := htracks.clear e he hclear v hnot.1
            exact absurd (hquiet.symm.trans halarm) (by decide)
        refine hnot.2 fun t ht => ?_
        obtain rfl := Option.some.inj ((hlast e he hholds).symm.trans ht)
        exact hok ((hr.alarm v hv).symm.trans halarm) e he hholds (hvalue.trans hv.symm)
    exact congrArg (fun b => (⟨now, v.alarm, some v, b⟩ : Alarm.Sighting ReportValue)) hem.symm
  have hnow : ∀ e ∈ (Alarm.fed (max guard.reportRepeatSecs 1) ReportValue.alarm
      ((w.history r.key).head?.bind (·.value)) last v now :: w.history r.key).head?,
      e.holds = true → (if v.alarm then some now else last) = some e.time := by
    intro e he hholds
    rw [List.head?_cons, Option.mem_some_iff] at he
    subst he
    exact if_pos hholds
  rw [hsame]
  refine ⟨⟨if v.alarm then some now else last, ?_, hnow⟩, ?_⟩
  · refine htracks.feed hpos (fun hem => if_pos (Alarm.fed_emitted.1 hem).1) fun halarm hem => ?_
    rw [← hsame] at hem
    exact absurd (halarm.symm.trans hem) (by decide)
  · exact ⟨htracks.rearmed_feed hlaw.rearmed v now, htracks.rateLimited_feed hlaw.limited v now⟩

/-- The reports of processes that are no longer heavy are gone: the next one is a change. -/
theorem dropHeavy_keeps {current : List ReportKey} {key : ReportKey} (h : InStep w key)
    (hlaw : Rearms guard (w.history key)) :
    InStep (alertStep guard w (.dropHeavy current now)) key ∧
      Rearms guard ((alertStep guard w (.dropHeavy current now)).history key) := by
  have hstored : (alertStep guard w (.dropHeavy current now)).stored key =
      if key.isHeavyProcess && !current.contains key then {} else w.stored key := by
    unfold AlertWorld.stored
    dsimp only [alertStep]
    rw [FinMap.lookup_retain]
    cases hgone : key.isHeavyProcess && !current.contains key with
    | true =>
      rw [if_pos rfl, Option.filter_eq_none_iff.2 fun s _ => ?_]
      · rfl
      · revert hgone
        cases key.isHeavyProcess <;> cases current.contains key <;> decide
    | false =>
      have hkept : (!key.isHeavyProcess || current.contains key) = true := by
        revert hgone
        cases key.isHeavyProcess <;> cases current.contains key <;> decide
      rw [if_neg (by decide)]
      cases w.states.lookup key with
      | none => rfl
      | some s => rw [Option.filter_some, if_pos hkept]
  have hhistory : (alertStep guard w (.dropHeavy current now)).history key =
      if key.isHeavyProcess && !current.contains key then
        ⟨now, false, none, false⟩ :: w.history key else w.history key := rfl
  unfold InStep at h ⊢
  rw [hstored, hhistory]
  cases hgone : key.isHeavyProcess && !current.contains key with
  | false => exact ⟨h, hlaw⟩
  | true =>
    have hkey : key.ofCleanup = false := by
      rw [Bool.and_eq_true] at hgone
      cases key <;> first | rfl | cases hgone.1
    rw [hkey]
    exact ⟨Alarm.Tracks.clear_cons rfl rfl nofun,
      Alarm.rearmed_clear hlaw.rearmed rfl, Alarm.rateLimited_silent hlaw.limited rfl⟩

/-! ## Runs -/

/-- Every condition is in step with its report, and obeys the law. -/
def Lawful (guard : AlertPolicy) (w : AlertWorld) : Prop :=
  ∀ key, InStep w key ∧ Rearms guard (w.history key)

theorem Lawful.step {e : AlertEvent} (h : Lawful guard w) (he : e.Sound)
    (hok : Reported guard w e) : Lawful guard (alertStep guard w e) := by
  intro key
  cases e with
  | read r now =>
    by_cases hkey : key = r.key
    · subst hkey
      exact ⟨inStep_read he.1 he.2 (h _).1 hok, rearms_read he.1 he.2 (h _).1 (h _).2⟩
    · have hhistory : (alertStep guard w (.read r now)).history key = w.history key := by
        dsimp only [alertStep]
        rw [saw_history, if_neg hkey]
      have hstored : (alertStep guard w (.read r now)).stored key = w.stored key :=
        stored_other hkey
      unfold InStep
      rw [hhistory, hstored]
      exact h key
  | dropHeavy current now => exact dropHeavy_keeps (h key).1 (h key).2
  | readScratch r now =>
    obtain ⟨hr, hcleanup, hreport⟩ := he
    by_cases hkey : key = r.key
    · subst hkey
      obtain ⟨v, hv⟩ := Option.ne_none_iff_exists'.1 hreport
      exact readScratch_keeps hr hcleanup hv (h _).1 (h _).2 hok
    · have hhistory : (alertStep guard w (.readScratch r now)).history key = w.history key := by
        dsimp only [alertStep]
        rw [saw_history, if_neg hkey]
      unfold InStep
      rw [hhistory]
      exact h key

theorem lawful_start (guard : AlertPolicy) : Lawful guard {} := by
  intro key
  refine ⟨?_, List.IsChain.nil, trivial⟩
  unfold InStep
  split_ifs
  · exact ⟨none, Alarm.Tracks.empty, nofun⟩
  · exact Alarm.Tracks.empty

end Step

/-- The events of a run of passes and background cleanups. -/
def alertEvents (guard : AlertPolicy) (is : List AlertInput) : List AlertEvent :=
  is.flatMap (AlertInput.events guard)

/-- A pass over a disk at 75 %, with one log over the limit and a mount that cannot be read. -/
private def alarmedPass (now : Time) : PassReadings where
  disk := some (75, 0)
  unreadableMounts := ["/mnt/data"]
  links := none
  logs := some ["/var/log/journal.log"]
  now _ := now

/-- Passes over a calm disk, with a log over the limit at 0 s, none at 30 s, and one at 60 s. -/
private def logRelapse : List AlertInput :=
  let calm (now : Time) (logs : List String) : AlertInput :=
    .pass { disk := some (50, 0), logs := some logs, now := fun _ => now }
  [calm 0 ["/var/log/journal.log"], calm 30 [], calm 60 ["/var/log/journal.log"]]

end DraconGuard
