import DraconGuard.Lib.FinMap
import DraconGuard.Lib.Runs
import Mathlib.Algebra.Order.Group.Nat

/-!
# Notification cooldowns

`should_notify` (main.rs:2333) keeps a deadline under each key; `cleanup_stale_cooldowns`
(main.rs:9600) drops old ones, once a pass, with the cooldown the policy has by then. The two do
not agree on what the map holds: `should_notify` writes the end of a cooldown, the cleanup reads
it as a start (`since`) and compares it with a time two cooldowns ago; where that time cannot be
computed it takes the present one instead.

**`notify_exact`** says that none of this shows. Over any run of requests and cleanups whose times
do not decrease, with any cooldowns, a request is granted exactly when no grant of its key is
still in its cooldown.
-/

namespace DraconGuard

/-! ## The map -/

/-- The deadlines, readings of the monotonic clock in nanoseconds. -/
abbrev NotifyCooldowns := FinMap String Nat

/-- `Duration::from_secs`. -/
def seconds (n : Nat) : Nat := n * 1000000000

/-- `should_notify` (main.rs:2333). -/
def shouldNotify (cooldowns : NotifyCooldowns) (now : Nat) (key : String) (cooldownSecs : Nat) :
    Bool × NotifyCooldowns :=
  if (cooldowns.lookup key).any (now < ·) then (false, cooldowns)
  else (true, cooldowns.insert key (now + seconds (max cooldownSecs 1)))

/-- The seconds of a reading are an `i64`. -/
def earliestReading : Int := -9223372036854775808 * 1000000000

/-- `Instant::checked_sub`. -/
def checkedSub (now : Nat) (secs : Nat) : Option Int :=
  if (now : Int) - seconds secs < earliestReading then none
  else some ((now : Int) - seconds secs)

/-- `cleanup_stale_cooldowns` (main.rs:9600). `again` is the second look at the clock. -/
def cleanupStaleCooldowns (cooldowns : NotifyCooldowns) (now again : Nat) (cooldownSecs : Nat) :
    NotifyCooldowns :=
  let cutoff := (checkedSub now (min (cooldownSecs * 2) 18446744073709551615)).getD again
  cooldowns.retain fun _ since => cutoff < (since : Int)

/-! ## Runs -/

inductive CooldownEvent where
  | request (now : Nat) (key : String) (cooldownSecs : Nat)
  | cleanup (now again : Nat) (cooldownSecs : Nat)

/-- The first and the last look at the clock. -/
def CooldownEvent.first : CooldownEvent → Nat
  | .request now _ _ => now
  | .cleanup now _ _ => now

def CooldownEvent.last : CooldownEvent → Nat
  | .request now _ _ => now
  | .cleanup _ again _ => again

/-- A notification that was let through. -/
structure NotifyGrant where
  key : String
  deadline : Nat
deriving DecidableEq

/-- The map, what was let through, and the time. -/
structure CooldownRun where
  cooldowns : NotifyCooldowns := ∅
  grants : List NotifyGrant := []
  now : Nat := 0

def CooldownRun.step (s : CooldownRun) : CooldownEvent → CooldownRun
  | .request now key secs =>
    let asked := shouldNotify s.cooldowns now key secs
    { cooldowns := asked.2
      grants := if asked.1 then ⟨key, now + seconds (max secs 1)⟩ :: s.grants else s.grants
      now := now }
  | .cleanup now again secs =>
    { s with cooldowns := cleanupStaleCooldowns s.cooldowns now again secs, now := again }

/-- The clock does not go back. -/
def OnTime (s : CooldownRun) (e : CooldownEvent) : Prop := s.now ≤ e.first ∧ e.first ≤ e.last

/-! ## What the map knows -/

/-- **The map is as good as the list of grants**: it holds nothing that was not granted, and the
last word of every grant that is not over. -/
structure CooldownInv (s : CooldownRun) : Prop where
  sound : ∀ key u, s.cooldowns.lookup key = some u → ∃ g ∈ s.grants, g.key = key ∧ g.deadline = u
  live : ∀ g ∈ s.grants, s.now < g.deadline →
    ∃ u, s.cooldowns.lookup g.key = some u ∧ g.deadline ≤ u

variable {s : CooldownRun} {now again : Nat} {key : String} {secs : Nat} {e : CooldownEvent}

/-- **One request**: the map answers for all grants. -/
theorem shouldNotify_iff (h : CooldownInv s) (hnow : s.now ≤ now) :
    (shouldNotify s.cooldowns now key secs).1 = true ↔
      ∀ g ∈ s.grants, g.key = key → g.deadline ≤ now := by
  unfold shouldNotify
  cases hlook : s.cooldowns.lookup key with
  | none =>
    simp only [Option.any_none, Bool.false_eq_true, if_false, true_iff]
    intro g hg hkey
    by_contra hlate
    obtain ⟨u, hu, -⟩ := h.live g hg (by omega)
    rw [hkey, hlook] at hu
    cases hu
  | some u =>
    by_cases hwait : now < u
    · simp only [Option.any_some, hwait, decide_true, if_true, Bool.false_eq_true, false_iff]
      intro hall
      obtain ⟨g, hg, hkey, rfl⟩ := h.sound key u hlook
      have := hall g hg hkey
      omega
    · simp only [Option.any_some, hwait, decide_false, Bool.false_eq_true, if_false, true_iff]
      intro g hg hkey
      by_contra hlate
      obtain ⟨u', hu', hle⟩ := h.live g hg (by omega)
      rw [hkey, hlook] at hu'
      obtain rfl := Option.some.inj hu'
      omega

theorem CooldownInv.request (h : CooldownInv s) (hnow : s.now ≤ now) :
    CooldownInv (s.step (.request now key secs)) := by
  have hiff : (shouldNotify s.cooldowns now key secs).1 = true ↔
      ∀ g ∈ s.grants, g.key = key → g.deadline ≤ now := shouldNotify_iff h hnow
  unfold CooldownRun.step
  by_cases hwait : (s.cooldowns.lookup key).any (now < ·) = true
  · have hasked : shouldNotify s.cooldowns now key secs = (false, s.cooldowns) := by
      rw [shouldNotify, if_pos hwait]
    simp only [hasked, Bool.false_eq_true, if_false]
    exact ⟨h.sound, fun g hg hlive => h.live g hg (by simp only at hlive; omega)⟩
  · have hasked : shouldNotify s.cooldowns now key secs =
        (true, s.cooldowns.insert key (now + seconds (max secs 1))) := by
      rw [shouldNotify, if_neg hwait]
    simp only [hasked, if_true]
    rw [hasked] at hiff
    have hover := hiff.mp rfl
    refine ⟨fun k u hu => ?_, fun g hg hlive => ?_⟩
    · simp only [FinMap.lookup_insert_eq] at hu
      split at hu
      · next hk =>
        exact ⟨_, List.mem_cons_self, hk.symm, Option.some.inj hu⟩
      · obtain ⟨g, hg, hkey, hdeadline⟩ := h.sound k u hu
        exact ⟨g, List.mem_cons_of_mem _ hg, hkey, hdeadline⟩
    · simp only [FinMap.lookup_insert_eq]
      rcases List.mem_cons.mp hg with rfl | hg
      · exact ⟨_, if_pos rfl, le_rfl⟩
      · -- an older grant of the key is over, one of another key is untouched
        have hother : g.key ≠ key := fun hkey => by
          have := hover g hg hkey
          simp only at hlive
          omega
        rw [if_neg hother]
        exact h.live g hg (by simp only at hlive; omega)

/-- The time a cleanup compares with is no later than its last look at the clock. -/
theorem checkedSub_le (hagain : now ≤ again) (secs : Nat) :
    (checkedSub now secs).getD (again : Int) ≤ (again : Int) := by
  unfold checkedSub
  by_cases hrange : (now : Int) - seconds secs < earliestReading
  · rw [if_pos hrange]
    exact le_rfl
  · rw [if_neg hrange, Option.getD_some]
    have hback : (now : Int) - seconds secs ≤ now := Int.sub_le_self _ (Int.natCast_nonneg _)
    exact hback.trans (Int.ofNat_le.mpr hagain)

/-- **One cleanup** drops nothing that is not over. -/
theorem CooldownInv.cleanup (h : CooldownInv s) (hnow : s.now ≤ now) (hagain : now ≤ again) :
    CooldownInv (s.step (.cleanup now again secs)) := by
  unfold CooldownRun.step
  refine ⟨fun k u hu => ?_, fun g hg hlive => ?_⟩
  · exact h.sound k u (FinMap.lookup_retain_some.mp hu).1
  · simp only at hlive
    obtain ⟨u, hu, hle⟩ := h.live g hg (by omega)
    refine ⟨u, FinMap.lookup_retain_some.mpr ⟨hu, decide_eq_true ?_⟩, hle⟩
    have hcutoff := checkedSub_le hagain (min (secs * 2) 18446744073709551615)
    have hlast : (again : Int) < u := by exact_mod_cast lt_of_lt_of_le hlive hle
    exact lt_of_le_of_lt hcutoff hlast

theorem CooldownInv.step (h : CooldownInv s) (hon : OnTime s e) : CooldownInv (s.step e) := by
  cases e with
  | request now key secs => exact h.request hon.1
  | cleanup now again secs => exact h.cleanup hon.1 hon.2

/-- The map knows every grant that is not over, after any run. -/
theorem cooldownInv_exec {run : List CooldownEvent}
    (hrun : Runs.Along CooldownRun.step OnTime {} run) :
    CooldownInv (Runs.exec CooldownRun.step {} run) :=
  hrun.exec_inv (fun _ _ h hon => h.step hon) run ⟨by simp, by simp⟩

/-- **A request is granted exactly when no grant of its key is still in its cooldown**, whatever
the cleanups of the run dropped, with whatever cooldowns. -/
theorem notify_exact (run : List CooldownEvent) (now : Nat) (key : String) (secs : Nat)
    (hrun : Runs.Along CooldownRun.step OnTime {} (run ++ [.request now key secs])) :
    (shouldNotify (Runs.exec CooldownRun.step {} run).cooldowns now key secs).1 = true ↔
      ∀ g ∈ (Runs.exec CooldownRun.step {} run).grants, g.key = key → g.deadline ≤ now := by
  obtain ⟨hbefore, hlast⟩ := Runs.along_append.mp hrun
  exact shouldNotify_iff (cooldownInv_exec hbefore) hlast.1.1

/-- A cleanup with a shorter cooldown comes in between, and the second request still waits. -/
theorem notify_exact_waits :
    (shouldNotify (Runs.exec CooldownRun.step {} [.request 0 "log-truncated" 3600,
        .cleanup 700000000000 700000000001 300]).cooldowns 900000000000 "log-truncated" 3600).1 =
      false := by
  have hrun : Runs.Along CooldownRun.step OnTime {} ([.request 0 "log-truncated" 3600,
      .cleanup 700000000000 700000000001 300] ++
        [.request 900000000000 "log-truncated" 3600]) := by
    simp [Runs.Along, OnTime, CooldownRun.step, CooldownEvent.first, CooldownEvent.last]
  have hexact := notify_exact _ _ _ _ hrun
  rw [← Bool.not_eq_true, hexact]
  intro hall
  have hover := hall ⟨"log-truncated", 3600000000000⟩ (by decide +kernel) rfl
  simp at hover

end DraconGuard
