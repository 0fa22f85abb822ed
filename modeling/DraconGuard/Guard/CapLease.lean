import DraconGuard.Guard.Caps

/-!
# Recorded caps and their leases

A cap is a lease of an hour (`cpu_limit::cap`, cpu_limit.rs:303): at its end a timer runs
`cpu-lease-release`, which takes the quota off and removes the lease file, and tells the guard
nothing. The cap loop of `check_memory_pressure` leaves a recorded pid alone (main.rs:6591), so
under pressure that lasts longer than the lease the record outlives the cap
(`expired_cap_skipped`). **`recordedCaps_live`** is what remains: the law holds along every run in
which no offender is recorded for longer than its lease lasts and no lease that a pid is recorded
under goes early.

| here | there |
| --- | --- |
| `CapAttempt.run` | what `cap_prepared` (cpu_limit.rs:368) leaves on file and returns, by its outcome |
| `releaseFiled` | `release_with` (cpu_limit.rs:499), where it gets as far as removing the file |
| `capLeaseStep` | one turn of the cap loop (main.rs:6590) |
| `capLeasePass` | `check_memory_pressure` under critical pressure, its CPU part |
-/

namespace DraconGuard

open Function (update)

/-- A lease file, as far as a record of the guard's depends on it. -/
structure FiledLease where
  generation : String
  expiresAtUnixSecs : Nat
deriving DecidableEq

abbrev LeaseBook := String → Option FiledLease

/-- The lease of a cap, in seconds (cpu_limit.rs:308). -/
def capLeaseSeconds : Nat := 3600

inductive CapOutcome where
  /-- An error that leaves the file as it was. -/
  | refused
  /-- The lease on file is of this invocation, armed and applied. -/
  | reusable
  /-- The lease on file is stale, unprotected or unapplied: it goes, with an error. -/
  | dropped
  /-- A new lease is on file, and a later step fails. -/
  | intentOnly
  | applied
deriving DecidableEq

/-- What one call of `cpu_limit::cap` meets. -/
structure CapAttempt where
  key : String
  /-- The clock in nanoseconds, for a new lease. -/
  generation : String := ""
  /-- Seconds into the pass. -/
  offset : Nat := 0
  outcome : CapOutcome

namespace CapAttempt

def lease (a : CapAttempt) (t : Nat) : FiledLease where
  generation := a.generation
  expiresAtUnixSecs := min (t + capLeaseSeconds) (2 ^ 64 - 1)

/-- Without a lease on file there is none to reuse or drop, with one no new lease is made; an
expired one is never reused (cpu_limit.rs:392-401). -/
def run (a : CapAttempt) (t : Nat) (leases : LeaseBook) : LeaseBook × Option String :=
  match leases a.key, a.outcome with
  | some old, .reusable =>
    if t < old.expiresAtUnixSecs then (leases, some old.generation) else (leases, none)
  | some _, .dropped => (update leases a.key none, none)
  | none, .applied => (update leases a.key (some (a.lease t)), some a.generation)
  | none, .intentOnly => (update leases a.key (some (a.lease t)), none)
  | _, _ => (leases, none)

end CapAttempt

/-- `release_with`: an obsolete timer removes nothing. -/
def releaseFiled (leases : LeaseBook) (key generation : String) : LeaseBook :=
  match leases key with
  | some lease => if lease.generation = generation then update leases key none else leases
  | none => leases

structure CapLeaseWorld where
  caps : CapWorld
  leases : LeaseBook
  now : Nat := 0
  /-- A ghost: the pids whose cap was applied in the last pass. -/
  applied : List Pid := []
  /-- A ghost: when the lease recorded for a pid ends. -/
  validUntil : Pid → Nat := fun _ => 0

/-- What a pass under critical pressure is given. -/
structure CriticalPass where
  /-- Seconds since the step before. -/
  elapsed : Nat
  /-- Seconds from its start to its end. -/
  lasts : Nat := 0
  /-- `cap_offenders_cpu_percent`. -/
  capPercent : Nat
  topRss : List ProcSample
  attempt : Pid → CapAttempt
  readable : Pid → Bool := fun _ => true
  pruneReadable : Pid → Bool := fun _ => true

namespace CapLeaseWorld

abbrev recorded (w : CapLeaseWorld) (pid : Pid) : Option CapEntry :=
  w.caps.caps.cappedPids.lookup pid

/-- The lease on record is on file and has not expired. -/
def Live (w : CapLeaseWorld) (e : CapEntry) : Prop :=
  ∃ lease, w.leases e.scope = some lease ∧ lease.generation = e.origCgroup ∧
    w.now < lease.expiresAtUnixSecs

end CapLeaseWorld

/-- Whether the cap loop tries this sample at all (main.rs:6591-6612). -/
def capTried (p : CriticalPass) (w : CapLeaseWorld) (q : ProcSample) : Bool :=
  (w.recorded q.pid).isNone && processSampleIsCurrent w.caps.table (p.readable q.pid) q

def CriticalPass.at (p : CriticalPass) (w : CapLeaseWorld) (pid : Pid) : Nat :=
  w.now + min (p.attempt pid).offset p.lasts

/-- One turn of the cap loop (main.rs:6590-6642). -/
def capLeaseStep (p : CriticalPass) (w : CapLeaseWorld) (q : ProcSample) : CapLeaseWorld :=
  if capTried p w q then
    let (leases, result) := (p.attempt q.pid).run (p.at w q.pid) w.leases
    let key := (p.attempt q.pid).key
    let env : CapEnv := { readable := p.readable, cap := fun _ => result.map fun g => (key, g) }
    let w := { w with leases := leases, caps := capStep env w.caps q }
    if result.isSome then
      { w with applied := q.pid :: w.applied
               validUntil := update w.validUntil q.pid
                 ((leases key).elim 0 (·.expiresAtUnixSecs)) }
    else w
  else w

/-- The gate of the cap loop (main.rs:6586). -/
def CriticalPass.caps (p : CriticalPass) (w : CapLeaseWorld) : Bool :=
  !w.caps.ledgerUnavailable && 0 < p.capPercent

def CapLeaseWorld.starts (w : CapLeaseWorld) (elapsed : Nat) : CapLeaseWorld :=
  { w with now := w.now + elapsed, applied := [] }

/-- A critical pass: the cap loop, the release timers cleared, the closing prune. -/
def capLeasePass (p : CriticalPass) (w : CapLeaseWorld) : CapLeaseWorld :=
  let w := w.starts p.elapsed
  let w := if p.caps w then p.topRss.foldl (capLeaseStep p) w else w
  { w with caps := pruneCaps p.pruneReadable (clearCapTimers w.caps), now := w.now + p.lasts }

inductive CapLeaseEvent where
  | pass (p : CriticalPass)
  /-- `cpu-lease-release` by a timer or by hand, or a recovery of another run of the program. -/
  | release (elapsed : Nat) (key generation : String)
  /-- A reading of the ledger file succeeds or fails. -/
  | ledger (unavailable : Bool)
  | spawn (pid : Pid) (p : Proc)
  | exit (pid : Pid)

def capLeaseEvent (w : CapLeaseWorld) : CapLeaseEvent → CapLeaseWorld
  | .pass p => capLeasePass p w
  | .release elapsed key generation =>
    { w.starts elapsed with leases := releaseFiled w.leases key generation }
  | .ledger unavailable => { w with caps := { w.caps with ledgerUnavailable := unavailable } }
  | .spawn pid p => { w with caps := capsStep w.caps (.spawn pid p) }
  | .exit pid => { w with caps := capsStep w.caps (.exit pid) }

/-! ## The law and its condition -/

/-- At the end of a pass every recorded offender has a live lease, or was capped in this pass. -/
def RecordedCapsLive (w : CapLeaseWorld) : CapLeaseEvent → Prop
  | .pass p => ∀ q ∈ p.topRss, ∀ e, (capLeasePass p w).recorded q.pid = some e →
      q.pid ∈ (capLeasePass p w).applied ∨ (capLeasePass p w).Live e
  | _ => True

/-- Every pid recorded under the lease has had the whole of it. -/
def CapLeaseWorld.Spent (w : CapLeaseWorld) (key generation : String) (t : Nat) : Prop :=
  ∀ pid e, w.recorded pid = some e → e.scope = key → e.origCgroup = generation →
    w.validUntil pid ≤ t

/-- An attempt that drops the lease it finds. -/
def DropsSpent (p : CriticalPass) (w : CapLeaseWorld) (q : ProcSample) : Prop :=
  capTried p w q = true → (p.attempt q.pid).outcome = .dropped →
    ∀ old, w.leases (p.attempt q.pid).key = some old →
      w.Spent (p.attempt q.pid).key old.generation (p.at w q.pid)

/-- A pass is over before the lease of an offender that was recorded already, and no lease goes
that a pid is recorded under and has not had the whole of. -/
def WithinLease (w : CapLeaseWorld) : CapLeaseEvent → Prop
  | .pass p =>
    (∀ q ∈ p.topRss, ∀ e, w.recorded q.pid = some e →
      (processIdentityStatus w.caps.table (p.pruneReadable q.pid) q.pid e.identity).dead = false →
        w.now + p.elapsed + p.lasts < w.validUntil q.pid) ∧
      (p.caps w = true → Runs.Along (capLeaseStep p) (DropsSpent p) (w.starts p.elapsed) p.topRss)
  | .release elapsed key generation => w.Spent key generation (w.now + elapsed)
  | _ => True

/-- A record stands for a lease on file, or for one that would have ended by `t`. -/
def CapLeaseWorld.Backed (w : CapLeaseWorld) (t : Nat) : Prop :=
  ∀ pid e, w.recorded pid = some e →
    w.leases e.scope = some ⟨e.origCgroup, w.validUntil pid⟩ ∨ w.validUntil pid ≤ t

namespace CapLeaseWorld.Backed

variable {w w' : CapLeaseWorld} {t : Nat}

theorem mono {t' : Nat} (h : w.Backed t) (ht : t ≤ t') : w.Backed t' :=
  fun pid e he => (h pid e he).imp_right fun hle => hle.trans ht

/-- A lease that goes is one whose records have had the whole of it. -/
theorem erase {key : String} {old : FiledLease} (h : w.Backed t) (hold : w.leases key = some old)
    (hspent : w.Spent key old.generation t) :
    CapLeaseWorld.Backed { w with leases := update w.leases key none } t := by
  intro pid e he
  rcases h pid e he with hfile | hle
  · by_cases hkey : e.scope = key
    · refine Or.inr (hspent pid e he hkey ?_)
      rw [hkey, hold] at hfile
      rw [Option.some.inj hfile]
    · exact Or.inl ((Function.update_of_ne hkey _ _).trans hfile)
  · exact Or.inr hle

/-- A new lease stands where none did. -/
theorem file {key : String} (h : w.Backed t) (hnone : w.leases key = none) (lease : FiledLease) :
    CapLeaseWorld.Backed { w with leases := update w.leases key (some lease) } t := by
  intro pid e he
  rcases h pid e he with hfile | hle
  · have hkey : e.scope ≠ key := by
      rintro rfl
      rw [hnone] at hfile
      cases hfile
    exact Or.inl ((Function.update_of_ne hkey _ _).trans hfile)
  · exact Or.inr hle

theorem release {key generation : String} (h : w.Backed t) (hspent : w.Spent key generation t) :
    CapLeaseWorld.Backed { w with leases := releaseFiled w.leases key generation } t := by
  unfold releaseFiled
  split
  · rename_i lease hlease
    split
    · next hgen => exact h.erase hlease (hgen ▸ hspent)
    · exact h
  · exact h

end CapLeaseWorld.Backed

/-! ## The cap loop -/

/-- What an attempt leaves on file, and what it returns. -/
theorem CapAttempt.run_cases (a : CapAttempt) (t : Nat) (leases : LeaseBook) :
    a.run t leases = (leases, none) ∨
      (∃ old, leases a.key = some old ∧ a.run t leases = (leases, some old.generation)) ∨
      (∃ old, leases a.key = some old ∧ a.outcome = .dropped ∧
        a.run t leases = (update leases a.key none, none)) ∨
      (leases a.key = none ∧ ∃ result, (result = none ∨ result = some a.generation) ∧
        a.run t leases = (update leases a.key (some (a.lease t)), result)) := by
  unfold CapAttempt.run
  split
  · next old hold _ =>
    split
    · exact Or.inr (Or.inl ⟨old, hold, rfl⟩)
    · exact Or.inl rfl
  · next old hold hdrop => exact Or.inr (Or.inr (Or.inl ⟨old, hold, hdrop, rfl⟩))
  · next hnone _ => exact Or.inr (Or.inr (Or.inr ⟨hnone, _, Or.inr rfl, rfl⟩))
  · next hnone _ => exact Or.inr (Or.inr (Or.inr ⟨hnone, _, Or.inl rfl, rfl⟩))
  · exact Or.inl rfl

def CapWorld.enter (w : CapWorld) (pid : Pid) (e : CapEntry) : CapWorld :=
  { w with caps := { w.caps with cappedPids := w.caps.cappedPids.insert pid e } }

/-- The loop body for a sample that is tried, by what `cpu_limit::cap` returns. -/
theorem capStep_tried {readable : Pid → Bool} {cap : Pid → Option (String × String)}
    {w : CapWorld} {q : ProcSample} (hnew : w.caps.cappedPids.lookup q.pid = none)
    (hcurrent : processSampleIsCurrent w.table (readable q.pid) q = true) :
    capStep ⟨readable, cap⟩ w q = match cap q.pid with
      | none => w
      | some (scope, origCgroup) => w.enter q.pid ⟨scope, origCgroup, processSampleIdentity q⟩ := by
  unfold capStep
  rw [hnew, hcurrent]
  rfl

namespace CapLeaseWorld

/-- The book after an attempt that records nothing. -/
def refile (w : CapLeaseWorld) (leases : LeaseBook) : CapLeaseWorld := { w with leases := leases }

/-- A cap goes on record. -/
def record (w : CapLeaseWorld) (q : ProcSample) (key : String) (lease : FiledLease) :
    CapLeaseWorld :=
  { w with
    caps := w.caps.enter q.pid ⟨key, lease.generation, processSampleIdentity q⟩
    applied := q.pid :: w.applied
    validUntil := update w.validUntil q.pid lease.expiresAtUnixSecs }

theorem recorded_record (w : CapLeaseWorld) (q : ProcSample) (key : String) (lease : FiledLease)
    (pid : Pid) : (w.record q key lease).recorded pid =
      if pid = q.pid then some ⟨key, lease.generation, processSampleIdentity q⟩
      else w.recorded pid :=
  FinMap.lookup_insert_eq _ _ _

/-- A record made while its lease is on file is backed. -/
theorem Backed.record {w : CapLeaseWorld} {t : Nat} {key : String} {lease : FiledLease}
    (h : w.Backed t) (q : ProcSample) (hfile : w.leases key = some lease) :
    (w.record q key lease).Backed t := by
  intro pid e he
  rw [recorded_record] at he
  by_cases hpid : pid = q.pid
  · rw [if_pos hpid] at he
    obtain rfl := Option.some.inj he
    refine Or.inl ?_
    change w.leases key = some ⟨lease.generation, update w.validUntil q.pid _ pid⟩
    rw [hpid, Function.update_self]
    exact hfile
  · rw [if_neg hpid] at he
    change w.leases e.scope = some ⟨_, update w.validUntil q.pid _ pid⟩ ∨
      update w.validUntil q.pid _ pid ≤ t
    rw [Function.update_of_ne hpid]
    exact h pid e he

end CapLeaseWorld

/-- What a turn of the loop does: a change to the book, and perhaps a record of what is on file
then. -/
theorem capLeaseStep_eq {p : CriticalPass} {w : CapLeaseWorld} {q : ProcSample}
    (htried : capTried p w q = true) {leases : LeaseBook} {result : Option String}
    (hrun : (p.attempt q.pid).run (p.at w q.pid) w.leases = (leases, result)) :
    (result = none → capLeaseStep p w q = w.refile leases) ∧
      ∀ lease, result = some lease.generation → leases (p.attempt q.pid).key = some lease →
        capLeaseStep p w q = (w.refile leases).record q (p.attempt q.pid).key lease := by
  have hnew : w.caps.caps.cappedPids.lookup q.pid = none :=
    Option.isNone_iff_eq_none.1 (Bool.and_eq_true_iff.1 htried).1
  have hcurrent := (Bool.and_eq_true_iff.1 htried).2
  constructor
  · rintro rfl
    unfold capLeaseStep
    rw [if_pos htried, hrun]
    simp only [Option.map_none, capStep_tried hnew hcurrent, Option.isSome_none,
      Bool.false_eq_true, if_false]
    rfl
  · rintro lease rfl hfile
    unfold capLeaseStep
    rw [if_pos htried, hrun]
    simp only [Option.map_some, capStep_tried hnew hcurrent, Option.isSome_some, if_true, hfile,
      Option.elim_some]
    rfl

/-- What the cap loop keeps, from the world `w₀` it starts in, in a pass that is over by `t`. -/
structure CapLooped (w₀ : CapLeaseWorld) (t : Nat) (w : CapLeaseWorld) : Prop where
  now : w.now = w₀.now
  table : w.caps.table = w₀.caps.table
  kept : ∀ pid e, w.recorded pid = some e →
    pid ∈ w.applied ∨ w₀.recorded pid = some e ∧ w.validUntil pid = w₀.validUntil pid
  backed : w.Backed t

section Loop

variable {p : CriticalPass} {w₀ w : CapLeaseWorld} {t : Nat} {q : ProcSample}

theorem CapLooped.refile (h : CapLooped w₀ t w) {leases : LeaseBook}
    (hbacked : (w.refile leases).Backed t) : CapLooped w₀ t (w.refile leases) :=
  ⟨h.now, h.table, h.kept, hbacked⟩

theorem CapLooped.record (h : CapLooped w₀ t w) (q : ProcSample) {key : String}
    {lease : FiledLease} (hfile : w.leases key = some lease) :
    CapLooped w₀ t (w.record q key lease) where
  now := h.now
  table := h.table
  kept pid e he := by
    rw [CapLeaseWorld.recorded_record] at he
    by_cases hpid : pid = q.pid
    · exact Or.inl (hpid ▸ List.mem_cons_self)
    · rw [if_neg hpid] at he
      refine (h.kept pid e he).imp (List.mem_cons_of_mem _) fun hk => ⟨hk.1, ?_⟩
      exact (Function.update_of_ne hpid _ _).trans hk.2
  backed := h.backed.record q hfile

/-- **One turn** that drops no lease early keeps what the loop keeps. -/
theorem CapLooped.step (hlasts : w₀.now + p.lasts ≤ t) (h : CapLooped w₀ t w)
    (hdrops : DropsSpent p w q) : CapLooped w₀ t (capLeaseStep p w q) := by
  have hat : p.at w q.pid ≤ t := by
    have : p.at w q.pid = w₀.now + min (p.attempt q.pid).offset p.lasts := by
      rw [← h.now]; rfl
    omega
  by_cases htried : capTried p w q = true
  · rcases (p.attempt q.pid).run_cases (p.at w q.pid) w.leases with
      hrun | ⟨old, hold, hrun⟩ | ⟨old, hold, hdropped, hrun⟩ | ⟨hnone, result, hresult, hrun⟩
    · rw [(capLeaseStep_eq htried hrun).1 rfl]
      exact h.refile h.backed
    · rw [(capLeaseStep_eq htried hrun).2 old rfl hold]
      exact (h.refile h.backed).record q hold
    · rw [(capLeaseStep_eq htried hrun).1 rfl]
      refine h.refile (h.backed.erase hold fun pid e he hkey hgen => ?_)
      exact (hdrops htried hdropped old hold pid e he hkey hgen).trans hat
    · have hfiled := h.refile
        (h.backed.file hnone ((p.attempt q.pid).lease (p.at w q.pid)))
      rcases hresult with rfl | rfl
      · rw [(capLeaseStep_eq htried hrun).1 rfl]
        exact hfiled
      · rw [(capLeaseStep_eq htried hrun).2 _ rfl (Function.update_self ..)]
        exact hfiled.record q (Function.update_self ..)
  · unfold capLeaseStep
    rw [if_neg htried]
    exact h

end Loop

/-! ## Runs -/

section Pass

variable {p : CriticalPass} {w : CapLeaseWorld}

/-- The world between the cap loop and the prune. -/
def capsApplied (p : CriticalPass) (w : CapLeaseWorld) : CapLeaseWorld :=
  if p.caps w then p.topRss.foldl (capLeaseStep p) (w.starts p.elapsed) else w.starts p.elapsed

theorem capsApplied_looped (hw : w.Backed w.now) (h : WithinLease w (.pass p)) :
    CapLooped (w.starts p.elapsed) (w.now + p.elapsed + p.lasts) (capsApplied p w) := by
  have hstart : CapLooped (w.starts p.elapsed) (w.now + p.elapsed + p.lasts)
      (w.starts p.elapsed) :=
    ⟨rfl, rfl, fun _ _ he => Or.inr ⟨he, rfl⟩, hw.mono (by omega)⟩
  unfold capsApplied
  split
  · next hcaps =>
    exact Runs.Along.exec_inv (fun _ _ hw hdrops => hw.step le_rfl hdrops) _ hstart (h.2 hcaps)
  · exact hstart

/-- The prune keeps the entries whose process does not read as gone or replaced. -/
theorem recorded_capLeasePass {pid : Pid} {e : CapEntry} :
    (capLeasePass p w).recorded pid = some e ↔ (capsApplied p w).recorded pid = some e ∧
      (processIdentityStatus (capsApplied p w).caps.table (p.pruneReadable pid) pid
        e.identity).dead = false :=
  FinMap.lookup_retain_some.trans (and_congr_right fun _ => by
    rw [Bool.not_eq_true']
    rfl)

/-- **One pass**: offenders on record at its end are capped. -/
theorem capLeasePass_live (hw : w.Backed w.now) (h : WithinLease w (.pass p)) :
    RecordedCapsLive w (.pass p) := by
  intro q hq e he
  obtain ⟨hloop, halive⟩ := recorded_capLeasePass.1 he
  have hend := capsApplied_looped hw h
  rcases hend.kept q.pid e hloop with hnow | ⟨hbefore, hsame⟩
  · exact Or.inl hnow
  · have hlong := h.1 q hq e hbefore (by rw [hend.table] at halive; exact halive)
    have hlast : w.now + p.elapsed + p.lasts < (capsApplied p w).validUntil q.pid := by
      rw [hsame]
      exact hlong
    refine Or.inr ⟨_, (hend.backed q.pid e hloop).resolve_right (not_le.2 hlast), rfl, ?_⟩
    change (capsApplied p w).now + p.lasts < _
    rw [hend.now]
    exact hlast

end Pass

theorem capLeaseEvent_backed {w : CapLeaseWorld} {i : CapLeaseEvent} (hw : w.Backed w.now)
    (h : WithinLease w i) : (capLeaseEvent w i).Backed (capLeaseEvent w i).now := by
  cases i with
  | pass p =>
    have hend := capsApplied_looped hw h
    have hnow : (capLeasePass p w).now = w.now + p.elapsed + p.lasts :=
      congrArg (· + p.lasts) hend.now
    change (capLeasePass p w).Backed (capLeasePass p w).now
    rw [hnow]
    intro pid e he
    exact hend.backed pid e (recorded_capLeasePass.1 he).1
  | release elapsed key generation =>
    exact CapLeaseWorld.Backed.release (w := w.starts elapsed)
      (CapLeaseWorld.Backed.mono hw (Nat.le_add_right _ _)) h
  | ledger unavailable => exact hw
  | spawn pid p =>
    intro pid' e he
    refine hw pid' e ?_
    rw [← he]
    change _ = (capsStep w.caps (.spawn pid p)).caps.cappedPids.lookup pid'
    simp only [capsStep]
    split
    · rfl
    · rfl
  | exit pid => exact hw

/-- **Recorded caps are live caps**, along every run from a guard that has recorded nothing, in
which an offender is on record for no longer than its lease lasts, and its lease is not taken
away before. -/
theorem recordedCaps_live (w : CapLeaseWorld) (hfresh : ∀ pid, w.recorded pid = none)
    (is : List CapLeaseEvent) (h : Runs.Along capLeaseEvent WithinLease w is) :
    Runs.Along capLeaseEvent RecordedCapsLive w is := by
  have hstart : w.Backed w.now := by
    intro pid e he
    rw [hfresh] at he
    cases he
  refine Runs.Along.under (P := fun w => w.Backed w.now) (fun _ _ => capLeaseEvent_backed)
    (fun w i hw hi => ?_) hstart h
  cases i with
  | pass p => exact capLeasePass_live hw hi
  | _ => trivial

/-! ## The hour is over -/

def compiler : ProcSample where
  pid := 7
  ppid := 1
  cpuPercent := 400
  rssMb := 9000
  swapMb := some 0
  nice := 0
  command := "cc1"
  starttime := 100

/-- The build of `cappedBuild` before it is capped. -/
def uncappedBuild : CapLeaseWorld where
  caps := { table := cappedBuild.table }
  leases := fun _ => none

def buildPass (elapsed : Nat) : CriticalPass where
  elapsed := elapsed
  capPercent := 50
  topRss := [compiler]
  attempt := fun _ => { key := buildEntry.scope, generation := "1", outcome := .applied }

/-- The second pass comes half a minute after the first. -/
theorem recordedCaps_live_buildPass :
    Runs.Along capLeaseEvent RecordedCapsLive uncappedBuild
      [.pass (buildPass 0), .pass (buildPass 30)] := by
  refine recordedCaps_live uncappedBuild (fun _ => rfl) _ ⟨⟨?_, fun _ => ⟨?_, trivial⟩⟩,
    ⟨?_, fun _ => ⟨?_, trivial⟩⟩, trivial⟩
  · intro q _ e he
    cases he
  · exact fun _ hdropped => absurd hdropped (by decide)
  · intro q hq e he _
    obtain rfl := List.mem_singleton.1 hq
    decide
  · exact fun _ hdropped => absurd hdropped (by decide)

/-- The timer takes the quota off after an hour, and the next pass leaves the compiler alone:
it is on record as capped. -/
theorem expired_cap_skipped :
    ¬ ∀ (w : CapLeaseWorld) (is : List CapLeaseEvent), (∀ pid, w.recorded pid = none) →
      Runs.Along capLeaseEvent RecordedCapsLive w is := by
  intro h
  have hrun := h uncappedBuild [.pass (buildPass 0), .release 3600 buildEntry.scope "1",
    .pass (buildPass 30)] fun _ => rfl
  rcases hrun.2.2.1 compiler (List.mem_singleton.2 rfl) ⟨buildEntry.scope, "1", ⟨"cc1", 100⟩⟩ rfl
    with happlied | ⟨lease, hlease, -⟩
  · exact absurd happlied (by decide)
  · cases hlease

end DraconGuard
