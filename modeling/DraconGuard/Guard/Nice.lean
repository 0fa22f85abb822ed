import DraconGuard.Lib.Runs
import DraconGuard.Proc

/-!
# The two nice limiters

The heavy-process limiter (`check_heavy_processes`, main.rs:9063) and the memory-pressure
limiter (the renice half of `check_memory_pressure`, main.rs:6491-6551 and 6785-6882) keep
the same five maps each and differ in whom they pick and when they let go. `NiceLimiter` is
one limiter's maps, `NiceLimiterKind` says which; the loop bodies the two functions share
are one definition each, and the two functions keep their own names and gates.

Log lines, notifications, alerts and `nice_restore_skipped_pids` (it only deduplicates a log
line) are left out.
-/

namespace DraconGuard

/-- The part of `GuardPolicy` the limiters read, with its defaults (policy.rs:552-590); the names of
`process_exempt_names` are split. -/
structure NicePolicy where
  processExemptNames : List String :=
    ["systemd", "dbus-daemon", "Xorg", "kwin_wayland", "plasmashell", "dracon-code"]
  processCpuPercent : Rat := 50
  processRssMb : Nat := 4096
  processSustainSecs : Nat := 30
  autoRenice : Bool := false
  autoReniceOnMemory : Bool := true
  reniceValue : Int := 5
  releaseAfterSecs : Nat := 120

/-- `LegacyReniceState` / `MemoryReniceState` (main.rs:827, 834): the same record twice. -/
structure ReniceState where
  originalNice : Int
  appliedNice : Int
  identity : ProcessIdentity
deriving DecidableEq, Repr

inductive NiceLimiterKind where
  /-- `reniced_pids`. -/
  | legacy
  /-- `memory_reniced_pids`. -/
  | memory
deriving DecidableEq, Repr

def NiceLimiterKind.other : NiceLimiterKind → NiceLimiterKind
  | .legacy => .memory
  | .memory => .legacy

/-- One limiter's maps in `GuardRuntimeState` (main.rs:945). -/
structure NiceLimiter where
  /-- `reniced_pids` / `memory_reniced_pids`. -/
  renicedPids : FinMap Pid ReniceState := ∅
  /-- `cooled_since` / `memory_cooled_since`. -/
  cooledSince : FinMap Pid Time := ∅
  /-- `legacy_identity_unavailable_attempts` / `memory_identity_unavailable_attempts`. -/
  identityUnavailableAttempts : FinMap Pid Nat := ∅
  /-- `legacy_unrenice_failures` / `memory_unrenice_failures`. -/
  unreniceFailures : FinMap Pid Nat := ∅

/-- Both limiters, and the first sight of every heavy process. -/
structure NiceState where
  legacy : NiceLimiter := {}
  memory : NiceLimiter := {}
  heavySince : FinMap Pid (Time × Nat) := ∅

/-- What a limiter acts on: the live table and its own bookkeeping. -/
structure NiceWorld where
  table : ProcTable
  nice : NiceState

/-- What the outside answers during one half of a pass. -/
structure NiceEnv where
  now : Time
  /-- The clock at a sample's turn in the heavy loop. -/
  sampleNow : Pid → Time := fun _ => now
  /-- `has_nice_restore_privilege`. -/
  privilege : Bool := true
  /-- `mitigation_ledger_unavailable`. -/
  ledgerUnavailable : Bool := false
  /-- Identity reads of the apply loop, the release loop and the closing prune. -/
  sampleReadable : Pid → Bool := fun _ => true
  releaseReadable : Pid → Bool := fun _ => true
  pruneReadable : Pid → Bool := fun _ => true
  /-- `can_restore_nice_for`: the target lives in the guard's own user namespace. -/
  canRestoreFor : Pid → Bool := fun _ => true
  /-- Whether `renice` exits successfully. -/
  reniceOk : Pid → Bool := fun _ => true

def identityUnavailableRetryLimit : Nat := 3

def unreniceRetryLimit : Nat := 3

namespace NiceState

def limiter (s : NiceState) : NiceLimiterKind → NiceLimiter
  | .legacy => s.legacy
  | .memory => s.memory

def setLimiter (s : NiceState) (k : NiceLimiterKind) (l : NiceLimiter) : NiceState :=
  match k with
  | .legacy => { s with legacy := l }
  | .memory => { s with memory := l }

def entry (s : NiceState) (k : NiceLimiterKind) (pid : Pid) : Option ReniceState :=
  (s.limiter k).renicedPids.lookup pid

/-- `reniced_pids.insert` / `memory_reniced_pids.insert`. -/
def insertEntry (s : NiceState) (k : NiceLimiterKind) (pid : Pid) (e : ReniceState) : NiceState :=
  s.setLimiter k { s.limiter k with renicedPids := (s.limiter k).renicedPids.insert pid e }

/-- `remove_legacy_renice` / `remove_memory_renice` (main.rs:3133, 3138). -/
def removeEntry (s : NiceState) (k : NiceLimiterKind) (pid : Pid) : NiceState :=
  s.setLimiter k
    { s.limiter k with
      renicedPids := (s.limiter k).renicedPids.erase pid
      cooledSince := (s.limiter k).cooledSince.erase pid }

/-- Change the bookkeeping maps of a limiter, its entries apart. -/
def setCounters (s : NiceState) (k : NiceLimiterKind)
    (cooledSince : FinMap Pid Time) (unavailable failures : FinMap Pid Nat) : NiceState :=
  s.setLimiter k
    { s.limiter k with
      cooledSince := cooledSince
      identityUnavailableAttempts := unavailable
      unreniceFailures := failures }

end NiceState

/-- `same_process_incarnation` (main.rs:3100): starttime 0 is an unknown one. -/
def sameProcessIncarnation (left right : ProcessIdentity) : Bool :=
  left.starttime != 0 && left.starttime == right.starttime

/-- One half of `drop_stale_nice_adjustments`. -/
def dropStaleEntry (s : NiceState) (k : NiceLimiterKind) (pid : Pid) (current : ProcessIdentity) :
    NiceState :=
  if (s.entry k pid).any fun e => !sameProcessIncarnation e.identity current then s.removeEntry k pid
  else s

/-- `drop_stale_nice_adjustments` (main.rs:3104). -/
def dropStaleNiceAdjustments (s : NiceState) (pid : Pid) (current : ProcessIdentity) : NiceState :=
  dropStaleEntry (dropStaleEntry s .legacy pid current) .memory pid current

def cpuTiers : List (Rat × Int) := [(500, 15), (300, 10), (180, 5)]

def memTiers : List (Nat × Int) := [(8192, 10), (4096, 5)]

/-- `graduated_nice_value` (main.rs:2482). -/
def graduatedNiceValue (cpuPercent : Rat) (footprintMb : Nat) (baseNice currentNice : Int) : Int :=
  let cpuNice := ((cpuTiers.find? fun t => t.1 ≤ cpuPercent).map (·.2)).getD baseNice
  let memNice := ((memTiers.find? fun t => t.1 ≤ footprintMb).map (·.2)).getD 0
  max (min (max (max cpuNice memNice) 0) 19) currentNice

/-- `memory_offender_nice_value` (main.rs:2507). -/
def memoryOffenderNiceValue (p : ProcSample) (baseNice : Int) : Int :=
  graduatedNiceValue p.cpuPercent (memoryPressureFootprintMb p) baseNice p.nice

/-- The renice of one sampled process, shared by both limiters (main.rs:9148-9196 and
6503-6546). The original is the limiter's own, else the other limiter's, else the sampled
nice. `mayRestore` is the memory limiter's namespace gate. -/
def reniceSample (k : NiceLimiterKind) (baseNice : Int) (mayRestore reniceOk : Bool)
    (w : NiceWorld) (p : ProcSample) : NiceWorld :=
  let s := dropStaleNiceAdjustments w.nice p.pid (processSampleIdentity p)
  let niceVal := memoryOffenderNiceValue p baseNice
  if (s.entry k p.pid).map (·.appliedNice) = some niceVal then { w with nice := s }
  else if mayRestore && reniceOk then
    let originalNice :=
      (((s.entry k p.pid).map (·.originalNice)).or
        ((s.entry k.other p.pid).map (·.originalNice))).getD p.nice
    { table := w.table.renice p.pid niceVal
      nice := s.insertEntry k p.pid ⟨originalNice, niceVal, processSampleIdentity p⟩ }
  else { w with nice := s }

/-- One limiter lets go of one process (main.rs:9289-9350 and 6793-6875). The identity
read is bounded by `identityUnavailableRetryLimit`, a failed renice by
`unreniceRetryLimit`; past either the entry is dropped unrestored. -/
def unrenice (k : NiceLimiterKind) (env : NiceEnv) (w : NiceWorld) (pid : Pid) : NiceWorld :=
  match w.nice.entry k pid with
  | none => w
  | some e =>
    let restoreNice :=
      (((w.nice.entry k.other pid).filter
        fun o => sameProcessIncarnation o.identity e.identity).map (·.appliedNice)).getD
        e.originalNice
    match processIdentityStatus w.table (env.releaseReadable pid) pid e.identity with
    | .gone | .mismatch => { w with nice := w.nice.removeEntry k pid }
    | .unavailable =>
      let l := w.nice.limiter k
      let attempts := (l.identityUnavailableAttempts.lookup pid).getD 0 + 1
      if identityUnavailableRetryLimit ≤ attempts then
        let s := w.nice.setCounters k l.cooledSince (l.identityUnavailableAttempts.erase pid)
          l.unreniceFailures
        { w with nice := s.removeEntry k pid }
      else
        let s := w.nice.setCounters k l.cooledSince
          (l.identityUnavailableAttempts.insert pid attempts) l.unreniceFailures
        { w with nice := s }
    | .matching =>
      let s := dropStaleNiceAdjustments w.nice pid e.identity
      let l := s.limiter k
      let unavailable := l.identityUnavailableAttempts.erase pid
      if env.reniceOk pid then
        let s := s.setCounters k l.cooledSince unavailable (l.unreniceFailures.erase pid)
        { table := w.table.renice pid restoreNice, nice := s.removeEntry k pid }
      else
        let attempts := (l.unreniceFailures.lookup pid).getD 0 + 1
        if unreniceRetryLimit ≤ attempts then
          let s := s.setCounters k l.cooledSince unavailable (l.unreniceFailures.erase pid)
          { w with nice := s.removeEntry k pid }
        else
          let s := s.setCounters k l.cooledSince unavailable
            (l.unreniceFailures.insert pid attempts)
          { w with nice := s }

/-- One iteration of the loop that starts the release timers: a process `busy` says is
still wanted has its timer reset, another is due once its timer has run for `dur`. -/
def coolStep (busy : Pid → Bool) (now : Time) (dur : Nat) (acc : FinMap Pid Time × List Pid)
    (pid : Pid) : FinMap Pid Time × List Pid :=
  if busy pid then (acc.1.erase pid, acc.2)
  else
    let cooled := acc.1.orInsert pid now
    (cooled, if dur ≤ now - (cooled.lookup pid).getD now then acc.2 ++ [pid] else acc.2)

/-- Start or reset the timers of every held process; the second part is what is due. -/
def startTimers (k : NiceLimiterKind) (busy : Pid → Bool) (dur : Nat) (now : Time) (w : NiceWorld) :
    NiceWorld × List Pid :=
  let l := w.nice.limiter k
  let cooled := l.renicedPids.keys.foldl (coolStep busy now dur) (l.cooledSince, [])
  let s := w.nice.setCounters k cooled.1 l.identityUnavailableAttempts l.unreniceFailures
  ({ w with nice := s }, cooled.2)

/-- `cooled_since.retain`: the timers of released processes leave. -/
def forgetTimers (k : NiceLimiterKind) (w : NiceWorld) : NiceWorld :=
  let l := w.nice.limiter k
  let kept := l.cooledSince.retain fun pid _ => (l.renicedPids.lookup pid).isSome
  { w with nice := w.nice.setCounters k kept l.identityUnavailableAttempts l.unreniceFailures }

/-- Pressure persists: restart the release timers from zero (main.rs:7023). -/
def clearTimers (k : NiceLimiterKind) (w : NiceWorld) : NiceWorld :=
  let l := w.nice.limiter k
  { w with nice := w.nice.setCounters k ∅ l.identityUnavailableAttempts l.unreniceFailures }

/-- The release of one limiter (main.rs:9277-9356 and 6785-6882). -/
def releaseLimiter (k : NiceLimiterKind) (busy : Pid → Bool) (dur : Nat) (env : NiceEnv)
    (w : NiceWorld) : NiceWorld :=
  let started := startTimers k busy dur env.now w
  forgetTimers k (started.2.foldl (unrenice k env) started.1)

/-- The closing prune of a half (main.rs:9366 and 7033): known-gone and reused pids leave. -/
def pruneLimiter (k : NiceLimiterKind) (env : NiceEnv) (w : NiceWorld) : NiceWorld :=
  let l := w.nice.limiter k
  let kept := l.renicedPids.retain fun pid e =>
    !(processIdentityStatus w.table (env.pruneReadable pid) pid e.identity).dead
  { w with nice := w.nice.setLimiter k { l with renicedPids := kept } }

/-! ## `check_heavy_processes` -/

/-- The sampled process is heavy and not exempt (main.rs:9079-9084). -/
def heavySample (g : NicePolicy) (p : ProcSample) : Bool :=
  !g.processExemptNames.contains p.command &&
    (g.processCpuPercent ≤ p.cpuPercent || g.processRssMb ≤ p.rssMb)

/-- First sight of a heavy process; a different starttime restarts the window. -/
def noteHeavy (now : Time) (heavySince : FinMap Pid (Time × Nat)) (p : ProcSample) :
    FinMap Pid (Time × Nat) :=
  let seen := (heavySince.lookup p.pid).getD (now, p.starttime)
  if p.starttime != 0 && seen.2 != 0 && seen.2 != p.starttime then
    heavySince.insert p.pid (now, p.starttime)
  else heavySince.insert p.pid seen

/-- `can_restore_nice`: the capability is only asked for when something depends on it. -/
def canRestoreNice (wanted : Bool) (k : NiceLimiterKind) (env : NiceEnv) (s : NiceState) : Bool :=
  if wanted || (s.limiter k).renicedPids.entries != [] then env.privilege else true

/-- One iteration of the sample loop of `check_heavy_processes`. -/
def heavyStep (g : NicePolicy) (env : NiceEnv) (canRestore : Bool) (w : NiceWorld)
    (p : ProcSample) : NiceWorld :=
  if !heavySample g p then w
  else
    let now := env.sampleNow p.pid
    let heavySince := noteHeavy now w.nice.heavySince p
    let seen := (heavySince.lookup p.pid).getD (now, p.starttime)
    let w := { w with nice := { w.nice with heavySince := heavySince } }
    if now - seen.1 < g.processSustainSecs then w
    else if !(!env.ledgerUnavailable && g.autoRenice && canRestore) then w
    else if !(processSampleIsCurrent w.table (env.sampleReadable p.pid) p &&
        (seen.2 == 0 || p.starttime == seen.2)) then w
    else reniceSample .legacy g.reniceValue true (env.reniceOk p.pid) w p

/-- `check_heavy_processes` (main.rs:9063). -/
def checkHeavyProcesses (g : NicePolicy) (env : NiceEnv) (samples : List ProcSample)
    (w : NiceWorld) : NiceWorld :=
  let canRestore := canRestoreNice g.autoRenice .legacy env w.nice
  let currentHeavy := (samples.filter (heavySample g)).map (·.pid)
  let w := samples.foldl (heavyStep g env canRestore) w
  let since := w.nice.heavySince.retain fun pid _ => currentHeavy.contains pid
  let w := { w with nice := { w.nice with heavySince := since } }
  let w :=
    if canRestore then
      releaseLimiter .legacy (fun pid => currentHeavy.contains pid) g.releaseAfterSecs env w
    else w
  pruneLimiter .legacy env w

/-! ## `check_memory_pressure`, renice part -/

/-- The stabilized pressure verdict. -/
inductive Pressure where
  | ok | warn | critical
deriving DecidableEq, Repr

/-- The gate of the memory limiter's apply loop (main.rs:6491). -/
def memoryReniceActive (g : NicePolicy) (env : NiceEnv) (pressure : Pressure) (canRestore : Bool) :
    Bool :=
  !env.ledgerUnavailable && pressure != .ok && g.autoReniceOnMemory && canRestore

/-- One iteration of the apply loop of `check_memory_pressure` (main.rs:6496). -/
def memoryStep (g : NicePolicy) (env : NiceEnv) (w : NiceWorld) (p : ProcSample) : NiceWorld :=
  if !processSampleIsCurrent w.table (env.sampleReadable p.pid) p then w
  else reniceSample .memory g.reniceValue (env.canRestoreFor p.pid) (env.reniceOk p.pid) w p

/-- The renice part of `check_memory_pressure` (main.rs:6403). `pressure = none` is the early
return: monitoring is off or the memory sample failed. -/
def checkMemoryRenice (g : NicePolicy) (env : NiceEnv) (pressure : Option Pressure)
    (samples : List ProcSample) (w : NiceWorld) : NiceWorld :=
  match pressure with
  | none => w
  | some pressure =>
    let canRestore := canRestoreNice g.autoReniceOnMemory .memory env w.nice
    let topRss := (memoryPressureOffenders samples g.processExemptNames).1
    let w :=
      if memoryReniceActive g env pressure canRestore then topRss.foldl (memoryStep g env) w
      else w
    let w :=
      if pressure = .ok then
        if !env.ledgerUnavailable && canRestore then
          releaseLimiter .memory (fun _ => false) g.releaseAfterSecs env w
        else w
      else clearTimers .memory w
    pruneLimiter .memory env w

/-! ## Passes -/

/-- Where `run_guard_once` stands (main.rs:10527-10556): one scan is shared by both halves. -/
inductive PassPhase where
  | idle
  | scanned (samples : List ProcSample)
  | heavyDone (samples : List ProcSample)

def PassPhase.samples : PassPhase → List ProcSample
  | .idle => []
  | .scanned ss | .heavyDone ss => ss

/-- The guard and its host. `unadjusted` is a ghost: the nice value each live incarnation
had before anything of the guard touched it. -/
structure NiceMachine extends NiceWorld where
  phase : PassPhase := .idle
  unadjusted : Pid → Int

/-- Processes come and go at any point; a pass scans, then runs its two halves. -/
inductive NiceInput where
  | spawn (pid : Pid) (p : Proc)
  | exit (pid : Pid)
  | scan (rows : List PsRow)
  | heavy (env : NiceEnv)
  | memory (env : NiceEnv) (pressure : Option Pressure)

/-- One step. A half out of its place in the pass, and a spawn on a pid in use, do nothing. -/
def niceStep (g : NicePolicy) (m : NiceMachine) : NiceInput → NiceMachine
  | .spawn pid p =>
    if (m.table pid).isSome then m
    else { m with
      table := Function.update m.table pid (some p)
      unadjusted := Function.update m.unadjusted pid p.nice }
  | .exit pid => { m with table := Function.update m.table pid none }
  | .scan rows => { m with phase := .scanned (processSamples m.table rows) }
  | .heavy env =>
    match m.phase with
    | .scanned ss =>
      { m with toNiceWorld := checkHeavyProcesses g env ss m.toNiceWorld, phase := .heavyDone ss }
    | _ => m
  | .memory env pressure =>
    match m.phase with
    | .heavyDone ss =>
      { m with toNiceWorld := checkMemoryRenice g env pressure ss m.toNiceWorld, phase := .idle }
    | _ => m

/-- A guard that has just started on a host. -/
def niceStart (t : ProcTable) : NiceMachine :=
  { table := t, nice := {}, unadjusted := fun pid => ((t pid).map (·.nice)).getD 0 }
/-! ## What one process sees of a step

Processes never interact: every loop body changes only the row and the entries of the pid it
is run for. `NiceView` is what there is to see of one pid.
-/

@[ext] structure NiceView where
  proc : Option Proc
  held : NiceLimiterKind → Option ReniceState

def NiceWorld.view (w : NiceWorld) (pid : Pid) : NiceView := ⟨w.table pid, fun k => w.nice.entry k pid⟩

namespace NiceState

@[simp] theorem limiter_setLimiter (s : NiceState) (k k' : NiceLimiterKind) (l : NiceLimiter) :
    (s.setLimiter k l).limiter k' = if k' = k then l else s.limiter k' := by
  cases k <;> cases k' <;> rfl

theorem entry_insertEntry (s : NiceState) (k k' : NiceLimiterKind) (pid pid' : Pid)
    (e : ReniceState) :
    (s.insertEntry k pid e).entry k' pid' =
      if k' = k ∧ pid' = pid then some e else s.entry k' pid' := by
  by_cases hk : k' = k
  · subst hk; simp [entry, insertEntry, FinMap.lookup_insert_eq]
  · simp [entry, insertEntry, hk]

theorem entry_removeEntry (s : NiceState) (k k' : NiceLimiterKind) (pid pid' : Pid) :
    (s.removeEntry k pid).entry k' pid' =
      if k' = k ∧ pid' = pid then none else s.entry k' pid' := by
  by_cases hk : k' = k
  · subst hk; simp [entry, removeEntry, FinMap.lookup_erase_eq]
  · simp [entry, removeEntry, hk]

@[simp] theorem entry_setCounters (s : NiceState) (k k' : NiceLimiterKind) (pid : Pid)
    (c : FinMap Pid Time) (u f : FinMap Pid Nat) :
    (s.setCounters k c u f).entry k' pid = s.entry k' pid := by
  by_cases hk : k' = k
  · subst hk; simp [entry, setCounters]
  · simp [entry, setCounters, hk]

@[simp] theorem entry_heavySince (s : NiceState) (h : FinMap Pid (Time × Nat))
    (k : NiceLimiterKind) (pid : Pid) : entry { s with heavySince := h } k pid = s.entry k pid := by
  cases k <;> rfl

theorem entry_dropStaleEntry (s : NiceState) (k k' : NiceLimiterKind) (pid pid' : Pid)
    (current : ProcessIdentity) :
    (dropStaleEntry s k pid current).entry k' pid' =
      if k' = k ∧ pid' = pid then
        (s.entry k pid).filter fun e => sameProcessIncarnation e.identity current
      else s.entry k' pid' := by
  unfold dropStaleEntry
  cases he : s.entry k pid with
  | none =>
    rw [if_neg (by simp)]
    split
    · rename_i h; rw [h.1, h.2, he]; rfl
    · rfl
  | some e =>
    cases hs : sameProcessIncarnation e.identity current with
    | true =>
      rw [if_neg (by simp [hs])]
      split
      · rename_i h; rw [h.1, h.2, he, Option.filter, if_pos hs]
      · rfl
    | false =>
      rw [if_pos (by simp [hs]), entry_removeEntry]
      split
      · rw [Option.filter, if_neg (by simp [hs])]
      · rfl

/-- `drop_stale_nice_adjustments` leaves the entries of the current incarnation. -/
theorem entry_dropStale (s : NiceState) (k : NiceLimiterKind) (pid pid' : Pid)
    (current : ProcessIdentity) :
    (dropStaleNiceAdjustments s pid current).entry k pid' =
      if pid' = pid then
        (s.entry k pid').filter fun e => sameProcessIncarnation e.identity current
      else s.entry k pid' := by
  unfold dropStaleNiceAdjustments
  by_cases hp : pid' = pid
  · subst hp; cases k <;> simp [entry_dropStaleEntry]
  · simp [entry_dropStaleEntry, hp]

end NiceState

open NiceState

theorem view_reniceSample_ne (k : NiceLimiterKind) (base : Int) (r o : Bool) (w : NiceWorld)
    (p : ProcSample) (pid : Pid) (h : pid ≠ p.pid) :
    (reniceSample k base r o w p).view pid = w.view pid := by
  unfold reniceSample
  simp only
  split_ifs <;>
    simp [NiceWorld.view, entry_dropStale, entry_insertEntry, ProcTable.renice_apply, h]

theorem view_unrenice_ne (k : NiceLimiterKind) (env : NiceEnv) (w : NiceWorld) (pid pid' : Pid)
    (h : pid' ≠ pid) : (unrenice k env w pid).view pid' = w.view pid' := by
  unfold unrenice
  cases w.nice.entry k pid with
  | none => rfl
  | some e =>
    simp only
    split
    · simp [NiceWorld.view, entry_removeEntry, h]
    · simp [NiceWorld.view, entry_removeEntry, h]
    · split_ifs <;> simp [NiceWorld.view, entry_removeEntry, h]
    · split_ifs <;>
        simp [NiceWorld.view, entry_removeEntry, entry_dropStale, ProcTable.renice_apply, h]

@[simp] theorem view_startTimers (k : NiceLimiterKind) (busy : Pid → Bool) (dur : Nat) (now : Time)
    (w : NiceWorld) (pid : Pid) : (startTimers k busy dur now w).1.view pid = w.view pid := by
  simp [startTimers, NiceWorld.view]

@[simp] theorem view_forgetTimers (k : NiceLimiterKind) (w : NiceWorld) (pid : Pid) :
    (forgetTimers k w).view pid = w.view pid := by
  simp [forgetTimers, NiceWorld.view]

@[simp] theorem view_clearTimers (k : NiceLimiterKind) (w : NiceWorld) (pid : Pid) :
    (clearTimers k w).view pid = w.view pid := by
  simp [clearTimers, NiceWorld.view]

theorem view_heavyStep_ne (g : NicePolicy) (env : NiceEnv) (c : Bool) (w : NiceWorld)
    (p : ProcSample) (pid : Pid) (h : pid ≠ p.pid) :
    (heavyStep g env c w p).view pid = w.view pid := by
  unfold heavyStep
  simp only
  split_ifs
  all_goals first
    | rfl
    | (rw [view_reniceSample_ne _ _ _ _ _ _ _ h]; simp [NiceWorld.view])

theorem view_memoryStep_ne (g : NicePolicy) (env : NiceEnv) (w : NiceWorld)
    (p : ProcSample) (pid : Pid) (h : pid ≠ p.pid) :
    (memoryStep g env w p).view pid = w.view pid := by
  unfold memoryStep
  split_ifs
  · rfl
  · exact view_reniceSample_ne _ _ _ _ _ _ _ h

end DraconGuard
