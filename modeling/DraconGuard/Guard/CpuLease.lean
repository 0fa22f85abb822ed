import Mathlib.Algebra.Order.Ring.Rat
import DraconGuard.Lib.Interleave

/-!
# CPU leases

`cap_prepared`, `release_with` and `recover_with` (cpu_limit.rs:368-576) as programs over the calls
they make: to the unit manager, to the lease files and to the lock beside each of them. A call is
answered and may change the state; a failed reply of a call that writes says nothing about whether
it took effect. Between any two calls another actor may come in, a quota may be changed by hand, a
unit may be replaced, and any actor or the whole machine may go down.

The state has ghosts, which no program reads: what the guard owes a unit (`Debt`), which expiry
timers have been seen active, and whose last reading of a quota is still good.
-/

namespace DraconGuard

open Interleave (Prog Machine)

/-! ## Leases -/

/-- `lease_key` (cpu_limit.rs:147), without the text around the number. -/
def leaseKey (unit : String) : UInt64 :=
  unit.toUTF8.toList.foldl (fun h b => (h ^^^ b.toUInt64) * 0x100000001b3) 0xcbf29ce484222325

/-- The name of an expiry timer, `{key}-{generation}-expiry`. -/
structure ExpiryTimer where
  key : UInt64
  generation : Nat
deriving DecidableEq

/-- `Lease` (cpu_limit.rs:16). A generation is a reading of the clock in nanoseconds; an infinite
quota is the largest number of 64 bits. -/
structure Lease where
  unit : String
  invocation : String
  original : Nat
  applied : Nat
  generation : Nat
  timer : ExpiryTimer
  bootId : String
  armed : Bool := false
  appliedVerified : Bool := false
  expiresAtUnixSecs : Nat := 0
deriving DecidableEq

def infiniteQuota : Nat := 2 ^ 64 - 1

/-- `IntentAction` (cpu_limit.rs:623). -/
inductive IntentAction where
  | reuse
  | restoreUnprotected
  | dropUnapplied
  | preserveExternal
deriving DecidableEq

/-- `reconcile_intent` (cpu_limit.rs:629). -/
def reconcileIntent (lease : Lease) (current : Nat) (armed : Bool) : IntentAction :=
  if current = lease.applied then
    if armed then .reuse else .restoreUnprotected
  else if current = lease.original ∧ lease.appliedVerified = false then .dropUnapplied
  else .preserveExternal

/-- `lease_is_owned` (cpu_limit.rs:606). -/
def leaseIsOwned (savedBoot currentBoot savedInvocation invocation loadState : String) :
    Except String Bool :=
  if savedBoot ≠ currentBoot ∨ loadState = "not-found" then .ok false
  else if loadState ≠ "loaded" ∨ invocation = "" ∨ savedInvocation = "" then
    .error "unit ownership unavailable; retaining CPU recovery obligation"
  else .ok (savedInvocation == invocation)

/-! ## The calls -/

inductive UnitProperty where
  | invocationId
  | activeState
  | loadState
  | delegate
deriving DecidableEq

/-- For what a quota is written. -/
inductive QuotaWrite where
  /-- The cap itself (cpu_limit.rs:479). -/
  | apply (lease : Lease)
  /-- An unprotected application taken back by the next cap (cpu_limit.rs:409). -/
  | recovered (lease : Lease)
  /-- A release for `generation` (cpu_limit.rs:533). -/
  | released (generation : Nat) (lease : Lease)

/-- For what a lease file is removed. -/
inductive LeaseDrop where
  /-- It is of another invocation or boot (cpu_limit.rs:385). -/
  | stale
  /-- Recovered or never applied (cpu_limit.rs:416). -/
  | recovered
  /-- At the end of a release for `generation` (cpu_limit.rs:536). -/
  | released (generation : Nat)

/-- The calls. Saving a lease renames a new file into place and then syncs the directory. -/
inductive LeaseOp where
  | property (unit : String) (name : UnitProperty)
  | quota (unit : String)
  | timerState (timer : ExpiryTimer)
  | setQuota (unit : String) (quota : Nat) (why : QuotaWrite)
  | arm (timer : ExpiryTimer) (seconds : Nat)
  | stopTimer (timer : ExpiryTimer)
  | validateWorkload (unit : String)
  | clock
  | tryLock (key : UInt64)
  | unlock (key : UInt64)
  | load (key : UInt64)
  | persist (key : UInt64) (lease : Lease)
  | syncRoot (key : UInt64)
  | remove (key : UInt64) (why : LeaseDrop)
  | listLeases

/-- What a call is answered: a value, or the text of an error. -/
def LeaseAnswer : LeaseOp → Type
  | .property _ _ => Except String String
  | .quota _ => Except String Nat
  | .timerState _ => Except String String
  | .clock => Except String Nat
  | .load _ => Except String (Option Lease)
  | .listLeases => Except String (List UInt64)
  | .stopTimer _ => Unit
  | .unlock _ => Unit
  | .setQuota _ _ _ => Except String Unit
  | .arm _ _ => Except String Unit
  | .validateWorkload _ => Except String Unit
  | .tryLock _ => Except String Unit
  | .persist _ _ => Except String Unit
  | .syncRoot _ => Except String Unit
  | .remove _ _ => Except String Unit

abbrev LeaseProg := Prog LeaseAnswer

abbrev perform (o : LeaseOp) : LeaseProg (LeaseAnswer o) := Prog.perform o

/-- Programs that pass an error on. -/
abbrev LeaseM := ExceptT String LeaseProg

namespace LeaseM

def property (unit : String) (name : UnitProperty) : LeaseM String :=
  ExceptT.mk (perform (.property unit name))

/-- `quota_value` of the quota property. -/
def quota (unit : String) : LeaseM Nat := ExceptT.mk (perform (.quota unit))

def timerState (timer : ExpiryTimer) : LeaseM String :=
  ExceptT.mk (perform (.timerState timer))

def arm (timer : ExpiryTimer) (seconds : Nat) : LeaseM Unit :=
  ExceptT.mk (perform (.arm timer seconds))

def validateWorkload (unit : String) : LeaseM Unit :=
  ExceptT.mk (perform (.validateWorkload unit))

/-- Nanoseconds since 1970. -/
def clock : LeaseM Nat := ExceptT.mk (perform .clock)

def stopTimer (timer : ExpiryTimer) : LeaseM Unit := ExceptT.lift (perform (.stopTimer timer))

/-- `load` (cpu_limit.rs:183). -/
def load (key : UInt64) : LeaseM (Option Lease) := ExceptT.mk (perform (.load key))

/-- `save` (cpu_limit.rs:171). -/
def save (key : UInt64) (lease : Lease) : LeaseM Unit := do
  ExceptT.mk (perform (.persist key lease))
  ExceptT.mk (perform (.syncRoot key))

def remove (key : UInt64) (why : LeaseDrop) : LeaseM Unit :=
  ExceptT.mk (perform (.remove key why))

def require (ok : Prop) [Decidable ok] (error : String) : LeaseM Unit :=
  if ok then pure () else throw error

/-- `set_quota` (cpu_limit.rs:84): the write, and a reading to verify it. -/
def setQuota (unit : String) (value : Nat) (why : QuotaWrite) : LeaseM Unit := do
  ExceptT.mk (perform (.setQuota unit value why))
  let observed ← quota unit
  require (observed = value) ("CPU quota verification failed: wanted " ++ toString value ++
    ", observed " ++ toString observed)

/-- `lock` (cpu_limit.rs:158), released when the body ends. -/
def withLock {α : Type} (key : UInt64) (body : LeaseM α) : LeaseM α := do
  ExceptT.mk (perform (.tryLock key))
  ExceptT.mk (do
    let result ← body.run
    perform (.unlock key)
    pure result)

end LeaseM

/-! ## The programs -/

/-- The arguments of `cap_prepared` that do not come from the system. -/
structure CapCall where
  unit : String
  percent : Nat
  leaseSeconds : Nat

open LeaseM in
/-- Whether an existing lease is still protected by its timer (cpu_limit.rs:392-401). -/
def leaseArmed (old : Lease) : LeaseM Bool :=
  if old.armed then do
    let now ← clock
    if now / 10 ^ 9 < old.expiresAtUnixSecs then do
      let state ← timerState old.timer
      pure (state == "active")
    else pure false
  else pure false

open LeaseM in
/-- The end of a recovery (cpu_limit.rs:416-417). -/
def dropRecovered (key : UInt64) : LeaseM (UInt64 × Nat) := do
  remove key .recovered
  throw "incomplete CPU lease recovered; retry next pass"

open LeaseM in
/-- `cap_prepared` when there is a lease (cpu_limit.rs:384-418). -/
def recoverIntent (call : CapCall) (currentBoot invocation : String) (old : Lease) :
    LeaseM (UInt64 × Nat) :=
  if old.invocation ≠ invocation ∨ old.bootId ≠ currentBoot then do
    remove (leaseKey call.unit) .stale
    throw "stale CPU intent retired without touching replacement unit; retry next pass"
  else do
    let current ← quota call.unit
    let armed ← leaseArmed old
    match reconcileIntent old current armed with
    | .reuse => do
      save (leaseKey call.unit) { old with appliedVerified := true }
      pure (leaseKey call.unit, old.generation)
    | .restoreUnprotected => do
      setQuota call.unit old.original (.recovered old)
      dropRecovered (leaseKey call.unit)
    | .dropUnapplied => dropRecovered (leaseKey call.unit)
    | .preserveExternal => throw "CPU lease state changed externally; no application claimed"

open LeaseM in
/-- From the intent on file to the quota applied (cpu_limit.rs:449-482). -/
def applyLease (call : CapCall) (lease : Lease) : LeaseM (UInt64 × Nat) := do
  save (leaseKey call.unit) lease
  arm lease.timer call.leaseSeconds
  let state ← timerState lease.timer
  require (state = "active") "CPU expiry timer is not armed; refusing quota mutation"
  let armed : Lease := { lease with armed := true }
  save (leaseKey call.unit) armed
  let delegate ← property call.unit .delegate
  require (delegate = "no") "delegated scopes are unsupported for safe CPU limiting"
  validateWorkload call.unit
  let before ← quota call.unit
  require (before = lease.original) "CPU quota changed before apply"
  let identity ← property call.unit .invocationId
  require (identity = lease.invocation) "process or unit identity changed before CPU cap"
  let now ← clock
  require (now / 10 ^ 9 < lease.expiresAtUnixSecs)
    "CPU lease expired during preparation; quota not applied"
  setQuota call.unit lease.applied (.apply armed)
  save (leaseKey call.unit) { armed with appliedVerified := true }
  pure (leaseKey call.unit, lease.generation)

open LeaseM in
/-- `cap_prepared` when there is no lease (cpu_limit.rs:419-482). -/
def prepareLease (call : CapCall) (currentBoot invocation : String) : LeaseM (UInt64 × Nat) := do
  let original ← quota call.unit
  let applied := min original (call.percent * 10000)
  require (applied < original) "workload already has an equal or stricter CPU quota"
  let generation ← clock
  let now ← clock
  applyLease call
    { unit := call.unit, invocation := invocation, original := original, applied := applied,
      generation := generation, timer := ⟨leaseKey call.unit, generation⟩, bootId := currentBoot,
      expiresAtUnixSecs := min (now / 10 ^ 9 + call.leaseSeconds) (2 ^ 64 - 1) }

open LeaseM in
/-- `cap_prepared` (cpu_limit.rs:368). -/
def capPrepared (call : CapCall) (currentBoot : String) : LeaseM (UInt64 × Nat) := do
  let invocation ← property call.unit .invocationId
  require (invocation ≠ "") "workload scope not active"
  let active ← property call.unit .activeState
  require (active = "active") "workload scope not active"
  withLock (leaseKey call.unit) do
    let found ← load (leaseKey call.unit)
    match found with
    | some old => recoverIntent call currentBoot invocation old
    | none => prepareLease call currentBoot invocation

open LeaseM in
/-- Asked in the boot of the lease (cpu_limit.rs:513-517). -/
def leaseLoadState (currentBoot : String) (lease : Lease) : LeaseM String :=
  if currentBoot = lease.bootId then property lease.unit .loadState else pure ""

open LeaseM in
/-- Asked of a loaded unit (cpu_limit.rs:518-522). -/
def leaseInvocation (lease : Lease) (loadState : String) : LeaseM String :=
  if loadState = "loaded" then property lease.unit .invocationId else pure ""

/-- Whether the lease's unit is the one it was made for (cpu_limit.rs:513-529). -/
def leaseOwned (currentBoot : String) (lease : Lease) : LeaseM Bool := do
  let loadState ← leaseLoadState currentBoot lease
  let invocation ← leaseInvocation lease loadState
  ExceptT.mk (pure (leaseIsOwned lease.bootId currentBoot lease.invocation invocation loadState))

open LeaseM in
/-- Compare-and-restore (cpu_limit.rs:530-535). -/
def restoreOwned (generation : Nat) (lease : Lease) (owned : Bool) : LeaseM Unit :=
  if owned then do
    let current ← quota lease.unit
    if current = lease.applied then
      setQuota lease.unit lease.original (.released generation lease)
    else pure ()
  else pure ()

open LeaseM in
/-- `release_with` from the lease it is for on (cpu_limit.rs:513-538). -/
def releaseLease (currentBoot : String) (key : UInt64) (generation : Nat) (lease : Lease) :
    LeaseM Unit := do
  let owned ← leaseOwned currentBoot lease
  restoreOwned generation lease owned
  remove key (.released generation)
  stopTimer lease.timer

open LeaseM in
/-- `release_with` (cpu_limit.rs:499). -/
def releaseWith (currentBoot : String) (key : UInt64) (generation : Nat) : LeaseM Unit :=
  withLock key do
    let found ← load key
    match found with
    | none => pure ()
    | some lease =>
      -- an obsolete timer
      if lease.generation ≠ generation then pure ()
      else releaseLease currentBoot key generation lease

/-- The loop of `recover_with`: the lease is read outside the lock, for its generation. -/
def recoverEach (currentBoot : String) : List UInt64 → LeaseProg Unit
  | [] => pure ()
  | key :: rest => do
    let found ← perform (.load key)
    match found with
    | .ok (some lease) => do
      let _ ← (releaseWith currentBoot key lease.generation).run
      recoverEach currentBoot rest
    | _ => recoverEach currentBoot rest

/-- `recover_with` (cpu_limit.rs:553). -/
def recoverWith (currentBoot : String) : LeaseProg Unit := do
  let listed ← perform .listLeases
  match listed with
  | .ok keys => recoverEach currentBoot keys
  | .error _ => pure ()

/-! ## The state -/

/-- A loaded unit. -/
structure ScopeState where
  invocation : String
  quota : Nat

/-- A ghost: the guard has written a quota to a unit and not taken it back. -/
structure QuotaDebt where
  /-- What it replaced. -/
  original : Nat
  applied : Nat
  generation : Nat
  /-- The timers that had been seen active by then. -/
  seenBefore : List ExpiryTimer

structure LeaseWorld where
  boot : String
  scopes : String → Option ScopeState
  /-- The lease files as they read now. -/
  visible : UInt64 → Option Lease
  /-- The lease files as they would read after a power loss. -/
  durable : UInt64 → Option Lease
  locks : UInt64 → Option Nat
  timers : List ExpiryTimer
  /-- Timers that a reading has found active. -/
  seenActive : List ExpiryTimer
  /-- The unit whose quota the actor read last, unless it was changed from outside since. -/
  reading : Nat → Option String
  /-- Debts to units as they were when the quota was written: a unit that is replaced, or whose
  quota is changed from outside, is owed nothing. -/
  owed : String → Option QuotaDebt

namespace LeaseWorld

open Function (update)

variable (w : LeaseWorld)

/-- A unit that is not loaded has no limit. -/
def quotaOf (unit : String) : Nat :=
  match w.scopes unit with
  | some scope => scope.quota
  | none => infiniteQuota

def invocationOf (unit : String) : String :=
  match w.scopes unit with
  | some scope => scope.invocation
  | none => ""

/-- What a property may read. -/
def Answers (unit : String) : UnitProperty → String → Prop
  | .invocationId, text => text = w.invocationOf unit
  | .loadState, text => text = "not-found" → w.scopes unit = none
  | .activeState, _ => True
  | .delegate, _ => True

/-- What a write leaves the guard owing: only a cap on a unit of the lease's boot and invocation
is one. -/
def debtOf (scope : ScopeState) (quota : Nat) : QuotaWrite → Option QuotaDebt
  | .apply lease =>
    if lease.bootId = w.boot ∧ lease.invocation = scope.invocation then
      some { original := scope.quota, applied := quota, generation := lease.generation,
             seenBefore := w.seenActive }
    else none
  | .recovered _ => none
  | .released _ _ => none

/-- A quota written by the guard. -/
def writeQuota (unit : String) (quota : Nat) (why : QuotaWrite) : LeaseWorld :=
  match w.scopes unit with
  | none => w
  | some scope =>
    { w with scopes := update w.scopes unit (some { scope with quota := quota })
             owed := update w.owed unit (w.debtOf scope quota why) }

/-- A change to a unit that is not the guard's. -/
def touch (unit : String) (state : Option ScopeState) : LeaseWorld :=
  let after : LeaseWorld := { w with scopes := update w.scopes unit state
                                     owed := update w.owed unit none }
  { after with reading := fun j =>
      if w.reading j = some unit ∧ after.quotaOf unit ≠ w.quotaOf unit then none
      else w.reading j }

/-- What a call does, by its answer. The reply to a write that went through may be an error. -/
def Exec (i : Nat) (w : LeaseWorld) : (o : LeaseOp) → LeaseAnswer o → LeaseWorld → Prop
  | .property unit name, r, w' => w' = w ∧ ∀ text, r = .ok text → w.Answers unit name text
  | .quota unit, r, w' => (∃ e, r = .error e) ∧ w' = w ∨
      r = .ok (w.quotaOf unit) ∧ w' = { w with reading := update w.reading i (some unit) }
  | .timerState timer, r, w' => r ≠ .ok "active" ∧ w' = w ∨
      r = .ok "active" ∧ timer ∈ w.timers ∧ w' = { w with seenActive := timer :: w.seenActive }
  | .setQuota unit quota why, r, w' => (∃ e, r = .error e) ∧ w' = w ∨
      (w.scopes unit).isSome ∧ w' = w.writeQuota unit quota why
  | .arm timer _, r, w' => (∃ e, r = .error e) ∧ w' = w ∨
      w' = { w with timers := timer :: w.timers }
  | .stopTimer timer, _, w' => w' = w ∨ w' = { w with timers := w.timers.filter (· ≠ timer) }
  | .validateWorkload _, _, w' => w' = w
  | .clock, _, w' => w' = w
  | .listLeases, _, w' => w' = w
  | .tryLock key, r, w' => (∃ e, r = .error e) ∧ w' = w ∨
      r = .ok () ∧ w.locks key = none ∧ w' = { w with locks := update w.locks key (some i) }
  | .unlock key, _, w' => w' = { w with locks := update w.locks key none }
  | .load key, r, w' => w' = w ∧ ∀ found, r = .ok found → found = w.visible key
  | .persist key lease, r, w' => (∃ e, r = .error e) ∧ w' = w ∨
      w' = { w with visible := update w.visible key (some lease) }
  | .syncRoot key, r, w' => (∃ e, r = .error e) ∧ w' = w ∨
      w' = { w with durable := update w.durable key (w.visible key) }
  | .remove key _, r, w' => (∃ e, r = .error e) ∧ w' = w ∨
      w' = { w with visible := update w.visible key none }

/-- What happens without an actor. -/
inductive Outside : LeaseWorld → Prop
  | quotaChanged (unit : String) (scope : ScopeState) (quota : Nat)
      (h : w.scopes unit = some scope) :
      Outside (w.touch unit (some { scope with quota := quota }))
  /-- The unit goes away, or another invocation of it is there. -/
  | unitReplaced (unit : String) (state : Option ScopeState) : Outside (w.touch unit state)
  | timerGone (timer : ExpiryTimer) : Outside { w with timers := w.timers.filter (· ≠ timer) }
  /-- A change to a lease file reaches the disk by itself. -/
  | flushed (key : UInt64) :
      Outside { w with durable := update w.durable key (w.visible key) }

/-- The machine comes up again with the lease files that had reached the disk. -/
inductive Reboots : LeaseWorld → Prop
  | mk (boot : String) : Reboots
      { boot := boot, scopes := fun _ => none, visible := w.durable, durable := w.durable,
        locks := fun _ => none, timers := [], seenActive := w.seenActive,
        reading := fun _ => none, owed := fun _ => none }

/-- Locks are the kernel's: they go with their holder. -/
def leave (i : Nat) : LeaseWorld :=
  { w with locks := fun key => if w.locks key = some i then none else w.locks key }

end LeaseWorld

def LeaseM.discard {α : Type} (prog : LeaseM α) : LeaseProg Unit := do
  let _ ← prog.run
  pure ()

/-- The guard, expiry timers and recoveries: caps of the given units, releases for any generation,
recoveries, in any number. -/
def leaseMachine (units : Set String) : Machine LeaseAnswer LeaseWorld where
  exec := LeaseWorld.Exec
  programs w prog :=
    (∃ call : CapCall, call.unit ∈ units ∧ prog = (capPrepared call w.boot).discard) ∨
      (∃ key generation, prog = (releaseWith w.boot key generation).discard) ∨
        prog = recoverWith w.boot
  leave := fun i w => w.leave i
  outside := LeaseWorld.Outside
  reboot := LeaseWorld.Reboots

/-- The guard starts on what earlier runs have left on file. -/
structure LeaseWorld.Fresh (units : Set String) (w : LeaseWorld) : Prop where
  files : ∀ key lease, w.visible key = some lease ∨ w.durable key = some lease →
    lease.unit ∈ units ∧ leaseKey lease.unit = key
  unlocked : ∀ key, w.locks key = none
  owed : ∀ unit, w.owed unit = none

end DraconGuard
