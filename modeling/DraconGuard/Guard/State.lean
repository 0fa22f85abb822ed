import Mathlib.Data.Finset.Defs
import DraconGuard.Guard.Nice

/-!
# The runtime state behind the mitigation ledger

`GuardRuntimeState` (main.rs:945), as far as the reversible process mitigations and their
ledger go. Its report, disk, zombie and cleanup fields are read by none of them.
-/

namespace DraconGuard

/-- `OomPendingDescendant` (main.rs:841). -/
structure OomPendingDescendant where
  rootPid : Pid
  originalAdj : Int
  identity : ProcessIdentity
  /-- Retry/escalation counter, kept with the obligation. -/
  attempts : Nat
deriving DecidableEq, Repr

/-- A process incarnation as the descendant maps key it. -/
abbrev Incarnation := Pid × Nat

structure OomState where
  /-- `oom_biased_pids`: what to restore, and whose it is. -/
  oomBiasedPids : FinMap Pid (Int × ProcessIdentity) := ∅
  oomKnownDescendants : FinMap Pid (Finset Incarnation) := ∅
  oomPendingDescendants : FinMap Incarnation OomPendingDescendant := ∅
  oomCooledSince : FinMap Pid Time := ∅
  oomIdentityUnavailableAttempts : FinMap Pid Nat := ∅

/-- An entry of `capped_pids`: scope or lease key, original cgroup or lease generation, and
whose cap it is. -/
structure CapEntry where
  scope : String
  origCgroup : String
  identity : ProcessIdentity
deriving DecidableEq, Repr

structure CapState where
  cappedPids : FinMap Pid CapEntry := ∅
  capCooledSince : FinMap Pid Time := ∅
  capIdentityUnavailableAttempts : FinMap Pid Nat := ∅

/-- `MitigationRecord` (main.rs:7157). -/
structure MitigationRecord where
  pid : Pid
  originalNice : Option Int := none
  originalOomAdj : Option Int := none
  capScope : Option String := none
  /-- Absent only in a ledger written before this field existed. -/
  capOrigCgroup : Option String := none
  identity : ProcessIdentity
deriving DecidableEq, Repr

/-- `MitigationLedger` (main.rs:7174). `oomKnown` keeps each set as a set: its JSON lists the
members in order, so equal ledgers and equal bytes are the same thing. -/
structure MitigationLedger where
  version : Nat := 0
  bootId : Option String := none
  records : List MitigationRecord
  oomPending : List (Pid × OomPendingDescendant) := []
  oomKnown : List (Pid × Finset Incarnation) := []
deriving DecidableEq

structure GuardRuntimeState where
  nice : NiceState := {}
  oom : OomState := {}
  caps : CapState := {}
  /-- The ledger last written, by its bytes in the source. -/
  lastPersistedMitigations : Option MitigationLedger := none
  persistMitigations : Bool := false
  mitigationLedgerUnavailable : Bool := false

end DraconGuard
