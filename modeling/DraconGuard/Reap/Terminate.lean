import DraconGuard.Reap.Verify

/-!
# Ending processes

`pid_is_alive` (reap.rs:647), `terminate_process` (reap.rs:669), `terminate_tree` (reap.rs:1007)
and the passes around them (reap.rs:745, 810, 1109, 1196). Verification looks at an incarnation,
everything after it only at a number. The log says which incarnation each step really met; the
code does not know it. What a signal does to a process is part of the timeline.
-/

namespace DraconGuard

open Watch

/-- Which question a liveness probe answers. -/
inductive ProbeStage where
  /-- Before SIGTERM. -/
  | beforeTerm
  /-- The grace poll of that number, after SIGTERM. -/
  | termPoll (i : Nat)
  /-- The poll of that number, after SIGKILL. -/
  | killPoll (i : Nat)
deriving DecidableEq, Repr

inductive Signal where
  | sigterm
  | sigkill
deriving DecidableEq, Repr

/-- What a reap pass does, and the incarnation (start time) that was under the pid. -/
inductive ReapEvent where
  /-- The verify function accepted this incarnation. -/
  | accepted (pid : Pid) (starttime : Nat)
  /-- A liveness probe found this incarnation, or nobody. -/
  | probed (pid : Pid) (stage : ProbeStage) (found : Option Nat)
  /-- A signal reached this incarnation, or nobody. -/
  | signalled (pid : Pid) (signal : Signal) (reached : Option Nat)
deriving DecidableEq, Repr

/-- A program of the reaper. -/
abbrev Reaping := Prog Host ReapEvent

/-- `TERM_GRACE_POLLS` (reap.rs:524). -/
def termGracePolls : Nat := 50

/-- `KILL_GRACE_POLLS` (reap.rs:538). -/
def killGracePolls : Nat := 20

/-- `REAP_PASS_BUDGET` (reap.rs:533), in milliseconds. -/
def reapPassBudget : Nat := 60000

/-! ## System calls -/

/-- What `kill` answers: nobody there, refused, or delivered. -/
def Host.killAnswer (h : Host) (pid : Pid) : Option Errno :=
  match h.holder pid with
  | none => some .esrch
  | some p => p.refusal

/-- `kill(pid, signal)`: the error, `none` when it was delivered. -/
def kill (pid : Pid) (signal : Signal) : Reaping (Option Errno) := act fun h =>
  let answer := h.killAnswer pid
  (answer, [.signalled pid signal (if answer = none then h.starttimeOf pid else none)])

/-- The state in a `stat` text that means dead: a zombie or worse. -/
def deadState (raw : String) : Bool :=
  match (parseStat raw).map (·.state) with
  | some state => state == 'Z' || state == 'X'
  | none => false

/-- `pid_is_alive` (reap.rs:647): `kill(pid, 0)`, then the state in `/proc/<pid>/stat`. The pid
may change hands between the two; what counts as found is who is there at the last look. -/
def pidIsAlive (stage : ProbeStage) (pid : Pid) : Reaping Bool := do
  let present ← act fun h =>
    if h.killAnswer pid = some .esrch then (false, [.probed pid stage none]) else (true, [])
  if !present then pure false
  else act fun h =>
    (match (h.files pid).stat with
      | some raw => !deadState raw
      | none => true,
     [.probed pid stage (h.starttimeOf pid)])

/-! ## One process -/

/-- `TerminateOutcome` (reap.rs:591). -/
inductive TerminateOutcome where
  | signalled (escalatedToSigkill : Bool)
  | alreadyGone
  | refused (reason : String)
  | failed (reason : String)
deriving DecidableEq, Repr

/-- A grace period: polls until the process is gone, `false` when it outlives all of them. -/
def goneWithin (stage : Nat → ProbeStage) (pid : Pid) : List Nat → Reaping Bool
  | [] => pure false
  | i :: polls => do
    if !(← pidIsAlive (stage i) pid) then pure true
    else do
      pause
      goneWithin stage pid polls

/-- What follows the SIGTERM grace period (reap.rs:712-737). -/
def escalate (pid : Pid) : Reaping TerminateOutcome := do
  match ← kill pid .sigkill with
  | some .esrch => pure (.signalled false)
  | some _ => pure (.failed "SIGKILL syscall failed")
  | none =>
    if ← goneWithin .killPoll pid (List.range killGracePolls) then pure (.signalled true)
    else pure (.failed "process survived SIGKILL (uninterruptible sleep?)")

/-- `terminate_process` (reap.rs:669). -/
def terminateProcess (self pid : Pid) : Reaping TerminateOutcome := do
  if pid ≤ 1 then pure (.refused "reserved pid")
  else if pid = self then pure (.refused "guard will not signal itself")
  else if !(← pidIsAlive .beforeTerm pid) then pure .alreadyGone
  else
    match ← kill pid .sigterm with
    | some .esrch => pure .alreadyGone
    | some .eperm => pure (.refused "permission denied")
    | some .other => pure (.failed "SIGTERM syscall failed")
    | none =>
      if ← goneWithin .termPoll pid (List.range termGracePolls) then pure (.signalled false)
      else escalate pid

/-! ## A tree -/

/-- `TreeTermination` (reap.rs:981). -/
structure TreeTermination where
  membersEnded : Nat
  membersLeft : Nat
  alreadyGone : Nat
  refused : Nat
  escalatedToSigkill : Bool
deriving DecidableEq, Repr

/-- The counters of the SIGTERM round. -/
structure TermRound where
  signalled : List Pid := []
  alreadyGone : Nat := 0
  refused : Nat := 0

/-- One member of the SIGTERM round (reap.rs:1011-1034). -/
def termMember (self : Pid) (round : TermRound) (member : TreeMember) : Reaping TermRound := do
  let pid := member.pid
  if pid ≤ 1 ∨ pid = self then pure { round with refused := round.refused + 1 }
  else if !(← pidIsAlive .beforeTerm pid) then
    pure { round with alreadyGone := round.alreadyGone + 1 }
  else
    match ← kill pid .sigterm with
    | none => pure { round with signalled := round.signalled ++ [pid] }
    | some .esrch => pure { round with alreadyGone := round.alreadyGone + 1 }
    | some _ => pure { round with refused := round.refused + 1 }

/-- The polls of a grace period over a list of pids (reap.rs:1037-1047, 1057-1067). -/
def pollRounds (stage : Nat → ProbeStage) : List Nat → List Pid → Reaping (List Pid)
  | [], pending => pure pending
  | i :: polls, pending => do
    if pending = [] then pure pending
    else do
      let left ← retain (pidIsAlive (stage i)) pending
      if left = [] then pure left
      else do
        pause
        pollRounds stage polls left

/-- One SIGKILL of a tree (reap.rs:1050-1055). -/
def killMember (escalated : Bool) (pid : Pid) : Reaping Bool := do
  let answer ← kill pid .sigkill
  pure (escalated || answer.isNone)

/-- `terminate_tree` (reap.rs:1007). -/
def terminateTree (self : Pid) (members : List TreeMember) : Reaping TreeTermination := do
  let round ← members.foldlM (termMember self) {}
  let pending ← pollRounds .termPoll (List.range termGracePolls) round.signalled
  let escalated ← pending.foldlM killMember false
  let survivors ← pollRounds .killPoll (List.range killGracePolls) pending
  pure { membersEnded := round.signalled.length - survivors.length
         membersLeft := survivors.length
         alreadyGone := round.alreadyGone
         refused := round.refused
         escalatedToSigkill := escalated }

/-! ## Passes -/

/-- `ReapDisposition` (reap.rs:629). -/
inductive ReapDisposition where
  | signalled
  | deferred
  | notVerified
deriving DecidableEq, Repr

/-- `ReapedProcess` (reap.rs:610). -/
structure ReapedProcess where
  pid : Pid
  comm : String
  signature : String
  verified : Bool
  outcome : Option TerminateOutcome
  disposition : ReapDisposition
deriving DecidableEq

/-- The verify functions of the single-process passes. -/
abbrev VerifyCandidate := Pid → ReapCandidate → ReapPolicy → Nat → Reaping Bool

/-- One candidate of `reap_verified_candidates` (reap.rs:1219-1266). -/
def reapCandidate (self : Pid) (policy : ReapPolicy) (ticksPerSec : Nat)
    (verify : VerifyCandidate) (budget passStarted : Nat) (candidate : ReapCandidate) :
    Reaping ReapedProcess := do
  let record := ReapedProcess.mk candidate.pid candidate.comm candidate.signature
  let now ← look fun h => h.clock
  if budget ≤ now - passStarted then pure (record false none .deferred)
  else if !(← verify self candidate policy ticksPerSec) then
    pure (record false none .notVerified)
  else do
    note [.accepted candidate.pid candidate.starttime]
    let outcome ← terminateProcess self candidate.pid
    pure (record true (some outcome) .signalled)

/-- `reap_verified_candidates` (reap.rs:1196). -/
def reapVerifiedCandidates (self : Pid) (policy : ReapPolicy) (candidates : List ReapCandidate)
    (ticksPerSec : Nat) (verify : VerifyCandidate) (budget : Nat) :
    Reaping (List ReapedProcess) := do
  let passStarted ← look fun h => h.clock
  each (reapCandidate self policy ticksPerSec verify budget passStarted) candidates

/-- `auto_reap_stale_servers` (reap.rs:745). -/
def autoReapStaleServers (self : Pid) (policy : ReapPolicy) (candidates : List ReapCandidate)
    (ticksPerSec : Nat) : Reaping (List ReapedProcess) :=
  reapVerifiedCandidates self policy candidates ticksPerSec verifyCandidateForReap reapPassBudget

/-- `reap_pressure_orphans` (reap.rs:810). -/
def reapPressureOrphans (self : Pid) (policy : ReapPolicy) (candidates : List ReapCandidate)
    (ticksPerSec : Nat) : Reaping (List ReapedProcess) :=
  reapVerifiedCandidates self policy candidates ticksPerSec verifyOrphanForReap reapPassBudget

/-- `ReapedTree` (reap.rs:1080). -/
structure ReapedTree where
  rootPid : Pid
  rootComm : String
  memberCount : Nat
  aggregateFootprintMb : Nat
  verified : Bool
  membersEnded : Nat
  membersLeft : Nat
  membersSkipped : Nat
  escalatedToSigkill : Bool
  disposition : ReapDisposition
  profileDir : Option String
deriving DecidableEq

/-- The record of a tree nothing was signalled of. -/
def untouchedTree (tree : ForgottenTree) (disposition : ReapDisposition) : ReapedTree :=
  { rootPid := tree.rootPid, rootComm := tree.rootComm, memberCount := tree.memberCount
    aggregateFootprintMb := tree.aggregateFootprintMb, verified := false, membersEnded := 0
    membersLeft := 0, membersSkipped := 0, escalatedToSigkill := false
    disposition := disposition, profileDir := none }

/-- `members.sort_by_key(|member| Reverse(member.depth))`, a stable sort. -/
def deepestFirst (members : List TreeMember) : List TreeMember :=
  members.mergeSort fun a b => b.depth ≤ a.depth

/-- One tree of `reap_forgotten_orphan_trees` (reap.rs:1117-1192). -/
def reapTree (self : Pid) (policy : ReapPolicy) (ticksPerSec passStarted : Nat)
    (tree : ForgottenTree) : Reaping ReapedTree := do
  let now ← look fun h => h.clock
  if reapPassBudget ≤ now - passStarted then pure (untouchedTree tree .deferred)
  else
    match ← verifyForgottenTreeForReap tree policy ticksPerSec with
    | none => pure (untouchedTree tree .notVerified)
    | some verified => do
      note (verified.members.map fun member => .accepted member.pid member.starttime)
      let outcome ← terminateTree self (deepestFirst verified.members)
      pure { rootPid := tree.rootPid, rootComm := tree.rootComm
             memberCount := tree.memberCount
             aggregateFootprintMb := tree.aggregateFootprintMb
             verified := true
             membersEnded := outcome.membersEnded
             membersLeft := outcome.membersLeft
             membersSkipped := verified.skipped
             escalatedToSigkill := outcome.escalatedToSigkill
             disposition := .signalled
             profileDir := treeYieldsProfile tree outcome.membersLeft }

/-- `reap_forgotten_orphan_trees` (reap.rs:1109). -/
def reapForgottenOrphanTrees (self : Pid) (policy : ReapPolicy) (trees : List ForgottenTree)
    (ticksPerSec : Nat) : Reaping (List ReapedTree) := do
  let passStarted ← look fun h => h.clock
  each (reapTree self policy ticksPerSec passStarted) trees

end DraconGuard
