import DraconGuard.Reap.Forgotten

/-!
# Verification at kill time

`verify_candidate_for_reap` (reap.rs:548), `verify_orphan_for_reap` (reap.rs:767) and
`verify_forgotten_tree_for_reap` (reap.rs:841). Each file is read at its own instant, so what
one check saw may be gone when the next one looks. `self` is the guard's own pid, `/proc` the
`proc_root`.
-/

namespace DraconGuard

open Watch

variable {ε : Type}

/-- The checks on the executable and the command line that the two single-process verifications
end with. -/
def verifyCmdline (policy : ReapPolicy) (pid : Pid) : Prog Host ε Bool := do
  match ← look fun h => (h.files pid).cmdline with
  | none => pure false
  | some raw =>
    let args := cmdlineArgs raw
    if args = "" then pure false
    else do
      let exe ← look fun h => (h.files pid).exe
      if matchesExempt (processExecutableName exe raw) policy.exemptNames then pure false
      else pure (matchesSignature args policy.signatures).isSome

/-- `verify_candidate_for_reap` (reap.rs:548). -/
def verifyCandidateForReap (self : Pid) (candidate : ReapCandidate) (policy : ReapPolicy)
    (ticksPerSec : Nat) : Prog Host ε Bool := do
  if candidate.pid ≤ 1 ∨ candidate.pid = self then pure false
  else
    match (← look fun h => (h.files candidate.pid).stat).bind parseStat with
    | none => pure false
    | some fields =>
      if fields.starttime ≠ candidate.starttime then pure false
      else if fields.state ≠ 'S' ∨ fields.ttyNr ≠ 0 then pure false
      else if policy.maxCpuSeconds < fields.cpuTicks / max ticksPerSec 1 then pure false
      else verifyCmdline policy candidate.pid

/-- `verify_orphan_for_reap` (reap.rs:767). -/
def verifyOrphanForReap (self : Pid) (candidate : ReapCandidate) (policy : ReapPolicy)
    (_ticksPerSec : Nat) : Prog Host ε Bool := do
  if candidate.pid ≤ 1 ∨ candidate.pid = self then pure false
  else
    match (← look fun h => (h.files candidate.pid).stat).bind parseStat with
    | none => pure false
    | some fields =>
      if fields.starttime ≠ candidate.starttime then pure false
      else do
        let orphan ← look fun h => parentCommIsSystemd h fields.ppid
        if !orphan then pure false
        else if fields.ttyNr ≠ 0 then pure false
        else verifyCmdline policy candidate.pid

/-! ## Trees -/

/-- `VerifiedTree` (reap.rs:972). -/
structure VerifiedTree where
  members : List TreeMember
  skipped : Nat

/-- One member of the loop in `verify_forgotten_tree_for_reap` (reap.rs:910-953): still ours to
signal? -/
def memberStillOurs (policy : ReapPolicy) (member : TreeMember) : Prog Host ε Bool := do
  match (← look fun h => (h.files member.pid).stat).bind parseStat with
  | none => pure false
  | some fields =>
    if fields.starttime ≠ member.starttime then pure false
    else if fields.state = 'Z' ∨ fields.state = 'X' then pure false
    else
      match ← look fun h => (h.files member.pid).cmdline with
      | none => pure false
      | some raw =>
        if browserDecidesByVeto (cmdlineArgs raw) then pure true
        else do
          let exe ← look fun h => (h.files member.pid).exe
          pure (!matchesExempt (processExecutableName exe raw) policy.exemptNames)

/-- The checks on the root before the usage question (reap.rs:847-862), with the root's stat. -/
def verifyRoot (tree : ForgottenTree) : Prog Host ε (Option StatFields) := do
  match (← look fun h => (h.files tree.rootPid).stat).bind parseStat with
  | none => pure none
  | some fields =>
    if fields.starttime ≠ tree.rootStarttime then pure none
    else do
      let orphan ← look fun h => parentCommIsSystemd h fields.ppid
      if !orphan then pure none
      else if fields.ttyNr ≠ 0 ∨ fields.state ≠ 'S' then pure none
      else pure (some fields)

/-- The usage question (reap.rs:872-881): may the tree be ended as far as it goes? -/
def verifyUsage (tree : ForgottenTree) (fields : StatFields) (policy : ReapPolicy)
    (ticksPerSec : Nat) : Prog Host ε Bool := do
  match ← treeUsage tree with
  | .driven => pure false
  | .unknown => pure (fields.cpuTicks / max ticksPerSec 1 ≤ policy.maxCpuSeconds)
  | .undriven => pure true

/-- The exemption and the desktop veto on the root (reap.rs:889-906). -/
def verifyRootCmdline (tree : ForgottenTree) (policy : ReapPolicy) : Prog Host ε Bool := do
  match ← look fun h => (h.files tree.rootPid).cmdline with
  | none => pure false
  | some raw =>
    let args := cmdlineArgs raw
    if args = "" then pure false
    else do
      let exe ← look fun h => (h.files tree.rootPid).exe
      if matchesExempt (processExecutableName exe raw) policy.exemptNames &&
          !browserDecidesByVeto args then pure false
      else match classifyDesktopSession args with
        | .test _ => pure true
        | _ => pure false

/-- `verify_forgotten_tree_for_reap` (reap.rs:841). -/
def verifyForgottenTreeForReap (tree : ForgottenTree) (policy : ReapPolicy)
    (ticksPerSec : Nat) : Prog Host ε (Option VerifiedTree) := do
  match ← verifyRoot tree with
  | none => pure none
  | some fields =>
    if !(← verifyUsage tree fields policy ticksPerSec) then pure none
    else if tree.ageSecs < forgottenMinTreeAgeSecs then pure none
    else if !(← verifyRootCmdline tree policy) then pure none
    else do
      let members ← retain (memberStillOurs policy) tree.members
      if members = [] then pure none
      else do
        let (rootFootprint, aggregate) ← measureTreeFootprint tree.rootPid members
        if aggregate < policy.forgottenTreeFootprintMb ∧
            rootFootprint < policy.forgottenFootprintMb then pure none
        else pure (some { members := members, skipped := tree.members.length - members.length })

end DraconGuard
