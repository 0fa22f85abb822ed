import DraconGuard.Reap.ForgottenScan
import DraconGuard.Reap.TerminateLaw

/-!
# The scans for single processes

`scan_reap_candidates` (reap.rs:424) and `scan_pressure_orphans` (reap.rs:1311) look at one process
after the other, each file at an instant of its own. A verification repeats the gates of its scan
(`Verify.lean`); **`stale_verified`** and **`orphan_verified`** say that it repeats all of them and
adds none that the scan does not know, the start time and the reserved pids apart.
-/

namespace DraconGuard

open Watch

variable {ε : Type}

/-! ## The scans -/

/-- The gates on the command line, with what the signature was found in. -/
def scanCmdline (policy : ReapPolicy) (pid : Pid) : Prog Host ε (Option (String × String)) := do
  match ← look fun h => (h.files pid).cmdline with
  | none => pure none
  | some raw =>
    let args := cmdlineArgs raw
    if args = "" then pure none
    else do
      let exe ← look fun h => (h.files pid).exe
      if matchesExempt (processExecutableName exe raw) policy.exemptNames then pure none
      else pure ((matchesSignature args policy.signatures).map fun signature => (args, signature))

/-- A clock for the scans: when the host started, what time it is, and its ticks. -/
structure ScanClock where
  bootTime : Nat
  now : Nat
  ticksPerSec : Nat

/-- The record of a process that passed the gates. -/
def candidateRecord (clock : ScanClock) (pid : Pid) (fields : StatFields)
    (args signature : String) : Prog Host ε ReapCandidate := do
  let comm ← look fun h => String.ofList (Text.trim ((h.files pid).comm.getD ""))
  let rssMb ← look fun h => rssMbFromStatus (h.files pid).status
  let ageSecs := elapsedSecs fields.starttime clock.ticksPerSec clock.bootTime clock.now
  pure { pid := pid, comm := comm, args := args, idleHours := ageSecs / 3600
         cpuSeconds := fields.cpuTicks / max clock.ticksPerSec 1, rssMb := rssMb
         signature := signature, starttime := fields.starttime }

/-- One process of `scan_reap_candidates` (reap.rs:436-503). -/
def scanStale (policy : ReapPolicy) (clock : ScanClock) (pid : Pid) :
    Prog Host ε (Option ReapCandidate) := do
  match (← look fun h => (h.files pid).stat).bind parseStat with
  | none => pure none
  | some fields =>
    if fields.state ≠ 'S' then pure none
    else if fields.ttyNr ≠ 0 then pure none
    else
      match ← scanCmdline policy pid with
      | none => pure none
      | some (args, signature) =>
        if policy.maxCpuSeconds < fields.cpuTicks / max clock.ticksPerSec 1 then pure none
        else if elapsedSecs fields.starttime clock.ticksPerSec clock.bootTime clock.now <
            min (policy.minIdleHours * 3600) u64Max then pure none
        else do
          let candidate ← candidateRecord clock pid fields args signature
          pure (some candidate)

/-- One process of `scan_pressure_orphans` (reap.rs:1324-1384). -/
def scanOrphan (self : Pid) (policy : ReapPolicy) (clock : ScanClock) (pid : Pid) :
    Prog Host ε (Option ReapCandidate) := do
  if pid ≤ 1 ∨ pid = self then pure none
  else
    match (← look fun h => (h.files pid).stat).bind parseStat with
    | none => pure none
    | some fields => do
      let orphan ← look fun h => parentCommIsSystemd h fields.ppid
      if !orphan then pure none
      else if fields.ttyNr ≠ 0 then pure none
      else
        match ← scanCmdline policy pid with
        | none => pure none
        | some (args, signature) => do
          let candidate ← candidateRecord clock pid fields args signature
          pure (some candidate)

/-- The heaviest first, then by pid. -/
def byWeight (candidates : List ReapCandidate) : List ReapCandidate :=
  candidates.mergeSort fun a b => b.rssMb < a.rssMb || (b.rssMb == a.rssMb && a.pid ≤ b.pid)

/-- `scan_reap_candidates` (reap.rs:424), over the pids `/proc` lists: none where it cannot be
listed. -/
def scanReapCandidates (policy : ReapPolicy) (clock : ScanClock) (listing : List Pid) :
    Prog Host ε (List ReapCandidate) := do
  let found ← each (scanStale policy clock) listing
  pure (byWeight (found.filterMap id))

/-- `scan_pressure_orphans` (reap.rs:1311). -/
def scanPressureOrphans (self : Pid) (policy : ReapPolicy) (clock : ScanClock)
    (listing : List Pid) : Prog Host ε (List ReapCandidate) := do
  let found ← each (scanOrphan self policy clock) listing
  pure (byWeight (found.filterMap id))

/-! ## What a scan finds in a world that stands still -/

theorem observes_scanCmdline (policy : ReapPolicy) (pid : Pid) :
    Observes (scanCmdline policy pid : Prog Host ε (Option (String × String))) := by
  unfold scanCmdline
  refine (Observes.look _).bind fun cmdline => ?_
  cases cmdline with
  | none => exact Observes.pure _
  | some raw =>
    refine Observes.ite (Observes.pure _) ((Observes.look _).bind fun exe => ?_)
    exact Observes.ite (Observes.pure _) (Observes.pure _)

theorem observes_candidateRecord (clock : ScanClock) (pid : Pid) (fields : StatFields)
    (args signature : String) :
    Observes (candidateRecord clock pid fields args signature : Prog Host ε ReapCandidate) :=
  (Observes.look _).bind fun _ => (Observes.look _).bind fun _ => Observes.pure _

theorem observes_scanStale (policy : ReapPolicy) (clock : ScanClock) (pid : Pid) :
    Observes (scanStale policy clock pid : Prog Host ε (Option ReapCandidate)) := by
  unfold scanStale
  refine (Observes.look _).bind fun stat => ?_
  cases stat.bind parseStat with
  | none => exact Observes.pure _
  | some fields =>
    refine Observes.ite (Observes.pure _) (Observes.ite (Observes.pure _) ?_)
    refine (observes_scanCmdline policy pid).bind fun found => ?_
    rcases found with _ | ⟨args, signature⟩
    · exact Observes.pure _
    · refine Observes.ite (Observes.pure _) (Observes.ite (Observes.pure _) ?_)
      exact (observes_candidateRecord ..).bind fun _ => Observes.pure _

theorem observes_scanOrphan (self : Pid) (policy : ReapPolicy) (clock : ScanClock) (pid : Pid) :
    Observes (scanOrphan self policy clock pid : Prog Host ε (Option ReapCandidate)) := by
  unfold scanOrphan
  refine Observes.ite (Observes.pure _) ((Observes.look _).bind fun stat => ?_)
  cases stat.bind parseStat with
  | none => exact Observes.pure _
  | some fields =>
    refine (Observes.look _).bind fun orphan => ?_
    refine Observes.ite (Observes.pure _) (Observes.ite (Observes.pure _) ?_)
    refine (observes_scanCmdline policy pid).bind fun found => ?_
    rcases found with _ | ⟨args, signature⟩
    · exact Observes.pure _
    · exact (observes_candidateRecord ..).bind fun _ => Observes.pure _

section Still

variable {h : Host} {policy : ReapPolicy} {clock : ScanClock} {pid self : Pid}
  {c : ReapCandidate}

/-- The verification asks of the command line what the scan asks of it. -/
theorem verifyCmdline_answer : answer h (verifyCmdline policy pid : Reaping Bool) =
    (answer h (scanCmdline policy pid : Reaping (Option (String × String)))).isSome := by
  unfold verifyCmdline scanCmdline
  simp only [answer, bind_run, look_run]
  cases (h.files pid).cmdline with
  | none => rfl
  | some raw =>
    by_cases hempty : cmdlineArgs raw = ""
    · simp [hempty, pure_run]
    · by_cases hexempt : matchesExempt (processExecutableName (h.files pid).exe raw)
          policy.exemptNames = true <;>
        simp [hempty, hexempt, bind_run, look_run, pure_run]

theorem candidateRecord_answer (fields : StatFields) (args signature : String) :
    (answer h (candidateRecord clock pid fields args signature : Reaping ReapCandidate)).pid = pid ∧
      (answer h (candidateRecord clock pid fields args signature :
        Reaping ReapCandidate)).starttime = fields.starttime := ⟨rfl, rfl⟩

/-- What the gates of a scan have found out about a candidate. -/
structure Passed (h : Host) (policy : ReapPolicy) (pid : Pid) (fields : StatFields)
    (c : ReapCandidate) : Prop where
  same : c.pid = pid
  stat : (h.files pid).stat.bind parseStat = some fields
  starttime : c.starttime = fields.starttime
  rests : fields.ttyNr = 0
  cmdline : answer h (verifyCmdline policy pid : Reaping Bool) = true

theorem passed_of_stale (hfound : answer h (scanStale policy clock pid :
    Reaping (Option ReapCandidate)) = some c) :
    ∃ fields, Passed h policy pid fields c ∧ fields.state = 'S' ∧
      fields.cpuTicks / max clock.ticksPerSec 1 ≤ policy.maxCpuSeconds := by
  unfold scanStale at hfound
  rw [answer, bind_run, look_run] at hfound
  dsimp only at hfound
  cases hstat : (h.files pid).stat.bind parseStat with
  | none => simp [hstat, pure_run] at hfound
  | some fields =>
    rw [hstat] at hfound
    dsimp only at hfound
    split at hfound
    · cases hfound
    next hstate =>
    split at hfound
    · cases hfound
    next htty =>
    rw [bind_run, (observes_scanCmdline policy pid).answer_eq] at hfound
    have hcmd := @verifyCmdline_answer h policy pid
    rcases hscan : answer h (scanCmdline policy pid : Reaping (Option (String × String)))
      with _ | ⟨args, signature⟩
    · rw [hscan] at hfound
      cases hfound
    · rw [hscan] at hfound hcmd
      dsimp only at hfound
      split at hfound
      · cases hfound
      next hcpu =>
      split at hfound
      · cases hfound
      rw [bind_run, (observes_candidateRecord ..).answer_eq, pure_run] at hfound
      obtain rfl := Option.some.inj hfound
      exact ⟨fields, ⟨rfl, hstat, rfl, not_not.mp htty, hcmd⟩, not_not.mp hstate, not_lt.mp hcpu⟩

theorem passed_of_orphan (hfound : answer h (scanOrphan self policy clock pid :
    Reaping (Option ReapCandidate)) = some c) :
    ∃ fields, Passed h policy pid fields c ∧ parentCommIsSystemd h fields.ppid = true ∧
      1 < pid ∧ pid ≠ self := by
  unfold scanOrphan at hfound
  rw [answer] at hfound
  split at hfound
  · cases hfound
  next hreserved =>
  rw [bind_run, look_run] at hfound
  dsimp only at hfound
  cases hstat : (h.files pid).stat.bind parseStat with
  | none => simp [hstat, pure_run] at hfound
  | some fields =>
    rw [hstat] at hfound
    dsimp only at hfound
    rw [bind_run, look_run] at hfound
    dsimp only at hfound
    split at hfound
    · cases hfound
    next horphan =>
    split at hfound
    · cases hfound
    next htty =>
    rw [bind_run, (observes_scanCmdline policy pid).answer_eq] at hfound
    have hcmd := @verifyCmdline_answer h policy pid
    rcases hscan : answer h (scanCmdline policy pid : Reaping (Option (String × String)))
      with _ | ⟨args, signature⟩
    · rw [hscan] at hfound
      cases hfound
    · rw [hscan] at hfound hcmd
      dsimp only at hfound
      rw [bind_run, (observes_candidateRecord ..).answer_eq, pure_run] at hfound
      obtain rfl := Option.some.inj hfound
      rw [not_or, not_le] at hreserved
      exact ⟨fields, ⟨rfl, hstat, rfl, not_not.mp htty, hcmd⟩, by simpa using horphan, hreserved⟩

/-- **A stale server that is found is verified.** -/
theorem stale_verified {listing : List Pid} (hc : c ∈ answer h (scanReapCandidates policy clock
    listing : Reaping (List ReapCandidate))) (hlow : 1 < c.pid) (hself : c.pid ≠ self) :
    answer h (verifyCandidateForReap self c policy clock.ticksPerSec : Reaping Bool) = true := by
  unfold scanReapCandidates at hc
  rw [answer_bind h _ fun _ => Observes.pure _, answer_pure, byWeight, List.mem_mergeSort,
    answer_each h (observes_scanStale policy clock), List.mem_filterMap] at hc
  obtain ⟨found, hmem, rfl⟩ := hc
  obtain ⟨pid, -, hfound⟩ := List.mem_map.mp hmem
  obtain ⟨fields, ⟨rfl, hstat, hstart, htty, hcmd⟩, hstate, hcpu⟩ := passed_of_stale hfound
  unfold verifyCandidateForReap
  rw [answer, if_neg (not_or.mpr ⟨not_le.mpr hlow, hself⟩), bind_run, look_run]
  dsimp only
  rw [hstat]
  dsimp only
  rw [if_neg (not_not.mpr hstart.symm), if_neg (by simp [hstate, htty]),
    if_neg (not_lt.mpr hcpu), (observes_verifyCmdline policy c.pid).answer_eq]
  exact hcmd

/-- **An orphan that is found is verified.** -/
theorem orphan_verified {listing : List Pid} (hc : c ∈ answer h (scanPressureOrphans self policy
    clock listing : Reaping (List ReapCandidate))) :
    answer h (verifyOrphanForReap self c policy clock.ticksPerSec : Reaping Bool) = true := by
  unfold scanPressureOrphans at hc
  rw [answer_bind h _ fun _ => Observes.pure _, answer_pure, byWeight, List.mem_mergeSort,
    answer_each h (observes_scanOrphan self policy clock), List.mem_filterMap] at hc
  obtain ⟨found, hmem, rfl⟩ := hc
  obtain ⟨pid, -, hfound⟩ := List.mem_map.mp hmem
  obtain ⟨fields, ⟨rfl, hstat, hstart, htty, hcmd⟩, horphan, hlow, hself⟩ := passed_of_orphan hfound
  unfold verifyOrphanForReap
  rw [answer, if_neg (not_or.mpr ⟨not_le.mpr hlow, hself⟩), bind_run, look_run]
  dsimp only
  rw [hstat]
  dsimp only
  rw [if_neg (not_not.mpr hstart.symm), bind_run, look_run]
  dsimp only
  rw [if_neg (by simp [horphan]), if_neg (not_not.mpr htty),
    (observes_verifyCmdline policy c.pid).answer_eq]
  exact hcmd

end Still

end DraconGuard
