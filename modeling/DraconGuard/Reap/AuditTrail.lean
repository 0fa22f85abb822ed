import DraconGuard.Reap.Yield

/-!
# The record of a pass

`reap_verified_candidates` (reap.rs:1196) leaves one record for each candidate, in their order.
The dispositions `Deferred` and `NotVerified` say what they are documented to say;
**`Signalled` is written for every candidate that verified**, whatever `terminate_process` did
about it (reap.rs:1265), so a process that the guard may not signal is recorded as signalled.
**`audited_iff`** says in which runs the trail is right.

| what termination meets | outcome | recorded |
|---|---|---|
| nobody, or a zombie | `AlreadyGone` | `Signalled` |
| a SIGTERM that is delivered | `Signalled`, or `Failed` behind it | `Signalled` |
| **a reserved pid, a refusal, an error of the call** | `Refused`, `Failed` | **`Signalled`** |
-/

namespace DraconGuard

open Watch

/-! ## What a visit meets -/

/-- A `verify` function: it looks at `/proc` and does nothing. -/
structure Verifier where
  run : VerifyCandidate
  looks : ∀ self candidate policy ticksPerSec,
    Observes (run self candidate policy ticksPerSec)

/-- The arguments of `reap_verified_candidates`, with the guard's own pid. -/
structure ReapCall where
  self : Pid
  policy : ReapPolicy
  candidates : List ReapCandidate
  ticksPerSec : Nat
  verify : Verifier
  budget : Nat

namespace ReapCall

variable (call : ReapCall) (w : Nat → Host)

def run : Reaping (List ReapedProcess) :=
  reapVerifiedCandidates call.self call.policy call.candidates call.ticksPerSec call.verify.run
    call.budget

def visit (passStarted : Nat) : ReapCandidate → Reaping ReapedProcess :=
  reapCandidate call.self call.policy call.ticksPerSec call.verify.run call.budget passStarted

/-- The visits of a run, from the one look at the clock before them on. -/
def visits (s : Progress ReapEvent) : List (Visit ReapCandidate ReapedProcess ReapEvent) :=
  Watch.visits (call.visit (w s.now).clock) w call.candidates { s with now := s.now + 1 }

/-- The budget is used up when the visit begins. -/
def UsedUp (passStarted n : Nat) : Prop := call.budget ≤ (w n).clock - passStarted

instance (passStarted n : Nat) : Decidable (call.UsedUp w passStarted n) :=
  inferInstanceAs (Decidable (_ ≤ _))

/-- What the verification of the visit that begins at `n` answers, and how far it comes. -/
def verdict (candidate : ReapCandidate) (n : Nat) : Bool × Progress ReapEvent :=
  call.verify.run call.self candidate call.policy call.ticksPerSec w { now := n + 1 }

/-- The visit comes to the termination. -/
def Reaches (passStarted : Nat) (candidate : ReapCandidate) (n : Nat) : Prop :=
  ¬ call.UsedUp w passStarted n ∧ (call.verdict w candidate n).1 = true

end ReapCall

/-- A probe that begins at `n` answers "alive". -/
def ProbedAlive (w : Nat → Host) (pid : Pid) (n : Nat) : Prop :=
  (w n).killAnswer pid ≠ some .esrch ∧
    ∀ raw, ((w (n + 1)).files pid).stat = some raw → deadState raw = false

/-- A termination that begins at `n` looks for the process and does not find it. -/
def FoundGone (self : Pid) (w : Nat → Host) (pid : Pid) (n : Nat) : Prop :=
  (1 < pid ∧ pid ≠ self) ∧
    (ProbedAlive w pid n → (w (n + 2)).killAnswer pid = some .esrch)

/-- A termination that begins at `n` is not kept from the process: it is not a reserved pid nor
the guard, and SIGTERM is delivered, where the process is alive, or finds nobody. -/
def Unhindered (self : Pid) (w : Nat → Host) (pid : Pid) (n : Nat) : Prop :=
  (1 < pid ∧ pid ≠ self) ∧
    (ProbedAlive w pid n → ∀ e, (w (n + 2)).killAnswer pid = some e → e = .esrch)

/-- A signal was delivered in the visit. -/
def SignalSent (visit : Visit ReapCandidate ReapedProcess ReapEvent) : Prop :=
  ∃ signal inc, .signalled visit.item.pid signal (some inc) ∈ visit.events

/-- **The trail is right**: a record for each candidate, in their order, and the dispositions mean
what they say. -/
structure Audited (call : ReapCall) (w : Nat → Host) (s : Progress ReapEvent) : Prop where
  one_each : (call.run w s).1 = (call.visits w s).map (·.answer) ∧
    (call.visits w s).map (·.item) = call.candidates ∧
    ∀ v ∈ call.visits w s, v.answer.pid = v.item.pid ∧ v.answer.comm = v.item.comm ∧
      v.answer.signature = v.item.signature
  deferred : ∀ v ∈ call.visits w s, v.answer.disposition = .deferred ↔
    call.UsedUp w (w s.now).clock v.before.now
  notVerified : ∀ v ∈ call.visits w s, v.answer.disposition = .notVerified ↔
    ¬ call.UsedUp w (w s.now).clock v.before.now ∧
      (call.verdict w v.item v.before.now).1 = false
  signalled : ∀ v ∈ call.visits w s, v.answer.disposition = .signalled ↔
    SignalSent v ∨ call.Reaches w (w s.now).clock v.item v.before.now ∧
      FoundGone call.self w v.item.pid (call.verdict w v.item v.before.now).2.now

/-! ## One termination -/

theorem Host.starttimeOf_of_delivered {h : Host} {pid : Pid} (hkill : h.killAnswer pid = none) :
    ∃ inc, h.starttimeOf pid = some inc := by
  unfold Host.killAnswer at hkill
  unfold Host.starttimeOf
  cases hp : h.holder pid with
  | none => simp [hp] at hkill
  | some p => exact ⟨p.starttime, rfl⟩

/-- What a probe answers, when it is done, and what it leaves behind. -/
theorem pidIsAlive_run (stage : ProbeStage) (pid : Pid) (w : Nat → Host)
    (s : Progress ReapEvent) :
    ((pidIsAlive stage pid w s).1 = true ↔ ProbedAlive w pid s.now) ∧
      (ProbedAlive w pid s.now → (pidIsAlive stage pid w s).2.now = s.now + 2) ∧
      ∃ found, (pidIsAlive stage pid w s).2.log = .probed pid stage found :: s.log := by
  unfold pidIsAlive ProbedAlive
  by_cases hgone : (w s.now).killAnswer pid = some .esrch
  · simp [bind_run, act, hgone, pure_run]
  · cases hstat : ((w (s.now + 1)).files pid).stat with
    | none => simp [bind_run, act, hgone, hstat]
    | some raw => simp [bind_run, act, hgone, hstat]

theorem blind_pidIsAlive (stage : ProbeStage) (pid : Pid) : Blind (pidIsAlive stage pid) := by
  unfold pidIsAlive
  exact (Blind.act _).bind fun present => Blind.ite (Blind.pure _) (Blind.act _)

theorem blind_goneWithin (stage : Nat → ProbeStage) (pid : Pid) : ∀ polls : List Nat,
    Blind (goneWithin stage pid polls)
  | [] => Blind.pure _
  | i :: polls => by
    unfold goneWithin
    refine (blind_pidIsAlive (stage i) pid).bind fun alive => Blind.ite (Blind.pure _) ?_
    exact Blind.pause.bind fun _ => blind_goneWithin stage pid polls

theorem blind_escalate (pid : Pid) : Blind (escalate pid) := by
  unfold escalate
  refine Blind.bind (Blind.act _) fun answer => ?_
  rcases answer with _ | e
  · exact (blind_goneWithin _ pid _).bind fun gone => Blind.ite (Blind.pure _) (Blind.pure _)
  · cases e <;> exact Blind.pure _

theorem blind_terminateProcess (self pid : Pid) : Blind (terminateProcess self pid) := by
  unfold terminateProcess
  refine Blind.ite (Blind.pure _) (Blind.ite (Blind.pure _) ?_)
  refine (blind_pidIsAlive _ pid).bind fun alive => Blind.ite (Blind.pure _) ?_
  refine Blind.bind (Blind.act _) fun answer => ?_
  rcases answer with _ | e
  · refine (blind_goneWithin _ pid _).bind fun gone => Blind.ite (Blind.pure _) ?_
    exact blind_escalate pid
  · cases e <;> exact Blind.pure _

theorem advances_goneWithin (stage : Nat → ProbeStage) (pid : Pid) : ∀ polls : List Nat,
    Advances (goneWithin stage pid polls)
  | [] => Advances.pure _
  | i :: polls => by
    unfold goneWithin
    refine (advances_pidIsAlive (stage i) pid).bind fun alive => Advances.ite (Advances.pure _) ?_
    exact Advances.pause.bind fun _ => advances_goneWithin stage pid polls

theorem advances_escalate (pid : Pid) : Advances (escalate pid) := by
  unfold escalate
  refine (advances_kill pid .sigkill).bind fun answer => ?_
  rcases answer with _ | e
  · refine (advances_goneWithin _ pid _).bind fun gone => ?_
    exact Advances.ite (Advances.pure _) (Advances.pure _)
  · cases e <;> exact Advances.pure _

/-- **A termination delivers a signal** exactly when its SIGTERM is delivered. -/
theorem terminateProcess_sends_iff {self pid : Pid} {w : Nat → Host} {n : Nat} :
    (∃ signal inc, .signalled pid signal (some inc) ∈ recorded (terminateProcess self pid) w n) ↔
      (1 < pid ∧ pid ≠ self) ∧ ProbedAlive w pid n ∧ (w (n + 2)).killAnswer pid = none := by
  unfold recorded terminateProcess
  by_cases hlow : pid ≤ 1
  · rw [if_pos hlow, pure_run]
    exact iff_of_false (by simp) fun h => absurd h.1.1 (not_lt.mpr hlow)
  by_cases hself : pid = self
  · rw [if_neg hlow, if_pos hself, pure_run]
    exact iff_of_false (by simp) fun h => h.1.2 hself
  rw [if_neg hlow, if_neg hself, bind_run]
  obtain ⟨halive, hnow, found, hlog⟩ := pidIsAlive_run .beforeTerm pid w { now := n }
  set probed := pidIsAlive .beforeTerm pid w { now := n }
  by_cases hprobed : ProbedAlive w pid n
  · have hinstant : probed.2.now = n + 2 := hnow hprobed
    rw [halive.mpr hprobed, if_neg (by simp), bind_run]
    cases hkill : (w (n + 2)).killAnswer pid with
    | none =>
      obtain ⟨inc, hinc⟩ := Host.starttimeOf_of_delivered hkill
      have hrun : kill pid .sigterm w probed.2 = (none,
          ⟨n + 3, .signalled pid .sigterm (some inc) :: probed.2.log⟩) := by
        simp [kill, act, hinstant, hkill, hinc]
      rw [hrun]
      refine iff_of_true ⟨.sigterm, inc, ?_⟩ ⟨⟨not_le.mp hlow, hself⟩, hprobed, rfl⟩
      have hlater : Advances (do
          if ← goneWithin .termPoll pid (List.range termGracePolls) then
            pure (.signalled false) else escalate pid) :=
        (advances_goneWithin _ pid _).bind fun gone =>
          Advances.ite (Advances.pure _) (advances_escalate pid)
      exact (hlater w _).log.subset List.mem_cons_self
    | some e =>
      have hrun : kill pid .sigterm w probed.2 = (some e,
          ⟨n + 3, .signalled pid .sigterm none :: probed.2.log⟩) := by
        simp [kill, act, hinstant, hkill]
      rw [hrun]
      refine iff_of_false ?_ fun h => Option.some_ne_none e h.2.2
      cases e <;> simp [pure_run, hlog]
  · have hdead : probed.1 = false := by simpa using mt halive.mp hprobed
    rw [hdead]
    refine iff_of_false ?_ fun h => hprobed h.2.1
    simp [pure_run, hlog]

/-! ## One visit -/

section Visit

variable {call : ReapCall} {w : Nat → Host} {passStarted : Nat} {candidate : ReapCandidate}

theorem blind_visit : Blind (call.visit passStarted candidate) := by
  unfold ReapCall.visit reapCandidate
  refine (Blind.look _).bind fun now => Blind.ite (Blind.pure _) ?_
  refine (call.verify.looks ..).blind.bind fun verified => Blind.ite (Blind.pure _) ?_
  refine (Blind.note _).bind fun _ => ?_
  exact (blind_terminateProcess _ _).bind fun outcome => Blind.pure _

/-- The three ways of a visit: its record, and what it leaves behind. -/
theorem visit_cases (n : Nat) :
    let record := (call.visit passStarted candidate w { now := n }).1
    let events := recorded (call.visit passStarted candidate) w n
    (record.pid = candidate.pid ∧ record.comm = candidate.comm ∧
      record.signature = candidate.signature) ∧
    (call.UsedUp w passStarted n ∧ record.disposition = .deferred ∧ events = [] ∨
      ¬ call.UsedUp w passStarted n ∧ (call.verdict w candidate n).1 = false ∧
        record.disposition = .notVerified ∧ events = [] ∨
      call.Reaches w passStarted candidate n ∧ record.disposition = .signalled ∧
        events = recorded (terminateProcess call.self candidate.pid) w
          (call.verdict w candidate n).2.now ++ [.accepted candidate.pid candidate.starttime]) := by
  intro record events
  have hsilent := (call.verify.looks call.self candidate call.policy
    call.ticksPerSec).silent (· = []) w { now := n + 1 } rfl
  by_cases hused : call.budget ≤ (w n).clock - passStarted
  · have hrun : call.visit passStarted candidate w { now := n } =
        (⟨candidate.pid, candidate.comm, candidate.signature, false, none, .deferred⟩,
          { now := n + 1 }) := by
      unfold ReapCall.visit reapCandidate
      rw [bind_run, look_run]
      dsimp only
      rw [if_pos hused, pure_run]
    have hrecord : record = _ := congrArg Prod.fst hrun
    have hevents : events = [] := by
      show (call.visit passStarted candidate w { now := n }).2.log = []
      rw [hrun]
    rw [hrecord, hevents]
    exact ⟨⟨rfl, rfl, rfl⟩, Or.inl ⟨hused, rfl, rfl⟩⟩
  cases hverdict : (call.verdict w candidate n).1 with
  | false =>
    have hrun : call.visit passStarted candidate w { now := n } =
        (⟨candidate.pid, candidate.comm, candidate.signature, false, none, .notVerified⟩,
          (call.verdict w candidate n).2) := by
      unfold ReapCall.visit reapCandidate
      rw [bind_run, look_run]
      dsimp only
      rw [if_neg hused, bind_run, if_pos (by rw [ReapCall.verdict] at hverdict; simp [hverdict]),
        pure_run]
      rfl
    have hrecord : record = _ := congrArg Prod.fst hrun
    have hevents : events = [] := by
      show (call.visit passStarted candidate w { now := n }).2.log = []
      rw [hrun]
      exact hsilent
    rw [hrecord, hevents]
    exact ⟨⟨rfl, rfl, rfl⟩, Or.inr (Or.inl ⟨hused, rfl, rfl, rfl⟩)⟩
  | true =>
    set verdict := call.verdict w candidate n with hset
    have hlog : verdict.2.log = [] := hsilent
    have hterm := blind_terminateProcess call.self candidate.pid w verdict.2.now
      [.accepted candidate.pid candidate.starttime]
    have hrun : call.visit passStarted candidate w { now := n } =
        (⟨candidate.pid, candidate.comm, candidate.signature, true,
            some (terminateProcess call.self candidate.pid w { now := verdict.2.now }).1,
            .signalled⟩,
          { now := (terminateProcess call.self candidate.pid w { now := verdict.2.now }).2.now
            log := recorded (terminateProcess call.self candidate.pid) w verdict.2.now ++
              [.accepted candidate.pid candidate.starttime] }) := by
      unfold ReapCall.visit reapCandidate
      rw [bind_run, look_run]
      dsimp only
      have hgo : ¬ (!(call.verify.run call.self candidate call.policy call.ticksPerSec w
          { now := n + 1 }).1) = true := by
        rw [hset, ReapCall.verdict] at hverdict
        simp [hverdict]
      rw [if_neg hused, bind_run, if_neg hgo, bind_run, bind_run, pure_run]
      have hnoted : (note [ReapEvent.accepted candidate.pid candidate.starttime] : Reaping Unit) w
          (call.verify.run call.self candidate call.policy call.ticksPerSec w { now := n + 1 }).2 =
          ((), { now := verdict.2.now
                 log := [.accepted candidate.pid candidate.starttime] }) := by
        show ((), Progress.mk verdict.2.now (_ ++ verdict.2.log)) = _
        rw [hlog]
        rfl
      rw [hnoted, hterm]
      rfl
    have hrecord : record = _ := congrArg Prod.fst hrun
    have hevents : events = recorded (terminateProcess call.self candidate.pid) w
        verdict.2.now ++ [.accepted candidate.pid candidate.starttime] := by
      show (call.visit passStarted candidate w { now := n }).2.log = _
      rw [hrun]
    rw [hrecord, hevents]
    exact ⟨⟨rfl, rfl, rfl⟩, Or.inr (Or.inr ⟨⟨hused, hverdict⟩, rfl, rfl⟩)⟩

/-- Whom a termination could not be kept from, it signals or finds gone. -/
theorem unhindered_iff {self pid : Pid} {n : Nat} : Unhindered self w pid n ↔
    (∃ signal inc, .signalled pid signal (some inc) ∈ recorded (terminateProcess self pid) w n) ∨
      FoundGone self w pid n := by
  rw [terminateProcess_sends_iff]
  unfold Unhindered FoundGone
  by_cases hprobed : ProbedAlive w pid n
  · cases hkill : (w (n + 2)).killAnswer pid with
    | none => simp [hprobed]
    | some e => simp [hprobed]
  · simp [hprobed]

end Visit

/-! ## Main result -/

/-- **Which runs leave a right trail**: those in which no candidate that verified in time is kept
from its signal. -/
theorem audited_iff (call : ReapCall) (w : Nat → Host) (s : Progress ReapEvent) :
    Audited call w s ↔ ∀ v ∈ call.visits w s,
      call.Reaches w (w s.now).clock v.item v.before.now →
        Unhindered call.self w v.item.pid (call.verdict w v.item v.before.now).2.now := by
  set passStarted := (w s.now).clock
  have hrun : (call.run w s).1 = (call.visits w s).map (·.answer) := by
    unfold ReapCall.run reapVerifiedCandidates
    rw [bind_run, look_run]
    exact each_eq_visits _ w call.candidates _
  have hcases : ∀ v ∈ call.visits w s, _ ∧ _ := fun v hv => by
    have hvisit := @visit_cases call w passStarted v.item v.before.now
    obtain ⟨hanswer, hevents⟩ := events_of_mem_visits hv blind_visit
    rw [← hanswer, ← hevents] at hvisit
    exact hvisit
  -- a signal of a visit is one of its termination
  have hsent : ∀ v ∈ call.visits w s, call.Reaches w passStarted v.item v.before.now →
      (Unhindered call.self w v.item.pid (call.verdict w v.item v.before.now).2.now ↔
        SignalSent v ∨ call.Reaches w passStarted v.item v.before.now ∧
          FoundGone call.self w v.item.pid (call.verdict w v.item v.before.now).2.now) := by
    intro v hv hreaches
    rcases (hcases v hv).2 with ⟨hused, -⟩ | ⟨-, hno, -⟩ | ⟨-, -, hevents⟩
    · exact absurd hused hreaches.1
    · exact absurd hreaches.2 (by simp [hno])
    · rw [unhindered_iff, SignalSent, hevents]
      simp [hreaches]
  constructor
  · intro h v hv hreaches
    rcases (hcases v hv).2 with ⟨hused, -⟩ | ⟨-, hno, -⟩ | ⟨-, hsignalled, -⟩
    · exact absurd hused hreaches.1
    · exact absurd hreaches.2 (by simp [hno])
    · exact (hsent v hv hreaches).mpr ((h.signalled v hv).mp hsignalled)
  · intro h
    refine ⟨⟨hrun, visits_items _ w _ _, fun v hv => (hcases v hv).1⟩, ?_, ?_, ?_⟩
    · intro v hv
      rcases (hcases v hv).2 with ⟨hused, hd, -⟩ | ⟨hused, -, hd, -⟩ | ⟨hreaches, hd, -⟩
      · exact iff_of_true hd hused
      · exact iff_of_false (by simp [hd]) hused
      · exact iff_of_false (by simp [hd]) hreaches.1
    · intro v hv
      rcases (hcases v hv).2 with ⟨hused, hd, -⟩ | ⟨hused, hno, hd, -⟩ | ⟨hreaches, hd, -⟩
      · exact iff_of_false (by simp [hd]) fun hlate => hlate.1 hused
      · exact iff_of_true hd ⟨hused, hno⟩
      · exact iff_of_false (by simp [hd]) fun hno => absurd hreaches.2 (by simp [hno.2])
    · intro v hv
      rcases (hcases v hv).2 with ⟨hused, hd, hnone⟩ | ⟨-, hno, hd, hnone⟩ | ⟨hreaches, hd, -⟩
      · refine iff_of_false (by simp [hd]) ?_
        rintro (⟨signal, inc, hsignal⟩ | ⟨hreaches, -⟩)
        · simp [hnone] at hsignal
        · exact hreaches.1 hused
      · refine iff_of_false (by simp [hd]) ?_
        rintro (⟨signal, inc, hsignal⟩ | ⟨hreaches, -⟩)
        · simp [hnone] at hsignal
        · exact absurd hreaches.2 (by simp [hno])
      · exact iff_of_true hd ((hsent v hv hreaches).mp (h v hv hreaches))

/-- What the two verifications of the code accept is no reserved pid and not the guard. -/
theorem not_reserved_of_verified {verify : VerifyCandidate}
    (hverify : verify = verifyCandidateForReap ∨ verify = verifyOrphanForReap) {self : Pid}
    {candidate : ReapCandidate} {policy : ReapPolicy} {ticksPerSec : Nat} {w : Nat → Host}
    {s : Progress ReapEvent}
    (h : (verify self candidate policy ticksPerSec w s).1 = true) :
    1 < candidate.pid ∧ candidate.pid ≠ self := by
  by_contra hreserved
  rw [← not_le, ← not_or] at hreserved
  have hreserved := not_not.mp hreserved
  rcases hverify with rfl | rfl
  · rw [verifyCandidateForReap, if_pos hreserved, pure_run] at h
    cases h
  · rw [verifyOrphanForReap, if_pos hreserved, pure_run] at h
    cases h

/-! ## A process of another user -/

/-- A dev server that another user runs. -/
private def foreignServer : PidHolder where
  starttime := 100
  files :=
    { stat := some "7 (node) S 1 7 7 0 -1 4194304 0 0 0 0 1 0 0 0 20 0 1 0 100 0 0"
      cmdline := some "vite" }
  refusal := some .eperm
  honest := by decide +kernel

private def foreignHost : Host where
  holder pid := if pid = 7 then some foreignServer else none

private def foreignCall : ReapCall where
  self := 1000
  policy := { signatures := ["vite"], forgottenFootprintMb := 1024, forgottenTreeFootprintMb := 256 }
  candidates :=
    [{ pid := 7, comm := "node", args := "vite", idleHours := 30, cpuSeconds := 0, rssMb := 90
       signature := "vite", starttime := 100 }]
  ticksPerSec := 100
  verify := ⟨verifyCandidateForReap, observes_verifyCandidateForReap⟩
  budget := reapPassBudget

/-- Permission is denied, nothing is signalled, and the record says `Signalled`. -/
theorem refused_recorded_signalled :
    ¬ Audited foreignCall (fun _ => foreignHost) {} ∧
      (foreignCall.run (fun _ => foreignHost) {}).1.map (fun r => (r.outcome, r.disposition)) =
        [(some (.refused "permission denied"), .signalled)] := by
  refine ⟨fun h => ?_, by decide +kernel⟩
  set visit := (foreignCall.visits (fun _ => foreignHost) {}).head (by decide +kernel) with hvisit
  have hmem : visit ∈ foreignCall.visits (fun _ => foreignHost) {} := List.head_mem _
  have hreaches : foreignCall.Reaches (fun _ => foreignHost) 0 visit.item visit.before.now :=
    ⟨by decide +kernel, by decide +kernel⟩
  have hall := (audited_iff foreignCall (fun _ => foreignHost) {}).mp h visit hmem hreaches
  have hprobed : ProbedAlive (fun _ => foreignHost) 7 0 := by
    refine ⟨by decide +kernel, fun raw hraw => ?_⟩
    obtain rfl := Option.some.inj hraw
    decide +kernel
  exact absurd (hall.2 hprobed .eperm rfl) (by decide)

end DraconGuard
