import Mathlib.Data.Finset.Card
import DraconGuard.Guard.ManagedOomLaw

/-!
# The certificate of a managed job

`certify` is the closing attempt of `enter` (oom_job.rs:396-436) as one step. Here it is its reads,
one after the other, with the tasks of the scope forking and exiting in between. The sentinel forks
only until the command has ended. The list of members may miss a newborn; the counter misses none:
a task is charged before it runs and until it is gone. So when the counter says one, that one is
the sentinel's, and nobody is left to fork.

| here | there |
| --- | --- |
| `ScopeStep.admitted` | the initial check and the record (oom_job.rs:328-370) |
| `ScopeStep.waited` | the end of the command, or of the attempt to spawn it (oom_job.rs:382-395) |
| `ScopeStep.checkGroup`, … , `.save` | one attempt (oom_job.rs:398-422) |
-/

namespace DraconGuard

namespace ManagedOom

/-! ## The scope and its sentinel -/

/-- A task of the scope, and the process it is a thread of. -/
structure Task where
  tid : Pid
  process : Pid
deriving DecidableEq

/-- Where the sentinel is, with what it has read. -/
inductive SentinelAt where
  | entering
  | launching
  /-- Waiting for the command, or before an attempt. -/
  | resting
  | checked
  | listed (members : List Pid)
  | counted (members : List Pid) (tasks : Nat)
  | candidate
  | locked
  | loaded (final : Job)
  | certified

/-- Systemctl is run before the admission, the command after it. -/
def SentinelAt.mayFork : SentinelAt → Bool
  | .entering | .launching => true
  | _ => false

structure ScopeWorld where
  managed : ManagedWorld
  tasks : Finset Task
  sentinel : SentinelAt := .entering
  /-- A ghost: the certificates the sentinel has handed to `save`. -/
  certificates : List Job := []

inductive ScopeStep where
  | fork (parent child : Task)
  | exit (task : Task)
  /-- Anything else in the registry, and on the machine. -/
  | others (i : ManagedStep)
  | admitted (o : SaveOutcome) (locked : Bool) (members : List Pid) (charged : Nat)
  | waited
  | checkGroup
  | readMembers (members : List Pid)
  /-- `pids.current`: the tasks, and those charged that do not run yet or are not reaped. -/
  | readTasks (charged : Nat)
  | readThreads
  | lock (taken : Bool)
  | load (readable : Bool)
  | save (o : SaveOutcome)
  /-- An attempt ends in an error. -/
  | fail

/-- The main thread of the sentinel. -/
def Job.mainTask (job : Job) : Task := ⟨job.sentinel, job.sentinel⟩

/-- `/proc/self/task`. -/
def ScopeWorld.ownThreads (w : ScopeWorld) (job : Job) : Nat :=
  (w.tasks.filter fun t => t.process = job.sentinel).card

/-- A child is a thread of its parent's process or a process of its own. -/
def ScopeWorld.canFork (w : ScopeWorld) (job : Job) (parent child : Task) : Bool :=
  parent ∈ w.tasks && decide (∀ t ∈ w.tasks, t.tid ≠ child.tid) &&
    (child.process = parent.process || child.process = child.tid) &&
    (parent.process ≠ job.sentinel || w.sentinel.mayFork)

/-- The admission goes on to the command. -/
def ScopeWorld.admits (w : ScopeWorld) (job : Job) (o : SaveOutcome) (locked : Bool)
    (members : List Pid) (charged : Nat) : Bool :=
  terminalCandidate job.sentinel members (w.tasks.card + charged) (w.ownThreads job) && locked &&
    validId job.id && supportedBaseline job.baseline && (w.managed.visible.jobs job.id).isNone &&
    o = .synced

/-- What the sentinel does next, where it is at that point. -/
def sentinelStep (job : Job) (w : ScopeWorld) : ScopeStep → ScopeWorld
  | .admitted o locked members charged =>
    match w.sentinel with
    | .entering =>
      if w.admits job o locked members charged then
        { w with managed := admission o locked job w.managed, sentinel := .launching }
      else w
    | _ => w
  | .waited =>
    match w.sentinel with
    | .launching => { w with sentinel := .resting }
    | _ => w
  | .checkGroup =>
    match w.sentinel with
    | .resting =>
      if w.managed.groups job.group = some ⟨job.groupDevice, job.groupInode, false⟩ then
        { w with sentinel := .checked }
      else w
    | _ => w
  | .readMembers members =>
    match w.sentinel with
    | .checked => { w with sentinel := .listed members }
    | _ => w
  | .readTasks charged =>
    match w.sentinel with
    | .listed members => { w with sentinel := .counted members (w.tasks.card + charged) }
    | _ => w
  | .readThreads =>
    match w.sentinel with
    | .counted members tasks =>
      if terminalCandidate job.sentinel members tasks (w.ownThreads job) then
        { w with sentinel := .candidate }
      else { w with sentinel := .resting }
    | _ => w
  | .lock taken =>
    match w.sentinel with
    | .candidate => { w with sentinel := if taken then .locked else .resting }
    | _ => w
  | .load readable =>
    match w.sentinel with
    | .locked =>
      match loadJob readable job.id w.managed with
      | .ok final => { w with sentinel := if sameAdmission final job then .loaded final else .resting }
      | .error _ => { w with sentinel := .resting }
    | _ => w
  | .save o =>
    match w.sentinel with
    | .loaded final =>
      let final := { final with phase := .terminal, terminalProof := true }
      { w with
        managed := (w.managed.saveJob o final).1
        sentinel := if o = .synced then .certified else .resting
        certificates := final :: w.certificates }
    | _ => w
  | .fail =>
    match w.sentinel with
    | .entering | .launching | .certified => w
    | _ => { w with sentinel := .resting }
  | .fork .. | .exit _ | .others _ => w

def scopeStep (job : Job) (w : ScopeWorld) : ScopeStep → ScopeWorld
  | .fork parent child =>
    if w.canFork job parent child then { w with tasks := insert child w.tasks } else w
  | .exit task => { w with tasks := w.tasks.erase task }
  | .others i => { w with managed := managedStep w.managed i }
  | i => if job.mainTask ∈ w.tasks then sentinelStep job w i else w

/-- A sentinel among whatever tasks. -/
def sentinelStart (job : Job) (tasks : Finset Task) (managed : ManagedWorld) : ScopeWorld where
  managed := managed
  tasks := insert job.mainTask tasks

/-! ## An attempt without interruption is `certify` -/

/-- The steps of one attempt. -/
def attemptSteps (members : List Pid) (charged : Nat) (locked readable : Bool) (o : SaveOutcome) :
    List ScopeStep :=
  [.checkGroup, .readMembers members, .readTasks charged, .readThreads, .lock locked,
    .load readable, .save o]

/-- **Its reads in a row are the closing attempt.** -/
theorem attempt_eq_certify {job : Job} {w : ScopeWorld} (hmain : job.mainTask ∈ w.tasks)
    (hrest : w.sentinel = .resting) (members : List Pid) (charged : Nat) (locked readable : Bool)
    (o : SaveOutcome) :
    (Runs.exec (scopeStep job) w (attemptSteps members charged locked readable o)).managed =
      certify ⟨members, w.tasks.card + charged, w.ownThreads job, locked, readable, o⟩ job
        w.managed := by
  unfold certify attemptSteps
  by_cases hgroup : w.managed.groups job.group = some ⟨job.groupDevice, job.groupInode, false⟩
  · cases hcandidate : terminalCandidate job.sentinel members (w.tasks.card + charged)
      (w.ownThreads job) with
    | false =>
      have hcounted := hcandidate
      simp only [ScopeWorld.ownThreads] at hcounted
      simp [Runs.exec, scopeStep, sentinelStep, hmain, hrest, hgroup, ScopeWorld.ownThreads,
        hcounted]
    | true =>
      have hcounted := hcandidate
      simp only [ScopeWorld.ownThreads] at hcounted
      cases locked with
      | false =>
        simp [Runs.exec, scopeStep, sentinelStep, hmain, hrest, hgroup, ScopeWorld.ownThreads,
          hcounted]
      | true =>
        cases hload : loadJob readable job.id w.managed with
        | error e =>
          simp [Runs.exec, scopeStep, sentinelStep, hmain, hrest, hgroup, ScopeWorld.ownThreads,
            hcounted, hload]
        | ok final =>
          cases hsame : sameAdmission final job <;>
          simp [Runs.exec, scopeStep, sentinelStep, hmain, hrest, hgroup, ScopeWorld.ownThreads,
            hcounted, hload, hsame]
  · simp [Runs.exec, scopeStep, sentinelStep, hmain, hrest, hgroup]

/-! ## The law -/

/-- From the moment it has counted one, the sentinel is alone: it was there itself. -/
def SentinelAt.alone : SentinelAt → Bool
  | .counted _ tasks => tasks = 1
  | .candidate | .locked | .loaded _ | .certified => true
  | _ => false

/-- The sentinel is alone where it goes on to a certificate, and for good once it has one; what it
carries and what it has certified is its own admission. -/
structure Certifying (job : Job) (w : ScopeWorld) : Prop where
  alone : w.sentinel.alone = true → w.tasks ⊆ {job.mainTask}
  certified : w.certificates ≠ [] → w.tasks ⊆ {job.mainTask} ∧ w.sentinel.mayFork = false
  same : ∀ final, w.sentinel = .loaded final → sameAdmission final job = true
  certificates : ∀ c ∈ w.certificates,
    sameAdmission c job = true ∧ c.phase = .terminal ∧ c.terminalProof = true

theorem SentinelAt.mayFork_of_alone {s : SentinelAt} (h : s.alone = true) : s.mayFork = false := by
  cases s with
  | entering | launching | resting | checked | listed => cases h
  | counted | candidate | locked | loaded | certified => rfl

variable {job : Job} {w : ScopeWorld}

/-- Alone, and past its forks: nobody forks. -/
theorem canFork_of_alone (halone : w.tasks ⊆ {job.mainTask}) (hfork : w.sentinel.mayFork = false)
    (parent child : Task) : w.canFork job parent child = false := by
  by_cases hparent : parent ∈ w.tasks
  · obtain rfl := Finset.mem_singleton.mp (halone hparent)
    simp [ScopeWorld.canFork, Job.mainTask, hfork]
  · simp [ScopeWorld.canFork, hparent]

/-- **The counter says one**: the sentinel is charged, so it is the one. -/
theorem alone_of_count (hmain : job.mainTask ∈ w.tasks) {charged : Nat}
    (hcount : w.tasks.card + charged = 1) : w.tasks ⊆ {job.mainTask} := by
  have hcard : w.tasks.card ≤ 1 := by omega
  intro t ht
  exact Finset.mem_singleton.mpr (Finset.card_le_one.mp hcard t ht _ hmain)

theorem Certifying.sentinelStep (h : Certifying job w) (hmain : job.mainTask ∈ w.tasks)
    (i : ScopeStep) : Certifying job (sentinelStep job w i) := by
  -- moving on without a certificate, to a place that is not before the admission
  have move : ∀ s : SentinelAt, (s.alone = true → w.tasks ⊆ {job.mainTask}) →
      s.mayFork = false → (∀ final, s = .loaded final → sameAdmission final job = true) →
      Certifying job { w with sentinel := s } := fun s halone hfork hsame =>
    ⟨halone, fun hc => ⟨(h.certified hc).1, hfork⟩, hsame, h.certificates⟩
  -- where it knows nothing yet, or no more
  have unsure : ∀ s : SentinelAt, s.alone = false → s.mayFork = false →
      (∀ final, s ≠ .loaded final) → Certifying job { w with sentinel := s } :=
    fun s hno hfork hloaded =>
    move s (fun hyes => absurd (hno.symm.trans hyes) Bool.false_ne_true) hfork
      fun final hat => absurd hat (hloaded final)
  cases i with
  | fork | exit | others => exact h
  | admitted o locked members charged =>
    simp only [ManagedOom.sentinelStep]
    split
    · next hat =>
      split
      · have hnone : w.certificates = [] := by
          by_contra hc
          have hfork := (h.certified hc).2
          rw [hat] at hfork
          cases hfork
        exact ⟨fun halone => (by cases halone), fun hc => absurd hnone hc,
          fun final hf => (by cases hf), h.certificates⟩
      · exact h
    · exact h
  | waited =>
    simp only [ManagedOom.sentinelStep]
    split
    · exact unsure _ rfl rfl nofun
    · exact h
  | checkGroup =>
    simp only [ManagedOom.sentinelStep]
    split
    · split
      · exact unsure _ rfl rfl nofun
      · exact h
    · exact h
  | readMembers members =>
    simp only [ManagedOom.sentinelStep]
    split
    · exact unsure _ rfl rfl nofun
    · exact h
  | readTasks charged =>
    simp only [ManagedOom.sentinelStep]
    split
    · refine move _ (fun halone => ?_) rfl fun final hf => by cases hf
      exact alone_of_count hmain (of_decide_eq_true halone)
    · exact h
  | readThreads =>
    simp only [ManagedOom.sentinelStep]
    split
    · next members tasks hat =>
      split
      · next hcandidate =>
        refine move _ (fun _ => h.alone ?_) rfl fun final hf => by cases hf
        simp only [terminalCandidate, Bool.and_eq_true, beq_iff_eq] at hcandidate
        rw [hat]
        exact decide_eq_true hcandidate.1.2
      · exact unsure _ rfl rfl nofun
    · exact h
  | lock taken =>
    simp only [ManagedOom.sentinelStep]
    split
    · next hat =>
      cases taken with
      | true => exact move _ (fun _ => h.alone (by rw [hat]; rfl)) rfl fun final hf => by cases hf
      | false => exact unsure _ rfl rfl nofun
    · exact h
  | load readable =>
    simp only [ManagedOom.sentinelStep]
    split
    · next hat =>
      split
      · next final _ =>
        by_cases hsame : sameAdmission final job = true
        · rw [if_pos hsame]
          refine move _ (fun _ => h.alone (by rw [hat]; rfl)) rfl fun final' hf => ?_
          cases hf
          exact hsame
        · rw [if_neg hsame]
          exact unsure _ rfl rfl nofun
      · exact unsure _ rfl rfl nofun
    · exact h
  | save o =>
    simp only [ManagedOom.sentinelStep]
    split
    · next final hat =>
      have halone : w.tasks ⊆ {job.mainTask} := h.alone (by rw [hat]; rfl)
      have hsame : sameAdmission { final with phase := .terminal, terminalProof := true } job =
          true := by
        rw [sameAdmission_iff]
        exact sameAdmission_iff.1 (h.same final hat)
      refine ⟨fun _ => halone, fun _ => ⟨halone, ?_⟩, fun final' hf => ?_, ?_⟩
      · dsimp only
        split <;> rfl
      · dsimp only at hf
        split at hf <;> cases hf
      · intro c hc
        rcases List.mem_cons.mp hc with rfl | hc
        · exact ⟨hsame, rfl, rfl⟩
        · exact h.certificates c hc
    · exact h
  | fail =>
    simp only [ManagedOom.sentinelStep]
    split
    · exact h
    · exact h
    · exact h
    · exact unsure _ rfl rfl nofun

/-- **One step**, of the sentinel or of the others. -/
theorem Certifying.step (h : Certifying job w) (i : ScopeStep) :
    Certifying job (scopeStep job w i) := by
  cases i with
  | fork parent child =>
    simp only [scopeStep]
    split
    · next hfork =>
      have hnot : ¬ (w.tasks ⊆ {job.mainTask} ∧ w.sentinel.mayFork = false) := fun hquiet =>
        absurd hfork (by rw [canFork_of_alone hquiet.1 hquiet.2]; exact Bool.false_ne_true)
      refine ⟨fun halone => ?_, fun hc => absurd (h.certified hc) hnot, h.same, h.certificates⟩
      exact absurd ⟨h.alone halone, SentinelAt.mayFork_of_alone halone⟩ hnot
    · exact h
  | exit task =>
    have hsub := Finset.erase_subset task w.tasks
    exact ⟨fun halone => hsub.trans (h.alone halone),
      fun hc => ⟨hsub.trans (h.certified hc).1, (h.certified hc).2⟩, h.same, h.certificates⟩
  | others i => exact ⟨h.alone, h.certified, h.same, h.certificates⟩
  | admitted | waited | checkGroup | readMembers | readTasks | readThreads | lock | load | save
    | fail =>
    simp only [scopeStep]
    split
    · next hmain => exact h.sentinelStep hmain _
    · exact h

/-- **A terminal certificate is sound.** However the tasks of the scope fork and exit between the
reads, and whatever else goes on in the registry: once the sentinel has saved a certificate there
is no other task in the scope, and what it saved is the admission it registered. -/
theorem terminal_certificate_sound (job : Job) (tasks : Finset Task) (managed : ManagedWorld)
    (is : List ScopeStep) :
    Runs.Always (scopeStep job)
      (fun w => (w.certificates ≠ [] → w.tasks ⊆ {job.mainTask}) ∧
        ∀ c ∈ w.certificates,
          sameAdmission c job = true ∧ c.phase = .terminal ∧ c.terminalProof = true)
      (sentinelStart job tasks managed) is := by
  have hstart : Certifying job (sentinelStart job tasks managed) :=
    ⟨fun halone => (by cases halone), fun hc => absurd rfl hc, fun final hf => (by cases hf),
      fun c hc => (by cases hc)⟩
  have hall : Runs.Always (scopeStep job) (Certifying job) (sentinelStart job tasks managed) is :=
    Runs.Always.of_inv (fun _ i h => h.step i) hstart
  exact hall.mono fun _ h => ⟨fun hc => (h.certified hc).1, h.certificates⟩

/-- A command that leaves a child behind: the first attempt counts two, the second certifies. -/
example :
    (Runs.exec (scopeStep registeredJob)
      (sentinelStart registeredJob ∅
        { jobHost with
          groups := fun _ => some ⟨1, 2, false⟩
          visible := { jobHost.visible with jobs := fun _ => none } })
      ([.admitted .synced true [6] 0, .fork ⟨6, 6⟩ ⟨7, 7⟩, .fork ⟨7, 7⟩ ⟨8, 8⟩, .exit ⟨7, 7⟩,
        .waited] ++
        attemptSteps [6] 0 true true .synced ++ [.exit ⟨8, 8⟩] ++
        attemptSteps [6] 0 true true .synced)).certificates =
      [{ registeredJob with phase := .terminal, terminalProof := true }] := by
  decide +kernel

end ManagedOom

end DraconGuard
