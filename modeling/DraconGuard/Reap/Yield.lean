import DraconGuard.Reap.TerminateLaw

/-!
# What a reaped tree yields

`reap_forgotten_orphan_trees` (reap.rs:1109) hands a profile over when `members_left` is zero.
That counter knows the members that took a SIGTERM and nobody else: a member that was passed
over at verification, or that refused the signal, is in no counter the verdict looks at.
-/

namespace DraconGuard

open Watch

/-! ## Gone -/

/-- Dead, though its parent has not waited for it. -/
def PidHolder.defunct (p : PidHolder) : Bool := (p.files.stat.map deadState).getD false

/-- The incarnation is there and no zombie. -/
def Host.runs (h : Host) (pid : Pid) (starttime : Nat) : Bool :=
  match h.holder pid with
  | some p => p.starttime == starttime && !p.defunct
  | none => false

/-- What happens after a scan found the trees. -/
structure Aftermath (trees : List ForgottenTree) where
  host : Nat → Host
  /-- A member that is gone does not come back. -/
  no_return : ∀ tree ∈ trees, ∀ member ∈ tree.members, ∀ t t', t ≤ t' →
    (host t).runs member.pid member.starttime = false →
      (host t').runs member.pid member.starttime = false
  /-- `kill` finds who is there. -/
  found : ∀ t pid p, (host t).holder pid = some p → p.refusal ≠ some .esrch

/-- Some instant has seen nobody run under that pid. -/
def GoneBy (w : Nat → Host) (pid : Pid) (s : Progress ReapEvent) : Prop :=
  ∃ t < s.now, ∀ starttime, (w t).runs pid starttime = false

theorem GoneBy.later {w : Nat → Host} {pid : Pid} {s s' : Progress ReapEvent}
    (hlater : Later s s') (h : GoneBy w pid s) : GoneBy w pid s' := by
  obtain ⟨t, ht, hgone⟩ := h
  exact ⟨t, Nat.lt_of_lt_of_le ht hlater.now, hgone⟩

theorem Host.runs_of_esrch {h : Host} {pid : Pid}
    (hfound : ∀ p, h.holder pid = some p → p.refusal ≠ some .esrch)
    (hanswer : h.killAnswer pid = some .esrch) (starttime : Nat) :
    h.runs pid starttime = false := by
  unfold Host.killAnswer at hanswer
  unfold Host.runs
  cases hp : h.holder pid with
  | none => rfl
  | some p =>
    rw [hp] at hanswer
    exact absurd hanswer (hfound p hp)

theorem Host.runs_of_deadState {h : Host} {pid : Pid} {raw : String}
    (hraw : (h.files pid).stat = some raw) (hdead : deadState raw = true) (starttime : Nat) :
    h.runs pid starttime = false := by
  unfold Host.files at hraw
  unfold Host.runs
  cases hp : h.holder pid with
  | none => rfl
  | some p =>
    have hst : p.files.stat = some raw := by simpa [hp] using hraw
    simp [PidHolder.defunct, hst, hdead]

/-! ## Time goes on -/

theorem advances_pidIsAlive (stage : ProbeStage) (pid : Pid) :
    Advances (pidIsAlive stage pid) := by
  unfold pidIsAlive
  exact (Advances.act _).bind fun present => Advances.ite (Advances.pure _) (Advances.act _)

theorem advances_pollRounds (stage : Nat → ProbeStage) : ∀ (polls : List Nat)
    (pending : List Pid), Advances (pollRounds stage polls pending)
  | [], _ => Advances.pure _
  | i :: polls, pending => by
    unfold pollRounds
    refine Advances.ite (Advances.pure _) ?_
    refine (Advances.retain (advances_pidIsAlive (stage i)) pending).bind fun left => ?_
    refine Advances.ite (Advances.pure _) (Advances.pause.bind fun _ => ?_)
    exact advances_pollRounds stage polls left

theorem advances_kill (pid : Pid) (signal : Signal) : Advances (kill pid signal) := Advances.act _

theorem advances_killMember (escalated : Bool) (pid : Pid) :
    Advances (killMember escalated pid) :=
  (advances_kill pid .sigkill).bind fun _ => Advances.pure _

section Timeline

variable {w : Nat → Host} {P : Progress ReapEvent → Prop}

/-- A probe that answers "not alive" has seen nobody run there. -/
theorem pidIsAlive_gone (hfound : ∀ t pid p, (w t).holder pid = some p → p.refusal ≠ some .esrch)
    (stage : ProbeStage) (pid : Pid) :
    On w (fun _ => True) (pidIsAlive stage pid) fun alive s => alive = false → GoneBy w pid s := by
  unfold pidIsAlive
  refine On.bind (Q := fun present s => present = false → GoneBy w pid s) ?_ fun present => ?_
  · intro s _ hpresent
    refine ⟨s.now, Nat.lt_succ_self s.now, Host.runs_of_esrch (hfound s.now pid) ?_⟩
    by_contra hother
    simp [act, hother] at hpresent
  · refine On.ite (fun hnot => On.pure fun s hs _ => hs (by simpa using hnot)) fun _ => ?_
    intro s _ hdead
    refine ⟨s.now, Nat.lt_succ_self s.now, ?_⟩
    cases hraw : ((w s.now).files pid).stat with
    | none => simp [act, hraw] at hdead
    | some raw => exact Host.runs_of_deadState hraw (by simpa [act, hraw] using hdead)

/-- What the rounds of a grace period drop is gone. -/
theorem pollRounds_gone
    (hfound : ∀ t pid p, (w t).holder pid = some p → p.refusal ≠ some .esrch)
    (stage : Nat → ProbeStage) : ∀ (polls : List Nat) (pending : List Pid),
      On w (fun _ => True) (pollRounds stage polls pending) fun left s =>
        ∀ pid ∈ pending, pid ∉ left → GoneBy w pid s
  | [], pending => On.pure fun s _ pid hpid hleft => absurd hpid hleft
  | i :: polls, pending => by
    unfold pollRounds
    refine On.ite (fun hempty => On.pure fun s _ => by simp [hempty]) fun _ => ?_
    have hround : On w (fun _ => True) (retain (pidIsAlive (stage i)) pending) fun left s =>
        True ∧ ∀ pid ∈ pending, pid ∉ left → GoneBy w pid s :=
      On.retain (advances_pidIsAlive (stage i))
        (fun pid s s' hlater (h : GoneBy w pid s) => h.later hlater)
        (fun pid => (pidIsAlive_gone hfound (stage i) pid).weaken (fun _ h => h)
          fun _ _ h => ⟨trivial, h⟩) pending
    refine hround.bind fun left => ?_
    refine On.ite (fun _ => On.pure fun s hs => hs.2) fun _ => ?_
    refine On.bind (Q := fun _ s => ∀ pid ∈ pending, pid ∉ left → GoneBy w pid s) ?_ fun _ => ?_
    · refine (Advances.pause.keeps ?_).weaken (fun s hs => hs.2) fun _ _ h => h
      exact fun s s' hlater h pid hpid hleft => (h pid hpid hleft).later hlater
    · intro s hs pid hpid hdropped
      by_cases hleft : pid ∈ left
      · exact pollRounds_gone hfound stage polls left s trivial pid hleft hdropped
      · exact (hs pid hpid hleft).later (advances_pollRounds stage polls left w s)

end Timeline

/-! ## Who took a SIGTERM -/

/-- The pids a SIGTERM was delivered to, newest first. -/
def delivered (log : List ReapEvent) : List Pid :=
  log.filterMap fun event =>
    match event with
    | .signalled pid .sigterm (some _) => some pid
    | _ => none

theorem delivered_sigterm (pid : Pid) (starttime : Nat) (log : List ReapEvent) :
    delivered (.signalled pid .sigterm (some starttime) :: log) = pid :: delivered log := rfl

theorem delivered_refused (pid : Pid) (log : List ReapEvent) :
    delivered (.signalled pid .sigterm none :: log) = delivered log := rfl

theorem Host.starttimeOf_of_killAnswer {h : Host} {pid : Pid} (hanswer : h.killAnswer pid = none) :
    ∃ starttime, h.starttimeOf pid = some starttime := by
  unfold Host.killAnswer at hanswer
  unfold Host.starttimeOf
  cases hp : h.holder pid with
  | none => simp [hp] at hanswer
  | some p => exact ⟨p.starttime, rfl⟩

theorem delivered_accepted (members : List TreeMember) (log : List ReapEvent) :
    delivered (members.map (fun member => .accepted member.pid member.starttime) ++ log) =
      delivered log := by
  induction members with
  | nil => rfl
  | cons member members ih => exact ih

/-- Nothing in the program delivers a SIGTERM. -/
def SparesTerm {α : Type} (prog : Reaping α) : Prop :=
  ∀ sent, Triple (fun log => delivered log = sent) prog fun _ log => delivered log = sent

theorem SparesTerm.of_silent {α : Type} {prog : Reaping α} (h : Silent prog) :
    SparesTerm prog := fun sent => h fun log => delivered log = sent

theorem sparesTerm_pidIsAlive (stage : ProbeStage) (pid : Pid) :
    SparesTerm (pidIsAlive stage pid) := fun _ =>
  ProbeProof.pidIsAlive (fun _ _ _ _ hlog => hlog) stage pid

theorem sparesTerm_pollRounds (stage : Nat → ProbeStage) (polls : List Nat)
    (pending : List Pid) : SparesTerm (pollRounds stage polls pending) := fun _ =>
  ProbeProof.pollRounds (fun _ _ _ _ hlog => hlog) stage polls pending

theorem sparesTerm_killMembers (pending : List Pid) (escalated : Bool) :
    SparesTerm (pending.foldlM killMember escalated) := by
  intro sent
  refine Triple.foldlM (I := fun _ log => delivered log = sent) pending (fun b pid _ => ?_)
    escalated
  refine Triple.bind (Q := fun _ log => delivered log = sent)
    (Triple.act fun v log hlog => hlog) fun _ => Triple.pure fun _ hlog => hlog

/-- The SIGTERM round counts exactly the members a SIGTERM was delivered to. -/
theorem termMember_delivered (self : Pid) (base : List Pid) (round : TermRound)
    (member : TreeMember) :
    Triple (fun log => delivered log = round.signalled.reverse ++ base)
      (termMember self round member)
      fun round log => delivered log = round.signalled.reverse ++ base := by
  unfold termMember
  refine Triple.ite (fun _ => Triple.pure fun _ hlog => hlog) fun _ => ?_
  refine (sparesTerm_pidIsAlive .beforeTerm member.pid _).bind fun alive => ?_
  refine Triple.ite (fun _ => Triple.pure fun _ hlog => hlog) fun _ => ?_
  refine Triple.bind (Q := fun answer log => delivered log =
    (if answer = none then [member.pid] else []) ++ (round.signalled.reverse ++ base))
    (Triple.act fun v log hlog => ?_) fun answer => ?_
  · by_cases hanswer : v.killAnswer member.pid = none
    · obtain ⟨starttime, hreached⟩ := Host.starttimeOf_of_killAnswer hanswer
      simpa [hanswer, hreached, delivered_sigterm] using hlog
    · simpa [hanswer, delivered_refused] using hlog
  · rcases answer with _ | e
    · exact Triple.pure fun log hlog => by simpa using hlog
    · cases e <;> exact Triple.pure fun log hlog => by simpa using hlog

/-! ## The verdict -/

section Verdict

variable {w : Nat → Host}

/-- With no member left, every member that took the SIGTERM is gone. -/
theorem terminateTree_gone
    (hfound : ∀ t pid p, (w t).holder pid = some p → p.refusal ≠ some .esrch)
    (self : Pid) (members : List TreeMember) (base : List Pid) :
    On w (fun s => delivered s.log = base) (terminateTree self members) fun outcome s =>
      ∃ sent, delivered s.log = sent ++ base ∧
        (outcome.membersLeft = 0 → ∀ pid ∈ sent, GoneBy w pid s) := by
  unfold terminateTree
  refine On.bind (Q := fun round s => delivered s.log = round.signalled.reverse ++ base) ?_
    fun round => ?_
  · refine (Triple.foldlM members (fun round member _ =>
      termMember_delivered self base round member) {}).on.weaken ?_ fun _ _ h => h
    exact fun s hs => hs
  have hstable : ∀ (pids left : List Pid) (s s' : Progress ReapEvent), Later s s' →
      (∀ pid ∈ pids, pid ∉ left → GoneBy w pid s) → ∀ pid ∈ pids, pid ∉ left → GoneBy w pid s' :=
    fun pids left s s' hlater h pid hpid hleft => (h pid hpid hleft).later hlater
  -- whom the grace period drops is gone, and stays so through the SIGKILLs
  have hterm : On w (fun s => delivered s.log = round.signalled.reverse ++ base)
      (pollRounds .termPoll (List.range termGracePolls) round.signalled) fun pending s =>
        delivered s.log = round.signalled.reverse ++ base ∧
          ∀ pid ∈ round.signalled, pid ∉ pending → GoneBy w pid s :=
    (sparesTerm_pollRounds .termPoll _ round.signalled _).on.and
      ((pollRounds_gone hfound .termPoll _ round.signalled).weaken (fun _ _ => trivial)
        fun _ _ h => h)
  refine hterm.bind fun pending => ?_
  refine On.bind (Q := fun _ s => delivered s.log = round.signalled.reverse ++ base ∧
    ∀ pid ∈ round.signalled, pid ∉ pending → GoneBy w pid s) ?_ fun escalated => ?_
  · exact ((sparesTerm_killMembers pending false _).on.weaken (fun _ hs => hs.1)
      fun _ _ h => h).and
        (((Advances.foldlM advances_killMember pending false).keeps
          (hstable round.signalled pending)).weaken (fun _ hs => hs.2) fun _ _ h => h)
  -- what is still pending is among the survivors or gone
  have hkill : On w (fun s => delivered s.log = round.signalled.reverse ++ base ∧
        ∀ pid ∈ round.signalled, pid ∉ pending → GoneBy w pid s)
      (pollRounds .killPoll (List.range killGracePolls) pending) fun survivors s =>
        delivered s.log = round.signalled.reverse ++ base ∧
          (∀ pid ∈ round.signalled, pid ∉ pending → GoneBy w pid s) ∧
          ∀ pid ∈ pending, pid ∉ survivors → GoneBy w pid s :=
    ((sparesTerm_pollRounds .killPoll _ pending _).on.weaken (fun _ hs => hs.1)
      fun _ _ h => h).and
        ((((advances_pollRounds .killPoll _ pending).keeps
          (hstable round.signalled pending)).weaken (fun _ hs => hs.2) fun _ _ h => h).and
            ((pollRounds_gone hfound .killPoll _ pending).weaken (fun _ _ => trivial)
              fun _ _ h => h))
  refine hkill.bind fun survivors => On.pure fun s hs => ?_
  obtain ⟨hsent, hdropped, hended⟩ := hs
  refine ⟨round.signalled.reverse, hsent, fun hleft pid hpid => ?_⟩
  have hempty : survivors = [] := List.eq_nil_of_length_eq_zero hleft
  by_cases hpending : pid ∈ pending
  · exact hended pid hpending (by simp [hempty])
  · exact hdropped pid (List.mem_reverse.mp hpid) hpending

theorem reapTree_gone
    (hfound : ∀ t pid p, (w t).holder pid = some p → p.refusal ≠ some .esrch)
    (self : Pid) (policy : ReapPolicy) (ticksPerSec passStarted : Nat) (tree : ForgottenTree)
    (base : List Pid) :
    On w (fun s => delivered s.log = base)
      (reapTree self policy ticksPerSec passStarted tree) fun record s =>
        ∃ sent, delivered s.log = sent ++ base ∧
          ∀ dir ∈ record.profileDir, ∀ pid ∈ sent, GoneBy w pid s := by
  have huntouched : ∀ disposition, On w (fun s => delivered s.log = base)
      (Pure.pure (untouchedTree tree disposition)) fun record s =>
        ∃ sent, delivered s.log = sent ++ base ∧
          ∀ dir ∈ record.profileDir, ∀ pid ∈ sent, GoneBy w pid s :=
    fun disposition => On.pure fun s hs => ⟨[], hs, by simp⟩
  unfold reapTree
  refine ((SparesTerm.of_silent (Observes.look _).silent) base).on.bind fun now => ?_
  refine On.ite (fun _ => huntouched _) fun _ => ?_
  have hverify := (observes_verifyForgottenTreeForReap (ε := ReapEvent) tree policy
    ticksPerSec).silent
  refine ((SparesTerm.of_silent hverify) base).on.bind fun verified => ?_
  cases verified with
  | none => exact huntouched _
  | some verified =>
    have hnote : On w (fun s => delivered s.log = base)
        (note (verified.members.map fun member => .accepted member.pid member.starttime))
        fun _ s => delivered s.log = base :=
      fun s hs => (delivered_accepted verified.members s.log).trans hs
    refine hnote.bind fun _ => ?_
    refine (terminateTree_gone hfound self (deepestFirst verified.members) base).bind
      fun outcome => On.pure fun s hs => ?_
    obtain ⟨sent, hsent, hgone⟩ := hs
    refine ⟨sent, hsent, fun dir hdir => hgone ?_⟩
    by_contra hleft
    simp [treeYieldsProfile, Nat.pos_of_ne_zero hleft] at hdir

end Verdict

/-- How `reap_forgotten_orphan_trees` came by the record of one tree. -/
abbrev TreeVisit := Visit ForgottenTree ReapedTree ReapEvent

/-- The visits of the pass, in order. -/
def treeVisits (self : Pid) (policy : ReapPolicy) (trees : List ForgottenTree)
    (ticksPerSec : Nat) (w : Nat → Host) (s : Progress ReapEvent) : List TreeVisit :=
  visits (reapTree self policy ticksPerSec (w s.now).clock) w trees { s with now := s.now + 1 }

/-- The pids that took a SIGTERM in the visit. -/
def sentDuring (visit : TreeVisit) : List Pid :=
  (delivered visit.after.log).take
    ((delivered visit.after.log).length - (delivered visit.before.log).length)

/-- Nobody of the scanned tree runs any more when the pass is through with it. -/
def TreeGone (w : Nat → Host) (visit : TreeVisit) : Prop :=
  ∀ member ∈ visit.item.members, (w visit.after.now).runs member.pid member.starttime = false

instance (w : Nat → Host) (visit : TreeVisit) : Decidable (TreeGone w visit) :=
  inferInstanceAs (Decidable (∀ member ∈ visit.item.members, _))

theorem gone_of_sent {self : Pid} {policy : ReapPolicy} {trees : List ForgottenTree}
    {ticksPerSec : Nat} (after : Aftermath trees) {s : Progress ReapEvent} {visit : TreeVisit}
    (hvisit : visit ∈ treeVisits self policy trees ticksPerSec after.host s) {dir : String}
    (hdir : visit.answer.profileDir = some dir) {member : TreeMember}
    (hmember : member ∈ visit.item.members) (hsent : member.pid ∈ sentDuring visit) :
    (after.host visit.after.now).runs member.pid member.starttime = false := by
  have hrun := run_of_mem_visits hvisit
  obtain ⟨sent, hlog, hgone⟩ := reapTree_gone after.found self policy ticksPerSec
    (after.host s.now).clock visit.item (delivered visit.before.log) visit.before rfl
  rw [hrun] at hlog hgone
  have hsame : sentDuring visit = sent := by
    unfold sentDuring
    rw [hlog]
    simp
  obtain ⟨t, ht, hout⟩ := hgone dir hdir member.pid (hsame ▸ hsent)
  exact after.no_return visit.item (item_mem_of_mem_visits hvisit) member hmember t
    visit.after.now (Nat.le_of_lt ht) (hout member.starttime)

section Crawler

private def crawlerPolicy : ReapPolicy :=
  { signatures := [], forgottenFootprintMb := 1024, forgottenTreeFootprintMb := 256 }

private def systemdHolder : PidHolder where
  starttime := 0
  files := { comm := some "systemd\n" }
  honest := by decide

/-- A forgotten headless browser. -/
private def crawler (refusal : Option Errno) : PidHolder where
  starttime := 100
  files :=
    { stat := some "40 (chrome) S 1 40 40 0 -1 0 0 0 0 0 100 50 0 0 20 0 1 0 100 0 0"
      cmdline := some "chrome\x00--headless\x00--user-data-dir=/tmp/prof\x00"
      status := some "VmRSS:\t 2097152 kB\n" }
  refusal := refusal
  honest := by decide +kernel

private def crawlerHost (refusal : Option Errno) (up : Bool) : Host where
  holder pid :=
    if pid = 1 then some systemdHolder
    else if pid = 40 ∧ up = true then some (crawler refusal)
    else none

private theorem crawler_runs (refusal : Option Errno) (up : Bool) :
    (crawlerHost refusal up).runs 40 100 = up := by
  have hdefunct : (crawler refusal).defunct = false := by
    change (crawler none).defunct = false
    decide +kernel
  have hstart : (crawler refusal).starttime = 100 := rfl
  cases up <;> simp [Host.runs, crawlerHost, hdefunct, hstart]

private def crawlerTree : ForgottenTree :=
  { rootPid := 40, rootArgs := "chrome --headless --user-data-dir=/tmp/prof"
    memberCount := 1, ageSecs := 900, rootStarttime := 100
    members := [{ pid := 40, depth := 0, starttime := 100 }] }

/-- The browser ends on the SIGTERM, unless it refuses it. -/
private def crawlerAftermath (refusal : Option Errno) (hrefusal : refusal ≠ some .esrch) :
    Aftermath [crawlerTree] where
  host t := crawlerHost refusal (decide (t < 18) || refusal.isSome)
  no_return := by
    intro tree htree member hmember t t' hle hgone
    rw [List.mem_singleton.mp htree] at hmember
    rw [List.mem_singleton.mp hmember, crawler_runs, Bool.or_eq_false_iff,
      decide_eq_false_iff_not] at hgone ⊢
    exact ⟨by omega, hgone.2⟩
  found := by
    intro t pid p hp
    have hholders : p = systemdHolder ∨ p = crawler refusal := by
      simp only [crawlerHost] at hp
      split_ifs at hp <;> simp_all
    rcases hholders with rfl | rfl
    · decide
    · exact hrefusal

private def crawlerVisits (after : Aftermath [crawlerTree]) : List TreeVisit :=
  treeVisits 1000 crawlerPolicy [crawlerTree] 100 after.host {}

end Crawler

end DraconGuard
