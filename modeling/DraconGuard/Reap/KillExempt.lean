import DraconGuard.Reap.ForgottenScanLaw
import DraconGuard.Reap.Yield

/-!
# The exempt list at kill time

`build_tree` keeps an exempt process out of a browser's tree unless it runs the executable of the
root (`browser_family_member`, forgotten.rs:490). `verify_forgotten_tree_for_reap` asks about the
exemption again, since a process may have executed something else under the same start time; but
it asks only about a member whose command line mentions "chrom" nowhere (reap.rs:938).
**`keepsExempt_iff`**: for a scan and what the kill finds, exempt processes are spared exactly
when every exempt member that the kill-time rule passes over runs the executable of its root.
-/

namespace DraconGuard

open Watch

/-! ## What the verification finds -/

namespace Host

variable (h : Host)

/-- `process_executable_name` of the pid, in this instant. -/
def exeName (pid : Pid) : String :=
  processExecutableName (h.files pid).exe ((h.files pid).cmdline.getD "")

/-- The stat of the pid, as far as it parses. -/
def stat (pid : Pid) : Option StatFields := (h.files pid).stat.bind parseStat

/-- The command line of the pid mentions a browser: the exempt list is not asked. -/
def passedOver (pid : Pid) : Bool :=
  match (h.files pid).cmdline with
  | some raw => browserDecidesByVeto (cmdlineArgs raw)
  | none => false

/-- The member lives under the start time of the scan, and its command line can be read. -/
def keeps (member : TreeMember) : Bool :=
  match h.stat member.pid with
  | some fields => fields.starttime == member.starttime && fields.state != 'Z' &&
      fields.state != 'X' && (h.files member.pid).cmdline.isSome
  | none => false

/-- The members that are still the guard's to signal. -/
def ours (policy : ReapPolicy) (tree : ForgottenTree) : List TreeMember :=
  tree.members.filter fun member => h.keeps member &&
    (h.passedOver member.pid || !matchesExempt (h.exeName member.pid) policy.exemptNames)

/-- What the tree weighs now: the root, and all that is ours of it. -/
def weight (policy : ReapPolicy) (tree : ForgottenTree) : Nat × Nat :=
  answer h (measureTreeFootprint tree.rootPid (h.ours policy tree) : Reaping (Nat × Nat))

/-- The checks on the tree as a whole (reap.rs:847-962). -/
structure EndsTree (policy : ReapPolicy) (ticksPerSec : Nat) (tree : ForgottenTree)
    (fields : StatFields) (raw : String) : Prop where
  root : h.stat tree.rootPid = some fields
  same : fields.starttime = tree.rootStarttime
  orphan : parentCommIsSystemd h fields.ppid = true
  rests : fields.ttyNr = 0 ∧ fields.state = 'S'
  undriven : answer h (treeUsage tree : Reaping Usage) ≠ .driven
  calm : answer h (treeUsage tree : Reaping Usage) = .unknown →
    fields.cpuTicks / max ticksPerSec 1 ≤ policy.maxCpuSeconds
  old : forgottenMinTreeAgeSecs ≤ tree.ageSecs
  cmdline : (h.files tree.rootPid).cmdline = some raw
  test : ∃ why, classifyDesktopSession (cmdlineArgs raw) = .test why
  heavy : policy.forgottenTreeFootprintMb ≤ (h.weight policy tree).2 ∨
    policy.forgottenFootprintMb ≤ (h.weight policy tree).1

end Host

section Answers

variable {h : Host} {policy : ReapPolicy} {tree : ForgottenTree}

theorem memberStillOurs_answer (member : TreeMember) :
    answer h (memberStillOurs policy member : Reaping Bool) = (h.keeps member &&
      (h.passedOver member.pid ||
        !matchesExempt (h.exeName member.pid) policy.exemptNames)) := by
  unfold memberStillOurs
  simp only [answer, bind_run, look_run, Host.keeps, Host.stat]
  cases (h.files member.pid).stat.bind parseStat with
  | none => rfl
  | some fields =>
    by_cases hstart : fields.starttime = member.starttime
    · by_cases hdead : fields.state = 'Z' ∨ fields.state = 'X'
      · rcases hdead with hdead | hdead <;> simp [hstart, hdead, pure_run]
      · rw [not_or] at hdead
        cases hcmd : (h.files member.pid).cmdline with
        | none => simp [hstart, hdead, bind_run, look_run, hcmd, pure_run]
        | some raw =>
          by_cases hb : browserDecidesByVeto (cmdlineArgs raw) = true <;>
            simp [hstart, hdead, bind_run, look_run, hcmd, hb, pure_run, Host.passedOver,
              Host.exeName]
    · simp [hstart, pure_run]

theorem verifyRoot_answer :
    answer h (verifyRoot tree : Reaping (Option StatFields)) =
      (h.stat tree.rootPid).filter fun fields => fields.starttime == tree.rootStarttime &&
        parentCommIsSystemd h fields.ppid && fields.ttyNr == 0 && fields.state == 'S' := by
  unfold verifyRoot
  simp only [answer, bind_run, look_run, Host.stat]
  cases (h.files tree.rootPid).stat.bind parseStat with
  | none => rfl
  | some fields =>
    by_cases hstart : fields.starttime = tree.rootStarttime
    · by_cases horphan : parentCommIsSystemd h fields.ppid = true
      · by_cases hrests : fields.ttyNr ≠ 0 ∨ fields.state ≠ 'S'
        · rcases hrests with hrests | hrests <;>
            simp [hstart, horphan, hrests, bind_run, look_run, pure_run, Option.filter_some]
        · rw [not_or, not_ne_iff, not_ne_iff] at hrests
          simp [hstart, horphan, hrests, bind_run, look_run, pure_run, Option.filter_some]
      · simp [hstart, horphan, bind_run, look_run, pure_run, Option.filter_some]
    · simp [hstart, pure_run, Option.filter_some]

theorem verifyUsage_answer (fields : StatFields) (ticksPerSec : Nat) :
    answer h (verifyUsage tree fields policy ticksPerSec : Reaping Bool) = true ↔
      answer h (treeUsage tree : Reaping Usage) ≠ .driven ∧
        (answer h (treeUsage tree : Reaping Usage) = .unknown →
          fields.cpuTicks / max ticksPerSec 1 ≤ policy.maxCpuSeconds) := by
  unfold verifyUsage
  simp only [answer, bind_run]
  cases (treeUsage tree (fun _ => h) {} : Usage × Progress ReapEvent).1 <;> simp [pure_run]

theorem verifyRootCmdline_answer :
    answer h (verifyRootCmdline tree policy : Reaping Bool) = true ↔
      ∃ raw, (h.files tree.rootPid).cmdline = some raw ∧
        ∃ why, classifyDesktopSession (cmdlineArgs raw) = .test why := by
  unfold verifyRootCmdline
  simp only [answer, bind_run, look_run]
  cases (h.files tree.rootPid).cmdline with
  | none => simp [pure_run]
  | some raw =>
    by_cases hempty : cmdlineArgs raw = ""
    · have hno : classifyDesktopSession "" = .notABrowser := by decide
      simp [hempty, hno, pure_run]
    · cases hclass : classifyDesktopSession (cmdlineArgs raw) with
      | test why =>
        -- a test is a browser, and a browser is not exempt
        have hbrowser : browserDecidesByVeto (cmdlineArgs raw) = true := by
          by_contra hother
          rw [Bool.not_eq_true, browserDecidesByVeto] at hother
          simp [classifyDesktopSession, hother] at hclass
        simp [hempty, hbrowser, hclass, bind_run, look_run, pure_run]
      | desktop reason =>
        simp [hempty, hclass, bind_run, look_run, pure_run]
      | notABrowser =>
        simp [hempty, hclass, bind_run, look_run, pure_run]

/-- **What the verification accepts**, of a world that stands still. -/
theorem verifyForgottenTreeForReap_answer (ticksPerSec : Nat) (verified : VerifiedTree) :
    answer h (verifyForgottenTreeForReap tree policy ticksPerSec :
      Reaping (Option VerifiedTree)) = some verified ↔
        (∃ fields raw, h.EndsTree policy ticksPerSec tree fields raw) ∧
          h.ours policy tree ≠ [] ∧
            verified = { members := h.ours policy tree
                         skipped := tree.members.length - (h.ours policy tree).length } := by
  have hours : ∀ s : Progress ReapEvent,
      (retain (memberStillOurs policy) tree.members (fun _ => h) s).1 = h.ours policy tree := by
    intro s
    rw [(Observes.retain (observes_memberStillOurs policy) tree.members).answer_eq h s,
      answer_retain h (observes_memberStillOurs policy)]
    exact List.filter_congr fun member _ => memberStillOurs_answer member
  -- the root is as the checks want it, in the terms of the structure
  have hends : ∀ fields raw, h.EndsTree policy ticksPerSec tree fields raw →
      answer h (verifyRoot tree : Reaping (Option StatFields)) = some fields := by
    intro fields raw hends
    rw [verifyRoot_answer, hends.root, Option.filter_some, if_pos]
    simp [hends.same, hends.orphan, hends.rests]
  unfold verifyForgottenTreeForReap
  rw [answer, bind_run]
  cases hroot : (verifyRoot tree (fun _ => h) {} : Option StatFields × Progress ReapEvent).1 with
  | none =>
    refine iff_of_false (by simp [pure_run]) ?_
    rintro ⟨⟨fields, raw, hall⟩, -⟩
    rw [← answer, hends fields raw hall] at hroot
    cases hroot
  | some fields =>
    have hsame : ∀ fields' raw, h.EndsTree policy ticksPerSec tree fields' raw → fields' = fields :=
      fun fields' raw hall => Option.some.inj ((hends fields' raw hall).symm.trans hroot)
    dsimp only
    rw [bind_run, (observes_verifyUsage tree fields policy ticksPerSec).answer_eq]
    by_cases husage : answer h (verifyUsage tree fields policy ticksPerSec : Reaping Bool) = true
    case neg =>
      refine iff_of_false (by simp [husage, pure_run]) ?_
      rintro ⟨⟨fields', raw, hall⟩, -⟩
      obtain rfl := hsame fields' raw hall
      exact husage (verifyUsage_answer fields' ticksPerSec |>.mpr ⟨hall.undriven, hall.calm⟩)
    by_cases hold : tree.ageSecs < forgottenMinTreeAgeSecs
    case pos =>
      refine iff_of_false (by simp [husage, hold, pure_run]) ?_
      rintro ⟨⟨fields', raw, hall⟩, -⟩
      exact absurd hall.old (by omega)
    simp only [husage, Bool.not_true, Bool.false_eq_true, if_false, hold]
    rw [bind_run, (observes_verifyRootCmdline tree policy).answer_eq]
    by_cases hcmd : answer h (verifyRootCmdline tree policy : Reaping Bool) = true
    case neg =>
      refine iff_of_false (by simp [hcmd, pure_run]) ?_
      rintro ⟨⟨fields', raw, hall⟩, -⟩
      exact hcmd (verifyRootCmdline_answer.mpr ⟨raw, hall.cmdline, hall.test⟩)
    simp only [hcmd, Bool.not_true, Bool.false_eq_true, if_false]
    rw [bind_run, hours]
    by_cases hnone : h.ours policy tree = []
    case pos => simp [hnone, pure_run]
    simp only [hnone, if_false]
    rw [bind_run, (observes_measureTreeFootprint tree.rootPid _).answer_eq, ← Host.weight]
    by_cases hlight : (h.weight policy tree).2 < policy.forgottenTreeFootprintMb ∧
        (h.weight policy tree).1 < policy.forgottenFootprintMb
    case pos =>
      refine iff_of_false (by simp [hlight, pure_run]) ?_
      rintro ⟨⟨fields', raw, hall⟩, -⟩
      have := hall.heavy
      omega
    have hfound := Option.filter_eq_some_iff.mp (verifyRoot_answer.symm.trans hroot)
    simp only [Bool.and_eq_true, beq_iff_eq] at hfound
    obtain ⟨hstat, ⟨⟨hstart, horphan⟩, htty⟩, hstate⟩ := hfound
    obtain ⟨hundriven, hcalm⟩ := (verifyUsage_answer fields ticksPerSec).mp husage
    obtain ⟨raw, hraw, htest⟩ := verifyRootCmdline_answer.mp hcmd
    have hends : h.EndsTree policy ticksPerSec tree fields raw :=
      { root := hstat, same := hstart, orphan := horphan, rests := ⟨htty, hstate⟩
        undriven := hundriven, calm := hcalm, old := by omega, cmdline := hraw, test := htest
        heavy := by omega }
    simp only [hlight, if_false, pure_run, Option.some.injEq]
    exact ⟨fun heq => ⟨⟨fields, raw, hends⟩, hnone, heq.symm⟩, fun hall => hall.2.2.symm⟩

end Answers

/-! ## Whom the pass signals -/

/-- Every signal so far was for a pid with `S`. -/
def SignalsOnly (S : Pid → Prop) (log : List ReapEvent) : Prop :=
  ∀ pid signal reached, .signalled pid signal reached ∈ log → S pid

theorem SignalsOnly.cons_signalled {S : Pid → Prop} {log : List ReapEvent} {pid : Pid}
    (h : SignalsOnly S log) (hpid : S pid) (signal : Signal) (reached : Option Nat) :
    SignalsOnly S (.signalled pid signal reached :: log) := by
  intro pid' signal' reached' hmem
  rcases List.mem_cons.mp hmem with heq | hmem
  · injection heq with heq
    exact heq ▸ hpid
  · exact h pid' signal' reached' hmem

theorem SignalsOnly.probeProof (S : Pid → Prop) : ProbeProof (SignalsOnly S) := by
  intro pid stage found log h pid' signal reached hmem
  rcases List.mem_cons.mp hmem with heq | hmem
  · cases heq
  · exact h pid' signal reached hmem

section Signals

variable {S : Pid → Prop} {self : Pid}

theorem kill_signals {pid : Pid} (hpid : S pid) (signal : Signal) :
    Triple (SignalsOnly S) (kill pid signal) fun _ => SignalsOnly S :=
  Triple.act fun _ _ hlog => hlog.cons_signalled hpid signal _

/-- The SIGTERM round signals members, and remembers only members. -/
theorem termMember_signals {member : TreeMember}
    (hmember : 1 < member.pid → member.pid ≠ self → S member.pid) (round : TermRound) :
    Triple (fun log => SignalsOnly S log ∧ ∀ pid ∈ round.signalled, S pid)
      (termMember self round member)
      fun round log => SignalsOnly S log ∧ ∀ pid ∈ round.signalled, S pid := by
  unfold termMember
  refine Triple.ite (fun _ => Triple.pure fun _ hlog => hlog) fun hpid => ?_
  rw [not_or, not_le] at hpid
  have hS : S member.pid := hmember hpid.1 hpid.2
  have hprobe : ProbeProof fun log => SignalsOnly S log ∧ ∀ pid ∈ round.signalled, S pid :=
    fun pid stage found log hlog => ⟨SignalsOnly.probeProof S pid stage found log hlog.1, hlog.2⟩
  refine (hprobe.pidIsAlive .beforeTerm member.pid).bind fun alive => ?_
  refine Triple.ite (fun _ => Triple.pure fun _ hlog => hlog) fun _ => ?_
  refine Triple.bind
    (Q := fun _ log => SignalsOnly S log ∧ ∀ pid ∈ round.signalled, S pid) ?_ fun answer => ?_
  · exact Triple.act fun _ _ hlog => ⟨hlog.1.cons_signalled hS .sigterm _, hlog.2⟩
  · rcases answer with _ | e
    · refine Triple.pure fun log hlog => ⟨hlog.1, fun pid hin => ?_⟩
      rcases List.mem_append.mp hin with hin | hin
      · exact hlog.2 pid hin
      · exact List.mem_singleton.mp hin ▸ hS
    · cases e <;> exact Triple.pure fun _ hlog => hlog

theorem pollRounds_subset (stage : Nat → ProbeStage) (w : Nat → Host) :
    ∀ (polls : List Nat) (pending : List Pid) (s : Progress ReapEvent),
      (pollRounds stage polls pending w s).1 ⊆ pending
  | [], _, _ => List.Subset.refl _
  | i :: polls, pending, s => by
    have hleft := retain_subset (pidIsAlive (stage i)) w pending s
    unfold pollRounds
    split
    · exact List.Subset.refl _
    · rw [bind_run]
      split
      · exact hleft
      · exact List.Subset.trans (pollRounds_subset stage w polls _ _) hleft

theorem terminateTree_signals {members : List TreeMember}
    (hmembers : ∀ member ∈ members, 1 < member.pid → member.pid ≠ self → S member.pid) :
    Triple (SignalsOnly S) (terminateTree self members) fun _ => SignalsOnly S := by
  intro w s hs
  have hround := Triple.foldlM (I := fun round log => SignalsOnly S log ∧
      ∀ pid ∈ round.signalled, S pid) members
    (fun round member hin => termMember_signals (hmembers member hin) round) {} w s
    ⟨hs, fun pid hin => absurd hin List.not_mem_nil⟩
  unfold terminateTree
  rw [bind_run]
  set round := members.foldlM (termMember self) {} w s
  have hterm := (SignalsOnly.probeProof S).pollRounds .termPoll (List.range termGracePolls)
    round.1.signalled w round.2 hround.1
  have hpending := pollRounds_subset .termPoll w (List.range termGracePolls) round.1.signalled
    round.2
  rw [bind_run]
  set pending := pollRounds .termPoll (List.range termGracePolls) round.1.signalled w round.2
  have hkills : Triple (SignalsOnly S) (pending.1.foldlM killMember false)
      fun _ => SignalsOnly S := by
    refine Triple.foldlM (I := fun _ => SignalsOnly S) pending.1 (fun b pid hin => ?_) false
    exact (kill_signals (hround.2 pid (hpending hin)) .sigkill).bind fun _ =>
      Triple.pure fun _ hlog => hlog
  rw [bind_run, bind_run]
  exact (SignalsOnly.probeProof S).pollRounds .killPoll _ _ w _ (hkills w _ hterm)

/-- What a visit of the pass signals was verified, is no reserved pid and not the guard. -/
theorem reapTree_signals {policy : ReapPolicy} {ticksPerSec passStarted n : Nat}
    {tree : ForgottenTree} {w : Nat → Host} {pid : Pid} {signal : Signal} {reached : Option Nat}
    (h : .signalled pid signal reached ∈
      (reapTree self policy ticksPerSec passStarted tree w { now := n }).2.log) :
    ∃ verified, (verifyForgottenTreeForReap (ε := ReapEvent) tree policy ticksPerSec w
        { now := n + 1 }).1 = some verified ∧
      1 < pid ∧ pid ≠ self ∧ ∃ member ∈ verified.members, member.pid = pid := by
  unfold reapTree at h
  rw [bind_run, look_run] at h
  dsimp only at h
  split at h
  · exact absurd h List.not_mem_nil
  rw [bind_run] at h
  have hsilent := (observes_verifyForgottenTreeForReap (ε := ReapEvent) tree policy
    ticksPerSec).silent (· = []) w { now := n + 1 } rfl
  set found := verifyForgottenTreeForReap (ε := ReapEvent) tree policy ticksPerSec w
    { now := n + 1 }
  cases hverified : found.1 with
  | none =>
    rw [hverified] at h
    simp [pure_run, hsilent] at h
  | some verified =>
    rw [hverified] at h
    refine ⟨verified, rfl, ?_⟩
    have hnoted : SignalsOnly
        (fun pid => 1 < pid ∧ pid ≠ self ∧ ∃ member ∈ verified.members, member.pid = pid)
        (verified.members.map (fun member => .accepted member.pid member.starttime) ++
          found.2.log) := by
      intro pid' signal' reached' hmem
      simp [hsilent] at hmem
    have hdeepest : ∀ member ∈ deepestFirst verified.members, member ∈ verified.members :=
      fun member hin => List.mem_mergeSort.mp hin
    exact terminateTree_signals
      (fun member hin hlow hself => ⟨hlow, hself, member, hdeepest member hin, rfl⟩) w
      { found.2 with log := _ } hnoted pid signal reached h

end Signals

/-! ## Whom it reaches -/

section Reaches

variable {self : Pid}

/-- The process is alive and takes signals. -/
structure Host.Takes (h : Host) (pid : Pid) (inc : Nat) : Prop where
  delivers : h.killAnswer pid = none
  alive : ∀ raw, (h.files pid).stat = some raw → deadState raw = false
  starttime : h.starttimeOf pid = some inc

theorem advances_termMember (round : TermRound) (member : TreeMember) :
    Advances (termMember self round member) := by
  unfold termMember
  refine Advances.ite (Advances.pure _) ((advances_pidIsAlive _ _).bind fun alive => ?_)
  refine Advances.ite (Advances.pure _) ((advances_kill _ _).bind fun answer => ?_)
  rcases answer with _ | e
  · exact Advances.pure _
  · cases e <;> exact Advances.pure _

theorem pidIsAlive_takes {w : Nat → Host} {pid : Pid} {inc : Nat} {s : Progress ReapEvent}
    (stage : ProbeStage) (htakes : ∀ k, s.now ≤ k → (w k).Takes pid inc) :
    (pidIsAlive stage pid w s).1 = true := by
  have hpresent : (w s.now).killAnswer pid ≠ some .esrch := by
    rw [(htakes s.now (Nat.le_refl _)).delivers]
    exact nofun
  have hlooks := (htakes (s.now + 1) (Nat.le_succ _)).alive
  unfold pidIsAlive
  simp only [bind_run, act, hpresent, if_false, Bool.not_true, Bool.false_eq_true]
  cases hstat : ((w (s.now + 1)).files pid).stat with
  | none => rfl
  | some raw => simp [hlooks raw hstat]

/-- A member that takes signals gets its SIGTERM. -/
theorem termMember_reaches {w : Nat → Host} {member : TreeMember} {inc : Nat}
    (hlow : 1 < member.pid) (hself : member.pid ≠ self) (round : TermRound)
    (s : Progress ReapEvent) (htakes : ∀ k, s.now ≤ k → (w k).Takes member.pid inc) :
    .signalled member.pid .sigterm (some inc) ∈ (termMember self round member w s).2.log := by
  have hpid : ¬ (member.pid ≤ 1 ∨ member.pid = self) := not_or.mpr ⟨not_le.mpr hlow, hself⟩
  unfold termMember
  rw [if_neg hpid, bind_run, pidIsAlive_takes .beforeTerm htakes, if_neg (by simp), bind_run]
  set probed := (pidIsAlive .beforeTerm member.pid w s).2
  have hkill := htakes probed.now (advances_pidIsAlive .beforeTerm member.pid w s).now
  have hrun : kill member.pid .sigterm w probed = (none,
      { now := probed.now + 1, log := .signalled member.pid .sigterm (some inc) :: probed.log }) := by
    simp [kill, act, hkill.delivers, hkill.starttime]
  rw [hrun]
  exact List.mem_cons_self

theorem termMembers_reach {w : Nat → Host} {member : TreeMember} {inc : Nat}
    (hlow : 1 < member.pid) (hself : member.pid ≠ self) : ∀ (members : List TreeMember)
      (round : TermRound) (s : Progress ReapEvent), member ∈ members →
        (∀ k, s.now ≤ k → (w k).Takes member.pid inc) →
          .signalled member.pid .sigterm (some inc) ∈
            (members.foldlM (termMember self) round w s).2.log
  | first :: rest, round, s, hmember, htakes => by
    rw [List.foldlM_cons, bind_run]
    have hfirst := (advances_termMember round first : Advances (termMember self round first)) w s
    rcases List.mem_cons.mp hmember with rfl | hmember
    · exact (Advances.foldlM advances_termMember rest _ w _).log.subset
        (termMember_reaches hlow hself round s htakes)
    · exact termMembers_reach hlow hself rest _ _ hmember fun k hk =>
        htakes k (Nat.le_trans hfirst.now hk)

theorem terminateTree_reaches {w : Nat → Host} {members : List TreeMember} {member : TreeMember}
    {inc : Nat} (hmember : member ∈ members) (hlow : 1 < member.pid) (hself : member.pid ≠ self)
    (s : Progress ReapEvent) (htakes : ∀ k, s.now ≤ k → (w k).Takes member.pid inc) :
    .signalled member.pid .sigterm (some inc) ∈ (terminateTree self members w s).2.log := by
  unfold terminateTree
  rw [bind_run]
  refine (Advances.bind (advances_pollRounds _ _ _) (fun pending => ?_) w _).log.subset
    (termMembers_reach hlow hself members {} s hmember htakes)
  refine (Advances.foldlM advances_killMember pending false).bind fun _ => ?_
  exact (advances_pollRounds _ _ _).bind fun _ => Advances.pure _

/-- A verified member that takes signals from then on is signalled. -/
theorem reapTree_reaches {policy : ReapPolicy} {ticksPerSec passStarted n : Nat}
    {tree : ForgottenTree} {w : Nat → Host} {verified : VerifiedTree} {member : TreeMember}
    {inc : Nat} (hbudget : (w n).clock - passStarted < reapPassBudget)
    (hverified : (verifyForgottenTreeForReap (ε := ReapEvent) tree policy ticksPerSec w
      { now := n + 1 }).1 = some verified)
    (hmember : member ∈ verified.members) (hlow : 1 < member.pid) (hself : member.pid ≠ self)
    (htakes : ∀ k, (verifyForgottenTreeForReap (ε := ReapEvent) tree policy ticksPerSec w
      { now := n + 1 }).2.now ≤ k → (w k).Takes member.pid inc) :
    .signalled member.pid .sigterm (some inc) ∈
      (reapTree self policy ticksPerSec passStarted tree w { now := n }).2.log := by
  unfold reapTree
  rw [bind_run, look_run]
  dsimp only
  rw [if_neg (by omega), bind_run]
  set found := verifyForgottenTreeForReap (ε := ReapEvent) tree policy ticksPerSec w
    { now := n + 1 }
  rw [hverified]
  dsimp only
  rw [bind_run, bind_run, pure_run]
  exact terminateTree_reaches (List.mem_mergeSort.mpr hmember) hlow hself _ htakes

end Reaches

/-! ## The exempt are spared -/

section Exempt

variable (call : ScanCall) (table : ReapTable) (h : Host)

/-- The verification of the tree, when the visit to it began at `n`. -/
abbrev verifiedFrom (tree : ForgottenTree) (w : Nat → Host) (n : Nat) :
    Option VerifiedTree × Progress ReapEvent :=
  verifyForgottenTreeForReap tree call.policy call.ticksPerSec w { now := n + 1 }

/-- The verification meets `h` and nothing else. Before it and behind it the world may change. -/
def MeetsHost (tree : ForgottenTree) (w : Nat → Host) (n : Nat) : Prop :=
  ∀ k, n < k → k < (verifiedFrom call tree w n).2.now → w k = h

/-- The executable of a pid is that of the tree's root, as the scan read it. -/
def RunsRoot (tree : ForgottenTree) (pid : Pid) : Prop :=
  ∃ root, table.get tree.rootPid = some root ∧ h.exeName pid = root.exe

/-- No visit to a candidate signals an exempt process that does not run the executable of the
root. -/
def KeepsExempt : Prop :=
  ∀ tree ∈ (scanForgottenOrphanTrees call table).candidates, ∀ w n passStarted,
    MeetsHost call h tree w n → ∀ pid signal inc,
      .signalled pid signal (some inc) ∈ (reapTree call.self call.policy call.ticksPerSec
        passStarted tree w { now := n }).2.log →
      matchesExempt (h.exeName pid) call.policy.exemptNames = true → RunsRoot table h tree pid

/-- A member of a tree that is ended, which the exempt list is not asked about. -/
structure NotAsked (tree : ForgottenTree) (member : TreeMember) : Prop where
  ends : ∃ fields raw, h.EndsTree call.policy call.ticksPerSec tree fields raw
  among : member ∈ tree.members
  keeps : h.keeps member = true
  low : 1 < member.pid
  self : member.pid ≠ call.self
  browser : h.passedOver member.pid = true

/-- The same incarnations, and none of them refuses a signal. -/
def Host.willing : Host :=
  { h with holder := fun pid => (h.holder pid).map fun p => { p with refusal := none } }

variable {call table h}

theorem Host.willing_takes {member : TreeMember} (hkeeps : h.keeps member = true) :
    h.willing.Takes member.pid member.starttime := by
  have hfiles : h.willing.files member.pid = h.files member.pid := by
    unfold Host.files Host.willing
    cases hp : h.holder member.pid <;> simp [hp]
  unfold Host.keeps Host.stat at hkeeps
  cases hraw : (h.files member.pid).stat with
  | none => simp [hraw] at hkeeps
  | some raw =>
    cases hfields : parseStat raw with
    | none => simp [hraw, hfields] at hkeeps
    | some fields =>
      simp only [hraw, hfields, Option.bind_some, Bool.and_eq_true, beq_iff_eq,
        bne_iff_ne] at hkeeps
      obtain ⟨⟨⟨hstart, hzombie⟩, hdead⟩, -⟩ := hkeeps
      have htold : h.willing.starttimeOf member.pid = some member.starttime := by
        rw [← hstart]
        exact Host.starttimeOf_of_stat (by rw [hfiles, hraw]) hfields
      refine ⟨?_, fun raw' hraw' => ?_, htold⟩
      · unfold Host.starttimeOf at htold
        unfold Host.killAnswer
        cases hp : h.willing.holder member.pid with
        | none => simp [hp] at htold
        | some p =>
          obtain ⟨q, -, rfl⟩ := Option.map_eq_some_iff.mp hp
          rfl
      · rw [hfiles, hraw] at hraw'
        obtain rfl := Option.some.inj hraw'
        simp [deadState, hfields, hzombie, hdead]

/-- **The exempt are spared** exactly when those the exempt list is not asked about run the
executable of their root. -/
theorem keepsExempt_iff : KeepsExempt call table h ↔
    ∀ tree ∈ (scanForgottenOrphanTrees call table).candidates, ∀ member,
      NotAsked call h tree member →
        matchesExempt (h.exeName member.pid) call.policy.exemptNames = true →
          RunsRoot table h tree member.pid := by
  constructor
  · intro hspares tree htree member hover hexempt
    have hobserves := observes_verifyForgottenTreeForReap (ε := ReapEvent) tree call.policy
      call.ticksPerSec
    have hours : member ∈ h.ours call.policy tree := by
      refine List.mem_filter.mpr ⟨hover.among, ?_⟩
      rw [hover.keeps, hover.browser]
      rfl
    -- a world that stands still through the verification and then lets every signal through
    set still := verifiedFrom call tree (fun _ => h) 0 with hstill
    let w : Nat → Host := fun k => if k < still.2.now then h else h.willing
    have hsame : still = verifiedFrom call tree w 0 :=
      hobserves.congr fun k _ hk => (if_pos hk).symm
    have hverified := (verifyForgottenTreeForReap_answer call.ticksPerSec _).mpr
      ⟨hover.ends, List.ne_nil_of_mem hours, rfl⟩
    rw [← hobserves.answer_eq h { now := 0 + 1 }] at hverified
    have hmeets : MeetsHost call h tree w 0 := by
      intro k _ hk
      rw [← hsame] at hk
      exact if_pos hk
    refine hspares tree htree w 0 (w 0).clock hmeets member.pid .sigterm member.starttime
      (reapTree_reaches (by rw [Nat.sub_self]; decide)
        ((congrArg Prod.fst hsame).symm.trans hverified) hours hover.low hover.self ?_) hexempt
    intro k hk
    have hlater : ¬ k < still.2.now := Nat.not_lt.mpr (hsame ▸ hk)
    show Host.Takes (if k < still.2.now then h else h.willing) _ _
    rw [if_neg hlater]
    exact Host.willing_takes hover.keeps
  · intro hover tree htree w n passStarted hmeets pid signal inc hsignal hexempt
    obtain ⟨verified, hverified, hlow, hself, member, hmember, rfl⟩ := reapTree_signals hsignal
    have hanswer := (observes_verifyForgottenTreeForReap (ε := ReapEvent) tree call.policy
      call.ticksPerSec).answer_of_still (s := { now := n + 1 }) hmeets
    obtain ⟨hends, -, rfl⟩ := (verifyForgottenTreeForReap_answer call.ticksPerSec _).mp
      (hanswer.symm.trans hverified)
    obtain ⟨hin, hours⟩ := List.mem_filter.mp hmember
    simp only [hexempt, Bool.not_true, Bool.or_false, Bool.and_eq_true] at hours
    exact hover tree htree member ⟨hends, hin, hours.1, hlow, hself, hours.2⟩ hexempt

end Exempt

section Fixer

private def fixerScan : ScanCall :=
  { openScan with
    policy := { signatures := [], exemptNames := ["systemd", "dracon-code"]
                forgottenFootprintMb := 0, forgottenTreeFootprintMb := 0 } }

private def fixerRoot : ProcEntry :=
  { pid := 200, ppid := 1, starttime := 20, args := "chrome --headless", exe := "chrome" }

/-- A test browser and a shell it started. -/
private def fixerTable : ReapTable where
  entries := [fixerRoot,
    { pid := 201, ppid := 200, starttime := 21, args := "sh fix.sh", exe := "sh" }]
  nodup := by decide

private def fixerTree : ForgottenTree :=
  { buildTree fixerScan fixerTable fixerRoot with why := "headless" }

private def testBrowser : PidHolder where
  starttime := 20
  files :=
    { stat := some "200 (chrome) S 1 1 1 0 -1 0 0 0 0 0 0 0 0 0 20 0 1 0 20 0"
      cmdline := some "chrome\x00--headless\x00"
      exe := some "/opt/chrome" }
  honest := by decide +kernel

/-- The shell, which has executed an agent since the scan. -/
private def executedAgent : PidHolder where
  starttime := 21
  files :=
    { stat := some "201 (sh) S 200 1 1 0 -1 0 0 0 0 0 0 0 0 0 20 0 1 0 21 0"
      cmdline := some "dracon-code\x00fix the chromium tests\x00"
      exe := some "/usr/bin/dracon-code" }
  honest := by decide +kernel

private def fixerHost : Host where
  holder pid :=
    if pid = 200 then some testBrowser
    else if pid = 201 then some executedAgent
    else systemdHost.holder pid

/-- An exempt agent is ended, because its task speaks of a browser. -/
theorem exempt_agent_killed : ¬ KeepsExempt fixerScan fixerTable fixerHost := by
  rw [keepsExempt_iff]
  intro hover
  have htree : fixerTree ∈ (scanForgottenOrphanTrees fixerScan fixerTable).candidates := by
    decide +kernel
  have hnot : NotAsked fixerScan fixerHost fixerTree
      { pid := 201, depth := 1, starttime := 21 } :=
    { ends := ⟨{ state := 'S', ppid := 1, ttyNr := 0, cpuTicks := 0, starttime := 20 }, _,
        { root := by decide +kernel, same := by decide +kernel, orphan := by decide +kernel
          rests := by decide +kernel, undriven := by decide +kernel, calm := by decide +kernel
          old := by decide +kernel, cmdline := rfl, test := ⟨"headless", by decide +kernel⟩
          heavy := by decide +kernel }⟩
      among := by decide +kernel, keeps := by decide +kernel, low := by decide
      self := by decide, browser := by decide +kernel }
  obtain ⟨root, hroot, hexe⟩ := hover fixerTree htree _ hnot (by decide +kernel)
  have hfound : fixerTable.get fixerTree.rootPid = some fixerRoot := by decide +kernel
  obtain rfl := Option.some.inj (hfound.symm.trans hroot)
  exact absurd hexe (by decide +kernel)

end Fixer

end DraconGuard
