import DraconGuard.Reap.AuditTrail
import DraconGuard.Reap.KillExempt
import DraconGuard.Reap.TreeOrder

/-!
# The signals of a tree

`terminate_tree` (reap.rs:1007) on the members that a verification left, deepest first. SIGTERM
goes to each of them once at most and in their order, SIGKILL to those whose SIGTERM was delivered
and whom every grace poll found alive, and the four counters add up to the members.
**`endsDeepestFirst_iff`**: what descends from a member is signalled before it exactly when the
tree is `Graded`: the root is below no member, and of two handlers the lower one is deeper.
-/

namespace DraconGuard

open Watch

/-! ## What is sent -/

/-- The pids that a signal was sent to, in the order it was sent, delivered or not. -/
def signalsSent (signal : Signal) : List ReapEvent → List Pid
  | [] => []
  | .signalled pid s _ :: past =>
    if s = signal then signalsSent signal past ++ [pid] else signalsSent signal past
  | .accepted _ _ :: past => signalsSent signal past
  | .probed _ _ _ :: past => signalsSent signal past

/-- The grace poll of that number found the process alive. -/
def AliveAtPoll (w : Nat → Host) (log : List ReapEvent) (pid : Pid) (i : Nat) : Prop :=
  ∃ k, ProbedAlive w pid k ∧ .probed pid (.termPoll i) ((w (k + 1)).starttimeOf pid) ∈ log

/-- How the verified members of a tree are ended, in a run from the instant `n`. -/
structure EndsDeepestFirst (table : ReapTable) (verified : List TreeMember) (own : Pid)
    (w : Nat → Host) (n : Nat) : Prop where
  /-- What is signalled later is not below what was signalled before. -/
  order : (signalsSent .sigterm (recorded (terminateTree own (deepestFirst verified)) w n)).Pairwise
    fun first later => ¬ table.Below first later
  once : ∀ signal,
    (signalsSent signal (recorded (terminateTree own (deepestFirst verified)) w n)).Nodup
  members : ∀ signal, ∀ pid ∈
    signalsSent signal (recorded (terminateTree own (deepestFirst verified)) w n),
      pid ∈ verified.map (·.pid)
  kills : ∀ pid ∈ signalsSent .sigkill (recorded (terminateTree own (deepestFirst verified)) w n),
    (∃ inc, .signalled pid .sigterm (some inc) ∈
      recorded (terminateTree own (deepestFirst verified)) w n) ∧
      ∀ i < termGracePolls,
        AliveAtPoll w (recorded (terminateTree own (deepestFirst verified)) w n) pid i
  counts : ∀ r, r = (terminateTree own (deepestFirst verified) w { now := n }).1 →
    r.membersEnded + r.membersLeft + r.alreadyGone + r.refused = verified.length

/-- So it goes whichever members are left and whatever they answer. -/
def TreeEndsDeepestFirst (call : ScanCall) (table : ReapTable) (root : ProcEntry) : Prop :=
  ∀ verified, verified.Sublist (buildTree call table root).members →
    ∀ own w n, EndsDeepestFirst table verified own w n

/-- Depths are heights where they have to be. -/
structure Graded (call : ScanCall) (table : ReapTable) (root : ProcEntry) : Prop where
  root_on_top : ∀ m ∈ (buildTree call table root).members, 1 < m.pid →
    ¬ table.Below m.pid root.pid
  handlers : ∀ upper ∈ (buildTree call table root).members,
    ∀ lower ∈ (buildTree call table root).members, 1 < upper.pid → 1 < lower.pid →
      Outside table root upper → Outside table root lower → table.Below upper.pid lower.pid →
        upper.depth < lower.depth ∨ upper.depth = lower.depth ∧
          [lower, upper].Sublist (buildTree call table root).members

/-! ## The SIGTERM round -/

section Round

variable {self : Pid} {w : Nat → Host}

/-- What some members add to the round and to the log. -/
structure TermStep (members : List TreeMember) (round round' : TermRound)
    (before after : List ReapEvent) : Prop where
  sent : ∃ sent, round'.signalled = round.signalled ++ sent ∧
    sent.Sublist (members.map (·.pid)) ∧
      ∀ pid ∈ sent, ∃ inc, .signalled pid .sigterm (some inc) ∈ after
  counts : round'.signalled.length + round'.alreadyGone + round'.refused =
    round.signalled.length + round.alreadyGone + round.refused + members.length
  tried : ∃ tried, signalsSent .sigterm after = signalsSent .sigterm before ++ tried ∧
    tried.Sublist (members.map (·.pid)) ∧ ∀ pid ∈ tried, 1 < pid
  kills : signalsSent .sigkill after = signalsSent .sigkill before
  grows : before <:+ after

theorem TermStep.nil (round : TermRound) (log : List ReapEvent) :
    TermStep [] round round log log where
  sent := ⟨[], by simp, List.nil_sublist _, nofun⟩
  counts := rfl
  tried := ⟨[], by simp, List.nil_sublist _, nofun⟩
  kills := rfl
  grows := List.suffix_refl _

theorem TermStep.cons {member : TreeMember} {members : List TreeMember}
    {round round' round'' : TermRound} {before mid after : List ReapEvent}
    (h : TermStep [member] round round' before mid)
    (h' : TermStep members round' round'' mid after) :
    TermStep (member :: members) round round'' before after := by
  obtain ⟨sent, hsignalled, hsent, hdelivered⟩ := h.sent
  obtain ⟨sent', hsignalled', hsent', hdelivered'⟩ := h'.sent
  obtain ⟨tried, hsigterm, htried, hlow⟩ := h.tried
  obtain ⟨tried', hsigterm', htried', hlow'⟩ := h'.tried
  refine ⟨⟨sent ++ sent', ?_, hsent.append hsent', ?_⟩, ?_, ⟨tried ++ tried', ?_,
    htried.append htried', ?_⟩, h'.kills.trans h.kills, h.grows.trans h'.grows⟩
  · rw [hsignalled', hsignalled, List.append_assoc]
  · intro pid hpid
    rcases List.mem_append.mp hpid with hpid | hpid
    · obtain ⟨inc, hinc⟩ := hdelivered pid hpid
      exact ⟨inc, h'.grows.subset hinc⟩
    · exact hdelivered' pid hpid
  · have hone := h.counts
    have hmore := h'.counts
    rw [List.length_singleton] at hone
    rw [List.length_cons]
    omega
  · rw [hsigterm', hsigterm, List.append_assoc]
  · intro pid hpid
    rcases List.mem_append.mp hpid with hpid | hpid
    · exact hlow pid hpid
    · exact hlow' pid hpid

/-- **One member.** -/
theorem termMember_step (round : TermRound) (member : TreeMember) (s : Progress ReapEvent) :
    TermStep [member] round (termMember self round member w s).1 s.log
      (termMember self round member w s).2.log := by
  unfold termMember
  by_cases hreserved : member.pid ≤ 1 ∨ member.pid = self
  · rw [if_pos hreserved, pure_run]
    exact ⟨⟨[], by simp, List.nil_sublist _, nofun⟩, by simp [Nat.add_assoc],
      ⟨[], by simp, List.nil_sublist _, nofun⟩, rfl, List.suffix_refl _⟩
  have hlow : 1 < member.pid := not_le.mp fun hle => hreserved (Or.inl hle)
  rw [if_neg hreserved, bind_run]
  obtain ⟨halive, -, found, hlog⟩ := pidIsAlive_run .beforeTerm member.pid w s
  set probed := pidIsAlive .beforeTerm member.pid w s
  have hprobed : ∀ signal, signalsSent signal probed.2.log = signalsSent signal s.log := by
    intro signal
    rw [hlog]
    rfl
  have hgrows : s.log <:+ probed.2.log := hlog ▸ List.suffix_cons _ _
  cases probed.1 with
  | false =>
    exact ⟨⟨[], by simp [pure_run], List.nil_sublist _, nofun⟩,
      by simp [pure_run, Nat.add_assoc, Nat.add_comm, Nat.add_left_comm],
      ⟨[], by simp [pure_run, hprobed], List.nil_sublist _, nofun⟩, hprobed _, hgrows⟩
  | true =>
    rw [if_neg (by simp), bind_run]
    -- the SIGTERM stands in the log, delivered or not
    have hkill : ∀ reached, signalsSent .sigterm
        (.signalled member.pid .sigterm reached :: probed.2.log) =
          signalsSent .sigterm s.log ++ [member.pid] := fun reached => by
      rw [signalsSent, if_pos rfl, hprobed]
    have hother : ∀ reached, signalsSent .sigkill
        (.signalled member.pid .sigterm reached :: probed.2.log) =
          signalsSent .sigkill s.log := fun reached => by
      rw [signalsSent, if_neg nofun, hprobed]
    cases hanswer : (w probed.2.now).killAnswer member.pid with
    | none =>
      obtain ⟨inc, hinc⟩ := Host.starttimeOf_of_delivered hanswer
      have hrun : kill member.pid .sigterm w probed.2 = (none,
          ⟨probed.2.now + 1, .signalled member.pid .sigterm (some inc) :: probed.2.log⟩) := by
        simp [kill, act, hanswer, hinc]
      rw [hrun]
      refine ⟨⟨[member.pid], rfl, List.Sublist.refl _, ?_⟩, ?_, ⟨[member.pid], hkill _,
        List.Sublist.refl _, by simpa using hlow⟩, hother _, hgrows.trans (List.suffix_cons _ _)⟩
      · intro pid hpid
        obtain rfl := List.mem_singleton.mp hpid
        exact ⟨inc, List.mem_cons_self⟩
      · simp only [pure_run, List.length_append, List.length_singleton]
        omega
    | some e =>
      have hrun : kill member.pid .sigterm w probed.2 = (some e,
          ⟨probed.2.now + 1, .signalled member.pid .sigterm none :: probed.2.log⟩) := by
        simp [kill, act, hanswer]
      rw [hrun]
      have htried : ∃ tried, signalsSent .sigterm
          (.signalled member.pid .sigterm none :: probed.2.log) =
            signalsSent .sigterm s.log ++ tried ∧
          tried.Sublist ([member].map (·.pid)) ∧ ∀ pid ∈ tried, 1 < pid :=
        ⟨[member.pid], hkill _, List.Sublist.refl _, by simpa using hlow⟩
      have hlonger : s.log <:+ .signalled member.pid .sigterm none :: probed.2.log :=
        hgrows.trans (List.suffix_cons _ _)
      cases e with
      | esrch =>
        refine ⟨⟨[], by simp [pure_run], List.nil_sublist _, nofun⟩, ?_, htried, hother _, hlonger⟩
        simp only [pure_run, List.length_singleton]
        omega
      | eperm | other =>
        refine ⟨⟨[], by simp [pure_run], List.nil_sublist _, nofun⟩, ?_, htried, hother _, hlonger⟩
        simp only [pure_run, List.length_singleton]
        omega

/-- **All members.** -/
theorem termMembers_step : ∀ (members : List TreeMember) (round : TermRound)
    (s : Progress ReapEvent),
    TermStep members round (members.foldlM (termMember self) round w s).1 s.log
      (members.foldlM (termMember self) round w s).2.log
  | [], round, s => TermStep.nil round s.log
  | member :: members, round, s => by
    rw [List.foldlM_cons, bind_run]
    exact (termMember_step round member s).cons (termMembers_step members _ _)

end Round

/-! ## The grace periods -/

section Grace

variable {w : Nat → Host}

/-- What is left of a list of pids after some probes. -/
structure Outlives (stage : ProbeStage) (w : Nat → Host) (pending left : List Pid)
    (before after : List ReapEvent) : Prop where
  sub : left.Sublist pending
  quiet : ∀ signal, signalsSent signal after = signalsSent signal before
  grows : before <:+ after
  alive : ∀ pid ∈ left, ∃ k, ProbedAlive w pid k ∧
    .probed pid stage ((w (k + 1)).starttimeOf pid) ∈ after

/-- What a probe that answers "alive" leaves behind. -/
theorem pidIsAlive_found {stage : ProbeStage} {pid : Pid} {s : Progress ReapEvent}
    (h : ProbedAlive w pid s.now) : (pidIsAlive stage pid w s).2.log =
      .probed pid stage ((w (s.now + 1)).starttimeOf pid) :: s.log := by
  unfold pidIsAlive
  simp [bind_run, act, h.1]

theorem retain_outlives (stage : ProbeStage) : ∀ (pending : List Pid) (s : Progress ReapEvent),
    Outlives stage w pending (retain (pidIsAlive stage) pending w s).1 s.log
      (retain (pidIsAlive stage) pending w s).2.log
  | [], s => ⟨List.Sublist.refl _, fun _ => rfl, List.suffix_refl _, nofun⟩
  | pid :: pending, s => by
    obtain ⟨halive, -, found, hlog⟩ := pidIsAlive_run stage pid w s
    have hrest := retain_outlives stage pending (pidIsAlive stage pid w s).2
    have hrun : retain (pidIsAlive stage) (pid :: pending) w s =
        (if (pidIsAlive stage pid w s).1 then
            pid :: (retain (pidIsAlive stage) pending w (pidIsAlive stage pid w s).2).1
          else (retain (pidIsAlive stage) pending w (pidIsAlive stage pid w s).2).1,
          (retain (pidIsAlive stage) pending w (pidIsAlive stage pid w s).2).2) := rfl
    rw [hrun]
    have hquiet : ∀ signal, signalsSent signal (pidIsAlive stage pid w s).2.log =
        signalsSent signal s.log := fun signal => by
      rw [hlog]
      rfl
    have hgrows : s.log <:+ (pidIsAlive stage pid w s).2.log := hlog ▸ List.suffix_cons _ _
    refine ⟨?_, fun signal => (hrest.quiet signal).trans (hquiet signal),
      hgrows.trans hrest.grows, ?_⟩
    · split
      · exact hrest.sub.cons_cons pid
      · exact hrest.sub.cons pid
    · intro p hp
      split at hp
      · next hkeep =>
        rcases List.mem_cons.mp hp with rfl | hp
        · have hprobed := halive.mp hkeep
          refine ⟨s.now, hprobed, hrest.grows.subset ?_⟩
          rw [pidIsAlive_found hprobed]
          exact List.mem_cons_self
        · exact hrest.alive p hp
      · exact hrest.alive p hp

/-- **A grace period**: what is left was found alive by every poll. -/
theorem pollRounds_outlives (stage : Nat → ProbeStage) : ∀ (polls : List Nat) (pending : List Pid)
    (s : Progress ReapEvent),
    let run := pollRounds stage polls pending w s
    run.1.Sublist pending ∧
      (∀ signal, signalsSent signal run.2.log = signalsSent signal s.log) ∧ s.log <:+ run.2.log ∧
      ∀ pid ∈ run.1, ∀ i ∈ polls, ∃ k, ProbedAlive w pid k ∧
        .probed pid (stage i) ((w (k + 1)).starttimeOf pid) ∈ run.2.log
  | [], pending, s => ⟨List.Sublist.refl _, fun _ => rfl, List.suffix_refl _, nofun⟩
  | i :: polls, pending, s => by
    intro run
    by_cases hnone : pending = []
    · have hrun : run = (pending, s) := by
        show pollRounds stage (i :: polls) pending w s = _
        rw [pollRounds, if_pos hnone, pure_run]
      rw [hrun]
      refine ⟨List.Sublist.refl _, fun _ => rfl, List.suffix_refl _, ?_⟩
      subst hnone
      exact nofun
    have hround := retain_outlives (w := w) (stage i) pending s
    set round := retain (pidIsAlive (stage i)) pending w s with hset
    by_cases hgone : round.1 = []
    · have hrun : run = (round.1, round.2) := by
        show pollRounds stage (i :: polls) pending w s = _
        rw [pollRounds, if_neg hnone, bind_run, ← hset, if_pos hgone, pure_run]
      rw [hrun]
      refine ⟨hround.sub, hround.quiet, hround.grows, ?_⟩
      rw [hgone]
      exact nofun
    · have hrun : run = pollRounds stage polls round.1 w { round.2 with now := round.2.now + 1 } := by
        show pollRounds stage (i :: polls) pending w s = _
        rw [pollRounds, if_neg hnone, bind_run, ← hset, if_neg hgone, bind_run]
        rfl
      obtain ⟨hsub, hquiet, hgrows, halive⟩ := pollRounds_outlives stage polls round.1
        { round.2 with now := round.2.now + 1 }
      rw [hrun]
      refine ⟨hsub.trans hround.sub, fun signal => (hquiet signal).trans (hround.quiet signal),
        hround.grows.trans hgrows, fun pid hpid j hj => ?_⟩
      rcases List.mem_cons.mp hj with rfl | hj
      · obtain ⟨k, hprobed, hlog⟩ := hround.alive pid (hsub.subset hpid)
        exact ⟨k, hprobed, hgrows.subset hlog⟩
      · exact halive pid hpid j hj

/-- The SIGKILLs go to all that are pending. -/
theorem killMembers_sent : ∀ (pending : List Pid) (escalated : Bool) (s : Progress ReapEvent),
    let run := pending.foldlM killMember escalated w s
    signalsSent .sigkill run.2.log = signalsSent .sigkill s.log ++ pending ∧
      signalsSent .sigterm run.2.log = signalsSent .sigterm s.log ∧ s.log <:+ run.2.log
  | [], _, s => ⟨(List.append_nil _).symm, rfl, List.suffix_refl _⟩
  | pid :: pending, escalated, s => by
    intro run
    have hrun : run = (pending.foldlM killMember (killMember escalated pid w s).1) w
        (killMember escalated pid w s).2 := by
      show (pid :: pending).foldlM killMember escalated w s = _
      rw [List.foldlM_cons, bind_run]
    have hlog : ∃ reached, (killMember escalated pid w s).2.log =
        .signalled pid .sigkill reached :: s.log := ⟨_, rfl⟩
    obtain ⟨reached, hlog⟩ := hlog
    obtain ⟨hkills, hterms, hgrows⟩ :=
      killMembers_sent pending (killMember escalated pid w s).1 (killMember escalated pid w s).2
    rw [hrun]
    rw [hlog] at hkills hterms hgrows
    refine ⟨?_, hterms, (List.suffix_cons _ _).trans hgrows⟩
    rw [hkills, signalsSent, if_pos rfl, List.append_assoc, List.singleton_append]

end Grace

/-! ## One run -/

section Run

variable {self : Pid} {w : Nat → Host} {n : Nat}

/-- What a run on any members sends and counts. -/
theorem terminateTree_run (members : List TreeMember) :
    let log := recorded (terminateTree self members) w n
    let r := (terminateTree self members w { now := n }).1
    ((signalsSent .sigterm log).Sublist (members.map (·.pid)) ∧
      ∀ pid ∈ signalsSent .sigterm log, 1 < pid) ∧
    (signalsSent .sigkill log).Sublist (members.map (·.pid)) ∧
    (∀ pid ∈ signalsSent .sigkill log, (∃ inc, .signalled pid .sigterm (some inc) ∈ log) ∧
      ∀ i < termGracePolls, AliveAtPoll w log pid i) ∧
    r.membersEnded + r.membersLeft + r.alreadyGone + r.refused = members.length := by
  intro log r
  -- the four parts of the run
  set round := members.foldlM (termMember self) {} w { now := n } with hround
  set grace := pollRounds .termPoll (List.range termGracePolls) round.1.signalled w round.2
    with hgrace
  set kills := grace.1.foldlM killMember false w grace.2 with hkills
  set after := pollRounds .killPoll (List.range killGracePolls) grace.1 w kills.2 with hafter
  have hlog : log = after.2.log := rfl
  have hr : r = { membersEnded := round.1.signalled.length - after.1.length
                  membersLeft := after.1.length
                  alreadyGone := round.1.alreadyGone
                  refused := round.1.refused
                  escalatedToSigkill := kills.1 } := rfl
  have hterm : TermStep members {} round.1 [] round.2.log := termMembers_step members {} { now := n }
  obtain ⟨sent, hsignalled, hsent, hdelivered⟩ := hterm.sent
  obtain ⟨tried, hsigterm, htried, hlow⟩ := hterm.tried
  have hsignalled' : round.1.signalled = sent := hsignalled
  have hsigterm' : signalsSent .sigterm round.2.log = tried := hsigterm
  obtain ⟨hpending, hquiet, hgrows, halive⟩ :=
    pollRounds_outlives (w := w) .termPoll (List.range termGracePolls) round.1.signalled round.2
  obtain ⟨hkilled, hsame, hlonger⟩ := killMembers_sent (w := w) grace.1 false grace.2
  obtain ⟨hleft, hstill, hmore, -⟩ :=
    pollRounds_outlives (w := w) .killPoll (List.range killGracePolls) grace.1 kills.2
  have hterms : signalsSent .sigterm log = tried := by
    rw [hlog, hstill, hsame, hquiet, hsigterm']
  have hkilledAll : signalsSent .sigkill log = grace.1 := by
    rw [hlog, hstill, hkilled, hquiet, hterm.kills]
    rfl
  have hsub : grace.1.Sublist sent := hsignalled' ▸ hpending
  refine ⟨?_, ?_, ?_, ?_⟩
  · rw [hterms]
    exact ⟨htried, hlow⟩
  · rw [hkilledAll]
    exact hsub.trans hsent
  · intro pid hpid
    rw [hkilledAll] at hpid
    obtain ⟨inc, hinc⟩ := hdelivered pid (hsub.subset hpid)
    have hlater : round.2.log <:+ log := hgrows.trans (hlonger.trans hmore)
    refine ⟨⟨inc, hlater.subset hinc⟩, fun i hi => ?_⟩
    obtain ⟨k, hprobed, hpoll⟩ := halive pid hpid i (List.mem_range.mpr hi)
    exact ⟨k, hprobed, (hlonger.trans hmore).subset hpoll⟩
  · have hcounts := hterm.counts
    have hfew : after.1.length ≤ round.1.signalled.length :=
      hleft.length_le.trans hpending.length_le
    rw [hr]
    dsimp only at hcounts ⊢
    simp only [List.length_nil] at hcounts
    omega

end Run

/-! ## Main result -/

section Law

variable {call : ScanCall} {table : ReapTable} {root : ProcEntry}

/-- Below the root it goes down, as long as no member is above the root. -/
theorem depth_lt_of_below {a b : TreeMember} (hback : ¬ table.Below a.pid root.pid)
    (hne : a.pid ≠ root.pid) (ha : a.place ∈ table.descendants root.pid)
    (hb : b.place ∈ table.descendants root.pid) (hbelow : table.Below a.pid b.pid) :
    a.depth < b.depth := by
  have hway : Relation.TransGen (BreadthFirst.Edge table.children) a.pid b.pid := by
    rcases Relation.reflTransGen_iff_eq_or_transGen.mp hbelow.2 with heq | hway
    · exact absurd heq hbelow.1
    · exact hway
  exact BreadthFirst.depth_lt ReapTable.nodup_children
    (fun _ _ _ => ReapTable.parent_unique) ha hb hway fun hreach => hback ⟨hne.symm, hreach⟩

/-- In a graded tree, what is below a member is deeper, or as deep and before it in the list. -/
theorem Graded.before (h : Graded call table root) {a b : TreeMember}
    (ha : a ∈ (buildTree call table root).members) (hb : b ∈ (buildTree call table root).members)
    (halow : 1 < a.pid) (hblow : 1 < b.pid) (hbelow : table.Below a.pid b.pid) :
    a.depth < b.depth ∨ a.depth = b.depth ∧
      [b, a].Sublist (buildTree call table root).members := by
  have htop := h.root_on_top a ha halow
  have hbroot : b.pid ≠ root.pid := fun heq => htop (heq ▸ hbelow)
  rcases member_cases ha with ⟨haroot, hzero⟩ | ⟨haway, haplace⟩ | ⟨haout, -⟩
  · rcases member_cases hb with ⟨hbroot', -⟩ | ⟨-, hbplace⟩ | ⟨hbout, hdeep⟩
    · exact absurd hbroot' hbroot
    · obtain ⟨p, k, -, hdepth, -⟩ := BreadthFirst.parent_of_mem_search hbplace
      exact Or.inl (by omega)
    · exact Or.inl (by omega)
  · have hbway : table.Below root.pid b.pid := ⟨hbroot, haway.2.trans hbelow.2⟩
    rcases member_cases hb with ⟨hbroot', -⟩ | ⟨-, hbplace⟩ | ⟨hbout, -⟩
    · exact absurd hbroot' hbroot
    · exact Or.inl (depth_lt_of_below htop haway.1 haplace hbplace hbelow)
    · exact absurd hbway hbout.2
  · rcases member_cases hb with ⟨hbroot', -⟩ | ⟨hbway, -⟩ | ⟨hbout, -⟩
    · exact absurd hbroot' hbroot
    · -- the root would be below `a`, or `a` below the root
      rcases hbway.nested hbelow haout.1.symm with hdown | hup
      · exact absurd hdown haout.2
      · exact absurd hup htop
    · exact h.handlers a ha b hb halow hblow haout hbout hbelow

/-- A graded tree is ended deepest first. -/
theorem Graded.ends (h : Graded call table root) : TreeEndsDeepestFirst call table root := by
  intro verified hverified self w n
  obtain ⟨⟨hterms, hlow⟩, hkillsub, hkills, hcounts⟩ :=
    @terminateTree_run self w n (deepestFirst verified)
  have hnodup : (verified.map (·.pid)).Nodup := nodup_members.sublist (hverified.map _)
  have hperm : ((deepestFirst verified).map (·.pid)).Perm (verified.map (·.pid)) :=
    (List.mergeSort_perm verified _).map _
  have hsorted : ((deepestFirst verified).map (·.pid)).Nodup := hperm.nodup_iff.mpr hnodup
  refine ⟨?_, ?_, ?_, hkills, ?_⟩
  · -- a pair out of order would be one of the sorted members
    rw [List.pairwise_iff_forall_sublist]
    intro first later hpair hbelow
    obtain ⟨pair, hsub, hpids⟩ := List.sublist_map_iff.mp (hpair.trans hterms)
    obtain ⟨a, b, rfl⟩ : ∃ a b, pair = [a, b] := by
      have htwo : pair.length = 2 := by simpa using (congrArg List.length hpids).symm
      exact List.length_eq_two.mp htwo
    simp only [List.map_cons, List.map_nil, List.cons.injEq, and_true] at hpids
    obtain ⟨rfl, rfl⟩ := hpids
    have ha : a ∈ verified := List.mem_mergeSort.mp (hsub.subset (by simp))
    have hb : b ∈ verified := List.mem_mergeSort.mp (hsub.subset (by simp))
    have hne : a ≠ b := fun heq => hbelow.1 (congrArg TreeMember.pid heq.symm)
    have horder := h.before (hverified.subset ha) (hverified.subset hb)
      (hlow _ (hpair.subset (by simp))) (hlow _ (hpair.subset (by simp))) hbelow
    rcases (pair_deepestFirst_iff (nodup_of_pids hnodup) ha hb hne).mp hsub with hlt | ⟨heq, hab⟩
    · rcases horder with hlt' | ⟨heq', -⟩ <;> omega
    · rcases horder with hlt' | ⟨-, hba⟩
      · omega
      · exact pair_sublist_asymm (nodup_of_pids nodup_members) hba (hab.trans hverified)
  · rintro (_ | _)
    · exact hsorted.sublist hterms
    · exact hsorted.sublist hkillsub
  · rintro (_ | _) pid hpid
    · exact hperm.mem_iff.mp (hterms.subset hpid)
    · exact hperm.mem_iff.mp (hkillsub.subset hpid)
  · rintro r rfl
    rw [hcounts]
    exact List.length_mergeSort verified

/-! ### A tree that is not graded -/

theorem mem_signalsSent {signal : Signal} {pid : Pid} {reached : Option Nat} :
    ∀ {log : List ReapEvent}, .signalled pid signal reached ∈ log → pid ∈ signalsSent signal log
  | .signalled p s r :: past, h => by
    rw [signalsSent]
    rcases List.mem_cons.mp h with heq | h
    · cases heq
      rw [if_pos rfl]
      exact List.mem_append_right _ (List.mem_singleton_self _)
    · have hpast := mem_signalsSent h
      split
      · exact List.mem_append_left _ hpast
      · exact hpast
  | .accepted _ _ :: past, h => by
    show pid ∈ signalsSent signal past
    exact mem_signalsSent ((List.mem_cons.mp h).resolve_left nofun)
  | .probed _ _ _ :: past, h => by
    show pid ∈ signalsSent signal past
    exact mem_signalsSent ((List.mem_cons.mp h).resolve_left nofun)

/-- Every pid is somebody's who takes signals. -/
def everybody : Host where
  holder _ := some { starttime := 0, files := {}, honest := nofun }

theorem everybody_takes (pid : Pid) : everybody.Takes pid 0 := ⟨rfl, nofun, rfl⟩

/-- Two members that are sorted the wrong way round are signalled the wrong way round. -/
theorem not_ends_of_pair {a b : TreeMember}
    (hpair : [a, b].Sublist (deepestFirst (buildTree call table root).members))
    (ha : 1 < a.pid) (hb : 1 < b.pid) (hbelow : table.Below a.pid b.pid) :
    ¬ TreeEndsDeepestFirst call table root := by
  intro h
  have horder := (h _ (List.Sublist.refl _) 0 (fun _ => everybody) 0).order
  obtain ⟨⟨hterms, -⟩, -⟩ := @terminateTree_run 0 (fun _ => everybody) 0
    (deepestFirst (buildTree call table root).members)
  set sent := signalsSent .sigterm (recorded (terminateTree 0
    (deepestFirst (buildTree call table root).members)) (fun _ => everybody) 0)
  have hperm : ((deepestFirst (buildTree call table root).members).map (·.pid)).Perm
      ((buildTree call table root).members.map (·.pid)) := (List.mergeSort_perm _ _).map _
  have hnodup := hperm.nodup_iff.mpr nodup_members
  have hreached : ∀ m ∈ [a, b], 1 < m.pid → m.pid ∈ sent := fun m hm hlow =>
    mem_signalsSent (terminateTree_reaches (hpair.subset hm) hlow
      (ne_of_gt (lt_trans Int.one_pos hlow)) { now := 0 } fun k _ => everybody_takes m.pid)
  have hpids : [a.pid, b.pid].Sublist
      ((deepestFirst (buildTree call table root).members).map (·.pid)) :=
    hpair.map TreeMember.pid
  have hab : [a.pid, b.pid].Sublist sent := by
    refine (pair_sublist_or (hreached a (by simp) ha) (hreached b (by simp) hb)
      hbelow.1.symm).resolve_right fun hba => ?_
    exact pair_sublist_asymm hnodup hpids (hba.trans hterms)
  have hpairwise := List.Pairwise.sublist hab horder
  exact (List.pairwise_pair.mp hpairwise) hbelow

theorem graded_of_ends (hroot : 1 < root.pid) (h : TreeEndsDeepestFirst call table root) :
    Graded call table root := by
  have hnodup : (buildTree call table root).members.Nodup := nodup_of_pids nodup_members
  constructor
  · intro m hm hlow hbelow
    obtain ⟨rest, hrest⟩ := @root_first call table root
    set top := treeMember call root.pid root 0 "root"
    have htop : top ∈ (buildTree call table root).members := hrest ▸ List.mem_cons_self
    have hdeep : 0 < m.depth := by
      rcases member_cases hm with ⟨heq, -⟩ | ⟨-, hplace⟩ | ⟨-, hdeep⟩
      · exact absurd heq.symm hbelow.1
      · obtain ⟨p, k, -, hdepth, -⟩ := BreadthFirst.parent_of_mem_search hplace
        omega
      · exact hdeep
    have hne : m ≠ top := fun heq => hbelow.1 (congrArg TreeMember.pid heq).symm
    have hpair := (pair_deepestFirst_iff hnodup hm htop hne).mpr (Or.inl hdeep)
    exact not_ends_of_pair hpair hlow hroot hbelow h
  · intro upper hupper lower hlower hlow hlow' _ _ hbelow
    by_contra hnot
    rw [not_or, not_lt, not_and] at hnot
    have hne : upper ≠ lower := fun heq => hbelow.1 (congrArg TreeMember.pid heq).symm
    refine not_ends_of_pair ((pair_deepestFirst_iff hnodup hupper hlower hne).mpr ?_) hlow hlow'
      hbelow h
    rcases Nat.lt_or_eq_of_le hnot.1 with hlt | heq
    · exact Or.inl hlt
    · refine Or.inr ⟨heq.symm, (pair_sublist_or hupper hlower hne).resolve_right ?_⟩
      exact hnot.2 heq.symm

/-- **A tree is ended deepest first**, in every run and whichever of its members are left, exactly
when it is graded. The scan builds no tree on pid 1. -/
theorem endsDeepestFirst_iff (call : ScanCall) (table : ReapTable) (root : ProcEntry)
    (hroot : 1 < root.pid) : TreeEndsDeepestFirst call table root ↔ Graded call table root :=
  ⟨graded_of_ends hroot, Graded.ends⟩

end Law

/-! ## A number from inside a container -/

section Container

private def containerRoot : ProcEntry :=
  { pid := 5001, ppid := 5000, starttime := 30, args := "chrome --headless", exe := "chrome" }

/-- A test browser in a container. Its child names a handler by the number it has inside, which is
that of the container's monitor outside. -/
private def containerTable : ReapTable where
  entries := [
    { pid := 4000, ppid := 1, starttime := 10, args := "conmon", exe := "conmon" },
    { pid := 5000, ppid := 4000, starttime := 20, args := "/sbin/init", exe := "systemd" },
    containerRoot,
    { pid := 5002, ppid := 5001, starttime := 31, args := "chrome --crashpad-handler-pid=4000"
      exe := "chrome" }]
  nodup := by decide

private def initProcess : PidHolder where
  starttime := 0
  files := { comm := some "systemd\n", cmdline := some "/sbin/init\x00" }
  honest := nofun

private def containerHost : Host where
  holder pid := if pid = 1 ∨ pid = 5000 then some initProcess else everybody.holder pid

private def containerScan : ScanCall where
  self := 1000
  look _ := containerHost
  policy := { signatures := [], exemptNames := ["systemd"], forgottenFootprintMb := 0
              forgottenTreeFootprintMb := 0 }
  bootTime := 0
  now := 100000
  ticksPerSec := 100
  perProcessFloorMb := 0
  treeFloorMb := 0

/-- The monitor is above the root, and it is signalled before it. -/
theorem container_monitor_first :
    ¬ TreeEndsDeepestFirst containerScan containerTable containerRoot := by
  intro h
  have hmember : ∃ m ∈ (buildTree containerScan containerTable containerRoot).members,
      m.pid = 4000 := by decide +kernel
  obtain ⟨m, hm, hpid⟩ := hmember
  have hinit : BreadthFirst.Edge containerTable.children 4000 5000 := by
    unfold BreadthFirst.Edge
    decide
  have hbrowser : BreadthFirst.Edge containerTable.children 5000 5001 := by
    unfold BreadthFirst.Edge
    decide
  have hbelow : containerTable.Below m.pid containerRoot.pid := by
    rw [hpid]
    exact ⟨by decide, .head hinit (.single hbrowser)⟩
  have hlow : 1 < m.pid := by
    rw [hpid]
    decide
  exact (graded_of_ends (by decide) h).root_on_top m hm hlow hbelow

theorem endsDeepestFirst_iff_container :
    1 < containerRoot.pid ∧ (TreeEndsDeepestFirst containerScan containerTable containerRoot ↔
      Graded containerScan containerTable containerRoot) :=
  ⟨by decide, endsDeepestFirst_iff containerScan containerTable containerRoot (by decide)⟩

end Container

end DraconGuard
