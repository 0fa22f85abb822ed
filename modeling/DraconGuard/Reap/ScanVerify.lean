import DraconGuard.Reap.KillExempt
import DraconGuard.Reap.Scans
import DraconGuard.Reap.TreeOrder

/-!
# Scan and verification

Between scan and verification nothing changes (`StandStill`). A verification then refuses what its
scan found only where the two ask different questions, and there is one place where they do: the
scan admits an exempt process to a tree when it runs the executable of a root that is a browser
(`browser_family_member`, forgotten.rs:490), the verification passes the exemption over when the
process has a browser on its **own command line** (reap.rs:943). **`agree_iff`**: the scans and
their verifications agree exactly when every exempt member that is alive names a browser itself,
and the living alone are as heavy as the floors ask.
-/

namespace DraconGuard

open Watch

/-- `/proc` as all three scans and all three verifications find it, the guard's policy and its
clock. The floors of the policy are those of the scan. -/
structure StandStill where
  host : Host
  listing : List Pid
  nodup : listing.Nodup
  self : Pid
  policy : ReapPolicy
  clock : ScanClock

namespace StandStill

variable (still : StandStill)

def call : ScanCall where
  self := still.self
  look _ := still.host
  policy := still.policy
  bootTime := still.clock.bootTime
  now := still.clock.now
  ticksPerSec := still.clock.ticksPerSec
  perProcessFloorMb := still.policy.forgottenFootprintMb
  treeFloorMb := still.policy.forgottenTreeFootprintMb

def table : ReapTable := readProcTable still.listing still.nodup still.host.files

def candidates : List ForgottenTree := (scanForgottenOrphanTrees still.call still.table).candidates

/-- A zombie, as `pid_is_alive` reads its `stat`. -/
def zombie (pid : Pid) : Bool := (still.host.files pid).stat.any deadState

/-- The members that are not zombies. -/
def living (tree : ForgottenTree) : List TreeMember :=
  tree.members.filter fun m => !still.zombie m.pid

/-- The verification accepts the tree with all its living members. -/
def Accepts (tree : ForgottenTree) : Prop :=
  ∃ verified, answer still.host (verifyForgottenTreeForReap tree still.policy
      still.clock.ticksPerSec : Reaping (Option VerifiedTree)) = some verified ∧
    verified.members = still.living tree

/-- **No verification refuses what its scan found.** -/
structure Agree : Prop where
  stale : ∀ c ∈ answer still.host (scanReapCandidates still.policy still.clock still.listing :
    Reaping (List ReapCandidate)), 1 < c.pid → c.pid ≠ still.self →
      answer still.host (verifyCandidateForReap still.self c still.policy
        still.clock.ticksPerSec : Reaping Bool) = true
  orphans : ∀ c ∈ answer still.host (scanPressureOrphans still.self still.policy still.clock
    still.listing : Reaping (List ReapCandidate)),
      answer still.host (verifyOrphanForReap still.self c still.policy
        still.clock.ticksPerSec : Reaping Bool) = true
  trees : ∀ tree ∈ still.candidates, still.Accepts tree

/-- Every living member that is exempt names a browser on its own command line, and the living
are heavy. -/
structure Clear (tree : ForgottenTree) : Prop where
  named : ∀ m ∈ still.living tree,
    matchesExempt (still.host.exeName m.pid) still.policy.exemptNames = true →
      still.host.passedOver m.pid = true
  heavy : let weight := answer still.host (measureTreeFootprint tree.rootPid (still.living tree) :
      Reaping (Nat × Nat))
    still.policy.forgottenTreeFootprintMb ≤ weight.2 ∨ still.policy.forgottenFootprintMb ≤ weight.1

end StandStill

/-! ## What the table says -/

/-- An entry is what the files of its pid read as. -/
theorem of_mem_readProcTable {listing : List Pid} {hlisting : listing.Nodup}
    {files : Pid → PidFiles} {e : ProcEntry}
    (h : e ∈ (readProcTable listing hlisting files).entries) :
    ∃ fields raw, (files e.pid).stat.bind parseStat = some fields ∧
      (files e.pid).cmdline = some raw ∧ e.ppid = fields.ppid ∧ e.state = fields.state ∧
        e.ttyNr = fields.ttyNr ∧ e.cpuTicks = fields.cpuTicks ∧ e.starttime = fields.starttime ∧
          e.args = cmdlineArgs raw := by
  obtain ⟨pid, -, hread⟩ := List.mem_filterMap.mp h
  have hpid := pid_of_readProcEntry hread
  unfold readProcEntry at hread
  simp only [Option.bind_eq_bind, Option.bind_eq_some_iff] at hread
  obtain ⟨stat, hstat, fields, hfields, raw, hraw, he⟩ := hread
  split at he
  · cases he
  · obtain rfl := Option.some.inj he
    exact ⟨fields, raw, by simp [hstat, hfields], hraw, rfl, rfl, rfl, rfl, rfl, rfl⟩

section Members

variable {call : ScanCall} {table : ReapTable} {root : ProcEntry}

/-- A member is an entry of the table under its start time. -/
theorem entry_of_member (hroot : root ∈ table.entries) {m : TreeMember}
    (hm : m ∈ (buildTree call table root).members) :
    ∃ e ∈ table.entries, e.pid = m.pid ∧ e.starttime = m.starttime := by
  let FromTable : List TreeMember → Prop := fun ms =>
    ∀ m ∈ ms, ∃ e ∈ table.entries, e.pid = m.pid ∧ e.starttime = m.starttime
  have hadd : ∀ {ms : List TreeMember} {e : ProcEntry} {pid : Pid} (depth : Nat) (role : String),
      FromTable ms → table.get pid = some e →
        FromTable (ms ++ [treeMember call root.pid e depth role]) := by
    intro ms e pid depth role hms hget m hm
    rcases List.mem_append.mp hm with hm | hm
    · exact hms m hm
    · obtain rfl := List.mem_singleton.mp hm
      exact ⟨e, (ReapTable.get_eq_some_iff.mp hget).1, rfl, rfl⟩
  have hstart : FromTable [treeMember call root.pid root 0 "root"] := by
    intro m hm
    obtain rfl := List.mem_singleton.mp hm
    exact ⟨root, hroot, rfl, rfl⟩
  have hown : FromTable ((table.descendants root.pid).foldl (addDescendant call table root)
      [treeMember call root.pid root 0 "root"]) := by
    refine List.foldlRecOn (motive := FromTable) _ _ hstart fun ms hms item _ => ?_
    obtain ⟨pid, depth⟩ := item
    unfold addDescendant
    dsimp only
    cases hget : table.get pid with
    | none => exact hms
    | some e =>
      dsimp only
      split
      · exact hms
      · exact hadd depth _ hms hget
  have hall : FromTable (treeMembers call table root) := by
    refine List.foldlRecOn (motive := FromTable) _ _ hown fun ms hms item _ => ?_
    obtain ⟨pid, depth⟩ := item
    unfold addHandler
    dsimp only
    split
    · exact hms
    · cases hget : table.get pid with
      | none => exact hms
      | some e =>
        dsimp only
        split
        · exact hms
        split
        · exact hms
        · exact hadd depth _ hms hget
  exact hall m hm

end Members

/-- The use of a tree is read from the command line of its root, whatever is recorded beside. -/
theorem treeUsage_congr {ε ε' : Type} {h : Host} {t t' : ForgottenTree}
    (hargs : t.rootArgs = t'.rootArgs) (s : Progress ε) (s' : Progress ε') :
    (treeUsage t (fun _ => h) s).1 = (treeUsage t' (fun _ => h) s').1 := by
  have hport : ∀ (port : Nat) (s : Progress ε) (s' : Progress ε'),
      (portHasLiveClient port (fun _ => h) s).1 = (portHasLiveClient port (fun _ => h) s').1 := by
    intro port s s'
    unfold portHasLiveClient
    rw [bind_run, bind_run, look_run, look_run]
    dsimp only
    split <;> rfl
  have hfound : ∀ (s : Progress ε) (s' : Progress ε'),
      (treeDevtoolsPort t (fun _ => h) s).1 = (treeDevtoolsPort t' (fun _ => h) s').1 := by
    intro s s'
    unfold treeDevtoolsPort devtoolsPortFromProfile
    rw [hargs]
    cases devtoolsPort t'.rootArgs with
    | some port => rfl
    | none => cases extractUserDataDirRaw t'.rootArgs <;> rfl
  unfold treeUsage
  rw [bind_run, bind_run, hfound s s']
  cases (treeDevtoolsPort t' (fun _ => h) s').1 with
  | none => rfl
  | some port =>
    dsimp only
    rw [bind_run, bind_run, hport port _ (treeDevtoolsPort t' (fun _ => h) s').2]
    rfl

namespace StandStill

variable {still : StandStill} {tree : ForgottenTree}

/-! ## A candidate at the verification -/

theorem keeps_eq {e : ProcEntry} (he : e ∈ still.table.entries) {m : TreeMember}
    (hpid : e.pid = m.pid) (hstart : e.starttime = m.starttime) :
    still.host.keeps m = !still.zombie m.pid := by
  obtain ⟨fields, raw, hstat, hcmd, -, -, -, -, hsame, -⟩ := of_mem_readProcTable he
  rw [hpid] at hstat hcmd
  obtain ⟨text, htext, hparse⟩ := Option.bind_eq_some_iff.mp hstat
  have hmember : fields.starttime = m.starttime := hsame.symm.trans hstart
  unfold Host.keeps Host.stat zombie
  rw [hstat, htext, hcmd]
  simp only [deadState, hparse, hmember, Bool.not_or, Option.any_some, Option.isSome_some,
    Option.map_some, beq_self_eq_true, Bool.true_and, Bool.and_true]
  rfl

/-- What the verification keeps of a candidate. -/
theorem ours_eq (htree : tree ∈ still.candidates) : still.host.ours still.policy tree =
    (still.living tree).filter fun m => still.host.passedOver m.pid ||
      !matchesExempt (still.host.exeName m.pid) still.policy.exemptNames := by
  obtain ⟨root, hroot, -, why, shown, -, -, rfl⟩ := of_mem_candidates htree
  unfold Host.ours living
  rw [List.filter_filter]
  refine List.filter_congr fun m hm => ?_
  obtain ⟨e, he, hpid, hstart⟩ := entry_of_member hroot hm
  rw [keeps_eq he hpid hstart, Bool.and_comm]

/-- The checks on the tree as a whole answer as the scan's did; the weight may have changed. -/
theorem ends_iff (htree : tree ∈ still.candidates) :
    (∃ fields raw, still.host.EndsTree still.policy still.clock.ticksPerSec tree fields raw) ↔
      (still.policy.forgottenTreeFootprintMb ≤ (still.host.weight still.policy tree).2 ∨
        still.policy.forgottenFootprintMb ≤ (still.host.weight still.policy tree).1) := by
  constructor
  · rintro ⟨fields, raw, hends⟩
    exact hends.heavy
  intro hheavy
  obtain ⟨root, hroot, horphan, why, shown, htest, hfate, rfl⟩ := of_mem_candidates htree
  obtain ⟨fields, raw, hstat, hcmd, hppid, hstate, htty, hcpu, hstart, hargs⟩ :=
    of_mem_readProcTable hroot
  simp only [isOrphanRoot, Bool.and_eq_true, decide_eq_true_eq, beq_iff_eq] at horphan
  obtain ⟨⟨⟨⟨⟨-, hparent⟩, hnotty⟩, hsleeps⟩, -⟩, hold⟩ := horphan
  rw [hppid] at hparent
  rw [htty] at hnotty
  rw [hstate] at hsleeps
  -- the two readings of the use are one
  have husage : (treeUsage (ε := Empty) (buildTree still.call still.table root)
        (fun n => still.call.look (.usage (buildTree still.call still.table root).rootPid n)) {}).1 =
      answer still.host (treeUsage { buildTree still.call still.table root with
        why := shown } : Reaping Usage) :=
    treeUsage_congr rfl {} {}
  unfold fateByUsage at hfate
  rw [husage] at hfate
  refine ⟨fields, raw, ?_⟩
  exact {
    root := hstat
    same := hstart.symm
    orphan := hparent
    rests := ⟨hnotty, hsleeps⟩
    undriven := fun hdriven => by
      rw [hdriven] at hfate
      cases hfate
    calm := fun hunknown => by
      rw [hunknown] at hfate
      dsimp only at hfate
      split at hfate
      · cases hfate
      · next hbusy =>
        rw [← hcpu]
        exact not_lt.mp hbusy
    old := hold
    cmdline := hcmd
    test := ⟨why, hargs ▸ htest⟩
    heavy := hheavy }

/-- A candidate has its root among its living members. -/
theorem living_ne_nil (htree : tree ∈ still.candidates) : still.living tree ≠ [] := by
  obtain ⟨root, hroot, horphan, why, shown, -, -, rfl⟩ := of_mem_candidates htree
  obtain ⟨fields, raw, hstat, -, -, hstate, -, -, -, -⟩ := of_mem_readProcTable hroot
  obtain ⟨text, htext, hparse⟩ := Option.bind_eq_some_iff.mp hstat
  simp only [isOrphanRoot, Bool.and_eq_true, beq_iff_eq] at horphan
  have hsleeps : fields.state = 'S' := hstate.symm.trans horphan.1.1.2
  have halive : still.zombie root.pid = false := by
    simp [zombie, htext, deadState, hparse, hsleeps]
  obtain ⟨rest, hmembers⟩ := @root_first still.call still.table root
  have hmem : treeMember still.call root.pid root 0 "root" ∈
      (buildTree still.call still.table root).members := hmembers ▸ List.mem_cons_self
  refine List.ne_nil_of_mem (List.mem_filter.mpr ⟨hmem, ?_⟩)
  show (!still.zombie root.pid) = true
  rw [halive]
  rfl

/-- **One tree.** -/
theorem accepts_iff (htree : tree ∈ still.candidates) : still.Accepts tree ↔ still.Clear tree := by
  have hours := ours_eq htree
  have hall : still.host.ours still.policy tree = still.living tree ↔ ∀ m ∈ still.living tree,
      matchesExempt (still.host.exeName m.pid) still.policy.exemptNames = true →
        still.host.passedOver m.pid = true := by
    rw [hours, List.filter_eq_self]
    refine forall₂_congr fun m _ => ?_
    cases still.host.passedOver m.pid <;> simp
  constructor
  · rintro ⟨verified, hverified, hmembers⟩
    obtain ⟨hends, -, rfl⟩ := (verifyForgottenTreeForReap_answer _ verified).mp hverified
    refine ⟨hall.mp hmembers, ?_⟩
    have hheavy := (ends_iff htree).mp hends
    rwa [Host.weight, show still.host.ours still.policy tree = still.living tree from hmembers]
      at hheavy
  · rintro ⟨hnamed, hheavy⟩
    have hsame := hall.mpr hnamed
    have hends : ∃ fields raw, still.host.EndsTree still.policy still.clock.ticksPerSec tree
        fields raw := by
      refine (ends_iff htree).mpr ?_
      rw [Host.weight, hsame]
      exact hheavy
    have hne : still.host.ours still.policy tree ≠ [] := hsame ▸ living_ne_nil htree
    exact ⟨_, (verifyForgottenTreeForReap_answer _ _).mpr ⟨hends, hne, rfl⟩, hsame⟩

/-- **Scan and verification agree** exactly when every candidate tree is clear. -/
theorem agree_iff (still : StandStill) :
    still.Agree ↔ ∀ tree ∈ still.candidates, still.Clear tree := by
  constructor
  · exact fun h tree htree => (accepts_iff htree).mp (h.trees tree htree)
  · intro h
    exact {
      stale := fun c hc hlow hself => stale_verified hc hlow hself
      orphans := fun c hc => orphan_verified hc
      trees := fun tree htree => (accepts_iff htree).mpr (h tree htree) }

section Zygote

private def launched : PidHolder where
  starttime := 20
  files :=
    { stat := some "200 (chrome) S 1 200 200 0 -1 0 0 0 0 0 0 0 0 0 20 0 1 0 20 0"
      cmdline := some "chrome\x00--headless\x00"
      exe := some "/opt/chrome" }
  honest := by decide +kernel

/-- A helper of the browser, which the browser has started as itself. -/
private def zygote : PidHolder where
  starttime := 21
  files :=
    { stat := some "201 (chrome) S 200 1 1 0 -1 0 0 0 0 0 0 0 0 0 20 0 1 0 21 0"
      cmdline := some "/proc/self/exe\x00--type=zygote\x00"
      exe := some "/opt/chrome" }
  honest := by decide +kernel

/-- The operator has exempted his browser. -/
private def zygoteStill : StandStill where
  host :=
    { holder := fun pid =>
        if pid = 200 then some launched
        else if pid = 201 then some zygote
        else systemdHost.holder pid }
  listing := [200, 201]
  nodup := by decide
  self := 7
  policy :=
    { signatures := [], exemptNames := ["chrome"]
      forgottenFootprintMb := 0, forgottenTreeFootprintMb := 0 }
  clock := { bootTime := 0, now := 1000, ticksPerSec := 100 }

private def zygoteRoot : ProcEntry :=
  { pid := 200, ppid := 1, starttime := 20, args := "chrome --headless", exe := "chrome" }

private def zygoteTree : ForgottenTree :=
  { buildTree zygoteStill.call zygoteStill.table zygoteRoot with why := "headless" }

/-- The scan counts the helper, the verification leaves it alive. -/
theorem zygote_outlives_its_tree : ¬ zygoteStill.Agree := by
  rw [agree_iff]
  intro hclear
  have htree : zygoteTree ∈ zygoteStill.candidates := by decide +kernel
  have hmember : { pid := 201, depth := 1, starttime := 21 } ∈ zygoteStill.living zygoteTree := by
    decide +kernel
  exact absurd ((hclear _ htree).named _ hmember (by decide +kernel)) (by decide +kernel)

end Zygote

end StandStill

end DraconGuard
