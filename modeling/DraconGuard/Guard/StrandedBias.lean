import DraconGuard.Guard.PendingDebts

/-!
# Inherited bias after a sweep

"Restore `oom_score_adj` inherited by descendants created after a tracked process was biased"
(main.rs:2789). The kernel copies the value at the fork; whose it was is not on record anywhere. The
sweep reads it off the parent links of its snapshot, and an exit in between changes those: the
orphans hang below the reaper.

| here | what |
|---|---|
| `ForkWorld` | a run of the guard with the lineage of what was forked at the target |
| `descendantDebt` | what the attribution loop of the sweep makes of one sample (main.rs:2839) |
| `WithinReach` | what the sweep can tell about a process, in the state before it |
| `sweep_strands_iff` | a sweep leaves exactly the others at the target |
-/

namespace DraconGuard

/-! ## Lineage -/

/-- The guard and the processes, and who was forked at the target below which raised process and
has been at it since. -/
structure ForkWorld where
  oom : OomWorld
  inherited : Pid → Option Incarnation := fun _ => none

namespace ForkWorld

/-- The raised process a child of `pid` has its value from. -/
def rootOf (w : ForkWorld) (pid : Pid) : Option Incarnation :=
  match w.oom.raised pid with
  | some r => some (pid, r.starttime)
  | none => w.inherited pid

/-- The lineage after an input: a new process has its parent's. -/
def lineage (w : ForkWorld) : OomInput → Pid → Option Incarnation
  | .spawn child p, pid =>
    if pid = child ∧ (w.oom.table child).isNone then w.rootOf p.ppid else w.inherited pid
  | _, pid => w.inherited pid

def step (w : ForkWorld) (i : OomInput) : ForkWorld where
  oom := oomStep w.oom i
  inherited pid :=
    if ((oomStep w.oom i).table pid).any fun p => p.oomScoreAdj == oomBiasTargetValue then
      w.lineage i pid
    else none

/-- The raised process has exited, or its value was written back. -/
def LetGo (w : ForkWorld) (root : Incarnation) : Prop :=
  ∀ r, w.oom.raised root.1 = some r → r.starttime ≠ root.2

/-- A live process, not exempt, at the target since it was forked below a raised process that was
let go. -/
structure Stranded (exempt : List String) (w : ForkWorld) (pid : Pid) (p : Proc) : Prop where
  live : w.oom.table pid = some p
  not_zombie : p.zombie = false
  not_exempt : exemptComm exempt p.comm = false
  at_target : p.oomScoreAdj = oomBiasTargetValue
  forked : ∃ root, w.inherited pid = some root ∧ w.LetGo root

end ForkWorld

/-! ## What a sweep can tell -/

/-- The debt the attribution loop makes of a sample, were there none yet. -/
def descendantDebt (tracked : Pid → Bool) (exempt : List String) (parents : Pid → Option Pid)
    (roots : FinMap Pid Int) (known : FinMap Pid (Finset Incarnation)) (child : ProcSample) :
    Option OomPendingDescendant :=
  if tracked child.pid || exemptComm exempt child.command then none
  else match nearestBiasedAncestor child.pid parents fun pid => (roots.lookup pid).isSome with
    | none => none
    | some root =>
      if (known.lookup root).any fun known => (child.pid, child.starttime) ∈ known then none
      else (roots.lookup root).map fun originalAdj =>
        { rootPid := root, originalAdj := originalAdj
          identity := processSampleIdentity child, attempts := 0 }

/-- The process has no record itself, the snapshot has it under a name that is not exempt, and its
parent links there lead to a root, whose original value is `original` and which does not know the
process from before its bias. -/
structure Attributable (env : SweepEnv) (exempt : List String) (samples : List ProcSample)
    (w : OomWorld) (key : Incarnation) (original : Int) : Prop where
  untracked : w.state.oom.oomBiasedPids.lookup key.1 = none
  sampled : ∃ s ∈ samples, s.pid = key.1 ∧ s.starttime = key.2 ∧
    exemptComm exempt s.command = false
  linked : ∃ root,
    (nearestBiasedAncestor key.1 (parentByPid samples) fun pid =>
      ((rootOriginalAdj w.table env.rootReadable w.state.oom).lookup pid).isSome) = some root ∧
    (rootOriginalAdj w.table env.rootReadable w.state.oom).lookup root = some original ∧
    ∀ known, w.state.oom.oomKnownDescendants.lookup root = some known → key ∉ known

/-- The process owes a restoration already, or the snapshot attributes it to a root; and the value
on record is not the target itself. -/
def WithinReach (env : SweepEnv) (exempt : List String) (samples : List ProcSample) (w : OomWorld)
    (key : Incarnation) : Prop :=
  match w.state.oom.oomPendingDescendants.lookup key with
  | some pd => pd.originalAdj ≠ oomBiasTargetValue
  | none => ∃ original, Attributable env exempt samples w key original ∧
      original ≠ oomBiasTargetValue

/-- Nothing was deferred and no write failed: either leaves the debt in the map. -/
def SweepSettled (env : SweepEnv) (exempt : List String) (samples : List ProcSample)
    (w : OomWorld) : Prop :=
  ∀ key, (sweepStrandedOomDescendants env exempt samples w).state.oom.oomPendingDescendants.lookup
    key = none

/-! ## The attribution loop -/

section Enlist

variable {tracked : Pid → Bool} {exempt : List String} {parents : Pid → Option Pid}
  {roots : FinMap Pid Int} {o : OomState}

theorem enlistStep_known (o : OomState) (child : ProcSample) :
    (enlistStep tracked exempt parents roots o child).oomKnownDescendants =
      o.oomKnownDescendants := by
  unfold enlistStep
  split
  · rfl
  split
  · rfl
  dsimp only
  split
  · rfl
  split <;> rfl

/-- One turn of the loop: an old debt stays, a new one is the sample's. -/
theorem enlistStep_lookup (o : OomState) (child : ProcSample) (key : Incarnation) :
    (enlistStep tracked exempt parents roots o child).oomPendingDescendants.lookup key =
      (o.oomPendingDescendants.lookup key).or
        (if (child.pid, child.starttime) = key then
          descendantDebt tracked exempt parents roots o.oomKnownDescendants child else none) := by
  unfold enlistStep descendantDebt
  by_cases hskip : (tracked child.pid || exemptComm exempt child.command) = true
  · simp [hskip]
  cases hnear : nearestBiasedAncestor child.pid parents fun pid => (roots.lookup pid).isSome with
  | none => simp [hskip]
  | some root =>
    simp only [hskip]
    by_cases hown : (child.pid, child.starttime) = key
    · subst hown
      cases hold : o.oomPendingDescendants.lookup (child.pid, child.starttime) with
      | some pd => simp [hold]
      | none =>
        by_cases hknown : (o.oomKnownDescendants.lookup root).any
          fun known => decide ((child.pid, child.starttime) ∈ known)
        · simp [hknown, hold]
        · cases hvalue : roots.lookup root with
          | none => simp [hknown, hold]
          | some a => simp [hknown]
    · have hother : key ≠ (child.pid, child.starttime) := Ne.symm hown
      simp only [hown, if_false, Option.or_none]
      split
      · rfl
      split
      · rfl
      split
      · rfl
      · rw [FinMap.lookup_insert_eq, if_neg hother]

/-- **The whole loop.** -/
theorem enlist_lookup (samples : List ProcSample) (o : OomState) (key : Incarnation) :
    (samples.foldl (enlistStep tracked exempt parents roots) o).oomPendingDescendants.lookup key =
      (o.oomPendingDescendants.lookup key).or
        ((samples.filter fun s => (s.pid, s.starttime) = key).findSome?
          (descendantDebt tracked exempt parents roots o.oomKnownDescendants)) := by
  induction samples generalizing o with
  | nil => simp
  | cons child samples ih =>
    rw [List.foldl_cons, ih, enlistStep_lookup, enlistStep_known, Option.or_assoc,
      List.filter_cons]
    congr 1
    by_cases hown : (child.pid, child.starttime) = key
    · rw [if_pos hown, if_pos (decide_eq_true hown), List.findSome?_cons]
      cases descendantDebt tracked exempt parents roots o.oomKnownDescendants child <;> rfl
    · rw [if_neg hown, if_neg (by simpa using hown), Option.none_or]

theorem descendantDebt_eq_some {known : FinMap Pid (Finset Incarnation)} {child : ProcSample}
    {pd : OomPendingDescendant} :
    descendantDebt tracked exempt parents roots known child = some pd ↔
      tracked child.pid = false ∧ exemptComm exempt child.command = false ∧ ∃ root original,
        (nearestBiasedAncestor child.pid parents fun pid => (roots.lookup pid).isSome) =
          some root ∧ roots.lookup root = some original ∧
        (∀ k, known.lookup root = some k → (child.pid, child.starttime) ∉ k) ∧
        pd = { rootPid := root, originalAdj := original
               identity := processSampleIdentity child, attempts := 0 } := by
  unfold descendantDebt
  by_cases hskip : (tracked child.pid || exemptComm exempt child.command) = true
  · rw [if_pos hskip]
    refine ⟨fun h => (by cases h), fun ⟨htracked, hexempt, _⟩ => ?_⟩
    rw [htracked, hexempt] at hskip
    cases hskip
  rw [if_neg hskip]
  simp only [Bool.or_eq_true, not_or, Bool.not_eq_true] at hskip
  cases hnear : nearestBiasedAncestor child.pid parents fun pid => (roots.lookup pid).isSome with
  | none => simp
  | some root =>
    have hunknown : (known.lookup root).any
        (fun k => decide ((child.pid, child.starttime) ∈ k)) = false ↔
          ∀ k, known.lookup root = some k → (child.pid, child.starttime) ∉ k := by
      cases known.lookup root <;> simp
    dsimp only
    by_cases hany : ((known.lookup root).any
        fun k => decide ((child.pid, child.starttime) ∈ k)) = true
    · rw [if_pos hany]
      refine ⟨fun h => (by cases h), ?_⟩
      rintro ⟨-, -, root', original, hroot, -, hnot, -⟩
      obtain rfl := Option.some.inj hroot
      rw [hunknown.mpr hnot] at hany
      cases hany
    · rw [if_neg hany, Option.map_eq_some_iff]
      constructor
      · rintro ⟨original, hvalue, rfl⟩
        exact ⟨hskip.1, hskip.2, root, original, rfl, hvalue,
          hunknown.mp (Bool.eq_false_iff.mpr hany), rfl⟩
      · rintro ⟨-, -, root', original, hroot, hvalue, -, rfl⟩
        obtain rfl := Option.some.inj hroot
        exact ⟨original, hvalue, rfl⟩

end Enlist

/-- **Who is put on a root's account**, with a value that is not the target. -/
theorem withinReach_iff (env : SweepEnv) (exempt : List String) (samples : List ProcSample)
    (w : OomWorld) (key : Incarnation) :
    WithinReach env exempt samples w key ↔ ∃ pd,
      (enlistStrandedDescendants w.table env.rootReadable samples exempt
        w.state.oom).oomPendingDescendants.lookup key = some pd ∧
      pd.originalAdj ≠ oomBiasTargetValue := by
  unfold WithinReach enlistStrandedDescendants
  rw [enlist_lookup]
  cases hold : w.state.oom.oomPendingDescendants.lookup key with
  | some pd => simp
  | none =>
    simp only [Option.none_or]
    constructor
    · rintro ⟨original, ⟨huntracked, ⟨s, hs, hpid, hstart, hexempt⟩, root, hroot, hvalue, hnot⟩,
        hoff⟩
      have hkey : (s.pid, s.starttime) = key := Prod.ext hpid hstart
      -- the first sample under the key has the same debt, but for the name
      have htracked : (w.state.oom.oomBiasedPids.lookup s.pid).isSome = false := by
        rw [hpid, huntracked]
        rfl
      have hdebt : (descendantDebt (fun pid => (w.state.oom.oomBiasedPids.lookup pid).isSome) exempt
          (parentByPid samples) (rootOriginalAdj w.table env.rootReadable w.state.oom)
          w.state.oom.oomKnownDescendants s).isSome = true :=
        Option.isSome_iff_exists.mpr ⟨_, descendantDebt_eq_some.mpr ⟨htracked, hexempt, root,
          original, by rw [hpid]; exact hroot, hvalue, by rw [hkey]; exact hnot, rfl⟩⟩
      have hmem : s ∈ samples.filter fun s => (s.pid, s.starttime) = key :=
        List.mem_filter.mpr ⟨hs, decide_eq_true hkey⟩
      obtain ⟨pd, hpd⟩ := Option.isSome_iff_exists.mp
        (List.findSome?_isSome_iff.mpr ⟨s, hmem, hdebt⟩)
      refine ⟨pd, hpd, ?_⟩
      obtain ⟨s', hs', hdebt'⟩ := List.exists_of_findSome?_eq_some hpd
      obtain ⟨-, hkey'⟩ := List.mem_filter.mp hs'
      obtain ⟨-, -, root', original', hroot', hvalue', -, rfl⟩ := descendantDebt_eq_some.mp hdebt'
      have hpid' : s'.pid = key.1 := congrArg Prod.fst (of_decide_eq_true hkey')
      rw [hpid'] at hroot'
      obtain rfl := Option.some.inj (hroot.symm.trans hroot')
      obtain rfl := Option.some.inj (hvalue.symm.trans hvalue')
      exact hoff
    · rintro ⟨pd, hpd, hoff⟩
      obtain ⟨s, hs, hdebt⟩ := List.exists_of_findSome?_eq_some hpd
      obtain ⟨hmem, hkey⟩ := List.mem_filter.mp hs
      have hkey : (s.pid, s.starttime) = key := of_decide_eq_true hkey
      obtain ⟨htracked, hexempt, root, original, hroot, hvalue, hnot, rfl⟩ :=
        descendantDebt_eq_some.mp hdebt
      have hpid : s.pid = key.1 := congrArg Prod.fst hkey
      refine ⟨original, ⟨?_, ⟨s, hmem, hpid, congrArg Prod.snd hkey, hexempt⟩, root, ?_, hvalue, ?_⟩,
        hoff⟩
      · rw [hpid] at htracked
        exact Option.not_isSome_iff_eq_none.mp (Bool.eq_false_iff.mp htracked)
      · rw [hpid] at hroot
        exact hroot
      · rw [hkey] at hnot
        exact hnot

/-! ## What the pass does to one process -/

section Pass

variable {env : PendingEnv} {exempt : List String} {w : OomWorld} {key : Incarnation} {p : Proc}

/-- The debts of others leave a process alone. -/
theorem pendingStep_table_other (hkeyed : PendingKeyed w.state.oom) {other : Incarnation}
    (hp : w.table key.1 = some p) (hst : p.starttime = key.2) (hne : other ≠ key) :
    (restorePendingStep env exempt w other).table key.1 = some p := by
  rcases restorePendingStep_cases env exempt w other with he | ⟨pd, hpd, he | he | ⟨w', hw', he⟩⟩
  · rw [he, hp]
  · rw [he]
    exact hp
  · rw [he]
    exact hp
  · have hrow : w'.table key.1 = some p := by
      rw [hw']
      rcases oomRestore_cases (env.restore other) w other.1 pd.identity pd.originalAdj
        (.debt pd.rootPid) with ⟨hr, -⟩ | ⟨hr, hmatch⟩
      · rw [hr, hp]
      · have hpid : key.1 ≠ other.1 := by
          intro hpid
          have hstart := hmatch p (hpid ▸ hp)
          rw [hkeyed other pd hpd, hst] at hstart
          exact hne (Prod.ext hpid.symm hstart.symm)
        rw [hr]
        unfold OomWorld.writeAdj
        split
        · exact hp
        · exact (ProcTable.setAdj_apply _ _ _ _).trans ((if_neg hpid).trans hp)
    rcases he with he | he <;> rw [he] <;> exact hrow

theorem loop_table_other (hkeyed : PendingKeyed w.state.oom) {keys : List Incarnation}
    (hp : w.table key.1 = some p) (hst : p.starttime = key.2) (hkeys : key ∉ keys) :
    (keys.foldl (restorePendingStep env exempt) w).table key.1 = some p := by
  induction keys generalizing w with
  | nil => exact hp
  | cons other keys ih =>
    rw [List.mem_cons, not_or] at hkeys
    exact ih (keyed_pendingStep hkeyed env exempt other)
      (pendingStep_table_other hkeyed hp hst (Ne.symm hkeys.1)) hkeys.2

/-- A debt of a live process at the target is dropped on a write only. -/
theorem pendingStep_restores {pd : OomPendingDescendant}
    (hpd : w.state.oom.oomPendingDescendants.lookup key = some pd)
    (hp : w.table key.1 = some p) (hst : p.starttime = pd.identity.starttime)
    (hlive : p.zombie = false) (hadj : p.oomScoreAdj = oomBiasTargetValue)
    (hdropped : (restorePendingStep env exempt w key).state.oom.oomPendingDescendants.lookup key =
      none) :
    (restorePendingStep env exempt w key).table key.1 =
      some { p with oomScoreAdj := pd.originalAdj } := by
  have hretry : ∀ w' : OomWorld, (w'.setOom
      (recordOomRetry w.state.oom key pd)).state.oom.oomPendingDescendants.lookup key ≠ none := by
    simp [recordOomRetry]
  revert hdropped
  unfold restorePendingStep
  dsimp only
  rw [hpd]
  cases hread : env.readable key with
  | false =>
    intro hdropped
    exact absurd hdropped (hretry w)
  | true =>
    have hmatch := processIdentityStatus_live hp hst
    simp only [hmatch, hp, Option.any_some, hlive, Bool.and_false, Bool.false_eq_true, if_false]
    split
    · intro hdropped
      exact absurd hdropped (hretry w)
    split
    · intro hdropped
      exact absurd hdropped (hretry w)
    split
    · intro hdropped
      exact absurd hdropped (hretry _)
    · next b hb =>
      intro _
      obtain ⟨-, p', hp', -, hother | ⟨-, -, hafter⟩⟩ := oomRestore_ok hb
      · obtain rfl := Option.some.inj (hp.symm.trans hp')
        exact absurd hadj hother
      · obtain rfl := Option.some.inj (hp.symm.trans hp')
        simpa only [hlive, OomWorld.setOom_table] using hafter

theorem owes_eq_none_iff : w.owes key = none ↔ w.state.oom.oomPendingDescendants.lookup key = none :=
  Option.map_eq_none_iff

/-- **The pass and one live process at the target**: with no debt left, it has the value its debt
had on record, or no debt was its own. -/
theorem pass_table (hkeyed : PendingKeyed w.state.oom) (hp : w.table key.1 = some p)
    (hst : p.starttime = key.2) (hlive : p.zombie = false)
    (hadj : p.oomScoreAdj = oomBiasTargetValue)
    (hdropped : (restorePendingOomDescendants env exempt w).owes key = none) :
    (restorePendingOomDescendants env exempt w).table key.1 =
      some { p with
        oomScoreAdj := ((w.owes key).map (·.originalAdj)).getD oomBiasTargetValue } := by
  unfold restorePendingOomDescendants at hdropped ⊢
  cases howes : w.owes key with
  | none =>
    have hkey : key ∉ w.state.oom.oomPendingDescendants.keys := by
      intro hmem
      obtain ⟨pd, hpd⟩ := FinMap.mem_iff_lookup.1 (AList.mem_keys.2 hmem)
      rw [owes_eq_none_iff, hpd] at howes
      cases howes
    rw [loop_table_other hkeyed hp hst hkey, Option.map_none, Option.getD_none, ← hadj]
  | some d =>
    have hmem : key ∈ w.state.oom.oomPendingDescendants.keys := by
      obtain ⟨pd, hpd, -⟩ := Option.map_eq_some_iff.1 howes
      exact AList.mem_keys.1 (FinMap.mem_iff_lookup.2 ⟨pd, hpd⟩)
    obtain ⟨before, after, hkeys⟩ := List.append_of_mem hmem
    have hnodup : (before ++ key :: after).Nodup := hkeys ▸ AList.keys_nodup _
    have hbefore : key ∉ before := fun hin =>
      List.disjoint_of_nodup_append hnodup hin List.mem_cons_self
    have hafter : key ∉ after := (List.nodup_cons.1 hnodup.of_append_right).1
    rw [hkeys, List.foldl_append, List.foldl_cons] at hdropped ⊢
    rw [owes_loop_other hafter, owes_eq_none_iff] at hdropped
    -- its turn
    have hkeyed' : PendingKeyed (before.foldl (restorePendingStep env exempt) w).state.oom :=
      loop_keyed before hkeyed
    have hrow : (before.foldl (restorePendingStep env exempt) w).table key.1 = some p :=
      loop_table_other hkeyed hp hst hbefore
    obtain ⟨pd, hpd, rfl⟩ := Option.map_eq_some_iff.1 ((owes_loop_other hbefore).trans howes)
    have hst' : p.starttime = pd.identity.starttime := hst.trans (hkeyed' key pd hpd).symm
    have hturn := pendingStep_restores hpd hrow hst' hlive hadj hdropped
    exact loop_table_other (keyed_pendingStep hkeyed' env exempt key) hturn hst hafter

end Pass

/-! ## A sweep -/

/-- **A sweep leaves at the target exactly what it cannot reach**, of the live processes there. -/
theorem sweep_strands_iff {env : SweepEnv} {exempt : List String} {samples : List ProcSample}
    {w : OomWorld} {key : Incarnation} {p : Proc} (hkeyed : PendingKeyed w.state.oom)
    (hp : w.table key.1 = some p) (hst : p.starttime = key.2) (hlive : p.zombie = false)
    (hadj : p.oomScoreAdj = oomBiasTargetValue)
    (hsettled : SweepSettled env exempt samples w) :
    ((sweepStrandedOomDescendants env exempt samples w).table key.1).map (·.oomScoreAdj) =
        some oomBiasTargetValue ↔ ¬ WithinReach env exempt samples w key := by
  have hdropped := hsettled key
  rw [withinReach_iff]
  set enlisted := enlistStrandedDescendants w.table env.rootReadable samples exempt w.state.oom
    with henlisted
  unfold sweepStrandedOomDescendants at hdropped ⊢
  simp only [← henlisted] at hdropped ⊢
  split
  · next hfailed =>
    rw [if_pos hfailed, persist_oom, OomWorld.setOom_oom] at hdropped
    have hrow : (((w.setOom enlisted).persist env.intent).1.table key.1).map (·.oomScoreAdj) =
        some oomBiasTargetValue := by
      rw [← hadj]
      exact congrArg (Option.map _) hp
    simp only [hrow, hdropped, reduceCtorEq, false_and, exists_false, not_false_eq_true]
  · next hwritten =>
    rw [if_neg hwritten, persist_oom] at hdropped
    set w' := ((w.setOom enlisted).persist env.intent).1 with hw'
    have hoom : w'.state.oom = enlisted := by rw [hw', persist_oom, OomWorld.setOom_oom]
    have hkeyed' : PendingKeyed w'.state.oom := by
      rw [hoom]
      exact keyed_enlistAll hkeyed _ _ _ _ samples
    have hrow : (restorePendingOomDescendants env.pending exempt w').table key.1 =
        some { p with
          oomScoreAdj := ((w'.owes key).map (·.originalAdj)).getD oomBiasTargetValue } :=
      pass_table hkeyed' hp hst hlive hadj (owes_eq_none_iff.2 hdropped)
    have hvalue : (((restorePendingOomDescendants env.pending exempt w').persist
        env.settled).1.table key.1).map (·.oomScoreAdj) =
          some (((w'.owes key).map (·.originalAdj)).getD oomBiasTargetValue) :=
      congrArg (Option.map _) hrow
    rw [hvalue, OomWorld.owes, hoom]
    cases enlisted.oomPendingDescendants.lookup key with
    | none => simp
    | some pd => simp [OomPendingDescendant.debt]

/-! ## Runs -/

namespace ForkWorld

/-- At every sweep that defers nothing: whom the sweep would strand is within its reach. -/
def Reachable (w : ForkWorld) : OomInput → Prop
  | .sweep env exempt samples => SweepSettled env exempt samples w.oom →
      ∀ pid p, Stranded exempt w pid p → WithinReach env exempt samples w.oom (pid, p.starttime)
  | _ => True

/-- A sweep that defers nothing leaves nobody at the target. -/
def NoneLeft (w : ForkWorld) : OomInput → Prop
  | .sweep env exempt samples => SweepSettled env exempt samples w.oom →
      ∀ pid p, Stranded exempt w pid p →
        ((w.step (.sweep env exempt samples)).oom.table pid).map (·.oomScoreAdj) ≠
          some oomBiasTargetValue
  | _ => True

theorem noneLeft_iff {w : ForkWorld} (hkeyed : PendingKeyed w.oom.state.oom) (i : OomInput) :
    w.NoneLeft i ↔ w.Reachable i := by
  cases i with
  | sweep env exempt samples =>
    refine forall_congr' fun hsettled => forall₂_congr fun pid p => forall_congr' fun h => ?_
    have hiff := @sweep_strands_iff env exempt samples w.oom (pid, p.starttime) p hkeyed h.live
      rfl h.not_zombie h.at_target hsettled
    exact (not_congr hiff).trans not_not
  | spawn | exit | change | others | bias | release | pressurePersists | prune | persist
    | restoreRuntime | reload => exact Iff.rfl

/-- **Nobody stays at an inherited target**: in a run of the guard, whatever is forked, exits or is
reparented in between, the sweeps that defer nothing leave no process behind if and only if each
finds whom it would strand among its debts or below a root that is on record. -/
theorem sweeps_strand_none_iff (t : ProcTable) (henv : HydrateEnv) (read : LedgerRead)
    (d : LedgerDisk) (is : List OomInput) :
    Runs.Along step NoneLeft ⟨daemonStart t henv read d, fun _ => none⟩ is ↔
      Runs.Along step Reachable ⟨daemonStart t henv read d, fun _ => none⟩ is :=
  Runs.along_congr_of_inv (P := fun w : ForkWorld => PendingKeyed w.oom.state.oom)
    (fun _ i hkeyed => hkeyed.step i) (fun _ i hkeyed => noneLeft_iff hkeyed i)
    (hydrate_keyed t henv read)

/-! ### An orphan -/

/-- A browser, alone. -/
def browserOnly : ProcTable := fun pid =>
  if pid = 7 then some { ppid := 1, comm := "chrome", starttime := 100 } else none

def snapshotRow (pid ppid : Pid) (command : String) (starttime : Nat) : ProcSample :=
  { pid := pid, ppid := ppid, cpuPercent := 0, rssMb := 9000, swapMb := some 0, nice := 0
    command := command, starttime := starttime }

/-- The browser is biased, forks a tab that forks a worker; the tab exits and the worker is
reparented; the browser exits. -/
def orphanRun : List OomInput :=
  [.bias { persist := writtenEnv } (snapshotRow 7 1 "chrome" 100) [snapshotRow 7 1 "chrome" 100],
    .spawn 8 { ppid := 7, comm := "tab", starttime := 200, oomScoreAdj := 250 },
    .spawn 9 { ppid := 8, comm := "worker", starttime := 300, oomScoreAdj := 250 },
    .exit 8, .change 9 1 "worker" 250 false, .exit 7,
    .sweep { intent := writtenEnv, settled := writtenEnv } [] [snapshotRow 9 1 "worker" 300]]

/-- **The orphan keeps the bias.** -/
theorem orphan_stays_biased :
    ¬ ∀ (t : ProcTable) (henv : HydrateEnv) (read : LedgerRead) (d : LedgerDisk)
      (is : List OomInput),
      Runs.Along step NoneLeft ⟨daemonStart t henv read d, fun _ => none⟩ is := by
  intro h
  obtain ⟨-, -, -, -, -, -, hsweep, -⟩ := h browserOnly ⟨some "boot", fun _ => true, true⟩ .notFound
    ⟨none, []⟩ orphanRun
  refine hsweep ?_ 9 { ppid := 1, comm := "worker", starttime := 300, oomScoreAdj := 250 }
    ⟨?_, rfl, ?_, rfl, (7, 100), ?_, ?_⟩ ?_
  · intro key
    rfl
  · rfl
  · decide
  · rfl
  · intro r hr
    cases hr
  · rfl

end ForkWorld

end DraconGuard
