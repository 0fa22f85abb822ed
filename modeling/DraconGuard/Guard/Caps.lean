import DraconGuard.Lib.Runs
import DraconGuard.Lib.Text
import DraconGuard.Guard.State

/-!
# CPU-cap debts

An entry of `capped_pids` is a debt: the unit it names carries a quota of the guard's. The
unit outlives the pid that triggered the cap, so only a release of the unit pays the debt.
Four code paths take entries out:

* the release of `check_memory_pressure` once pressure is ok (main.rs:6941-7018): a lease by
  `cpu_limit::release`, a legacy service by `uncap_cpu_process_with_bin`;
* the two halves of `restore_runtime_adjustments` (main.rs:3245, 3350);
* the closing prune of `check_memory_pressure` (main.rs:7050), which looks at the pid alone.

`released` is a ghost: the releases that returned `Ok` in the current step.
-/

namespace DraconGuard

/-- What a release outcome is filed under. -/
structure CapRelease where
  pid : Pid
  entry : CapEntry
deriving DecidableEq, Repr

structure CapWorld where
  table : ProcTable
  caps : CapState := {}
  ledgerUnavailable : Bool := false
  released : List CapRelease := []

def isHexDigit (c : Char) : Bool :=
  ('0' ≤ c && c ≤ '9') || ('a' ≤ c && c ≤ 'f') || ('A' ≤ c && c ≤ 'F')

def leasePrefix : String := "dracon-cpu-unit-"

/-- `cpu_limit::is_lease` (cpu_limit.rs:154). -/
def isLease (key : String) : Bool :=
  leasePrefix.toList.isPrefixOf key.toList &&
    (let rest := key.toList.drop leasePrefix.length
     rest.length == 16 && rest.all isHexDigit)

/-- `rsplit_once('/')`, first part. -/
def parentText (rel : String) : Option (List Char) :=
  if rel.toList.contains '/' then
    some ((rel.toList.reverse.dropWhile (· != '/')).drop 1).reverse
  else none

/-- `restore_cgroup_target` (main.rs:2903): an empty recorded cgroup is never joined to a path;
the parent of the unit's own cgroup stands in for it. -/
def restoreCgroupTarget (origCgroup currentRel : String) : Option String :=
  if Text.trim origCgroup != [] then some (String.ofList (Text.trim origCgroup))
  else match parentText currentRel with
    | none => none
    | some parent =>
      let parent := Text.trim (String.ofList parent)
      if parent != [] && parent != ['/'] then some (String.ofList parent) else none

/-- What reading `/proc/<pid>/cgroup` gives, after `parse_cgroup_rel_path`. -/
inductive CgroupRead where
  | rel (path : String)
  | unparseable
  /-- The file is missing; whether the pid directory is provably gone with it. -/
  | notFound (pidGone : Bool)
  | error

/-- What the outside answers during one release of one entry. -/
structure UncapEnv where
  /-- `cpu_limit::release` returned `Ok`. -/
  leaseReleased : Bool := false
  /-- `systemctl` was found. -/
  systemctl : Bool := true
  cgroup : CgroupRead := .error
  /-- `cpu_limit::restore_legacy` returned `Ok`. -/
  moved : Bool := false
  /-- `systemctl show` succeeded and printed `LoadState=not-found`. -/
  unitAbsent : Bool := false

/-- `uncap_cpu_process_with_bin` (main.rs:2935); whether it returns `Ok`. -/
def uncapCpuProcess (env : UncapEnv) (entry : CapEntry) (allowPidMove : Bool) : Bool :=
  if isLease entry.scope then env.leaseReleased
  else
    let mayAsk := match env.cgroup with
      | .unparseable | .error => false
      | .notFound pidGone => pidGone
      | .rel path =>
        if Text.contains path entry.scope then
          allowPidMove && (restoreCgroupTarget entry.origCgroup path).isSome && env.moved
        else true
    mayAsk && env.unitAbsent

/-- `remove_cpu_cap` (main.rs:3188). -/
def removeCpuCap (s : CapState) (pid : Pid) : CapState where
  cappedPids := s.cappedPids.erase pid
  capCooledSince := s.capCooledSince.erase pid
  capIdentityUnavailableAttempts := s.capIdentityUnavailableAttempts.erase pid

namespace CapWorld

/-- A release returned `Ok`, and the entry goes. -/
def pay (w : CapWorld) (pid : Pid) (e : CapEntry) : CapWorld :=
  { w with caps := removeCpuCap w.caps pid, released := ⟨pid, e⟩ :: w.released }

end CapWorld

/-! ## Capping -/

structure CapEnv where
  readable : Pid → Bool := fun _ => true
  /-- `cpu_limit::cap`: lease key and generation. -/
  cap : Pid → Option (String × String)

/-- One iteration of the cap loop (main.rs:6585); its gates on pressure and policy are in
`capOffenders`. -/
def capStep (env : CapEnv) (w : CapWorld) (p : ProcSample) : CapWorld :=
  if (w.caps.cappedPids.lookup p.pid).isSome then w
  else if !processSampleIsCurrent w.table (env.readable p.pid) p then w
  else match env.cap p.pid with
    | none => w
    | some (scope, origCgroup) =>
      let entry := ⟨scope, origCgroup, processSampleIdentity p⟩
      { w with caps := { w.caps with cappedPids := w.caps.cappedPids.insert p.pid entry } }

def capOffenders (env : CapEnv) (pressure : Pressure) (capPercent : Nat) (topRss : List ProcSample)
    (w : CapWorld) : CapWorld :=
  if !w.ledgerUnavailable && pressure == .critical && 0 < capPercent then
    topRss.foldl (capStep env) w
  else w

/-! ## Releasing -/

structure CapReleaseEnv where
  now : Time := 0
  releaseAfterSecs : Nat := 0
  readable : Pid → Bool := fun _ => true
  uncap : Pid → UncapEnv

/-- The identity of a legacy entry was readable: its unavailable count goes, and its unit is
asked for (main.rs:6987-7013). -/
def releaseLegacyCap (env : UncapEnv) (w : CapWorld) (pid : Pid) (e : CapEntry)
    (allowPidMove : Bool) : CapWorld :=
  let attempts := w.caps.capIdentityUnavailableAttempts.erase pid
  let w := { w with caps := { w.caps with capIdentityUnavailableAttempts := attempts } }
  if env.systemctl && uncapCpuProcess env e allowPidMove then w.pay pid e else w

/-- The release of one due entry under relieved pressure (main.rs:6949-7013). -/
def releaseCap (env : CapReleaseEnv) (w : CapWorld) (pid : Pid) : CapWorld :=
  match w.caps.cappedPids.lookup pid with
  | none => w
  | some e =>
    if isLease e.scope then
      if (env.uncap pid).leaseReleased then w.pay pid e else w
    else
      match processIdentityStatus w.table (env.readable pid) pid e.identity with
      | .matching | .gone => releaseLegacyCap (env.uncap pid) w pid e true
      | .mismatch => releaseLegacyCap (env.uncap pid) w pid e false
      | .unavailable =>
        -- Unreadability never proves the legacy unit empty.
        let attempts := (w.caps.capIdentityUnavailableAttempts.lookup pid).getD 0 + 1
        let counted := w.caps.capIdentityUnavailableAttempts.insert pid
          (min attempts identityUnavailableRetryLimit)
        { w with caps := { w.caps with capIdentityUnavailableAttempts := counted } }

/-- The cap release of `check_memory_pressure` once pressure is ok (main.rs:6941-7018). -/
def releaseCaps (env : CapReleaseEnv) (w : CapWorld) : CapWorld :=
  if w.ledgerUnavailable then w
  else
    let cooled := w.caps.cappedPids.keys.foldl
      (coolStep (fun _ => false) env.now env.releaseAfterSecs) (w.caps.capCooledSince, [])
    let w := { w with caps := { w.caps with capCooledSince := cooled.1 } }
    let w := cooled.2.foldl (releaseCap env) w
    let kept := w.caps.capCooledSince.retain fun pid _ => (w.caps.cappedPids.lookup pid).isSome
    { w with caps := { w.caps with capCooledSince := kept } }

/-- Pressure persists: `cap_cooled_since.clear()`. -/
def clearCapTimers (w : CapWorld) : CapWorld :=
  { w with caps := { w.caps with capCooledSince := ∅ } }

/-- The closing prune (main.rs:7050): an entry whose pid is gone or reused is dropped. -/
def pruneCaps (readable : Pid → Bool) (w : CapWorld) : CapWorld :=
  let kept := w.caps.cappedPids.retain fun pid e =>
    !(processIdentityStatus w.table (readable pid) pid e.identity).dead
  { w with caps := { w.caps with cappedPids := kept } }

/-- One lease of `restore_runtime_adjustments` (main.rs:3245). -/
def restoreLease (env : CapReleaseEnv) (w : CapWorld) (pid : Pid) : CapWorld :=
  match w.caps.cappedPids.lookup pid with
  | none => w
  | some e =>
    if isLease e.scope && (env.uncap pid).leaseReleased then w.pay pid e else w

/-- The `CpuCap` arm of `restore_runtime_adjustments` (main.rs:3350). -/
def restoreCap (env : CapReleaseEnv) (w : CapWorld) (pid : Pid) : CapWorld :=
  match w.caps.cappedPids.lookup pid with
  | none => w
  | some e =>
    match processIdentityStatus w.table (env.readable pid) pid e.identity with
    | .matching | .gone => if uncapCpuProcess (env.uncap pid) e true then w.pay pid e else w
    | .mismatch => if uncapCpuProcess (env.uncap pid) e false then w.pay pid e else w
    | .unavailable => w

/-- `restore_runtime_adjustments` (main.rs:3231), its CPU part: the leases first, then every
entry that is left. -/
def restoreRuntimeCaps (leases rest : CapReleaseEnv) (w : CapWorld) : CapWorld :=
  if w.ledgerUnavailable then w
  else
    let w := w.caps.cappedPids.keys.foldl (restoreLease leases) w
    w.caps.cappedPids.keys.foldl (restoreCap rest) w

/-! ## Runs -/

inductive CapInput where
  | spawn (pid : Pid) (p : Proc)
  | exit (pid : Pid)
  | cap (env : CapEnv) (pressure : Pressure) (capPercent : Nat) (topRss : List ProcSample)
  | release (env : CapReleaseEnv)
  | pressurePersists
  | prune (readable : Pid → Bool)
  | restoreRuntime (leases rest : CapReleaseEnv)

/-- One step; the ghost of the step before is forgotten. -/
def capsStep (w : CapWorld) (i : CapInput) : CapWorld :=
  let w := { w with released := [] }
  match i with
  | .spawn pid p =>
    if (w.table pid).isSome then w else { w with table := Function.update w.table pid (some p) }
  | .exit pid => { w with table := Function.update w.table pid none }
  | .cap env pressure capPercent topRss => capOffenders env pressure capPercent topRss w
  | .release env => releaseCaps env w
  | .pressurePersists => clearCapTimers w
  | .prune readable => pruneCaps readable w
  | .restoreRuntime leases rest => restoreRuntimeCaps leases rest w

/-- Every entry that leaves in this step was released in this step. -/
def CapsPaid (w : CapWorld) (i : CapInput) : Prop :=
  ∀ pid e, w.caps.cappedPids.lookup pid = some e →
    (capsStep w i).caps.cappedPids.lookup pid ≠ some e → ⟨pid, e⟩ ∈ (capsStep w i).released

/-- A prune finds no entry whose process reads as gone or replaced. -/
def PruneFindsAlive (w : CapWorld) : CapInput → Prop
  | .prune readable => ∀ pid e, w.caps.cappedPids.lookup pid = some e →
      (processIdentityStatus w.table (readable pid) pid e.identity).dead = false
  | _ => True

/-! ## Proofs -/

/-- Every entry of `w` is still there or has been released on the way to `w'`. -/
def PaidSince (w w' : CapWorld) : Prop :=
  ∀ pid e, w.caps.cappedPids.lookup pid = some e →
    w'.caps.cappedPids.lookup pid = some e ∨ ⟨pid, e⟩ ∈ w'.released

theorem PaidSince.of_eq {w w' : CapWorld} (h : w'.caps.cappedPids = w.caps.cappedPids) :
    PaidSince w w' := fun pid e he => Or.inl (by rw [h]; exact he)

/-- A released entry stays released while more are. -/
theorem PaidSince.trans {w₁ w₂ w₃ : CapWorld} (h : PaidSince w₁ w₂) (h' : PaidSince w₂ w₃)
    (hmono : w₂.released ⊆ w₃.released) : PaidSince w₁ w₃ := by
  intro pid e he
  rcases h pid e he with h1 | h1
  · exact h' pid e h1
  · exact Or.inr (hmono h1)

theorem paidSince_pay {w : CapWorld} {pid : Pid} {e : CapEntry}
    (he : w.caps.cappedPids.lookup pid = some e) : PaidSince w (w.pay pid e) := by
  intro pid' e' he'
  by_cases hp : pid' = pid
  · subst hp
    rw [he] at he'
    cases he'
    exact Or.inr List.mem_cons_self
  · exact Or.inl (by simpa [CapWorld.pay, removeCpuCap, hp] using he')

/-- A step that pays for what it drops and forgets no payment. -/
structure Pays (w w' : CapWorld) : Prop where
  paid : PaidSince w w'
  kept : w.released ⊆ w'.released

theorem Pays.refl (w : CapWorld) : Pays w w := ⟨PaidSince.of_eq rfl, fun _ h => h⟩

theorem Pays.trans {w₁ w₂ w₃ : CapWorld} (h : Pays w₁ w₂) (h' : Pays w₂ w₃) : Pays w₁ w₃ :=
  ⟨h.paid.trans h'.paid h'.kept, fun _ hr => h'.kept (h.kept hr)⟩

theorem Pays.pay {w : CapWorld} {pid : Pid} {e : CapEntry}
    (he : w.caps.cappedPids.lookup pid = some e) : Pays w (w.pay pid e) :=
  ⟨paidSince_pay he, fun _ hr => List.mem_cons_of_mem _ hr⟩

/-- Only bookkeeping maps change. -/
theorem Pays.caps (w : CapWorld) {c : CapState} (h : c.cappedPids = w.caps.cappedPids) :
    Pays w { w with caps := c } := ⟨PaidSince.of_eq h, fun _ hr => hr⟩

theorem Pays.foldl {α : Type} {f : CapWorld → α → CapWorld} (hf : ∀ w a, Pays w (f w a)) :
    ∀ (xs : List α) (w : CapWorld), Pays w (xs.foldl f w)
  | [], w => Pays.refl w
  | a :: xs, w => (hf w a).trans (Pays.foldl hf xs (f w a))

theorem capStep_pays (env : CapEnv) (w : CapWorld) (p : ProcSample) : Pays w (capStep env w p) := by
  unfold capStep
  split
  · exact Pays.refl w
  · rename_i hnew
    split
    · exact Pays.refl w
    · split
      · exact Pays.refl w
      · refine ⟨fun pid e he => Or.inl ?_, fun _ hr => hr⟩
        have hne : pid ≠ p.pid := by
          rintro rfl
          rw [he] at hnew
          exact hnew rfl
        simpa [hne] using he

theorem releaseLegacyCap_pays (env : UncapEnv) {w : CapWorld} {pid : Pid} {e : CapEntry}
    (he : w.caps.cappedPids.lookup pid = some e) (allow : Bool) :
    Pays w (releaseLegacyCap env w pid e allow) := by
  unfold releaseLegacyCap
  simp only
  split
  · refine (Pays.caps w ?_).trans (Pays.pay ?_)
    · rfl
    · exact he
  · exact Pays.caps w rfl

theorem releaseCap_pays (env : CapReleaseEnv) (w : CapWorld) (pid : Pid) :
    Pays w (releaseCap env w pid) := by
  unfold releaseCap
  split
  · exact Pays.refl w
  · rename_i e he
    split
    · split
      · exact Pays.pay he
      · exact Pays.refl w
    · split
      · exact releaseLegacyCap_pays _ he true
      · exact releaseLegacyCap_pays _ he true
      · exact releaseLegacyCap_pays _ he false
      · exact Pays.caps w rfl

theorem restoreLease_pays (env : CapReleaseEnv) (w : CapWorld) (pid : Pid) :
    Pays w (restoreLease env w pid) := by
  unfold restoreLease
  split
  · exact Pays.refl w
  · rename_i e he
    split
    · exact Pays.pay he
    · exact Pays.refl w

theorem restoreCap_pays (env : CapReleaseEnv) (w : CapWorld) (pid : Pid) :
    Pays w (restoreCap env w pid) := by
  unfold restoreCap
  split
  · exact Pays.refl w
  · rename_i e he
    split
    · split
      · exact Pays.pay he
      · exact Pays.refl w
    · split
      · exact Pays.pay he
      · exact Pays.refl w
    · split
      · exact Pays.pay he
      · exact Pays.refl w
    · exact Pays.refl w

/-- Every step but a prune pays for what it drops. -/
theorem capsStep_pays (w : CapWorld) (i : CapInput) (hi : ∀ readable, i ≠ .prune readable) :
    Pays { w with released := [] } (capsStep w i) := by
  cases i with
  | spawn pid p =>
    simp only [capsStep]
    split
    · exact Pays.refl _
    · exact ⟨PaidSince.of_eq rfl, fun _ hr => hr⟩
  | exit pid => exact ⟨PaidSince.of_eq rfl, fun _ hr => hr⟩
  | cap env pressure capPercent topRss =>
    simp only [capsStep, capOffenders]
    split
    · exact Pays.foldl (capStep_pays env) _ _
    · exact Pays.refl _
  | release env =>
    simp only [capsStep, releaseCaps]
    split
    · exact Pays.refl _
    · refine Pays.trans (Pays.caps _ ?_) (Pays.trans (Pays.foldl (releaseCap_pays env) _ _)
        (Pays.caps _ ?_))
      · rfl
      · rfl
  | pressurePersists => exact Pays.caps _ rfl
  | prune readable => exact absurd rfl (hi readable)
  | restoreRuntime leases rest =>
    simp only [capsStep, restoreRuntimeCaps]
    split
    · exact Pays.refl _
    · exact (Pays.foldl (restoreLease_pays leases) _ _).trans
        (Pays.foldl (restoreCap_pays rest) _ _)

/-- One step: its debts are paid exactly when a prune finds no dead entry. -/
theorem capsPaid_iff (w : CapWorld) (i : CapInput) : CapsPaid w i ↔ PruneFindsAlive w i := by
  by_cases hi : ∃ readable, i = .prune readable
  · obtain ⟨readable, rfl⟩ := hi
    have hkept : ∀ pid e, (capsStep w (.prune readable)).caps.cappedPids.lookup pid = some e ↔
        w.caps.cappedPids.lookup pid = some e ∧
          (processIdentityStatus w.table (readable pid) pid e.identity).dead = false := by
      intro pid e
      refine FinMap.lookup_retain_some.trans (and_congr_right fun _ => ?_)
      simp
    constructor
    · intro h pid e he
      -- a prune releases nothing, so a paid entry is one that stays
      by_contra hdead
      have := h pid e he fun hafter => hdead ((hkept pid e).1 hafter).2
      cases this
    · intro h pid e he hgone
      exact absurd ((hkept pid e).2 ⟨he, h pid e he⟩) hgone
  · have hne : ∀ readable, i ≠ .prune readable := fun readable h => hi ⟨readable, h⟩
    refine ⟨fun _ => ?_, fun _ pid e he hgone => ?_⟩
    · cases i <;> first | trivial | exact absurd rfl (hne _)
    · exact ((capsStep_pays w i hne).paid pid e he).resolve_left hgone

/-- **Cap debts leave on a release**, in a run of any length, exactly when no closing prune
finds an entry whose process is gone or replaced. -/
theorem capDebts_paid_iff (w : CapWorld) (is : List CapInput) :
    Runs.Along capsStep CapsPaid w is ↔ Runs.Along capsStep PruneFindsAlive w is :=
  Runs.along_congr capsPaid_iff

/-! ## The dropped debt -/

def buildEntry : CapEntry := ⟨"dracon-cpu-unit-00000000000000aa", "1", ⟨"cc1", 100⟩⟩

/-- A build, pid 7, in a scope the guard capped under a lease. -/
def cappedBuild : CapWorld where
  table := fun pid => if pid = 7 then some { ppid := 1, comm := "cc1", starttime := 100 } else none
  caps := { cappedPids := (∅ : FinMap Pid CapEntry).insert 7 buildEntry }

/-- The compiler exits, its scope lives on with the quota, and the prune drops the debt. -/
theorem pruned_cap_unpaid :
    ¬ ∀ (w : CapWorld) (is : List CapInput), Runs.Along capsStep CapsPaid w is := by
  intro h
  have hprune := (h cappedBuild [.exit 7, .prune fun _ => true]).2.1
  have hmem := hprune 7 buildEntry rfl (by decide)
  exact absurd hmem (by decide)

end DraconGuard
