import DraconGuard.Lib.Allowance
import DraconGuard.Clean.LiveTargets

/-!
# Preview, budget and protection of the two tiers

`auto_cleanup_rust_targets` (main.rs:3769) and `proactive_cleanup_rust_targets` (main.rs:4017)
go through their candidates in ascending size. All gates stand before `if apply`, so on a
machine that does not change a preview names what a call takes (`named_rustProgress`). The
budget of the stash is reserved at different places:

| tier | gates in order |
|------|----------------|
| action | size, age, build, last minute, **protected paths**, budget |
| proactive | size, age, build, budget, **protected paths** |

The proactive tier has reserved the bytes of a directory when it learns that the path is
protected (main.rs:4125, 4143), and never gives them back: a later directory is deferred that
would have fitted (`protected_target_defers`). Both tiers had the check "Hoisted so preview and
apply go through ONE check" (main.rs:3929, 4138), the action tier to a place before its budget.
`tier_law_iff` says when the proactive tier does as well without.
-/

namespace DraconGuard

open FileTree
open Allowance (select selectCharged NoWaste RefusedOver fits)

/-! ## The selection -/

section Selection

variable (policy : RustPolicy) (projects : List Location) (host : RustHost)

/-- Past the gates on size, age and builds. -/
def RustTier.contends (target : TargetDirInfo) (tier : RustTier) : Bool :=
  !decide (target.bytes < policy.minSizeBytes) && !tier.lingers policy target &&
    !hasActiveBuild projects target.path && !tier.seesModified host target

/-- Not refused as protected. -/
def pathAllowed (target : TargetDirInfo) : Bool :=
  (checkSafeToDeleteGuard host.toDisk target.path policy.protectedPaths).toOption.isSome

/-- The budget of a pass. 0 is unlimited, and so is one that saturates. -/
def passBudget : Option Nat :=
  let budget := stashBudgetBytes policy.stashMaxBytesPerPassMb
  if budget = u64Max then none else some budget

/-- What is left of the budget. -/
def budgetLeft (stashed : Nat) : Option Nat := (passBudget policy).map (· - stashed)

/-- The candidates of a call past those gates, the smallest first. -/
def contenders (tier : RustTier) : List TargetDirInfo :=
  (rustCandidates policy host).filter fun t =>
    tier.contends policy (callProjects host) host t

/-- The greedy selection of the candidates that pass every gate. -/
def greedySelection (tier : RustTier) : List TargetDirInfo :=
  select TargetDirInfo.bytes (passBudget policy) 0
    ((contenders policy host tier).filter (pathAllowed policy host))

end Selection

/-- A candidate by name. -/
def nameOf (target : TargetDirInfo) : String × Nat := (target.path, target.bytes)

/-- What a call names as cleaned. -/
def named (out : AutoCleanupResult) : List (String × Nat) :=
  out.cleaned.map fun c => (c.path, c.bytes)

/-! ## The law -/

/-- The gates read of the machine in a turn what they read at the start of the call. -/
structure ReadsAlike (policy : RustPolicy) (tier : RustTier) (host : RustHost) (turn : RustTurn) :
    Prop where
  path : pathAllowed policy turn.host turn.target = pathAllowed policy host turn.target
  modified : tier.seesModified turn.host turn.target = tier.seesModified host turn.target

/-- The move or the removal of a turn succeeds. -/
def RemovalSucceeds (policy : RustPolicy) (tier : RustTier) (turn : RustTurn)
    (checked : CheckedPath) : Prop :=
  if policy.cleanStashFirst then
    (stashFirstRemove turn.host turn.target.path policy.stashRoot
      policy.protectedPaths).2.toOption.isSome = true
  else (tier.remove turn.host turn.target checked).2 = true

/-- A call on a machine that does not change under it, where all it tries succeeds. -/
structure CalmCall (policy : RustPolicy) (call : RustCall) (host : RustHost) : Prop where
  steady : ∀ turn ∈ cleanupTurns policy call host, ReadsAlike policy call.tier host turn
  succeeds : call.apply = true → ∀ turn ∈ cleanupTurns policy call host, ∀ reserved checked,
    call.tier.judge policy (callProjects host) turn.host turn.progress.stashed turn.target =
      (reserved, .taken checked) → RemovalSucceeds policy call.tier turn checked

/-- Preview equals apply, and the budget is spent on eligible candidates only. -/
structure TierLaw (policy : RustPolicy) (tier : RustTier) (worlds : Nat → Fs FileData → RustHost)
    (host : RustHost) : Prop where
  same : ∀ preview applied,
    cleanupRustTargets policy ⟨tier, false, worlds⟩ host = .ok preview →
      cleanupRustTargets policy ⟨tier, true, worlds⟩ host = .ok applied →
        named preview = named applied
  greedy : policy.cleanStashFirst = true → ∀ apply out,
    cleanupRustTargets policy ⟨tier, apply, worlds⟩ host = .ok out →
      named out = (greedySelection policy host tier).map nameOf
  ascending : (greedySelection policy host tier).Pairwise fun a b => a.bytes ≤ b.bytes
  spared : policy.cleanStashFirst = true → ∀ apply,
    ∀ turn ∈ cleanupTurns policy ⟨tier, apply, worlds⟩ host,
      pathAllowed policy turn.host turn.target = false →
        budgetLeft policy (rustTurn policy ⟨tier, apply, worlds⟩ (callProjects host) turn.host
            turn.progress turn.target).2.stashed =
          budgetLeft policy turn.progress.stashed

/-- No protected candidate past the other gates fits into the budget on top of the eligible
ones before it. -/
def BudgetSpared (policy : RustPolicy) (tier : RustTier) (host : RustHost) : Prop :=
  ∀ bound, passBudget policy = some bound → policy.cleanStashFirst = true →
    tier = .proactive →
    (∃ builds, detectActiveRustBuilds host.ps = .ok builds) →
      RefusedOver TargetDirInfo.bytes bound (pathAllowed policy host) 0
        (contenders policy host tier)

/-! ## The verdicts -/

section Verdicts

variable {policy : RustPolicy} {projects : List Location} {host : RustHost} {tier : RustTier}
  {stashed : Nat} {target : TargetDirInfo}

/-- To be removed. -/
def RustVerdict.isTaken : RustVerdict → Bool
  | .taken _ => true
  | _ => false

theorem pathAllowed_iff :
    pathAllowed policy host target = true ↔
      ∃ checked, checkSafeToDeleteGuard host.toDisk target.path policy.protectedPaths =
        .ok checked := by
  unfold pathAllowed
  cases checkSafeToDeleteGuard host.toDisk target.path policy.protectedPaths with
  | error e => simp [Except.toOption]
  | ok checked => simp [Except.toOption]

/-- What is taken, in either tier. -/
theorem judge_isTaken :
    (tier.judge policy projects host stashed target).2.isTaken =
      (tier.contends policy projects host target && pathAllowed policy host target &&
        !policy.budgetSpent stashed target) := by
  rw [Bool.eq_iff_iff]
  constructor
  · intro h
    cases hjudge : tier.judge policy projects host stashed target with
    | mk reserved verdict =>
      rw [hjudge] at h
      cases verdict with
      | passedOver => cases h
      | kept why => cases h
      | taken checked =>
        obtain ⟨hlarge, hold, hidle, hquiet, hallowed, hbudget⟩ := judge_taken hjudge
        have hpath := pathAllowed_iff.mpr ⟨checked, hallowed⟩
        simp [RustTier.contends, hlarge, hold, hidle, hquiet, hpath, hbudget]
  · intro h
    simp only [RustTier.contends, Bool.and_eq_true, Bool.not_eq_true', decide_eq_false_iff_not]
      at h
    obtain ⟨⟨⟨⟨⟨hlarge, hold⟩, hidle⟩, hquiet⟩, hpath⟩, hbudget⟩ := h
    obtain ⟨checked, hallowed⟩ := pathAllowed_iff.mp hpath
    rw [judge_of_pastGates ⟨hlarge, hold, hidle, hquiet, hallowed, hbudget⟩]
    rfl

/-- The action tier reserves for what it takes. -/
theorem judge_reserved_action (bypass : Bool) :
    ((RustTier.action bypass).judge policy projects host stashed target).1 =
      if (RustTier.action bypass).contends policy projects host target &&
        pathAllowed policy host target && !policy.budgetSpent stashed target then
        policy.reserve stashed target else stashed := by
  unfold RustTier.contends RustTier.lingers RustTier.seesModified pathAllowed
  simp only [RustTier.judge, judgeAction]
  by_cases hsmall : target.bytes < policy.minSizeBytes
  · simp [hsmall]
  · rw [if_neg hsmall]
    split
    · next hold => simp [hold]
    · next hold =>
      split
      · next hbusy => simp [hbusy]
      · next hidle =>
        split
        · next hnow => simp [hnow]
        · next hquiet =>
          cases checkSafeToDeleteGuard host.toDisk target.path policy.protectedPaths with
          | error e => simp [Except.toOption]
          | ok checked =>
            have hold' : (!bypass && !rustTargetOldEnough target.mtimeSecsAgo
                policy.rustTargetActionMinAgeDays) = false := by simpa using hold
            cases hspent : policy.budgetSpent stashed target with
            | true => simp
            | false => simp [hsmall, hold', hidle, hquiet, Except.toOption]

/-- The proactive tier reserves before it looks at the path. -/
theorem judge_reserved_proactive :
    (RustTier.proactive.judge policy projects host stashed target).1 =
      if RustTier.proactive.contends policy projects host target &&
        !policy.budgetSpent stashed target then
        policy.reserve stashed target else stashed := by
  unfold RustTier.contends RustTier.lingers RustTier.seesModified
  simp only [RustTier.judge, judgeProactive]
  by_cases hsmall : target.bytes < policy.minSizeBytes
  · simp [hsmall]
  · rw [if_neg hsmall]
    split
    · next hold => simp [hold]
    · next hold =>
      split
      · next hbusy => simp [hbusy]
      · next hidle =>
        cases hspent : policy.budgetSpent stashed target with
        | true => simp
        | false =>
          have hcontends : (!decide (target.bytes < policy.minSizeBytes) &&
              !decide (target.mtimeSecsAgo < scaled policy.rustTargetMaxAgeDays 24 3600) &&
              !hasActiveBuild projects target.path && !false) = true := by
            simp [hsmall, hold, hidle]
          rw [if_neg Bool.false_ne_true, hcontends]
          cases checkSafeToDeleteGuard host.toDisk target.path policy.protectedPaths <;> rfl

/-- What is not past the gates before costs nothing. -/
theorem judge_of_not_contends (h : tier.contends policy projects host target = false) :
    (tier.judge policy projects host stashed target).2.isTaken = false ∧
      (tier.judge policy projects host stashed target).1 = stashed := by
  constructor
  · rw [judge_isTaken, h, Bool.false_and, Bool.false_and]
  · cases tier with
    | action bypass =>
      rw [judge_reserved_action, h, Bool.false_and, Bool.false_and, if_neg Bool.false_ne_true]
    | proactive =>
      rw [judge_reserved_proactive, h, Bool.false_and, if_neg Bool.false_ne_true]

end Verdicts

/-! ## One turn -/

section Turn

variable {policy : RustPolicy} {call : RustCall} {projects : List Location} {host : RustHost}
  {turn : RustTurn} {p : RustProgress} {target : TargetDirInfo}

/-- Of the machine a turn finds the verdict depends on what the gates read. -/
theorem ReadsAlike.contends {tier : RustTier} (h : ReadsAlike policy tier host turn) :
    tier.contends policy projects turn.host turn.target =
      tier.contends policy projects host turn.target := by
  unfold RustTier.contends
  rw [h.modified]

theorem ReadsAlike.isTaken {tier : RustTier} (h : ReadsAlike policy tier host turn)
    (stashed : Nat) :
    (tier.judge policy projects turn.host stashed turn.target).2.isTaken =
      (tier.judge policy projects host stashed turn.target).2.isTaken := by
  rw [judge_isTaken, judge_isTaken, h.contends, h.path]

theorem ReadsAlike.reserved {tier : RustTier} (h : ReadsAlike policy tier host turn)
    (stashed : Nat) :
    (tier.judge policy projects turn.host stashed turn.target).1 =
      (tier.judge policy projects host stashed turn.target).1 := by
  cases tier with
  | action bypass => rw [judge_reserved_action, judge_reserved_action, h.contends, h.path]
  | proactive => rw [judge_reserved_proactive, judge_reserved_proactive, h.contends]

/-- After a turn the verdict's bytes are reserved. -/
theorem rustTurn_stashed :
    (rustTurn policy call projects host p target).2.stashed =
      (call.tier.judge policy projects host p.stashed target).1 := by
  unfold rustTurn
  split
  · next hjudge => rw [hjudge]
  · next hjudge => rw [hjudge]
  · next hjudge =>
    rw [hjudge]
    unfold takeTarget
    split
    · rfl
    · split
      · split <;> rfl
      · split <;> rfl

theorem named_count (p : RustProgress) (target : TargetDirInfo) (freed : Option Nat) :
    named (p.count target freed).out = named p.out ++ [nameOf target] := by
  simp [named, nameOf, RustProgress.count]

/-- A turn names what it takes, and nothing else. -/
theorem named_rustTurn (turn : RustTurn)
    (hsucceeds : call.apply = true → ∀ reserved checked,
      call.tier.judge policy projects turn.host turn.progress.stashed turn.target =
        (reserved, .taken checked) → RemovalSucceeds policy call.tier turn checked) :
    named (rustTurn policy call projects turn.host turn.progress turn.target).2.out =
      named turn.progress.out ++
        if (call.tier.judge policy projects turn.host turn.progress.stashed turn.target).2.isTaken
        then [nameOf turn.target] else [] := by
  unfold rustTurn
  split
  · next hjudge =>
    rw [hjudge]
    exact (List.append_nil _).symm
  · next hjudge =>
    rw [hjudge]
    exact (List.append_nil _).symm
  · next reserved checked hjudge =>
    rw [hjudge]
    change _ = named turn.progress.out ++ [nameOf turn.target]
    unfold takeTarget
    cases happly : call.apply with
    | false => exact named_count _ _ _
    | true =>
      have hdone := hsucceeds happly reserved checked hjudge
      unfold RemovalSucceeds at hdone
      rw [Bool.not_true, if_neg Bool.false_ne_true]
      split
      · next hfirst =>
        rw [if_pos hfirst] at hdone
        split
        · exact named_count _ _ _
        · next hrun =>
          rw [hrun] at hdone
          cases hdone
      · next hfirst =>
        rw [if_neg hfirst] at hdone
        split
        · exact named_count _ _ _
        · next hrun =>
          rw [hrun] at hdone
          cases hdone

end Turn

/-! ## A whole pass -/

section Pass

variable (policy : RustPolicy) (projects : List Location) (host : RustHost) (tier : RustTier)

/-- What a pass over the candidates takes on a machine that stays as it is. -/
def chosen : Nat → List TargetDirInfo → List TargetDirInfo
  | _, [] => []
  | stashed, target :: rest =>
    let judged := tier.judge policy projects host stashed target
    if judged.2.isTaken then target :: chosen judged.1 rest else chosen judged.1 rest

variable {policy projects host tier} {call : RustCall}

theorem chosen_of_not_contends {stashed : Nat} {target : TargetDirInfo}
    {rest : List TargetDirInfo} (h : tier.contends policy projects host target = false) :
    chosen policy projects host tier stashed (target :: rest) =
      chosen policy projects host tier stashed rest := by
  obtain ⟨htaken, hstashed⟩ := judge_of_not_contends h
  rw [chosen, htaken, hstashed, if_neg Bool.false_ne_true]

/-- **A pass names what it takes**, in a preview and in a call that applies. -/
theorem named_rustProgress {targets : List TargetDirInfo} {n : Nat} {fs : Fs FileData}
    {p : RustProgress}
    (hsteady : ∀ turn ∈ rustTurns policy call projects n fs p targets,
      ReadsAlike policy call.tier host turn)
    (hsucceeds : call.apply = true → ∀ turn ∈ rustTurns policy call projects n fs p targets,
      ∀ reserved checked,
        call.tier.judge policy projects turn.host turn.progress.stashed turn.target =
          (reserved, .taken checked) → RemovalSucceeds policy call.tier turn checked) :
    named (rustProgress policy call projects n fs p targets).out =
      named p.out ++ (chosen policy projects host call.tier p.stashed targets).map nameOf := by
  induction targets generalizing n fs p with
  | nil => exact (List.append_nil _).symm
  | cons target rest ih =>
    rw [rustTurns, List.forall_mem_cons] at hsteady
    obtain ⟨hhere, hlater⟩ := hsteady
    have hdone : call.apply = true → ∀ reserved checked,
        call.tier.judge policy projects (call.worlds n fs) p.stashed target =
          (reserved, .taken checked) →
            RemovalSucceeds policy call.tier ⟨call.worlds n fs, p, target⟩ checked :=
      fun happly => hsucceeds happly _ List.mem_cons_self
    have hnamed := named_rustTurn ⟨call.worlds n fs, p, target⟩ hdone
    have hrest := ih hlater fun happly turn hturn =>
      hsucceeds happly turn (List.mem_cons_of_mem _ hturn)
    rw [rustProgress]
    dsimp only at hnamed hrest ⊢
    rw [hrest, hnamed, rustTurn_stashed, hhere.reserved p.stashed, hhere.isTaken p.stashed, chosen]
    dsimp only
    split
    · rw [List.map_cons, List.append_assoc, List.singleton_append]
    · rw [List.append_nil]

end Pass

/-! ## The budget -/

section Budget

variable {policy : RustPolicy} {projects : List Location} {host : RustHost} {tier : RustTier}
  {stashed bound : Nat} {target : TargetDirInfo} {targets : List TargetDirInfo}

theorem filter_contends (h : tier.contends policy projects host target = true) :
    ((target :: targets).filter fun t => tier.contends policy projects host t) =
      target :: targets.filter fun t => tier.contends policy projects host t := by
  simp [h]

theorem filter_contends_not (h : tier.contends policy projects host target = false) :
    ((target :: targets).filter fun t => tier.contends policy projects host t) =
      targets.filter fun t => tier.contends policy projects host t := by
  simp [h]

theorem passBudget_some (h : passBudget policy = some bound) :
    stashBudgetBytes policy.stashMaxBytesPerPassMb = bound ∧ bound < u64Max := by
  unfold passBudget at h
  dsimp only at h
  split at h
  · cases h
  · next hne =>
    obtain rfl := Option.some.inj h
    have hle : stashBudgetBytes policy.stashMaxBytesPerPassMb ≤ u64Max := by
      unfold stashBudgetBytes scaled
      split
      · exact Nat.le_refl _
      · exact Nat.min_le_right _ _
    exact ⟨rfl, Nat.lt_of_le_of_ne hle hne⟩

/-- The sum saturates above every budget but the unlimited one. -/
theorem budgetSpent_eq (hfirst : policy.cleanStashFirst = true) :
    policy.budgetSpent stashed target = !fits (passBudget policy) (stashed + target.bytes) := by
  unfold RustPolicy.budgetSpent stashOverBudget
  rw [hfirst, Bool.true_and]
  cases hbudget : passBudget policy with
  | none =>
    have hmax : stashBudgetBytes policy.stashMaxBytesPerPassMb = u64Max := by
      by_contra hne
      simp [passBudget, hne] at hbudget
    rw [hmax, Allowance.fits_none, Bool.not_true, decide_eq_false_iff_not]
    omega
  | some bound =>
    obtain ⟨hbound, hsmall⟩ := passBudget_some hbudget
    rw [hbound, Allowance.fits_some, ← decide_not, decide_eq_decide]
    omega

/-- What fits is reserved in full. -/
theorem reserve_eq (hfirst : policy.cleanStashFirst = true)
    (hbudget : passBudget policy = some bound) (hfits : stashed + target.bytes ≤ bound) :
    policy.reserve stashed target = stashed + target.bytes := by
  obtain ⟨-, hsmall⟩ := passBudget_some hbudget
  unfold RustPolicy.reserve
  rw [if_pos hfirst]
  omega

/-- Without a bound all that pass the other gates are taken. -/
theorem chosen_unlimited (hfirst : policy.cleanStashFirst = true)
    (hbudget : passBudget policy = none) :
    chosen policy projects host tier stashed targets =
      (targets.filter fun t => tier.contends policy projects host t).filter
        (pathAllowed policy host) := by
  induction targets generalizing stashed with
  | nil => rfl
  | cons target rest ih =>
    cases hcontends : tier.contends policy projects host target with
    | false => rw [filter_contends_not hcontends, chosen_of_not_contends hcontends, ih]
    | true =>
      rw [filter_contends hcontends, chosen, judge_isTaken, hcontends, budgetSpent_eq hfirst,
        hbudget, Allowance.fits_none, ih, Bool.true_and, Bool.not_true, Bool.not_false,
        Bool.and_true]
      cases hallowed : pathAllowed policy host target with
      | false => rw [List.filter_cons_of_neg (by simp [hallowed]), if_neg Bool.false_ne_true]
      | true => rw [List.filter_cons_of_pos hallowed, if_pos rfl]

/-- The action tier pays for what it takes. -/
theorem chosen_action {bypass : Bool} (hfirst : policy.cleanStashFirst = true)
    (hbudget : passBudget policy = some bound) :
    chosen policy projects host (.action bypass) stashed targets =
      select TargetDirInfo.bytes (some bound) stashed
        ((targets.filter fun t => (RustTier.action bypass).contends policy projects host t).filter
          (pathAllowed policy host)) := by
  induction targets generalizing stashed with
  | nil => rfl
  | cons target rest ih =>
    cases hcontends : (RustTier.action bypass).contends policy projects host target with
    | false => rw [filter_contends_not hcontends, chosen_of_not_contends hcontends, ih]
    | true =>
      rw [filter_contends hcontends, chosen, judge_isTaken, judge_reserved_action, hcontends,
        budgetSpent_eq hfirst, hbudget, Bool.not_not, Bool.true_and]
      cases hallowed : pathAllowed policy host target with
      | false =>
        rw [List.filter_cons_of_neg (by simp [hallowed]), Bool.false_and,
          if_neg Bool.false_ne_true, if_neg Bool.false_ne_true, ih]
      | true =>
        rw [List.filter_cons_of_pos hallowed, Bool.true_and, select]
        by_cases hfits : stashed + target.bytes ≤ bound
        · rw [Allowance.fits_some, decide_eq_true hfits, if_pos rfl, if_pos rfl, if_pos rfl,
            reserve_eq hfirst hbudget hfits, ih]
        · rw [Allowance.fits_some, decide_eq_false hfits, if_neg Bool.false_ne_true,
            if_neg Bool.false_ne_true, if_neg Bool.false_ne_true, ih]

/-- The proactive tier pays before it asks whether it may. -/
theorem chosen_proactive (hfirst : policy.cleanStashFirst = true)
    (hbudget : passBudget policy = some bound) :
    chosen policy projects host .proactive stashed targets =
      selectCharged TargetDirInfo.bytes (some bound) (pathAllowed policy host) stashed
        (targets.filter fun t => RustTier.proactive.contends policy projects host t) := by
  induction targets generalizing stashed with
  | nil => rfl
  | cons target rest ih =>
    cases hcontends : RustTier.proactive.contends policy projects host target with
    | false => rw [filter_contends_not hcontends, chosen_of_not_contends hcontends, ih]
    | true =>
      rw [filter_contends hcontends, chosen, judge_isTaken, judge_reserved_proactive, hcontends,
        budgetSpent_eq hfirst, hbudget, Bool.not_not, Bool.true_and, Bool.true_and, selectCharged]
      by_cases hfits : stashed + target.bytes ≤ bound
      · rw [Allowance.fits_some, decide_eq_true hfits, if_pos rfl, if_pos rfl,
          reserve_eq hfirst hbudget hfits, ih, Bool.and_true]
      · rw [Allowance.fits_some, decide_eq_false hfits, if_neg Bool.false_ne_true, Bool.and_false,
          if_neg Bool.false_ne_true, if_neg Bool.false_ne_true, ih]

end Budget

/-! ## Refused candidates -/

section Refused

variable {policy : RustPolicy} {call : RustCall} {projects : List Location} {host : RustHost}
  {bound : Nat}

/-- A turn leaves the budget alone where its candidate is refused. -/
def SparesBudget (policy : RustPolicy) (call : RustCall) (projects : List Location)
    (turn : RustTurn) : Prop :=
  pathAllowed policy turn.host turn.target = false →
    budgetLeft policy
        (rustTurn policy call projects turn.host turn.progress turn.target).2.stashed =
      budgetLeft policy turn.progress.stashed

theorem sparesBudget_unlimited (hbudget : passBudget policy = none) (turn : RustTurn) :
    SparesBudget policy call projects turn := by
  intro _
  unfold budgetLeft
  rw [hbudget]
  rfl

/-- The action tier has looked at the path before. -/
theorem sparesBudget_action {bypass : Bool} (htier : call.tier = .action bypass)
    (turn : RustTurn) : SparesBudget policy call projects turn := by
  intro hrefused
  rw [rustTurn_stashed, htier, judge_reserved_action, hrefused, Bool.and_false, Bool.false_and,
    if_neg Bool.false_ne_true]

/-- **The turns of the proactive tier** leave the budget alone exactly when nothing is wasted. -/
theorem sparesBudget_proactive_iff {targets : List TargetDirInfo} {n : Nat} {fs : Fs FileData}
    {p : RustProgress} (htier : call.tier = .proactive) (hfirst : policy.cleanStashFirst = true)
    (hbudget : passBudget policy = some bound)
    (hsteady : ∀ turn ∈ rustTurns policy call projects n fs p targets,
      ReadsAlike policy call.tier host turn) :
    (∀ turn ∈ rustTurns policy call projects n fs p targets,
        SparesBudget policy call projects turn) ↔
      NoWaste TargetDirInfo.bytes bound (pathAllowed policy host) p.stashed
        (targets.filter fun t => RustTier.proactive.contends policy projects host t) := by
  induction targets generalizing n fs p with
  | nil => exact iff_of_true (fun _ hturn => absurd hturn List.not_mem_nil) trivial
  | cons target rest ih =>
    rw [rustTurns, List.forall_mem_cons] at hsteady ⊢
    obtain ⟨hhere, hlater⟩ := hsteady
    have hreserved : (rustTurn policy call projects (call.worlds n fs) p target).2.stashed =
        if RustTier.proactive.contends policy projects host target &&
          decide (p.stashed + target.bytes ≤ bound) then
          policy.reserve p.stashed target else p.stashed := by
      have halike : (call.tier.judge policy projects (call.worlds n fs) p.stashed target).1 =
          (call.tier.judge policy projects host p.stashed target).1 := hhere.reserved p.stashed
      rw [rustTurn_stashed, halike, htier, judge_reserved_proactive, budgetSpent_eq hfirst,
        hbudget, Allowance.fits_some, Bool.not_not]
    have hpath := hhere.path
    dsimp only at hpath
    rw [ih hlater, hreserved]
    unfold SparesBudget
    dsimp only
    rw [hpath, hreserved]
    cases hcontends : RustTier.proactive.contends policy projects host target with
    | false =>
      rw [filter_contends_not hcontends, Bool.false_and,
        if_neg Bool.false_ne_true]
      exact and_iff_right fun _ => rfl
    | true =>
      rw [filter_contends hcontends, Bool.true_and, NoWaste]
      by_cases hfits : p.stashed + target.bytes ≤ bound
      · rw [decide_eq_true hfits, if_pos rfl, if_pos hfits, reserve_eq hfirst hbudget hfits]
        refine and_congr_left fun _ => ?_
        unfold budgetLeft
        rw [hbudget, Option.map_some, Option.map_some, Option.some_inj]
        constructor
        · intro hsame _ hrefused
          have := hsame hrefused
          omega
        · intro hfree hrefused
          rw [hfree hfits hrefused, Nat.add_zero]
      · rw [decide_eq_false hfits, if_neg Bool.false_ne_true, if_neg hfits]
        exact and_congr_left fun _ => iff_of_true (fun _ => rfl) fun hyes => absurd hyes hfits

end Refused

/-! ## Whole calls -/

section Calls

variable {policy : RustPolicy} {call : RustCall} {host : RustHost} {tier : RustTier} {bound : Nat}

theorem rustCandidates_ascend :
    (rustCandidates policy host).Pairwise fun a b => a.bytes ≤ b.bytes := by
  let before := fun a b : TargetDirInfo => a.bytes ≤ b.bytes
  have : Std.Total before := ⟨fun a b => Nat.le_total a.bytes b.bytes⟩
  have : IsTrans TargetDirInfo before := ⟨fun _ _ _ => Nat.le_trans⟩
  exact List.pairwise_insertionSort before _

theorem contenders_ascend :
    (contenders policy host tier).Pairwise fun a b => a.bytes ≤ b.bytes :=
  rustCandidates_ascend.sublist List.filter_sublist

theorem rustCandidates_of_no_roots (h : rustRoots policy host = []) :
    rustCandidates policy host = [] := by
  unfold rustCandidates
  rw [h]
  rfl

theorem greedySelection_ascend :
    (greedySelection policy host tier).Pairwise fun a b => a.bytes ≤ b.bytes :=
  contenders_ascend.sublist
    ((Allowance.select_sublist _ _ _).trans List.filter_sublist)

/-- A call that ends well has no candidates, or a list of the builds. -/
theorem cleanup_ok {out : AutoCleanupResult} (h : cleanupRustTargets policy call host = .ok out) :
    rustCandidates policy host = [] ∨ ∃ builds, detectActiveRustBuilds host.ps = .ok builds := by
  unfold cleanupRustTargets at h
  split at h
  · next hroots => exact Or.inl (rustCandidates_of_no_roots hroots)
  · cases hbuilds : detectActiveRustBuilds host.ps with
    | error e =>
      rw [hbuilds] at h
      cases h
    | ok builds => exact Or.inr ⟨builds, rfl⟩

/-- A calm call names what a pass over the machine as it is takes. -/
theorem named_cleanup (hcalm : CalmCall policy call host) {out : AutoCleanupResult}
    (hout : cleanupRustTargets policy call host = .ok out) :
    named out = (chosen policy (callProjects host) host call.tier 0
      (rustCandidates policy host)).map nameOf := by
  obtain ⟨hsteady, hsucceeds⟩ := hcalm
  unfold cleanupTurns at hsteady hsucceeds
  unfold cleanupRustTargets at hout
  split at hout
  · next hroots =>
    -- no root, no candidate
    obtain rfl := Except.ok.inj hout
    rw [rustCandidates_of_no_roots hroots]
    rfl
  · cases hbuilds : detectActiveRustBuilds host.ps with
    | error e =>
      rw [hbuilds] at hout
      cases hout
    | ok builds =>
      rw [hbuilds] at hout hsteady hsucceeds
      obtain rfl := Except.ok.inj hout
      exact named_rustProgress hsteady hsucceeds

/-- The greedy selection is taken exactly, where nothing is wasted. -/
theorem chosen_eq_greedy (hfirst : policy.cleanStashFirst = true)
    (hspared : ∀ bound, passBudget policy = some bound → tier = .proactive →
      RefusedOver TargetDirInfo.bytes bound (pathAllowed policy host) 0
        (contenders policy host tier)) :
    chosen policy (callProjects host) host tier 0 (rustCandidates policy host) =
      greedySelection policy host tier := by
  unfold greedySelection
  cases hbudget : passBudget policy with
  | none =>
    rw [Allowance.select_none]
    exact chosen_unlimited hfirst hbudget
  | some bound =>
    cases tier with
    | action bypass => exact chosen_action hfirst hbudget
    | proactive =>
      have hwaste := (Allowance.noWaste_iff (Nat.zero_le bound) contenders_ascend).mpr
        (hspared bound hbudget rfl)
      rw [← Allowance.selectCharged_eq_select hwaste]
      exact chosen_proactive hfirst hbudget

end Calls

/-- **When preview, budget and protection hold as they should**: in the action tier always, in
the proactive tier exactly when no protected candidate is paid for. -/
theorem tier_law_iff (policy : RustPolicy) (tier : RustTier)
    (worlds : Nat → Fs FileData → RustHost) (host : RustHost)
    (hcalm : ∀ apply, CalmCall policy ⟨tier, apply, worlds⟩ host) :
    TierLaw policy tier worlds host ↔ BudgetSpared policy tier host := by
  have hnamed : ∀ apply out, cleanupRustTargets policy ⟨tier, apply, worlds⟩ host = .ok out →
      named out = (chosen policy (callProjects host) host tier 0
        (rustCandidates policy host)).map nameOf :=
    fun apply out => named_cleanup (hcalm apply)
  have hturns : ∀ apply builds, detectActiveRustBuilds host.ps = .ok builds →
      cleanupTurns policy ⟨tier, apply, worlds⟩ host =
        rustTurns policy ⟨tier, apply, worlds⟩ (callProjects host) 0 host.fs {}
          (rustCandidates policy host) := by
    intro apply builds hbuilds
    unfold cleanupTurns
    rw [hbuilds]
  constructor
  · rintro ⟨-, -, -, hspared⟩ bound hbudget hfirst rfl ⟨builds, hbuilds⟩
    have hsteady := (hcalm false).steady
    have hspare := hspared hfirst false
    rw [hturns false builds hbuilds] at hsteady hspare
    have hwaste := (sparesBudget_proactive_iff rfl hfirst hbudget hsteady).mp hspare
    exact (Allowance.noWaste_iff (Nat.zero_le bound) contenders_ascend).mp hwaste
  · intro hspared
    refine ⟨fun preview applied hpreview happlied => ?_, fun hfirst apply out hout => ?_,
      greedySelection_ascend, fun hfirst apply turn hturn => ?_⟩
    · rw [hnamed false preview hpreview, hnamed true applied happlied]
    · rw [hnamed apply out hout, chosen_eq_greedy hfirst fun bound hbudget htier => ?_]
      rcases cleanup_ok hout with hnone | hbuilds
      · unfold contenders
        rw [hnone]
        exact Allowance.RefusedOver.nil
      · exact hspared bound hbudget hfirst htier hbuilds
    · cases hbuilds : detectActiveRustBuilds host.ps with
      | error e =>
        unfold cleanupTurns at hturn
        rw [hbuilds] at hturn
        cases hturn
      | ok builds =>
        rw [hturns apply builds hbuilds] at hturn
        cases hbudget : passBudget policy with
        | none => exact sparesBudget_unlimited hbudget turn
        | some bound =>
          cases tier with
          | action bypass => exact sparesBudget_action rfl turn
          | proactive =>
            have hsteady := (hcalm apply).steady
            rw [hturns apply builds hbuilds] at hsteady
            have hwaste := (Allowance.noWaste_iff (Nat.zero_le bound) contenders_ascend).mpr
              (hspared bound hbudget hfirst rfl ⟨builds, hbuilds⟩)
            exact (sparesBudget_proactive_iff rfl hfirst hbudget hsteady).mpr hwaste turn hturn

/-! ## A protected directory before one that fits -/

section Deferral

variable {policy : RustPolicy} {tier : RustTier} {host : RustHost}

/-- On a machine that stays as it is a call is calm when each candidate can be removed. -/
theorem calmCall_of_still
    (h : ∀ target ∈ rustCandidates policy host, ∀ stashed reserved checked,
      tier.judge policy (callProjects host) host stashed target = (reserved, .taken checked) →
        ∀ p, RemovalSucceeds policy tier ⟨host, p, target⟩ checked) (apply : Bool) :
    CalmCall policy ⟨tier, apply, fun _ _ => host⟩ host := by
  have hturns : ∀ targets n fs p,
      ∀ turn ∈ rustTurns policy ⟨tier, apply, fun _ _ => host⟩ (callProjects host) n fs p targets,
        turn.host = host ∧ turn.target ∈ targets := by
    intro targets
    induction targets with
    | nil => exact fun _ _ _ _ hturn => absurd hturn List.not_mem_nil
    | cons target rest ih =>
      intro n fs p turn hturn
      rcases List.mem_cons.mp hturn with rfl | hlater
      · exact ⟨rfl, List.mem_cons_self⟩
      · obtain ⟨hhost, hmem⟩ := ih _ _ _ turn hlater
        exact ⟨hhost, List.mem_cons_of_mem target hmem⟩
  have hall : ∀ turn ∈ cleanupTurns policy ⟨tier, apply, fun _ _ => host⟩ host,
      turn.host = host ∧ turn.target ∈ rustCandidates policy host := by
    unfold cleanupTurns
    cases detectActiveRustBuilds host.ps with
    | error e => exact fun _ hturn => absurd hturn List.not_mem_nil
    | ok builds => exact hturns _ _ _ _
  constructor
  · intro turn hturn
    obtain ⟨hhost, -⟩ := hall turn hturn
    constructor <;> rw [hhost]
  · rintro - ⟨found, p, target⟩ hturn reserved checked hjudge
    obtain ⟨rfl, hmem⟩ := hall _ hturn
    exact h target hmem p.stashed reserved checked hjudge p

private theorem stale_inRange :
    -(2 ^ 63 * 10 ^ 9) ≤ (10 ^ 18 : Int) ∧ (10 ^ 18 : Int) < 2 ^ 63 * 10 ^ 9 := by decide

private theorem passTime_inRange :
    -(2 ^ 63 * 10 ^ 9) ≤ (2 * 10 ^ 18 : Int) ∧ (2 * 10 ^ 18 : Int) < 2 ^ 63 * 10 ^ 9 := by decide

private theorem apps_valid : "apps".toList ≠ [] ∧ '/' ∉ "apps".toList := by decide

private theorem bots_valid : "bots".toList ≠ [] ∧ '/' ∉ "bots".toList := by decide

private theorem object_valid : "o".toList ≠ [] ∧ '/' ∉ "o".toList := by decide

private def appsName : Name := ⟨"apps", apps_valid⟩

private def botsName : Name := ⟨"bots", bots_valid⟩

private def objectName : Name := ⟨"o", object_valid⟩

/-- A project with something built, at the top of the tree. -/
private def addProject (fs : Fs FileData) (project : Name) : Fs FileData :=
  (((fs.insert [project] .dir).insert [project, cargoTomlName] (.file (.bytes []))).insert
    [project, targetName] .dir).insert [project, targetName, objectName] (.file (.bytes []))

private def twoProjects : Fs FileData := addProject (addProject ∅ appsName) botsName

private theorem twoProjects_closed : Closed twoProjects := FileTree.closed_of_keys (by decide)

/-- Two projects, a mebibyte built in the second. -/
private def budgetHost (appsBytes : Nat) : RustHost where
  fs := twoProjects
  closed := twoProjects_closed
  cwd := []
  cwd_dir := rfl
  mtime := fun _ => some ⟨10 ^ 18, stale_inRange⟩
  len := fun q => if q = [appsName, targetName, objectName] then appsBytes
    else if q = [botsName, targetName, objectName] then 2 ^ 20 else 0
  now := ⟨2 * 10 ^ 18, passTime_inRange⟩
  ps := .printed (some "7 sh\n")
  procs := some []

/-- A mebibyte for the stash, and the first project protected. -/
private def budgetPolicy : RustPolicy where
  searchRoots := ["/apps", "/bots"]
  cleanupMinSizeMb := 0
  rustTargetActionMinAgeDays := 7
  rustTargetMaxAgeDays := 14
  cleanStashFirst := true
  stashMaxBytesPerPassMb := 1
  stashRoot := "/stash"
  protectedPaths := ["/apps"]

private def appsTarget (bytes : Nat) : TargetDirInfo := ⟨"/apps/target", bytes, 1000000000⟩

private def botsTarget : TargetDirInfo := ⟨"/bots/target", 2 ^ 20, 1000000000⟩

/-- The first project cannot be touched, and what the second has built can be moved. -/
private theorem budgetHost_calm (bytes : Nat) (hbytes : bytes ∈ [2 ^ 20, 2 ^ 21]) (apply : Bool) :
    CalmCall budgetPolicy ⟨.proactive, apply, fun _ _ => budgetHost bytes⟩ (budgetHost bytes) := by
  have hpaths : ∀ bytes ∈ [2 ^ 20, 2 ^ 21],
      ∀ target ∈ rustCandidates budgetPolicy (budgetHost bytes),
        target.path = "/apps/target" ∨ target.path = "/bots/target" := by decide +kernel
  have hrefused : ∀ bytes ∈ [2 ^ 20, 2 ^ 21],
      (checkSafeToDeleteGuard (budgetHost bytes).toDisk "/apps/target"
        budgetPolicy.protectedPaths).toOption.isSome = false := by decide +kernel
  have hmoved : ∀ bytes ∈ [2 ^ 20, 2 ^ 21],
      (stashFirstRemove (budgetHost bytes) "/bots/target" budgetPolicy.stashRoot
        budgetPolicy.protectedPaths).2.toOption.isSome = true := by decide +kernel
  refine calmCall_of_still (fun target htarget stashed reserved checked hjudge p => ?_) apply
  have hallowed := (judge_taken hjudge).allowed
  rcases hpaths bytes hbytes target htarget with happs | hbots
  · have hno := hrefused bytes hbytes
    rw [happs] at hallowed
    rw [hallowed] at hno
    cases hno
  · have hfirst : budgetPolicy.cleanStashFirst = true := rfl
    unfold RemovalSucceeds
    rw [if_pos hfirst]
    dsimp only
    rw [hbots]
    exact hmoved bytes hbytes

/-- The protected mebibyte comes first and is paid for, and the other one is deferred. -/
theorem protected_target_defers :
    ¬ ∀ (policy : RustPolicy) (tier : RustTier) (worlds : Nat → Fs FileData → RustHost)
        (host : RustHost), (∀ apply, CalmCall policy ⟨tier, apply, worlds⟩ host) →
      TierLaw policy tier worlds host := by
  intro hlaw
  have hcalm := budgetHost_calm (2 ^ 20) (by decide)
  have hgreedy := (hlaw budgetPolicy .proactive (fun _ _ => budgetHost (2 ^ 20))
    (budgetHost (2 ^ 20)) hcalm).greedy rfl false
  have hends : (cleanupRustTargets budgetPolicy
      ⟨.proactive, false, fun _ _ => budgetHost (2 ^ 20)⟩
      (budgetHost (2 ^ 20))).toOption.isSome = true := by decide +kernel
  have hnothing : chosen budgetPolicy (callProjects (budgetHost (2 ^ 20))) (budgetHost (2 ^ 20))
      .proactive 0 (rustCandidates budgetPolicy (budgetHost (2 ^ 20))) = [] := by decide +kernel
  have hbots : greedySelection budgetPolicy (budgetHost (2 ^ 20)) .proactive = [botsTarget] := by
    decide +kernel
  cases hout : cleanupRustTargets budgetPolicy ⟨.proactive, false, fun _ _ => budgetHost (2 ^ 20)⟩
      (budgetHost (2 ^ 20)) with
  | error e =>
    rw [hout] at hends
    cases hends
  | ok out =>
    have hnamed := hgreedy out hout
    rw [named_cleanup (hcalm false) hout, hnothing, hbots] at hnamed
    cases hnamed

/-- Twice as large, the protected one comes last and does not fit any more. -/
theorem larger_target_spared :
    TierLaw budgetPolicy .proactive (fun _ _ => budgetHost (2 ^ 21)) (budgetHost (2 ^ 21)) := by
  refine (tier_law_iff budgetPolicy .proactive (fun _ _ => budgetHost (2 ^ 21))
    (budgetHost (2 ^ 21)) (budgetHost_calm (2 ^ 21) (by decide))).mpr ?_
  intro bound hbudget _ _ _
  have hcontenders : contenders budgetPolicy (budgetHost (2 ^ 21)) .proactive =
      [botsTarget, appsTarget (2 ^ 21)] := by decide +kernel
  have hbots : pathAllowed budgetPolicy (budgetHost (2 ^ 21)) botsTarget = true := by
    decide +kernel
  have hbound : passBudget budgetPolicy = some (2 ^ 20) := by decide +kernel
  obtain rfl := Option.some.inj (hbudget.symm.trans hbound)
  rw [hcontenders]
  refine Allowance.NoWaste.refusedOver (Nat.zero_le _) ⟨fun _ hno => ?_, fun hfits => ?_, trivial⟩
  · rw [hbots] at hno
    cases hno
  · exact absurd hfits (by decide)

end Deferral

end DraconGuard
