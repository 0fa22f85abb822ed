import DraconGuard.Clean.RustTargets
import DraconGuard.Clean.StashLaw

/-!
# Live state under a build directory

The hotspots' gate asks whether a service runs out of the directory. The two tiers ask about
builds, age, size and the protected paths, and never that: a directory the gate refuses is kept
by them only where one of their own gates stops it, or where nothing of it can be removed
(`TurnSpares`). `live_targets_kept_iff` says so for every turn of every call.
-/

namespace DraconGuard

open FileTree

/-! ## What a move takes from its origin -/

section Moves

variable {t : Disk FileData} {origin : String} {fs : Fs FileData} {p : Prepared}
  {faults : MoveFaults}

/-- The entry at `rel` does not come back: the data is in the stash, or its removal got to it, or
it was left behind on the way back. -/
def MoveTakes (faults : MoveFaults) (fs : Fs FileData) (p : Prepared) (rel : Location)
    (e : Entry FileData) : Prop :=
  (Carried faults fs p ∧ (PublishFails faults fs p →
      faults.moveBack = true ∨ carries faults e = false)) ∨
    (faults.rename = true ∧ CopySound faults fs p ∧
      ∃ gone, faults.removeOrigin = some gone ∧ rel ∈ gone)

/-- A removal of the origin that stops is no arrival. -/
theorem not_carried_of_stopped {gone : List Location} (hrename : faults.rename = true)
    (hremove : faults.removeOrigin = some gone) : ¬ Carried faults fs p := by
  rintro (hno | ⟨-, hnone⟩)
  · rw [hrename] at hno
    cases hno
  · rw [hremove] at hnone
    cases hnone

/-- **What is left of the origin**, entry by entry. -/
theorem lookup_completeMove (h : StashReady t origin fs p) (clock : StashClock)
    (jsonLength : StashManifest → Nat) (auto : Bool) {rel : Location} {e : Entry FileData}
    (he : fs.lookup (p.origin ++ rel) = some e) :
    (MoveTakes faults fs p rel e →
        (completeMove faults clock jsonLength auto p fs).fs.lookup (p.origin ++ rel) = none) ∧
      (¬ MoveTakes faults fs p rel e →
        (completeMove faults clock jsonLength auto p fs).fs.lookup (p.origin ++ rel) = some e ∧
          ∃ error, (completeMove faults clock jsonLength auto p fs).result = .error error) := by
  by_cases hcarried : Carried faults fs p
  · obtain ⟨after, hmove, hin, hgone⟩ := moveIntoEntry_carried h hcarried
    obtain ⟨manifest, length, hfs, hresult⟩ := completeMove_carried clock jsonLength auto hmove
    rw [hfs, hresult]
    by_cases hpublish : PublishFails faults fs p
    · obtain ⟨error, heq⟩ := publishManifest_error h hin hpublish manifest length
      rw [heq]
      by_cases hback : faults.moveBack = true
      · rw [if_pos hback]
        exact ⟨fun _ => hgone rel, fun hno => absurd (Or.inl ⟨hcarried, fun _ => Or.inl hback⟩) hno⟩
      · rw [if_neg hback, (lookup_moveBack h hin hgone).1 rel, he]
        cases hcarries : carries faults e with
        | false =>
          exact ⟨fun _ => by simp [Option.filter, hcarries],
            fun hno => absurd (Or.inl ⟨hcarried, fun _ => Or.inr hcarries⟩) hno⟩
        | true =>
          refine ⟨?_, fun _ => ⟨by simp [Option.filter, hcarries], error, rfl⟩⟩
          rintro (⟨-, hlost⟩ | ⟨hrename, -, gone, hremove, -⟩)
          · rcases hlost hpublish with hmoved | hleft
            · exact absurd hmoved hback
            · rw [hcarries] at hleft
              cases hleft
          · exact absurd hcarried (not_carried_of_stopped hrename hremove)
    · rw [publishManifest_ok h hin hpublish]
      refine ⟨fun _ => ?_, fun hno => absurd (Or.inl ⟨hcarried, fun hp => absurd hp hpublish⟩) hno⟩
      have hother : p.origin ++ rel ≠ p.entry ++ [manifestName] := fun heq =>
        h.entry_apart.symm.append_ne rel [manifestName] heq
      rw [AList.lookup_insert_ne hother]
      exact hgone rel
  · -- by copy, and either it failed or the removal of the origin did
    have hrename : faults.rename = true := by
      by_contra hno
      exact hcarried (Or.inl (by simpa using hno))
    by_cases hsound : CopySound faults fs p
    · cases hremove : faults.removeOrigin with
      | none => exact absurd (Or.inr ⟨hsound, hremove⟩) hcarried
      | some gone =>
        obtain ⟨after, hmove, -, horigin⟩ := moveIntoEntry_stopped h hrename hsound hremove
        rw [completeMove_failed clock jsonLength auto hmove]
        dsimp only
        rw [horigin rel]
        by_cases hin : rel ∈ gone
        · rw [if_pos hin]
          exact ⟨fun _ => rfl,
            fun hno => absurd (Or.inr ⟨hrename, hsound, gone, hremove, hin⟩) hno⟩
        · rw [if_neg hin]
          refine ⟨?_, fun _ => ⟨he, _, rfl⟩⟩
          rintro (⟨hyes, -⟩ | ⟨-, -, gone', hremove', hin'⟩)
          · exact absurd hyes hcarried
          · obtain rfl := Option.some.inj (hremove.symm.trans hremove')
            exact absurd hin' hin
    · obtain ⟨after, error, hmove, horigin⟩ := moveIntoEntry_uncopied h hrename hsound
      rw [completeMove_failed clock jsonLength auto hmove]
      refine ⟨?_, fun _ => ⟨(horigin rel).trans he, error, rfl⟩⟩
      rintro (⟨hyes, -⟩ | ⟨-, hyes, -⟩)
      · exact absurd hyes hcarried
      · exact absurd hyes hsound

end Moves

/-! ## What a removal takes -/

section Removals

variable {host : RustHost} {q place : Location}

/-- Every entry at and below `place` is still what it was. -/
def KeptBelow (fs after : Fs FileData) (place : Location) : Prop :=
  ∀ rel e, fs.lookup (place ++ rel) = some e → after.lookup (place ++ rel) = some e

theorem KeptBelow.refl (fs : Fs FileData) (place : Location) : KeptBelow fs fs place :=
  fun _ _ h => h

/-- A removal brings nothing back. -/
theorem lookup_removeDirAllAt_none {root p : Location} (stopped : Option (List Location))
    {fs : Fs FileData} (h : fs.lookup p = none) :
    (removeDirAllAt root stopped fs).1.lookup p = none := by
  cases stopped with
  | none => simp [removeDirAllAt, h]
  | some gone =>
    unfold removeDirAllAt
    rw [lookup_foldl_erase, h, ite_self]

theorem lookup_replaceGeneration_none {root : String} {canonRoot p : Location}
    {new : StashManifest} {fs : Fs FileData} (n : Name) (h : fs.lookup p = none) :
    (replaceGeneration host root canonRoot new fs n).lookup p = none := by
  unfold replaceGeneration
  dsimp only
  split
  · exact h
  · split
    · exact h
    · split
      · exact h
      · split
        · exact h
        · exact lookup_removeDirAllAt_none _ h

theorem lookup_replaceOlder_none {root : String} {new : StashManifest} {fs : Fs FileData}
    {p : Location} (h : fs.lookup p = none) :
    (replaceOlderAutoGenerations host root new fs).lookup p = none := by
  unfold replaceOlderAutoGenerations
  split
  · exact h
  · next canonRoot _ =>
    dsimp only
    exact List.foldlRecOn (motive := fun fs : Fs FileData => fs.lookup p = none) _ _ h
      fun fs hnone n _ => lookup_replaceGeneration_none n hnone

/-- The removal fails, and before it gets to anything at or below `place`. -/
def RemovalSpares (host : RustHost) (q place : Location) : Prop :=
  host.fs.lookup q = some .dir → ∃ gone, (host.removal q).stopped = some gone ∧
    ∀ rel ∈ gone, place <+: q ++ rel → host.fs.lookup (q ++ rel) = none

theorem removeResolved_spares_iff (hin : q <+: place) (hthere : (host.fs.lookup place).isSome) :
    KeptBelow host.fs (removeResolved host q).1 place ↔ RemovalSpares host q place := by
  unfold removeResolved RemovalSpares
  split
  · next hdir =>
    obtain ⟨e, he⟩ := Option.isSome_iff_exists.mp hthere
    rw [← List.append_nil place] at he
    cases hstopped : (host.removal q).stopped with
    | none =>
      constructor
      · intro hkept
        have hafter := hkept [] e he
        rw [List.append_nil] at hafter
        simp [removeDirAllAt, hin] at hafter
      · intro hspares
        obtain ⟨gone, hgone, -⟩ := hspares hdir
        cases hgone
    | some gone =>
      have hlook : ∀ p, (removeDirAllAt q (some gone) host.fs).1.lookup p =
          if ∃ rel ∈ gone, p = q ++ rel then none else host.fs.lookup p :=
        fun p => lookup_foldl_erase
      constructor
      · intro hkept _
        refine ⟨gone, rfl, fun rel hrel hbelow => ?_⟩
        obtain ⟨r, hr⟩ := hbelow
        cases hentry : host.fs.lookup (q ++ rel) with
        | none => rfl
        | some entry =>
          rw [← hr] at hentry
          have hafter := hkept r entry hentry
          rw [hlook, if_pos ⟨rel, hrel, hr⟩] at hafter
          cases hafter
      · intro hspares rel entry hentry
        obtain ⟨gone', hgone, hnone⟩ := hspares hdir
        obtain rfl := Option.some.inj hgone
        rw [hlook, if_neg, hentry]
        rintro ⟨r, hr, heq⟩
        have hlost := hnone r hr ⟨rel, heq⟩
        rw [← heq, hentry] at hlost
        cases hlost
  · next hdir =>
    exact iff_of_true (KeptBelow.refl _ _) fun hyes => absurd hyes (by simpa using hdir)

/-- The move into the stash is refused, or nothing at or below `place` is among what it takes. -/
def StashSpares (host : RustHost) (policy : RustPolicy) (path : String) (place : Location) : Prop :=
  ∀ fs p, stashPreflight host.toDisk host.moving host.clock path policy.stashRoot
      policy.protectedPaths = (fs, .ok p) →
    ∀ rel e, host.fs.lookup (p.origin ++ rel) = some e → place <+: p.origin ++ rel →
      ¬ MoveTakes host.moving fs p rel e

theorem stashFirstRemove_spares_iff {policy : RustPolicy} {path : String}
    (hq : host.canonicalize path = .ok q) (hin : q <+: place) :
    KeptBelow host.fs (stashFirstRemove host path policy.stashRoot policy.protectedPaths).1 place ↔
      StashSpares host policy path place := by
  unfold stashFirstRemove stashMoveInner StashSpares
  cases hpre : stashPreflight host.toDisk host.moving host.clock path policy.stashRoot
      policy.protectedPaths with
  | mk fs r =>
    have hgrown := stashPreflight_extends host.toDisk host.moving host.clock path policy.stashRoot
      policy.protectedPaths
    rw [hpre] at hgrown
    cases r with
    | error e =>
      refine iff_of_true (fun rel entry hentry => hgrown _ _ hentry) fun fs' p' hno => ?_
      cases hno
    | ok p =>
      obtain ⟨-, -, hready⟩ := stashPreflight_ready hpre
      obtain rfl : q = p.origin := Except.ok.inj (hq.symm.trans hready.canonical)
      dsimp only
      constructor
      · rintro hkept fs' p' heq rel e he ⟨r, hr⟩ htakes
        obtain ⟨rfl, rfl⟩ : fs = fs' ∧ p = p' := by simpa using heq
        have hlost := (lookup_completeMove hready host.clock host.jsonLength true
          (hgrown _ _ he)).1 htakes
        have hafter := hkept r e (by rw [hr]; exact he)
        rw [hr] at hafter
        split at hafter
        · rw [hlost] at hafter
          cases hafter
        · rw [lookup_replaceOlder_none hlost] at hafter
          cases hafter
      · intro hspares rel e he
        obtain ⟨r, rfl⟩ := hin
        rw [List.append_assoc] at he
        obtain ⟨hsame, error, herror⟩ := (lookup_completeMove hready host.clock host.jsonLength true
          (hgrown _ _ he)).2 (hspares fs p rfl (r ++ rel) e he
            ⟨rel, List.append_assoc p.origin r rel⟩)
        rw [herror, List.append_assoc]
        exact hsame

end Removals

/-! ## The gates -/

section Gates

variable (policy : RustPolicy) (projects : List Location) (host : RustHost)

/-- Too young for the tier. -/
def RustTier.lingers (target : TargetDirInfo) : RustTier → Bool
  | .action bypass =>
    !bypass && !rustTargetOldEnough target.mtimeSecsAgo policy.rustTargetActionMinAgeDays
  | .proactive => target.mtimeSecsAgo < scaled policy.rustTargetMaxAgeDays 24 3600

/-- Modified in the last minute, where the tier looks at that. -/
def RustTier.seesModified (target : TargetDirInfo) : RustTier → Bool
  | .action _ => recentlyActive host target.path
  | .proactive => false

/-- No gate of the tier stops the candidate. -/
structure PastGates (tier : RustTier) (stashed : Nat) (target : TargetDirInfo)
    (checked : CheckedPath) : Prop where
  large : ¬ target.bytes < policy.minSizeBytes
  old : tier.lingers policy target = false
  idle : hasActiveBuild projects target.path = false
  quiet : tier.seesModified host target = false
  allowed : checkSafeToDeleteGuard host.toDisk target.path policy.protectedPaths = .ok checked
  budget : policy.budgetSpent stashed target = false

variable {policy projects host} {tier : RustTier} {stashed : Nat} {target : TargetDirInfo}

theorem judge_taken {checked : CheckedPath} {reserved : Nat}
    (h : tier.judge policy projects host stashed target = (reserved, .taken checked)) :
    PastGates policy projects host tier stashed target checked := by
  cases tier with
  | action bypass =>
    simp only [RustTier.judge, judgeAction] at h
    split at h
    · cases h
    next hlarge =>
    split at h
    · cases h
    next hold =>
    split at h
    · cases h
    next hidle =>
    split at h
    · cases h
    next hquiet =>
    split at h
    · cases h
    next hallowed =>
    split at h
    · cases h
    next hbudget =>
    cases h
    exact ⟨hlarge, by simpa [RustTier.lingers] using hold, by simpa using hidle,
      by simpa [RustTier.seesModified] using hquiet, hallowed, by simpa using hbudget⟩
  | proactive =>
    simp only [RustTier.judge, judgeProactive] at h
    split at h
    · cases h
    next hlarge =>
    split at h
    · cases h
    next hold =>
    split at h
    · cases h
    next hidle =>
    split at h
    · cases h
    next hbudget =>
    split at h
    · cases h
    next hallowed =>
    cases h
    exact ⟨hlarge, by simpa [RustTier.lingers] using hold, by simpa using hidle, rfl, hallowed,
      by simpa using hbudget⟩

theorem judge_of_pastGates {checked : CheckedPath}
    (h : PastGates policy projects host tier stashed target checked) :
    tier.judge policy projects host stashed target =
      (policy.reserve stashed target, .taken checked) := by
  obtain ⟨hlarge, hold, hidle, hquiet, hallowed, hbudget⟩ := h
  cases tier with
  | action bypass =>
    simp only [RustTier.lingers, RustTier.seesModified] at hold hquiet
    simp [RustTier.judge, judgeAction, hlarge, hold, hidle, hquiet, hallowed, hbudget]
  | proactive =>
    simp only [RustTier.lingers, decide_eq_false_iff_not] at hold
    simp [RustTier.judge, judgeProactive, hlarge, hold, hidle, hallowed, hbudget]

end Gates

/-! ## The law -/

/-- The tree a turn of a call leaves. -/
def treeAfter (policy : RustPolicy) (call : RustCall) (host : RustHost) (turn : RustTurn) :
    Fs FileData :=
  (rustTurn policy call (callProjects host) turn.host turn.progress turn.target).1

/-- **What the gate refuses, the tiers keep.** In no turn a candidate that the hotspots' gate
refuses loses anything, be it the directory of the turn or one inside it; `why` says which
refusals count. -/
def LiveTargetsKept (why : ActivityRefusal → Bool) (policy : RustPolicy) (call : RustCall)
    (host : RustHost) : Prop :=
  ∀ turn ∈ cleanupTurns policy call host, ∀ candidate ∈ rustCandidates policy host,
    ∀ refusal, validateStorageCleanupActivity turn.host candidate.path = .error refusal →
      why refusal = true → ∀ q place, turn.host.canonicalize turn.target.path = .ok q →
        turn.host.canonicalize candidate.path = .ok place → q <+: place →
          KeptBelow turn.host.fs (treeAfter policy call host turn) place

/-- What keeps the directory `place` in a turn for the directory `q` it is or lies in. -/
inductive TurnSpares (policy : RustPolicy) (call : RustCall) (projects : List Location)
    (turn : RustTurn) (q place : Location) : Prop where
  | small (h : turn.target.bytes < policy.minSizeBytes)
  | lingering (h : call.tier.lingers policy turn.target = true)
  | building (h : hasActiveBuild projects turn.target.path = true)
  | justModified (h : call.tier.seesModified turn.host turn.target = true)
  | refused {e : String} (h : checkSafeToDeleteGuard turn.host.toDisk turn.target.path
      policy.protectedPaths = .error e)
  | overBudget (h : policy.budgetSpent turn.progress.stashed turn.target = true)
  | dryRun (h : call.apply = false)
  | unmoved (hfirst : policy.cleanStashFirst = true)
      (h : StashSpares turn.host policy turn.target.path place)
  | unremoved (hfirst : policy.cleanStashFirst = false) (h : RemovalSpares turn.host q place)

section Law

variable {policy : RustPolicy} {call : RustCall} {projects : List Location} {turn : RustTurn}
  {q place : Location}

/-- A turn whose candidate is not taken touches nothing. -/
theorem rustTurn_untaken
    (h : ∀ checked reserved, call.tier.judge policy projects turn.host turn.progress.stashed
      turn.target ≠ (reserved, .taken checked)) :
    (rustTurn policy call projects turn.host turn.progress turn.target).1 = turn.host.fs := by
  unfold rustTurn
  split
  · rfl
  · rfl
  · next reserved checked hjudge => exact absurd hjudge (h checked reserved)

/-- Either way a removal is one of the resolved directory. -/
theorem remove_eq_removeResolved {tier : RustTier} {checked : CheckedPath}
    (hq : turn.host.canonicalize turn.target.path = .ok q) (hchecked : checked = .canonical q) :
    tier.remove turn.host turn.target checked = removeResolved turn.host q := by
  subst hchecked
  cases tier with
  | action bypass =>
    unfold RustTier.remove removeAgain
    rw [hq]
  | proactive => rfl

/-- **One turn.** -/
theorem turnSpares_iff (hq : turn.host.canonicalize turn.target.path = .ok q)
    (hplace : (entryAt turn.host.fs place).isSome) (hin : q <+: place) :
    KeptBelow turn.host.fs (rustTurn policy call projects turn.host turn.progress turn.target).1
        place ↔ TurnSpares policy call projects turn q place := by
  by_cases hpast : ∃ checked, PastGates policy projects turn.host call.tier
      turn.progress.stashed turn.target checked
  · obtain ⟨checked, hpast⟩ := hpast
    obtain ⟨hlarge, hold, hidle, hquiet, hallowed, hbudget⟩ := hpast
    obtain ⟨hchecked, hroot, -, -⟩ := checkSafeToDeleteGuard_ok hq hallowed
    have hthere : (turn.host.fs.lookup place).isSome := by
      have hne : place ≠ [] := by
        rintro rfl
        exact hroot (List.prefix_nil.mp hin)
      rwa [entryAt, if_neg hne] at hplace
    -- the gates are open, so only the removal can spare it
    have hspares : TurnSpares policy call projects turn q place ↔
        call.apply = false ∨
          (policy.cleanStashFirst = true ∧ StashSpares turn.host policy turn.target.path place) ∨
          (policy.cleanStashFirst = false ∧ RemovalSpares turn.host q place) := by
      constructor
      · rintro (h | h | h | h | h | h | h | ⟨hfirst, h⟩ | ⟨hfirst, h⟩)
        · exact absurd h hlarge
        · simp [hold] at h
        · simp [hidle] at h
        · simp [hquiet] at h
        · rw [hallowed] at h
          cases h
        · simp [hbudget] at h
        · exact Or.inl h
        · exact Or.inr (Or.inl ⟨hfirst, h⟩)
        · exact Or.inr (Or.inr ⟨hfirst, h⟩)
      · rintro (h | ⟨hfirst, h⟩ | ⟨hfirst, h⟩)
        · exact .dryRun h
        · exact .unmoved hfirst h
        · exact .unremoved hfirst h
    rw [hspares]
    unfold rustTurn
    rw [judge_of_pastGates ⟨hlarge, hold, hidle, hquiet, hallowed, hbudget⟩]
    dsimp only
    unfold takeTarget
    cases happly : call.apply with
    | false => exact iff_of_true (KeptBelow.refl _ _) (Or.inl rfl)
    | true =>
      cases hfirst : policy.cleanStashFirst with
      | true =>
        have hmove : KeptBelow turn.host.fs (stashFirstRemove turn.host turn.target.path
            policy.stashRoot policy.protectedPaths).1 place ↔
              StashSpares turn.host policy turn.target.path place :=
          stashFirstRemove_spares_iff hq hin
        rw [Bool.not_true, if_neg Bool.false_ne_true, if_pos rfl]
        simp only [Bool.true_eq_false, false_and, or_false, false_or, true_and]
        rw [← hmove]
        split
        · next hrun => rw [hrun]
        · next hrun => rw [hrun]
      | false =>
        have hremove := removeResolved_spares_iff hin hthere
        rw [Bool.not_true, if_neg Bool.false_ne_true, if_neg Bool.false_ne_true,
          remove_eq_removeResolved hq hchecked]
        simp only [Bool.true_eq_false, Bool.false_eq_true, false_and, false_or, true_and]
        rw [← hremove]
        split
        · next hrun => rw [hrun]
        · next hrun => rw [hrun]
  · have huntaken :
        (rustTurn policy call projects turn.host turn.progress turn.target).1 = turn.host.fs :=
      rustTurn_untaken fun checked reserved hjudge => hpast ⟨checked, judge_taken hjudge⟩
    rw [huntaken]
    refine iff_of_true (KeptBelow.refl _ _) ?_
    -- one of the gates is shut
    by_contra hnone
    refine hpast ?_
    cases hcheck : checkSafeToDeleteGuard turn.host.toDisk turn.target.path
        policy.protectedPaths with
    | error e => exact absurd (.refused hcheck) hnone
    | ok checked =>
      refine ⟨checked, fun h => hnone (.small h), ?_, ?_, ?_, hcheck, ?_⟩
      · exact Bool.eq_false_iff.mpr fun h => hnone (.lingering h)
      · exact Bool.eq_false_iff.mpr fun h => hnone (.building h)
      · exact Bool.eq_false_iff.mpr fun h => hnone (.justModified h)
      · exact Bool.eq_false_iff.mpr fun h => hnone (.overBudget h)

end Law

/-- **When the tiers keep what the gate refuses**: exactly when each time one of their own gates
stops the turn, it is a dry run, or what removes the directory fails before it gets to it. -/
theorem live_targets_kept_iff (why : ActivityRefusal → Bool) (policy : RustPolicy)
    (call : RustCall) (host : RustHost) :
    LiveTargetsKept why policy call host ↔
      ∀ turn ∈ cleanupTurns policy call host, ∀ candidate ∈ rustCandidates policy host,
        ∀ refusal, validateStorageCleanupActivity turn.host candidate.path = .error refusal →
          why refusal = true → ∀ q place, turn.host.canonicalize turn.target.path = .ok q →
            turn.host.canonicalize candidate.path = .ok place → q <+: place →
              TurnSpares policy call (callProjects host) turn q place := by
  refine forall₂_congr fun turn _ => forall₂_congr fun candidate _ => forall₂_congr fun refusal _ =>
    forall₂_congr fun _ q => forall₂_congr fun place hq => forall₂_congr fun hplace hin => ?_
  exact turnSpares_iff hq (turn.host.canonicalize_exists hplace) hin

/-! ## A service that runs out of its build directory -/

section Service

private def projectName : Name := ⟨"p", by decide⟩

private def binaryName : Name := ⟨"dg", by decide⟩

/-- A project with a built binary. -/
private def serviceFs : Fs FileData :=
  ((((∅ : Fs FileData).insert [projectName] .dir).insert [projectName, cargoTomlName]
    (.file (.bytes []))).insert [projectName, targetName] .dir).insert
    [projectName, targetName, binaryName] (.file (.bytes []))

private theorem serviceFs_closed : Closed serviceFs := FileTree.closed_of_keys (by decide)

private theorem builtTime_inRange :
    -(2 ^ 63 * 10 ^ 9) ≤ (10 ^ 18 : Int) ∧ (10 ^ 18 : Int) < 2 ^ 63 * 10 ^ 9 := by decide

private theorem nowTime_inRange :
    -(2 ^ 63 * 10 ^ 9) ≤ (2 * 10 ^ 18 : Int) ∧ (2 * 10 ^ 18 : Int) < 2 ^ 63 * 10 ^ 9 := by decide

/-- The binary runs, and nothing else: no cargo, no rustc. -/
private def serviceHost : RustHost where
  fs := serviceFs
  closed := serviceFs_closed
  cwd := []
  cwd_dir := rfl
  mtime := fun _ => some ⟨10 ^ 18, builtTime_inRange⟩
  now := ⟨2 * 10 ^ 18, nowTime_inRange⟩
  ps := .printed (some "7 dg\n")
  procs := some [{ pid := 7, exe := some [projectName, targetName, binaryName] }]

private def directPolicy : RustPolicy where
  searchRoots := ["/p"]
  cleanupMinSizeMb := 0
  rustTargetActionMinAgeDays := 7
  rustTargetMaxAgeDays := 14
  cleanStashFirst := false
  stashMaxBytesPerPassMb := 0
  stashRoot := "/stash"
  protectedPaths := []

private def staleCall : RustCall where
  tier := .proactive
  apply := true
  worlds := fun _ _ => serviceHost

private def serviceTarget : TargetDirInfo := ⟨"/p/target", 0, 1000000000⟩

/-- The gate says the binary runs from inside; the proactive tier removes the directory. -/
theorem live_binary_removed :
    ¬ LiveTargetsKept ActivityRefusal.isService directPolicy staleCall serviceHost := by
  intro hkept
  have hcandidates : rustCandidates directPolicy serviceHost = [serviceTarget] := by
    decide +kernel
  have hbuilds : detectActiveRustBuilds serviceHost.ps = .ok [] := by decide +kernel
  have hturns : cleanupTurns directPolicy staleCall serviceHost =
      [⟨serviceHost, {}, serviceTarget⟩] := by
    unfold cleanupTurns
    rw [hbuilds, hcandidates]
    rfl
  have hrefused : validateStorageCleanupActivity serviceHost "/p/target" =
      .error (.liveBinary 7 [projectName, targetName, binaryName]) := by decide +kernel
  have hplace : serviceHost.canonicalize "/p/target" = .ok [projectName, targetName] := by
    decide +kernel
  have hturn : ⟨serviceHost, {}, serviceTarget⟩ ∈
      cleanupTurns directPolicy staleCall serviceHost := by
    rw [hturns]
    exact List.mem_singleton_self _
  have hcandidate : serviceTarget ∈ rustCandidates directPolicy serviceHost := by
    rw [hcandidates]
    exact List.mem_singleton_self _
  have hafter := hkept _ hturn _ hcandidate _ hrefused rfl _ _ hplace hplace (List.prefix_refl _)
    [] .dir (by decide +kernel)
  have hgone : (treeAfter directPolicy staleCall serviceHost
      ⟨serviceHost, {}, serviceTarget⟩).lookup [projectName, targetName] = none := by
    decide +kernel
  rw [List.append_nil, hgone] at hafter
  cases hafter

end Service

end DraconGuard
