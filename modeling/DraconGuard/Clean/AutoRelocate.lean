import DraconGuard.Clean.ColdScanLaw
import DraconGuard.Clean.RelocateLaw

/-!
# A pass of automatic relocation

`run_auto_relocate` (main.rs:10204-10329): cold directories are moved to the cold root one after
another, for as long as the disk stays above the action threshold.

| here | there |
| --- | --- |
| `passCandidates` | what comes before the loop, and its `take` (main.rs:10204-10249) |
| `autoTurn` | one turn of the loop (main.rs:10256-10313) |
| `PassLeaves` | the loop, with a crash anywhere in it |

Each turn looks at the disk as the turns before have left it: a plan that was sound when the
candidates were found need not be any more. `autoRelocate_keeps` says that no turn takes away what
another one has put in safety, or what is still to come.
-/

namespace Runs

variable {σ ι : Type*} {step : σ → ι → σ} {P : σ → Prop}

/-- What holds at every point of a run holds wherever it is cut off. -/
theorem Always.take (k : Nat) : ∀ {is : List ι} {s : σ}, Always step P s is →
    P (exec step s (is.take k)) := by
  induction k with
  | zero =>
    intro is s h
    cases is with
    | nil => exact h
    | cons i is => exact h.1
  | succ k ih =>
    intro is s h
    cases is with
    | nil => exact h
    | cons i is => exact ih h.2

end Runs

namespace FileTree

open Runs

variable {δ : Type}

/-- The effect changes nothing at `q`. -/
def FsStep.Spares (q : Location) : FsStep δ → Prop
  | .put p _ => p ≠ q
  | .erase p => p ≠ q
  | .clear p => ¬ p <+: q
  | .rename src dst => ¬ src <+: q ∧ ¬ dst <+: q

theorem FsStep.Spares.lookup {q : Location} {step : FsStep δ} (h : step.Spares q) (fs : Fs δ) :
    (step.apply fs).lookup q = fs.lookup q := by
  cases step with
  | put p entry => exact AList.lookup_insert_ne (Ne.symm h)
  | erase p => exact AList.lookup_erase_ne (Ne.symm h)
  | clear p => rw [FsStep.apply, lookup_removeSubtree, if_neg h]
  | rename src dst => exact lookup_rename_other h.1 h.2

theorem FsStep.Within.spares {root q : Location} {step : FsStep δ} (h : step.Within root)
    (hq : ¬ root <+: q) : step.Spares q := by
  cases step with
  | put p entry => exact fun hpq => hq (hpq ▸ h)
  | erase p => exact fun hpq => hq (hpq ▸ h)
  | clear p => exact fun hpq => hq (h.trans hpq)
  | rename src dst => exact ⟨fun hs => hq (h.1.trans hs), fun hd => hq (h.2.trans hd)⟩

/-- What every effect spares stays, wherever the script is cut off. -/
theorem spared_atEveryCrash {q : Location} {script : List (FsStep δ)} (fs : Fs δ)
    (h : ∀ step ∈ script, step.Spares q) :
    AtEveryCrash (fun s => s.lookup q = fs.lookup q) fs script := by
  have halong : Along FsStep.apply (fun _ step => step.Spares q) fs script :=
    Along.of_forall fun step hstep _ => h step hstep
  refine Along.always ?_ rfl halong
  exact fun s step hs hstep => (hstep.lookup s).trans hs

end FileTree

namespace DraconGuard

open FileTree Runs

/-! ## The pass -/

/-- What the policy has about it. -/
structure AutoRelocatePolicy where
  /-- `relocate_cold_root`, resolved. -/
  relocateColdRoot : String
  /-- `relocate_candidate_roots`: split, trimmed, expanded. -/
  relocateCandidateRoots : List String
  relocateMinSizeMb : Nat
  relocateMinAgeDays : Nat
  relocateMaxMovesPerPass : Nat
  diskActionPercent : Nat
  autoRelocateApply : Bool
  protectedPaths : List String

/-- `relocate_min_size_mb` in bytes; both products saturate. -/
def AutoRelocatePolicy.minBytes (policy : AutoRelocatePolicy) : Nat :=
  min (min (policy.relocateMinSizeMb * 1024) u64Max * 1024) u64Max

/-- What one turn of the loop meets. -/
structure RelocateTurn where
  /-- `disk_details_for`: the percentage in use, none where `df` cannot be read. -/
  usePercent : Option Nat
  probes : RelocateProbes
  /-- What `walk_stats_strict` fails with. -/
  walkError : Option String := none
  faults : RelocateFaults := {}

/-- How it ends. -/
inductive TurnEnd where
  /-- The pressure cannot be read: the pass ends. -/
  | paused
  /-- The disk is below the action threshold: the pass ends. -/
  | eased
  | refused (e : String)
  | notReady (issues : List String)
  | wouldMove (dest : Location)
  | moved (report : RelocateReport)
  | failed (e : String)
deriving DecidableEq

/-- `break`. -/
def TurnEnd.breaks : TurnEnd → Bool
  | .paused => true
  | .eased => true
  | _ => false

/-- The bytes of a move. -/
def TurnEnd.movedBytes : TurnEnd → Option Nat
  | .moved report => some report.bytes
  | _ => none

section Pass

variable (policy : AutoRelocatePolicy)

/-- The candidates a pass comes to. -/
def passCandidates (host : ColdHost FileData) : List ColdCandidate :=
  match host.canonicalize policy.relocateColdRoot with
  | .error _ => []
  | .ok q =>
    if (entryAt host.fs q).any Entry.isDir then
      (findColdCandidates host policy.relocateCandidateRoots policy.minBytes
        policy.relocateMinAgeDays).take (max policy.relocateMaxMovesPerPass 1)
    else []

/-- One turn: its effects, and how it ends. -/
def autoTurn (t : Disk FileData) (cand : ColdCandidate) (turn : RelocateTurn) :
    List (FsStep FileData) × TurnEnd :=
  match turn.usePercent with
  | none => ([], .paused)
  | some used =>
    if used < policy.diskActionPercent then ([], .eased)
    else match planRelocate t turn.probes turn.walkError cand.path policy.relocateColdRoot
        policy.protectedPaths false with
    | .error e => ([], .refused e)
    | .ok plan =>
      if !plan.ready then ([], .notReady plan.issues)
      else if !policy.autoRelocateApply then ([], .wouldMove plan.dest)
      else match applyRelocate plan turn.probes turn.faults t.fs with
        | (script, .ok report) => (script, .moved report)
        | (script, .error e) => (script, .failed e)

/-- What a pass may leave: the turns it came to with their ends, and the tree. It may crash in the
middle of a turn. -/
inductive PassLeaves : Mount FileData → List ColdCandidate → List RelocateTurn → List TurnEnd →
    Fs FileData → Prop
  | done (t : Mount FileData) (turns : List RelocateTurn) : PassLeaves t [] turns [] t.fs
  | broken {t : Mount FileData} {cand : ColdCandidate} {turn : RelocateTurn}
      (cands : List ColdCandidate) (turns : List RelocateTurn)
      (hbreaks : (autoTurn policy t.toDisk cand turn).2.breaks = true) :
      PassLeaves t (cand :: cands) (turn :: turns) [(autoTurn policy t.toDisk cand turn).2] t.fs
  | crashed (t : Mount FileData) (cand : ColdCandidate) (cands : List ColdCandidate)
      (turn : RelocateTurn) (turns : List RelocateTurn) (k : Nat) :
      PassLeaves t (cand :: cands) (turn :: turns) []
        (runScript t.fs ((autoTurn policy t.toDisk cand turn).1.take k))
  | goes {t t' : Mount FileData} {cand : ColdCandidate} {cands : List ColdCandidate}
      {turn : RelocateTurn} {turns : List RelocateTurn} {log : List TurnEnd} {fs : Fs FileData}
      (hon : (autoTurn policy t.toDisk cand turn).2.breaks = false)
      (hfs : t'.fs = runScript t.fs (autoTurn policy t.toDisk cand turn).1)
      (hrest : PassLeaves t' cands turns log fs) :
      PassLeaves t (cand :: cands) (turn :: turns)
        ((autoTurn policy t.toDisk cand turn).2 :: log) fs

end Pass

/-! ## One turn -/

section Turn

variable {policy : AutoRelocatePolicy} {t : Mount FileData} {cand : ColdCandidate}
  {turn : RelocateTurn} {cold d : Location} {e : Entry FileData}

/-- A turn without effects, or one that applies a plan. -/
theorem autoTurn_cases (policy : AutoRelocatePolicy) (t : Disk FileData) (cand : ColdCandidate)
    (turn : RelocateTurn) :
    ((autoTurn policy t cand turn).1 = [] ∧ (autoTurn policy t cand turn).2.movedBytes = none) ∨
      ∃ plan, planRelocate t turn.probes turn.walkError cand.path policy.relocateColdRoot
          policy.protectedPaths false = .ok plan ∧ policy.autoRelocateApply = true ∧
        (∃ used, turn.usePercent = some used ∧ policy.diskActionPercent ≤ used) ∧
        (autoTurn policy t cand turn).1 = (applyRelocate plan turn.probes turn.faults t.fs).1 ∧
        ∀ k, (autoTurn policy t cand turn).2.movedBytes = some k →
          ∃ report, (applyRelocate plan turn.probes turn.faults t.fs).2 = .ok report ∧
            report.bytes = k := by
  unfold autoTurn
  cases hused : turn.usePercent with
  | none => exact Or.inl ⟨rfl, rfl⟩
  | some used =>
    by_cases hlow : used < policy.diskActionPercent
    · simp [hlow, TurnEnd.movedBytes]
    simp only [if_neg hlow]
    cases hplan : planRelocate t turn.probes turn.walkError cand.path policy.relocateColdRoot
        policy.protectedPaths false with
    | error e => exact Or.inl ⟨rfl, rfl⟩
    | ok plan =>
      by_cases hready : plan.ready = true
      · by_cases happly : policy.autoRelocateApply = true
        · refine Or.inr ⟨plan, rfl, happly, ⟨used, rfl, Nat.le_of_not_lt hlow⟩, ?_⟩
          simp only [hready, happly, Bool.not_true, Bool.false_eq_true, if_false]
          cases hrun : applyRelocate plan turn.probes turn.faults t.fs with
          | mk script result =>
            cases result with
            | error e => exact ⟨rfl, fun k hk => by cases hk⟩
            | ok report => exact ⟨rfl, fun k hk => ⟨report, rfl, Option.some.inj hk⟩⟩
        · simp [hready, happly, TurnEnd.movedBytes]
      · simp [hready, TurnEnd.movedBytes]

/-- Where a directory goes. -/
def destOf (cold d : Location) : Location := cold ++ d.getLast?.toList

/-- The gate hands back the place it was asked about. -/
theorem location_of_checked {t : Disk FileData} {path : String} {userProtected : List String}
    {checked : CheckedPath} (hcanon : t.canonicalize path = .ok d)
    (h : checkSafeToDeleteGuard t path userProtected = .ok checked) : checked.location d = d := by
  unfold checkSafeToDeleteGuard at h
  rw [hcanon] at h
  dsimp only at h
  split at h
  · cases h
  split at h
  · cases h
  split at h
  · cases h
  · rw [← Except.ok.inj h]
    rfl

/-- **The plan for a candidate** that is where it was: it names the candidate, and a place directly
in the cold root. -/
theorem planRelocate_paths (hd : t.fs.lookup d = some e) (hne : d ≠ [])
    (hlink : ∀ target, e ≠ .symlink target) (htext : ∀ n ∈ d, n.isUtf8 = true)
    (hcold : t.fs.lookup cold = some .dir) (hcoldne : cold ≠ [])
    (hcoldtext : ∀ n ∈ cold, n.isUtf8 = true) {probes : RelocateProbes}
    {walkError : Option String} {userProtected : List String} {plan : RelocatePlan}
    (h : planRelocate t.toDisk probes walkError (render d) (render cold) userProtected false =
      .ok plan) :
    plan.source = d ∧ plan.dest = destOf cold d ∧ plan.Sound := by
  have hlook := hd
  rw [← List.dropLast_append_getLast hne] at hlook
  have hlstat := t.lstat_render hlook
  have hcanon := t.canonicalize_render hlook hlink
  rw [List.dropLast_append_getLast] at hlstat hcanon
  have hcoldlook := hcold
  rw [← List.dropLast_append_getLast hcoldne] at hcoldlook
  have hcoldlstat := t.lstat_render hcoldlook
  have hcoldcanon := t.canonicalize_render hcoldlook (by simp)
  rw [List.dropLast_append_getLast] at hcoldlstat hcoldcanon
  have hresolved : planResolved probes t.fs walkError d cold = .ok plan := by
    unfold planRelocate at h
    rw [hlstat] at h
    cases e with
    | symlink target => exact absurd rfl (hlink target)
    | file data => cases h
    | special => cases h
    | dir =>
      cases hchecked : checkSafeToDeleteGuard t.toDisk (render d) userProtected with
      | error e =>
        rw [hchecked] at h
        cases h
      | ok checked =>
        have hplace := location_of_checked hcanon hchecked
        cases htracked : probes.gitTracked d with
        | error e => simp [hchecked, hplace, htracked, bind, Except.bind] at h
        | ok tracked =>
          cases tracked with
          | true => simp [hchecked, hplace, htracked, bind, Except.bind] at h
          | false =>
            simpa [hchecked, hplace, htracked, hcoldlstat, hcoldcanon, bind, Except.bind] using h
  have hsound := planResolved_sound htext hcoldtext hresolved
  obtain ⟨name, hname, hsource, hdest, -⟩ := planResolved_paths hresolved
  have hnametext : name.isUtf8 = true := htext name (List.mem_of_getLast? hname)
  refine ⟨hsource.trans (displayed_eq_self htext), ?_, hsound⟩
  rw [hdest, destOf, hname, Option.toList_some]
  refine displayed_eq_self fun n hn => ?_
  rcases List.mem_append.mp hn with hin | hin
  · exact hcoldtext n hin
  · rwa [List.mem_singleton.mp hin]

/-! ### What a move leaves alone -/

section Moving

variable {plan : RelocatePlan} {probes : RelocateProbes} {faults : RelocateFaults}
  {fs : Fs FileData} {q : Location}

theorem swapIn_spares (hsource : ¬ plan.source <+: q)
    (hstaging : ¬ stagingPathFor plan.source <+: q) (skipped : Nat) :
    ∀ step ∈ (swapIn plan faults skipped).1, step.Spares q := by
  have haside : FsStep.Spares q
      (.rename plan.source (stagingPathFor plan.source) : FsStep FileData) := ⟨hsource, hstaging⟩
  have hback : FsStep.Spares q
      (.rename (stagingPathFor plan.source) plan.source : FsStep FileData) := ⟨hstaging, hsource⟩
  intro step hstep
  unfold swapIn at hstep
  dsimp only at hstep
  split at hstep
  · cases hstep
  split at hstep
  · split at hstep
    · rwa [List.mem_singleton.mp hstep]
    · rcases List.mem_cons.mp hstep with rfl | hin
      · exact haside
      · rwa [List.mem_singleton.mp hin]
  · rcases List.mem_cons.mp hstep with rfl | hin
    · exact haside
    rcases List.mem_cons.mp hin with rfl | hin
    · exact fun heq => hsource (heq ▸ List.prefix_refl _)
    · exact (faults.removeStaging.within _ step hin).spares hstaging

/-- A move works at three places, and below them. -/
theorem applyRelocate_spares (hdest : ¬ plan.dest <+: q) (hsource : ¬ plan.source <+: q)
    (hstaging : ¬ stagingPathFor plan.source <+: q) :
    ∀ step ∈ (applyRelocate plan probes faults fs).1, step.Spares q := by
  have hcopied : ∀ step ∈ (copyAndVerify plan faults fs).1, step.Spares q := by
    rw [copyAndVerify_script]
    exact fun step hstep =>
      (copyTreeScript_within faults plan.source plan.dest fs step hstep).spares hdest
  intro step hstep
  unfold applyRelocate at hstep
  split at hstep
  · cases hstep
  · split at hstep
    · next copied e hcopy =>
      rw [hcopy] at hcopied
      rcases List.mem_append.mp hstep with hin | hin
      · exact hcopied step hin
      · exact (faults.cleanup.within plan.dest step hin).spares hdest
    · next copied skipped hcopy =>
      rw [hcopy] at hcopied
      rcases List.mem_append.mp hstep with hin | hin
      · exact hcopied step hin
      · exact swapIn_spares hsource hstaging skipped step hin

end Moving

/-! ### What a turn leaves -/

/-- Where the tree of a candidate is. -/
inductive TreeAt (before : Fs FileData) (cold : Location) (fs : Fs FileData) (d : Location) :
    Location → Prop
  | inPlace (h : ∀ rel e, before.lookup (d ++ rel) = some e → fs.lookup (d ++ rel) = some e) :
      TreeAt before cold fs d d
  | aside (h : ∀ rel e, before.lookup (d ++ rel) = some e →
        fs.lookup (stagingPathFor d ++ rel) = some e) :
      TreeAt before cold fs d (stagingPathFor d)
  /-- A link to a copy; special files are not copied. -/
  | moved (hlink : fs.lookup d = some (.symlink { absolute := true, parts := destOf cold d }))
      (h : ∀ rel e, before.lookup (d ++ rel) = some e → e ≠ .special →
        fs.lookup (destOf cold d ++ rel) = some e) :
      TreeAt before cold fs d (destOf cold d)

/-- A candidate, as the scan has found it. -/
structure Movable (before : Fs FileData) (d : Location) : Prop where
  ne : d ≠ []
  text : ∀ n ∈ d, n.isUtf8 = true
  entry : ∃ e, before.lookup d = some e ∧ ∀ target, e ≠ .symlink target

/-- The cold root, given by its own place. -/
structure ColdRoot (policy : AutoRelocatePolicy) (fs : Fs FileData) (cold : Location) : Prop where
  spelled : policy.relocateColdRoot = render cold
  ne : cold ≠ []
  text : ∀ n ∈ cold, n.isUtf8 = true
  dir : fs.lookup cold = some .dir

/-- The tree of a candidate is where it was. -/
def InPlace (before fs : Fs FileData) (d : Location) : Prop :=
  ∀ rel e, before.lookup (d ++ rel) = some e → fs.lookup (d ++ rel) = some e

variable {before : Fs FileData} {c : ColdItem}

/-- A turn with effects moves a candidate that is not above the cold root, between places that are
free. -/
theorem autoTurn_moves (hcold : ColdRoot policy t.fs cold) (hc : Movable before c.path)
    (hin : InPlace before t.fs c.path) (turn : RelocateTurn) :
    ((autoTurn policy t.toDisk c.candidate turn).1 = [] ∧
        (autoTurn policy t.toDisk c.candidate turn).2.movedBytes = none) ∨
      ∃ plan : RelocatePlan, plan.source = c.path ∧ plan.dest = destOf cold c.path ∧
        ¬ c.path <+: cold ∧ plan.Sound ∧ RelocateReady t.fs plan ∧
        policy.autoRelocateApply = true ∧
        (∃ used, turn.usePercent = some used ∧ policy.diskActionPercent ≤ used) ∧
        (autoTurn policy t.toDisk c.candidate turn).1 =
          (applyRelocate plan turn.probes turn.faults t.fs).1 ∧
        ∀ k, (autoTurn policy t.toDisk c.candidate turn).2.movedBytes = some k →
          ∃ report, (applyRelocate plan turn.probes turn.faults t.fs).2 = .ok report := by
  rcases autoTurn_cases policy t.toDisk c.candidate turn with hnone | hplan
  · exact Or.inl hnone
  obtain ⟨plan, hplan, happly, hused, hscript, hmoved⟩ := hplan
  obtain ⟨e, he, hlink⟩ := hc.entry
  have hthere : t.fs.lookup c.path = some e := by
    have := hin [] e (by rwa [List.append_nil])
    rwa [List.append_nil] at this
  rw [ColdItem.candidate, display, displayed_eq_self hc.text, hcold.spelled] at hplan
  obtain ⟨hsource, hdest, hsound⟩ :=
    planRelocate_paths hthere hc.ne hlink hc.text hcold.dir hcold.ne hcold.text hplan
  cases hrefusal : relocateRefusal plan turn.probes t.fs with
  | some e =>
    left
    refine ⟨by rw [hscript, applyRelocate_refused hrefusal], ?_⟩
    cases hk : (autoTurn policy t.toDisk c.candidate turn).2.movedBytes with
    | none => rfl
    | some k =>
      obtain ⟨report, hreport, -⟩ := hmoved k hk
      rw [applyRelocate_refused hrefusal] at hreport
      cases hreport
  | none =>
    right
    refine ⟨plan, hsource, hdest, fun habove => ?_, hsound,
      relocateReady hsound t.closed hrefusal, happly, hused, hscript, fun k hk => ?_⟩
    · refine hsound.apart.1 ?_
      rw [hsource, hdest]
      exact habove.trans (List.prefix_append _ _)
    · obtain ⟨report, hreport, -⟩ := hmoved k hk
      exact ⟨report, hreport⟩

theorem held_of_linked {plan : RelocatePlan} {fs fs' : Fs FileData} {d : Location}
    (hsource : plan.source = d) (hdest : plan.dest = destOf cold d) (hin : InPlace before fs d)
    (h : Linked plan fs fs') : TreeAt before cold fs' d (destOf cold d) := by
  refine .moved ?_ fun rel e he hspecial => ?_
  · rw [← hdest, ← hsource]
    exact h.link
  · rw [← hdest, h.copied rel, hsource, hin rel e he, Option.filter_some]
    simp [hspecial]

/-- **What is there stays**, at every point of a turn, but below the candidate that is moved. -/
theorem autoTurn_stays (hcold : ColdRoot policy t.fs cold) (hc : Movable before c.path)
    (hin : InPlace before t.fs c.path) {q : Location} (hq : t.fs.lookup q = some e)
    (hbelow : c.path <+: q → c.path <+: cold) :
    AtEveryCrash (fun s => s.lookup q = some e) t.fs
      (autoTurn policy t.toDisk c.candidate turn).1 := by
  rcases autoTurn_moves hcold hc hin turn with ⟨hnone, -⟩ | hmoves
  · rw [hnone]
    exact hq
  · obtain ⟨plan, hsource, hdest, habove, hsound, hready, -, -, hscript, -⟩ := hmoves
    rw [hscript]
    refine Always.mono (fun s hs => hs.trans hq) (spared_atEveryCrash t.fs ?_)
    refine applyRelocate_spares (fun hpre => ?_) (fun hpre => ?_) fun hpre => ?_
    · obtain ⟨rel, rfl⟩ := hpre
      rw [hready.dest_free rel] at hq
      cases hq
    · exact habove (hbelow (hsource ▸ hpre))
    · obtain ⟨rel, rfl⟩ := hpre
      rw [hready.staging_free rel] at hq
      cases hq

/-- **The tree of the candidate** is at one place or another, at every point of its turn. The place
is its own, or was free. -/
theorem autoTurn_held (hcold : ColdRoot policy t.fs cold) (hc : Movable before c.path)
    (hin : InPlace before t.fs c.path) :
    AtEveryCrash (fun s => ∃ place, TreeAt before cold s c.path place ∧
        (place = c.path ∨ ∀ rel, t.fs.lookup (place ++ rel) = none))
      t.fs (autoTurn policy t.toDisk c.candidate turn).1 := by
  rcases autoTurn_moves hcold hc hin turn with ⟨hnone, -⟩ | hmoves
  · rw [hnone]
    exact ⟨c.path, .inPlace hin, Or.inl rfl⟩
  · obtain ⟨plan, hsource, hdest, -, hsound, hready, -, -, hscript, -⟩ := hmoves
    rw [hscript]
    refine Always.mono ?_ (complete_atEveryCrash hsound t.closed)
    rintro s (hwhole | hwhole | hlinked)
    · refine ⟨c.path, .inPlace fun rel e he => ?_, Or.inl rfl⟩
      rw [← hsource, hwhole rel, hsource]
      exact hin rel e he
    · refine ⟨stagingPathFor c.path, .aside fun rel e he => ?_, Or.inr ?_⟩
      · rw [← hsource, hwhole rel, hsource]
        exact hin rel e he
      · exact hsource ▸ hready.staging_free
    · exact ⟨destOf cold c.path, held_of_linked hsource hdest hin hlinked,
        Or.inr (hdest ▸ hready.dest_free)⟩

/-- A turn that reports a move leaves the link, and was under pressure. -/
theorem autoTurn_linked (hcold : ColdRoot policy t.fs cold) (hc : Movable before c.path)
    (hin : InPlace before t.fs c.path)
    (hmoved : (autoTurn policy t.toDisk c.candidate turn).2.movedBytes.isSome = true) :
    TreeAt before cold (runScript t.fs (autoTurn policy t.toDisk c.candidate turn).1) c.path
        (destOf cold c.path) ∧
      ∀ rel, t.fs.lookup (destOf cold c.path ++ rel) = none := by
  rcases autoTurn_moves hcold hc hin turn with ⟨-, hnone⟩ | hmoves
  · rw [hnone] at hmoved
    cases hmoved
  · obtain ⟨plan, hsource, hdest, -, hsound, hready, -, -, hscript, hreport⟩ := hmoves
    obtain ⟨k, hk⟩ := Option.isSome_iff_exists.mp hmoved
    obtain ⟨report, hok⟩ := hreport k hk
    obtain ⟨-, -, hlinked, -⟩ := applyRelocate_ok hsound t.closed hok
    rw [hscript]
    exact ⟨held_of_linked hsource hdest hin hlinked, hdest ▸ hready.dest_free⟩

end Turn

/-! ## The whole pass -/

section Law

variable {policy : AutoRelocatePolicy} {before : Fs FileData} {cold : Location}
  {t t' : Mount FileData} {cands : List ColdCandidate} {turns : List RelocateTurn}
  {log : List TurnEnd} {fs : Fs FileData} {items : List ColdItem} {c : ColdItem}
  {turn : RelocateTurn}

/-- What holds between two turns, for the candidates still to come. -/
structure Ready (policy : AutoRelocatePolicy) (before : Fs FileData) (cold : Location)
    (fs : Fs FileData) (items : List ColdItem) : Prop where
  cold : ColdRoot policy fs cold
  movable : ∀ c ∈ items, Movable before c.path
  apart : items.Pairwise fun a b => Apart a.path b.path
  inPlace : ∀ c ∈ items, InPlace before fs c.path

theorem Ready.head (h : Ready policy before cold fs (c :: items)) :
    Movable before c.path ∧ InPlace before fs c.path ∧ ∀ d ∈ items, Apart c.path d.path :=
  ⟨h.movable c List.mem_cons_self, h.inPlace c List.mem_cons_self,
    (List.pairwise_cons.mp h.apart).1⟩

/-- The tree after some of the effects of a turn. -/
def turnState (policy : AutoRelocatePolicy) (t : Mount FileData) (c : ColdItem)
    (turn : RelocateTurn) (k : Nat) : Fs FileData :=
  runScript t.fs ((autoTurn policy t.toDisk c.candidate turn).1.take k)

theorem turnState_end (policy : AutoRelocatePolicy) (t : Mount FileData) (c : ColdItem)
    (turn : RelocateTurn) :
    runScript t.fs (autoTurn policy t.toDisk c.candidate turn).1 =
      turnState policy t c turn (autoTurn policy t.toDisk c.candidate turn).1.length := by
  rw [turnState, List.take_length]

theorem Ready.stays (h : Ready policy before cold t.fs (c :: items)) {q : Location}
    {e : Entry FileData} (hq : t.fs.lookup q = some e) (hbelow : c.path <+: q → c.path <+: cold)
    (turn : RelocateTurn) (k : Nat) : (turnState policy t c turn k).lookup q = some e := by
  obtain ⟨hmovable, hin, -⟩ := h.head
  exact (autoTurn_stays h.cold hmovable hin hq hbelow).take k

/-- A turn leaves the other candidates and the cold root as they are. -/
theorem Ready.others (h : Ready policy before cold t.fs (c :: items)) (turn : RelocateTurn)
    (k : Nat) : Ready policy before cold (turnState policy t c turn k) items := by
  obtain ⟨-, -, hapart⟩ := h.head
  refine ⟨⟨h.cold.spelled, h.cold.ne, h.cold.text, h.stays h.cold.dir id turn k⟩,
    fun d hd => h.movable d (List.mem_cons_of_mem c hd), (List.pairwise_cons.mp h.apart).2,
    fun d hd rel e he => ?_⟩
  refine h.stays (h.inPlace d (List.mem_cons_of_mem c hd) rel e he) (fun hpre => ?_) turn k
  exact absurd hpre ((hapart d hd).not_prefix_append rel)

theorem Ready.held (h : Ready policy before cold t.fs (c :: items)) (turn : RelocateTurn)
    (k : Nat) : ∃ place, TreeAt before cold (turnState policy t c turn k) c.path place ∧
      (place = c.path ∨ ∀ rel, t.fs.lookup (place ++ rel) = none) := by
  obtain ⟨hmovable, hin, -⟩ := h.head
  exact (autoTurn_held h.cold hmovable hin).take k

theorem Ready.elsewhere (h : Ready policy before cold t.fs (c :: items)) {q : Location}
    (hq : ¬ c.path <+: q ∧ ¬ stagingPathFor c.path <+: q ∧ ¬ destOf cold c.path <+: q)
    (turn : RelocateTurn) (k : Nat) : (turnState policy t c turn k).lookup q = t.fs.lookup q := by
  obtain ⟨hmovable, hin, -⟩ := h.head
  unfold turnState
  rcases autoTurn_moves h.cold hmovable hin turn with ⟨hnone, -⟩ | hmoves
  · rw [hnone, List.take_nil]
    rfl
  · obtain ⟨plan, hsource, hdest, -, -, -, -, -, hscript, -⟩ := hmoves
    rw [hscript]
    refine Always.take k (spared_atEveryCrash t.fs (applyRelocate_spares ?_ ?_ ?_))
    · exact hdest ▸ hq.2.2
    · exact hsource ▸ hq.1
    · exact hsource ▸ hq.2.1

/-- What stands at the end of a turn is not moved by a later one. -/
theorem TreeAt.apart {d : Location} {place : Location} (hheld : TreeAt before cold fs d place)
    (hplace : place = d ∨ ∀ rel, t.fs.lookup (place ++ rel) = none) (hapart : Apart d c.path)
    (hc : Movable before c.path) (hin : InPlace before t.fs c.path) {q : Location}
    (hq : q = d ∨ place <+: q) (hcq : c.path <+: q) : c.path <+: cold := by
  rcases hq with rfl | hpq
  · exact absurd hcq hapart.2
  rcases hplace with rfl | hfree
  · rcases List.prefix_or_prefix_of_prefix hcq hpq with hpre | hpre
    · exact absurd hpre hapart.2
    · exact absurd hpre hapart.1
  -- the candidate was there when the place was free
  have hnot : ¬ place <+: c.path := by
    rintro ⟨rel, hrel⟩
    obtain ⟨e, he, -⟩ := hc.entry
    have hthere := hin [] e (by rwa [List.append_nil])
    rw [List.append_nil, ← hrel, hfree rel] at hthere
    cases hthere
  have hpre : c.path <+: place :=
    (List.prefix_or_prefix_of_prefix hcq hpq).resolve_right hnot
  cases hheld with
  | inPlace h => exact absurd hpre hapart.2
  | aside h =>
    rcases List.prefix_concat_iff.mp hpre with heq | hparent
    · exact absurd (heq ▸ List.prefix_refl _) hnot
    · exact absurd (hparent.trans (List.dropLast_prefix d)) hapart.2
  | moved hlink h =>
    cases hlast : d.getLast? with
    | none => simpa [destOf, hlast] using hpre
    | some name =>
      rw [destOf, hlast, Option.toList_some] at hpre hnot
      rcases List.prefix_concat_iff.mp hpre with heq | hcold
      · exact absurd (heq ▸ List.prefix_refl _) hnot
      · exact hcold

theorem TreeAt.later {d place : Location} {fs' : Fs FileData} (h : TreeAt before cold fs d place)
    (hstays : ∀ q e, fs.lookup q = some e → q = d ∨ place <+: q → fs'.lookup q = some e) :
    TreeAt before cold fs' d place := by
  cases h with
  | inPlace h =>
    exact .inPlace fun rel e he => hstays _ e (h rel e he) (Or.inr (List.prefix_append d rel))
  | aside h =>
    exact .aside fun rel e he => hstays _ e (h rel e he) (Or.inr (List.prefix_append _ rel))
  | moved hlink h =>
    exact .moved (hstays d _ hlink (Or.inl rfl)) fun rel e he hspecial =>
      hstays _ e (h rel e he hspecial) (Or.inr (List.prefix_append _ rel))

/-- **What is there stays**, to the end of the pass. -/
theorem PassLeaves.stays (h : PassLeaves policy t cands turns log fs)
    (hcands : cands = items.map ColdItem.candidate) (hready : Ready policy before cold t.fs items)
    {q : Location} {e : Entry FileData} (hq : t.fs.lookup q = some e)
    (hbelow : ∀ c ∈ items, c.path <+: q → c.path <+: cold) : fs.lookup q = some e := by
  induction h generalizing items with
  | done t turns => exact hq
  | broken cands turns hbreaks => exact hq
  | crashed t cand cands turn turns k =>
    obtain ⟨c, items, rfl, rfl, rfl⟩ := List.map_eq_cons_iff.mp hcands.symm
    exact hready.stays hq (hbelow c List.mem_cons_self) turn k
  | @goes t t' cand cands turn turns log fs hon hfs hrest ih =>
    obtain ⟨c, items, rfl, rfl, rfl⟩ := List.map_eq_cons_iff.mp hcands.symm
    rw [turnState_end] at hfs
    refine ih rfl (hfs ▸ hready.others turn _) ?_ fun d hd => hbelow d (List.mem_cons_of_mem c hd)
    rw [hfs]
    exact hready.stays hq (hbelow c List.mem_cons_self) turn _

/-- What a turn has put in safety is there at the end. -/
theorem PassLeaves.keeps (h : PassLeaves policy t' cands turns log fs)
    (hcands : cands = items.map ColdItem.candidate)
    (hready : Ready policy before cold t.fs (c :: items))
    (hfs : t'.fs = runScript t.fs (autoTurn policy t.toDisk c.candidate turn).1) {place : Location}
    (hheld : TreeAt before cold t'.fs c.path place)
    (hplace : place = c.path ∨ ∀ rel, t.fs.lookup (place ++ rel) = none) :
    TreeAt before cold fs c.path place := by
  obtain ⟨-, -, hapart⟩ := hready.head
  have hothers : Ready policy before cold t'.fs items := by
    rw [hfs, turnState_end]
    exact hready.others turn _
  refine hheld.later fun q e hq hwhere => h.stays hcands hothers hq fun d hd hdq => ?_
  exact hheld.apart hplace (hapart d hd) (hready.movable d (List.mem_cons_of_mem c hd))
    (hready.inPlace d (List.mem_cons_of_mem c hd)) hwhere hdq

/-- **Every tree is somewhere**, whatever failed and wherever it crashed. -/
theorem PassLeaves.held (h : PassLeaves policy t cands turns log fs)
    (hcands : cands = items.map ColdItem.candidate) (hready : Ready policy before cold t.fs items) :
    ∀ c ∈ items, ∃ place, TreeAt before cold fs c.path place := by
  have hplaced : ∀ {fs : Fs FileData} {items : List ColdItem}, Ready policy before cold fs items →
      ∀ c ∈ items, ∃ place, TreeAt before cold fs c.path place :=
    fun hready c hc => ⟨c.path, .inPlace (hready.inPlace c hc)⟩
  induction h generalizing items with
  | done t turns => exact hplaced hready
  | broken cands turns hbreaks => exact hplaced hready
  | crashed t cand cands turn turns k =>
    obtain ⟨c, items, rfl, rfl, rfl⟩ := List.map_eq_cons_iff.mp hcands.symm
    intro d hd
    rcases List.mem_cons.mp hd with rfl | hd
    · obtain ⟨place, hheld, -⟩ := hready.held turn k
      exact ⟨place, hheld⟩
    · exact hplaced (hready.others turn k) d hd
  | @goes t t' cand cands turn turns log fs hon hfs hrest ih =>
    obtain ⟨c, items, rfl, rfl, rfl⟩ := List.map_eq_cons_iff.mp hcands.symm
    intro d hd
    rcases List.mem_cons.mp hd with rfl | hd
    · obtain ⟨place, hheld, hplace⟩ := hready.held turn _
      rw [← turnState_end, ← hfs] at hheld
      exact ⟨place, hrest.keeps rfl hready hfs hheld hplace⟩
    · rw [turnState_end] at hfs
      exact ih rfl (hfs ▸ hready.others turn _) d hd

/-- **A move that is reported** has left the link, and has been under pressure. -/
theorem PassLeaves.linked (h : PassLeaves policy t cands turns log fs)
    (hcands : cands = items.map ColdItem.candidate) (hready : Ready policy before cold t.fs items) :
    ∀ p ∈ items.zip log, p.2.movedBytes.isSome = true →
      TreeAt before cold fs p.1.path (destOf cold p.1.path) := by
  induction h generalizing items with
  | done t turns =>
    obtain rfl := List.map_eq_nil_iff.mp hcands.symm
    exact fun p hp => by cases hp
  | @broken t cand turn cands turns hbreaks =>
    intro p hp hmoved
    obtain ⟨c, items, rfl, rfl, rfl⟩ := List.map_eq_cons_iff.mp hcands.symm
    rw [List.zip_cons_cons, List.zip_nil_right, List.mem_singleton] at hp
    subst hp
    cases hend : (autoTurn policy t.toDisk c.candidate turn).2 <;> simp_all [TurnEnd.breaks,
      TurnEnd.movedBytes]
  | crashed t cand cands turn turns k =>
    intro p hp
    rw [List.zip_nil_right] at hp
    cases hp
  | @goes t t' cand cands turn turns log fs hon hfs hrest ih =>
    obtain ⟨c, items, rfl, rfl, rfl⟩ := List.map_eq_cons_iff.mp hcands.symm
    intro p hp hmoved
    rw [List.zip_cons_cons] at hp
    rcases List.mem_cons.mp hp with rfl | hp
    · obtain ⟨hmovable, hin, -⟩ := hready.head
      obtain ⟨hheld, hfree⟩ := autoTurn_linked hready.cold hmovable hin hmoved
      rw [← hfs] at hheld
      exact hrest.keeps rfl hready hfs hheld (Or.inr hfree)
    · rw [turnState_end] at hfs
      exact ih rfl (hfs ▸ hready.others turn _) p hp hmoved

/-- Nothing else changes. -/
theorem PassLeaves.elsewhere (h : PassLeaves policy t cands turns log fs)
    (hcands : cands = items.map ColdItem.candidate) (hready : Ready policy before cold t.fs items)
    {q : Location} (hq : ∀ c ∈ items, ¬ c.path <+: q ∧ ¬ stagingPathFor c.path <+: q ∧
      ¬ destOf cold c.path <+: q) : fs.lookup q = t.fs.lookup q := by
  induction h generalizing items with
  | done t turns => rfl
  | broken cands turns hbreaks => rfl
  | crashed t cand cands turn turns k =>
    obtain ⟨c, items, rfl, rfl, rfl⟩ := List.map_eq_cons_iff.mp hcands.symm
    exact hready.elsewhere (hq c List.mem_cons_self) turn k
  | @goes t t' cand cands turn turns log fs hon hfs hrest ih =>
    obtain ⟨c, items, rfl, rfl, rfl⟩ := List.map_eq_cons_iff.mp hcands.symm
    rw [turnState_end] at hfs
    have hlater := ih rfl (hfs ▸ hready.others turn _) fun d hd => hq d (List.mem_cons_of_mem c hd)
    rw [hlater, hfs]
    exact hready.elsewhere (hq c List.mem_cons_self) turn _

theorem PassLeaves.length_le (h : PassLeaves policy t cands turns log fs) :
    log.length ≤ cands.length := by
  induction h with
  | done t turns => exact Nat.le_refl 0
  | broken cands turns hbreaks => simp
  | crashed t cand cands turn turns k => exact Nat.zero_le _
  | goes hon hfs hrest ih => simpa using ih

/-- A turn that moves something has read the pressure. -/
theorem PassLeaves.pressed (h : PassLeaves policy t cands turns log fs) :
    ∀ p ∈ turns.zip log, p.2.movedBytes.isSome = true →
      ∃ used, p.1.usePercent = some used ∧ policy.diskActionPercent ≤ used := by
  have hturn : ∀ (t : Mount FileData) (cand : ColdCandidate) (turn : RelocateTurn),
      (autoTurn policy t.toDisk cand turn).2.movedBytes.isSome = true →
        ∃ used, turn.usePercent = some used ∧ policy.diskActionPercent ≤ used := by
    intro t cand turn hmoved
    rcases autoTurn_cases policy t.toDisk cand turn with ⟨-, hnone⟩ | hplan
    · rw [hnone] at hmoved
      cases hmoved
    · obtain ⟨plan, -, -, hused, -⟩ := hplan
      exact hused
  induction h with
  | done t turns =>
    intro p hp
    rw [List.zip_nil_right] at hp
    cases hp
  | @broken t cand turn cands turns hbreaks =>
    intro p hp hmoved
    rw [List.zip_cons_cons, List.zip_nil_right, List.mem_singleton] at hp
    subst hp
    exact hturn t cand turn hmoved
  | crashed t cand cands turn turns k =>
    intro p hp
    rw [List.zip_nil_right] at hp
    cases hp
  | @goes t t' cand cands turn turns log fs hon hfs hrest ih =>
    intro p hp hmoved
    rw [List.zip_cons_cons] at hp
    rcases List.mem_cons.mp hp with rfl | hp
    · exact hturn t cand turn hmoved
    · exact ih p hp hmoved

/-- A pass that only reports. -/
theorem PassLeaves.dry (h : PassLeaves policy t cands turns log fs)
    (hdry : policy.autoRelocateApply = false) : fs = t.fs := by
  have hnone : ∀ (t : Mount FileData) (cand : ColdCandidate) (turn : RelocateTurn),
      (autoTurn policy t.toDisk cand turn).1 = [] := by
    intro t cand turn
    rcases autoTurn_cases policy t.toDisk cand turn with ⟨hnone, -⟩ | hplan
    · exact hnone
    · obtain ⟨plan, -, happly, -⟩ := hplan
      rw [hdry] at happly
      cases happly
  induction h with
  | done t turns => rfl
  | broken cands turns hbreaks => rfl
  | crashed t cand cands turn turns k =>
    rw [hnone, List.take_nil]
    rfl
  | goes hon hfs hrest ih =>
    rw [ih, hfs, hnone]
    rfl

end Law

/-! ## The candidates -/

section Candidates

variable (policy : AutoRelocatePolicy) (host : ColdHost FileData)

/-- The places of the candidates a pass comes to. -/
def passItems : List ColdItem :=
  (Nesting.shortlist ColdItem.path ColdItem.bytes scanMaxCandidates
    (qualified host policy.relocateCandidateRoots policy.minBytes
      policy.relocateMinAgeDays)).take (max policy.relocateMaxMovesPerPass 1)

variable {policy host} {cold : Location}

theorem ColdRoot.passCandidates (hroot : ColdRoot policy host.fs cold) :
    passCandidates policy host = (passItems policy host).map ColdItem.candidate := by
  have hlook := hroot.dir
  rw [← List.dropLast_append_getLast hroot.ne] at hlook
  have hcanon := host.canonicalize_render hlook (by simp)
  rw [List.dropLast_append_getLast, ← hroot.spelled] at hcanon
  have hdir : (entryAt host.fs cold).any Entry.isDir = true := by
    rw [entryAt, if_neg hroot.ne, hroot.dir]
    rfl
  unfold DraconGuard.passCandidates passItems
  rw [hcanon]
  simp only [hdir, if_true]
  rw [findColdCandidates_eq, List.map_take]

/-- What a scan has found is ready to be moved. -/
theorem ready_passItems (hroot : ColdRoot policy host.fs cold)
    (htext : ∀ q, (host.fs.lookup q).isSome → ∀ n ∈ q, n.isUtf8 = true) :
    Ready policy host.fs cold host.fs (passItems policy host) := by
  refine ⟨hroot, fun c hc => ?_, ?_, fun c _ rel e he => he⟩
  · obtain ⟨n, hlisted⟩ := Nesting.mem_shortlist.mp (List.mem_of_mem_take hc)
    have hqualifies := IsCandidate.qualifies hlisted
    obtain ⟨e, he, hlink⟩ := hqualifies.exists_entry
    exact ⟨hqualifies.path_ne, htext c.path (by rw [he]; rfl), e, he, hlink⟩
  · refine List.Pairwise.sublist (List.take_sublist _ _) ?_
    refine (Nesting.pairwise_shortlist fun a b => Apart.symm).mpr fun x y hx hy hne => ?_
    exact ⟨hx.apart hy hne, hy.apart hx hne.symm⟩

variable (policy host cold)

/-- What a pass may do to the candidates, and to everything else. -/
structure PassLaw (turns : List RelocateTurn) (log : List TurnEnd) (fs : Fs FileData) : Prop where
  held : ∀ c ∈ passItems policy host, ∃ place, TreeAt host.fs cold fs c.path place
  linked : ∀ p ∈ (passItems policy host).zip log, p.2.movedBytes.isSome = true →
    TreeAt host.fs cold fs p.1.path (destOf cold p.1.path)
  stays : ∀ q e, host.fs.lookup q = some e →
    (∀ c ∈ passItems policy host, c.path <+: q → c.path <+: cold) → fs.lookup q = some e
  elsewhere : ∀ q, (∀ c ∈ passItems policy host, ¬ c.path <+: q ∧
    ¬ stagingPathFor c.path <+: q ∧ ¬ destOf cold c.path <+: q) → fs.lookup q = host.fs.lookup q
  pressed : ∀ p ∈ turns.zip log, p.2.movedBytes.isSome = true →
    ∃ used, p.1.usePercent = some used ∧ policy.diskActionPercent ≤ used
  few : (log.filterMap TurnEnd.movedBytes).length ≤ max policy.relocateMaxMovesPerPass 1
  dry : policy.autoRelocateApply = false → fs = host.fs

variable {policy host cold}

private theorem albumName_valid : "album".toList ≠ [] ∧ '/' ∉ "album".toList := by decide

private def albumName : Name := ⟨"album", albumName_valid⟩

private theorem photoName_valid : "photo".toList ≠ [] ∧ '/' ∉ "photo".toList := by decide

private def photoName : Name := ⟨"photo", photoName_valid⟩

private theorem peopleName_valid : "home".toList ≠ [] ∧ '/' ∉ "home".toList := by decide

private def peopleName : Name := ⟨"home", peopleName_valid⟩

private theorem vaultName_valid : "vault".toList ≠ [] ∧ '/' ∉ "vault".toList := by decide

private def vaultName : Name := ⟨"vault", vaultName_valid⟩

private def albumFs : Fs FileData :=
  ((((∅ : Fs FileData).insert [vaultName] .dir).insert [peopleName] .dir).insert
    [peopleName, albumName] .dir).insert [peopleName, albumName, photoName] (.file (.bytes [1]))

private def albumHost : ColdHost FileData where
  fs := albumFs
  closed := FileTree.closed_of_keys (by decide +kernel)
  cwd := []
  cwd_dir := rfl
  plain := FileTree.plain_of_keys (by decide +kernel)
  len _ := 1
  modified _ := some 0
  now := 8640000
  git := { showToplevel := fun _ => .failed, lsFiles := fun _ _ => .failed }

private def albumPolicy : AutoRelocatePolicy where
  relocateColdRoot := "/vault"
  relocateCandidateRoots := ["/home"]
  relocateMinSizeMb := 0
  relocateMinAgeDays := 14
  relocateMaxMovesPerPass := 2
  diskActionPercent := 85
  autoRelocateApply := true
  protectedPaths := []

private def albumTurn : RelocateTurn where
  usePercent := some 95
  probes :=
    { gitTracked := fun _ => .ok false, dfAvail := fun _ => some 1000000,
      humanBytes := fun n => toString n }

private def albumCandidate : ColdCandidate := ⟨"/home/album", 1, 1, 100⟩

private def albumRun : List (FsStep FileData) × TurnEnd :=
  autoTurn albumPolicy albumHost.toDisk albumCandidate albumTurn

private def albumAfter : Mount FileData where
  fs := runScript albumFs albumRun.1
  closed := FileTree.closed_of_keys (by decide +kernel)
  cwd := []
  cwd_dir := rfl
  plain := FileTree.plain_of_keys (by decide +kernel)

private theorem albumPass : PassLeaves albumPolicy albumHost.toMount
    (passCandidates albumPolicy albumHost) [albumTurn] [albumRun.2] albumAfter.fs := by
  have hcands : passCandidates albumPolicy albumHost = [albumCandidate] := by decide +kernel
  rw [hcands]
  exact .goes (by decide +kernel) rfl (.done albumAfter [])

end Candidates

end DraconGuard
