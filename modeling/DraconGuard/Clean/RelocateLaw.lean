import DraconGuard.Clean.Relocate
import DraconGuard.Clean.StashLaw

/-!
# What a relocation leaves behind

`retryable_iff` is the boundary of the retry: an error leaves the source whole and the
destination free, unless it comes after the copy was verified, or the partial copy could not be
removed. `complete_at_every_crash` is what a relocation keeps through every crash: the tree is
at the source or aside, or the source is a link to a copy that has everything but the special
files.
-/

namespace DraconGuard

open FileTree Runs

/-! ## The plan -/

/-- What `plan_relocate` has checked of the paths of a plan. -/
structure RelocatePlan.Sound (plan : RelocatePlan) : Prop where
  source_ne : plan.source ≠ []
  named : plan.dest.getLast? = plan.source.getLast?
  apart : Apart plan.source plan.dest

theorem planResolved_paths {probes : RelocateProbes} {fs : Fs FileData}
    {walkError : Option String} {canonSrc canonRoot : Location} {plan : RelocatePlan}
    (h : planResolved probes fs walkError canonSrc canonRoot = .ok plan) :
    ∃ name, canonSrc.getLast? = some name ∧ plan.source = displayed canonSrc ∧
      plan.dest = displayed (canonRoot ++ [name]) ∧ Apart canonSrc (canonRoot ++ [name]) := by
  unfold planResolved at h
  cases hname : canonSrc.getLast? with
  | none => simp [hname] at h
  | some name =>
    rw [hname] at h
    dsimp only at h
    split at h
    · simp at h
    split at h
    · simp at h
    next hnest =>
    split at h
    · simp at h
    obtain rfl := Except.ok.inj h
    refine ⟨name, rfl, rfl, rfl, ?_⟩
    simpa [Apart, List.isPrefixOf_iff_prefix] using hnest

/-- A plan for paths that are displayed as they are is sound. -/
theorem planResolved_sound {probes : RelocateProbes} {fs : Fs FileData}
    {walkError : Option String} {canonSrc canonRoot : Location} {plan : RelocatePlan}
    (hsource : ∀ n ∈ canonSrc, n.isUtf8 = true) (hroot : ∀ n ∈ canonRoot, n.isUtf8 = true)
    (h : planResolved probes fs walkError canonSrc canonRoot = .ok plan) : plan.Sound := by
  obtain ⟨name, hname, hs, hd, hapart⟩ := planResolved_paths h
  have hmem : name ∈ canonSrc := List.mem_of_getLast? hname
  rw [displayed_eq_self hsource] at hs
  have hdest : ∀ n ∈ canonRoot ++ [name], n.isUtf8 = true := by
    intro n hn
    rcases List.mem_append.mp hn with hin | hin
    · exact hroot n hin
    · exact List.mem_singleton.mp hin ▸ hsource name hmem
  rw [displayed_eq_self hdest] at hd
  constructor
  case source_ne => rw [hs]; exact List.ne_nil_of_mem hmem
  case named => rw [hs, hd, hname, List.getLast?_concat]
  case apart => rwa [hs, hd]

/-! ## The copy -/

section Copy

variable {faults : RelocateFaults} {dst : Location} {items : List (Location × Entry FileData)}

/-- Whatever a file held while it was copied, it has the right contents then. -/
theorem runScript_copyBegun (rel : Location) (entry : Entry FileData) (fs : Fs FileData)
    (rest : List (FsStep FileData)) :
    runScript fs (copyBegun faults dst rel entry ++ .put (dst ++ rel) entry :: rest) =
      runScript (fs.insert (dst ++ rel) entry) rest := by
  have hover : ∀ (datas : List FileData) (fs : Fs FileData),
      (runScript fs (datas.map fun data => .put (dst ++ rel) (.file data))).insert
        (dst ++ rel) entry = fs.insert (dst ++ rel) entry := by
    intro datas
    induction datas with
    | nil => exact fun _ => rfl
    | cons data datas ih => exact fun fs => (ih _).trans (AList.insert_insert fs)
  rw [runScript_append]
  cases entry with
  | file data => exact congrArg (runScript · rest) (hover _ fs)
  | _ => rfl

theorem copyEntriesScript_result (skipped : Nat) (fs : Fs FileData) :
    (copyEntriesScript faults dst items skipped).2 =
      (copyEntries faults.copying dst items skipped fs).2 := by
  induction items generalizing skipped fs with
  | nil => rfl
  | cons i items ih =>
    obtain ⟨rel, entry⟩ := i
    have hsame : faults.copying.copyEntry rel = faults.copyEntry rel := rfl
    unfold copyEntriesScript copyEntries
    rw [hsame]
    by_cases hrel : faults.copyEntry rel = true
    · rw [if_pos hrel, if_pos hrel]
      rfl
    · rw [if_neg hrel, if_neg hrel]
      by_cases hspecial : entry = .special
      · rw [if_pos hspecial, if_pos hspecial]
        exact ih _ _
      · rw [if_neg hspecial, if_neg hspecial]
        exact ih _ _

/-- The script of a copy that succeeds does what the copy does. -/
theorem runScript_copyEntriesScript (skipped : Nat) (fs : Fs FileData)
    (h : ∀ i ∈ items, faults.copyEntry i.1 = false) :
    runScript fs (copyEntriesScript faults dst items skipped).1 =
      (copyEntries faults.copying dst items skipped fs).1 := by
  induction items generalizing skipped fs with
  | nil => rfl
  | cons i items ih =>
    obtain ⟨rel, entry⟩ := i
    have hrel : ¬ faults.copyEntry rel = true := by
      simpa using h (rel, entry) List.mem_cons_self
    have hsame : ¬ faults.copying.copyEntry rel = true := hrel
    have htail : ∀ i ∈ items, faults.copyEntry i.1 = false := fun i hi =>
      h i (List.mem_cons_of_mem _ hi)
    unfold copyEntriesScript copyEntries
    rw [if_neg hrel, if_neg hsame]
    by_cases hspecial : entry = .special
    · rw [if_pos hspecial, if_pos hspecial]
      exact ih _ _ htail
    · rw [if_neg hspecial, if_neg hspecial]
      exact (runScript_copyBegun rel entry fs _).trans (ih _ _ htail)

/-- A copy puts entries strictly below its destination. -/
theorem mem_copyEntriesScript {skipped : Nat} (h : ∀ i ∈ items, i.1 ≠ []) {step : FsStep FileData}
    (hstep : step ∈ (copyEntriesScript faults dst items skipped).1) :
    ∃ rel entry, rel ≠ [] ∧ step = .put (dst ++ rel) entry := by
  have hbegun : ∀ rel entry, rel ≠ [] → step ∈ copyBegun faults dst rel entry →
      ∃ rel entry, rel ≠ [] ∧ step = .put (dst ++ rel) entry := by
    intro rel entry hrel hin
    cases entry with
    | file data =>
      obtain ⟨data, -, rfl⟩ := List.mem_map.mp hin
      exact ⟨rel, .file data, hrel, rfl⟩
    | _ => cases hin
  induction items generalizing skipped with
  | nil => cases hstep
  | cons i items ih =>
    obtain ⟨rel, entry⟩ := i
    have hrel : rel ≠ [] := h (rel, entry) List.mem_cons_self
    have htail : ∀ i ∈ items, i.1 ≠ [] := fun i hi => h i (List.mem_cons_of_mem _ hi)
    unfold copyEntriesScript at hstep
    split at hstep
    · exact hbegun rel entry hrel hstep
    · split at hstep
      · exact ih htail hstep
      · rcases List.mem_append.mp hstep with hin | hin
        · exact hbegun rel entry hrel hin
        · rcases List.mem_cons.mp hin with rfl | hin
          · exact ⟨rel, entry, hrel, rfl⟩
          · exact ih htail hin

/-- Everything about the script of `copy_tree`: it stays below the destination, and what it
makes of a tree that can be copied. -/
theorem copyTreeScript_within (faults : RelocateFaults) (src dst : Location) (fs : Fs FileData) :
    ∀ step ∈ (copyTreeScript faults src dst fs).1, step.Within dst := by
  intro step hstep
  unfold copyTreeScript at hstep
  split at hstep
  · cases hstep
  · rcases List.mem_cons.mp hstep with rfl | hin
    · exact List.prefix_refl dst
    · obtain ⟨rel, entry, -, rfl⟩ := mem_copyEntriesScript (by simp) hin
      exact List.prefix_append dst rel

/-- `copy_tree` starts: its destination can be made. -/
def CopyStarts (faults : RelocateFaults) (fs : Fs FileData) (dst : Location) : Prop :=
  faults.copyEntry [] = false ∧ entryAt fs dst.dropLast = some .dir

instance (faults : RelocateFaults) (fs : Fs FileData) (dst : Location) :
    Decidable (CopyStarts faults fs dst) := inferInstanceAs (Decidable (_ ∧ _))

theorem copyTreeScript_not_started {src : Location} {fs : Fs FileData}
    (h : ¬ CopyStarts faults fs dst) :
    copyTreeScript faults src dst fs = ([], .error faults.ioError) := by
  unfold copyTreeScript
  rw [if_pos]
  cases hroot : faults.copyEntry [] with
  | true => rfl
  | false =>
    have hparent : entryAt fs dst.dropLast ≠ some .dir := fun hdir => h ⟨hroot, hdir⟩
    simp [hparent]

theorem copyTreeScript_started {src : Location} {fs : Fs FileData}
    (h : CopyStarts faults fs dst) :
    copyTreeScript faults src dst fs =
      (.put dst .dir :: (copyEntriesScript faults dst ((walk fs src).filter (·.1 ≠ [])) 0).1,
        (copyTree faults.copying src dst fs).2) := by
  have hroot : ¬ faults.copying.copyEntry [] = true := by
    rw [show faults.copying.copyEntry [] = faults.copyEntry [] from rfl, h.1]
    exact Bool.false_ne_true
  unfold copyTreeScript copyTree
  rw [if_neg hroot, if_neg (by simp [h.1, h.2]), ← copyEntriesScript_result]

/-- The destination of a copy that has started is there. -/
theorem lookup_copyTreeScript_root {src : Location} {fs : Fs FileData}
    (h : CopyStarts faults fs dst) :
    (runScript fs (copyTreeScript faults src dst fs).1).lookup dst = some .dir := by
  rw [copyTreeScript_started h]
  have hkeep : ∀ (script : List (FsStep FileData)) (fs : Fs FileData),
      (∀ step ∈ script, ∃ rel entry, rel ≠ [] ∧ step = .put (dst ++ rel) entry) →
        (runScript fs script).lookup dst = fs.lookup dst := by
    intro script
    induction script with
    | nil => exact fun _ _ => rfl
    | cons step script ih =>
      intro fs hsteps
      obtain ⟨rel, entry, hrel, rfl⟩ := hsteps step List.mem_cons_self
      refine (ih _ fun s hs => hsteps s (List.mem_cons_of_mem _ hs)).trans ?_
      exact AList.lookup_insert_ne fun heq => hrel (by simpa using heq)
  refine (hkeep _ _ fun step hstep => mem_copyEntriesScript (by simp) hstep).trans ?_
  exact AList.lookup_insert fs

theorem copyTreeScript_ok {src : Location} {fs : Fs FileData}
    (hparent : entryAt fs dst.dropLast = some .dir) (hsrc : fs.lookup src = some .dir)
    (hfree : ∀ rel, fs.lookup (dst ++ rel) = none) (hcopy : Copyable faults.copying fs src) :
    ∃ script k, copyTreeScript faults src dst fs = (script, .ok k) ∧
      ∀ rel, (runScript fs script).lookup (dst ++ rel) =
        (fs.lookup (src ++ rel)).filter (· ≠ .special) := by
  obtain ⟨fs', k, heq, hlook⟩ := copyTree_ok hsrc hfree hcopy
  have hroot : faults.copying.copyEntry [] = false :=
    hcopy [] .dir (by rw [List.append_nil, hsrc])
  have hitems : ∀ i ∈ (walk fs src).filter (·.1 ≠ []), faults.copyEntry i.1 = false := by
    rintro ⟨rel, e⟩ hi
    exact hcopy rel e (mem_walk.mp (List.mem_of_mem_filter hi))
  have hrun : runScript fs (copyTreeScript faults src dst fs).1 = fs' := by
    rw [copyTreeScript_started ⟨hroot, hparent⟩]
    refine (runScript_copyEntriesScript 0 (fs.insert dst .dir) hitems).trans ?_
    unfold copyTree at heq
    rw [hroot, if_neg Bool.false_ne_true] at heq
    rw [heq]
  refine ⟨(copyTreeScript faults src dst fs).1, k, ?_, fun rel => by rw [hrun, hlook rel]⟩
  have hresult : (copyTreeScript faults src dst fs).2 = .ok k := by
    rw [copyTreeScript_started ⟨hroot, hparent⟩, heq]
  rw [← hresult]

theorem copyTreeScript_error {src : Location} {fs : Fs FileData}
    (hcopy : ¬ (CopyStarts faults fs dst ∧ Copyable faults.copying fs src)) :
    ∃ e, (copyTreeScript faults src dst fs).2 = .error e := by
  by_cases hstart : CopyStarts faults fs dst
  · obtain ⟨e, he⟩ := copyTree_error dst fun h => hcopy ⟨hstart, h⟩
    exact ⟨e, by rw [copyTreeScript_started hstart, he]⟩
  · exact ⟨_, by rw [copyTreeScript_not_started hstart]⟩

end Copy

/-! ## The start -/

theorem stagingName_ne (name : Name) : stagingName name ≠ name := by
  intro h
  have hlen := congrArg (fun n => n.text.toList.length) h
  simp [stagingName] at hlen

/-- What a move that is not refused rests on. -/
structure RelocateReady (fs : Fs FileData) (plan : RelocatePlan) : Prop where
  source_dir : fs.lookup plan.source = some .dir
  dest_free : ∀ rel, fs.lookup (plan.dest ++ rel) = none
  staging_free : ∀ rel, fs.lookup (stagingPathFor plan.source ++ rel) = none
  staging_source : Apart (stagingPathFor plan.source) plan.source
  staging_dest : Apart (stagingPathFor plan.source) plan.dest

theorem free_below {fs : Fs FileData} (h : Closed fs) {q : Location} (hq : q ≠ [])
    (hfree : fs.lookup q = none) (rel : Location) : fs.lookup (q ++ rel) = none := by
  have hnone : entryAt fs q = none := by rw [entryAt, if_neg hq, hfree]
  have hbelow := h.none_below hnone rel
  rwa [entryAt, if_neg (by simp [hq])] at hbelow

theorem relocateRefusal_none {plan : RelocatePlan} {probes : RelocateProbes} {fs : Fs FileData}
    (h : relocateRefusal plan probes fs = none) :
    fs.lookup (stagingPathFor plan.source) = none ∧ fs.lookup plan.dest = none ∧
      fs.lookup plan.source = some .dir ∧ (entryAt fs plan.dest.dropLast).isSome := by
  unfold relocateRefusal at h
  dsimp only at h
  split at h
  · simp at h
  split at h
  · simp at h
  next hstaging =>
  split at h
  · simp at h
  next hdest =>
  split at h
  · simp at h
  · next hsource =>
    split at h
    · next hfits =>
      refine ⟨by simpa using hstaging, by simpa using hdest, hsource, ?_⟩
      by_contra hnone
      simp [availBytesFor, hnone, fitsInAvail] at hfits
    · split at h <;> simp at h
  · simp at h

/-- The paths of a sound plan end in the same name. -/
theorem RelocatePlan.Sound.split {plan : RelocatePlan} (h : plan.Sound) :
    ∃ parent root name, plan.source = parent ++ [name] ∧ plan.dest = root ++ [name] ∧
      stagingPathFor plan.source = parent ++ [stagingName name] := by
  obtain ⟨name, hname⟩ := List.getLast?_isSome.mpr h.source_ne |> Option.isSome_iff_exists.mp
  refine ⟨plan.source.dropLast, plan.dest.dropLast, name, ?_, ?_, ?_⟩
  · exact (List.dropLast_append_getLast? name hname).symm
  · exact (List.dropLast_append_getLast? name (h.named.trans hname)).symm
  · rw [stagingPathFor, hname]
    rfl

theorem apart_concat {parent : Location} {m n : Name} (h : m ≠ n) :
    Apart (parent ++ [m]) (parent ++ [n]) := by
  have hne : ∀ {m n : Name}, m ≠ n → ¬ parent ++ [m] <+: parent ++ [n] := by
    intro m n h hpre
    rw [List.prefix_append_right_inj] at hpre
    exact h (by simpa using hpre)
  exact ⟨hne h, hne h.symm⟩

theorem relocateReady {plan : RelocatePlan} (hplan : plan.Sound) {probes : RelocateProbes}
    {fs : Fs FileData} (hclosed : Closed fs) (h : relocateRefusal plan probes fs = none) :
    RelocateReady fs plan := by
  obtain ⟨hstaging, hdest, hsource, hparent⟩ := relocateRefusal_none h
  obtain ⟨parent, root, name, hs, hd, hst⟩ := hplan.split
  have hname := stagingName_ne name
  have hfree : ∀ rel, fs.lookup (stagingPathFor plan.source ++ rel) = none :=
    free_below hclosed (by simp [hst]) hstaging
  constructor
  case source_dir => exact hsource
  case dest_free => exact free_below hclosed (by simp [hd]) hdest
  case staging_free => exact hfree
  case staging_source =>
    rw [hst, hs]
    exact apart_concat hname
  case staging_dest =>
    constructor
    · intro hpre
      rw [hd] at hpre
      rcases List.prefix_concat_iff.mp hpre with heq | hroot
      · rw [hst] at heq
        exact hname (by simpa using (List.append_inj' heq rfl).2)
      · -- the parent of the destination is there, and nothing is below the staging path
        obtain ⟨rel, hrel⟩ := hroot
        have hne : root ≠ [] := by
          rintro rfl
          simp [hst] at hrel
        rw [hd, List.dropLast_concat, entryAt, if_neg hne, ← hrel, hfree rel] at hparent
        cases hparent
    · intro hpre
      rw [hst] at hpre
      rcases List.prefix_concat_iff.mp hpre with heq | habove
      · rw [hd] at heq
        exact hname (by simpa using (List.append_inj' heq rfl).2.symm)
      · exact hplan.apart.2 (habove.trans (hs ▸ List.prefix_append parent [name]))

/-! ## The copy, verified or not -/

section Verified

variable {plan : RelocatePlan} {faults : RelocateFaults} {fs : Fs FileData}

/-- Nothing keeps the tree from being copied and from passing verification. -/
def CopyVerified (plan : RelocatePlan) (faults : RelocateFaults) (fs : Fs FileData) : Prop :=
  CopyStarts faults fs plan.dest ∧ Copyable faults.copying fs plan.source ∧
    faults.walkDest = false ∧ walkStats fs plan.source = (plan.files, plan.bytes)

/-- Everything of the source but the special files. -/
def Copied (plan : RelocatePlan) (fs after : Fs FileData) : Prop :=
  ∀ rel, after.lookup (plan.dest ++ rel) = (fs.lookup (plan.source ++ rel)).filter (· ≠ .special)

theorem Copied.stats {after : Fs FileData} (h : Copied plan fs after) :
    walkStats after plan.dest = walkStats fs plan.source := by
  apply walkStats_congr
  intro rel data
  rw [h rel]
  cases he : fs.lookup (plan.source ++ rel) with
  | none => simp
  | some e => cases e <;> simp [Option.filter]

theorem copyAndVerify_script (plan : RelocatePlan) (faults : RelocateFaults)
    (fs : Fs FileData) : (copyAndVerify plan faults fs).1 =
      (copyTreeScript faults plan.source plan.dest fs).1 := by
  unfold copyAndVerify
  cases copyTreeScript faults plan.source plan.dest fs with
  | mk script result =>
    cases result with
    | error e => rfl
    | ok skipped =>
      dsimp only
      split
      · rfl
      · split <;> rfl

theorem copyAndVerify_ok (hready : RelocateReady fs plan) (h : CopyVerified plan faults fs) :
    ∃ k, (copyAndVerify plan faults fs).2 = .ok k ∧
      Copied plan fs (runScript fs (copyAndVerify plan faults fs).1) := by
  obtain ⟨hstart, hcopy, hwalk, hstats⟩ := h
  obtain ⟨script, k, heq, hcopied⟩ :=
    copyTreeScript_ok hstart.2 hready.source_dir hready.dest_free hcopy
  have hcounts : walkStats (runScript fs script) plan.dest = (plan.files, plan.bytes) :=
    (Copied.stats hcopied).trans hstats
  refine ⟨k, ?_, ?_⟩
  · simp [copyAndVerify, heq, hcounts, hwalk]
  · rw [copyAndVerify_script, heq]
    exact hcopied

theorem copyAndVerify_error (hready : RelocateReady fs plan)
    (h : ¬ CopyVerified plan faults fs) : ∃ e, (copyAndVerify plan faults fs).2 = .error e := by
  by_cases hcopy : CopyStarts faults fs plan.dest ∧ Copyable faults.copying fs plan.source
  · obtain ⟨script, k, heq, hcopied⟩ :=
      copyTreeScript_ok hcopy.1.2 hready.source_dir hready.dest_free hcopy.2
    have hcounts := Copied.stats hcopied
    unfold copyAndVerify
    rw [heq]
    dsimp only
    by_cases hwalk : faults.walkDest = true
    · exact ⟨_, by rw [if_pos hwalk]⟩
    · rw [if_neg hwalk, if_pos]
      · exact ⟨_, rfl⟩
      · by_contra hsame
        refine h ⟨hcopy.1, hcopy.2, by simpa using hwalk, ?_⟩
        rw [← hcounts]
        rw [not_or, not_not, not_not] at hsame
        exact Prod.ext hsame.1 hsame.2
  · obtain ⟨e, he⟩ := copyTreeScript_error hcopy
    unfold copyAndVerify
    cases heq : copyTreeScript faults plan.source plan.dest fs with
    | mk script result =>
      rw [heq] at he
      obtain rfl : result = .error e := he
      exact ⟨e, rfl⟩

end Verified

/-! ## Errors -/

/-- After an error the source is what it was and nothing is at the destination, so that the same
plan can be applied again. -/
def RetryableOnError (plan : RelocatePlan) (fs : Fs FileData)
    (run : List (FsStep FileData) × Except String RelocateReport) : Prop :=
  ∀ e, run.2 = .error e →
    (∀ rel, (runScript fs run.1).lookup (plan.source ++ rel) = fs.lookup (plan.source ++ rel)) ∧
      (runScript fs run.1).lookup plan.dest = none

/-- What has to go right for it: nothing after a verified copy, and the removal of one that is
not. -/
structure ErrorsRetryable (plan : RelocatePlan) (probes : RelocateProbes)
    (faults : RelocateFaults) (fs : Fs FileData) : Prop where
  refused : relocateRefusal plan probes fs ≠ none → fs.lookup plan.dest = none
  verified : relocateRefusal plan probes fs = none → CopyVerified plan faults fs →
    faults.stage = false ∧ faults.symlink = false
  unverified : relocateRefusal plan probes fs = none → ¬ CopyVerified plan faults fs →
    CopyStarts faults fs plan.dest → faults.cleanup.stopped = false

section Errors

variable {plan : RelocatePlan} {probes : RelocateProbes} {faults : RelocateFaults}
  {fs : Fs FileData}

theorem applyRelocate_refused {e : String} (h : relocateRefusal plan probes fs = some e) :
    applyRelocate plan probes faults fs = ([], .error e) := by
  unfold applyRelocate
  rw [h]

theorem applyRelocate_unverified (hready : RelocateReady fs plan)
    (hstart : relocateRefusal plan probes fs = none) (h : ¬ CopyVerified plan faults fs) :
    ∃ e, applyRelocate plan probes faults fs =
      ((copyTreeScript faults plan.source plan.dest fs).1 ++ faults.cleanup.script plan.dest,
        .error e) := by
  obtain ⟨e, he⟩ := copyAndVerify_error hready h
  refine ⟨e, ?_⟩
  unfold applyRelocate
  rw [hstart, ← copyAndVerify_script]
  cases hcopy : copyAndVerify plan faults fs with
  | mk copied result =>
    rw [hcopy] at he
    obtain rfl : result = .error e := he
    rfl

theorem applyRelocate_verified (hready : RelocateReady fs plan)
    (hstart : relocateRefusal plan probes fs = none) (h : CopyVerified plan faults fs) :
    ∃ copied skipped, (∀ step ∈ copied, step.Within plan.dest) ∧
      Copied plan fs (runScript fs copied) ∧
      applyRelocate plan probes faults fs =
        (copied ++ (swapIn plan faults skipped).1, (swapIn plan faults skipped).2) := by
  obtain ⟨skipped, hok, hcopied⟩ := copyAndVerify_ok hready h
  refine ⟨(copyAndVerify plan faults fs).1, skipped, ?_, hcopied, ?_⟩
  · rw [copyAndVerify_script]
    exact copyTreeScript_within faults plan.source plan.dest fs
  · unfold applyRelocate
    rw [hstart]
    cases hcopy : copyAndVerify plan faults fs with
    | mk copied result =>
      rw [hcopy] at hok
      obtain rfl : result = .ok skipped := hok
      rfl

/-- A swap that fails leaves the copy where it is. -/
theorem swapIn_error (hplan : plan.Sound) (hready : RelocateReady fs plan) (skipped : Nat)
    (hfail : ¬ (faults.stage = false ∧ faults.symlink = false)) (after : Fs FileData) :
    (∃ e, (swapIn plan faults skipped).2 = .error e) ∧
      (runScript after (swapIn plan faults skipped).1).lookup plan.dest =
        after.lookup plan.dest := by
  have haside : ∀ after : Fs FileData,
      (FileTree.rename plan.source (stagingPathFor plan.source) after).lookup plan.dest =
        after.lookup plan.dest := fun _ =>
    lookup_rename_other hplan.apart.1 hready.staging_dest.1
  have hback : ∀ after : Fs FileData,
      (FileTree.rename (stagingPathFor plan.source) plan.source after).lookup plan.dest =
        after.lookup plan.dest := fun _ =>
    lookup_rename_other hready.staging_dest.1 hplan.apart.1
  unfold swapIn
  cases hstage : faults.stage with
  | true => exact ⟨⟨_, rfl⟩, rfl⟩
  | false =>
    cases hsymlink : faults.symlink with
    | false => exact absurd ⟨hstage, hsymlink⟩ hfail
    | true =>
      cases faults.restore with
      | true => exact ⟨⟨_, rfl⟩, haside after⟩
      | false => exact ⟨⟨_, rfl⟩, (hback _).trans (haside after)⟩

/-- An error before the swap leaves the source alone, and the destination free when the partial
copy could be removed. -/
theorem unverified_retryable_iff (hplan : plan.Sound) (hready : RelocateReady fs plan)
    (hstart : relocateRefusal plan probes fs = none) (h : ¬ CopyVerified plan faults fs) :
    RetryableOnError plan fs (applyRelocate plan probes faults fs) ↔
      (CopyStarts faults fs plan.dest → faults.cleanup.stopped = false) := by
  obtain ⟨e, hrun⟩ : ∃ e, applyRelocate plan probes faults fs = (_, .error e) :=
    applyRelocate_unverified hready hstart h
  have hwithin : ∀ step ∈ (copyTreeScript faults plan.source plan.dest fs).1 ++
      faults.cleanup.script plan.dest, step.Within plan.dest := by
    intro step hstep
    rcases List.mem_append.mp hstep with hin | hin
    · exact copyTreeScript_within faults plan.source plan.dest fs step hin
    · exact faults.cleanup.within plan.dest step hin
  rw [hrun]
  have hdest : (runScript fs ((copyTreeScript faults plan.source plan.dest fs).1 ++
      faults.cleanup.script plan.dest)).lookup plan.dest = none ↔
        (CopyStarts faults fs plan.dest → faults.cleanup.stopped = false) := by
    rw [runScript_append]
    cases hstopped : faults.cleanup.stopped with
    | false =>
      have hgone := Removal.lookup_of_not_stopped hstopped plan.dest
        (runScript fs (copyTreeScript faults plan.source plan.dest fs).1) []
      rw [List.append_nil] at hgone
      simp [hgone]
    | true =>
      rw [Removal.lookup_of_stopped hstopped]
      by_cases hstarts : CopyStarts faults fs plan.dest
      · simp [lookup_copyTreeScript_root hstarts, hstarts]
      · have hfree := hready.dest_free []
        rw [List.append_nil] at hfree
        simp [copyTreeScript_not_started hstarts, hstarts, hfree]
  constructor
  · exact fun hretry => hdest.mp (hretry e rfl).2
  · refine fun hclean e' _ => ⟨fun rel => ?_, hdest.mpr hclean⟩
    exact (sameOutside_runScript hwithin).subtree hplan.apart.symm rel

/-- **The boundary of the retry.** -/
theorem retryable_iff (plan : RelocatePlan) (hplan : plan.Sound) (probes : RelocateProbes)
    (faults : RelocateFaults) (t : Disk FileData) :
    RetryableOnError plan t.fs (applyRelocate plan probes faults t.fs) ↔
      ErrorsRetryable plan probes faults t.fs := by
  cases hrefusal : relocateRefusal plan probes t.fs with
  | some e =>
    rw [applyRelocate_refused hrefusal]
    constructor
    · intro h
      exact ⟨fun _ => (h e rfl).2, by simp [hrefusal], by simp [hrefusal]⟩
    · exact fun h e' _ => ⟨fun _ => rfl, h.refused (by simp [hrefusal])⟩
  | none =>
    have hready := relocateReady hplan t.closed hrefusal
    by_cases hverified : CopyVerified plan faults t.fs
    · obtain ⟨copied, skipped, -, hcopied, hrun⟩ :
          ∃ copied skipped, _ ∧ _ ∧ applyRelocate plan probes faults t.fs = _ :=
        applyRelocate_verified hready hrefusal hverified
      rw [hrun]
      constructor
      · intro h
        refine ⟨by simp [hrefusal], fun _ _ => ?_, fun _ hnot => absurd hverified hnot⟩
        by_contra hfail
        obtain ⟨⟨e, he⟩, hkeep⟩ := swapIn_error hplan hready skipped hfail
          (runScript t.fs copied)
        -- the complete copy is still there
        have hroot := hcopied []
        rw [List.append_nil, List.append_nil, hready.source_dir] at hroot
        have hfree := (h e he).2
        rw [runScript_append, hkeep, hroot] at hfree
        cases hfree
      · intro h e he
        obtain ⟨hstage, hsymlink⟩ := h.verified hrefusal hverified
        rw [swapIn, hstage, hsymlink] at he
        cases he
    · rw [unverified_retryable_iff hplan hready hrefusal hverified]
      constructor
      · exact fun h => ⟨by simp [hrefusal], fun _ hin => absurd hin hverified, fun _ _ => h⟩
      · exact fun h => h.unverified hrefusal hverified

end Errors

/-! ## Crashes -/

section Crash

variable {plan : RelocatePlan} {probes : RelocateProbes} {faults : RelocateFaults}
  {fs after : Fs FileData}

/-- The whole tree of the source, at `q`. -/
def WholeAt (plan : RelocatePlan) (fs : Fs FileData) (q : Location) (after : Fs FileData) : Prop :=
  ∀ rel, after.lookup (q ++ rel) = fs.lookup (plan.source ++ rel)

/-- The source is a link to a copy with everything but the special files. -/
structure Linked (plan : RelocatePlan) (fs after : Fs FileData) : Prop where
  link : after.lookup plan.source = some (.symlink { absolute := true, parts := plan.dest })
  copied : Copied plan fs after

/-- Nothing is lost but special files, and those only once the link stands. -/
def Complete (plan : RelocatePlan) (fs after : Fs FileData) : Prop :=
  WholeAt plan fs plan.source after ∨ WholeAt plan fs (stagingPathFor plan.source) after ∨
    Linked plan fs after

/-- The source moved aside. -/
theorem wholeAt_aside (hready : RelocateReady fs plan) (hcopied : SameOutside plan.dest fs after)
    (hwhole : WholeAt plan fs plan.source after) :
    WholeAt plan fs (stagingPathFor plan.source)
      (FileTree.rename plan.source (stagingPathFor plan.source) after) := by
  have hfree : ∀ rel, after.lookup (stagingPathFor plan.source ++ rel) = none := fun rel =>
    (hcopied.subtree hready.staging_dest.symm rel).trans (hready.staging_free rel)
  exact fun rel => (lookup_rename_dst rel hfree).trans (hwhole rel)

/-- The link in place of the source, its tree aside. -/
def swapped (plan : RelocatePlan) (after : Fs FileData) : Fs FileData :=
  (FileTree.rename plan.source (stagingPathFor plan.source) after).insert plan.source
    (.symlink { absolute := true, parts := plan.dest })

theorem linked_swapped (hplan : plan.Sound) (hready : RelocateReady fs plan)
    (hcopied : Copied plan fs after) : Linked plan fs (swapped plan after) := by
  unfold swapped
  constructor
  · exact AList.lookup_insert _
  · intro rel
    have hne : plan.dest ++ rel ≠ plan.source := by
      simpa using hplan.apart.symm.append_ne rel []
    rw [AList.lookup_insert_ne hne, lookup_rename_other (hplan.apart.not_prefix_append rel)
      (hready.staging_dest.not_prefix_append rel)]
    exact hcopied rel

theorem swapIn_complete (hplan : plan.Sound) (hready : RelocateReady fs plan) (skipped : Nat)
    (hsame : SameOutside plan.dest fs after) (hcopied : Copied plan fs after) :
    AtEveryCrash (Complete plan fs) after (swapIn plan faults skipped).1 := by
  have hwhole : WholeAt plan fs plan.source after := fun rel =>
    hsame.subtree hplan.apart.symm rel
  have haside := wholeAt_aside hready hsame hwhole
  unfold swapIn
  cases faults.stage with
  | true => exact Or.inl hwhole
  | false =>
    cases faults.symlink with
    | true =>
      cases faults.restore with
      | true => exact ⟨Or.inl hwhole, Or.inr (Or.inl haside)⟩
      | false =>
        refine ⟨Or.inl hwhole, Or.inr (Or.inl haside), Or.inl fun rel => ?_⟩
        have hgone : ∀ rel, (FileTree.rename plan.source (stagingPathFor plan.source)
            after).lookup (plan.source ++ rel) = none := fun rel =>
          lookup_rename_src rel hready.staging_source
        exact (lookup_rename_dst rel hgone).trans (haside rel)
    | false =>
      refine ⟨Or.inl hwhole, Or.inr (Or.inl haside), ?_⟩
      -- from here on only the staging copy goes away
      have hlinked := linked_swapped hplan hready hcopied
      refine Always.mono (fun s hs => Or.inr (Or.inr ?_))
        (sameOutside_atEveryCrash (faults.removeStaging.within _))
      constructor
      · have hsource := hs.subtree hready.staging_source []
        rw [List.append_nil] at hsource
        exact hsource.trans hlinked.link
      · exact fun rel => (hs.subtree hready.staging_dest rel).trans (hlinked.copied rel)

/-- **Nothing is lost in a crash.** -/
theorem complete_atEveryCrash (hplan : plan.Sound) (hclosed : Closed fs) :
    AtEveryCrash (Complete plan fs) fs (applyRelocate plan probes faults fs).1 := by
  have hwithin : ∀ {script : List (FsStep FileData)}, (∀ step ∈ script, step.Within plan.dest) →
      AtEveryCrash (Complete plan fs) fs script := fun h =>
    Always.mono (fun s hs => Or.inl fun rel => hs.subtree hplan.apart.symm rel)
      (sameOutside_atEveryCrash h)
  cases hrefusal : relocateRefusal plan probes fs with
  | some e =>
    rw [applyRelocate_refused hrefusal]
    exact Or.inl fun _ => rfl
  | none =>
    have hready := relocateReady hplan hclosed hrefusal
    by_cases hverified : CopyVerified plan faults fs
    · obtain ⟨copied, skipped, hsteps, hcopied, hrun⟩ :=
        applyRelocate_verified hready hrefusal hverified
      rw [hrun]
      exact atEveryCrash_append (hwithin hsteps)
        (swapIn_complete hplan hready skipped (sameOutside_runScript hsteps) hcopied)
    · obtain ⟨e, hrun⟩ := applyRelocate_unverified hready hrefusal hverified
      rw [hrun]
      refine hwithin fun step hstep => ?_
      rcases List.mem_append.mp hstep with hin | hin
      · exact copyTreeScript_within faults plan.source plan.dest fs step hin
      · exact faults.cleanup.within plan.dest step hin

/-- What a relocation that succeeds leaves: the link, the copy, and everything else as it
was. -/
theorem applyRelocate_ok (hplan : plan.Sound) (hclosed : Closed fs) {report : RelocateReport}
    (h : (applyRelocate plan probes faults fs).2 = .ok report) :
    RelocateReady fs plan ∧ CopyVerified plan faults fs ∧
      Linked plan fs (runScript fs (applyRelocate plan probes faults fs).1) ∧
      ∀ q, ¬ plan.dest <+: q → ¬ plan.source <+: q → ¬ stagingPathFor plan.source <+: q →
        (runScript fs (applyRelocate plan probes faults fs).1).lookup q = fs.lookup q := by
  cases hrefusal : relocateRefusal plan probes fs with
  | some e =>
    rw [applyRelocate_refused hrefusal] at h
    cases h
  | none =>
    have hready := relocateReady hplan hclosed hrefusal
    by_cases hverified : CopyVerified plan faults fs
    · obtain ⟨copied, skipped, hsteps, hcopied, hrun⟩ :
          ∃ copied skipped, _ ∧ _ ∧ applyRelocate plan probes faults fs = _ :=
        applyRelocate_verified hready hrefusal hverified
      rw [hrun] at h ⊢
      dsimp only at h ⊢
      have hswap : faults.stage = false ∧ faults.symlink = false := by
        by_contra hfail
        obtain ⟨⟨e, he⟩, -⟩ := swapIn_error hplan hready skipped hfail fs
        rw [he] at h
        cases h
      have hlinked := linked_swapped hplan hready hcopied
      have hend : runScript fs (copied ++ (swapIn plan faults skipped).1) =
          runScript (swapped plan (runScript fs copied))
            (faults.removeStaging.script (stagingPathFor plan.source)) := by
        rw [runScript_append, swapIn, hswap.1, hswap.2]
        rfl
      have hremoved : SameOutside (stagingPathFor plan.source)
          (swapped plan (runScript fs copied)) _ :=
        sameOutside_runScript (faults.removeStaging.within (stagingPathFor plan.source))
      rw [hend]
      refine ⟨hready, hverified, ⟨?_, fun rel => ?_⟩, fun q hdest hsource hstaging => ?_⟩
      · have hsource := hremoved.subtree hready.staging_source []
        rw [List.append_nil] at hsource
        exact hsource.trans hlinked.link
      · exact (hremoved.subtree hready.staging_dest rel).trans (hlinked.copied rel)
      · refine (hremoved q hstaging).trans ?_
        have hne : q ≠ plan.source := fun heq => hsource (heq ▸ List.prefix_refl _)
        rw [swapped, AList.lookup_insert_ne hne, lookup_rename_other hsource hstaging]
        exact sameOutside_runScript hsteps q hdest
    · obtain ⟨e, hrun⟩ := applyRelocate_unverified hready hrefusal hverified
      rw [hrun] at h
      cases h

end Crash

/-- A path that reads through the link arrives at the copy. -/
theorem resolve_relocated {plan : RelocatePlan} {probes : RelocateProbes}
    {faults : RelocateFaults} {t : Mount FileData} (hplan : plan.Sound) {report : RelocateReport}
    (h : (applyRelocate plan probes faults t.fs).2 = .ok report) :
    resolve (runScript t.fs (applyRelocate plan probes faults t.fs).1) maxLinks [] plan.source =
      .ok plan.dest := by
  obtain ⟨hready, hverified, hlinked, hother⟩ := applyRelocate_ok hplan t.closed h
  obtain ⟨parent, root, name, hs, hd, hst⟩ := hplan.split
  set after := runScript t.fs (applyRelocate plan probes faults t.fs).1 with hafter
  have hrootdir : entryAt t.fs root = some .dir := by
    have hparent := hverified.1.2
    rwa [hd, List.dropLast_concat] at hparent
  have hparentdir : entryAt t.fs parent = some .dir :=
    t.closed parent name (by rw [← hs, hready.source_dir]; rfl)
  -- the directories above the link and above the copy are where they were
  have hkeep : ∀ {q k : Location}, entryAt t.fs q = some .dir → k ≠ [] → k <+: q →
      ¬ plan.dest <+: k → ¬ plan.source <+: k → ¬ stagingPathFor plan.source <+: k →
      after.lookup k = some .dir := fun hdir hk hkq hdest hsource hstaging =>
    (hother _ hdest hsource hstaging).trans (t.closed.dirs_above hdir hk hkq)
  have hlong : ∀ {q k : Location} {n : Name}, k <+: q → ¬ q ++ [n] <+: k := by
    intro q k n hkq hpre
    have hlen := (hpre.trans hkq).length_le
    rw [List.length_append, List.length_singleton] at hlen
    omega
  have hsourcedirs : ∀ k, k ≠ [] → k <+: parent → after.lookup k = some .dir := by
    intro k hk hkp
    refine hkeep hparentdir hk hkp (fun hpre => ?_) (hs ▸ hlong hkp) (hst ▸ hlong hkp)
    exact hplan.apart.2 (hs ▸ (hpre.trans hkp).trans (List.prefix_append parent [name]))
  have hdestdirs : ∀ k, k ≠ [] → k <+: plan.dest → after.lookup k = some .dir := by
    intro k hk hkd
    rw [hd] at hkd
    rcases List.prefix_concat_iff.mp hkd with heq | hkr
    · have hcopy := hlinked.copied []
      rw [List.append_nil, List.append_nil, hready.source_dir] at hcopy
      rw [heq, ← hd]
      exact hcopy
    · have hkdest : k <+: plan.dest := hd ▸ hkr.trans (List.prefix_append root [name])
      refine hkeep hrootdir hk hkr (hd ▸ hlong hkr) (fun hpre => ?_) fun hpre => ?_
      · exact hplan.apart.1 (hpre.trans hkdest)
      · exact hready.staging_dest.1 (hpre.trans hkdest)
  have hsourceplain : ∀ n ∈ plan.source, n.isPlain = true :=
    t.plain plan.source (by rw [hready.source_dir]; rfl)
  have hdestplain : ∀ n ∈ plan.dest, n.isPlain = true := by
    intro n hn
    rw [hd] at hn
    rcases List.mem_append.mp hn with hin | hin
    · refine t.plain root ?_ n hin
      rw [entryAt, if_neg (List.ne_nil_of_mem hin)] at hrootdir
      rw [hrootdir]
      rfl
    · rw [List.mem_singleton.mp hin]
      exact hsourceplain name (by simp [hs])
  have hlink := hlinked.link
  rw [hs] at hlink hsourceplain ⊢
  rw [show maxLinks = 39 + 1 from rfl, resolve_link 39 hsourceplain hsourcedirs hlink]
  exact resolve_dirs 39 hdestplain hdestdirs

/-- **A relocation keeps the tree**, special files apart: at every crash it is at the source or
aside, or the source is a link to the verified copy; and after success the source resolves to
that copy. -/
theorem relocation_keeps_tree (plan : RelocatePlan) (hplan : plan.Sound)
    (probes : RelocateProbes) (faults : RelocateFaults) (t : Mount FileData) :
    AtEveryCrash (Complete plan t.fs) t.fs (applyRelocate plan probes faults t.fs).1 ∧
      ∀ report, (applyRelocate plan probes faults t.fs).2 = .ok report →
        resolve (runScript t.fs (applyRelocate plan probes faults t.fs).1) maxLinks []
            plan.source = .ok plan.dest ∧
          Copied plan t.fs (runScript t.fs (applyRelocate plan probes faults t.fs).1) :=
  ⟨complete_atEveryCrash hplan t.closed, fun _ h =>
    ⟨resolve_relocated hplan h, (applyRelocate_ok hplan t.closed h).2.2.1.copied⟩⟩

/-! ## A cold directory with a socket in it -/

section Media

private def mediaName : Name := ⟨"media", by decide⟩

private def filmName : Name := ⟨"film", by decide⟩

private def socketName : Name := ⟨"socket", by decide⟩

private def coldName : Name := ⟨"cold", by decide⟩

/-- `/media/film`, a socket `/media/socket` when there is `one`, and an empty `/cold`. -/
private def mediaFs (one : Bool) : Fs FileData :=
  let fs := (((∅ : Fs FileData).insert [coldName] .dir).insert [mediaName] .dir).insert
    [mediaName, filmName] (.file (.bytes [1]))
  if one then fs.insert [mediaName, socketName] .special else fs

private def mediaTree (one : Bool) : Mount FileData where
  fs := mediaFs one
  closed := FileTree.closed_of_keys (by cases one <;> decide +kernel)
  cwd := []
  cwd_dir := rfl
  plain := FileTree.plain_of_keys (by cases one <;> decide +kernel)

private def coldProbes : RelocateProbes where
  gitTracked _ := .ok false
  dfAvail _ := some 1000000
  humanBytes n := toString n ++ ".0 B"

private def mediaPlan : RelocatePlan where
  source := [mediaName]
  dest := [coldName, mediaName]
  files := 1
  bytes := 1
  destAvailBytes := some 1000000
  fits := true
  ready := true
  issues := []

private theorem mediaPlan_planned (one : Bool) :
    planRelocate (mediaTree one).toDisk coldProbes none "/media" "/cold" [] false =
      .ok mediaPlan := by
  cases one <;> decide +kernel

private theorem mediaPlan_sound : mediaPlan.Sound where
  source_ne := by decide
  named := by decide
  apart := ⟨by decide, by decide⟩

private def applyMedia (one : Bool) (faults : RelocateFaults) :
    List (FsStep FileData) × Except String RelocateReport :=
  applyRelocate mediaPlan coldProbes faults (mediaFs one)

/-- A copy that cannot be read back is taken away again. -/
theorem retryable_media :
    RetryableOnError mediaPlan (mediaFs false) (applyMedia false { walkDest := true }) :=
  (retryable_iff mediaPlan mediaPlan_sound coldProbes { walkDest := true }
    (mediaTree false).toDisk).2
    { refused := fun h => absurd (by decide +kernel) h
      verified := fun _ _ => ⟨rfl, rfl⟩
      unverified := fun _ _ _ => rfl }

private theorem not_retryable_media {faults : RelocateFaults} {e : String}
    (herr : (applyMedia false faults).2 = .error e)
    (hdest : (runScript (mediaFs false) (applyMedia false faults).1).lookup mediaPlan.dest =
      some .dir) : ¬ RetryableOnError mediaPlan (mediaFs false) (applyMedia false faults) := by
  intro h
  have hfree := (h e herr).2
  rw [hdest] at hfree
  cases hfree

/-- The source cannot be renamed, or the link cannot be made: the complete copy stays at the
destination, and the same plan is refused from then on. -/
theorem relocate_strands_copy :
    planRelocate (mediaTree false).toDisk coldProbes none "/media" "/cold" [] false =
        .ok mediaPlan ∧
      ¬ RetryableOnError mediaPlan (mediaFs false) (applyMedia false { stage := true }) ∧
      ¬ RetryableOnError mediaPlan (mediaFs false) (applyMedia false { symlink := true }) :=
  ⟨mediaPlan_planned false, not_retryable_media rfl (by decide +kernel),
    not_retryable_media rfl (by decide +kernel)⟩

theorem relocation_keeps_media :
    AtEveryCrash (Complete mediaPlan (mediaFs true)) (mediaFs true) (applyMedia true {}).1 :=
  (relocation_keeps_tree mediaPlan mediaPlan_sound coldProbes {} (mediaTree true)).1

/-- The move succeeds and the socket is nowhere. -/
theorem relocation_drops_socket :
    (applyMedia true {}).2.toOption.isSome = true ∧
      ∀ q ∈ [mediaPlan.source, stagingPathFor mediaPlan.source, mediaPlan.dest],
        ¬ WholeAt mediaPlan (mediaFs true) q
          (runScript (mediaFs true) (applyMedia true {}).1) := by
  have hgone : ∀ q ∈ [mediaPlan.source, stagingPathFor mediaPlan.source, mediaPlan.dest],
      (runScript (mediaFs true) (applyMedia true {}).1).lookup (q ++ [socketName]) ≠
        (mediaFs true).lookup (mediaPlan.source ++ [socketName]) := by
    decide +kernel
  exact ⟨by decide +kernel, fun q hq h => hgone q hq (h [socketName])⟩

end Media

end DraconGuard
