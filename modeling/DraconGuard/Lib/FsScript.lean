import DraconGuard.Lib.Runs
import DraconGuard.Lib.Subtree

/-!
# Scripts of file system effects

What a program does to a file system, effect by effect. A crash leaves the state after some of
the effects, which is one of those `Runs.Always` speaks about. A script that stays within a
directory leaves everything else as it was, wherever it is cut off.
-/

namespace FileTree

open Runs

/-- One effect. -/
inductive FsStep (δ : Type) where
  | put (q : Location) (entry : Entry δ)
  | erase (q : Location)
  /-- The last effect of a removal: nothing is left. -/
  | clear (q : Location)
  | rename (src dst : Location)

variable {δ : Type}

def FsStep.apply (fs : Fs δ) : FsStep δ → Fs δ
  | .put q entry => fs.insert q entry
  | .erase q => fs.erase q
  | .clear q => removeSubtree fs q
  | .rename src dst => FileTree.rename src dst fs

/-- The state a script ends in. -/
abbrev runScript (fs : Fs δ) (script : List (FsStep δ)) : Fs δ := exec FsStep.apply fs script

/-- `P` holds before, between and after the effects. -/
abbrev AtEveryCrash (P : Fs δ → Prop) (fs : Fs δ) (script : List (FsStep δ)) : Prop :=
  Always FsStep.apply P fs script

theorem runScript_append (fs : Fs δ) (xs ys : List (FsStep δ)) :
    runScript fs (xs ++ ys) = runScript (runScript fs xs) ys := List.foldl_append

theorem atEveryCrash_append {P : Fs δ → Prop} {fs : Fs δ} {xs ys : List (FsStep δ)}
    (hxs : AtEveryCrash P fs xs) (hys : AtEveryCrash P (runScript fs xs) ys) :
    AtEveryCrash P fs (xs ++ ys) := by
  induction xs generalizing fs with
  | nil => exact hys
  | cons x xs ih => exact ⟨hxs.1, ih hxs.2 hys⟩

/-- The effect changes nothing outside `root`. -/
def FsStep.Within (root : Location) : FsStep δ → Prop
  | .put q _ => root <+: q
  | .erase q => root <+: q
  | .clear q => root <+: q
  | .rename src dst => root <+: src ∧ root <+: dst

/-- What lies outside `root` is as it is in `fs`. -/
def SameOutside (root : Location) (fs fs' : Fs δ) : Prop :=
  ∀ q, ¬ root <+: q → fs'.lookup q = fs.lookup q

theorem SameOutside.refl (root : Location) (fs : Fs δ) : SameOutside root fs fs := fun _ _ => rfl

theorem SameOutside.apply {root : Location} {fs fs' : Fs δ} (h : SameOutside root fs fs')
    {step : FsStep δ} (hstep : step.Within root) : SameOutside root fs (step.apply fs') := by
  intro q hq
  rw [← h q hq]
  cases step with
  | put p entry => exact AList.lookup_insert_ne fun heq => hq (heq ▸ hstep)
  | erase p => exact AList.lookup_erase_ne fun heq => hq (heq ▸ hstep)
  | clear p =>
    rw [FsStep.apply, lookup_removeSubtree, if_neg fun hpq => hq (hstep.trans hpq)]
  | rename src dst =>
    exact lookup_rename_other (fun hsrc => hq (hstep.1.trans hsrc))
      fun hdst => hq (hstep.2.trans hdst)

/-- **Frame rule.** A script within `root` never touches what lies outside. -/
theorem sameOutside_atEveryCrash {root : Location} {fs : Fs δ} {script : List (FsStep δ)}
    (h : ∀ step ∈ script, step.Within root) : AtEveryCrash (SameOutside root fs) fs script :=
  have hkeep : ∀ (s : Fs δ) (step : FsStep δ), SameOutside root fs s → step.Within root →
      SameOutside root fs (step.apply s) := fun _ _ hs hstep => hs.apply hstep
  Along.always hkeep (SameOutside.refl root fs) (Along.of_forall fun step hstep _ => h step hstep)

theorem sameOutside_runScript {root : Location} {fs : Fs δ} {script : List (FsStep δ)}
    (h : ∀ step ∈ script, step.Within root) : SameOutside root fs (runScript fs script) :=
  Always.last script (sameOutside_atEveryCrash h)

/-- A subtree elsewhere stays as it is. -/
theorem SameOutside.subtree {root other : Location} {fs fs' : Fs δ}
    (h : SameOutside root fs fs') (hapart : Apart root other) (rel : Location) :
    fs'.lookup (other ++ rel) = fs.lookup (other ++ rel) :=
  h (other ++ rel) (hapart.not_prefix_append rel)

/-! ## Removals -/

/-- `remove_dir_all`: the entries it takes, one after another. It ends with nothing left, or
stops with an error before it comes to the directory itself. -/
structure Removal where
  order : List Location
  stopped : Bool := false
  keeps_root : stopped = true → [] ∉ order

/-- A removal that takes everything, by whatever steps. -/
def Removal.whole (order : List Location) : Removal where
  order := order
  keeps_root := by simp

def Removal.script (r : Removal) (root : Location) : List (FsStep δ) :=
  r.order.map (fun rel => .erase (root ++ rel)) ++ if r.stopped then [] else [.clear root]

theorem Removal.within (r : Removal) (root : Location) :
    ∀ step ∈ (r.script root : List (FsStep δ)), step.Within root := by
  intro step hstep
  rcases List.mem_append.mp hstep with herase | hclear
  · obtain ⟨rel, -, rfl⟩ := List.mem_map.mp herase
    exact List.prefix_append root rel
  · cases hstopped : r.stopped with
    | true => simp [hstopped] at hclear
    | false =>
      obtain rfl : step = .clear root := by simpa [hstopped] using hclear
      exact List.prefix_refl root

/-- A removal that does not stop leaves nothing. -/
theorem Removal.lookup_of_not_stopped {r : Removal} (h : r.stopped = false) (root : Location)
    (fs : Fs δ) (rel : Location) : (runScript fs (r.script root)).lookup (root ++ rel) = none := by
  unfold Removal.script
  rw [runScript_append, h, if_neg Bool.false_ne_true, runScript, exec_cons, exec_nil,
    FsStep.apply, lookup_removeSubtree, if_pos (List.prefix_append root rel)]

/-- One that stops leaves the directory it was to remove. -/
theorem Removal.lookup_of_stopped {r : Removal} (h : r.stopped = true) (root : Location)
    (fs : Fs δ) : (runScript fs (r.script root)).lookup root = fs.lookup root := by
  unfold Removal.script
  rw [runScript_append, h, if_pos rfl, runScript, exec_nil]
  have hroot := r.keeps_root h
  generalize r.order = order at hroot
  induction order generalizing fs with
  | nil => rfl
  | cons rel order ih =>
    rw [List.mem_cons, not_or] at hroot
    rw [List.map_cons, runScript, exec_cons, FsStep.apply]
    refine (ih _ hroot.2).trans (AList.lookup_erase_ne fun heq => hroot.1 ?_)
    simpa using heq

end FileTree
