import DraconGuard.Lib.FileTree

/-!
# The gate in front of every recursive cleanup

`check_safe_to_delete_guard` and `check_safe_to_delete_tmp_entry` (safety.rs:182-300), and two
of the callers that remove what the gate lets through: `auto_cleanup_rust_targets`
(main.rs:3933-3991) and `remove_tmp_entry` (main.rs:8444-8475).

The gate compares one path, the candidate's, with each protected path, and refuses a candidate
at or below one. What is removed is a subtree.

* The root is special by design: every path is below it, so as a protected path it protects
  only itself (`is_protected_ancestor_root_matches_exact_only` in the tests).
* A protected path strictly inside the candidate is never looked for, and goes with it;
  `has_active_build` in the same pass asks both ways round.

`protected_outside_survive` is what the gate promises apart from these two,
`protected_survive_iff` that there is nothing else.
-/

namespace DraconGuard

open FileTree (Disk Location Fs Errno Spelled Name render renderChars entryAt removeSubtree)

variable {δ : Type}

/-- `SYSTEM_PROTECTED` (safety.rs:33). -/
def systemProtected : List String :=
  ["/", "/home", "/etc", "/usr", "/var", "/boot", "/nix", "/run", "/sys", "/dev", "/proc"]

/-- `is_protected_ancestor` (safety.rs:284-300), on the texts of canonical paths. -/
def isProtectedAncestor (path shield : String) : Bool :=
  if path = shield then true
  -- every path is below the root, so it only protects itself
  else if shield = "/" then path == "/"
  else
    let pre := if shield.toList.getLast? = some '/' then shield.toList else shield.toList ++ ['/']
    pre.isPrefixOf path.toList

/-- What the gate hands back: the canonical path, or the path as given when it resolves to
nothing. -/
inductive CheckedPath where
  | canonical (q : Location)
  | asGiven (text : String)
deriving DecidableEq

def CheckedPath.display : CheckedPath → String
  | .canonical q => render q
  | .asGiven text => text

/-- `Path::starts_with`, by components. -/
def CheckedPath.startsWith (root : Location) : CheckedPath → Bool
  | .canonical q => root.isPrefixOf q
  | .asGiven text =>
    match Spelled.parse text with
    | none => false
    | some p => p.absolute && root.isPrefixOf (p.parts.filter (· ≠ Name.current))

def isSymlink (t : Disk δ) (path : String) : Bool :=
  match t.lstat path with
  | .ok (_, .symlink _) => true
  | _ => false

/-- The loop over `user_protected` (safety.rs:219-258). -/
def refuseUserProtected (t : Disk δ) (canon : Location) : List String → Except String Unit
  | [] => .ok ()
  | userProt :: rest =>
    match t.canonicalize userProt with
    | .ok protCanon =>
      if isProtectedAncestor (render canon) (render protCanon) then
        .error ("refusing to delete protected path " ++ render canon ++
          " (under user-protected path " ++ userProt ++ ")")
      else refuseUserProtected t canon rest
    -- warned about once and skipped: it protects nothing
    | .error .notFound => refuseUserProtected t canon rest
    | .error e =>
      .error ("cannot canonicalize user-protected path " ++ userProt ++ ": " ++ e.message ++
        " — refusing")

/-- `check_safe_to_delete_guard` (safety.rs:182-261). -/
def checkSafeToDeleteGuard (t : Disk δ) (path : String) (userProtected : List String) :
    Except String CheckedPath :=
  match t.canonicalize path with
  | .error .notFound => .ok (.asGiven path)
  | .error e =>
    .error ("cannot canonicalize " ++ path ++ ": " ++ e.message ++ " — refusing to delete")
  | .ok canon =>
    if isSymlink t path then
      .error ("refusing to delete symlink " ++ path ++ " — use target directly")
    else if render canon ∈ systemProtected then
      .error ("refusing guard cleanup of protected system path " ++ render canon)
    else
      match refuseUserProtected t canon userProtected with
      | .error e => .error e
      | .ok () => .ok (.canonical canon)

/-- `check_safe_to_delete_tmp_entry` (safety.rs:267-282). -/
def checkSafeToDeleteTmpEntry (t : Disk δ) (path : String) (tmpRoot : Location)
    (userProtected : List String) : Except String CheckedPath :=
  match checkSafeToDeleteGuard t path userProtected with
  | .error e => .error e
  | .ok canon =>
    if canon.startsWith tmpRoot then .ok canon
    else .error ("refusing to delete tmp entry " ++ canon.display ++
      ": resolved path is outside validated tmp root " ++ render tmpRoot)

/-- `remove_dir_all` on a spelled path: a final link is unlinked, not followed. -/
def removeDirAll (t : Disk δ) (path : String) : Fs δ :=
  match t.lstat path with
  | .ok (q, .dir) => removeSubtree t.fs q
  | .ok (q, .symlink _) => t.fs.erase q
  | _ => t.fs

/-- The removal of `auto_cleanup_rust_targets` (main.rs:3980-3988): the canonical path, derived
again. -/
def removeRustTarget (t : Disk δ) (path : String) : Fs δ :=
  match t.canonicalize path with
  | .ok q => removeSubtree t.fs q
  | .error _ => removeDirAll t path

/-- `remove_tmp_entry` (main.rs:8444-8475), applied. -/
def removeTmpEntry (t : Disk δ) (path : String) : Fs δ :=
  match t.lstat path with
  | .ok (_, .dir) => removeDirAll t path
  | .ok (q, _) => t.fs.erase q
  | .error _ => t.fs

/-- A cleanup tier: the check it makes and the removal that follows. -/
inductive CleanupTier where
  | rustTarget
  | tmpEntry (tmpRoot : Location)

def CleanupTier.check (t : Disk δ) (path : String) (userProtected : List String) :
    CleanupTier → Except String CheckedPath
  | .rustTarget => checkSafeToDeleteGuard t path userProtected
  | .tmpEntry tmpRoot => checkSafeToDeleteTmpEntry t path tmpRoot userProtected

def CleanupTier.remove (t : Disk δ) (path : String) : CleanupTier → Fs δ
  | .rustTarget => removeRustTarget t path
  | .tmpEntry _ => removeTmpEntry t path

/-! ## What the gate decides -/

/-- On canonical paths the textual test is containment, the root apart. -/
theorem isProtectedAncestor_render {q shield : Location} :
    isProtectedAncestor (render q) (render shield) = true ↔
      q = shield ∨ (shield ≠ [] ∧ shield <+: q) := by
  by_cases heq : q = shield
  · simp [isProtectedAncestor, heq]
  have hne : render q ≠ render shield := fun h => heq (FileTree.render_injective h)
  by_cases hroot : shield = []
  · subst hroot
    have hq : render q ≠ "/" := hne
    have htext : render [] = "/" := rfl
    simp [isProtectedAncestor, htext, hq, heq]
  · have hshield : render shield ≠ "/" := fun h =>
      hroot (FileTree.render_injective (q := []) (by simpa [render] using h))
    have htext : (render shield).toList = renderChars shield := by simp [render, hroot]
    unfold isProtectedAncestor
    rw [if_neg hne, if_neg hshield]
    dsimp only
    rw [htext, if_neg FileTree.renderChars_getLast, List.isPrefixOf_iff_prefix]
    by_cases hq : q = []
    · subst hq
      obtain ⟨n, rest, rfl⟩ := List.exists_cons_of_ne_nil hroot
      simp [render]
    · have hqtext : (render q).toList = renderChars q := by simp [render, hq]
      rw [hqtext, FileTree.renderChars_prefix_iff]
      simp [heq, hroot, Ne.symm heq]

theorem refuseUserProtected_ok {t : Disk δ} {canon : Location} {userProtected : List String}
    (h : refuseUserProtected t canon userProtected = .ok ()) {entry : String}
    (hentry : entry ∈ userProtected) {shield : Location}
    (hshield : t.canonicalize entry = .ok shield) :
    isProtectedAncestor (render canon) (render shield) = false := by
  induction userProtected with
  | nil => simp at hentry
  | cons userProt rest ih =>
    unfold refuseUserProtected at h
    rcases List.mem_cons.mp hentry with rfl | hin
    · rw [hshield] at h
      dsimp only at h
      split at h
      · simp at h
      · next hfree => simpa using hfree
    · split at h
      · split at h
        · simp at h
        · exact ih h hin
      · exact ih h hin
      · simp at h

/-- **What acceptance means** for a candidate that resolves. -/
theorem checkSafeToDeleteGuard_ok {t : Disk δ} {path : String} {userProtected : List String}
    {checked : CheckedPath} {q : Location} (hq : t.canonicalize path = .ok q)
    (h : checkSafeToDeleteGuard t path userProtected = .ok checked) :
    checked = .canonical q ∧ q ≠ [] ∧ isSymlink t path = false ∧
      ∀ entry ∈ userProtected, ∀ shield, t.canonicalize entry = .ok shield →
        q ≠ shield ∧ (shield ≠ [] → ¬ shield <+: q) := by
  unfold checkSafeToDeleteGuard at h
  rw [hq] at h
  dsimp only at h
  split at h
  · simp at h
  · next hlink =>
    split at h
    · simp at h
    · next hsystem =>
      split at h
      · simp at h
      · next hfree =>
        refine ⟨(Except.ok.inj h).symm, ?_, by simpa using hlink, ?_⟩
        · rintro rfl
          exact hsystem (by decide)
        · intro entry hentry shield hshield
          have hnot := refuseUserProtected_ok hfree hentry hshield
          rw [← Bool.not_eq_true, isProtectedAncestor_render, not_or, not_and] at hnot
          exact hnot

theorem CleanupTier.check_guard {t : Disk δ} {tier : CleanupTier} {path : String}
    {userProtected : List String} {checked : CheckedPath}
    (h : tier.check t path userProtected = .ok checked) :
    checkSafeToDeleteGuard t path userProtected = .ok checked := by
  cases tier with
  | rustTarget => exact h
  | tmpEntry tmpRoot =>
    unfold CleanupTier.check checkSafeToDeleteTmpEntry at h
    dsimp only at h
    split at h
    · simp at h
    · next hguard =>
      split at h
      · rw [hguard, h]
      · simp at h

/-- Both tiers take out the subtree at the candidate's canonical path. -/
theorem CleanupTier.remove_dir {t : Disk δ} {tier : CleanupTier} {path : String} {q : Location}
    (hdir : t.lstat path = .ok (q, .dir)) : tier.remove t path = removeSubtree t.fs q := by
  cases tier with
  | rustTarget =>
    have hq : t.canonicalize path = .ok q := FileTree.canonicalize_of_lstat_dir hdir
    simp [CleanupTier.remove, removeRustTarget, hq]
  | tmpEntry tmpRoot => simp [CleanupTier.remove, removeTmpEntry, removeDirAll, hdir]

/-! ## What survives -/

/-- Nothing at or below `shield` is gone or changed. -/
def Untouched (t : Disk δ) (shield : Location) (after : Fs δ) : Prop :=
  ∀ p e, shield <+: p → t.fs.lookup p = some e → after.lookup p = some e

/-- Nothing at or below a protected path that resolves is gone or changed. -/
def ProtectedSurvive (t : Disk δ) (userProtected : List String) (after : Fs δ) : Prop :=
  ∀ entry ∈ userProtected, ∀ shield, t.canonicalize entry = .ok shield → Untouched t shield after

/-- Subtrees that do not contain each other are apart. -/
theorem untouched_removeSubtree {t : Disk δ} {q shield : Location} (hbelow : ¬ q <+: shield)
    (habove : ¬ shield <+: q) : Untouched t shield (removeSubtree t.fs q) := by
  intro p e hsp hlook
  have hnot : ¬ q <+: p := by
    intro hqp
    rcases List.prefix_or_prefix_of_prefix hqp hsp with hqs | hsq
    · exact hbelow hqs
    · exact habove hsq
  simp [hnot, hlook]

section Tier

variable {t : Disk δ} {tier : CleanupTier} {path : String} {userProtected : List String}
  {q : Location} {checked : CheckedPath}

/-- Where an accepted candidate lies: not at a protected path, nor below one but the root. -/
theorem CleanupTier.accepted (hdir : t.lstat path = .ok (q, .dir))
    (hcheck : tier.check t path userProtected = .ok checked) :
    q ≠ [] ∧ ∀ entry ∈ userProtected, ∀ shield, t.canonicalize entry = .ok shield →
      q ≠ shield ∧ (shield ≠ [] → ¬ shield <+: q) := by
  have hq : t.canonicalize path = .ok q := FileTree.canonicalize_of_lstat_dir hdir
  obtain ⟨-, hroot, -, hfree⟩ := checkSafeToDeleteGuard_ok hq (CleanupTier.check_guard hcheck)
  exact ⟨hroot, hfree⟩

/-- A protected path outside the candidate keeps its subtree. -/
theorem CleanupTier.spares (hdir : t.lstat path = .ok (q, .dir))
    (hcheck : tier.check t path userProtected = .ok checked) {entry : String}
    (hentry : entry ∈ userProtected) {shield : Location}
    (hshield : t.canonicalize entry = .ok shield) (hroot : shield ≠ [])
    (houtside : ¬ (q <+: shield ∧ q ≠ shield)) :
    Untouched t shield (tier.remove t path) := by
  obtain ⟨hne, habove⟩ := (CleanupTier.accepted hdir hcheck).2 entry hentry shield hshield
  rw [CleanupTier.remove_dir hdir]
  exact untouched_removeSubtree (fun hqs => houtside ⟨hqs, hne⟩) (habove hroot)

/-- **The boundary of the gate.** What a tier removes after its check accepted the candidate
directory `q` spares every protected path exactly when none of them is the root or lies
strictly inside `q`. -/
theorem protected_survive_iff (hdir : t.lstat path = .ok (q, .dir))
    (hcheck : tier.check t path userProtected = .ok checked) :
    ProtectedSurvive t userProtected (tier.remove t path) ↔
      ∀ entry ∈ userProtected, ∀ shield, t.canonicalize entry = .ok shield →
        shield ≠ [] ∧ ¬ (q <+: shield ∧ q ≠ shield) := by
  constructor
  · intro hsurvive entry hentry shield hshield
    obtain ⟨hqroot, -⟩ := CleanupTier.accepted hdir hcheck
    have hq : t.canonicalize path = .ok q := FileTree.canonicalize_of_lstat_dir hdir
    rw [CleanupTier.remove_dir hdir] at hsurvive
    -- whatever exists at or below both the candidate and the protected path is removed
    have hapart : ∀ p, shield <+: p → q <+: p → (entryAt t.fs p).isSome → p ≠ [] → False := by
      intro p hsp hqp hsome hp
      obtain ⟨e, he⟩ := Option.isSome_iff_exists.mp hsome
      have hlook : t.fs.lookup p = some e := by simpa [entryAt, hp] using he
      have := hsurvive entry hentry shield hshield p e hsp hlook
      simp [hqp] at this
    refine ⟨?_, ?_⟩
    · rintro rfl
      exact hapart q List.nil_prefix (List.prefix_refl q) (t.canonicalize_exists hq) hqroot
    · rintro ⟨hinside, -⟩
      refine hapart shield (List.prefix_refl shield) hinside (t.canonicalize_exists hshield) ?_
      rintro rfl
      exact hqroot (List.prefix_nil.mp hinside)
  · intro houtside entry hentry shield hshield
    obtain ⟨hroot, hinside⟩ := houtside entry hentry shield hshield
    exact CleanupTier.spares hdir hcheck hentry hshield hroot hinside

end Tier

/-- **Protected paths survive cleanup.** Whatever a tier removes after its check accepted the
candidate directory `q`, a protected path other than the root that does not lie strictly
inside `q` keeps itself and everything below it. -/
theorem protected_outside_survive (t : Disk δ) (tier : CleanupTier) (path : String)
    (userProtected : List String) (q : Location) (checked : CheckedPath)
    (hdir : t.lstat path = .ok (q, .dir))
    (hcheck : tier.check t path userProtected = .ok checked) :
    ∀ entry ∈ userProtected, ∀ shield, t.canonicalize entry = .ok shield → shield ≠ [] →
      ¬ (q <+: shield ∧ q ≠ shield) → Untouched t shield (tier.remove t path) :=
  fun _ hentry _ hshield hroot houtside =>
    CleanupTier.spares hdir hcheck hentry hshield hroot houtside

/-! ## A tree with a nested project -/

def workName : Name := ⟨"work", by decide⟩

def sourceName : Name := ⟨"source", by decide⟩

def targetName : Name := ⟨"target", by decide⟩

def keepName : Name := ⟨"keep", by decide⟩

/-- `/work/source` and `/work/target/keep`. -/
def workFs : Fs Unit :=
  ((((∅ : Fs Unit).insert [workName] .dir).insert [workName, sourceName] .dir).insert
    [workName, targetName] .dir).insert [workName, targetName, keepName] .dir

def workTree : Disk Unit where
  fs := workFs
  closed := FileTree.closed_of_keys (by decide)
  cwd := []
  cwd_dir := rfl

/-- A protected sibling survives. -/
theorem protected_outside_survive_sibling :
    Untouched workTree [workName, sourceName]
      (CleanupTier.rustTarget.remove workTree "/work/target") :=
  protected_outside_survive workTree .rustTarget "/work/target" ["/work/source"]
    [workName, targetName] (.canonical [workName, targetName]) (by rfl) (by rfl)
    "/work/source" (by simp) [workName, sourceName] (by rfl) (by decide) (by decide)

/-- The root as a protected path lets every other candidate pass, and so does a protected path
inside the candidate: the checks accept, the removals take what is protected along. -/
theorem root_and_nested_removed :
    (CleanupTier.rustTarget.check workTree "/work/target" ["/"] =
        .ok (.canonical [workName, targetName]) ∧
      ¬ ProtectedSurvive workTree ["/"]
        (CleanupTier.rustTarget.remove workTree "/work/target")) ∧
      (CleanupTier.rustTarget.check workTree "/work/target" ["/work/target/keep"] =
        .ok (.canonical [workName, targetName]) ∧
      ¬ ProtectedSurvive workTree ["/work/target/keep"]
        (CleanupTier.rustTarget.remove workTree "/work/target")) := by
  refine ⟨⟨by rfl, fun hsurvive => ?_⟩, ⟨by rfl, fun hsurvive => ?_⟩⟩
  · have := hsurvive "/" (by simp) [] (by rfl) [workName, targetName] .dir List.nil_prefix
      (by rfl)
    exact absurd this (by decide)
  · have := hsurvive "/work/target/keep" (by simp) [workName, targetName, keepName] (by rfl)
      [workName, targetName, keepName] .dir (List.prefix_refl _) (by rfl)
    exact absurd this (by decide)

end DraconGuard
