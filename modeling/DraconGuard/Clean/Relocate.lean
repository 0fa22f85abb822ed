import DraconGuard.Clean.Stash
import DraconGuard.Lib.FsScript

/-!
# Moving a cold directory to another disk

`plan_relocate` (relocate.rs:238) and `apply_relocate` (relocate.rs:413). The paths of a plan
are texts made of resolved paths; here they are the locations those texts spell. Applying a plan
is a script of file system effects and an outcome, so that a crash can be put after any of
them. A regular file that is copied may be seen with any contents before it has the right ones.
-/

namespace DraconGuard

open FileTree

/-- What is asked outside the file system. -/
structure RelocateProbes where
  /-- `is_git_tracked` (relocate.rs:176). -/
  gitTracked : Location → Except String Bool
  /-- The bytes available that `df -P` reports for a path that is there. -/
  dfAvail : Location → Option Nat
  /-- `human_bytes` (policy.rs:1849), which renders a floating point number. -/
  humanBytes : Nat → String

/-- `RelocatePlan` (relocate.rs:22). -/
structure RelocatePlan where
  source : Location
  dest : Location
  files : Nat
  bytes : Nat
  destAvailBytes : Option Nat
  fits : Bool
  ready : Bool
  issues : List String
deriving DecidableEq

/-- `RelocateReport` (relocate.rs:35). -/
structure RelocateReport where
  link : String
  target : String
  files : Nat
  bytes : Nat
  skippedSpecial : Nat
  policySnippet : String
deriving DecidableEq

/-- `fits_in_avail` (relocate.rs:148). Unknown space does not fit. -/
def fitsInAvail (avail : Option Nat) (bytes : Nat) : Bool :=
  avail.any fun a => bytes ≤ a

/-- `avail_bytes_for` (relocate.rs:152). -/
def availBytesFor (probes : RelocateProbes) (fs : Fs FileData) (q : Location) : Option Nat :=
  if (entryAt fs q).isSome then probes.dfAvail q else none

/-! ## The plan -/

/-- The last checks of `plan_relocate`, on resolved paths (relocate.rs:275-321). `walkError` is
what `walk_stats_strict` fails with. -/
def planResolved (probes : RelocateProbes) (fs : Fs FileData) (walkError : Option String)
    (canonSrc canonRoot : Location) : Except String RelocatePlan :=
  match canonSrc.getLast? with
  | none => .error "source has no file name"
  | some name =>
    let dest := canonRoot ++ [name]
    if (fs.lookup dest).isSome then
      .error ("destination " ++ display dest ++ " already exists — refusing")
    else if canonSrc.isPrefixOf dest || dest.isPrefixOf canonSrc then
      .error "source and destination nest — refusing"
    else match walkError with
    | some e => .error e
    | none =>
      let (files, bytes) := walkStats fs canonSrc
      let avail := availBytesFor probes fs canonRoot
      let fits := fitsInAvail avail bytes
      let issue := match avail with
        | some a => "destination has " ++ probes.humanBytes a ++ " free but source needs " ++
            probes.humanBytes bytes
        | none =>
          "destination free space unknown (df failed) — refusing to relocate blind"
      .ok { source := displayed canonSrc, dest := displayed dest, files := files, bytes := bytes,
            destAvailBytes := avail, fits := fits, ready := fits
            issues := if fits then [] else [issue] }

/-- `plan_relocate` (relocate.rs:238). -/
def planRelocate (t : Disk FileData) (probes : RelocateProbes) (walkError : Option String)
    (source destRoot : String) (userProtected : List String) (allowTracked : Bool) :
    Except String RelocatePlan :=
  match t.lstat source with
  | .error e => .error ("cannot inspect source " ++ source ++ ": " ++ e.message)
  | .ok (_, .symlink _) =>
    .error ("refusing to relocate symlink " ++ source ++ " (already relocated?)")
  | .ok (loc, .dir) => do
    let checked ← checkSafeToDeleteGuard t source userProtected
    let canonSrc := checked.location loc
    let tracked ← if allowTracked then pure false else probes.gitTracked canonSrc
    if tracked then
      .error ("refusing to relocate git-tracked " ++ source ++
        " — untrack it first or pass --allow-tracked")
    else match t.lstat destRoot with
    | .error e => .error ("destination root " ++ destRoot ++ ": " ++ e.message)
    | .ok (_, .dir) =>
      match t.canonicalize destRoot with
      | .error e => .error ("cannot canonicalize " ++ destRoot ++ ": " ++ e.message)
      | .ok canonRoot => planResolved probes t.fs walkError canonSrc canonRoot
    | .ok _ => .error ("destination root " ++ destRoot ++ " must be an existing real directory")
  | .ok _ => .error ("relocate supports directories only: " ++ source)

/-! ## Copying, effect by effect -/

/-- Which steps of `apply_relocate` fail, and how. -/
structure RelocateFaults where
  /-- Entries, by location in the tree, that cannot be copied. -/
  copyEntry : Location → Bool := fun _ => false
  /-- What a file that is being copied holds from one moment to the next. -/
  partials : Location → List FileData := fun _ => []
  walkDest : Bool := false
  cleanup : Removal := .whole []
  stage : Bool := false
  symlink : Bool := false
  restore : Bool := false
  removeStaging : Removal := .whole []
  ioError : String := ""

/-- What the copier is told: the faults it has in common with the stash. -/
def RelocateFaults.copying (faults : RelocateFaults) : MoveFaults :=
  { copyEntry := faults.copyEntry, ioError := faults.ioError }

/-- The effects of copying one entry, but for the last. -/
def copyBegun (faults : RelocateFaults) (dst rel : Location) (entry : Entry FileData) :
    List (FsStep FileData) :=
  match entry with
  | .file _ => (faults.partials rel).map fun data => .put (dst ++ rel) (.file data)
  | _ => []

/-- The loop of `copy_tree`. -/
def copyEntriesScript (faults : RelocateFaults) (dst : Location) :
    List (Location × Entry FileData) → Nat → List (FsStep FileData) × Except String Nat
  | [], skipped => ([], .ok skipped)
  | (rel, entry) :: rest, skipped =>
    if faults.copyEntry rel then (copyBegun faults dst rel entry, .error faults.ioError)
    else if entry = .special then copyEntriesScript faults dst rest (skipped + 1)
    else
      let (script, result) := copyEntriesScript faults dst rest skipped
      (copyBegun faults dst rel entry ++ .put (dst ++ rel) entry :: script, result)

/-- `copy_tree` (relocate.rs:95). -/
def copyTreeScript (faults : RelocateFaults) (src dst : Location) (fs : Fs FileData) :
    List (FsStep FileData) × Except String Nat :=
  if faults.copyEntry [] || entryAt fs dst.dropLast ≠ some .dir then ([], .error faults.ioError)
  else
    let (script, result) :=
      copyEntriesScript faults dst ((walk fs src).filter fun i => i.1 ≠ []) 0
    (.put dst .dir :: script, result)

/-! ## Applying a plan -/

/-- `<name>.dracon-relocate-staging`. -/
def stagingName (name : Name) : Name where
  text := name.text ++ ".dracon-relocate-staging"
  valid := by
    have h := name.valid
    simp_all

/-- `staging_path_for` (relocate.rs:329). -/
def stagingPathFor (source : Location) : Location :=
  source.dropLast ++ [stagingName (source.getLast?.getD ⟨"relocated", by decide⟩)]

/-- How a link's target is displayed. -/
def spelledText (p : Spelled) : String :=
  (if p.absolute then "/" else "") ++ "/".intercalate (p.parts.map fun n => n.lossy.text)

/-- `stale_staging_refusal` (relocate.rs:342). -/
def staleStagingRefusal (fs : Fs FileData) (source dest staging : Location) : String :=
  let (s, d, st) := (render source, render dest, render staging)
  match fs.lookup source with
  | none =>
    "stale staging dir " ++ st ++ " from an interrupted run — and " ++ s ++
      " is MISSING (crash between the staging rename and the symlink). Data is intact in " ++
      "staging (plus the verified copy at " ++ d ++ "). Recover with: mv " ++ st ++ " " ++ s ++
      " — then re-run relocate. Refusing."
  | some (.symlink target) =>
    "stale staging dir " ++ st ++ " from a previous run — but " ++ s ++
      " is already a symlink to " ++ spelledText target ++ " (the move completed; only staging " ++
      "cleanup failed). Staging is a redundant duplicate: verify the symlink, then delete " ++
      "staging by hand: rm -rf " ++ st ++ ". Refusing."
  | some _ =>
    "stale staging dir " ++ st ++ " from a previous run — while " ++ s ++
      " is still a real directory. Staging holds the pre-move tree; inspect both before " ++
      "clearing staging by hand (the source may have been recreated after an interrupted run). " ++
      "Refusing."

/-- The refusals before any effect (relocate.rs:418-462), none when the move may start. -/
def relocateRefusal (plan : RelocatePlan) (probes : RelocateProbes) (fs : Fs FileData) :
    Option String :=
  let staging := stagingPathFor plan.source
  if !plan.ready then some ("plan is not ready: " ++ "; ".intercalate plan.issues)
  else if (fs.lookup staging).isSome then
    some (staleStagingRefusal fs plan.source plan.dest staging)
  else if (fs.lookup plan.dest).isSome then
    some ("destination " ++ render plan.dest ++ " appeared since planning — refusing")
  else match fs.lookup plan.source with
  | none =>
    some ("source " ++ render plan.source ++ " vanished or changed: " ++ Errno.notFound.message)
  | some .dir =>
    let avail := availBytesFor probes fs plan.dest.dropLast
    if fitsInAvail avail plan.bytes then none
    else match avail with
    | some a => some ("destination has " ++ probes.humanBytes a ++ " free but plan needs " ++
        probes.humanBytes plan.bytes ++ " — refusing (re-plan to retry)")
    | none => some "destination free space unknown (df failed) — refusing to relocate blind"
  | some _ =>
    some ("source " ++ render plan.source ++ " is no longer a real directory — refusing")

/-- The copy and its verification (relocate.rs:467-480). -/
def copyAndVerify (plan : RelocatePlan) (faults : RelocateFaults) (fs : Fs FileData) :
    List (FsStep FileData) × Except String Nat :=
  match copyTreeScript faults plan.source plan.dest fs with
  | (script, .error e) => (script, .error e)
  | (script, .ok skipped) =>
    let (files, bytes) := walkStats (runScript fs script) plan.dest
    if faults.walkDest then (script, .error faults.ioError)
    else if files ≠ plan.files ∨ bytes ≠ plan.bytes then
      (script, .error ("copy verification failed: expected " ++ toString plan.files ++
        " files / " ++ toString plan.bytes ++ " bytes, got " ++ toString files ++ " / " ++
        toString bytes ++ " — source untouched"))
    else (script, .ok skipped)

/-- What follows a verified copy (relocate.rs:500-551). -/
def swapIn (plan : RelocatePlan) (faults : RelocateFaults) (skipped : Nat) :
    List (FsStep FileData) × Except String RelocateReport :=
  let staging := stagingPathFor plan.source
  let aside := FsStep.rename plan.source staging
  if faults.stage then
    ([], .error ("cannot stage " ++ render plan.source ++ " aside: " ++ faults.ioError ++
      " — source untouched"))
  else if faults.symlink then
    if faults.restore then
      ([aside], .error ("symlink failed (" ++ faults.ioError ++ ") AND restore failed (" ++
        faults.ioError ++ ") — data is intact at " ++ render staging))
    else
      ([aside, .rename staging plan.source],
        .error ("symlink failed (" ++ faults.ioError ++ ") — source restored"))
  else
    -- a staging copy that cannot be removed is a warning
    (aside :: .put plan.source (.symlink { absolute := true, parts := plan.dest }) ::
        faults.removeStaging.script staging,
      .ok { link := render plan.source, target := render plan.dest, files := plan.files
            bytes := plan.bytes, skippedSpecial := skipped
            policySnippet := "[[links.entries]]\nlink = \"" ++ render plan.source ++
              "\"\ntarget = \"" ++ render plan.dest ++ "\"\n" })

/-- `apply_relocate` (relocate.rs:413). -/
def applyRelocate (plan : RelocatePlan) (probes : RelocateProbes) (faults : RelocateFaults)
    (fs : Fs FileData) : List (FsStep FileData) × Except String RelocateReport :=
  match relocateRefusal plan probes fs with
  | some e => ([], .error e)
  | none =>
    match copyAndVerify plan faults fs with
    | (copied, .error e) => (copied ++ faults.cleanup.script plan.dest, .error e)
    | (copied, .ok skipped) =>
      let (swap, result) := swapIn plan faults skipped
      (copied ++ swap, result)

end DraconGuard
