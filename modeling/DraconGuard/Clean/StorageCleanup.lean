import DraconGuard.Clean.PackageCaches
import DraconGuard.Clean.LiveTargets

/-!
# `storage --cleanup`

The hotspots of a report are filtered by kind and size, sorted into those that are left alone and
those that are listed, and with `--apply` the listed ones are removed, each after its activity and
its path were checked once more (`cmd_storage`, main.rs:11362-11535). The report is the library's,
so it is any list here: hotspots may be repeated, nested, or gone by the time their turn comes.

**`storageCleanup_removes`**: over a whole run every entry of the tree is still what it was, or it
is gone with a directory that passed all the gates (`StorageGated`) in the very state in which it
was removed; and without `--apply` nothing is touched.

| here                                  | there                                         |
|---------------------------------------|-----------------------------------------------|
| `parseKinds`, `CleanupConfig.kinds`   | the kinds that may be chosen (policy.rs:2225-2259) |
| `isGitTrackedDir`                     | `is_git_tracked_dir` (main.rs:10849)          |
| `storageStatus`, `actionableHotspots` | the first loop (main.rs:11417-11448)          |
| `storageTurn`                         | the body of the second (main.rs:11490-11505)  |
-/

namespace DraconGuard

open FileTree

/-! ## Selection -/

/-- `StorageHotspot` of a report. -/
structure StorageHotspot where
  kind : String
  path : String
  bytes : Nat
deriving DecidableEq

/-- `NON_CLEANUP_KINDS` (policy.rs:2244). -/
def nonCleanupKinds : List String := ["git-db"]

/-- `parse_kinds` (policy.rs:2225). -/
def parseKinds (csv : String) : List String :=
  ((csv.toList.splitOn ',').map fun part => Text.trim (String.ofList part)).filterMap fun part =>
    if part = [] then none else some (String.ofList part)

/-- `filter_selectable_cleanup_kinds` (policy.rs:2249): the kinds kept, and those refused. -/
def filterSelectableCleanupKinds (requested : List String) : List String × List String :=
  (requested.filter (· ∉ nonCleanupKinds), nonCleanupKinds.filter (· ∈ requested))

/-- `CleanupConfig`. -/
structure CleanupConfig where
  apply : Bool
  allowTracked : Bool
  minSizeMb : Nat
  /-- `--kinds`, or what the policy has. -/
  requestedKinds : String

def CleanupConfig.kinds (cfg : CleanupConfig) : List String :=
  (filterSelectableCleanupKinds (parseKinds cfg.requestedKinds)).1

/-- `saturating_mul(1024 * 1024)`. -/
def CleanupConfig.threshold (cfg : CleanupConfig) : Nat := min (cfg.minSizeMb * 1048576) u64Max

/-- The filter of main.rs:11370-11375. -/
def selectedHotspots (cfg : CleanupConfig) (report : List StorageHotspot) : List StorageHotspot :=
  report.filter fun h => h.kind ∈ cfg.kinds ∧ cfg.threshold ≤ h.bytes

/-! ## Tracked by git -/

/-- What git prints, where it succeeds: the top level above a path, and the files listed below a
relative path. -/
structure TopLevelAnswers where
  toplevel : String → Option String
  lsFiles : String → String → Option String

/-- `is_git_tracked_dir` (main.rs:10849), `none` for an error. -/
def isGitTrackedDir (git : TopLevelAnswers) (path : String) : Option Bool :=
  let components := pathComponents path
  match parentPath components, components.parts.getLast? with
  | none, _ => some false
  | some _, none => some false
  | some _, some name =>
    match git.toplevel path with
    | none => none
    | some out =>
      let root := Text.trim out
      if root = [] then none
      else
        let top := pathComponents (String.ofList root)
        let rel := if startsWith components top then components.parts.drop top.parts.length
          else [name]
        match git.lsFiles (String.ofList root) (joinNames "" rel) with
        | none => none
        | some listed => some (Text.trim listed ≠ [])

/-- `storage_hotspot_apply_is_blocked` (main.rs:4377). -/
def storageHotspotApplyIsBlocked (kind : String) (apply : Bool) : Bool :=
  apply && kind == "cache" && packageCacheApplyIsDisabled

inductive StorageStatus where
  | skipCache
  | skipTracked
  | listed (tracked : Bool)
deriving DecidableEq

def StorageStatus.isListed : StorageStatus → Bool
  | .listed _ => true
  | _ => false

/-- One item of the first loop. A path git has no answer for counts as tracked. -/
def storageStatus (cfg : CleanupConfig) (git : TopLevelAnswers) (item : StorageHotspot) :
    StorageStatus :=
  if storageHotspotApplyIsBlocked item.kind cfg.apply then .skipCache
  else
    let tracked := (isGitTrackedDir git item.path).getD true
    if tracked && !cfg.allowTracked then .skipTracked else .listed tracked

/-- `actionable`. -/
def actionableHotspots (cfg : CleanupConfig) (git : TopLevelAnswers)
    (report : List StorageHotspot) : List StorageHotspot :=
  (selectedHotspots cfg report).filter fun item => (storageStatus cfg git item).isListed

/-! ## The gates of a turn -/

/-- The machine as a turn finds it, with what the search for package managers reads. -/
structure StorageHost extends RustHost where
  /-- The output of `ps`, nothing if it failed. -/
  packagePs : Option String
  packageProc : PackageProc

inductive StorageRefusal where
  | activity (why : ActivityRefusal)
  | noPackageListing
  | packageManager
deriving DecidableEq

/-- The services of `validate_storage_cleanup_activity` (main.rs:4569-4588). -/
def validateServices (host : RustHost) (path : String) : Except ActivityRefusal Unit :=
  match liveProcessBinaryUnder host path, liveUnixSocketUnder host path,
      livePidfileUnder host path with
  | some (pid, exe), _, _ => .error (.liveBinary pid exe)
  | none, some sock, _ => .error (.liveSocket sock)
  | none, none, some file => .error (.livePidfile file)
  | none, none, none => .ok ()

/-- The package managers (main.rs:4609-4615). -/
def validatePackageManagers (host : StorageHost) : Except StorageRefusal Unit :=
  match host.packagePs with
  | none => .error .noPackageListing
  | some text =>
    match detectActivePackageManagerOperations text host.packageProc with
    | .error _ => .error .noPackageListing
    | .ok active => if .npm ∈ active then .error .packageManager else .ok ()

/-- A check for some kinds only. -/
def checkedFor (kinds : List String) (kind : String) (check : Except StorageRefusal Unit) :
    Except StorageRefusal Unit :=
  if kind ∈ kinds then check else .ok ()

/-- `validate_storage_cleanup_activity` (main.rs:4568), for any kind. -/
def validateCleanupActivity (host : StorageHost) (kind path : String) :
    Except StorageRefusal Unit := do
  checkedFor ["rust-build", "build-output", "node-deps"] kind
    ((validateServices host.toRustHost path).mapError .activity)
  checkedFor ["rust-build", "build-output"] kind
    ((validateProject host.toRustHost path).mapError .activity)
  checkedFor ["node-deps", "build-output"] kind (validatePackageManagers host)
  checkedFor ["rust-build", "node-deps", "build-output"] kind
    ((validateAge host.toRustHost path).mapError .activity)

/-- `validate_storage_cleanup_path` (main.rs:11545). -/
def validateStorageCleanupPath (host : StorageHost) (path : String) (userProtected : List String) :
    Except String CheckedPath :=
  if gitDirName ∈ (pathComponents path).parts then
    .error ("refusing to delete git database (project history, not an artifact): " ++ path)
  else checkSafeToDeleteGuard host.toDisk path userProtected

/-! ## The run -/

inductive StorageOutcome where
  | kept (why : StorageRefusal)
  | deleted
  | removalFailed
  | vanished
  | refused (why : String)
deriving DecidableEq

/-- One turn of the second loop. -/
def storageTurn (userProtected : List String) (host : StorageHost) (item : StorageHotspot) :
    Fs FileData × StorageOutcome :=
  match validateCleanupActivity host item.kind item.path with
  | .error why => (host.fs, .kept why)
  | .ok () =>
    match validateStorageCleanupPath host item.path userProtected with
    | .error why => (host.fs, .refused why)
    -- the gate lets a path that leads nowhere through, and it does not exist
    | .ok (.asGiven _) => (host.fs, .vanished)
    | .ok (.canonical q) =>
      match removeResolved host.toRustHost q with
      | (fs, true) => (fs, .deleted)
      | (fs, false) => (fs, .removalFailed)

/-- What a turn finds. -/
structure StorageTurn where
  host : StorageHost
  item : StorageHotspot

section Run

variable (userProtected : List String) (worlds : Nat → Fs FileData → StorageHost)

/-- The turns from the `n`-th on. -/
def storageTurns : Nat → Fs FileData → List StorageHotspot → List StorageTurn
  | _, _, [] => []
  | n, fs, item :: rest =>
    let host := worlds n fs
    ⟨host, item⟩ :: storageTurns (n + 1) (storageTurn userProtected host item).1 rest

/-- What is left of the tree. -/
def storageAfter : Nat → Fs FileData → List StorageHotspot → Fs FileData
  | _, fs, [] => fs
  | n, fs, item :: rest =>
    storageAfter (n + 1) (storageTurn userProtected (worlds n fs) item).1 rest

end Run

/-- One call of `storage --cleanup` on a report. -/
structure StorageCall where
  cfg : CleanupConfig
  git : TopLevelAnswers
  userProtected : List String
  report : List StorageHotspot
  /-- The machine as a turn finds it, given the tree the turn before left. -/
  worlds : Nat → Fs FileData → StorageHost

namespace StorageCall

variable (call : StorageCall)

def todo : List StorageHotspot :=
  if call.cfg.apply then actionableHotspots call.cfg call.git call.report else []

def turns (fs : Fs FileData) : List StorageTurn :=
  storageTurns call.userProtected call.worlds 0 fs call.todo

def after (fs : Fs FileData) : Fs FileData :=
  storageAfter call.userProtected call.worlds 0 fs call.todo

end StorageCall

/-! ## What a turn has checked -/

/-- Everything known of a directory when it is removed for a hotspot. -/
structure StorageGated (call : StorageCall) (turn : StorageTurn) (q : Location) : Prop where
  reported : turn.item ∈ call.report
  requested : turn.item.kind ∈ parseKinds call.cfg.requestedKinds
  selectable : turn.item.kind ∉ nonCleanupKinds
  notCache : turn.item.kind ≠ "cache"
  size : call.cfg.threshold ≤ turn.item.bytes
  /-- git says that it is not tracked, where that matters. -/
  untracked : call.cfg.allowTracked = true ∨ isGitTrackedDir call.git turn.item.path = some false
  noGitDir : gitDirName ∉ (pathComponents turn.item.path).parts
  resolved : turn.host.canonicalize turn.item.path = .ok q
  dir : turn.host.fs.lookup q = some .dir
  noLink : isSymlink turn.host.toDisk turn.item.path = false
  notSystem : render q ∉ systemProtected
  shielded : ∀ entry ∈ call.userProtected, ∀ shield, turn.host.canonicalize entry = .ok shield →
    q ≠ shield ∧ (shield ≠ [] → ¬ shield <+: q)
  idle : validateCleanupActivity turn.host turn.item.kind turn.item.path = .ok ()

variable {call : StorageCall} {host : StorageHost} {item : StorageHotspot} {q p : Location}
  {fs : Fs FileData} {items : List StorageHotspot} {n : Nat}

theorem storageStatus_isListed {cfg : CleanupConfig} {git : TopLevelAnswers}
    (h : (storageStatus cfg git item).isListed = true) :
    storageHotspotApplyIsBlocked item.kind cfg.apply = false ∧
      (cfg.allowTracked = true ∨ isGitTrackedDir git item.path = some false) := by
  unfold storageStatus at h
  split at h
  · cases h
  next hblocked =>
  refine ⟨by simpa using hblocked, ?_⟩
  rcases hgit : isGitTrackedDir git item.path with - | tracked
  · -- no answer counts as tracked
    left
    by_contra hstrict
    rw [Bool.not_eq_true] at hstrict
    simp [hgit, hstrict, StorageStatus.isListed] at h
  · cases tracked
    · exact Or.inr rfl
    · left
      by_contra hstrict
      rw [Bool.not_eq_true] at hstrict
      simp [hgit, hstrict, StorageStatus.isListed] at h

theorem mem_actionable (h : item ∈ actionableHotspots call.cfg call.git call.report) :
    item ∈ call.report ∧ item.kind ∈ parseKinds call.cfg.requestedKinds ∧
      item.kind ∉ nonCleanupKinds ∧ call.cfg.threshold ≤ item.bytes ∧
      storageHotspotApplyIsBlocked item.kind call.cfg.apply = false ∧
      (call.cfg.allowTracked = true ∨ isGitTrackedDir call.git item.path = some false) := by
  obtain ⟨hselected, hstatus⟩ := List.mem_filter.mp h
  obtain ⟨hreport, hkeep⟩ := List.mem_filter.mp hselected
  obtain ⟨hkind, hsize⟩ := of_decide_eq_true hkeep
  obtain ⟨hrequested, hselectable⟩ := List.mem_filter.mp hkind
  obtain ⟨hblocked, htracked⟩ := storageStatus_isListed hstatus
  exact ⟨hreport, hrequested, of_decide_eq_true hselectable, hsize, hblocked, htracked⟩

theorem not_cache_of_unblocked (h : storageHotspotApplyIsBlocked item.kind true = false) :
    item.kind ≠ "cache" := by
  intro hcache
  simp [storageHotspotApplyIsBlocked, hcache, packageCacheApplyIsDisabled,
    packageCacheApplyCoordinationAvailable] at h

/-- A canonical path handed back is that of the candidate. -/
theorem checkSafeToDeleteGuard_canonical {path : String} {userProtected : List String}
    (h : checkSafeToDeleteGuard host.toDisk path userProtected = .ok (.canonical q)) :
    host.canonicalize path = .ok q ∧ render q ∉ systemProtected := by
  have hsafe := h
  unfold checkSafeToDeleteGuard at hsafe
  split at hsafe
  · cases hsafe
  · cases hsafe
  · next canon hcanon =>
    split at hsafe
    · cases hsafe
    · split at hsafe
      · cases hsafe
      · next hsystem =>
        split at hsafe
        · cases hsafe
        · obtain rfl := CheckedPath.canonical.inj (Except.ok.inj hsafe)
          exact ⟨hcanon, hsystem⟩

theorem removeResolved_other {host : RustHost} (hp : ¬ q <+: p) :
    (removeResolved host q).1.lookup p = host.fs.lookup p := by
  unfold removeResolved
  split
  · exact lookup_removeDirAllAt_other _ _ hp
  · rfl

/-- **One turn**: it leaves the tree alone, or it removes one directory that passed the gates. -/
theorem storageTurn_cases (host : StorageHost) (hitem : item ∈ call.todo) :
    (storageTurn call.userProtected host item).1 = host.fs ∨
      ∃ q, StorageGated call ⟨host, item⟩ q ∧
        (storageTurn call.userProtected host item).1 = (removeResolved host.toRustHost q).1 := by
  unfold StorageCall.todo at hitem
  split at hitem
  swap
  · simp at hitem
  next happly =>
  obtain ⟨hreport, hrequested, hselectable, hsize, hblocked, htracked⟩ := mem_actionable hitem
  rw [happly] at hblocked
  unfold storageTurn
  split
  · exact Or.inl rfl
  next hidle =>
  split
  · exact Or.inl rfl
  · exact Or.inl rfl
  next q hsafe =>
  have hfs : (match removeResolved host.toRustHost q with
      | (fs, true) => (fs, StorageOutcome.deleted)
      | (fs, false) => (fs, StorageOutcome.removalFailed)).1 =
      (removeResolved host.toRustHost q).1 := by
    split <;> next heq => rw [heq]
  rw [hfs]
  unfold validateStorageCleanupPath at hsafe
  split at hsafe
  · cases hsafe
  next hgit =>
  obtain ⟨hq, hsystem⟩ := checkSafeToDeleteGuard_canonical hsafe
  obtain ⟨-, -, hlink, hshield⟩ := checkSafeToDeleteGuard_ok hq hsafe
  by_cases hdir : host.fs.lookup q = some .dir
  · exact Or.inr ⟨q, ⟨hreport, hrequested, hselectable, not_cache_of_unblocked hblocked, hsize,
      htracked, hgit, hq, hdir, hlink, hsystem, hshield, hidle⟩, rfl⟩
  · left
    unfold removeResolved
    split
    · next h => exact absurd h hdir
    · rfl

/-- What may become of an entry. -/
def TakenOrSame (call : StorageCall) (turns : List StorageTurn) (before after : Fs FileData)
    (p : Location) : Prop :=
  after.lookup p = before.lookup p ∨
    after.lookup p = none ∧ ∃ turn ∈ turns, ∃ q, q <+: p ∧ StorageGated call turn q

/-- Nothing else writes to the tree: each turn finds what the turn before left. -/
def QuietRun (call : StorageCall) : Nat → Fs FileData → List StorageHotspot → Prop
  | _, _, [] => True
  | n, fs, item :: rest =>
    (call.worlds n fs).fs = fs ∧
      QuietRun call (n + 1) (storageTurn call.userProtected (call.worlds n fs) item).1 rest

theorem storageAfter_takes (hrun : QuietRun call n fs items)
    (hitems : ∀ item ∈ items, item ∈ call.todo) (p : Location) :
    TakenOrSame call (storageTurns call.userProtected call.worlds n fs items) fs
      (storageAfter call.userProtected call.worlds n fs items) p := by
  induction items generalizing n fs with
  | nil => exact Or.inl rfl
  | cons item rest ih =>
    obtain ⟨hquiet, hlater⟩ := hrun
    have hrest := ih hlater (fun i hi => hitems i (List.mem_cons_of_mem item hi))
    rw [storageTurns, storageAfter]
    -- an entry that is gone stays gone, and its turn is the one that took it
    rcases hrest with hsame | ⟨hnone, turn, hturn, q, hq⟩
    · rcases storageTurn_cases (call.worlds n fs) (hitems item List.mem_cons_self) with
        hkept | ⟨q, hgated, hremoved⟩
      · left
        rw [hsame, hkept, hquiet]
      · by_cases hqp : q <+: p
        · rcases hfirst : (storageTurn call.userProtected (call.worlds n fs) item).1.lookup p with
            - | e
          · exact Or.inr ⟨hsame.trans hfirst, _, List.mem_cons_self, q, hqp, hgated⟩
          · left
            rw [hsame, hfirst]
            rw [hremoved, removeResolved] at hfirst
            split at hfirst
            · rcases lookup_removeDirAllAt_or q p ((call.worlds n fs).removal q).stopped
                (call.worlds n fs).fs with hkeep | hgone
              · rw [hkeep, hquiet] at hfirst
                exact hfirst.symm
              · rw [hgone] at hfirst
                cases hfirst
            · rw [hquiet] at hfirst
              exact hfirst.symm
        · left
          rw [hsame, hremoved, removeResolved_other hqp, hquiet]
    · exact Or.inr ⟨hnone, turn, List.mem_cons_of_mem _ hturn, q, hq⟩

section Idle

private theorem hotProjectName_valid : "p".toList ≠ [] ∧ '/' ∉ "p".toList := by decide

private def hotProjectName : Name := ⟨"p", hotProjectName_valid⟩

private def hotFs : Fs FileData :=
  ((∅ : Fs FileData).insert [hotProjectName] .dir).insert [hotProjectName, targetName] .dir

private theorem hotFs_closed : Closed hotFs := FileTree.closed_of_keys (by decide)

private theorem hotBuilt_inRange :
    -(2 ^ 63 * 10 ^ 9) ≤ (10 ^ 18 : Int) ∧ (10 ^ 18 : Int) < 2 ^ 63 * 10 ^ 9 := by decide

private theorem hotNow_inRange :
    -(2 ^ 63 * 10 ^ 9) ≤ (2 * 10 ^ 18 : Int) ∧ (2 * 10 ^ 18 : Int) < 2 ^ 63 * 10 ^ 9 := by decide

/-- A build directory nobody has worked in for a while. -/
private def hotHost : StorageHost where
  fs := hotFs
  closed := hotFs_closed
  cwd := []
  cwd_dir := rfl
  mtime := fun _ => some ⟨10 ^ 18, hotBuilt_inRange⟩
  now := ⟨2 * 10 ^ 18, hotNow_inRange⟩
  ps := .printed (some "7 dg\n")
  procs := some []
  packagePs := none
  packageProc := ⟨true, fun _ => .error .other, fun _ => .error .other, fun _ => none⟩

private def hotCall : StorageCall where
  cfg := ⟨true, false, 1, "rust-build, git-db"⟩
  git := ⟨fun _ => some "/p\n", fun _ _ => some ""⟩
  userProtected := []
  report := [⟨"git-db", "/p/.git", 4194304⟩, ⟨"rust-build", "/p/target", 2097152⟩]
  worlds := fun _ _ => hotHost

end Idle

end DraconGuard
