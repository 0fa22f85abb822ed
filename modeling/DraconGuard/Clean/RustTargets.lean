import DraconGuard.Proc
import DraconGuard.Clean.Restore
import DraconGuard.Disk.TmpCruft

/-!
# Three roads to one build directory

A Rust `target` directory is deleted as a storage hotspot, by the action tier, or by the
proactive tier. Each road has gates of its own.

| here | there |
| --- | --- |
| `findRustTargetDirs` | `find_rust_target_dirs` (main.rs:3653) |
| `detectActiveRustBuilds` | `detect_active_rust_builds_with` (main.rs:3619) |
| `validateStorageCleanupActivity` | the hotspots' gate, for `rust-build` (main.rs:4568-4641) |
| `stashFirstRemove` | `stash_first_remove` (stash.rs:77), with the generations it replaces |
| `judgeAction` | one turn of `auto_cleanup_rust_targets` (main.rs:3850-3964), up to the removal |
| `judgeProactive` | one turn of `proactive_cleanup_rust_targets` (main.rs:4091-4134) |
| `cleanupRustTargets` | either of them |
-/

namespace DraconGuard

open FileTree

/-! ## Paths, component by component -/

/-- `Path::components`: a `.` counts only in front of a relative path. -/
def pathComponents (text : String) : Spelled :=
  match Spelled.parse text with
  | none => ⟨false, []⟩
  | some p =>
    if p.absolute then ⟨true, p.parts.filter (· ≠ Name.current)⟩
    else ⟨false, p.parts.take 1 ++ (p.parts.drop 1).filter (· ≠ Name.current)⟩

/-- `Path::starts_with`. The empty path begins every path. -/
def startsWith (p base : Spelled) : Bool :=
  (p.absolute == base.absolute || !base.absolute && base.parts.isEmpty) &&
    base.parts.isPrefixOf p.parts

/-- `Path::parent`. -/
def parentPath (p : Spelled) : Option Spelled :=
  if p.parts.isEmpty then none else some { p with parts := p.parts.dropLast }

/-- `Path::join`, name by name. -/
def joinNames (base : String) : List Name → String
  | [] => base
  | n :: rest =>
    let sep := if base = "" ∨ base.toList.getLast? = some '/' then [] else ['/']
    String.ofList (base.toList ++ sep ++ n.text.toList ++ renderChars rest)

/-! ## The machine -/

/-- What `ps -eo pid=,comm=` came to. -/
inductive PsRun where
  | notStarted
  | failed
  /-- What it printed, where that is text. -/
  | printed (text : Option String)

/-- What a turn finds, and how what it asks for ends. -/
structure RustHost extends Disk FileData where
  scan : Scan := {}
  /-- `metadata.modified()`. -/
  mtime : Location → Option SystemTime
  len : Location → Nat := fun _ => 0
  /-- The device of what a path leads to. -/
  dev : Location → Option Nat := fun _ => none
  unreadable : Location → Bool := fun _ => false
  now : SystemTime
  ps : PsRun
  procs : ProcScan
  /-- `/proc/<pid>/cwd`. -/
  cwdOf : Nat → Option Location := fun _ => none
  /-- `/proc/<pid>` is there: also for a thread, which no listing shows. -/
  pidExists : Nat → Bool := fun _ => false
  /-- The paths of the listening unix sockets. -/
  sockets : List String := []
  removal : Location → RemovalAnswer := fun _ => .done
  moving : MoveFaults := {}
  clock : StashClock := ⟨0, 0⟩
  /-- The size of a manifest as text. -/
  jsonLength : StashManifest → Nat := fun _ => 0

def cargoTomlName : Name := ⟨"Cargo.toml", by decide⟩

/-- `elapsed().as_secs()`, nothing for a time ahead. -/
def secsAgo (now modified : SystemTime) : Option Nat :=
  if modified.nanos ≤ now.nanos then some ((now.nanos - modified.nanos).toNat / 10 ^ 9) else none

namespace RustHost

variable (host : RustHost)

/-- `canonicalize` of a path taken apart. -/
def resolved (p : Spelled) : Except Errno Location :=
  if p = ⟨false, []⟩ then .error .notFound
  else resolve host.fs maxLinks (p.start host.cwd) p.parts

/-- `dir.join("Cargo.toml").exists()`. -/
def hasCargoToml (dir : Spelled) : Bool :=
  (host.resolved { dir with parts := dir.parts ++ [cargoTomlName] }).toOption.isSome

/-- `fs::metadata(path)?.modified()?`. -/
def modified (path : String) : Option SystemTime :=
  (host.canonicalize path).toOption.bind host.mtime

/-- `get_dir_size` (main.rs:3723). -/
def dirBytes (path : String) : Nat :=
  match host.canonicalize path with
  | .ok q => min (dirSize host.fs host.scan host.len q) u64Max
  | .error _ => 0

/-- `WalkDir::new(root).max_depth(depth)` without its errors. A link as root is followed, and is
no directory itself. -/
def entriesBelow (root : String) (depth : Nat) : List (Location × Entry FileData) :=
  match host.canonicalize root with
  | .error _ => []
  | .ok base => (walkDir host.fs host.scan (some depth) base).filterMap fun
      | .failed _ => none
      | .entry rel e => if rel = [] ∧ isSymlink host.toDisk root then none else some (rel, e)

end RustHost

/-! ## Candidates -/

/-- `TargetDirInfo`. -/
structure TargetDirInfo where
  path : String
  bytes : Nat
  mtimeSecsAgo : Nat
deriving DecidableEq

/-- One entry of the walk in `find_rust_target_dirs` (main.rs:3668-3710). -/
def rustTargetAt (host : RustHost) (root : String) (item : Location × Entry FileData) :
    Option TargetDirInfo :=
  let path := joinNames root item.1
  let components := pathComponents path
  if !item.2.isDir || components.parts.getLast? ≠ some targetName then none
  else match parentPath components with
    | none => none
    | some parent =>
      if !host.hasCargoToml parent then none
      else some
        { path := path, bytes := host.dirBytes path,
          mtimeSecsAgo := ((host.modified path).bind (secsAgo host.now)).getD 0 }

/-- `find_rust_target_dirs` (main.rs:3653): the smallest first. -/
def findRustTargetDirs (host : RustHost) (roots : List String) : List TargetDirInfo :=
  let found := roots.flatMap fun root =>
    (host.entriesBelow root 8).filterMap (rustTargetAt host root)
  found.insertionSort fun a b => a.bytes ≤ b.bytes

/-! ## Builds -/

/-- `is_rust_build_process` (main.rs:3427). -/
def isRustBuildProcess (comm : String) : Bool :=
  Text.contains comm "cargo" || Text.contains comm "rustc" ||
    comm ∈ ["clippy-driver", "rust-analyzer", "cargo-watch"]

/-- What makes the listing of the builds fail. -/
inductive PsError where
  | notStarted
  | failed
  | notText
  | empty
  | missingPid
  | notANumber
  | invalidPid
  | missingCommand
deriving DecidableEq

/-- One line of `ps` (main.rs:3632-3640). -/
def psBuild (line : List Char) : Except PsError (Option Nat) :=
  match Text.splitWhitespace line with
  | [] => .error .missingPid
  | pid :: rest =>
    match Text.parseI32 pid with
    | none => .error .notANumber
    | some n =>
      if n ≤ 0 then .error .invalidPid
      else match rest with
        | [] => .error .missingCommand
        | comm :: _ => .ok (if isRustBuildProcess (String.ofList comm) then some n.toNat else none)

/-- The loop over the lines. -/
def psBuilds : List (List Char) → Except PsError (List Nat)
  | [] => .ok []
  | line :: rest =>
    match psBuild line with
    | .error e => .error e
    | .ok found => (psBuilds rest).map (found.toList ++ ·)

/-- `detect_active_rust_builds_with` (main.rs:3619). -/
def detectActiveRustBuilds : PsRun → Except PsError (List Nat)
  | .notStarted => .error .notStarted
  | .failed => .error .failed
  | .printed none => .error .notText
  | .printed (some text) =>
    if Text.trim text = [] then .error .empty else psBuilds (Text.lines text)

/-- The working directory and what is above it, the root apart. -/
def dirsUp (cwd : Location) : List Location :=
  (List.range cwd.length).map fun up => cwd.take (cwd.length - up)

/-- `protected_project_dirs` (main.rs:3814-3833): every directory with a `Cargo.toml` above where
a build works. -/
def protectedProjectDirs (host : RustHost) (builds : List Nat) : List Location :=
  builds.flatMap fun pid => match host.cwdOf pid with
    | none => []
    | some cwd => (dirsUp cwd).filter fun dir => host.hasCargoToml ⟨true, dir⟩

/-- `has_active_build` (main.rs:3891): equal, above or below. -/
def hasActiveBuild (projects : List Location) (path : String) : Bool :=
  let target := pathComponents path
  let project := (parentPath target).getD target
  projects.any fun proj => startsWith ⟨true, proj⟩ project || startsWith project ⟨true, proj⟩

/-- `recently_active` (main.rs:3903). -/
def recentlyActive (host : RustHost) (path : String) : Bool :=
  ((host.modified path).bind (secsAgo host.now)).any (· < 60)

/-! ## The gate of the hotspots -/

/-- `live_process_binary_under` (main.rs:4391). -/
def liveProcessBinaryUnder (host : RustHost) (path : String) : Option (Nat × Location) :=
  (host.procs.getD []).findSome? fun entry => entry.exe.bind fun exe =>
    let shown := stripDeleted (displayed exe)
    if startsWith ⟨true, shown⟩ (pathComponents path) then some (entry.pid, shown) else none

/-- `live_unix_socket_under` (main.rs:4475). -/
def liveUnixSocketUnder (host : RustHost) (path : String) : Option String :=
  host.sockets.find? fun sock => startsWith (pathComponents sock) (pathComponents path)

/-- `SKIP_DIRS` of `live_pidfile_under` (main.rs:4519). -/
def pidfileSkipDirs : List String :=
  ["deps", "build", "incremental", "debug", "release", ".fingerprint"]

/-- The extension is `pid`. -/
def isPidfileName (n : Name) : Bool :=
  ".pid".toList.isSuffixOf n.text.toList && 4 < n.text.toList.length

/-- The number a pidfile holds. -/
def pidIn : FileData → Option Int
  | .bytes content =>
    (String.fromUTF8? ⟨content.toArray⟩).bind fun text => Text.parseI32 (Text.trim text)
  | .manifest _ _ => none

/-- One file of the walk (main.rs:4547-4556). -/
def livePidfile (host : RustHost) (path : String) (item : Location × Entry FileData) :
    Option String :=
  let file := joinNames path item.1
  match item.2 with
  | .file data =>
    -- directories of the compiler are pruned, and all that is in them
    if item.1.dropLast.any fun n => n.text ∈ pidfileSkipDirs then none
    else if !(pathComponents file).parts.getLast?.any isPidfileName then none
    else if (host.canonicalize file).toOption.all host.unreadable then none
    else if (pidIn data).any fun n => 0 < n && host.pidExists n.toNat then some file
    else none
  | _ => none

/-- `live_pidfile_under` (main.rs:4515). -/
def livePidfileUnder (host : RustHost) (path : String) : Option String :=
  (host.entriesBelow path 3).findSome? (livePidfile host path)

/-- Why the gate refuses. -/
inductive ActivityRefusal where
  | liveBinary (pid : Nat) (exe : Location)
  | liveSocket (sock : String)
  | livePidfile (file : String)
  | noProject
  | unresolved (e : Errno)
  | noListing (e : PsError)
  | activeBuild
  | hiddenBuild (pid : Nat)
  | unknownTime
  | modifiedRecently
deriving DecidableEq

/-- The directory holds the state of a service that runs. -/
def ActivityRefusal.isService : ActivityRefusal → Bool
  | .liveBinary _ _ => true
  | .liveSocket _ => true
  | .livePidfile _ => true
  | _ => false

/-- The loop over the builds (main.rs:4594-4607). -/
def validateBuilds (host : RustHost) (project : Location) :
    List Nat → Except ActivityRefusal Unit
  | [] => .ok ()
  | pid :: rest =>
    match host.cwdOf pid with
    | some cwd =>
      match host.canonicalize (render cwd) with
      | .error e => .error (.unresolved e)
      | .ok cwd =>
        if project.isPrefixOf cwd || cwd.isPrefixOf project then .error .activeBuild
        else validateBuilds host project rest
    | none =>
      if host.pidExists pid then .error (.hiddenBuild pid) else validateBuilds host project rest

/-- No build in the project (main.rs:4589-4608). -/
def validateProject (host : RustHost) (path : String) : Except ActivityRefusal Unit :=
  match parentPath (pathComponents path) with
  | none => .error .noProject
  | some parent =>
    match host.resolved parent with
    | .error e => .error (.unresolved e)
    | .ok project =>
      match detectActiveRustBuilds host.ps with
      | .error e => .error (.noListing e)
      | .ok builds => validateBuilds host project builds

/-- Not modified in the last minute (main.rs:4616-4621). -/
def validateAge (host : RustHost) (path : String) : Except ActivityRefusal Unit :=
  match (host.modified path).bind (secsAgo host.now) with
  | none => .error .unknownTime
  | some age => if age < 60 then .error .modifiedRecently else .ok ()

/-- `validate_storage_cleanup_activity` (main.rs:4568) for `rust-build`. -/
def validateStorageCleanupActivity (host : RustHost) (path : String) :
    Except ActivityRefusal Unit :=
  match liveProcessBinaryUnder host path, liveUnixSocketUnder host path,
      livePidfileUnder host path with
  | some (pid, exe), _, _ => .error (.liveBinary pid exe)
  | none, some sock, _ => .error (.liveSocket sock)
  | none, none, some file => .error (.livePidfile file)
  | none, none, none =>
    match validateProject host path with
    | .error e => .error e
    | .ok () => validateAge host path

/-! ## Removing -/

/-- How far a removal got: `some` of the entries when it failed. -/
def RemovalAnswer.stopped : RemovalAnswer → Option (List Location)
  | .done => none
  | .failed _ gone => some gone

/-- `remove_dir_all` of a resolved path. -/
def removeResolved (host : RustHost) (q : Location) : Fs FileData × Bool :=
  match host.fs.lookup q with
  | some .dir => removeDirAllAt q (host.removal q).stopped host.fs
  | _ => (host.fs, false)

/-- `remove_dir_all` of a path that does not resolve: a link that leads nowhere is unlinked. -/
def removeUnresolved (host : RustHost) (path : String) : Fs FileData × Bool :=
  match host.lstat path with
  | .ok (q, .symlink _) =>
    match host.removal q with
    | .done => (host.fs.erase q, true)
    | .failed _ _ => (host.fs, false)
  | _ => (host.fs, false)

/-- What the gate handed back. -/
def removeChecked (host : RustHost) : CheckedPath → Fs FileData × Bool
  | .canonical q => removeResolved host q
  | .asGiven path => removeUnresolved host path

/-- The path resolved once more (main.rs:3984). -/
def removeAgain (host : RustHost) (path : String) : Fs FileData × Bool :=
  match host.canonicalize path with
  | .ok q => removeResolved host q
  | .error _ => removeUnresolved host path

/-- One entry of the stash in `replace_older_auto_generations` (stash.rs:309-334). -/
def replaceGeneration (host : RustHost) (root : String) (canonRoot : Location)
    (new : StashManifest) (fs : Fs FileData) (n : Name) : Fs FileData :=
  let name := n.lossy.text
  if name = new.name then fs
  else match readManifest fs (canonRoot ++ [n]) with
    | none => fs
    | some manifest =>
      if !manifest.auto || manifest.origin ≠ new.origin then fs
      else match resolveEntryDir fs host.cwd root name with
        | .error _ => fs
        | .ok dir => (removeDirAllAt dir (host.removal dir).stopped fs).1

/-- `replace_older_auto_generations` (stash.rs:297). -/
def replaceOlderAutoGenerations (host : RustHost) (root : String) (new : StashManifest)
    (fs : Fs FileData) : Fs FileData :=
  match canonicalize fs host.cwd root with
  | .error _ => fs
  | .ok canonRoot =>
    let names := fs.keys.filterMap fun q => match below canonRoot q with
      | some [n] => if (host.scan.listing canonRoot).shows n then some n else none
      | _ => none
    names.foldl (replaceGeneration host root canonRoot new) fs

/-- `stash_first_remove` (stash.rs:77): the manifest and the bytes freed. -/
def stashFirstRemove (host : RustHost) (origin root : String) (userProtected : List String) :
    Fs FileData × Except String (StashManifest × Nat) :=
  let originDev := (host.canonicalize origin).toOption.bind host.dev
  let run := stashMoveInner host.toDisk host.moving host.clock host.jsonLength origin root
    userProtected true
  match run.result with
  | .error e => (run.fs, .error e)
  | .ok manifest =>
    let fs := replaceOlderAutoGenerations host root manifest run.fs
    let rootDev := (canonicalize fs host.cwd root).toOption.bind host.dev
    let freed := if originDev.isNone || rootDev == originDev then 0 else manifest.bytes
    (fs, .ok (manifest, freed))

/-! ## The two tiers -/

/-- What the policy has about build directories. -/
structure RustPolicy where
  /-- `rust_search_roots`: split, trimmed, none empty, tildes expanded. -/
  searchRoots : List String
  cleanupMinSizeMb : Nat
  rustTargetActionMinAgeDays : Nat
  rustTargetMaxAgeDays : Nat
  cleanStashFirst : Bool
  stashMaxBytesPerPassMb : Nat
  /-- `stash_root` (stash.rs:130). -/
  stashRoot : String
  protectedPaths : List String

/-- Two saturating multiplications. -/
def scaled (n a b : Nat) : Nat := min (min (n * a) u64Max * b) u64Max

def RustPolicy.minSizeBytes (policy : RustPolicy) : Nat := scaled policy.cleanupMinSizeMb 1024 1024

/-- `stash_budget_bytes` (main.rs:7848). -/
def stashBudgetBytes (maxMb : Nat) : Nat := if maxMb = 0 then u64Max else scaled maxMb 1024 1024

/-- `stash_over_budget` (main.rs:7859). -/
def stashOverBudget (moved entry budget : Nat) : Bool := budget < min (moved + entry) u64Max

/-- `rust_target_old_enough_for_action_cleanup` (main.rs:3755). -/
def rustTargetOldEnough (mtimeSecsAgo minAgeDays : Nat) : Bool :=
  minAgeDays == 0 || scaled minAgeDays 24 3600 ≤ mtimeSecsAgo

/-- Why a directory is kept, as the result lists it. -/
inductive RustBlock where
  | touched (days minDays : Nat)
  | building
  | justModified
  | refused (e : String)
  | overBudget (bytes budget : Nat)

/-- What becomes of a candidate. -/
inductive RustVerdict where
  | passedOver
  | kept (why : RustBlock)
  /-- To be removed; the stash gets `reserved` more bytes. -/
  | taken (checked : CheckedPath)

/-- A verdict with the bytes promised to the stash so far. -/
abbrev Judged := Nat × RustVerdict

section Judging

variable (policy : RustPolicy) (projects : List Location) (host : RustHost) (stashed : Nat)
  (target : TargetDirInfo)

/-- Whether the stash takes no more in this pass. -/
def RustPolicy.budgetSpent : Bool :=
  policy.cleanStashFirst &&
    stashOverBudget stashed target.bytes (stashBudgetBytes policy.stashMaxBytesPerPassMb)

def RustPolicy.reserve : Nat :=
  if policy.cleanStashFirst then min (stashed + target.bytes) u64Max else stashed

def RustPolicy.overBudget : RustBlock :=
  .overBudget target.bytes (stashBudgetBytes policy.stashMaxBytesPerPassMb)

/-- One turn of the action tier, up to the removal (main.rs:3850-3964). `bypass` lifts the age
gate at the critical tier. -/
def judgeAction (bypass : Bool) : Judged :=
  if target.bytes < policy.minSizeBytes then (stashed, .passedOver)
  else if !bypass && !rustTargetOldEnough target.mtimeSecsAgo policy.rustTargetActionMinAgeDays then
    (stashed, .kept (.touched (target.mtimeSecsAgo / 86400) policy.rustTargetActionMinAgeDays))
  else if hasActiveBuild projects target.path then (stashed, .kept .building)
  else if recentlyActive host target.path then (stashed, .kept .justModified)
  else match checkSafeToDeleteGuard host.toDisk target.path policy.protectedPaths with
    | .error e => (stashed, .kept (.refused e))
    | .ok checked =>
      if policy.budgetSpent stashed target then (stashed, .kept (policy.overBudget target))
      else (policy.reserve stashed target, .taken checked)

/-- One turn of the proactive tier (main.rs:4086-4134): no look at the last minute, and the bytes
are reserved before the path is checked. -/
def judgeProactive : Judged :=
  if target.bytes < policy.minSizeBytes then (stashed, .passedOver)
  else if target.mtimeSecsAgo < scaled policy.rustTargetMaxAgeDays 24 3600 then
    (stashed, .passedOver)
  else if hasActiveBuild projects target.path then (stashed, .kept .building)
  else if policy.budgetSpent stashed target then (stashed, .kept (policy.overBudget target))
  else
    let reserved := policy.reserve stashed target
    match checkSafeToDeleteGuard host.toDisk target.path policy.protectedPaths with
    | .error e => (reserved, .kept (.refused e))
    | .ok checked => (reserved, .taken checked)

end Judging

inductive RustTier where
  | action (bypass : Bool)
  | proactive

def RustTier.judge (policy : RustPolicy) (projects : List Location) (host : RustHost)
    (stashed : Nat) (target : TargetDirInfo) : RustTier → Judged
  | .action bypass => judgeAction policy projects host stashed target bypass
  | .proactive => judgeProactive policy projects host stashed target

/-- The removal without the stash: the action tier resolves the path again, the proactive tier
takes what the gate handed back. -/
def RustTier.remove (host : RustHost) (target : TargetDirInfo) (checked : CheckedPath) :
    RustTier → Fs FileData × Bool
  | .action _ => removeAgain host target.path
  | .proactive => removeChecked host checked

/-- One directory that went, or would. -/
structure RustCleaned where
  path : String
  bytes : Nat
  /-- What it freed when it went into the stash. -/
  stashedFreed : Option Nat
deriving DecidableEq

/-- `AutoCleanupResult`, the notes without their wording. -/
structure AutoCleanupResult where
  cleaned : List RustCleaned := []
  kept : List (String × RustBlock) := []

def AutoCleanupResult.reclaimedBytes (out : AutoCleanupResult) : Nat :=
  (out.cleaned.map fun c => c.stashedFreed.getD c.bytes).sum

structure RustProgress where
  stashed : Nat := 0
  out : AutoCleanupResult := {}

def RustProgress.count (p : RustProgress) (target : TargetDirInfo) (stashedFreed : Option Nat) :
    RustProgress :=
  let entry := RustCleaned.mk target.path target.bytes stashedFreed
  { p with out := { p.out with cleaned := p.out.cleaned ++ [entry] } }

/-- One call of either function. -/
structure RustCall where
  tier : RustTier
  apply : Bool
  /-- The machine as a turn finds it, given the tree the turn before left. -/
  worlds : Nat → Fs FileData → RustHost

/-- The removal of what is taken (main.rs:3964-3990, 4147-4180). A failure is printed. -/
def takeTarget (policy : RustPolicy) (call : RustCall) (host : RustHost) (p : RustProgress)
    (target : TargetDirInfo) (checked : CheckedPath) : Fs FileData × RustProgress :=
  if !call.apply then (host.fs, p.count target none)
  else if policy.cleanStashFirst then
    match stashFirstRemove host target.path policy.stashRoot policy.protectedPaths with
    | (fs, .ok (_, freed)) => (fs, p.count target (some freed))
    | (fs, .error _) => (fs, p)
  else match call.tier.remove host target checked with
    | (fs, true) => (fs, p.count target none)
    | (fs, false) => (fs, p)

/-- One turn. -/
def rustTurn (policy : RustPolicy) (call : RustCall) (projects : List Location) (host : RustHost)
    (p : RustProgress) (target : TargetDirInfo) : Fs FileData × RustProgress :=
  match call.tier.judge policy projects host p.stashed target with
  | (stashed, .passedOver) => (host.fs, { p with stashed := stashed })
  | (stashed, .kept why) =>
    (host.fs,
      { stashed := stashed, out := { p.out with kept := p.out.kept ++ [(target.path, why)] } })
  | (stashed, .taken checked) =>
    takeTarget policy call host { p with stashed := stashed } target checked

/-- What a turn finds. -/
structure RustTurn where
  host : RustHost
  progress : RustProgress
  target : TargetDirInfo

section Pass

variable (policy : RustPolicy) (call : RustCall) (projects : List Location)

/-- The turns of the loop, from the `n`-th on. -/
def rustTurns : Nat → Fs FileData → RustProgress → List TargetDirInfo → List RustTurn
  | _, _, _, [] => []
  | n, fs, p, target :: rest =>
    let host := call.worlds n fs
    let after := rustTurn policy call projects host p target
    ⟨host, p, target⟩ :: rustTurns (n + 1) after.1 after.2 rest

def rustProgress : Nat → Fs FileData → RustProgress → List TargetDirInfo → RustProgress
  | _, _, p, [] => p
  | n, fs, p, target :: rest =>
    let after := rustTurn policy call projects (call.worlds n fs) p target
    rustProgress (n + 1) after.1 after.2 rest

variable (host : RustHost)

def rustRoots : List String :=
  policy.searchRoots.filter fun root => (host.canonicalize root).toOption.isSome

/-- The candidates of a call. -/
def rustCandidates : List TargetDirInfo := findRustTargetDirs host (rustRoots policy host)

/-- The projects the builds work in, as a call finds them. -/
def callProjects : List Location :=
  match detectActiveRustBuilds host.ps with
  | .error _ => []
  | .ok builds => protectedProjectDirs host builds

/-- The turns of a call: none when the builds cannot be listed. -/
def cleanupTurns : List RustTurn :=
  match detectActiveRustBuilds host.ps with
  | .error _ => []
  | .ok _ => rustTurns policy call (callProjects host) 0 host.fs {} (rustCandidates policy host)

/-- `auto_cleanup_rust_targets` (main.rs:3769) and `proactive_cleanup_rust_targets`
(main.rs:4017). -/
def cleanupRustTargets : Except PsError AutoCleanupResult :=
  if rustRoots policy host = [] then .ok {}
  else match detectActiveRustBuilds host.ps with
    | .error e => .error e
    | .ok _ =>
      .ok (rustProgress policy call (callProjects host) 0 host.fs {} (rustCandidates policy host)).out

end Pass

end DraconGuard
