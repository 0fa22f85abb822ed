import DraconGuard.Disk.TmpCruft

/-!
# The daemon's sweep of its temporary roots

The tmp part of `run_auto_cleanup` (main.rs:8716-8793): two sweeps over the same roots, each with
its own reading of the clock, of `/proc` and of the bound sockets.

| here | there |
| --- | --- |
| `judgeE2e` | one turn of the loop in `clean_tmp_e2e_fast_path_with_proc` (main.rs:7944-8023) |
| `judgeGeneral` | one turn in `clean_tmp_paths_with_proc` (main.rs:8270-8423), both floors |
| `TmpState.settle` | what either does about it: `remove_tmp_entry` (main.rs:8445) and the counters |
| `TmpSweep.run` | the loops around them |
| `e2eSweep`, `generalSweep` | what comes before the loops: switches, roots, `/proc`, cutoffs |
| `cleanTmp` | the one after the other |
-/

namespace DraconGuard

open FileTree (Disk Mount Location Name Entry dirSize)

/-! ## What a sweep finds -/

/-- What becomes of an entry. -/
inductive TmpVerdict where
  | passedOver
  | kept (block : TmpEntryBlock)
  /-- Removed, or counted in a dry run. -/
  | taken (size : Nat)
  /-- Only its age is said to be in the way; `large` where it is the size-aware floor. -/
  | heldBack (size : Nat) (large : Bool)
deriving DecidableEq

/-- `TmpCleanupOutcome` (main.rs:8099), the notes without their wording. -/
structure TmpCleanupOutcome where
  reclaimed : Nat := 0
  cleaned : List (Location × Nat) := []
  denied : List Location := []
  ageBlockedBytes : Nat := 0
  ageBlockedEntries : Nat := 0
  largeBlockedBytes : Nat := 0
  largeBlockedEntries : Nat := 0

/-- The machine in the middle of a sweep, and what the sweep has found. -/
structure TmpState (δ : Type) where
  host : TmpHost δ
  out : TmpCleanupOutcome := {}

section Judging

variable {δ : Type} (host : TmpHost δ)

/-- `tmp_entry_size` (main.rs:8430). -/
def TmpHost.entrySize (path : Location) (e : Entry δ) : Nat :=
  if e.isDir then dirSize host.fs host.scan host.len path else host.len path

/-- Whether an entry is fresh: a directory by its tree, a file by its own time. -/
def TmpHost.isFresh (path : Location) (e : Entry δ) (modified : SystemTime) (cutoff : Int) : Bool :=
  if e.isDir then treeHasFreshContent host path cutoff else cutoff < modified.nanos

/-- `tmp_entry_block` with what a sweep has read. -/
def TmpHost.block (protectedPaths : List String) (openPaths : List Location)
    (root path : Location) : Option TmpEntryBlock :=
  tmpEntryBlock host.toDisk path root protectedPaths openPaths host.sockets

def TmpVerdict.unless (size : Nat) : Option TmpEntryBlock → TmpVerdict
  | some block => .kept block
  | none => .taken size

/-- What the fast path goes by. -/
structure E2eFloors where
  patterns : List (List Char)
  generalCutoff : Int
  fastCutoff : Int

/-- One turn of the fast path. It owns the window between the cutoffs. -/
def judgeE2e (floors : E2eFloors) (protectedPaths : List String) (openPaths : List Location)
    (root : Location) (n : Name) : TmpVerdict :=
  let path := root ++ [n]
  match host.symlinkMetadata path with
  | none => .passedOver
  | some (_, .symlink _) => .passedOver
  | some (_, e) =>
    if !tmpE2eMatch (baseName path) floors.patterns then .passedOver
    else if e.isDir then
      if !treeHasFreshContent host path floors.generalCutoff then .passedOver
      else if treeHasFreshContent host path floors.fastCutoff then .passedOver
      else .unless (host.entrySize path e) (host.block protectedPaths openPaths root path)
    else match host.mtime path with
      | none => .passedOver
      | some modified =>
        if modified.nanos ≤ floors.generalCutoff then .passedOver
        else if floors.fastCutoff < modified.nanos then .passedOver
        else .unless (host.entrySize path e) (host.block protectedPaths openPaths root path)

/-- What the general pass goes by. -/
structure GeneralFloors where
  cutoff : Int
  largeActive : Bool
  largeEntryBytes : Nat
  largeCutoff : Int

/-- One turn of the general pass, the size-aware floor included. -/
def judgeGeneral (floors : GeneralFloors) (protectedPaths : List String)
    (openPaths : List Location) (root : Location) (n : Name) : TmpVerdict :=
  let path := root ++ [n]
  match host.symlinkMetadata path with
  | none => .passedOver
  | some (_, .symlink _) => .passedOver
  | some (_, e) =>
    match host.mtime path with
    | none => .passedOver
    | some modified =>
      let size := host.entrySize path e
      if host.isFresh path e modified floors.cutoff then
        if floors.largeActive && floors.largeEntryBytes ≤ size then
          if !host.isFresh path e modified floors.largeCutoff then
            .unless size (host.block protectedPaths openPaths root path)
          else if (host.block protectedPaths openPaths root path).isNone then .heldBack size true
          else .passedOver
        -- asked quietly: a fresh entry that is protected is no news
        else if (host.block protectedPaths openPaths root path).isNone then .heldBack size false
        else .passedOver
      else .unless size (host.block protectedPaths openPaths root path)

end Judging

/-! ## What it does about it -/

section Sweeping

variable {δ : Type}

/-- The machine after entries below `path` are gone. A directory that loses an entry is modified at
the time `stamp` gives for it. -/
def TmpHost.drop (host : TmpHost δ) (stamp : Location → SystemTime) (path : Location)
    (stopped : Option (List Location)) : TmpHost δ :=
  let lost := match stopped with
    | none => [path]
    | some gone => gone.map (path ++ ·)
  { host with
    toMount := host.toMount.dropDir path stopped
    mtime := fun p => if lost.any fun q => q.dropLast = p then some (stamp p) else host.mtime p }

/-- The removal of an entry, and whether it went: `remove_dir_all` may stop half way, `remove_file`
does nothing when it fails. -/
def TmpHost.remove (host : TmpHost δ) (stamp : Location → SystemTime) (path : Location) :
    TmpHost δ × Bool :=
  match host.removal path with
  | .done => (host.drop stamp path none, true)
  | .failed _ gone =>
    (if (host.fs.lookup path).any Entry.isDir then host.drop stamp path (some gone) else host, false)

/-- A sweep once it has begun. -/
structure TmpSweep (δ : Type) where
  roots : List Location := []
  judge : TmpHost δ → Location → Name → TmpVerdict := fun _ _ _ => .passedOver
  apply : Bool
  stamp : Location → SystemTime

def TmpCleanupOutcome.count (out : TmpCleanupOutcome) (path : Location) (size : Nat) :
    TmpCleanupOutcome :=
  { out with reclaimed := out.reclaimed + size, cleaned := out.cleaned ++ [(path, size)] }

def TmpCleanupOutcome.hold (out : TmpCleanupOutcome) (size : Nat) (large : Bool) :
    TmpCleanupOutcome :=
  { out with
    ageBlockedBytes := out.ageBlockedBytes + size
    ageBlockedEntries := out.ageBlockedEntries + 1
    largeBlockedBytes := out.largeBlockedBytes + if large then size else 0
    largeBlockedEntries := out.largeBlockedEntries + if large then 1 else 0 }

namespace TmpSweep

variable (sweep : TmpSweep δ)

/-- What follows from a verdict. -/
def settle (s : TmpState δ) (path : Location) : TmpVerdict → TmpState δ
  | .taken size =>
    if !sweep.apply then { s with out := s.out.count path size }
    else match s.host.remove sweep.stamp path with
      | (host, true) => { host := host, out := s.out.count path size }
      | (host, false) => { host := host, out := { s.out with denied := s.out.denied ++ [path] } }
  | .heldBack size large => { s with out := s.out.hold size large }
  | _ => s

/-- One entry. -/
def visit (s : TmpState δ) (entry : Location × Name) : TmpState δ :=
  sweep.settle s (entry.1 ++ [entry.2]) (sweep.judge s.host entry.1 entry.2)

/-- The entries of a root, as its listing has them when the sweep comes to it. -/
def listed (s : TmpState δ) (root : Location) : List (Location × Name) :=
  (s.host.readDirNames root).map fun n => (root, n)

def runFrom (s : TmpState δ) (roots : List Location) : TmpState δ :=
  roots.foldl (fun s root => (listed s root).foldl sweep.visit s) s

/-- The sweep over its roots. -/
def run (s : TmpState δ) : TmpState δ := sweep.runFrom s sweep.roots

/-- The turns of the loop over the entries given: each with what it found. -/
def turns : TmpState δ → List (Location × Name) → List (TmpState δ × Location × Name)
  | _, [] => []
  | s, entry :: rest => (s, entry) :: turns (sweep.visit s entry) rest

def turnsFrom : TmpState δ → List Location → List (TmpState δ × Location × Name)
  | _, [] => []
  | s, root :: rest =>
    sweep.turns s (listed s root) ++ turnsFrom ((listed s root).foldl sweep.visit s) rest

/-- All turns of a sweep. -/
def allTurns (s : TmpState δ) : List (TmpState δ × Location × Name) :=
  sweep.turnsFrom s sweep.roots

end TmpSweep

end Sweeping

/-! ## The tmp part of a cleanup -/

/-- What the policy has about temporary roots. -/
structure TmpPolicy where
  /-- `tmp_search_paths`: split, trimmed, none empty. -/
  searchPaths : List String
  minAgeHours : Nat
  /-- `tmp_e2e_patterns`, parsed. -/
  e2ePatterns : List (List Char)
  e2eMinAgeHours : Nat
  largeEntryBytes : Nat
  largeMinAgeHours : Nat
  proactiveCleanupPercent : Nat
  diskCriticalPercent : Nat
  protectedPaths : List String

/-- What a sweep reads anew: the clock, the processes, the sockets. -/
structure TmpReading where
  now : SystemTime
  procs : ProcScan
  pids : ∀ entries, procs = some entries → (entries.map (·.pid)).Nodup
  procsCut : Bool
  sockets : List Location

def TmpHost.reading {δ : Type} (host : TmpHost δ) (r : TmpReading) : TmpHost δ :=
  { host with now := r.now, procs := r.procs, pids := r.pids, procsCut := r.procsCut,
              sockets := r.sockets }

/-- One cleanup: the tier and what it meets besides the machine. -/
structure TmpCleanup where
  used : Nat
  apply : Bool
  /-- The clock when the cutoff for the fast path is computed (main.rs:8741). -/
  before : SystemTime
  /-- What the general pass reads; the fast path has the readings of the machine. -/
  later : TmpReading
  /-- When a directory loses an entry. -/
  stamp : Location → SystemTime

section Sweeps

variable {δ : Type} (policy : TmpPolicy) (call : TmpCleanup)

/-- `SystemTime::now().duration_since(UNIX_EPOCH)?`. -/
def clockError : String := "second time provided was later than self"

/-- `bypass_e2e_gate` (main.rs:8733): at the critical tier the cutoff of the fast path is now. -/
def fastCutoff (now : SystemTime) : Int :=
  if policy.diskCriticalPercent ≤ call.used then now.nanos
  else tmpAgeCutoff now policy.e2eMinAgeHours

/-- `use_large_floor` (main.rs:8781) and `large_floor_active` (main.rs:8252). -/
def largeFloorActive : Bool :=
  policy.proactiveCleanupPercent ≤ call.used && 0 < policy.largeMinAgeHours &&
    0 < policy.largeEntryBytes && policy.largeMinAgeHours < policy.minAgeHours

/-- The fast path up to its loop (main.rs:7908-7942), behind the switches of main.rs:8729. -/
def e2eSweep (host : TmpHost δ) : Except String (TmpSweep δ) :=
  let idle : TmpSweep δ := { apply := call.apply, stamp := call.stamp }
  if policy.minAgeHours = 0 ∨ policy.e2eMinAgeHours = 0 then .ok idle
  else if call.before.nanos < 0 then .error clockError
  else if policy.searchPaths.isEmpty ∨ policy.e2ePatterns.isEmpty then .ok idle
  else match resolveSafeTmpRoots host policy.searchPaths [] with
    | .error e => .error e
    | .ok roots =>
      match collectOpenPaths host roots with
      | none => .error ("open-file scan failed for /proc — refusing tmp fast-path blind " ++
          "(cannot verify nothing is held open)")
      | some openPaths =>
        if call.used < policy.diskCriticalPercent ∧ host.now.nanos < 0 then .error clockError
        else
          let floors : E2eFloors :=
            { patterns := policy.e2ePatterns,
              generalCutoff := tmpAgeCutoff call.before policy.minAgeHours,
              fastCutoff := fastCutoff policy call host.now }
          .ok { idle with roots := roots,
                          judge := fun host => judgeE2e host floors policy.protectedPaths openPaths }

/-- The general pass up to its loop (main.rs:8205-8256). -/
def generalSweep (host : TmpHost δ) : Except String (TmpSweep δ) :=
  let idle : TmpSweep δ := { apply := call.apply, stamp := call.stamp }
  if policy.searchPaths.isEmpty ∨ policy.minAgeHours = 0 then .ok idle
  else match resolveSafeTmpRoots host policy.searchPaths [] with
    | .error e => .error e
    | .ok roots =>
      match collectOpenPaths host roots with
      | none => .error ("open-file scan failed for /proc — refusing tmp cleanup blind " ++
          "(cannot verify nothing is held open)")
      | some openPaths =>
        if host.now.nanos < 0 then .error clockError
        else
          let floors : GeneralFloors :=
            { cutoff := tmpAgeCutoff host.now policy.minAgeHours,
              largeActive := largeFloorActive policy call,
              largeEntryBytes := policy.largeEntryBytes,
              largeCutoff := tmpAgeCutoff host.now policy.largeMinAgeHours }
          .ok { idle with roots := roots,
                          judge := fun host =>
                            judgeGeneral host floors policy.protectedPaths openPaths }

/-- A sweep, or nothing where it did not begin: the error is printed and the cleanup goes on. -/
def sweepOrNothing : Except String (TmpSweep δ) → TmpSweep δ
  | .ok sweep => sweep
  | .error _ => { apply := call.apply, stamp := call.stamp }

/-- The fast path of one cleanup. -/
def e2ePass (host : TmpHost δ) : TmpSweep δ := sweepOrNothing call (e2eSweep policy call host)

/-- The machine the general pass begins on. -/
def betweenPasses (host : TmpHost δ) : TmpHost δ :=
  ((e2ePass policy call host).run { host := host }).host.reading call.later

def generalPass (host : TmpHost δ) : TmpSweep δ :=
  sweepOrNothing call (generalSweep policy call (betweenPasses policy call host))

/-- The tmp part of `run_auto_cleanup`: what the fast path and what the general pass report. -/
def cleanTmp (host : TmpHost δ) : TmpCleanupOutcome × TmpCleanupOutcome :=
  (((e2ePass policy call host).run { host := host }).out,
    ((generalPass policy call host).run { host := betweenPasses policy call host }).out)

/-- The reclaimable total (main.rs:8753 and 8796). -/
def tmpReclaimed (host : TmpHost δ) : Nat :=
  (cleanTmp policy call host).1.reclaimed + (cleanTmp policy call host).2.reclaimed

end Sweeps

end DraconGuard
