import Mathlib.Data.List.Sort
import DraconGuard.Lib.BreadthFirst
import DraconGuard.Reap.Forgotten

/-!
# The scan for forgotten trees

`read_proc_table` (reap.rs:370), `build_tree` (forgotten.rs:501) and `scan_forgotten_orphan_trees`
(forgotten.rs:649). The table is read once; what is looked at after it (the parent of a root or of
a crashpad handler, the weight of a member, the use of a tree) is looked at in an instant of its
own, so every look has a host of its own (`ScanLook`).
-/

namespace DraconGuard

open Watch

/-! ## The table -/

/-- `ProcEntry` (reap.rs:302). -/
structure ProcEntry where
  pid : Pid
  ppid : Pid
  state : Char := 'S'
  ttyNr : Int := 0
  cpuTicks : Nat := 0
  starttime : Nat
  comm : String := ""
  args : String
  exe : String
deriving DecidableEq

/-- `ProcTable` (reap.rs:324): one entry for each pid, as `/proc` lists them. -/
structure ReapTable where
  entries : List ProcEntry
  nodup : (entries.map (·.pid)).Nodup

namespace ReapTable

def get (t : ReapTable) (pid : Pid) : Option ProcEntry := t.entries.find? (·.pid = pid)

/-- The pids whose parent `pid` is. -/
def children (t : ReapTable) (pid : Pid) : List Pid :=
  (t.entries.filter (·.ppid = pid)).map (·.pid)

/-- `ProcTable::descendants` (reap.rs:346). -/
def descendants (t : ReapTable) (root : Pid) : List (Pid × Nat) :=
  BreadthFirst.descendants t.children (t.entries.length + 1) root

end ReapTable

/-- One process of `read_proc_table` (reap.rs:375-413), from its files as each of them reads. -/
def readProcEntry (pid : Pid) (files : PidFiles) : Option ProcEntry := do
  let fields ← parseStat (← files.stat)
  let cmdlineRaw ← files.cmdline
  let args := cmdlineArgs cmdlineRaw
  if args = "" then none
  else some { pid := pid, ppid := fields.ppid, state := fields.state, ttyNr := fields.ttyNr,
              cpuTicks := fields.cpuTicks, starttime := fields.starttime,
              comm := String.ofList (Text.trim (files.comm.getD "")), args := args,
              exe := processExecutableName files.exe cmdlineRaw }

theorem pid_of_readProcEntry {pid : Pid} {files : PidFiles} {e : ProcEntry}
    (h : readProcEntry pid files = some e) : e.pid = pid := by
  unfold readProcEntry at h
  simp only [Option.bind_eq_bind, Option.bind_eq_some_iff] at h
  obtain ⟨stat, -, fields, -, raw, -, he⟩ := h
  split at he
  · cases he
  · exact (Option.some.inj he) ▸ rfl

/-- `read_proc_table` (reap.rs:370), over the pids `/proc` lists. -/
def readProcTable (listing : List Pid) (hlisting : listing.Nodup) (files : Pid → PidFiles) :
    ReapTable where
  entries := listing.filterMap fun pid => readProcEntry pid (files pid)
  nodup := by
    rw [List.map_filterMap]
    refine hlisting.filterMap fun a b pid ha hb => ?_
    obtain ⟨e, he, rfl⟩ := Option.map_eq_some_iff.mp ha
    obtain ⟨e', he', heq⟩ := Option.map_eq_some_iff.mp hb
    rw [← pid_of_readProcEntry he, ← pid_of_readProcEntry he', heq]

/-! ## The looks after it -/

/-- What the scan looks at. -/
inductive ScanLook where
  | rootParent (root : Pid)
  | handlerParent (root handler : Pid)
  | rss (root member : Pid)
  | swap (root member : Pid)
  | usage (root : Pid) (n : Nat)

/-- A call of the scan: its arguments, the guard's own pid, and what each look meets. -/
structure ScanCall where
  self : Pid
  look : ScanLook → Host
  policy : ReapPolicy
  bootTime : Nat
  now : Nat
  ticksPerSec : Nat
  perProcessFloorMb : Nat
  treeFloorMb : Nat

/-- `elapsed_secs` (reap.rs:170). -/
def elapsedSecs (starttime ticksPerSec bootTime now : Nat) : Nat :=
  if ticksPerSec = 0 then 0 else now - min (bootTime + starttime / ticksPerSec) u64Max

/-- `crashpad_handler_pid` (forgotten.rs:450). -/
def crashpadHandlerPid (args : String) : Option Pid := do
  let rest ← Text.afterFirst args.toList "--crashpad-handler-pid=".toList
  Text.parseI32 (Text.upTo (fun c => !c.isDigit) rest)

/-! ## A tree -/

/-- `browser_family_member` (forgotten.rs:490). -/
def browserFamilyMember (root member : ProcEntry) : Bool :=
  browserDecidesByVeto root.args && member.exe == root.exe

section Scan

variable (call : ScanCall) (table : ReapTable)

/-- Neither exempt nor, for a browser, one that only bears its name. -/
def admits (root member : ProcEntry) : Bool :=
  browserFamilyMember root member || !matchesExempt member.exe call.policy.exemptNames

/-- A process as a member of the tree, weighed (forgotten.rs:461). -/
def treeMember (root : Pid) (entry : ProcEntry) (depth : Nat) (role : String) : TreeMember :=
  let rssMb := rssMbFromStatus ((call.look (.rss root entry.pid)).files entry.pid).status
  let swapMb := swapMbFromStatus ((call.look (.swap root entry.pid)).files entry.pid).status
  { pid := entry.pid, comm := entry.comm, rssMb := rssMb, swapMb := swapMb
    footprintMb := min (rssMb + swapMb) u64Max, depth := depth, role := role
    starttime := entry.starttime }

/-- The handlers that the processes below the root name (forgotten.rs:537-541). -/
def handlerLinks (root : Pid) : List (Pid × Nat) :=
  (table.descendants root).filterMap fun (pid, depth) => do
    let handler ← crashpadHandlerPid (← table.get pid).args
    pure (handler, depth + 1)

def alreadyMember (members : List TreeMember) (pid : Pid) : Bool := members.any (·.pid = pid)

/-- One descendant (forgotten.rs:536-572). -/
def addDescendant (root : ProcEntry) (members : List TreeMember) : Pid × Nat → List TreeMember
  | (pid, depth) =>
    match table.get pid with
    | none => members
    | some entry =>
      if !admits call root entry || alreadyMember members pid then members
      else members ++ [treeMember call root.pid entry depth "descendant"]

/-- One handler (forgotten.rs:577-605): only an orphan is the tree's own. -/
def addHandler (root : ProcEntry) (members : List TreeMember) : Pid × Nat → List TreeMember
  | (handlerPid, depth) =>
    if alreadyMember members handlerPid then members
    else match table.get handlerPid with
      | none => members
      | some handler =>
        if !parentCommIsSystemd (call.look (.handlerParent root.pid handlerPid)) handler.ppid then
          members
        else if !admits call root handler then members
        else members ++ [treeMember call root.pid handler depth "crashpad handler"]

/-- The members of the tree: the root, what is below it, and its handlers. -/
def treeMembers (root : ProcEntry) : List TreeMember :=
  let own := (table.descendants root.pid).foldl (addDescendant call table root)
    [treeMember call root.pid root 0 "root"]
  (handlerLinks table root.pid).foldl (addHandler call table root) own

/-- `build_tree` (forgotten.rs:501). -/
def buildTree (root : ProcEntry) : ForgottenTree :=
  let members := treeMembers call table root
  { rootPid := root.pid, rootComm := root.comm, rootArgs := root.args
    aggregateFootprintMb := members.foldl (fun acc m => min (acc + m.footprintMb) u64Max) 0
    rootFootprintMb := (members.head?.map (·.footprintMb)).getD 0
    memberCount := members.length
    ageSecs := elapsedSecs root.starttime call.ticksPerSec call.bootTime call.now
    cpuSeconds := root.cpuTicks / max call.ticksPerSec 1
    members := members, rootStarttime := root.starttime }

/-! ## The scan -/

/-- The preconditions of a root (forgotten.rs:674-713). -/
def isOrphanRoot (entry : ProcEntry) : Bool :=
  1 < entry.pid && entry.pid != call.self &&
    parentCommIsSystemd (call.look (.rootParent entry.pid)) entry.ppid &&
    entry.ttyNr == 0 && entry.state == 'S' &&
    (browserDecidesByVeto entry.args || !matchesExempt entry.exe call.policy.exemptNames) &&
    forgottenMinTreeAgeSecs ≤ elapsedSecs entry.starttime call.ticksPerSec call.bootTime call.now

/-- The orphan roots, by pid. -/
def orphanRoots : List ProcEntry :=
  (table.entries.filter (isOrphanRoot call)).insertionSort fun a b => a.pid ≤ b.pid

/-- What becomes of a tree. -/
inductive TreeFate where
  | vetoed (reason : String)
  | spared (reason : String)
  | candidate (why : String)
  /-- Below both floors: weighed, and not reported. -/
  | light
deriving DecidableEq

structure WeighedTree where
  root : ProcEntry
  tree : ForgottenTree
  fate : TreeFate
deriving DecidableEq

def WeighedTree.reported (t : WeighedTree) : Bool := t.fate ≠ .light

def WeighedTree.pids (t : WeighedTree) : List Pid := t.tree.members.map (·.pid)

/-- A test tree that is heavy: is anybody using it (forgotten.rs:784-828)? -/
def fateByUsage (why : String) (tree : ForgottenTree) : TreeFate :=
  match (treeUsage (ε := Empty) tree (fun n => call.look (.usage tree.rootPid n)) {}).1 with
  | .driven => .spared "a client is still connected to it — in use, not reaped"
  | .undriven => .candidate why
  | .unknown =>
    if call.policy.maxCpuSeconds < tree.cpuSeconds then
      .spared ("busy — " ++ toString tree.cpuSeconds ++
        "s of CPU and no debugging port to check for a client")
    else .candidate why

/-- One root (forgotten.rs:723-829). -/
def weighRoot (root : ProcEntry) : Option WeighedTree :=
  let tree := buildTree call table root
  let heavy := call.treeFloorMb ≤ tree.aggregateFootprintMb ∨
    call.perProcessFloorMb ≤ tree.rootFootprintMb
  match classifyDesktopSession root.args with
  | .notABrowser => none
  | .desktop reason => some ⟨root, tree, if heavy then .vetoed reason else .light⟩
  | .test why => some ⟨root, tree, if heavy then fateByUsage call why tree else .light⟩

/-- The roots in order: a member of a tree weighed already is no root. -/
def weighRoots : List Pid → List ProcEntry → List WeighedTree
  | _, [] => []
  | claimed, root :: roots =>
    if root.pid ∈ claimed then weighRoots claimed roots
    else match weighRoot call table root with
      | none => weighRoots claimed roots
      | some weighed => weighed :: weighRoots (weighed.pids ++ claimed) roots

/-- Every tree that is weighed, in the order of the roots. -/
def weighedTrees : List WeighedTree := weighRoots call table [] (orphanRoots call table)

/-- The trees behind the three lists of the report. -/
def reportedTrees : List WeighedTree := (weighedTrees call table).filter (·.reported)

/-- `VetoedTree` (forgotten.rs:416). -/
structure VetoedTree where
  rootPid : Pid
  rootComm : String
  aggregateFootprintMb : Nat
  memberCount : Nat
  reason : String
deriving DecidableEq

/-- `ProtectedTree` (forgotten.rs:432). -/
abbrev ProtectedTree := VetoedTree

def leftAlone (tree : ForgottenTree) (reason : String) : VetoedTree :=
  { rootPid := tree.rootPid, rootComm := tree.rootComm
    aggregateFootprintMb := tree.aggregateFootprintMb, memberCount := tree.memberCount
    reason := reason }

/-- `ForgottenTreeScan` (forgotten.rs:443). -/
structure ForgottenTreeScan where
  candidates : List ForgottenTree
  vetoed : List VetoedTree
  spared : List ProtectedTree

/-- `scan_forgotten_orphan_trees` (forgotten.rs:649), on the table it has read. -/
def scanForgottenOrphanTrees : ForgottenTreeScan :=
  let weighed := reportedTrees call table
  { candidates := (weighed.filterMap fun t => match t.fate with
      | .candidate why => some { t.tree with why := why }
      | _ => none).insertionSort fun a b => b.aggregateFootprintMb ≤ a.aggregateFootprintMb
    vetoed := (weighed.filterMap fun t => match t.fate with
      | .vetoed reason => some (leftAlone t.tree reason)
      | _ => none).insertionSort fun a b => b.aggregateFootprintMb ≤ a.aggregateFootprintMb
    spared := (weighed.filterMap fun t => match t.fate with
      | .spared reason => some (leftAlone t.tree reason)
      | _ => none).insertionSort fun a b => b.aggregateFootprintMb ≤ a.aggregateFootprintMb }

end Scan

end DraconGuard
