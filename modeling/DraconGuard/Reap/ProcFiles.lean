import DraconGuard.Lib.Text
import DraconGuard.Proc

/-!
# What the reaper reads of a process

The texts under `/proc/<pid>` and the readings reap.rs takes of them: `parse_stat`
(reap.rs:153), the executable name and the exempt list, the allowlist signatures, the weight.
A `Host` is everything the reaper can look at in one instant. It also says what the reaper
cannot see: which incarnation holds a pid.
-/

namespace DraconGuard

/-! ## `/proc/<pid>/stat` -/

/-- `StatFields` (reap.rs:134). -/
structure StatFields where
  state : Char
  ppid : Pid
  ttyNr : Int
  cpuTicks : Nat
  starttime : Nat
deriving DecidableEq, Repr

/-- `parse_stat` (reap.rs:153): the fields behind the last `)`. -/
def parseStat (stat : String) : Option StatFields := do
  let afterComm ← Text.afterLast stat.toList ')'
  let fields := Text.splitWhitespace afterComm
  let state ← (← fields[0]?).head?
  let ppid ← Text.parseI32 (← fields[1]?)
  let ttyNr ← Text.parseI32 (← fields[4]?)
  let user ← Text.parseU64 (← fields[11]?)
  let system ← Text.parseU64 (← fields[12]?)
  -- `checked_add`
  let cpuTicks ← some (user + system) |>.filter (· ≤ u64Max)
  let starttime ← Text.parseU64 (← fields[19]?)
  pure { state := state, ppid := ppid, ttyNr := ttyNr, cpuTicks := cpuTicks,
         starttime := starttime }

/-! ## The texts of one process -/

/-- The files under `/proc/<pid>`, `none` where a read fails. `exe` is the link's target. -/
structure PidFiles where
  stat : Option String := none
  cmdline : Option String := none
  exe : Option String := none
  comm : Option String := none
  status : Option String := none
deriving DecidableEq

/-- `kill` answers with an error. -/
inductive Errno where
  | esrch
  | eperm
  | other
deriving DecidableEq, Repr

/-- The start time the files tell. -/
def PidFiles.starttime (files : PidFiles) : Option Nat :=
  (files.stat.bind parseStat).map (·.starttime)

/-- One incarnation of a pid. Its `stat` tells its own start time. -/
structure PidHolder where
  starttime : Nat
  files : PidFiles
  /-- What a signal to it is refused with. -/
  refusal : Option Errno := none
  honest : ∀ t ∈ files.starttime, t = starttime

/-- Everything the reaper can look at in one instant. -/
structure Host where
  holder : Pid → Option PidHolder
  /-- Milliseconds of the monotone clock. -/
  clock : Nat := 0
  /-- `/proc/net/tcp` and `/proc/net/tcp6`. -/
  tcp : Option String := none
  tcp6 : Option String := none
  /-- `<profile>/DevToolsActivePort`. -/
  devToolsActivePort : String → Option String := fun _ => none

def Host.files (h : Host) (pid : Pid) : PidFiles :=
  match h.holder pid with
  | some p => p.files
  | none => {}

/-- The start time of whoever holds the pid. -/
def Host.starttimeOf (h : Host) (pid : Pid) : Option Nat := (h.holder pid).map (·.starttime)

/-- What the files tell is what holds the pid. -/
theorem Host.starttimeOf_of_stat {h : Host} {pid : Pid} {raw : String} {fields : StatFields}
    (hraw : (h.files pid).stat = some raw) (hfields : parseStat raw = some fields) :
    h.starttimeOf pid = some fields.starttime := by
  unfold Host.files at hraw
  unfold Host.starttimeOf
  cases hp : h.holder pid with
  | none => simp [hp] at hraw
  | some p =>
    have hst : p.files.stat = some raw := by simpa [hp] using hraw
    have htold : p.files.starttime = some fields.starttime := by
      simp [PidFiles.starttime, hst, hfields]
    rw [p.honest _ htold]
    rfl

/-! ## The allowlist and the exempt list -/

/-- `ReapPolicy` (reap.rs:57). -/
structure ReapPolicy where
  minIdleHours : Nat := 24
  maxCpuSeconds : Nat := 60
  signatures : List String
  exemptNames : List String := []
  forgottenFootprintMb : Nat
  forgottenTreeFootprintMb : Nat
deriving DecidableEq

/-- `ReapCandidate` (reap.rs:101). -/
structure ReapCandidate where
  pid : Pid
  comm : String
  args : String
  idleHours : Nat
  cpuSeconds : Nat
  rssMb : Nat
  signature : String
  starttime : Nat
deriving DecidableEq

/-- `matches_signature` (reap.rs:178). -/
def matchesSignature (args : String) (signatures : List String) : Option String :=
  signatures.find? fun needle => needle ≠ "" && Text.contains args needle

/-- A raw command line with its NULs as blanks, trimmed. -/
def cmdlineArgs (raw : String) : String :=
  String.ofList (Text.trim (String.ofList (raw.toList.map fun c => if c = '\x00' then ' ' else c)))

/-- `Path::file_name`, on text: the last component, none when that is `..` or a root. -/
def pathFileName (path : List Char) : Option (List Char) :=
  (((path.splitOn '/').filter fun part => part ≠ [] && part ≠ ['.']).getLast?).filter
    (· ≠ ['.', '.'])

/-- `cmdline_executable` (reap.rs:239). -/
def cmdlineExecutable (rawCmdline : String) : String :=
  let first := Text.trim (String.ofList (rawCmdline.toList.takeWhile (· ≠ '\x00')))
  if first = [] then ""
  else String.ofList ((pathFileName ((Text.splitWhitespace first).headD first)).getD [])

/-- `proc_exe_name` (reap.rs:258), from the target of `/proc/<pid>/exe`. -/
def procExeName (exe : Option String) : Option String :=
  (exe.bind fun target => pathFileName target.toList).map String.ofList |>.filter (· ≠ "")

/-- `process_executable_name` (reap.rs:272). -/
def processExecutableName (exe : Option String) (rawCmdline : String) : String :=
  (procExeName exe).getD (cmdlineExecutable rawCmdline)

/-- `matches_exempt` (reap.rs:288): the name itself, or the name extended with a `-`. -/
def matchesExempt (exe : String) (exemptNames : List String) : Bool :=
  exemptNames.any fun exempt =>
    exempt ≠ "" && (exe == exempt || (exempt.toList.isPrefixOf exe.toList &&
      (exe.toList.drop exempt.toList.length).head? == some '-'))

/-! ## Weight and parenthood -/

/-- The figure of one field of a `status` file, in MiB. -/
def statusMb (field : String) (status : Option String) : Nat :=
  match status with
  | none => 0
  | some text =>
    let kb := do
      let rest ← (Text.lines text).findSome? fun line => Text.stripPrefix line field.toList
      Text.parseU64 (← (Text.splitWhitespace rest).head?)
    (kb.map (· / 1024)).getD 0

/-- `rss_mb_from_status` (reap.rs:185). -/
def rssMbFromStatus (status : Option String) : Nat := statusMb "VmRSS:" status

/-- `swap_mb_from_status` (reap.rs:204). -/
def swapMbFromStatus (status : Option String) : Nat := statusMb "VmSwap:" status

/-- `parent_comm_is_systemd` (reap.rs:1298). -/
def parentCommIsSystemd (h : Host) (ppid : Pid) : Bool :=
  0 < ppid && match (h.files ppid).comm with
    | some comm => Text.trim comm == "systemd".toList
    | none => false

end DraconGuard
