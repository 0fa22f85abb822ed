import DraconGuard.Guard.ManagedOom
import DraconGuard.Guard.ProcessSamples
import DraconGuard.Guard.UnitListing
import DraconGuard.Lib.TextSlice

/-!
# What a measurement of the watched services measures

What memory a service is charged for stands in many places: its unit is listed by `systemctl`, its
main process shows in `/proc`, its counters are in its directory under `/sys/fs/cgroup`. Here is the
world of all these, with the readings of what it shows, and the rows such a world deserves
(`ServiceView.measure`): a function of one instant. How the rows are read step by step is in
`ServiceSampling`.

| here | there |
| --- | --- |
| `boundedText` | `text_from` (service_growth.rs:443) |
| `cgroupComponents` | `components` (service_growth.rs:453) |
| `sampledRow` | the row of `sample_unit` (service_growth.rs:577) |
| `unavailableRow` | `Observation::unavailable` (service_growth.rs:108) |

An open directory is an object of its own (`δ`), and so is an open counter (`φ`): what is read of it
later is read of the same object, whatever has become of its name.
-/

namespace DraconGuard

open Watch

variable {δ φ : Type}

/-! ## The world of a measurement -/

/-- What can be asked of the system in an instant. -/
structure ServiceView (δ φ : Type) where
  proc : ProcRoot
  /-- `/proc/<pid>/cgroup`. -/
  cgroup : Pid → Except String String
  /-- `/proc/sys/kernel/random/boot_id`. -/
  bootId : Except String String
  /-- `/proc/<who>/ns/<ns>`. -/
  namespaceOf : String → String → Option String
  /-- The root of the control groups, opened. -/
  root : Except String δ
  isCgroup2 : δ → Bool
  /-- A directory in an open directory; a link is not followed. -/
  child : δ → String → Except String δ
  /-- Device and inode. -/
  metadata : δ → Except String (Nat × Nat)
  /-- A file in an open directory; a link is not followed. -/
  openCounter : δ → String → Option φ
  isFile : φ → Bool
  content : φ → Option String
  /-- What `systemctl show` prints for some units. -/
  listing : ServiceManager → List String → Except String String

/-- The system at every instant. -/
structure ServiceTimeline (δ φ : Type) where
  view : Nat → ServiceView δ φ
  neverBack : ∀ pid, NeverBack view fun v => v.proc.startOf pid

/-! ## Readings -/

/-- `bounded_text` (service_growth.rs:439). One byte beyond the limit is read; when a character is
cut there, the reader fails first. -/
def boundedText (limit : Nat) (text : Except String String) : Except String String :=
  match text with
  | .error e => .error e
  | .ok text =>
    if text.utf8ByteSize ≤ limit then .ok text
    else if (TextSlice.sliceTo (limit + 1) text.toList).isNone then
      .error "stream did not contain valid UTF-8"
    else .error "file byte limit exceeded"

/-- `components` (service_growth.rs:453). -/
def cgroupComponents (group : String) : Except String (List String) :=
  match group.toList with
  | '/' :: rest =>
    if rest = [] || 4096 < group.utf8ByteSize then .error "unsafe/root ControlGroup"
    else
      let parts := (rest.splitOn '/').map String.ofList
      if 32 < parts.length ||
          parts.any fun p => p = "" || p = "." || p = ".." || 255 < p.utf8ByteSize then
        .error "unsafe ControlGroup components"
      else .ok parts
  | _ => .error "unsafe/root ControlGroup"

/-- The control group of a process, of its `cgroup` file (service_growth.rs:518-526). -/
def groupOf (text : String) : Except String String :=
  match (Text.lines text).filterMap fun line => Text.stripPrefix line "0::".toList with
  | [] => .error "unified process cgroup unavailable"
  | [group] => (cgroupComponents (String.ofList group)).map fun _ => String.ofList group
  | _ => .error "ambiguous process cgroup"

/-- A group is another or below it. -/
def inGroup (group membership : String) : Bool :=
  membership = group || (group ++ "/").toList.isPrefixOf membership.toList

/-- The text of a counter (service_growth.rs:510-513). -/
def readCounter (text : Option String) : Option Nat :=
  match text with
  | none => none
  | some text => if 64 < text.utf8ByteSize then none else Text.parseU64 (Text.trim text)

/-! ## Rows -/

/-- The text `sample_unit` fails with when it finds a difference. -/
def changedText : String := "process/cgroup changed during measurement"

/-- `Observation::unavailable` (service_growth.rs:108). -/
def unavailableRow (target reason : String) : ServiceSample where
  target := String.ofList (target.toList.take 280)
  generation := none
  residentBytes := none
  swapBytes := none
  footprintBytes := none
  reason := some reason

/-- The unit is the one asked for, and runs (service_growth.rs:535-541). -/
def unitRuns (target : ServiceTarget) (unit : ServiceUnit) : Bool :=
  unit.id = target.unit && unit.load = "loaded" && unit.active = "active" && 0 < unit.pid &&
    unit.invocation.utf8ByteSize = 32 &&
    unit.invocation.toList.all (fun c => (Text.hexValue c).isSome) &&
    !unit.invocation.toList.all (· = '0')

/-- Where the groups of a user's services are (service_growth.rs:546-550). -/
def userPrefix (uid : Nat) : String :=
  "/user.slice/user-" ++ toString uid ++ ".slice/user@" ++ toString uid ++ ".service/"

/-- A user's service is in that user's part (service_growth.rs:545-554). -/
def groupAllowed (uid : Nat) (target : ServiceTarget) (unit : ServiceUnit) : Bool :=
  target.manager ≠ .user || (userPrefix uid).toList.isPrefixOf unit.group.toList

def mainIdentity (answer : Except IdentityError ProcessIdentity) : Except String ProcessIdentity :=
  answer.mapError fun _ => "main-process identity unavailable"

theorem mainIdentity_eq_ok {answer : Except IdentityError ProcessIdentity} {id : ProcessIdentity} :
    mainIdentity answer = .ok id ↔ answer = .ok id := by
  cases answer <;> simp [mainIdentity, Except.mapError]

/-- `checked_add` of two counters. -/
def footprint (resident swap : Option Nat) : Option Nat :=
  match resident, swap with
  | some r, some s => if r + s ≤ u64Max then some (r + s) else none
  | _, _ => none

/-- The row of a unit (service_growth.rs:577-618). -/
def sampledRow (uid : Nat) (target : ServiceTarget) (unit : ServiceUnit) (boot : String)
    (node : Nat × Nat) (identity : ProcessIdentity) (resident swap : Option Nat) :
    ServiceSample where
  target := String.ofList ((target.manager.text ++ ":" ++ target.unit).toList.take 280)
  generation := some
    { boot := boot, target := target
      userUid := if target.manager = .user then some uid else none
      invocation := unit.invocation, group := unit.group, device := node.1, inode := node.2
      pid := unit.pid, identity := identity }
  residentBytes := resident
  swapBytes := swap
  footprintBytes := footprint resident swap
  reason :=
    if resident.isNone then some "resident accounting unavailable"
    else if swap.isNone then some "swap accounting unavailable"
    else if (footprint resident swap).isNone then some "footprint unavailable/overflow"
    else none

/-- What a manager lists, if it was asked. -/
abbrev UnitListings := ServiceManager → Option (Except String (FinMap String ServiceUnit))

/-- The units a manager is asked for. -/
def unitsOf (targets : List ServiceTarget) (manager : ServiceManager) : List String :=
  (targets.filter fun t => t.manager = manager).map (·.unit)

/-- The unit of a target (service_growth.rs:678-685). -/
def unitFor (listings : UnitListings) (target : ServiceTarget) : Except String ServiceUnit :=
  match listings target.manager with
  | none => .error "manager unavailable"
  | some (.error e) => .error e
  | some (.ok units) => (units.lookup target.unit).elim (.error "service identity unavailable") .ok

/-- The row of a name that could be read (service_growth.rs:688). -/
def shownRow (name : String) (row : Except String ServiceSample) : ServiceSample :=
  match row with
  | .error e => unavailableRow name e
  | .ok row => row

/-- What becomes of a row with a generation, of what is found afterwards
(service_growth.rs:693-719). -/
def recheckedRow (before after : UnitListings) (row : ServiceSample) (g : ServiceGeneration)
    (membership : Except String String) (node : Except String (Nat × Nat))
    (current : Except IdentityError ProcessIdentity) : ServiceSample :=
  let listed := (unitFor after g.target).toOption
  if (unitFor before g.target).toOption ≠ listed || listed.isNone ||
      current.toOption ≠ some g.identity || node.toOption ≠ some (g.device, g.inode) ||
      !(membership.toOption.any (inGroup g.group)) then
    unavailableRow row.target
      "manager/process/cgroup incarnation changed/unavailable during measurement"
  else row

/-- The boot id of a measurement (service_growth.rs:654-657). -/
def bootOf (text : Except String String) : Option String :=
  match boundedText 64 text with
  | .error _ => none
  | .ok text =>
    let boot := String.ofList (Text.trim text)
    if ManagedOom.validId boot then some boot else none

/-- The targets of a measurement. -/
def watchedTargets (names : List String) : List ServiceTarget :=
  (names.take maxTargets).filterMap parseServiceTarget

/-- `unavailable` in `collect` (service_growth.rs:647-653). -/
def unavailableRows (names : List String) (reason : String) : List ServiceSample :=
  (names.take maxTargets).map fun name => unavailableRow name reason

/-! ## A function of the world -/

namespace ServiceView

def descend (v : ServiceView δ φ) : δ → List String → Except String δ
  | dir, [] => .ok dir
  | dir, part :: rest =>
    if '\x00' ∈ part.toList then .error "invalid cgroup component"
    else v.child dir part >>= fun next => v.descend next rest

def rootDir (v : ServiceView δ φ) (verifyHost : Bool) : Except String δ := do
  let dir ← v.root
  if verifyHost then
    if v.isCgroup2 dir then .ok dir else .error "cgroup-v2 filesystem unavailable"
  else .ok dir

/-- The directory of a group. -/
def groupDir (v : ServiceView δ φ) (verifyHost : Bool) (group : String) : Except String δ := do
  let dir ← v.rootDir verifyHost
  let parts ← cgroupComponents group
  v.descend dir parts

def count (v : ServiceView δ φ) (dir : δ) (name : String) : Option Nat :=
  (v.openCounter dir name).bind fun file =>
    if v.isFile file then readCounter (v.content file) else none

def mainGroup (v : ServiceView δ φ) (pid : Pid) : Except String String :=
  boundedText 4096 (v.cgroup pid) >>= groupOf

def node (v : ServiceView δ φ) (verifyHost : Bool) (group : String) : Except String (Nat × Nat) :=
  v.groupDir verifyHost group >>= v.metadata

/-- The row of a unit. -/
def sample (v : ServiceView δ φ) (verifyHost : Bool) (uid : Nat) (target : ServiceTarget)
    (unit : ServiceUnit) (boot : String) : Except String ServiceSample := do
  ensured (unitRuns target unit) "active service incarnation unavailable"
  ensured (groupAllowed uid target unit) "user-manager cgroup/UID mismatch"
  let identity ← mainIdentity (readProcIdentity (v.proc.files unit.pid))
  let membership ← v.mainGroup unit.pid
  ensured (inGroup unit.group membership) "main-process ControlGroup mismatch"
  let dir ← v.groupDir verifyHost unit.group
  let node ← v.metadata dir
  .ok (sampledRow uid target unit boot node identity (v.count dir "memory.current")
    (v.count dir "memory.swap.current"))

def listings (v : ServiceView δ φ) (targets : List ServiceTarget) : UnitListings := fun manager =>
  if unitsOf targets manager = [] then none
  else some (v.listing manager (unitsOf targets manager) >>= parseUnits)

/-- The row of a name, of what the managers list. -/
def row (v : ServiceView δ φ) (verifyHost : Bool) (uid : Nat) (boot : String)
    (listings : UnitListings) (name : String) : ServiceSample :=
  match parseServiceTarget name with
  | none => unavailableRow name "invalid canonical service target"
  | some target =>
    match unitFor listings target with
    | .error e => unavailableRow name e
    | .ok unit => shownRow name (v.sample verifyHost uid target unit boot)

def seesHost (v : ServiceView δ φ) (ns : String) : Bool :=
  (v.namespaceOf "self" ns).isSome && v.namespaceOf "self" ns = v.namespaceOf "1" ns

/-- The rows a boot has (service_growth.rs:654-689 without the second look). -/
def measureSince (v : ServiceView δ φ) (verifyHost : Bool) (uid : Nat) (names : List String)
    (boot : Option String) : List ServiceSample :=
  match boot with
  | none => unavailableRows names "boot identity unavailable"
  | some boot =>
    if !(!verifyHost || (v.seesHost "pid" && v.seesHost "cgroup")) then
      unavailableRows names "host PID/cgroup namespace visibility unavailable"
    else (names.take maxTargets).map
      (v.row verifyHost uid boot (v.listings (watchedTargets names)))

/-- The rows of the watched services. -/
def measure (v : ServiceView δ φ) (verifyHost : Bool) (uid : Nat) (names : List String) :
    List ServiceSample :=
  if names = [] then [] else v.measureSince verifyHost uid names (bootOf v.bootId)

end ServiceView

end DraconGuard
