import DraconGuard.Guard.ServiceView
import DraconGuard.Lib.Attempts

/-!
# One measurement of the watched services

A measurement reads its world in many steps, and in between services restart, pids go to others and
directories are made again. What was looked at first is looked at again in the end, and a row counts
only if nothing differs. The directory of a group is opened one component after the other, and
twice.

| here | there |
| --- | --- |
| `openBeneath` | `open_beneath` (service_growth.rs:467) |
| `counter` | `counter` (service_growth.rs:495) |
| `mainGroup` | `main_group` (service_growth.rs:516) |
| `sampleUnit` | `sample_unit` (service_growth.rs:529) |
| `properties` | `properties` (service_growth.rs:620) |
| `collect` | `collect` (service_growth.rs:643) |

While nothing happens, a measurement is the function of the world it is meant to be: no row is taken
back that nothing happened to.
-/

namespace DraconGuard

open Watch

variable {ε δ φ : Type}

/-- `main_group` (service_growth.rs:516). -/
def mainGroup (pid : Pid) : Attempt (ServiceView δ φ) ε String String :=
  tryLook fun v => boundedText 4096 (v.cgroup pid) >>= groupOf

def openParts : δ → List String → Attempt (ServiceView δ φ) ε String δ
  | dir, [] => pure dir
  | dir, part :: rest =>
    if '\x00' ∈ part.toList then throw "invalid cgroup component"
    else do
      let next ← tryLook fun v => v.child dir part
      openParts next rest

/-- The root of the control groups (service_growth.rs:468-484). -/
def openRoot (verifyHost : Bool) : Attempt (ServiceView δ φ) ε String δ := do
  let dir ← tryLook fun v => v.root
  if verifyHost then
    tryLook fun v => if v.isCgroup2 dir then .ok dir else .error "cgroup-v2 filesystem unavailable"
  else pure dir

/-- `open_beneath` (service_growth.rs:467). -/
def openBeneath (verifyHost : Bool) (group : String) : Attempt (ServiceView δ φ) ε String δ := do
  let dir ← openRoot verifyHost
  match cgroupComponents group with
  | .error e => throw e
  | .ok parts => openParts dir parts

/-- Device and inode of the directory a group has now (service_growth.rs:565-567 and 705-708). -/
def nodeOf (verifyHost : Bool) (group : String) :
    Attempt (ServiceView δ φ) ε String (Nat × Nat) := do
  let dir ← openBeneath verifyHost group
  tryLook fun v => v.metadata dir

/-- `counter` (service_growth.rs:495). -/
def counter (dir : δ) (name : String) : Prog (ServiceView δ φ) ε (Option Nat) := do
  match ← look fun v => v.openCounter dir name with
  | none => pure none
  | some file =>
    if !(← look fun v => v.isFile file) then pure none
    else look fun v => readCounter (v.content file)

def serviceIdentity (pid : Pid) :
    Prog (ServiceView δ φ) ε (Except IdentityError ProcessIdentity) :=
  through ServiceView.proc (lookProcIdentity pid)

/-! ## One unit -/

/-- After the counters are read: the directory, the process and its group are still the same
(service_growth.rs:565-576). -/
def checkUnit (verifyHost : Bool) (unit : ServiceUnit) (identity : ProcessIdentity)
    (membership : String) (node : Nat × Nat) : Attempt (ServiceView δ φ) ε String Unit := do
  let again ← nodeOf verifyHost unit.group
  ensure (again = node) changedText
  let current ← always (serviceIdentity unit.pid)
  ensure (current.toOption = some identity) changedText
  let now ← mainGroup unit.pid
  ensure (now = membership) changedText

/-- The measurement proper: the counters between two looks at the directory, the process and its
group (service_growth.rs:561-576). -/
def measureUnit (verifyHost : Bool) (unit : ServiceUnit) (identity : ProcessIdentity)
    (membership : String) :
    Attempt (ServiceView δ φ) ε String ((Nat × Nat) × Option Nat × Option Nat) := do
  let dir ← openBeneath verifyHost unit.group
  let node ← tryLook fun v => v.metadata dir
  let resident ← always (counter dir "memory.current")
  let swap ← always (counter dir "memory.swap.current")
  checkUnit verifyHost unit identity membership node
  pure (node, resident, swap)

/-- `sample_unit` (service_growth.rs:529). -/
def sampleUnit (verifyHost : Bool) (uid : Nat) (target : ServiceTarget) (unit : ServiceUnit)
    (boot : String) : Attempt (ServiceView δ φ) ε String ServiceSample := do
  ensure (unitRuns target unit) "active service incarnation unavailable"
  ensure (groupAllowed uid target unit) "user-manager cgroup/UID mismatch"
  let first ← always (serviceIdentity unit.pid)
  let identity ← given (mainIdentity first)
  let membership ← mainGroup unit.pid
  ensure (inGroup unit.group membership) "main-process ControlGroup mismatch"
  let (node, resident, swap) ← measureUnit verifyHost unit identity membership
  pure (sampledRow uid target unit boot node identity resident swap)

/-! ## All units -/

def askManager (targets : List ServiceTarget) (manager : ServiceManager) :
    Prog (ServiceView δ φ) ε (Option (Except String (FinMap String ServiceUnit))) :=
  if unitsOf targets manager = [] then pure none
  else look fun v => some (v.listing manager (unitsOf targets manager) >>= parseUnits)

/-- `properties` (service_growth.rs:620). -/
def properties (targets : List ServiceTarget) : Prog (ServiceView δ φ) ε UnitListings := do
  let system ← askManager targets .system
  let user ← askManager targets .user
  pure fun manager => match manager with
    | .system => system
    | .user => user

/-- One row (service_growth.rs:674-689). -/
def measureTarget (verifyHost : Bool) (uid : Nat) (boot : String) (before : UnitListings)
    (name : String) : Prog (ServiceView δ φ) ε ServiceSample :=
  match parseServiceTarget name with
  | none => pure (unavailableRow name "invalid canonical service target")
  | some target =>
    match unitFor before target with
    | .error e => pure (unavailableRow name e)
    | .ok unit => do
      let row ← (sampleUnit verifyHost uid target unit boot).run
      pure (shownRow name row)

/-- A row is looked at again (service_growth.rs:691-720). -/
def recheckRow (verifyHost : Bool) (before after : UnitListings) (row : ServiceSample) :
    Prog (ServiceView δ φ) ε ServiceSample :=
  match row.generation with
  | none => pure row
  | some g => do
    let membership ← (mainGroup g.pid).run
    let node ← (nodeOf verifyHost g.group).run
    let current ← serviceIdentity g.pid
    pure (recheckedRow before after row g membership node current)

/-- The guard sees the host's processes and control groups (service_growth.rs:658-666). -/
def namespaceVisible (ns : String) : Prog (ServiceView δ φ) ε Bool := do
  let ours ← look fun v => v.namespaceOf "self" ns
  let init ← look fun v => v.namespaceOf "1" ns
  pure (ours.isSome && ours = init)

def namespacesVisible (verifyHost : Bool) : Prog (ServiceView δ φ) ε Bool :=
  if !verifyHost then pure true
  else do
    if !(← namespaceVisible "pid") then pure false
    else namespaceVisible "cgroup"

/-- The rows of the watched names, each looked at twice (service_growth.rs:667-722). -/
def collectRows (verifyHost : Bool) (uid : Nat) (boot : String) (names : List String) :
    Prog (ServiceView δ φ) ε (List ServiceSample) := do
  let before ← properties (watchedTargets names)
  let rows ← each (measureTarget verifyHost uid boot before) (names.take maxTargets)
  let after ← properties (watchedTargets names)
  each (recheckRow verifyHost before after) rows

/-- `collect` (service_growth.rs:643). -/
def collect (verifyHost : Bool) (uid : Nat) (names : List String) :
    Prog (ServiceView δ φ) ε (List ServiceSample) :=
  if names = [] then pure []
  else do
    match ← look fun v => bootOf v.bootId with
    | none => pure (unavailableRows names "boot identity unavailable")
    | some boot =>
      if !(← namespacesVisible verifyHost) then
        pure (unavailableRows names "host PID/cgroup namespace visibility unavailable")
      else collectRows verifyHost uid boot names

/-! ## While nothing happens -/

section Computes

variable (verifyHost : Bool) (uid : Nat) (boot : String)

theorem computes_openParts (parts : List String) (dir : δ) :
    Computes (openParts dir parts : Attempt (ServiceView δ φ) ε String δ).run fun v =>
      v.descend dir parts := by
  induction parts generalizing dir with
  | nil => exact .ok dir
  | cons part rest ih =>
    simp only [openParts, ServiceView.descend]
    split
    · exact .throw _
    · exact (Computes.tryLook _).attempt ih

theorem computes_openBeneath (group : String) :
    Computes (openBeneath verifyHost group : Attempt (ServiceView δ φ) ε String δ).run fun v =>
      v.groupDir verifyHost group := by
  have hroot : Computes (openRoot verifyHost : Attempt (ServiceView δ φ) ε String δ).run fun v =>
      v.rootDir verifyHost := by
    unfold openRoot ServiceView.rootDir
    refine (Computes.tryLook _).attempt fun dir => ?_
    cases verifyHost with
    | false => exact .ok dir
    | true => exact .tryLook _
  unfold openBeneath ServiceView.groupDir
  refine hroot.attempt fun dir => ?_
  cases cgroupComponents group with
  | error e => exact .throw e
  | ok parts => exact computes_openParts parts dir

theorem computes_nodeOf (group : String) :
    Computes (nodeOf verifyHost group : Attempt (ServiceView δ φ) ε String _).run fun v =>
      v.node verifyHost group :=
  (computes_openBeneath verifyHost group).attempt fun _ => .tryLook _

theorem computes_counter (dir : δ) (name : String) :
    Computes (counter dir name : Prog (ServiceView δ φ) ε _) fun v => v.count dir name := by
  unfold counter ServiceView.count
  refine (Computes.look _).bind (g := fun (file : Option φ) (v : ServiceView δ φ) =>
    file.bind fun file => if v.isFile file then readCounter (v.content file) else none) fun file => ?_
  cases file with
  | none => exact .pure _
  | some file =>
    refine ((Computes.look _).bind fun isFile => (Computes.pure _).ite (.look _)).congr fun v => ?_
    cases hfile : v.isFile file <;> simp [hfile]

theorem computes_serviceIdentity (pid : Pid) :
    Computes (serviceIdentity pid : Prog (ServiceView δ φ) ε _) fun v =>
      readProcIdentity (v.proc.files pid) :=
  (computes_lookProcIdentity pid).through _

theorem computes_mainGroup (pid : Pid) :
    Computes (mainGroup pid : Attempt (ServiceView δ φ) ε String _).run fun v => v.mainGroup pid :=
  .tryLook _

/-- What the checks find in a world that stands still. -/
def ServiceView.check (v : ServiceView δ φ) (verifyHost : Bool) (unit : ServiceUnit)
    (identity : ProcessIdentity) (membership : String) (node : Nat × Nat) : Except String Unit := do
  let again ← v.node verifyHost unit.group
  ensured (again = node) changedText
  ensured ((readProcIdentity (v.proc.files unit.pid)).toOption = some identity) changedText
  let now ← v.mainGroup unit.pid
  ensured (now = membership) changedText

def ServiceView.measureUnit (v : ServiceView δ φ) (verifyHost : Bool) (unit : ServiceUnit)
    (identity : ProcessIdentity) (membership : String) :
    Except String ((Nat × Nat) × Option Nat × Option Nat) := do
  let dir ← v.groupDir verifyHost unit.group
  let node ← v.metadata dir
  v.check verifyHost unit identity membership node
  .ok (node, v.count dir "memory.current", v.count dir "memory.swap.current")

theorem computes_checkUnit (unit : ServiceUnit) (identity : ProcessIdentity) (membership : String)
    (node : Nat × Nat) :
    Computes (checkUnit verifyHost unit identity membership node :
      Attempt (ServiceView δ φ) ε String Unit).run fun v =>
        v.check verifyHost unit identity membership node := by
  have hsteps : Computes (checkUnit verifyHost unit identity membership node :
      Attempt (ServiceView δ φ) ε String Unit).run _ :=
    (computes_nodeOf verifyHost unit.group).attempt fun again =>
      (Computes.ensure _ _).attempt fun _ =>
        (computes_serviceIdentity unit.pid).after fun current =>
          (Computes.ensure _ _).attempt fun _ =>
            (computes_mainGroup unit.pid).attempt fun now => .ensure _ _
  exact hsteps.congr fun v => rfl

theorem computes_measureUnit (unit : ServiceUnit) (identity : ProcessIdentity)
    (membership : String) :
    Computes (measureUnit verifyHost unit identity membership :
      Attempt (ServiceView δ φ) ε String _).run fun v =>
        v.measureUnit verifyHost unit identity membership := by
  have hsteps : Computes (measureUnit verifyHost unit identity membership :
      Attempt (ServiceView δ φ) ε String _).run _ :=
    (computes_openBeneath verifyHost unit.group).attempt fun dir =>
      (Computes.tryLook _).attempt fun node =>
        (computes_counter dir _).after fun resident =>
          (computes_counter dir _).after fun swap =>
            (computes_checkUnit verifyHost unit identity membership node).attempt fun _ => .ok _
  exact hsteps.congr fun v => rfl

/-- Nothing is found to differ. -/
theorem ServiceView.check_self (v : ServiceView δ φ) {unit : ServiceUnit}
    {identity : ProcessIdentity} {membership : String} {node : Nat × Nat}
    (hnode : v.node verifyHost unit.group = .ok node)
    (hidentity : readProcIdentity (v.proc.files unit.pid) = .ok identity)
    (hmember : v.mainGroup unit.pid = .ok membership) :
    v.check verifyHost unit identity membership node = .ok () := by
  simp [ServiceView.check, hnode, hidentity, hmember, bind, Except.bind, Except.toOption, ensured]

theorem ServiceView.measureUnit_eq (v : ServiceView δ φ) {unit : ServiceUnit}
    {identity : ProcessIdentity} {membership : String}
    (hidentity : readProcIdentity (v.proc.files unit.pid) = .ok identity)
    (hmember : v.mainGroup unit.pid = .ok membership) :
    v.measureUnit verifyHost unit identity membership = (do
      let dir ← v.groupDir verifyHost unit.group
      let node ← v.metadata dir
      .ok (node, v.count dir "memory.current", v.count dir "memory.swap.current")) := by
  unfold ServiceView.measureUnit
  cases hdir : v.groupDir verifyHost unit.group with
  | error e => rfl
  | ok dir =>
    cases hmeta : v.metadata dir with
    | error e => simp [hmeta, bind, Except.bind]
    | ok node =>
      have hnode : v.node verifyHost unit.group = .ok node := by
        simp [ServiceView.node, hdir, hmeta, bind, Except.bind]
      have hcheck := v.check_self verifyHost hnode hidentity hmember
      simp [hmeta, hcheck, bind, Except.bind]

theorem computes_sampleUnit (target : ServiceTarget) (unit : ServiceUnit) :
    Computes (sampleUnit verifyHost uid target unit boot :
      Attempt (ServiceView δ φ) ε String _).run fun v =>
        v.sample verifyHost uid target unit boot := by
  have hsteps : Computes (sampleUnit verifyHost uid target unit boot :
      Attempt (ServiceView δ φ) ε String _).run _ :=
    (Computes.ensure _ _).attempt fun _ =>
      (Computes.ensure _ _).attempt fun _ =>
        (computes_serviceIdentity unit.pid).after fun first =>
          (Computes.given (mainIdentity first)).attempt fun identity =>
            (computes_mainGroup unit.pid).attempt fun membership =>
              (Computes.ensure _ _).attempt fun _ =>
                (computes_measureUnit verifyHost unit identity membership).attempt fun r => .ok _
  refine hsteps.congr fun v => ?_
  unfold ServiceView.sample
  refine congrArg (_ >>= ·) (funext fun _ => congrArg (_ >>= ·) (funext fun _ => ?_))
  cases hidentity : readProcIdentity (v.proc.files unit.pid) with
  | error e => rfl
  | ok identity =>
    show (v.mainGroup unit.pid >>= _) = v.mainGroup unit.pid >>= _
    cases hmember : v.mainGroup unit.pid with
    | error e => rfl
    | ok membership =>
      show (ensured (inGroup unit.group membership) _ >>= _) = ensured _ _ >>= _
      refine congrArg (_ >>= ·) (funext fun _ => ?_)
      rw [v.measureUnit_eq verifyHost hidentity hmember]
      cases hdir : v.groupDir verifyHost unit.group with
      | error e => rfl
      | ok dir => cases hmeta : v.metadata dir <;> simp [hmeta, bind, Except.bind]

theorem computes_properties (targets : List ServiceTarget) :
    Computes (properties targets : Prog (ServiceView δ φ) ε _) fun v => v.listings targets := by
  have hask (manager : ServiceManager) :
      Computes (askManager targets manager : Prog (ServiceView δ φ) ε _) fun v =>
        v.listings targets manager := (Computes.pure _).ite (.look _)
  have hsteps : Computes (properties targets : Prog (ServiceView δ φ) ε _) _ :=
    (hask .system).bind fun system => (hask .user).bind fun user => .pure _
  refine hsteps.congr fun v => funext fun manager => ?_
  cases manager <;> rfl

theorem computes_measureTarget (before : UnitListings) (name : String) :
    Computes (measureTarget verifyHost uid boot before name : Prog (ServiceView δ φ) ε _) fun v =>
      v.row verifyHost uid boot before name := by
  unfold measureTarget ServiceView.row
  cases parseServiceTarget name with
  | none => exact .pure _
  | some target =>
    cases hunit : unitFor before target with
    | error e =>
      simp only [hunit]
      exact .pure _
    | ok unit =>
      simp only [hunit]
      have hsteps : Computes ((sampleUnit verifyHost uid target unit boot :
          Attempt (ServiceView δ φ) ε String _).run >>= fun row =>
            (pure (shownRow name row) : Prog (ServiceView δ φ) ε _)) _ :=
        (computes_sampleUnit verifyHost uid boot target unit).bind fun row => .pure _
      exact hsteps.congr fun v => rfl

/-- What the second look at a row finds in a world that stands still. -/
def ServiceView.recheck (v : ServiceView δ φ) (verifyHost : Bool) (before after : UnitListings)
    (row : ServiceSample) : ServiceSample :=
  match row.generation with
  | none => row
  | some g => recheckedRow before after row g (v.mainGroup g.pid) (v.node verifyHost g.group)
      (readProcIdentity (v.proc.files g.pid))

theorem computes_recheckRow (before after : UnitListings) (row : ServiceSample) :
    Computes (recheckRow verifyHost before after row : Prog (ServiceView δ φ) ε _) fun v =>
      v.recheck verifyHost before after row := by
  unfold recheckRow ServiceView.recheck
  cases row.generation with
  | none => exact .pure _
  | some g =>
    have hsteps := (computes_mainGroup (δ := δ) (φ := φ) (ε := ε) g.pid).bind fun membership =>
      (computes_nodeOf (δ := δ) (φ := φ) (ε := ε) verifyHost g.group).bind fun node =>
        (computes_serviceIdentity (δ := δ) (φ := φ) (ε := ε) g.pid).bind fun current =>
          Computes.pure (recheckedRow before after row g membership node current)
    exact hsteps.congr fun v => rfl

theorem computes_namespacesVisible :
    Computes (namespacesVisible verifyHost : Prog (ServiceView δ φ) ε _) fun v =>
      !verifyHost || (v.seesHost "pid" && v.seesHost "cgroup") := by
  have hone (ns : String) : Computes (namespaceVisible ns : Prog (ServiceView δ φ) ε _) fun v =>
      v.seesHost ns :=
    (Computes.look _).bind fun ours => (Computes.look _).bind fun init => .pure _
  have hsteps : Computes (namespacesVisible verifyHost : Prog (ServiceView δ φ) ε _) _ :=
    (Computes.pure _).ite ((hone "pid").bind fun pid => (Computes.pure _).ite (hone "cgroup"))
  refine hsteps.congr fun v => ?_
  cases verifyHost <;> cases v.seesHost "pid" <;> simp

end Computes

/-! ## The second look takes nothing back -/

section Still

variable (v : ServiceView δ φ) (verifyHost : Bool) (uid : Nat) (boot : String)

/-- What a row with a generation was read from. -/
theorem ServiceView.sample_ok {target : ServiceTarget} {unit : ServiceUnit} {row : ServiceSample}
    (h : v.sample verifyHost uid target unit boot = .ok row) : ∃ g, row.generation = some g ∧
      g.target = target ∧ readProcIdentity (v.proc.files g.pid) = .ok g.identity ∧
      (∃ membership, v.mainGroup g.pid = .ok membership ∧ inGroup g.group membership = true) ∧
      v.node verifyHost g.group = .ok (g.device, g.inode) := by
  unfold ServiceView.sample at h
  simp only [okBind_iff, ensured_eq_ok, exists_const, Except.ok.injEq] at h
  obtain ⟨-, -, identity, hidentity, membership, hmember, hin, dir, hdir, node, hmeta, rfl⟩ := h
  exact ⟨_, rfl, rfl, mainIdentity_eq_ok.mp hidentity, ⟨membership, hmember, hin⟩,
    okBind_iff.mpr ⟨dir, hdir, hmeta⟩⟩

/-- A row that nothing happened to stays. -/
theorem ServiceView.recheck_row (listings : UnitListings) (name : String) :
    v.recheck verifyHost listings listings (v.row verifyHost uid boot listings name) =
      v.row verifyHost uid boot listings name := by
  unfold ServiceView.row
  cases parseServiceTarget name with
  | none => rfl
  | some target =>
    cases hunit : unitFor listings target with
    | error e => simp only [hunit]; rfl
    | ok unit =>
      simp only [hunit]
      cases hrow : v.sample verifyHost uid target unit boot with
      | error e => rfl
      | ok row =>
        obtain ⟨g, hg, rfl, hidentity, ⟨membership, hmember, hin⟩, hnode⟩ :=
          v.sample_ok verifyHost uid boot hrow
        simp [shownRow, ServiceView.recheck, recheckedRow, hg, hunit, hidentity, hmember, hin,
          hnode, Except.toOption]

end Still

theorem computes_collectRows (verifyHost : Bool) (uid : Nat) (boot : String) (names : List String) :
    Computes (collectRows verifyHost uid boot names : Prog (ServiceView δ φ) ε _) fun v =>
      (names.take maxTargets).map
        (v.row verifyHost uid boot (v.listings (watchedTargets names))) := by
  have hsteps : Computes (collectRows verifyHost uid boot names : Prog (ServiceView δ φ) ε _) _ :=
    (computes_properties (watchedTargets names)).bind fun before =>
      (Computes.each (computes_measureTarget verifyHost uid boot before) _).bind fun rows =>
        (computes_properties (watchedTargets names)).bind fun after =>
          Computes.each (computes_recheckRow verifyHost before after) rows
  refine hsteps.congr fun v => ?_
  rw [List.map_map]
  exact List.map_congr_left fun name _ => v.recheck_row verifyHost uid boot _ name

theorem computes_collect (verifyHost : Bool) (uid : Nat) (names : List String) :
    Computes (collect verifyHost uid names : Prog (ServiceView δ φ) ε _) fun v =>
      v.measure verifyHost uid names := by
  unfold collect ServiceView.measure
  split
  · exact .pure _
  refine (Computes.look _).bind (g := fun boot (v : ServiceView δ φ) =>
    v.measureSince verifyHost uid names boot) fun boot => ?_
  cases boot with
  | none => exact .pure _
  | some boot =>
    have hsteps : Computes ((namespacesVisible verifyHost : Prog (ServiceView δ φ) ε Bool) >>=
        fun visible => if !visible then
            pure (unavailableRows names "host PID/cgroup namespace visibility unavailable")
          else collectRows verifyHost uid boot names) _ :=
      (computes_namespacesVisible verifyHost).bind fun visible =>
        (Computes.pure _).ite (computes_collectRows verifyHost uid boot names)
    exact hsteps.congr fun v => rfl

/-- **A measurement measures its world**: while nothing happens, all the looks and second looks of a
measurement come to the rows the world deserves. -/
theorem collect_still (v : ServiceView δ φ) (verifyHost : Bool) (uid : Nat) (names : List String) :
    answer v (collect verifyHost uid names : Prog (ServiceView δ φ) ε _) =
      v.measure verifyHost uid names := (computes_collect verifyHost uid names).answer_eq v

section Portal

private def portalStat : String := "7 (portal) S 1 7 7 0 -1 0 0 0 0 0 0 0 0 0 20 0 1 0 900 0"

private def portalHolder : PidHolder where
  starttime := 900
  files := { comm := some "portal\n", stat := some portalStat }
  honest := by decide +kernel

private theorem portalStat_starttime : statStarttime portalStat = some 900 := by decide +kernel

private def portal : ServiceView Unit String where
  proc :=
    { host := { holder := fun pid => if pid = 7 then some portalHolder else none }
      honest := fun pid p stat t hp hstat ht => by
        simp only [Option.ite_none_right_eq_some, Option.some.injEq] at hp
        obtain ⟨-, rfl⟩ := hp
        obtain rfl := Option.some.inj hstat
        rw [portalStat_starttime] at ht
        exact (Option.some.inj ht).symm }
  cgroup := fun _ => .ok "0::/session.slice/portal.service\n"
  bootId := .ok "00112233-4455-6677-8899-aabbccddeeff\n"
  namespaceOf := fun _ _ => none
  root := .ok ()
  isCgroup2 := fun _ => false
  child := fun _ _ => .ok ()
  metadata := fun _ => .ok (1, 2)
  openCounter := fun _ name => some name
  isFile := fun _ => true
  content := fun name => if name = "memory.current" then some "4096\n" else some "1024\n"
  listing := fun _ _ => .ok <|
    "Id=portal.service\nInvocationID=00112233445566778899aabbccddeeff\n" ++
    "ControlGroup=/session.slice/portal.service\nMainPID=7\nLoadState=loaded\nActiveState=active\n"

/-- A name that is no target has its row all the same. -/
example : ((collect false 1000 ["system:portal.service", "portal"] (fun _ => portal)
    ({} : Progress Empty)).1.map fun r => r.footprintBytes) = [some 5120, none] := by decide +kernel

end Portal

end DraconGuard
