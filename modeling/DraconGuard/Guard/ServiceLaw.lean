import DraconGuard.Guard.ServiceSampling

/-!
# What the rows of a measurement tell

A row with a generation was read while one incarnation of the service stood. The library's sightings
of a stamp carry the argument: the start time of the main process is read first and last, and a
start time that was gone does not come back.
-/

namespace DraconGuard

open Watch

variable {ε δ φ : Type}

/-! ## What was read, and from what -/

section Readings

variable {w : Nat → ServiceView δ φ} {dir : δ} {i i' j j' n : Nat}

/-- From one open directory to another, each component opened after the one before. -/
inductive Descends (w : Nat → ServiceView δ φ) : δ → List String → δ → Nat → Nat → Prop
  | here {dir : δ} {i j : Nat} (h : i ≤ j) : Descends w dir [] dir i j
  | step {dir next last : δ} {part : String} {rest : List String} {i j : Nat} (k : Nat) (hi : i ≤ k)
      (hopen : (w k).child dir part = .ok next) (hrest : Descends w next rest last (k + 1) j) :
      Descends w dir (part :: rest) last i j

theorem Descends.mono {last : δ} {parts : List String} (h : Descends w dir parts last i j)
    (hi : i' ≤ i) (hj : j ≤ j') : Descends w dir parts last i' j' := by
  induction h generalizing i' with
  | here h => exact .here (by omega)
  | step k hik hopen _ ih => exact .step k (by omega) hopen (ih (Nat.le_refl _) hj)

theorem Descends.le {last : δ} {parts : List String} (h : Descends w dir parts last i j) :
    i ≤ j := by
  induction h with
  | here h => exact h
  | step k hi _ _ ih => omega

/-- The directory of a group was opened from `i` on and before `j`, link by link from the root. -/
def OpenedIn (w : Nat → ServiceView δ φ) (verifyHost : Bool) (group : String) (dir : δ)
    (i j : Nat) : Prop :=
  ∃ parts root k, cgroupComponents group = .ok parts ∧ i ≤ k ∧ (w k).root = .ok root ∧
    (verifyHost = true → SeenIn w i j fun v => v.isCgroup2 root = true) ∧
    Descends w root parts dir (k + 1) j

theorem OpenedIn.mono {verifyHost : Bool} {group : String} (h : OpenedIn w verifyHost group dir i j)
    (hi : i' ≤ i) (hj : j ≤ j') : OpenedIn w verifyHost group dir i' j' := by
  obtain ⟨parts, root, k, hparts, hik, hroot, hfs, hdescends⟩ := h
  exact ⟨parts, root, k, hparts, by omega, hroot, fun hv => (hfs hv).mono hi hj,
    hdescends.mono (Nat.le_refl _) hj⟩

/-- A value of a counter, if there is one, was read of a file in the open directory. -/
def CountedIn (w : Nat → ServiceView δ φ) (dir : δ) (name : String) (value : Option Nat)
    (i j : Nat) : Prop :=
  ∀ bytes, value = some bytes → ∃ file, (SeenIn w i j fun v => v.openCounter dir name = some file) ∧
    (SeenIn w i j fun v => v.isFile file = true) ∧
    SeenIn w i j fun v => readCounter (v.content file) = some bytes

theorem CountedIn.mono {name : String} {value : Option Nat} (h : CountedIn w dir name value i j)
    (hi : i' ≤ i) (hj : j ≤ j') : CountedIn w dir name value i' j' := by
  intro bytes hbytes
  obtain ⟨file, hopen, hfile, hread⟩ := h bytes hbytes
  exact ⟨file, hopen.mono hi hj, hfile.mono hi hj, hread.mono hi hj⟩

theorem openParts_on (parts : List String) (dir : δ) (n : Nat) :
    OnOk w (fun s : Progress ε => n ≤ s.now) (openParts dir parts) fun last s =>
      Descends w dir parts last n s.now := by
  induction parts generalizing dir n with
  | nil => exact OnOk.pure fun s hs => .here hs
  | cons part rest ih =>
    rw [openParts]
    refine OnOk.ite (fun _ => OnOk.throw _) fun _ => ?_
    refine (OnOk.tryLook _ n).bind fun next => OnOk.freeze fun s₁ hnext => ?_
    obtain ⟨k, hnk, hks, hopen⟩ := hnext
    exact (ih next s₁.now).post fun last s hrest =>
      .step k hnk hopen (hrest.mono (by omega) (Nat.le_refl _))

theorem openRoot_on (verifyHost : Bool) (n : Nat) :
    OnOk w (fun s : Progress ε => n ≤ s.now) (openRoot verifyHost) fun root s =>
      (SeenIn w n s.now fun v => v.root = .ok root) ∧
        (verifyHost = true → SeenIn w n s.now fun v => v.isCgroup2 root = true) := by
  unfold openRoot
  refine (OnOk.tryLook _ n).bind fun root => OnOk.freeze fun s₁ hroot => ?_
  have hn : n ≤ s₁.now := hroot.le
  refine OnOk.ite (fun _ => ?_) fun hplain => OnOk.pure fun s hs =>
    ⟨hroot.mono (Nat.le_refl _) hs, fun hv => absurd hv hplain⟩
  refine (OnOk.tryLook _ s₁.now).post fun root' s hseen => ?_
  obtain ⟨k, hk, hks, hfs⟩ := hseen
  split at hfs
  · next hcgroup =>
    obtain rfl := Except.ok.inj hfs
    exact ⟨hroot.mono (Nat.le_refl _) (by omega), fun _ => ⟨k, by omega, hks, hcgroup⟩⟩
  · cases hfs

theorem openBeneath_on (verifyHost : Bool) (group : String) (n : Nat) :
    OnOk w (fun s : Progress ε => n ≤ s.now) (openBeneath verifyHost group) fun dir s =>
      n ≤ s.now ∧ OpenedIn w verifyHost group dir n s.now := by
  unfold openBeneath
  refine (openRoot_on verifyHost n).bind fun root => OnOk.freeze fun s₁ hs₁ => ?_
  obtain ⟨⟨k, hnk, hks, hroot⟩, hfs⟩ := hs₁
  cases hparts : cgroupComponents group with
  | error e => exact OnOk.throw e
  | ok parts =>
    refine (openParts_on parts root s₁.now).post fun dir s hdescends => ?_
    have hend := hdescends.le
    exact ⟨by omega, parts, root, k, hparts, hnk, hroot,
      fun hv => (hfs hv).mono (Nat.le_refl _) hend, hdescends.mono (by omega) (Nat.le_refl _)⟩

theorem nodeOf_on (verifyHost : Bool) (group : String) (n : Nat) :
    On w (fun s : Progress ε => n ≤ s.now) (nodeOf verifyHost group).run fun node s =>
      n ≤ s.now ∧ ∀ a, node = .ok a → ∃ dir, OpenedIn w verifyHost group dir n s.now ∧
        SeenIn w n s.now fun v => v.metadata dir = .ok a := by
  refine On.and ((computes_nodeOf verifyHost group).advances.after n) ?_
  refine (openBeneath_on verifyHost group n).bind fun dir => OnOk.freeze fun s₁ hs₁ => ?_
  refine (OnOk.tryLook _ s₁.now).post fun node s hnode => ?_
  exact ⟨dir, hs₁.2.mono (Nat.le_refl _) hnode.le, hnode.mono hs₁.1 (Nat.le_refl _)⟩

theorem counter_on (dir : δ) (name : String) (n : Nat) :
    On w (fun s : Progress ε => n ≤ s.now) (counter dir name) fun value s =>
      n ≤ s.now ∧ CountedIn w dir name value n s.now := by
  refine On.and ((computes_counter dir name).advances.after n) ?_
  unfold counter
  refine (look_seen _ n).bind fun file => On.freeze fun s₁ hopen => ?_
  cases file with
  | none => exact On.pure fun s hs bytes h => by cases h
  | some file =>
    refine (look_seen _ s₁.now).bind fun isFile => On.freeze fun s₂ hfile => On.ite (fun _ => ?_)
      fun hgood => ?_
    · exact On.pure fun s hs bytes h => by cases h
    · obtain rfl : isFile = true := by simpa using hgood
      refine (look_seen _ s₂.now).weaken (fun s hs => hs) fun value s hread bytes hbytes => ?_
      have hend := hread.le
      exact ⟨file, hopen.mono (Nat.le_refl _) (hfile.le.trans hend),
        hfile.mono hopen.le hend, hbytes ▸ hread.mono (hopen.le.trans hfile.le) (Nat.le_refl _)⟩

/-- What a measurement read, of one open directory. -/
structure CountersRead (w : Nat → ServiceView δ φ) (verifyHost : Bool) (group : String)
    (node : Nat × Nat) (resident swap : Option Nat) (i j : Nat) : Prop where
  opened : ∃ dir, OpenedIn w verifyHost group dir i j ∧
    (SeenIn w i j fun v => v.metadata dir = .ok node) ∧
    CountedIn w dir "memory.current" resident i j ∧ CountedIn w dir "memory.swap.current" swap i j

theorem CountersRead.mono {verifyHost : Bool} {group : String} {node : Nat × Nat}
    {resident swap : Option Nat} (h : CountersRead w verifyHost group node resident swap i j)
    (hi : i' ≤ i) (hj : j ≤ j') : CountersRead w verifyHost group node resident swap i' j' := by
  obtain ⟨dir, hdir, hnode, hresident, hswap⟩ := h.opened
  exact ⟨dir, hdir.mono hi hj, hnode.mono hi hj, hresident.mono hi hj, hswap.mono hi hj⟩

theorem measureUnit_on (verifyHost : Bool) (unit : ServiceUnit) (identity : ProcessIdentity)
    (membership : String) (n : Nat) :
    OnOk w (fun s : Progress ε => n ≤ s.now) (measureUnit verifyHost unit identity membership)
      fun r s => n ≤ s.now ∧ CountersRead w verifyHost unit.group r.1 r.2.1 r.2.2 n s.now := by
  unfold measureUnit
  refine (openBeneath_on verifyHost unit.group n).bind fun dir => OnOk.freeze fun s₁ hs₁ => ?_
  obtain ⟨h₁, hdir⟩ := hs₁
  refine (OnOk.tryLook _ s₁.now).bind fun node => OnOk.freeze fun s₂ hnode => ?_
  have h₂ := hnode.le
  refine (OnOk.always (counter_on dir _ s₂.now)).bind fun resident => OnOk.freeze fun s₃ hs₃ => ?_
  obtain ⟨h₃, hresident⟩ := hs₃
  refine (OnOk.always (counter_on dir _ s₃.now)).bind fun swap => OnOk.freeze fun s₄ hs₄ => ?_
  obtain ⟨h₄, hswap⟩ := hs₄
  -- everything is read, and the rest only compares
  have hread : CountersRead w verifyHost unit.group node resident swap n s₄.now :=
    ⟨dir, hdir.mono (Nat.le_refl _) (by omega), hnode.mono h₁ (by omega),
      hresident.mono (by omega) h₄, hswap.mono (by omega) (Nat.le_refl _)⟩
  have hcheck : OnOk w (fun s : Progress ε => s₄.now ≤ s.now)
      (checkUnit verifyHost unit identity membership node) fun _ s => s₄.now ≤ s.now :=
    OnOk.after (computes_checkUnit verifyHost unit identity membership node).advances _
  refine hcheck.bind fun _ => OnOk.pure fun s hs => ?_
  exact ⟨by omega, hread.mono (Nat.le_refl _) hs⟩

end Readings

/-! ## One row -/

section Rows

variable {w : Nat → ServiceView δ φ}

/-- The process is in a group or below it. -/
def ServiceView.InGroup (v : ServiceView δ φ) (pid : Pid) (group : String) : Prop :=
  ∃ membership, (boundedText 4096 (v.cgroup pid) >>= groupOf) = .ok membership ∧
    inGroup group membership = true

/-- A row with a generation, of a unit. -/
structure SampledAs (uid : Nat) (target : ServiceTarget) (unit : ServiceUnit) (boot : String)
    (row : ServiceSample) (g : ServiceGeneration) : Prop where
  runs : unitRuns target unit = true
  allowed : groupAllowed uid target unit = true
  eq : row = sampledRow uid target unit boot (g.device, g.inode) g.identity row.residentBytes
    row.swapBytes
  generation : row.generation = some g

/-- The generation of a row names its target and its boot. -/
theorem SampledAs.names {uid : Nat} {target : ServiceTarget} {unit : ServiceUnit} {boot : String}
    {row : ServiceSample} {g : ServiceGeneration} (h : SampledAs uid target unit boot row g) :
    g.target = target ∧ g.boot = boot := by
  have hgen := h.generation
  rw [h.eq] at hgen
  have hg := Option.some.inj hgen
  exact ⟨(congrArg ServiceGeneration.target hg).symm, (congrArg ServiceGeneration.boot hg).symm⟩

theorem sampleUnit_on (verifyHost : Bool) (uid : Nat) (target : ServiceTarget)
    (unit : ServiceUnit) (boot : String) (n : Nat) :
    OnOk w (fun s : Progress ε => n ≤ s.now) (sampleUnit verifyHost uid target unit boot)
      fun row s => n ≤ s.now ∧ ∃ g, SampledAs uid target unit boot row g ∧ ∃ i, n ≤ i ∧
        (w i).proc.startOf g.pid = some g.identity.starttime ∧
        (SeenIn w i s.now fun v => v.InGroup g.pid g.group) ∧
        CountersRead w verifyHost g.group (g.device, g.inode) row.residentBytes row.swapBytes
          i s.now := by
  unfold sampleUnit
  refine (OnOk.ensure _ fun hruns s hs => And.intro hruns hs).bind fun _ => ?_
  refine (OnOk.ensure _ fun hallowed s hs => And.intro hallowed hs).bind fun _ => ?_
  refine OnOk.freeze fun s₀ hs₀ => ?_
  obtain ⟨hallowed, hruns, h₀⟩ := hs₀
  have hfirst : On w (fun s : Progress ε => s₀.now ≤ s.now) (serviceIdentity unit.pid)
      fun answer s => ∀ id, answer = .ok id →
        Sighted (fun k => (w k).proc) unit.pid id s₀.now s.now :=
    (lookProcIdentity_on unit.pid s₀.now).through
  refine (OnOk.always hfirst).bind fun first => OnOk.freeze fun s₁ hs₁ => ?_
  refine (OnOk.given fun identity hidentity s hs => And.intro hidentity hs).bind fun identity => ?_
  refine OnOk.freeze fun s₁' hs₁' => ?_
  obtain ⟨a, i, hsa, hai, his, -, hstart⟩ := hs₁ identity (mainIdentity_eq_ok.mp hs₁'.1)
  refine (OnOk.tryLook _ s₁'.now).bind fun membership => OnOk.freeze fun s₂ hmember => ?_
  have h₂ := hmember.le
  refine (OnOk.ensure _ fun hin s hs => And.intro hin hs).bind fun _ => OnOk.freeze fun s₃ hs₃ => ?_
  obtain ⟨hin, h₃⟩ := hs₃
  refine (measureUnit_on verifyHost unit identity membership s₃.now).bind fun r => ?_
  have h₁ := hs₁'.2
  refine OnOk.pure fun s hs => ⟨by omega, ⟨boot, target, _, unit.invocation, unit.group, r.1.1,
    r.1.2, unit.pid, identity⟩, ⟨hruns, hallowed, rfl, rfl⟩, i, by omega, hstart, ?_, ?_⟩
  · exact (hmember.imp fun v hv => ⟨membership, hv, hin⟩).mono (by omega) (h₃.trans hs.1)
  · exact hs.2.mono (by omega) (Nat.le_refl _)

/-- A manager lists a unit among those it was asked for. -/
def ServiceView.Lists (v : ServiceView δ φ) (targets : List ServiceTarget) (target : ServiceTarget)
    (unit : ServiceUnit) : Prop :=
  ∃ units, (v.listing target.manager (unitsOf targets target.manager) >>= parseUnits) = .ok units ∧
    units.lookup target.unit = some unit

theorem askManager_on (targets : List ServiceTarget) (manager : ServiceManager) (n : Nat) :
    On w (fun s : Progress ε => n ≤ s.now) (askManager targets manager) fun answer s =>
      n ≤ s.now ∧ ∀ units, answer = some (.ok units) → SeenIn w n s.now fun v =>
        (v.listing manager (unitsOf targets manager) >>= parseUnits) = .ok units := by
  unfold askManager
  refine On.ite (fun _ => On.pure fun s hs => ⟨hs, fun _ h => by cases h⟩) fun _ => ?_
  refine (look_seen _ n).weaken (fun s hs => hs) fun answer s hseen => ⟨hseen.le, fun units h => ?_⟩
  exact hseen.imp fun v hv => Option.some.inj (hv.trans h)

/-- A unit of a target is one that its manager listed. -/
theorem unitFor_eq_ok {listings : UnitListings} {target : ServiceTarget} {unit : ServiceUnit}
    (h : unitFor listings target = .ok unit) :
    ∃ units, listings target.manager = some (.ok units) ∧ units.lookup target.unit = some unit := by
  unfold unitFor at h
  split at h
  · cases h
  · cases h
  · next units hlisted =>
    refine ⟨units, hlisted, ?_⟩
    cases hfound : units.lookup target.unit with
    | none =>
      rw [hfound] at h
      cases h
    | some u =>
      rw [hfound] at h
      exact congrArg some (Except.ok.inj h)

theorem properties_on (targets : List ServiceTarget) (n : Nat) :
    On w (fun s : Progress ε => n ≤ s.now) (properties targets) fun listings s =>
      n ≤ s.now ∧ ∀ target unit, unitFor listings target = .ok unit →
        SeenIn w n s.now fun v => v.Lists targets target unit := by
  unfold properties
  refine (askManager_on targets .system n).bind fun system => On.freeze fun s₁ hs₁ => ?_
  refine (askManager_on targets .user s₁.now).bind fun user => On.pure fun s hs => ?_
  refine ⟨hs₁.1.trans hs.1, fun target unit h => ?_⟩
  obtain ⟨units, hlisted, hfound⟩ := unitFor_eq_ok h
  unfold ServiceView.Lists
  cases hmanager : target.manager with
  | system =>
    rw [hmanager] at hlisted
    exact ((hs₁.2 units hlisted).imp fun v hv => ⟨units, hv, hfound⟩).mono (Nat.le_refl _) hs.1
  | user =>
    rw [hmanager] at hlisted
    exact ((hs.2 units hlisted).imp fun v hv => ⟨units, hv, hfound⟩).mono hs₁.1 (Nat.le_refl _)

/-- A row without a generation says nothing. -/
def Blank (row : ServiceSample) : Prop :=
  row.generation = none ∧ row.residentBytes = none ∧ row.swapBytes = none ∧
    row.footprintBytes = none

theorem blank_unavailableRow (target reason : String) : Blank (unavailableRow target reason) :=
  ⟨rfl, rfl, rfl, rfl⟩

/-- The name of a row, as far as it is kept. -/
def rowName (name : String) : String := String.ofList (name.toList.take 280)

theorem rowName_rowName (name : String) : rowName (rowName name) = rowName name := by
  simp [rowName, List.take_take]

/-- What the first look at a target gives. -/
structure FirstLook (w : Nat → ServiceView δ φ) (verifyHost : Bool) (uid : Nat) (boot : String)
    (before : UnitListings) (name : String) (row : ServiceSample) (g : ServiceGeneration)
    (i j : Nat) : Prop where
  target : parseServiceTarget name = some g.target
  unit : ∃ unit, unitFor before g.target = .ok unit ∧ SampledAs uid g.target unit boot row g
  starts : (w i).proc.startOf g.pid = some g.identity.starttime
  grouped : SeenIn w i j fun v => v.InGroup g.pid g.group
  counted : CountersRead w verifyHost g.group (g.device, g.inode) row.residentBytes
    row.swapBytes i j

/-- A row after the first look. -/
def LookedAt (w : Nat → ServiceView δ φ) (verifyHost : Bool) (uid : Nat) (boot : String)
    (before : UnitListings) (name : String) (row : ServiceSample) (n m : Nat) : Prop :=
  row.target = rowName name ∧ (Blank row ∨ ∃ g, row.generation = some g ∧
    ∃ i, n ≤ i ∧ FirstLook w verifyHost uid boot before name row g i m)

theorem LookedAt.mono {verifyHost : Bool} {uid : Nat} {boot : String} {before : UnitListings}
    {name : String} {row : ServiceSample} {n n' m m' : Nat}
    (h : LookedAt w verifyHost uid boot before name row n m) (hn : n' ≤ n) (hm : m ≤ m') :
    LookedAt w verifyHost uid boot before name row n' m' := by
  obtain ⟨htarget, hblank | ⟨g, hg, i, hi, hlook⟩⟩ := h
  · exact ⟨htarget, Or.inl hblank⟩
  · exact ⟨htarget, Or.inr ⟨g, hg, i, hn.trans hi,
      { hlook with
        grouped := hlook.grouped.mono (Nat.le_refl _) hm
        counted := hlook.counted.mono (Nat.le_refl _) hm }⟩⟩

theorem measureTarget_on (verifyHost : Bool) (uid : Nat) (boot : String) (before : UnitListings)
    (name : String) (n : Nat) :
    On w (fun s : Progress ε => n ≤ s.now) (measureTarget verifyHost uid boot before name)
      fun row s => LookedAt w verifyHost uid boot before name row n s.now := by
  unfold measureTarget
  cases htarget : parseServiceTarget name with
  | none => exact On.pure fun s hs => ⟨rfl, Or.inl (blank_unavailableRow _ _)⟩
  | some target =>
    cases hunit : unitFor before target with
    | error e =>
      simp only [hunit]
      exact On.pure fun s hs => ⟨rfl, Or.inl (blank_unavailableRow _ _)⟩
    | ok unit =>
      simp only [hunit]
      refine On.bind (sampleUnit_on verifyHost uid target unit boot n) fun answer => ?_
      cases answer with
      | error e => exact On.pure fun s hs => ⟨rfl, Or.inl (blank_unavailableRow _ _)⟩
      | ok row =>
        refine On.pure fun s hs => ?_
        obtain ⟨hns, g, hsampled, i, hni, hstarts, hgrouped, hcounted⟩ := hs row rfl
        obtain rfl := hsampled.names.1
        refine ⟨?_, Or.inr ⟨g, hsampled.generation, i, hni, htarget, ⟨unit, hunit, hsampled⟩,
          hstarts, hgrouped, hcounted⟩⟩
        rw [hsampled.eq, rowName, ← parseServiceTarget_text htarget]
        rfl

/-- What the second look at a row finds, at its end and before. -/
structure SecondLook (w : Nat → ServiceView δ φ) (verifyHost : Bool) (before after : UnitListings)
    (g : ServiceGeneration) (i j : Nat) : Prop where
  unit : ∃ unit, unitFor before g.target = .ok unit ∧ unitFor after g.target = .ok unit
  starts : (w j).proc.startOf g.pid = some g.identity.starttime
  named : SeenIn w i j fun v => v.proc.Named g.pid g.identity.comm
  grouped : SeenIn w i j fun v => v.InGroup g.pid g.group
  node : ∃ dir, OpenedIn w verifyHost g.group dir i j ∧
    SeenIn w i j fun v => v.metadata dir = .ok (g.device, g.inode)

/-- A row after the second look. -/
def LookedAgain (w : Nat → ServiceView δ φ) (verifyHost : Bool) (before after : UnitListings)
    (row row' : ServiceSample) (n m : Nat) : Prop :=
  (row.generation = none → row' = row) ∧ ∀ g, row.generation = some g →
    (∃ reason, row' = unavailableRow row.target reason) ∨
      (row' = row ∧ ∃ i j, n ≤ i ∧ j < m ∧ SecondLook w verifyHost before after g i j)

theorem LookedAgain.mono {verifyHost : Bool} {before after : UnitListings}
    {row row' : ServiceSample} {n n' m m' : Nat}
    (h : LookedAgain w verifyHost before after row row' n m) (hn : n' ≤ n) (hm : m ≤ m') :
    LookedAgain w verifyHost before after row row' n' m' := by
  refine ⟨h.1, fun g hg => (h.2 g hg).imp_right ?_⟩
  rintro ⟨hrow, i, j, hi, hj, hlook⟩
  exact ⟨hrow, i, j, by omega, by omega, hlook⟩

/-- Where a row stays, nothing was found to differ. -/
theorem recheckedRow_cases (before after : UnitListings) (row : ServiceSample)
    (g : ServiceGeneration) (membership : Except String String) (node : Except String (Nat × Nat))
    (current : Except IdentityError ProcessIdentity) :
    (∃ reason, recheckedRow before after row g membership node current =
        unavailableRow row.target reason) ∨
      recheckedRow before after row g membership node current = row ∧
        (∃ unit, unitFor before g.target = .ok unit ∧ unitFor after g.target = .ok unit) ∧
        current = .ok g.identity ∧ node = .ok (g.device, g.inode) ∧
        ∃ group, membership = .ok group ∧ inGroup g.group group = true := by
  unfold recheckedRow
  dsimp only
  split
  · exact Or.inl ⟨_, rfl⟩
  · next h =>
    simp only [Bool.or_eq_true, decide_eq_true_eq, not_or, Bool.not_eq_true, ne_eq,
      Decidable.not_not, Bool.not_eq_false', Option.any_eq_true, Option.isNone_eq_false_iff] at h
    obtain ⟨⟨⟨⟨hunit, hlisted⟩, hcurrent⟩, hnode⟩, group, hgroup, hin⟩ := h
    obtain ⟨unit, hafter⟩ := Option.isSome_iff_exists.mp hlisted
    exact Or.inr ⟨rfl, ⟨unit, ok_of_toOption (hunit.trans hafter), ok_of_toOption hafter⟩,
      ok_of_toOption hcurrent, ok_of_toOption hnode, group, ok_of_toOption hgroup, hin⟩

theorem recheckRow_on (verifyHost : Bool) (before after : UnitListings) (row : ServiceSample)
    (n : Nat) :
    On w (fun s : Progress ε => n ≤ s.now) (recheckRow verifyHost before after row)
      fun row' s => LookedAgain w verifyHost before after row row' n s.now := by
  unfold recheckRow LookedAgain
  cases hgen : row.generation with
  | none => exact On.pure fun s hs => ⟨fun _ => rfl, fun g hg => by cases hg⟩
  | some g =>
    have hmember : On w (fun s : Progress ε => n ≤ s.now) (mainGroup g.pid).run fun answer s =>
        SeenIn w n s.now fun v => (boundedText 4096 (v.cgroup g.pid) >>= groupOf) = answer :=
      look_seen _ n
    refine hmember.bind fun membership => On.freeze fun s₁ hs₁ => ?_
    refine (nodeOf_on verifyHost g.group s₁.now).bind fun node => On.freeze fun s₂ hs₂ => ?_
    have hidentity : On w (fun s : Progress ε => s₂.now ≤ s.now) (serviceIdentity g.pid)
        fun answer s => ∀ id, answer = .ok id →
          Sighted (fun k => (w k).proc) g.pid id s₂.now s.now :=
      (lookProcIdentity_on g.pid s₂.now).through
    refine hidentity.bind fun current => ?_
    refine On.pure fun s hs => ⟨fun h => (by cases h), fun g' hg' => ?_⟩
    obtain rfl := Option.some.inj hg'
    refine (recheckedRow_cases before after row g membership node current).imp_right ?_
    rintro ⟨hrow, hunit, hcurrent, hnode, group, hgroup, hin⟩
    have h₁ : n ≤ s₁.now := hs₁.le
    obtain ⟨h₂, hopened⟩ := hs₂
    obtain ⟨dir, hdir, hmeta⟩ := hopened _ hnode
    obtain ⟨a, b, hsa, hab, hbs, hnamed, hstarts⟩ := hs _ hcurrent
    refine ⟨hrow, n, b, Nat.le_refl _, hbs, hunit, hstarts, ⟨a, by omega, hab, hnamed⟩, ?_,
      dir, ?_, ?_⟩
    · exact (hs₁.imp fun v hv => ⟨group, hv.trans hgroup, hin⟩).mono (Nat.le_refl _) (by omega)
    · exact hdir.mono h₁ (by omega)
    · exact hmeta.mono h₁ (by omega)

end Rows

/-! ## The measurement -/

section Measurement

variable {tl : ServiceTimeline δ φ} {names : List String} {verifyHost : Bool} {uid : Nat}

/-- What a row tells of a service: its process was there from `i` to `j`, and all that the row shows
was read in between, before `k` first and after `k` again. -/
structure ServiceRead (tl : ServiceTimeline δ φ) (verifyHost : Bool) (uid : Nat)
    (names : List String) (name : String) (row : ServiceSample) (g : ServiceGeneration)
    (unit : ServiceUnit) (n i k j m : Nat) : Prop where
  target : parseServiceTarget name = some g.target
  sampled : SampledAs uid g.target unit g.boot row g
  within : n ≤ i ∧ j < m
  boot : SeenIn tl.view n i fun v => bootOf v.bootId = some g.boot
  listed : SeenIn tl.view n i fun v => v.Lists (watchedTargets names) g.target unit
  relisted : SeenIn tl.view i k fun v => v.Lists (watchedTargets names) g.target unit
  stands : Stands tl.view (fun v => v.proc.startOf g.pid) g.identity.starttime i j
  named : SeenIn tl.view k j fun v => v.proc.Named g.pid g.identity.comm
  grouped : SeenIn tl.view i k fun v => v.InGroup g.pid g.group
  regrouped : SeenIn tl.view k j fun v => v.InGroup g.pid g.group
  counted : CountersRead tl.view verifyHost g.group (g.device, g.inode) row.residentBytes
    row.swapBytes i k
  reopened : ∃ dir, OpenedIn tl.view verifyHost g.group dir k j ∧
    SeenIn tl.view k j fun v => v.metadata dir = .ok (g.device, g.inode)

/-- What the two looks at a row come to. -/
theorem serviceRead_of_looks {boot name : String} {before after : UnitListings}
    {row : ServiceSample} {g : ServiceGeneration} {n n₁ i k' k i' j m : Nat}
    (hboot : SeenIn tl.view n n₁ fun v => bootOf v.bootId = some boot)
    (hbefore : ∀ target unit, unitFor before target = .ok unit →
      SeenIn tl.view n n₁ fun v => v.Lists (watchedTargets names) target unit)
    (hafter : ∀ target unit, unitFor after target = .ok unit →
      SeenIn tl.view k' k fun v => v.Lists (watchedTargets names) target unit)
    (hfirst : FirstLook tl.view verifyHost uid boot before name row g i k')
    (hsecond : SecondLook tl.view verifyHost before after g i' j)
    (hi : n₁ ≤ i) (hi' : k ≤ i') (hj : j < m) :
    ∃ unit, ServiceRead tl verifyHost uid names name row g unit n i k j m := by
  obtain ⟨unit, hunit, hsampled⟩ := hfirst.unit
  obtain ⟨unit', hunit', hagain⟩ := hsecond.unit
  obtain rfl : unit = unit' := Except.ok.inj (hunit.symm.trans hunit')
  obtain rfl := hsampled.names.2
  have hik : i ≤ k' := hfirst.grouped.le
  have hkk : k' ≤ k := (hafter _ _ hagain).le
  obtain ⟨dir, hdir, hnode⟩ := hsecond.node
  exact ⟨unit,
    { target := hfirst.target
      sampled := hsampled
      within := ⟨hboot.le.trans hi, hj⟩
      boot := hboot.mono (Nat.le_refl _) hi
      listed := (hbefore _ _ hunit).mono (Nat.le_refl _) hi
      relisted := (hafter _ _ hagain).mono hik (Nat.le_refl _)
      stands := tl.neverBack g.pid i j _ hfirst.starts hsecond.starts
      named := hsecond.named.mono hi' (Nat.le_refl _)
      grouped := hfirst.grouped.mono (Nat.le_refl _) hkk
      regrouped := hsecond.grouped.mono hi' (Nat.le_refl _)
      counted := hfirst.counted.mono (Nat.le_refl _) hkk
      reopened := ⟨dir, hdir.mono hi' (Nat.le_refl _), hnode.mono hi' (Nat.le_refl _)⟩ }⟩

/-- A row of a measurement that took from `n` to `m`. -/
def RowTold (tl : ServiceTimeline δ φ) (verifyHost : Bool) (uid : Nat) (names : List String)
    (n m : Nat) (name : String) (row : ServiceSample) : Prop :=
  row.target = rowName name ∧ (Blank row ∨ ∃ g unit i k j, row.generation = some g ∧
    ServiceRead tl verifyHost uid names name row g unit n i k j m)

theorem rowTold_unavailableRow (n m : Nat) (reason : String) (names watched : List String) :
    List.Forall₂ (RowTold tl verifyHost uid names n m) watched
      (watched.map fun name => unavailableRow name reason) :=
  List.forall₂_map_right_iff.mpr
    (List.forall₂_same.mpr fun _ _ => ⟨rfl, Or.inl (blank_unavailableRow _ _)⟩)

end Measurement

end DraconGuard
