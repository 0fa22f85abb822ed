import DraconGuard.Lib.Attempts
import DraconGuard.Clean.PackageCaches
import DraconGuard.Reap.StatReaders

/-!
# What a row of the process table tells of

`ps` prints a table, and a process writes its own name into it, line breaks included. The guard asks
`/proc` about every row again, one file after the other, while processes end and their pids go to
others. It keeps a row if the pid tells the same name and start time before and after its swap was
read, and the name is the one of the row.

| here | there |
| --- | --- |
| `parsePsOutput` | `parse_ps_output` (main.rs:1372) |
| `readProcSwapMb` | `read_proc_swap_mb_from` (main.rs:769) |
| `lookProcIdentity` | `read_proc_identity` (main.rs:2062), its two files read one after the other |
| `verifiedProcessSamples` | `verified_process_samples_with` (main.rs:2029) |
| `loadProcessCmdline` | `load_process_cmdline` (main.rs:1357) |

A pid alone names nobody. `ProcTimeline` says what the kernel grants: a start time that a pid showed
twice is that of one process, which held the pid all the time between.
-/

namespace DraconGuard

open Watch

variable {ε : Type}

/-! ## `/proc` over time -/

/-- Field 22 of `stat`, as `read_proc_identity` takes it. -/
def statStarttime (stat : String) : Option Nat := do
  let afterComm ← Text.afterLast stat.toList ')'
  Text.parseU64 (← (Text.splitWhitespace afterComm)[19]?)

/-- What can be read below `/proc` in an instant. -/
structure ProcRoot where
  host : Host
  /-- `/proc` is a directory. -/
  dir : Bool := true
  /-- `/proc/self` is there. -/
  self : Bool := true
  /-- The first bytes of a command line as they decode, and whether there are more. -/
  cmdline : Pid → Option (String × Bool) := fun _ => none
  honest : ∀ pid p stat t, host.holder pid = some p → p.files.stat = some stat →
    statStarttime stat = some t → t = p.starttime

/-- Who holds a pid, by its start time. -/
def ProcRoot.startOf (v : ProcRoot) (pid : Pid) : Option Nat := v.host.starttimeOf pid

def ProcRoot.files (v : ProcRoot) (pid : Pid) : PidFiles := v.host.files pid

/-- `/proc` at every instant. -/
structure ProcTimeline where
  view : Nat → ProcRoot
  neverBack : ∀ pid, NeverBack view fun v => v.startOf pid

/-! ## The table `ps` prints -/

/-- A `ProcSample` with its command line (main.rs:735). -/
structure PsSample extends ProcSample where
  args : String
deriving DecidableEq

/-- The words of a line (main.rs:1381-1402). `readCpu` is `parse::<f32>`. -/
def psWords (readCpu : List Char → Option Rat) : List (List Char) → Option PsSample
  | pid :: ppid :: cpu :: rss :: nice :: command :: args => do
    let pid ← Text.parseI32 pid
    let ppid ← Text.parseI32 ppid
    let cpu ← readCpu cpu
    let rss ← Text.parseU64 rss
    let nice ← Text.parseI32 nice
    pure { pid := pid, ppid := ppid, cpuPercent := cpu, rssMb := rss / 1024, swapMb := none,
           nice := nice, command := String.ofList command, starttime := 0,
           args := String.ofList ([' '].intercalate args) }
  | _ => none

/-- `parse_ps_output` (main.rs:1372). -/
def parsePsOutput (readCpu : List Char → Option Rat) (output : String) : List PsSample :=
  (Text.lines output).filterMap fun line => psWords readCpu (Text.splitWhitespace line)

/-! ## The files of a process -/

/-- `MAX_PROCESS_STATUS_BYTES`. -/
def maxProcessStatusBytes : Nat := 64 * 1024

/-- `read_proc_swap_mb_from` (main.rs:769), of the text of `status`. -/
def readProcSwapMb (status : Option String) : Option Nat :=
  match status with
  | none => none
  | some status =>
    if maxProcessStatusBytes < status.utf8ByteSize then none
    else
      match (Text.lines status).filterMap fun line => Text.stripPrefix line "VmSwap:".toList with
      | [field] =>
        match Text.splitWhitespace field with
        | [kb, unit] => if unit = "kB".toList then (Text.parseU64 kb).map (· / 1024) else none
        | _ => none
      | _ => none

/-- `read_process_cmdline_from` (main.rs:1263). -/
def readProcessCmdline (cmdline : Option (String × Bool)) : String :=
  match cmdline with
  | none => ""
  | some (raw, truncated) => sanitizeProcessCmdline raw truncated

/-- `read_proc_identity` (main.rs:2062): `comm`, and then `stat`. -/
def lookProcIdentity (pid : Pid) : Prog ProcRoot ε (Except IdentityError ProcessIdentity) := do
  match ← look fun v => (v.files pid).comm with
  | none => pure (.error .unreadable)
  | some comm =>
    let stat ← look fun v => (v.files pid).stat
    pure (readProcIdentity { comm := some comm, stat := stat })

/-- `process_sample_is_current` (main.rs:2146): of the answers of `process_identity_status` only
the match counts. -/
def lookIsCurrent (p : PsSample) : Prog ProcRoot ε Bool := do
  if !(← look fun v => v.dir) then pure false
  else if !(← look fun v => v.self) then pure false
  else
    match ← lookProcIdentity p.pid with
    | .error _ => pure false
    | .ok actual => pure (actual.starttime = p.starttime)

/-! ## The rows that are kept -/

/-- What is left to do for a row after the first look at its pid (main.rs:2038-2045). -/
def measureSample (p : PsSample) (first : Except IdentityError ProcessIdentity) :
    Prog ProcRoot ε (Option PsSample) :=
  match first with
  | .error _ => pure none
  | .ok before =>
    if before.comm ≠ p.command then pure none
    else do
      let swap ← look fun v => readProcSwapMb (v.files p.pid).status
      let again ← lookProcIdentity p.pid
      pure (if again.toOption ≠ some before then none
        else some { p with swapMb := swap, starttime := before.starttime })

/-- One row (main.rs:2036-2047). -/
def verifySample (p : PsSample) : Prog ProcRoot ε (Option PsSample) := do
  let first ← lookProcIdentity p.pid
  measureSample p first

/-- `verified_process_samples_with` (main.rs:2029). -/
def verifiedProcessSamples (parsed : List PsSample) : Prog ProcRoot ε (List PsSample) := do
  let rows ← each verifySample parsed
  pure rows.reduceOption

/-- `process_samples` (main.rs:2002), of what `ps` printed. -/
def scanProcesses (readCpu : List Char → Option Rat) (output : String) :
    Prog ProcRoot ε (List PsSample) :=
  verifiedProcessSamples (parsePsOutput readCpu output)

/-- `load_process_cmdline` (main.rs:1357). -/
def loadProcessCmdline (p : PsSample) : Prog ProcRoot ε PsSample := do
  if !(← lookIsCurrent p) then pure p
  else do
    let args ← look fun v => readProcessCmdline (v.cmdline p.pid)
    if ← lookIsCurrent p then pure { p with args := args }
    else pure p

/-! ## One sighting -/

theorem readProcIdentity_eq_ok {files : PidFiles} {id : ProcessIdentity}
    (h : readProcIdentity files = .ok id) : ∃ comm stat, files.comm = some comm ∧
      files.stat = some stat ∧ statStarttime stat = some id.starttime ∧
      String.ofList (Text.trim comm) = id.comm := by
  unfold readProcIdentity at h
  cases hcomm : files.comm with
  | none => simp [hcomm, bind, Except.bind] at h
  | some comm =>
    cases hstat : files.stat with
    | none => simp [hcomm, hstat, bind, Except.bind] at h
    | some stat =>
      refine ⟨comm, stat, rfl, rfl, ?_⟩
      unfold statStarttime
      cases hafter : Text.afterLast stat.toList ')' with
      | none => simp [hcomm, hstat, hafter, bind, Except.bind] at h
      | some after =>
        cases hfield : (Text.splitWhitespace after)[19]? with
        | none => simp [hcomm, hstat, hafter, hfield, bind, Except.bind] at h
        | some field =>
          cases hstart : Text.parseU64 field with
          | none => simp [hcomm, hstat, hafter, hfield, hstart, bind, Except.bind] at h
          | some start =>
            simp only [hcomm, hstat, hafter, hfield, hstart, bind, Except.bind, Option.elim,
              pure, Except.pure, Except.ok.injEq] at h
            subst h
            simp [hfield, hstart]

/-- What `stat` tells is the start time of whoever holds the pid. -/
theorem ProcRoot.startOf_of_stat {v : ProcRoot} {pid : Pid} {stat : String} {t : Nat}
    (hstat : (v.files pid).stat = some stat) (ht : statStarttime stat = some t) :
    v.startOf pid = some t := by
  unfold ProcRoot.files Host.files at hstat
  cases hp : v.host.holder pid with
  | none => simp [hp] at hstat
  | some p =>
    rw [hp] at hstat
    rw [v.honest pid p stat t hp hstat ht]
    simp [ProcRoot.startOf, Host.starttimeOf, hp]

/-- The name a pid shows. -/
def ProcRoot.Named (v : ProcRoot) (pid : Pid) (name : String) : Prop :=
  ∃ comm, (v.files pid).comm = some comm ∧ String.ofList (Text.trim comm) = name

theorem computes_lookProcIdentity (pid : Pid) :
    Computes (lookProcIdentity pid : Prog ProcRoot ε _) fun v =>
      readProcIdentity (v.files pid) := by
  unfold lookProcIdentity
  refine ((Computes.look _).bind (g := fun comm v =>
    readProcIdentity { comm := comm, stat := (v.files pid).stat }) fun comm => ?_).congr
      fun v => rfl
  cases comm with
  | none => exact .pure _
  | some comm => exact (Computes.look _).bind fun _ => .pure _

theorem advances_lookProcIdentity (pid : Pid) :
    Advances (lookProcIdentity pid : Prog ProcRoot ε _) := (computes_lookProcIdentity pid).advances

theorem ok_of_toOption {κ α : Type} {answer : Except κ α} {a : α}
    (h : answer.toOption = some a) : answer = .ok a := by
  cases answer with
  | error e => cases h
  | ok b => exact congrArg Except.ok (Option.some.inj h)

section Timeline

variable {w : Nat → ProcRoot} {p q : PsSample}

/-- A name and a start time that a pid showed one after the other, from `n` on and before `m`. -/
def Sighted (w : Nat → ProcRoot) (pid : Pid) (id : ProcessIdentity) (n m : Nat) : Prop :=
  ∃ a b, n ≤ a ∧ a < b ∧ b < m ∧ (w a).Named pid id.comm ∧ (w b).startOf pid = some id.starttime

theorem lookProcIdentity_on (pid : Pid) (n : Nat) :
    On w (fun s : Progress ε => n ≤ s.now) (lookProcIdentity pid) fun answer s =>
      ∀ id, answer = .ok id → Sighted w pid id n s.now := by
  intro s hs id h
  unfold lookProcIdentity at h ⊢
  rw [bind_run, look_run] at h ⊢
  cases hcomm : ((w s.now).files pid).comm with
  | none =>
    rw [hcomm] at h
    cases h
  | some comm =>
    simp only [hcomm, bind_run, look_run, pure_run] at h ⊢
    obtain ⟨comm', stat, hc, hstat, ht, hname⟩ := readProcIdentity_eq_ok h
    obtain rfl := Option.some.inj hc
    exact ⟨s.now, s.now + 1, hs, by omega, by omega, ⟨comm, hcomm, hname⟩,
      ProcRoot.startOf_of_stat hstat ht⟩

theorem lookIsCurrent_on (p : PsSample) (n : Nat) :
    On w (fun s : Progress ε => n ≤ s.now) (lookIsCurrent p) fun current s =>
      current = true → SeenIn w n s.now fun v => v.startOf p.pid = some p.starttime := by
  unfold lookIsCurrent
  refine ((Advances.look _).after n).bind fun dir => On.ite (fun _ => ?_) fun _ => ?_
  · exact On.pure fun s hs h => by cases h
  refine ((Advances.look _).after n).bind fun self => On.ite (fun _ => ?_) fun _ => ?_
  · exact On.pure fun s hs h => by cases h
  refine (lookProcIdentity_on p.pid n).bind fun answer => ?_
  cases answer with
  | error e => exact On.pure fun s hs h => by cases h
  | ok actual =>
    refine On.pure fun s hs h => ?_
    have hsame : actual.starttime = p.starttime := of_decide_eq_true h
    obtain ⟨a, b, hna, hab, hbm, -, hstart⟩ := hs actual rfl
    exact ⟨b, by omega, hbm, hsame ▸ hstart⟩

/-- **Everything a row says of its process was read from one**: from `i` to `j` its pid was held by
the start time of the row, and meanwhile it showed the name and the swap. -/
structure OneIncarnation (w : Nat → ProcRoot) (p : PsSample) (i j : Nat) : Prop where
  stands : Stands w (fun v => v.startOf p.pid) p.starttime i j
  named : SeenIn w i j fun v => v.Named p.pid p.command
  measured : SeenIn w i j fun v => readProcSwapMb (v.files p.pid).status = p.swapMb

end Timeline

section OneRow

variable (tl : ProcTimeline)

theorem advances_measureSample (p : PsSample) (first : Except IdentityError ProcessIdentity) :
    Advances (measureSample p first : Prog ProcRoot ε _) := by
  cases first with
  | error e => exact Advances.pure _
  | ok before =>
    refine Advances.ite (Advances.pure _) ((Advances.look _).bind fun swap => ?_)
    exact (advances_lookProcIdentity p.pid).bind fun again => Advances.pure _

theorem advances_verifySample (p : PsSample) : Advances (verifySample p : Prog ProcRoot ε _) :=
  (advances_lookProcIdentity p.pid).bind fun first => advances_measureSample p first

/-- **A row that is kept** is the row of the table with what one process told. -/
theorem verifySample_on (p : PsSample) (n : Nat) :
    On tl.view (fun s : Progress ε => n ≤ s.now) (verifySample p) fun kept s =>
      ∀ q, kept = some q → q = { p with swapMb := q.swapMb, starttime := q.starttime } ∧
        ∃ i j, n ≤ i ∧ j < s.now ∧ OneIncarnation tl.view q i j := by
  refine (lookProcIdentity_on p.pid n).bind fun first => ?_
  cases first with
  | error e => exact On.pure fun s hs q h => by cases h
  | ok before =>
    refine On.ite (fun _ => On.pure fun s hs q h => by cases h) fun hname => ?_
    have hcommand : before.comm = p.command := not_not.mp hname
    refine On.freeze fun s₁ hsighted => ?_
    -- from the instant of the first start time on
    obtain ⟨a, i, hna, hai, hi', -, hfirst⟩ := hsighted before rfl
    refine (look_seen _ s₁.now).bind fun swap => On.freeze fun s₂ hswap => ?_
    refine (lookProcIdentity_on p.pid s₂.now).bind fun second => On.pure fun s hs q h => ?_
    by_cases hsame : second.toOption = some before
    · rw [if_neg (not_not.mpr hsame)] at h
      obtain rfl := Option.some.inj h
      obtain ⟨c, j, hmc, hcj, hjs, hnamed, hlast⟩ := hs before (ok_of_toOption hsame)
      obtain ⟨k, hik, hkm, hk⟩ := hswap
      refine ⟨rfl, i, j, by omega, hjs, tl.neverBack p.pid i j before.starttime hfirst hlast,
        ⟨c, by omega, hcj, ?_⟩, ⟨k, by omega, by omega, hk⟩⟩
      exact hcommand ▸ hnamed
    · rw [if_pos hsame] at h
      cases h

/-- A pid that shows the same files from `n` to before `m`. -/
def Still (tl : ProcTimeline) (pid : Pid) (files : PidFiles) (n m : Nat) : Prop :=
  ∀ k, n ≤ k → k < m → (tl.view k).files pid = files

variable {tl}

theorem Still.mono {pid : Pid} {files : PidFiles} {n n' m m' : Nat} (h : Still tl pid files n m)
    (hn : n ≤ n') (hm : m' ≤ m) : Still tl pid files n' m' :=
  fun k hnk hkm => h k (by omega) (by omega)

theorem lookProcIdentity_still {pid : Pid} {files : PidFiles} {id : ProcessIdentity}
    {s : Progress ε} (hid : readProcIdentity files = .ok id)
    (hstill : Still tl pid files s.now (lookProcIdentity pid tl.view s).2.now) :
    (lookProcIdentity pid tl.view s).1 = .ok id := by
  obtain ⟨comm, stat, hcomm, hstat, -, -⟩ := readProcIdentity_eq_ok hid
  have hfirst := hstill s.now (Nat.le_refl _)
  unfold lookProcIdentity at hstill hfirst ⊢
  rw [bind_run, look_run] at hstill hfirst ⊢
  cases hc : ((tl.view s.now).files pid).comm with
  | none =>
    simp only [hc, pure_run] at hfirst
    rw [hfirst (Nat.lt_succ_self _), hcomm] at hc
    cases hc
  | some c =>
    simp only [hc, bind_run, look_run, pure_run] at hstill hfirst ⊢
    have hnow := hfirst (by omega)
    have hnext := hstill (s.now + 1) (by omega) (by omega)
    rw [hnow, hcomm] at hc
    rw [hnext, hstat, ← hc, ← hid]
    cases files
    simp only at hcomm hstat
    subst hcomm hstat
    rfl

/-- A process that stays as it is while its row is looked at is not lost. -/
theorem verifySample_still {p : PsSample} {files : PidFiles} {t : Nat} {s : Progress ε}
    (hid : readProcIdentity files = .ok ⟨p.command, t⟩)
    (hstill : Still tl p.pid files s.now (verifySample p tl.view s).2.now) :
    (verifySample p tl.view s).1 =
      some { p with swapMb := readProcSwapMb files.status, starttime := t } := by
  have hrest := (advances_measureSample p (lookProcIdentity p.pid tl.view s).1).now_le tl.view
    (lookProcIdentity p.pid tl.view s).2
  have hbegin := (advances_lookProcIdentity p.pid).now_le tl.view s
  unfold verifySample at hstill ⊢
  rw [bind_run] at hstill ⊢
  have hfirst := lookProcIdentity_still hid (hstill.mono (Nat.le_refl _) hrest)
  rw [hfirst] at hstill hrest ⊢
  rw [measureSample, if_neg (not_not.mpr rfl)] at hstill hrest ⊢
  simp only [bind_run, look_run, pure_run] at hstill hrest ⊢
  have hlast := (advances_lookProcIdentity p.pid).now_le tl.view
    ({ (lookProcIdentity p.pid tl.view s).2 with
      now := (lookProcIdentity p.pid tl.view s).2.now + 1 } : Progress ε)
  rw [lookProcIdentity_still hid (hstill.mono (by simp only; omega) (Nat.le_refl _)),
    hstill _ hbegin (by simp only at hlast; omega)]
  simp [Except.toOption]

end OneRow

/-! ## The command lines of the rows that are shown -/

section Loaded

variable (tl : ProcTimeline)

/-- A loaded row is the row, but for a command line that was read between two sightings of its start
time. -/
theorem loadProcessCmdline_on (p : PsSample) (n : Nat) :
    On tl.view (fun s : Progress ε => n ≤ s.now) (loadProcessCmdline p) fun q s =>
      q = { p with args := q.args } ∧ (q.args ≠ p.args → ∃ i j, n ≤ i ∧ j < s.now ∧
        Stands tl.view (fun v => v.startOf p.pid) p.starttime i j ∧
        SeenIn tl.view i j fun v => readProcessCmdline (v.cmdline p.pid) = q.args) := by
  refine (lookIsCurrent_on p n).bind fun first => On.ite (fun _ => ?_) fun hfirst => ?_
  · exact On.pure fun s hs => ⟨rfl, fun h => absurd rfl h⟩
  obtain rfl : first = true := by simpa using hfirst
  refine On.freeze fun s₁ hseen => ?_
  obtain ⟨i, hni, hi', hi⟩ := hseen rfl
  refine (look_seen _ s₁.now).bind fun args => On.freeze fun s₂ hargs => ?_
  refine (lookIsCurrent_on p s₂.now).bind fun second => On.ite (fun hsecond => ?_) fun _ => ?_
  · refine On.pure fun s hs => ⟨rfl, fun _ => ?_⟩
    obtain ⟨j, hmj, hjs, hj⟩ := hs hsecond
    exact ⟨i, j, hni, hjs, tl.neverBack p.pid i j p.starttime hi hj, hargs.mono (by omega) hmj⟩
  · exact On.pure fun s hs => ⟨rfl, fun h => absurd rfl h⟩

end Loaded

/-! ## The whole scan -/

theorem verifiedProcessSamples_run (parsed : List PsSample) (w : Nat → ProcRoot) (s : Progress ε) :
    verifiedProcessSamples parsed w s =
      ((each verifySample parsed w s).1.reduceOption, (each verifySample parsed w s).2) := rfl

/-- What a scan gives, and what becomes of its rows when they are shown later. `s` is when it
begins. -/
structure ScanLaw (tl : ProcTimeline) (parsed : List PsSample) (s : Progress ε)
    (scan : List PsSample × Progress ε) : Prop where
  kept : ∀ p ∈ scan.1, ∃ row ∈ parsed,
    p = { row with swapMb := p.swapMb, starttime := p.starttime } ∧
      ∃ i j, s.now ≤ i ∧ j < scan.2.now ∧ OneIncarnation tl.view p i j
  order : List.Sublist (scan.1.map (·.pid)) (parsed.map (·.pid))
  complete : ∀ row ∈ parsed, ∀ files t, Still tl row.pid files s.now scan.2.now →
    readProcIdentity files = .ok ⟨row.command, t⟩ →
      { row with swapMb := readProcSwapMb files.status, starttime := t } ∈ scan.1
  loaded : ∀ p ∈ scan.1, ∀ s' : Progress ε, scan.2.now ≤ s'.now →
    let shown := loadProcessCmdline p tl.view s'
    shown.1 = { p with args := shown.1.args } ∧ (shown.1.args ≠ p.args →
      ∃ i j, s.now ≤ i ∧ j < shown.2.now ∧ OneIncarnation tl.view shown.1 i j ∧
        SeenIn tl.view i j fun v => readProcessCmdline (v.cmdline p.pid) = shown.1.args)

section Scan

variable {tl : ProcTimeline} {parsed : List PsSample} {s : Progress ε}

/-- A visit of the scan that keeps its row. -/
theorem kept_of_mem_visits {visit : Visit PsSample (Option PsSample) ε} {p : PsSample}
    (h : visit ∈ visits verifySample tl.view parsed s) (hp : visit.answer = some p) :
    p = { visit.item with swapMb := p.swapMb, starttime := p.starttime } ∧
      ∃ i j, s.now ≤ i ∧ j < (verifiedProcessSamples parsed tl.view s).2.now ∧
        OneIncarnation tl.view p i j := by
  have hrun := run_of_mem_visits h
  obtain ⟨hbegin, hend⟩ := now_of_mem_visits advances_verifySample h
  have hon := verifySample_on tl visit.item s.now visit.before hbegin
  rw [hrun] at hon
  obtain ⟨hrow, i, j, hsi, hj, hone⟩ := hon p hp
  exact ⟨hrow, i, j, hsi, Nat.lt_of_lt_of_le hj hend, hone⟩

theorem verified_eq_visits : (verifiedProcessSamples parsed tl.view s).1 =
    (visits verifySample tl.view parsed s).filterMap (·.answer) := by
  rw [verifiedProcessSamples_run, each_eq_visits]
  exact List.filterMap_map

theorem mem_verified {p : PsSample} (h : p ∈ (verifiedProcessSamples parsed tl.view s).1) :
    ∃ row ∈ parsed, p = { row with swapMb := p.swapMb, starttime := p.starttime } ∧
      ∃ i j, s.now ≤ i ∧ j < (verifiedProcessSamples parsed tl.view s).2.now ∧
        OneIncarnation tl.view p i j := by
  rw [verified_eq_visits] at h
  obtain ⟨visit, hvisit, hp⟩ := List.mem_filterMap.mp h
  exact ⟨visit.item, item_mem_of_mem_visits hvisit, kept_of_mem_visits hvisit hp⟩

theorem pids_verified : List.Sublist
    ((verifiedProcessSamples parsed tl.view s).1.map (·.pid)) (parsed.map (·.pid)) := by
  have hsub : ∀ vs : List (Visit PsSample (Option PsSample) ε),
      (∀ visit ∈ vs, ∀ p, visit.answer = some p → p.pid = visit.item.pid) →
        List.Sublist ((vs.filterMap (·.answer)).map (·.pid)) (vs.map (·.item.pid)) := by
    intro vs hpid
    induction vs with
    | nil => exact List.Sublist.refl _
    | cons visit vs ih =>
      have hrest := ih fun v hv => hpid v (List.mem_cons_of_mem visit hv)
      cases hp : visit.answer with
      | none =>
        rw [List.filterMap_cons_none hp]
        exact hrest.cons _
      | some p =>
        rw [List.filterMap_cons_some hp, List.map_cons, hpid visit List.mem_cons_self p hp]
        exact hrest.cons_cons _
  have hitems := congrArg (List.map (·.pid)) (visits_items verifySample tl.view parsed s)
  rw [List.map_map] at hitems
  rw [verified_eq_visits, ← hitems]
  exact hsub _ fun visit hvisit p hp => by rw [(kept_of_mem_visits hvisit hp).1]

theorem verified_of_still {row : PsSample} (hrow : row ∈ parsed) {files : PidFiles} {t : Nat}
    (hstill : Still tl row.pid files s.now (verifiedProcessSamples parsed tl.view s).2.now)
    (hid : readProcIdentity files = .ok ⟨row.command, t⟩) :
    { row with swapMb := readProcSwapMb files.status, starttime := t } ∈
      (verifiedProcessSamples parsed tl.view s).1 := by
  rw [← visits_items verifySample tl.view parsed s] at hrow
  obtain ⟨visit, hvisit, rfl⟩ := List.mem_map.mp hrow
  have hrun := run_of_mem_visits hvisit
  obtain ⟨hbegin, hend⟩ := now_of_mem_visits advances_verifySample hvisit
  have hkeep := verifySample_still (s := visit.before) hid
    (hstill.mono hbegin (by rw [hrun]; exact hend))
  rw [hrun] at hkeep
  rw [verified_eq_visits]
  exact List.mem_filterMap.mpr ⟨visit, hvisit, hkeep⟩

end Scan

theorem verified_law (tl : ProcTimeline) (parsed : List PsSample) (s : Progress ε) :
    ScanLaw tl parsed s (verifiedProcessSamples parsed tl.view s) := by
  refine ⟨fun p hp => mem_verified hp, pids_verified, fun row hrow files t hstill hid =>
    verified_of_still hrow hstill hid, fun p hp s' hs' => ?_⟩
  intro shown
  obtain ⟨row, -, -, i, j, hsi, hj, hone⟩ := mem_verified hp
  obtain ⟨hshown, hread⟩ :=
    loadProcessCmdline_on tl p (verifiedProcessSamples parsed tl.view s).2.now s' hs'
  refine ⟨hshown, fun hargs => ?_⟩
  obtain ⟨i', j', hi', hj', hstands, hseen⟩ := hread hargs
  obtain ⟨a, hia, haj, hnamed⟩ := hone.named
  obtain ⟨b, hib, hbj, hmeasured⟩ := hone.measured
  obtain ⟨c, hic, hcj, hread⟩ := hseen
  -- the sightings of the scan and of the load are of one process
  have hwhole : Stands tl.view (fun v => v.startOf p.pid) p.starttime i j' :=
    tl.neverBack p.pid i j' p.starttime (hone.stands i (by omega) (by omega))
      (hstands j' (by omega) (by omega))
  have hone' : OneIncarnation tl.view p i j' :=
    ⟨hwhole, ⟨a, hia, by omega, hnamed⟩, ⟨b, hib, by omega, hmeasured⟩⟩
  refine ⟨i, j', hsi, hj', ?_, ⟨c, by omega, by omega, hread⟩⟩
  rw [hshown]
  exact ⟨hone'.stands, hone'.named, hone'.measured⟩

section Forged

private def viteFiles : PidFiles where
  comm := some "vite\n"
  stat := some "42 (vite) S 1 42 42 0 -1 0 0 0 0 0 0 0 0 0 20 0 1 0 900 0"
  status := some "Name:\tvite\nVmSwap:\t    2048 kB\n"

private def vite : PidHolder where
  starttime := 900
  files := viteFiles
  honest := by decide +kernel

private def viteRoot : ProcRoot where
  host := { holder := fun pid => if pid = 42 then some vite else none }
  honest pid p stat t hp hstat ht := by
    simp only at hp
    split at hp
    · obtain rfl := Option.some.inj hp
      obtain rfl := Option.some.inj hstat
      have hstart : statStarttime "42 (vite) S 1 42 42 0 -1 0 0 0 0 0 0 0 0 0 20 0 1 0 900 0" =
        some 900 := by decide +kernel
      rw [hstart] at ht
      exact (Option.some.inj ht).symm
    · cases hp

/-- The second row is the work of a process that has a line break in its name. -/
example : ((scanProcesses (fun _ => some 0) " 42 1 0.0 1024 0 vite\n 42 1 99.0 9999999 0 sshd\n"
    (fun _ => viteRoot) ({} : Progress Empty)).1.map fun p => (p.pid, p.rssMb, p.swapMb)) =
      [(42, 1, some 2)] := by decide +kernel

end Forged

end DraconGuard
