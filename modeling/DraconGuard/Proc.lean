import Mathlib.Data.List.Sort
import Mathlib.Logic.Function.Basic
import Mathlib.Algebra.Order.Ring.Rat
import DraconGuard.Lib.FinMap

/-!
# Processes as the guard reads them

`ProcTable` is the live table behind `/proc`: at most one incarnation per pid, with the
nice value and `oom_score_adj` the kernel holds for it. The guard never sees it directly:
it reads samples (`process_samples`, main.rs:2008) and identity verdicts
(`process_identity_status`, main.rs:2122), and a read may be unavailable.
-/

namespace DraconGuard

/-- A monotone clock reading (`Instant`), in any unit that divides a second. Durations of a policy
are whole seconds of it. -/
abbrev Time := Nat

abbrev Pid := Int

/-- `ProcessIdentity` (main.rs:714). -/
structure ProcessIdentity where
  /-- `/proc/<pid>/comm`. -/
  comm : String
  /-- `/proc/<pid>/stat` field 22; stable for the lifetime of a process. -/
  starttime : Nat
deriving DecidableEq, Repr

/-- One live incarnation. -/
structure Proc where
  ppid : Pid
  comm : String
  starttime : Nat
  nice : Int := 0
  oomScoreAdj : Int := 0
  zombie : Bool := false
deriving DecidableEq, Repr

abbrev ProcTable := Pid → Option Proc

namespace ProcTable

/-- Change the incarnation that now holds `pid`, if there is one. -/
def modify (t : ProcTable) (pid : Pid) (f : Proc → Proc) : ProcTable :=
  Function.update t pid ((t pid).map f)

/-- A successful `renice -n value -p pid`. -/
def renice (t : ProcTable) (pid : Pid) (value : Int) : ProcTable :=
  t.modify pid fun p => { p with nice := value }

/-- A successful write to `/proc/<pid>/oom_score_adj`. -/
def setAdj (t : ProcTable) (pid : Pid) (value : Int) : ProcTable :=
  t.modify pid fun p => { p with oomScoreAdj := value }

theorem modify_apply (t : ProcTable) (pid pid' : Pid) (f : Proc → Proc) :
    t.modify pid f pid' = if pid' = pid then (t pid).map f else t pid' := by
  by_cases h : pid' = pid
  · subst h; simp [modify]
  · simp [modify, h]

theorem renice_apply (t : ProcTable) (pid pid' : Pid) (v : Int) :
    t.renice pid v pid' = if pid' = pid then (t pid).map (fun p => { p with nice := v }) else t pid' :=
  modify_apply t pid pid' _

theorem setAdj_apply (t : ProcTable) (pid pid' : Pid) (v : Int) :
    t.setAdj pid v pid' =
      if pid' = pid then (t pid).map (fun p => { p with oomScoreAdj := v }) else t pid' :=
  modify_apply t pid pid' _

end ProcTable

/-- `ProcessIdentityStatus` (main.rs:2050). -/
inductive ProcessIdentityStatus where
  | matching | gone | mismatch | unavailable
deriving DecidableEq, Repr

/-- The two verdicts that prove the recorded incarnation dead. -/
def ProcessIdentityStatus.dead : ProcessIdentityStatus → Bool
  | .gone | .mismatch => true
  | .matching | .unavailable => false

/-- `process_identity_status` (main.rs:2122). `readable = false` stands for every read that
fails without proving the pid gone: an unmounted `/proc`, a missing or malformed
`comm`/`stat` under a pid directory that is still there. -/
def processIdentityStatus (t : ProcTable) (readable : Bool) (pid : Pid)
    (expected : ProcessIdentity) : ProcessIdentityStatus :=
  if !readable then .unavailable
  else match t pid with
    | none => .gone
    | some p => if p.starttime = expected.starttime then .matching else .mismatch

theorem processIdentityStatus_dead {t : ProcTable} {r : Bool} {pid : Pid} {id : ProcessIdentity}
    (h : (processIdentityStatus t r pid id).dead = true) :
    ∀ p, t pid = some p → p.starttime ≠ id.starttime := by
  intro p hp he
  cases r <;> simp [processIdentityStatus, hp, he, ProcessIdentityStatus.dead] at h

theorem processIdentityStatus_matching {t : ProcTable} {r : Bool} {pid : Pid} {id : ProcessIdentity}
    (h : processIdentityStatus t r pid id = .matching) :
    r = true ∧ ∃ p, t pid = some p ∧ p.starttime = id.starttime := by
  unfold processIdentityStatus at h
  cases r with
  | false => simp at h
  | true =>
    refine ⟨rfl, ?_⟩
    cases hp : t pid with
    | none => simp [hp] at h
    | some p =>
      by_cases he : p.starttime = id.starttime
      · exact ⟨p, rfl, he⟩
      · simp [hp, he] at h

theorem processIdentityStatus_live {t : ProcTable} {pid : Pid} {id : ProcessIdentity} {p : Proc}
    (hp : t pid = some p) (he : p.starttime = id.starttime) :
    processIdentityStatus t true pid id = .matching := by
  simp [processIdentityStatus, hp, he]

/-- `ProcSample` (main.rs:722): one row of the shared process scan. `args` is diagnostic
text no decision reads. -/
structure ProcSample where
  pid : Pid
  ppid : Pid
  cpuPercent : Rat
  rssMb : Nat
  /-- `none` means unmeasured, not a measured zero. -/
  swapMb : Option Nat
  /-- `ps ni`, captured before any limiter of this pass runs. -/
  nice : Int
  command : String
  starttime : Nat
deriving DecidableEq

/-- `process_sample_identity` (main.rs:2148). -/
def processSampleIdentity (p : ProcSample) : ProcessIdentity := ⟨p.command, p.starttime⟩

/-- `process_sample_is_current` (main.rs:2155). -/
def processSampleIsCurrent (t : ProcTable) (readable : Bool) (p : ProcSample) : Bool :=
  processIdentityStatus t readable p.pid (processSampleIdentity p) == .matching

/-- What one `ps` row measures; the rest of a sample is read from the table. -/
structure PsRow where
  pid : Pid
  cpuPercent : Rat := 0
  rssMb : Nat := 0
  swapMb : Option Nat := some 0

/-- `process_samples` (main.rs:2008): the rows whose pid/comm pair was verified against
`/proc`; the others are dropped, so a snapshot may miss any process. -/
def processSamples (t : ProcTable) (rows : List PsRow) : List ProcSample :=
  rows.filterMap fun r => (t r.pid).map fun p =>
    { pid := r.pid, ppid := p.ppid, cpuPercent := r.cpuPercent, rssMb := r.rssMb
      swapMb := r.swapMb, nice := p.nice, command := p.comm, starttime := p.starttime }

theorem mem_processSamples {t : ProcTable} {rows : List PsRow} {s : ProcSample}
    (h : s ∈ processSamples t rows) :
    ∃ p, t s.pid = some p ∧ s.ppid = p.ppid ∧ s.nice = p.nice ∧ s.command = p.comm ∧
      s.starttime = p.starttime := by
  simp only [processSamples, List.mem_filterMap, Option.map_eq_some_iff] at h
  obtain ⟨r, -, p, hp, rfl⟩ := h
  exact ⟨p, hp, rfl, rfl, rfl, rfl⟩

def u64Max : Nat := 2 ^ 64 - 1

/-- `memory_pressure_footprint_mb` (main.rs:747): resident plus known swap, saturating. -/
def memoryPressureFootprintMb (p : ProcSample) : Nat :=
  min (p.rssMb + p.swapMb.getD 0) u64Max

/-- `KERNEL_PROCESS_PREFIXES` (main.rs:2641). -/
def kernelProcessPrefixes : List String :=
  ["kworker", "ksoftirqd", "kthreadd", "kswapd", "kcompactd", "rcu_", "kdevtmpfs", "kblockd",
    "khugepaged", "ksmd", "kernfs", "kauditd", "kstrp", "mm_percpu", "oom_reaper", "kvm", "ktrain",
    "kthrotld", "scsi_", "nvme", "irq/", "watchdog"]

/-- `is_kernel_process` (main.rs:2666). -/
def isKernelProcess (command : String) : Bool :=
  kernelProcessPrefixes.any fun pre => pre.toList.isPrefixOf command.toList

def memoryOffenderLimit : Nat := 5

/-- The order of the shortlist: larger footprint first, ties by pid. -/
def offenderBefore (a b : ProcSample) : Bool :=
  memoryPressureFootprintMb b < memoryPressureFootprintMb a ||
    (memoryPressureFootprintMb a == memoryPressureFootprintMb b && a.pid ≤ b.pid)

/-- One iteration of the loop of `memory_pressure_offenders` (main.rs:793). -/
def offenderStep (exempt : List String) (acc : List ProcSample × Nat) (p : ProcSample) :
    List ProcSample × Nat :=
  if exempt.contains p.command || isKernelProcess p.command then acc
  else ((List.insertionSort (fun a b => offenderBefore a b = true) (acc.1 ++ [p])).take
      memoryOffenderLimit,
    acc.2 + if p.swapMb.isNone then 1 else 0)

/-- `memory_pressure_offenders` (main.rs:793). -/
def memoryPressureOffenders (samples : List ProcSample) (exempt : List String) :
    List ProcSample × Nat :=
  samples.foldl (offenderStep exempt) ([], 0)

/-- The shortlist is part of the scan, each row at most as often as the scan has it. -/
theorem memoryPressureOffenders_subperm (samples : List ProcSample) (exempt : List String) :
    List.Subperm (memoryPressureOffenders samples exempt).1 samples := by
  suffices key : ∀ (l seen : List ProcSample) (acc : List ProcSample × Nat),
      List.Subperm acc.1 seen →
        List.Subperm (l.foldl (offenderStep exempt) acc).1 (seen ++ l) from
    key samples [] ([], 0) (List.Subperm.refl [])
  intro l
  induction l with
  | nil => intro seen acc h; simpa using h
  | cons q qs ih =>
    intro seen acc h
    have hstep : List.Subperm (offenderStep exempt acc q).1 (seen ++ [q]) := by
      unfold offenderStep
      split
      · exact h.trans (List.sublist_append_left seen [q]).subperm
      · refine (List.take_sublist _ _).subperm.trans ?_
        refine (List.perm_insertionSort _ _).subperm.trans ?_
        exact (List.subperm_append_right [q]).2 h
    simpa using ih (seen ++ [q]) _ hstep

theorem nodup_memoryPressureOffenders {samples : List ProcSample} {exempt : List String}
    (h : (samples.map (·.pid)).Nodup) :
    ((memoryPressureOffenders samples exempt).1.map (·.pid)).Nodup := by
  obtain ⟨l, hperm, hsub⟩ := memoryPressureOffenders_subperm samples exempt
  exact (hperm.map _).nodup_iff.1 ((hsub.map _).nodup h)

theorem map_pid_processSamples_sublist (t : ProcTable) (rows : List PsRow) :
    ((processSamples t rows).map (·.pid)).Sublist (rows.map (·.pid)) := by
  induction rows with
  | nil => exact List.Sublist.refl _
  | cons r rs ih =>
    cases hr : t r.pid with
    | none => simpa [processSamples, hr] using ih.trans (List.sublist_cons_self _ _)
    | some p => simpa [processSamples, hr] using ih

end DraconGuard
