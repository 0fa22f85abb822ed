import DraconGuard.Guard.ReloadLaw
import DraconGuard.Guard.SameOriginals
import DraconGuard.Lib.Journal

/-!
# The loop of the daemon

`cmd_guard_daemon` (main.rs:12105-12302) with the signals that interrupt it. Their handlers set
flags, at any moment; the loop reads them where it does.

| here | there |
| --- | --- |
| `Point.restoreFirst`, `.persistFirst` | main.rs:12172-12173, after the hydration of `guardStart` |
| `Point.head` | the condition of the loop and the hydration under it (12174-12177) |
| `Point.flag`, `.clear`, `.load` | the reload flag, its reset, `load_system_policy` (12178-12180) |
| `Point.adopt` | the restore, `apply_policy_reload` and what follows (12194-12238) |
| `Point.pass` | `run_guard_once` (12260) |
| `Point.sleep` | the inner loop, with its `elapsed` (12284-12288) |
| `Point.restoreLast`, `.persistLast` | main.rs:12296-12299 |
| `.sighup`, `.stopSignal` | the handlers (12128-12157); SIGTERM and SIGINT do the same |

`guardStep` has the steps of a daemon in any order. The loop takes them in its own (`loop_refines`),
so whatever holds in every run of `guardStep` holds here. `managed_oom::drain` works on files of its
own. A first run that is refused the lock, or disabled, does not come to the loop.
-/

namespace DraconGuard

open Journal

section Loop

/-- What the loop reads of a policy. -/
structure PolicyReading (π : Type) where
  enabled : π → Bool
  intervalSecs : π → Nat
  normalize : π → π
  memory : π → MemoryPolicy

variable {π : Type} (r : PolicyReading π)

inductive Point (π : Type) where
  | restoreFirst
  | persistFirst
  | head
  | flag
  | clear
  | load
  | adopt (new : π)
  | pass
  | sleep (elapsed : Nat)
  | restoreLast
  | persistLast
  | done
deriving DecidableEq

/-- What is noted of a run; the code keeps no such log. -/
inductive Note (π : Type) where
  | sighup
  | stopSignal
  /-- Another turn of the loop: no stop signal was seen. -/
  | entered
  /-- The reload flag was looked at. -/
  | looked
  /-- The policy file was read, if that went well. -/
  | loaded (new : Option π)
  | restored (all : Bool)
  | adopted (policy : π)
  | passed (policy : π)
  | slept
  | persisted
deriving DecidableEq

structure GuardLoop (π : Type) where
  point : Point π
  guard : π
  interval : Nat
  reload : Bool := false
  shutdown : Bool := false
  world : PressureWorld
  log : List (Note π) := []

/-- What the outside answers a step, each of which asks for a part of it. -/
structure LoopAnswer (π : Type) where
  hydrate : HydrateEnv
  readable : Bool
  /-- `load_system_policy`; none is an error. -/
  loaded : Option π
  restore : RuntimeRestoreEnv
  pass : GuardPass
  persist : PersistEnv

inductive LoopInput (π : Type) where
  | sighup
  | stopSignal
  /-- The processes of the host change. -/
  | processes (t : ProcTable)
  | go (a : LoopAnswer π)

/-- A pass under the policy that is live. -/
def LoopAnswer.passUnder (a : LoopAnswer π) (guard : π) : GuardPass :=
  { a.pass with policy := r.memory guard }

/-- The events of `guardStep` that a step is. -/
def GuardLoop.events (l : GuardLoop π) (a : LoopAnswer π) : List GuardEvent :=
  match l.point with
  | .restoreFirst | .restoreLast => [.restore a.restore]
  | .persistFirst | .persistLast => [.persist a.persist]
  | .head => if l.shutdown then [] else [.hydrate a.hydrate a.readable]
  | .adopt new => [.reload a.restore (r.enabled new)]
  | .pass => [.pass (a.passUnder r l.guard)]
  | .flag | .clear | .load | .sleep _ | .done => []

/-- The reload of a policy that was read. -/
def GuardLoop.adopt (l : GuardLoop π) (a : LoopAnswer π) (new : π) : GuardLoop π :=
  let restored := restoreRuntimeAdjustments a.restore l.world.toOomWorld
  let (guard, runtime, outcome) :=
    applyPolicyReload r.enabled r.normalize l.guard restored.1.state new restored.2
  let reset := restored.2 && !restored.1.state.mitigationLedgerUnavailable
  let l := { l with
    guard := guard
    world := { l.world with
      toOomWorld := { restored.1 with state := runtime }
      hysteresis := if reset then {} else l.world.hysteresis } }
  match outcome with
  | .deferred => { l with point := .head, log := .restored restored.2 :: l.log }
  | .applied =>
    { l with
      interval := r.intervalSecs guard
      point := if r.enabled guard then .pass else .restoreLast
      log := .adopted guard :: .restored restored.2 :: l.log }

/-- One step of the loop itself. -/
def GuardLoop.go (l : GuardLoop π) (a : LoopAnswer π) : GuardLoop π :=
  match l.point with
  | .restoreFirst =>
    let restored := restoreRuntimeAdjustments a.restore l.world.toOomWorld
    { l with
      point := .persistFirst
      world := { l.world with toOomWorld := restored.1 }, log := .restored restored.2 :: l.log }
  | .persistFirst =>
    { l with
      point := .head
      world := { l.world with toOomWorld := (l.world.toOomWorld.persist a.persist).1 }
      log := .persisted :: l.log }
  | .head =>
    if l.shutdown then { l with point := .restoreLast }
    else
      { l with
        point := .flag
        world :=
          if l.world.state.mitigationLedgerUnavailable then
            { l.world with
              state := hydrateMitigationsFrom l.world.table a.hydrate l.world.state
                (l.world.disk.readIf a.readable) }
          else l.world
        log := .entered :: l.log }
  | .flag => { l with point := if l.reload then .clear else .pass, log := .looked :: l.log }
  | .clear => { l with point := .load, reload := false }
  | .load =>
    { l with
      -- a file that cannot be read leaves the previous policy live
      point := match a.loaded with
        | some new => .adopt new
        | none => .pass
      log := .loaded a.loaded :: l.log }
  | .adopt new => l.adopt r a new
  | .pass =>
    { l with
      point := .sleep 0
      world := guardPass l.world (a.passUnder r l.guard)
      log := .passed l.guard :: l.log }
  | .sleep elapsed =>
    if !l.shutdown && elapsed < l.interval then
      { l with point := .sleep (elapsed + 1), log := .slept :: l.log }
    else { l with point := .head }
  | .restoreLast =>
    let restored := restoreRuntimeAdjustments a.restore l.world.toOomWorld
    { l with
      point := .persistLast
      world := { l.world with toOomWorld := restored.1 }, log := .restored restored.2 :: l.log }
  | .persistLast =>
    { l with
      point := .done
      world := { l.world with toOomWorld := (l.world.toOomWorld.persist a.persist).1 }
      log := .persisted :: l.log }
  | .done => l

def loopStep (l : GuardLoop π) : LoopInput π → GuardLoop π
  | .sighup => { l with reload := true, log := .sighup :: l.log }
  | .stopSignal => { l with shutdown := true, log := .stopSignal :: l.log }
  | .processes t => { l with world := { l.world with table := t } }
  | .go a => l.go r a

/-- The daemon when it has the lock and has hydrated. -/
def loopStart (guard : π) (world : PressureWorld) : GuardLoop π where
  point := .restoreFirst
  guard := guard
  interval := r.intervalSecs guard
  world := world

/-! ## Every step is a step of a daemon -/

theorem applyPolicyReload_runtime (guard new : π) (runtime : GuardRuntimeState) (restored : Bool) :
    (applyPolicyReload r.enabled r.normalize guard runtime new restored).2.1 =
      (applyPolicyReload id id true runtime (r.enabled new) restored).2.1 := by
  simp only [applyPolicyReload, id_eq]
  split <;> rfl

theorem GuardLoop.adopt_world (l : GuardLoop π) (a : LoopAnswer π) (new : π) :
    (l.adopt r a new).world = guardStep l.world (.reload a.restore (r.enabled new)) := by
  have hruntime := applyPolicyReload_runtime r l.guard new
    (restoreRuntimeAdjustments a.restore l.world.toOomWorld).1.state
    (restoreRuntimeAdjustments a.restore l.world.toOomWorld).2
  simp only [adopt, guardStep, ← hruntime]
  split <;> rfl

theorem GuardLoop.go_world (l : GuardLoop π) (a : LoopAnswer π) :
    (l.go r a).world = Runs.exec guardStep l.world (l.events r a) := by
  unfold go events
  cases l.point with
  | adopt new => exact l.adopt_world r a new
  | head =>
    cases hstop : l.shutdown <;> rfl
  | sleep elapsed =>
    simp only []
    split <;> rfl
  | restoreFirst | persistFirst | flag | clear | load | pass | restoreLast | persistLast
  | done => rfl

/-- **The loop refines the daemon of `guardStep`.** -/
theorem loop_refines (l : GuardLoop π) (is : List (LoopInput π)) :
    ∃ es, (Runs.exec (loopStep r) l is).world = Runs.exec guardStep l.world es := by
  induction is generalizing l with
  | nil => exact ⟨[], rfl⟩
  | cons i is ih =>
    obtain ⟨es, hes⟩ := ih (loopStep r l i)
    rw [Runs.exec_cons, hes]
    cases i with
    | sighup | stopSignal => exact ⟨es, rfl⟩
    | processes t => exact ⟨.processes t :: es, rfl⟩
    | go a =>
      refine ⟨l.events r a ++ es, ?_⟩
      rw [Runs.exec_append, ← l.go_world r a]
      rfl

/-- **In every state of the loop a restore is honest**: if it says that nothing is left, everything
owed before it is settled, and a reload that follows it keeps what is not. -/
theorem loop_restores_honestly (guard : π) (t : ProcTable) (disk : LedgerDisk) (env : HydrateEnv)
    (readable : Bool) (is : List (LoopInput π)) (renv : RuntimeRestoreEnv) :
    HonestRestore renv
      (Runs.exec (loopStep r)
        (loopStart r guard (guardStart t disk env readable)) is).world.toOomWorld := by
  obtain ⟨es, hes⟩ := loop_refines r (loopStart r guard (guardStart t disk env readable)) is
  rw [hes]
  exact honestRestore_of (Runs.Always.last es (sameOriginals_always t disk env readable es))

/-! ## The log -/

/-- The policy adopted last, the first one if none was. -/
def live (first : π) : List (Note π) → π
  | [] => first
  | .adopted policy :: _ => policy
  | _ :: older => live first older

/-- What the last load read. -/
def lastLoaded : List (Note π) → Option π
  | [] => none
  | .loaded new :: _ => new
  | _ :: older => lastLoaded older

/-- Is a SIGHUP without a load after it, and if so, was the flag looked at since the first such? -/
def owed : List (Note π) → Option Bool
  | [] => none
  | .loaded _ :: _ => none
  | .sighup :: older => some ((owed older).getD false)
  | .looked :: older => (owed older).map fun _ => true
  | _ :: older => owed older

/-- The policy of the last pass, and the seconds slept since. -/
def sleepsSince : List (Note π) → Option (π × Nat)
  | [] => none
  | .passed policy :: _ => some (policy, 0)
  | .slept :: older => (sleepsSince older).map fun last => (last.1, last.2 + 1)
  | _ :: older => sleepsSince older

def Note.isSignal : Note π → Bool
  | .sighup | .stopSignal => true
  | _ => false

def Note.isSlept : Note π → Bool
  | .slept => true
  | _ => false

/-- The log of the loop alone. -/
def quiet (log : List (Note π)) : List (Note π) := log.filter fun note => !note.isSignal

/-- The last pass is an interval of its policy ago. -/
def Paced (log : List (Note π)) : Prop :=
  ∀ policy slept, sleepsSince log = some (policy, slept) → r.intervalSecs policy ≤ slept

/-- What holds of a note, after the notes before it. -/
def NoteLaw (first : π) : Note π → List (Note π) → Prop
  | .entered, older => Note.stopSignal ∉ older
  | .adopted policy, older => ∃ all new rest, older = .restored all :: rest ∧
      lastLoaded rest = some new ∧ policy = r.normalize new ∧ (r.enabled new = true → all = true)
  | .passed policy, older => policy = live first older ∧ r.enabled policy = true ∧
      owed older ≠ some true ∧ Paced r older
  | _, _ => True

/-- What the log says of each point. -/
def AtPoint (l : GuardLoop π) : Prop :=
  match l.point with
  | .restoreFirst | .persistFirst => sleepsSince l.log = none
  | .head => l.shutdown = true ∨ Paced r l.log
  | .flag | .clear | .load | .pass => Paced r l.log
  | .adopt new => Paced r l.log ∧ lastLoaded l.log = some new
  | .sleep elapsed => sleepsSince l.log = some (l.guard, elapsed)
  | .restoreLast => True
  | .persistLast => ∃ all rest, quiet l.log = .restored all :: rest
  | .done => ∃ all rest, quiet l.log = .persisted :: .restored all :: rest

/-- The guard is on its way out. -/
def Point.leaving : Point π → Bool
  | .restoreLast | .persistLast | .done => true
  | _ => false

structure LoopInv (first : π) (l : GuardLoop π) : Prop where
  guard : l.guard = live first l.log
  interval : l.interval = r.intervalSecs l.guard
  enabled : l.point.leaving = false → r.enabled l.guard = true
  stop : l.shutdown = true ↔ Note.stopSignal ∈ l.log
  unseen : owed l.log = some false → l.reload = true ∨ l.point = .load
  seen : owed l.log = some true → l.point = .clear ∨ l.point = .load
  atPoint : AtPoint r l

variable {r} {first : π} {l : GuardLoop π}

/-! ### Signals -/

theorem LoopInv.sighup (h : LoopInv r first l) : LoopInv r first (loopStep r l .sighup) where
  guard := h.guard
  interval := h.interval
  enabled := h.enabled
  stop := by simpa [loopStep] using h.stop
  unseen _ := Or.inl rfl
  seen hseen := by
    have howed : owed l.log = some true := by
      cases howed : owed l.log <;> simp [loopStep, owed, howed] at hseen
      rw [hseen]
    exact h.seen howed
  atPoint := by
    have hat := h.atPoint
    unfold AtPoint at hat ⊢
    exact hat

theorem LoopInv.stopSignal (h : LoopInv r first l) :
    LoopInv r first (loopStep r l .stopSignal) where
  guard := h.guard
  interval := h.interval
  enabled := h.enabled
  stop := by simp [loopStep]
  unseen := h.unseen
  seen := h.seen
  atPoint := by
    have hat := h.atPoint
    unfold AtPoint at hat ⊢
    simp only [loopStep]
    cases hpoint : l.point with
    | head => exact Or.inl trivial
    | restoreFirst | persistFirst | flag | clear | load | adopt | pass | sleep | restoreLast
    | persistLast | done =>
      rw [hpoint] at hat
      exact hat

/-! ### Steps -/

/-- Where no load is due. -/
def Point.calm : Point π → Bool
  | .clear | .load => false
  | _ => true

theorem LoopInv.calm (h : LoopInv r first l) (hcalm : l.point.calm = true) :
    (owed l.log = some false → l.reload = true) ∧ owed l.log ≠ some true := by
  have hload : l.point ≠ .load := fun heq => by rw [heq] at hcalm; cases hcalm
  have hclear : l.point ≠ .clear := fun heq => by rw [heq] at hcalm; cases hcalm
  exact ⟨fun howed => (h.unseen howed).resolve_right hload,
    fun howed => (h.seen howed).elim hclear hload⟩

/-- A step from such a point that notes nothing. -/
theorem LoopInv.move (h : LoopInv r first l) (hcalm : l.point.calm = true) {point : Point π}
    (hleaving : point.leaving = false → l.point.leaving = false)
    (hat : AtPoint r { l with point := point }) : LoopInv r first { l with point := point } where
  guard := h.guard
  interval := h.interval
  enabled hrun := h.enabled (hleaving hrun)
  stop := h.stop
  unseen howed := Or.inl ((h.calm hcalm).1 howed)
  seen howed := absurd howed (h.calm hcalm).2
  atPoint := hat

/-- Notes that are neither about signals nor about the reload. -/
def Note.plain : Note π → Bool
  | .entered | .restored _ | .passed _ | .slept | .persisted => true
  | _ => false

/-- A step from such a point with a note of this kind. -/
theorem LoopInv.note (h : LoopInv r first l) (hcalm : l.point.calm = true) {point : Point π}
    {world : PressureWorld} {note : Note π} (hplain : note.plain = true)
    (hleaving : point.leaving = false → l.point.leaving = false)
    (hat : AtPoint r { l with point := point, world := world, log := note :: l.log }) :
    LoopInv r first { l with point := point, world := world, log := note :: l.log } := by
  have hlive : live first (note :: l.log) = live first l.log := by
    cases note <;> first | rfl | cases hplain
  have howed : owed (note :: l.log) = owed l.log := by
    cases note <;> first | rfl | cases hplain
  have hstop : Note.stopSignal ∈ note :: l.log ↔ Note.stopSignal ∈ l.log := by
    cases note <;> first | exact absurd hplain Bool.false_ne_true | simp
  exact {
    guard := h.guard.trans hlive.symm
    interval := h.interval
    enabled := fun hrun => h.enabled (hleaving hrun)
    stop := h.stop.trans hstop.symm
    unseen := fun hunseen => Or.inl ((h.calm hcalm).1 (howed ▸ hunseen))
    seen := fun hseen => absurd (howed ▸ hseen) (h.calm hcalm).2
    atPoint := hat }

/-- The flag is looked at. -/
theorem LoopInv.look (h : LoopInv r first l) (hpoint : l.point = .flag) (a : LoopAnswer π) :
    LoopInv r first (l.go r a) := by
  have hcalm := h.calm (by rw [hpoint]; rfl)
  have hpaced : Paced r l.log := by
    have hat := h.atPoint
    unfold AtPoint at hat
    rwa [hpoint] at hat
  have henabled := h.enabled (by rw [hpoint]; rfl)
  simp only [GuardLoop.go, hpoint]
  constructor
  · exact h.guard
  · exact h.interval
  · exact fun _ => henabled
  · simpa using h.stop
  · intro howed
    cases hlog : owed l.log <;> simp [owed, hlog] at howed
  · intro howed
    -- a SIGHUP that no look has followed has set the flag
    have hset : l.reload = true := by
      cases hlog : owed l.log with
      | none => simp [owed, hlog] at howed
      | some seen =>
        cases seen with
        | false => exact hcalm.1 hlog
        | true => exact absurd hlog hcalm.2
    exact Or.inl (if_pos hset)
  · unfold AtPoint
    cases hset : l.reload <;> exact hpaced

/-- The flag is reset, and the file read after it. -/
theorem LoopInv.clear (h : LoopInv r first l) (hpoint : l.point = .clear) (a : LoopAnswer π) :
    LoopInv r first (l.go r a) := by
  have hpaced : Paced r l.log := by
    have hat := h.atPoint
    unfold AtPoint at hat
    rwa [hpoint] at hat
  have henabled := h.enabled (by rw [hpoint]; rfl)
  simp only [GuardLoop.go, hpoint]
  exact ⟨h.guard, h.interval, fun _ => henabled, h.stop, fun _ => Or.inr rfl, fun _ => Or.inr rfl,
    hpaced⟩

theorem LoopInv.load (h : LoopInv r first l) (hpoint : l.point = .load) (a : LoopAnswer π) :
    LoopInv r first (l.go r a) := by
  have hpaced : Paced r l.log := by
    have hat := h.atPoint
    unfold AtPoint at hat
    rwa [hpoint] at hat
  have henabled := h.enabled (by rw [hpoint]; rfl)
  simp only [GuardLoop.go, hpoint]
  refine ⟨h.guard, h.interval, fun _ => henabled, by simpa using h.stop, nofun, nofun, ?_⟩
  unfold AtPoint
  cases hloaded : a.loaded with
  | none => exact hpaced
  | some new => exact ⟨hpaced, rfl⟩

/-- What a reload does, and what it notes. -/
theorem GuardLoop.adopt_cases (l : GuardLoop π) (a : LoopAnswer π) (new : π) :
    (∃ world all, l.adopt r a new = { l with
        point := .head, world := world, log := .restored all :: l.log }) ∨
      ∃ world all, (r.enabled new = true → all = true) ∧ l.adopt r a new = { l with
        point := if r.enabled (r.normalize new) then .pass else .restoreLast
        guard := r.normalize new, interval := r.intervalSecs (r.normalize new), world := world
        log := .adopted (r.normalize new) :: .restored all :: l.log } := by
  unfold adopt
  generalize restoreRuntimeAdjustments a.restore l.world.toOomWorld = restored
  obtain ⟨w, all⟩ := restored
  by_cases hkeep : ((!all || w.state.mitigationLedgerUnavailable) && !!r.enabled new) = true
  · refine Or.inl ⟨{ l.world with
      toOomWorld := w
      hysteresis := if all && !w.state.mitigationLedgerUnavailable then {} else
        l.world.hysteresis }, all, ?_⟩
    simp only [applyPolicyReload, if_pos hkeep]
  · refine Or.inr ⟨{ l.world with
      toOomWorld := { w with state :=
        if all && !w.state.mitigationLedgerUnavailable then
          { persistMitigations := w.state.persistMitigations }
        else w.state }
      hysteresis := if all && !w.state.mitigationLedgerUnavailable then {} else
        l.world.hysteresis }, all, ?_, ?_⟩
    · intro henabled
      cases all with
      | true => rfl
      | false => simp [henabled] at hkeep
    · simp only [applyPolicyReload, if_neg hkeep]

theorem LoopInv.adopt (h : LoopInv r first l) {new : π} (hpoint : l.point = .adopt new)
    (a : LoopAnswer π) (hlog : Obeyed (NoteLaw r first) l.log) :
    LoopInv r first (l.go r a) ∧ Obeyed (NoteLaw r first) (l.go r a).log := by
  have hcalm : l.point.calm = true := by rw [hpoint]; rfl
  obtain ⟨hpaced, hloaded⟩ : Paced r l.log ∧ lastLoaded l.log = some new := by
    have hat := h.atPoint
    unfold AtPoint at hat
    rwa [hpoint] at hat
  have hgo : l.go r a = l.adopt r a new := by
    unfold GuardLoop.go
    rw [hpoint]
  rw [hgo]
  rcases l.adopt_cases a new with ⟨world, all, heq⟩ | ⟨world, all, hall, heq⟩
  · rw [heq]
    refine ⟨h.note hcalm rfl (fun _ => by rw [hpoint]; rfl) (Or.inr hpaced), trivial, hlog⟩
  · rw [heq]
    constructor
    · refine ⟨rfl, rfl, ?_, by simpa using h.stop, fun howed => Or.inl ((h.calm hcalm).1 howed),
        fun howed => absurd howed (h.calm hcalm).2, ?_⟩
      · intro hrun
        by_contra hdisabled
        simp [hdisabled, Point.leaving] at hrun
      · unfold AtPoint
        cases henabled : r.enabled (r.normalize new) with
        | false => trivial
        | true => exact hpaced
    · exact ⟨⟨all, new, l.log, rfl, hloaded, rfl, hall⟩, trivial, hlog⟩

/-- **One step of the loop.** -/
theorem LoopInv.go (h : LoopInv r first l) (a : LoopAnswer π)
    (hlog : Obeyed (NoteLaw r first) l.log) :
    LoopInv r first (l.go r a) ∧ Obeyed (NoteLaw r first) (l.go r a).log := by
  have hat := h.atPoint
  unfold AtPoint at hat
  cases hpoint : l.point with
  | restoreFirst =>
    simp only [GuardLoop.go, hpoint] at hat ⊢
    exact ⟨h.note (by rw [hpoint]; rfl) rfl (fun _ => by rw [hpoint]; rfl) hat, trivial, hlog⟩
  | persistFirst =>
    simp only [GuardLoop.go, hpoint] at hat ⊢
    refine ⟨h.note (by rw [hpoint]; rfl) rfl (fun _ => by rw [hpoint]; rfl) (Or.inr ?_),
      trivial, hlog⟩
    intro policy slept hsince
    exact absurd (hat.symm.trans hsince) (Option.some_ne_none _).symm
  | head =>
    simp only [GuardLoop.go, hpoint] at hat ⊢
    by_cases hstop : l.shutdown = true
    · rw [if_pos hstop]
      exact ⟨h.move (by rw [hpoint]; rfl) nofun trivial, hlog⟩
    · rw [if_neg hstop]
      exact ⟨h.note (by rw [hpoint]; rfl) rfl (fun _ => by rw [hpoint]; rfl)
        (hat.resolve_left hstop), hlog.cons fun hsignal => hstop (h.stop.mpr hsignal)⟩
  | flag =>
    refine ⟨h.look hpoint a, ?_⟩
    simp only [GuardLoop.go, hpoint]
    exact hlog.cons trivial
  | clear =>
    refine ⟨h.clear hpoint a, ?_⟩
    simp only [GuardLoop.go, hpoint]
    exact hlog
  | load =>
    refine ⟨h.load hpoint a, ?_⟩
    simp only [GuardLoop.go, hpoint]
    exact hlog.cons trivial
  | adopt new => exact h.adopt hpoint a hlog
  | pass =>
    have hcalm := h.calm (by rw [hpoint]; rfl)
    have henabled := h.enabled (by rw [hpoint]; rfl)
    simp only [GuardLoop.go, hpoint] at hat ⊢
    exact ⟨h.note (by rw [hpoint]; rfl) rfl (fun _ => by rw [hpoint]; rfl) rfl,
      hlog.cons ⟨h.guard, henabled, hcalm.2, hat⟩⟩
  | sleep elapsed =>
    simp only [GuardLoop.go, hpoint] at hat ⊢
    by_cases hmore : (!l.shutdown && decide (elapsed < l.interval)) = true
    · rw [if_pos hmore]
      refine ⟨h.note (by rw [hpoint]; rfl) rfl (fun _ => by rw [hpoint]; rfl) ?_,
        trivial, hlog⟩
      show (sleepsSince l.log).map (fun last => (last.1, last.2 + 1)) = some (l.guard, elapsed + 1)
      rw [hat, Option.map_some]
    · rw [if_neg hmore]
      refine ⟨h.move (by rw [hpoint]; rfl) (fun _ => by rw [hpoint]; rfl) ?_, hlog⟩
      show l.shutdown = true ∨ Paced r l.log
      by_cases hstop : l.shutdown = true
      · exact Or.inl hstop
      · refine Or.inr fun policy slept hsince => ?_
        rw [hat] at hsince
        cases hsince
        have hlong : ¬ elapsed < l.interval := by simpa [hstop] using hmore
        rw [← h.interval]
        exact Nat.not_lt.mp hlong
  | restoreLast =>
    simp only [GuardLoop.go, hpoint] at hat ⊢
    exact ⟨h.note (by rw [hpoint]; rfl) rfl nofun ⟨_, _, rfl⟩, trivial, hlog⟩
  | persistLast =>
    simp only [GuardLoop.go, hpoint] at hat ⊢
    obtain ⟨all, rest, hrest⟩ := hat
    refine ⟨h.note (by rw [hpoint]; rfl) rfl nofun ⟨all, rest, ?_⟩, trivial, hlog⟩
    show Note.persisted :: quiet l.log = _
    rw [hrest]
  | done =>
    simp only [GuardLoop.go, hpoint]
    exact ⟨h, hlog⟩

/-! ### Runs -/

theorem LoopInv.step (h : LoopInv r first l) (hlog : Obeyed (NoteLaw r first) l.log)
    (i : LoopInput π) :
    LoopInv r first (loopStep r l i) ∧ Obeyed (NoteLaw r first) (loopStep r l i).log := by
  cases i with
  | sighup => exact ⟨h.sighup, trivial, hlog⟩
  | stopSignal => exact ⟨h.stopSignal, trivial, hlog⟩
  | processes t =>
    exact ⟨⟨h.guard, h.interval, h.enabled, h.stop, h.unseen, h.seen, h.atPoint⟩, hlog⟩
  | go a => exact h.go a hlog

theorem loopInv_start (henabled : r.enabled first = true) (world : PressureWorld) :
    LoopInv r first (loopStart r first world) where
  guard := rfl
  interval := rfl
  enabled _ := henabled
  stop := iff_of_false Bool.false_ne_true List.not_mem_nil
  unseen := nofun
  seen := nofun
  atPoint := rfl

/-- A SIGHUP that the flag was looked at after, and no load, is owed. -/
theorem owed_of_look {newer mid older : List (Note π)}
    (h : ∀ new, Note.loaded new ∉ newer ++ mid) :
    owed (newer ++ .looked :: mid ++ .sighup :: older) = some true := by
  have hmid : ∃ seen, owed (mid ++ .sighup :: older) = some seen := by
    have hnone : ∀ new, Note.loaded new ∉ mid := fun new hmem =>
      h new (List.mem_append_right newer hmem)
    clear h
    induction mid with
    | nil => exact ⟨_, rfl⟩
    | cons note mid ih =>
      obtain ⟨seen, hseen⟩ := ih fun new hmem => hnone new (List.mem_cons_of_mem _ hmem)
      cases note with
      | loaded new => exact absurd List.mem_cons_self (hnone new)
      | sighup => exact ⟨_, rfl⟩
      | looked => exact ⟨true, by rw [List.cons_append, owed, hseen, Option.map_some]⟩
      | stopSignal | entered | restored | adopted | passed | slept | persisted =>
        exact ⟨seen, hseen⟩
  induction newer with
  | nil =>
    obtain ⟨seen, hseen⟩ := hmid
    rw [List.nil_append, List.cons_append, owed, hseen, Option.map_some]
  | cons note newer ih =>
    have hrest := ih fun new hmem => h new (List.mem_cons_of_mem _ hmem)
    rw [List.append_assoc, List.cons_append] at hrest ⊢
    cases note with
    | loaded new => exact absurd List.mem_cons_self (h new)
    | sighup =>
      show some ((owed (newer ++ (.looked :: mid ++ .sighup :: older))).getD false) = some true
      rw [List.cons_append, hrest, Option.getD_some]
    | looked =>
      show (owed (newer ++ (.looked :: mid ++ .sighup :: older))).map (fun _ => true) = some true
      rw [List.cons_append, hrest, Option.map_some]
    | stopSignal | entered | restored | adopted | passed | slept | persisted => exact hrest

/-- The seconds slept since a pass that no other has followed. -/
theorem sleepsSince_of_pass {mid older : List (Note π)} {policy : π}
    (h : ∀ other, Note.passed other ∉ mid) :
    sleepsSince (mid ++ .passed policy :: older) = some (policy, mid.countP Note.isSlept) := by
  induction mid with
  | nil => rfl
  | cons note mid ih =>
    have hrest := ih fun other hmem => h other (List.mem_cons_of_mem _ hmem)
    cases note with
    | passed other => exact absurd List.mem_cons_self (h other)
    | slept =>
      show (sleepsSince (mid ++ .passed policy :: older)).map _ = _
      rw [hrest, Option.map_some, List.countP_cons_of_pos rfl]
    | sighup | stopSignal | entered | looked | loaded | restored | adopted | persisted =>
      exact hrest

variable (r)

/-- **The loop under signals.** Whatever signals come and whenever, and whatever the outside
answers:

* a pass runs under the policy adopted last, and that is enabled; a SIGHUP that the flag was looked
  at after has had the policy file read before the pass; and since the pass before, the seconds of
  that pass's policy were slept;
* a policy is adopted as it was read last, and right after a restore, which left nothing unless the
  policy disables the guard;
* the loop does not turn again once a stop signal has come;
* and when the daemon is done, a restore and then a persist were the last it did. -/
theorem loop_law (henabled : r.enabled first = true) (world : PressureWorld)
    (is : List (LoopInput π)) :
    let l := Runs.exec (loopStep r) (loopStart r first world) is
    (∀ newer policy older, l.log = newer ++ .passed policy :: older →
        policy = live first older ∧ r.enabled policy = true ∧
        (∀ x y z, older = x ++ .looked :: y ++ .sighup :: z → ∃ new, .loaded new ∈ x ++ y) ∧
        ∀ mid last rest, older = mid ++ .passed last :: rest → (∀ other, .passed other ∉ mid) →
          r.intervalSecs last ≤ mid.countP Note.isSlept) ∧
      (∀ newer policy older, l.log = newer ++ .adopted policy :: older →
        ∃ all new rest, older = .restored all :: rest ∧ lastLoaded rest = some new ∧
          policy = r.normalize new ∧ (r.enabled new = true → all = true)) ∧
      (∀ newer older, l.log = newer ++ .entered :: older → .stopSignal ∉ older) ∧
      (l.point = .done → ∃ all rest, quiet l.log = .persisted :: .restored all :: rest) := by
  intro l
  have hstep : ∀ (s : GuardLoop π) (i : LoopInput π), LoopInv r first s →
      Obeyed (NoteLaw r first) s.log →
      LoopInv r first (loopStep r s i) ∧ Obeyed (NoteLaw r first) (loopStep r s i).log :=
    fun _ i hgood hlaw => hgood.step hlaw i
  have hempty : Obeyed (NoteLaw r first) (loopStart r first world).log := trivial
  obtain ⟨hinv, hlog⟩ := Obeyed.exec hstep (loopInv_start henabled world) hempty is
  have hlaw (newer : List (Note π)) (note : Note π) (older : List (Note π))
      (heq : l.log = newer ++ note :: older) : NoteLaw r first note older :=
    Obeyed.at (heq ▸ hlog)
  refine ⟨?_, fun newer policy older heq => hlaw newer _ older heq,
    fun newer older heq => hlaw newer _ older heq, ?_⟩
  · intro newer policy older heq
    obtain ⟨hlive, hpolicy, howed, hpaced⟩ := hlaw newer _ older heq
    refine ⟨hlive, hpolicy, ?_, ?_⟩
    · intro x y z hsplit
      by_contra hnone
      refine howed (hsplit ▸ owed_of_look fun new hmem => hnone ⟨new, hmem⟩)
    · intro mid last rest hsplit hmid
      refine hpaced last _ ?_
      rw [hsplit]
      exact sleepsSince_of_pass hmid
  · intro hdone
    have hat := hinv.atPoint
    unfold AtPoint at hat
    rwa [hdone] at hat

end Loop

/-- A policy that is an interval. -/
def intervalPolicy : PolicyReading Nat where
  enabled := fun secs => secs != 0
  intervalSecs := id
  normalize := id
  memory := fun _ => {}

/-- No processes, and no ledger. -/
def idleHost : PressureWorld where
  table := fun _ => none
  state := {}
  disk := { visible := none }

/-- Everything the loop asks for succeeds. -/
def plainAnswer : LoopAnswer Nat where
  hydrate := ⟨some "boot", fun _ => true, true⟩
  readable := true
  loaded := some 60
  restore := wholeRestore
  pass := { policy := {}, wait := 0, sample := none, work := 0, env := shortPass }
  persist := ⟨some "boot", .written⟩

/-- Stopped before the loop has begun to turn. -/
def stoppedRun : GuardLoop Nat :=
  Runs.exec (loopStep intervalPolicy) (loopStart intervalPolicy 60 idleHost)
    (.stopSignal :: List.replicate 5 (.go plainAnswer))

theorem loop_law_stopped :
    intervalPolicy.enabled 60 = true ∧ stoppedRun.point = .done ∧
      ∃ all rest, quiet stoppedRun.log = .persisted :: .restored all :: rest :=
  ⟨rfl, rfl, (loop_law intervalPolicy rfl idleHost
    (.stopSignal :: List.replicate 5 (.go plainAnswer))).2.2.2 rfl⟩

end DraconGuard
