import DraconGuard.Lib.Custody
import DraconGuard.Lib.Runs
import DraconGuard.Guard.DiskPass

/-!
# Every finished cleanup is reported once

A pass takes the summary out of the slot: "Taking the summary (rather than copying it) reports each
cleanup once, on the first pass after it finished" (main.rs:10505). No summary is reported twice,
but one can be lost: the next cleanup assigns over it, a reload throws its slot away, or the pass
that took it fails before its report. `cleanups_reported_iff`: nothing else loses one.
-/

namespace DraconGuard

/-! ## Where summaries are -/

inductive Holder where
  | slot (k : Nat)
  | hands
  | report (i : Nat)
deriving DecidableEq

def Filed.token (f : Filed) : Option (Nat × CleanupSummary) := f.cleanup.map fun c => (c, f.summary)

theorem token_eq_some {f : Filed} {c : Nat} {s : CleanupSummary} :
    f.token = some (c, s) ↔ f = ⟨s, some c⟩ := by
  obtain ⟨summary, cleanup⟩ := f
  cases cleanup with
  | none => simp [Filed.token]
  | some d =>
    simp only [Filed.token, Option.map_some, Option.some.injEq, Prod.mk.injEq, Filed.mk.injEq]
    exact and_comm

def DiskPhase.filed : DiskPhase → Option Filed
  | .taken f => some f
  | _ => none

namespace CleanupWorld

/-- What lies at a place. -/
def held (w : CleanupWorld) : Holder → Option (Nat × CleanupSummary)
  | .slot k => (w.slots k).token
  | .hands => w.phase.filed.bind Filed.token
  | .report i => w.reports[i]?.bind Filed.token

/-- The summary waits for the next pass, or the present one has it in hand. -/
def Waits (w : CleanupWorld) (c : Nat) (s : CleanupSummary) : Prop :=
  (∃ k, w.cleanup.cleanupSlot = some k ∧ w.slots k = ⟨s, some c⟩) ∨ w.phase = .taken ⟨s, some c⟩

/-- A pass that came to its end had the summary in its report. -/
def Reported (w : CleanupWorld) (c : Nat) (s : CleanupSummary) : Prop :=
  ∃ i : Nat, w.reports[i]? = some ⟨s, some c⟩

/-- **Each finished cleanup is reported once.** No two reports are of one cleanup, a report is of a
summary its cleanup finished with, and a finished cleanup with something to report was reported, or
is still to be. -/
structure EachOnce (w : CleanupWorld) : Prop where
  once : ∀ {i j : Nat} {c : Nat} {s s' : CleanupSummary}, w.reports[i]? = some ⟨s, some c⟩ →
    w.reports[j]? = some ⟨s', some c⟩ → i = j
  own : ∀ {c s}, w.Reported c s → w.finished c = some s
  apart : ∀ {c s s'}, w.Waits c s → ¬ w.Reported c s'
  kept : ∀ {c s}, w.finished c = some s → s.reportable = true → w.Reported c s ∨ w.Waits c s

/-! ## The invariant -/

/-- Tokens are in custody, a slot or pass without one has nothing to report, a cleanup that runs or
is yet to start has not finished, and a pass looks into the slot of the runtime state. -/
structure Traced (w : CleanupWorld) : Prop where
  custody : Custody w.finished w.held
  slot_blank : ∀ k, (w.slots k).cleanup = none → (w.slots k).summary.reportable = false
  hands_blank : ∀ f, w.phase = .taken f → f.cleanup = none → f.summary.reportable = false
  running : ∀ c task, w.running c = some task → w.finished c = none
  unstarted : ∀ c, w.spawned ≤ c → w.running c = none ∧ w.finished c = none
  current : ∀ k, w.phase = .begun k → w.cleanup.cleanupSlot = some k

theorem held_report {w : CleanupWorld} {i c : Nat} {s : CleanupSummary} :
    w.held (.report i) = some (c, s) ↔ w.reports[i]? = some ⟨s, some c⟩ := by
  unfold held
  rw [Option.bind_eq_some_iff]
  constructor
  · rintro ⟨f, hf, htoken⟩
    rw [hf, token_eq_some.1 htoken]
  · exact fun h => ⟨_, h, rfl⟩

theorem held_slot {w : CleanupWorld} {k c : Nat} {s : CleanupSummary} :
    w.held (.slot k) = some (c, s) ↔ w.slots k = ⟨s, some c⟩ := token_eq_some

theorem held_hands {w : CleanupWorld} {c : Nat} {s : CleanupSummary} :
    w.held .hands = some (c, s) ↔ w.phase = .taken ⟨s, some c⟩ := by
  unfold held
  rw [Option.bind_eq_some_iff]
  constructor
  · rintro ⟨f, hf, htoken⟩
    obtain rfl := token_eq_some.1 htoken
    cases hphase : w.phase with
    | taken g =>
      rw [hphase] at hf
      rw [Option.some.inj hf]
    | idle => rw [hphase] at hf; cases hf
    | begun k => rw [hphase] at hf; cases hf
    | stopped => rw [hphase] at hf; cases hf
  · intro h
    rw [h]
    exact ⟨_, rfl, rfl⟩

theorem Waits.held {w : CleanupWorld} {c : Nat} {s : CleanupSummary} (h : w.Waits c s) :
    (∃ k, w.held (.slot k) = some (c, s)) ∨ w.held .hands = some (c, s) := by
  rcases h with ⟨k, -, hslot⟩ | hphase
  · exact Or.inl ⟨k, held_slot.2 hslot⟩
  · exact Or.inr (held_hands.2 hphase)

/-- Custody is the law, but for what was lost. -/
theorem Traced.eachOnce {w : CleanupWorld} (h : Traced w)
    (hkept : ∀ {c s}, w.finished c = some s → s.reportable = true →
      w.Reported c s ∨ w.Waits c s) : EachOnce w where
  once hi hj :=
    Holder.report.inj (h.custody.single (held_report.2 hi) (held_report.2 hj))
  own := fun ⟨_, hi⟩ => h.custody.traced (held_report.2 hi)
  apart := by
    rintro c s s' hwaits ⟨i, hi⟩
    rcases hwaits.held with ⟨k, hk⟩ | hhands
    · cases h.custody.single hk (held_report.2 hi)
    · cases h.custody.single hhands (held_report.2 hi)
  kept := hkept

/-! ## One step -/

theorem ensureSlot_eq (w : CleanupWorld) : ∃ k, w.ensureSlot =
    ({ w with cleanup := { w.cleanup with cleanupSlot := some k },
              allocated := w.ensureSlot.1.allocated }, k) ∧
      ∀ j, w.cleanup.cleanupSlot = some j → k = j := by
  unfold ensureSlot
  split
  · next j hj => exact ⟨j, by rw [← hj], fun i hi => Option.some.inj (hj.symm.trans hi)⟩
  · next hnone =>
    refine ⟨w.allocated, rfl, fun j hj => ?_⟩
    rw [hnone] at hj
    cases hj

theorem cleanupDue_slot (guard : DiskPolicy) (s : CleanupState) (used : Nat) (now : Time) :
    (cleanupDue guard s used now).1.cleanupSlot = s.cleanupSlot := by
  unfold cleanupDue
  dsimp only
  split_ifs <;> rfl

/-- A pass that starts keeps the slot it finds, and starts at most one cleanup. -/
theorem beginPass_cases (w : CleanupWorld) (used : Option Nat) (now : Time) :
    w.beginPass used now = w ∨ w.phase = .idle ∧ ∃ cleanup k allocated,
      cleanup.cleanupSlot = some k ∧ (∀ j, w.cleanup.cleanupSlot = some j → k = j) ∧
        let v := { w with cleanup := cleanup, allocated := allocated, phase := .begun k }
        w.beginPass used now = v ∨ w.beginPass used now = v.spawn k := by
  unfold beginPass
  split
  · next _ _ used hphase =>
    obtain ⟨k, heq, hk⟩ := ensureSlot_eq w
    rw [heq]
    let begun := { w.cleanup with cleanupSlot := some k }
    refine Or.inr ⟨hphase, (cleanupDue w.guard begun used now).1, k, w.ensureSlot.1.allocated,
      cleanupDue_slot .., hk, ?_⟩
    · dsimp only
      split
      · exact Or.inr rfl
      · exact Or.inl rfl
  · exact Or.inl rfl

theorem takeSummary_cases (w : CleanupWorld) :
    w.takeSummary = w ∨ ∃ k f, w.phase = .begun k ∧
      w.takeSummary = { w.setSlot k {} with phase := .taken f } ∧
        (f = w.slots k ∨ f = {} ∧ (w.slots k).summary.reportable = false) := by
  unfold takeSummary
  split
  · next k hphase =>
    refine Or.inr ⟨k, _, hphase, rfl, ?_⟩
    split
    · exact Or.inl rfl
    · next hblank => exact Or.inr ⟨rfl, Bool.eq_false_iff.2 hblank⟩
  · exact Or.inl rfl

theorem endPass_cases (w : CleanupWorld) (ok : Bool) :
    (∀ f, w.phase ≠ .taken f) ∧ w.endPass ok = w ∨ ∃ f, w.phase = .taken f ∧
      (ok = true ∧ w.endPass ok = { w with phase := .idle, reports := w.reports ++ [f] } ∨
        ok = false ∧ w.endPass ok = { w with phase := .idle }) := by
  unfold endPass
  split
  · next f hphase =>
    refine Or.inr ⟨f, hphase, ?_⟩
    cases ok with
    | true => exact Or.inl ⟨rfl, rfl⟩
    | false => exact Or.inr ⟨rfl, rfl⟩
  · next hother => exact Or.inl ⟨hother, rfl⟩

theorem complete_cases (w : CleanupWorld) (c : Nat)
    (relocation : Except String (Nat × Nat × List ColdCandidate)) :
    (∀ task, w.running c ≠ some task) ∧ w.complete c relocation = w ∨
      ∃ task, w.running c = some task ∧
        let summary := backgroundSummary task.autoRelocate relocation
        w.complete c relocation =
          { w.setSlot task.slot ⟨summary, some c⟩ with
            running := Function.update w.running c none,
            finished := Function.update w.finished c (some summary) } := by
  unfold complete
  split
  · next hnone => exact Or.inl ⟨fun task h => absurd (hnone.symm.trans h) nofun, rfl⟩
  · next task htask => exact Or.inr ⟨task, htask, rfl⟩

/-- A reload that is applied keeps the slot, or throws it away with the runtime. -/
theorem reload_cases (w : CleanupWorld) (normalize : DiskPolicy → DiskPolicy)
    (newPolicy : DiskPolicy) (runtime : GuardRuntimeState) (restored : Bool) :
    w.reload normalize newPolicy runtime restored = w ∧
        (w.phase = .idle → discardsRuntime runtime restored = false) ∨
      w.phase = .idle ∧ ∃ guard phase, (phase = .idle ∨ phase = .stopped) ∧
        w.reload normalize newPolicy runtime restored =
          { w with guard := guard, phase := phase,
                   cleanup := if discardsRuntime runtime restored then {} else w.cleanup } := by
  unfold reload
  split
  · next hphase =>
    dsimp only
    split
    · next hdeferred =>
      refine Or.inl ⟨rfl, fun _ => ?_⟩
      unfold applyPolicyReload at hdeferred
      dsimp only at hdeferred
      split at hdeferred
      · next hput =>
        unfold discardsRuntime
        rw [Bool.and_eq_true, Bool.or_eq_true, Bool.not_eq_true'] at hput
        rcases hput.1 with h | h <;> rw [h] <;> simp
      · cases hdeferred
    · refine Or.inr ⟨hphase, _, _, ?_, rfl⟩
      split
      · exact Or.inl rfl
      · exact Or.inr rfl
  · next hphase => exact Or.inl ⟨rfl, fun h => absurd h hphase⟩

/-- Nothing moves, and nothing finishes. -/
theorem Traced.still {w v : CleanupWorld} (h : Traced w) (hheld : v.held = w.held)
    (hslots : v.slots = w.slots) (hphase : ∀ f, v.phase ≠ .taken f)
    (hfinished : v.finished = w.finished) (hspawned : w.spawned ≤ v.spawned)
    (hrunning : ∀ c, v.running c = w.running c ∨ w.spawned ≤ c ∧ c < v.spawned)
    (hcurrent : ∀ k, v.phase = .begun k → v.cleanup.cleanupSlot = some k) : Traced v where
  custody := by rw [hheld, hfinished]; exact h.custody
  slot_blank := by rw [hslots]; exact h.slot_blank
  hands_blank f hf := absurd hf (hphase f)
  running c task hc := by
    rw [hfinished]
    rcases hrunning c with hsame | ⟨hnew, -⟩
    · exact h.running c task (hsame ▸ hc)
    · exact (h.unstarted c hnew).2
  unstarted c hc := by
    rw [hfinished]
    rcases hrunning c with hsame | ⟨-, hold⟩
    · rw [hsame]
      exact h.unstarted c (hspawned.trans hc)
    · exact absurd hold (Nat.not_lt.2 hc)
  current := hcurrent

theorem held_eq {w v : CleanupWorld} (hslots : v.slots = w.slots)
    (hphase : v.phase.filed = w.phase.filed) (hreports : v.reports = w.reports) :
    v.held = w.held := by
  funext p
  cases p with
  | slot k => exact congrArg (fun slots : Nat → Filed => (slots k).token) hslots
  | hands => exact congrArg (fun f : Option Filed => f.bind Filed.token) hphase
  | report i => exact congrArg (fun rs : List Filed => rs[i]?.bind Filed.token) hreports

theorem Traced.step {w : CleanupWorld} (h : Traced w) (normalize : DiskPolicy → DiskPolicy)
    (e : CleanupEvent) : Traced (cleanupStep normalize w e) := by
  cases e with
  | beginPass used now =>
    change Traced (w.beginPass used now)
    rcases beginPass_cases w used now with heq | ⟨hphase, cleanup, k, n, hslot, -, heq | heq⟩
    · rw [heq]; exact h
    · rw [heq]
      exact h.still (held_eq rfl (by rw [hphase]; rfl) rfl) rfl (fun _ hf => by cases hf) rfl
        le_rfl (fun _ => Or.inl rfl) fun j hj => DiskPhase.begun.inj hj ▸ hslot
    · rw [heq]
      refine h.still (held_eq rfl (by rw [hphase]; rfl) rfl) rfl (fun _ hf => by cases hf) rfl
        (Nat.le_succ _) (fun c => ?_) fun j hj => DiskPhase.begun.inj hj ▸ hslot
      by_cases hc : c = w.spawned
      · exact Or.inr ⟨le_of_eq hc.symm, hc ▸ Nat.lt_succ_self _⟩
      · exact Or.inl (Function.update_of_ne hc _ _)
  | takeSummary =>
    change Traced w.takeSummary
    rcases takeSummary_cases w with heq | ⟨k, f, hphase, heq, hf⟩
    · rw [heq]; exact h
    · rw [heq]
      refine ⟨?_, fun j => ?_, fun g hg hblank => ?_, h.running, h.unstarted,
        fun _ hj => (by cases hj)⟩
      · refine h.custody.moved (fun p => if p = .hands then .slot k else p) (fun p => ?_) ?_
        · cases p with
          | slot j =>
            by_cases hj : j = k
            · refine Or.inl ?_
              subst hj
              dsimp only [held, setSlot]
              rw [Function.update_self]; rfl
            · refine Or.inr ?_
              dsimp only [held, setSlot]
              rw [Function.update_of_ne hj]; rfl
          | hands =>
            rcases hf with rfl | ⟨rfl, -⟩
            · exact Or.inr rfl
            · exact Or.inl rfl
          | report i => exact Or.inr rfl
        · have hk : ({ w.setSlot k {} with phase := .taken f } : CleanupWorld).held (.slot k) =
              none := by
            dsimp only [held, setSlot]
            rw [Function.update_self]; rfl
          intro p p' hp hp' heq
          split_ifs at heq with h1 h2 h2
          · rw [h1, h2]
          · exact absurd (heq ▸ hk) hp'
          · exact absurd (heq ▸ hk) hp
          · exact heq
      · dsimp only [setSlot]
        rw [Function.update_apply]
        split
        · exact fun _ => rfl
        · exact h.slot_blank j
      · obtain rfl : f = g := DiskPhase.taken.inj hg
        rcases hf with rfl | ⟨rfl, -⟩
        · exact h.slot_blank k hblank
        · rfl
  | endPass ok =>
    change Traced (w.endPass ok)
    rcases endPass_cases w ok with ⟨-, heq⟩ | ⟨f, hphase, ⟨-, heq⟩ | ⟨-, heq⟩⟩
    · rw [heq]; exact h
    · rw [heq]
      refine ⟨?_, h.slot_blank, fun _ hg => (by cases hg), h.running, h.unstarted,
        fun _ hj => (by cases hj)⟩
      refine h.custody.moved (fun p => if p = .report w.reports.length then .hands else p)
        (fun p => ?_) ?_
      · cases p with
        | slot j => exact Or.inr rfl
        | hands => exact Or.inl rfl
        | report i =>
          refine Or.inr ?_
          split_ifs with hi
          · obtain rfl := Holder.report.inj hi
            dsimp only [held]
            rw [hphase, List.getElem?_concat_length]
            rfl
          · have hne : i ≠ w.reports.length := fun heq => hi (congrArg _ heq)
            dsimp only [held]
            congr 1
            rcases Nat.lt_or_gt_of_ne hne with hlt | hgt
            · rw [List.getElem?_append_left hlt]
            · rw [List.getElem?_eq_none (by simp; omega), List.getElem?_eq_none (by omega)]
      · intro p p' hp hp' heq
        split_ifs at heq with h1 h2 h2
        · rw [h1, h2]
        · exact absurd rfl (heq ▸ hp')
        · exact absurd rfl (heq ▸ hp)
        · exact heq
    · rw [heq]
      refine ⟨h.custody.dropped fun p => ?_, h.slot_blank, fun _ hg => (by cases hg), h.running,
        h.unstarted, fun _ hj => (by cases hj)⟩
      cases p with
      | slot j => exact Or.inr rfl
      | hands => exact Or.inl rfl
      | report i => exact Or.inr rfl
  | complete c relocation =>
    change Traced (w.complete c relocation)
    rcases complete_cases w c relocation with ⟨-, heq⟩ | ⟨task, htask, heq⟩
    · rw [heq]; exact h
    · rw [heq]
      have hfresh := h.running c task htask
      refine ⟨?_, fun j => ?_, h.hands_blank, fun d task' hd => ?_, fun d hd => ?_,
        h.current⟩
      · convert h.custody.issue hfresh (.slot task.slot)
          (backgroundSummary task.autoRelocate relocation) using 1
        funext p
        rw [Function.update_apply]
        cases p with
        | slot j =>
          dsimp only [held, setSlot]
          rw [Function.update_apply]
          by_cases hj : j = task.slot
          · rw [if_pos hj, if_pos (congrArg _ hj)]; rfl
          · rw [if_neg hj, if_neg fun heq => hj (Holder.slot.inj heq)]
        | hands => rfl
        | report i => rfl
      · dsimp only [setSlot]
        rw [Function.update_apply]
        split
        · exact fun h => by cases h
        · exact h.slot_blank j
      · dsimp only at hd ⊢
        rw [Function.update_apply] at hd
        split at hd
        · cases hd
        · next hne => rw [Function.update_of_ne hne]; exact h.running d task' hd
      · have hne : d ≠ c := by
          rintro rfl
          exact absurd ((h.unstarted d hd).1.symm.trans htask) (Option.some_ne_none _).symm
        dsimp only
        rw [Function.update_of_ne hne, Function.update_of_ne hne]
        exact h.unstarted d hd
  | reload newPolicy runtime restored =>
    change Traced (w.reload normalize newPolicy runtime restored)
    rcases reload_cases w normalize newPolicy runtime restored with
      ⟨heq, -⟩ | ⟨hphase, guard, phase, hnext, heq⟩
    · rw [heq]; exact h
    · rw [heq]
      refine h.still (held_eq rfl ?_ rfl) rfl ?_ rfl le_rfl (fun _ => Or.inl rfl) ?_
      · rw [hphase]
        rcases hnext with rfl | rfl <;> rfl
      · rcases hnext with rfl | rfl <;> exact fun _ hf => by cases hf
      · rcases hnext with rfl | rfl <;> exact fun _ hf => by cases hf

end CleanupWorld

/-! ## When nothing is lost -/

/-- **What a step must not do.** A cleanup hands back its summary through the slot the passes look
into, and into nothing that waits there; a reload throws away no summary that waits; a pass with a
summary in hand does not fail. -/
def HandsOver (w : CleanupWorld) : CleanupEvent → Prop
  | .complete c relocation => ∀ task, w.running c = some task →
    if w.cleanup.cleanupSlot = some task.slot then
      (w.slots task.slot).summary.reportable = false
    else (backgroundSummary task.autoRelocate relocation).reportable = false
  | .reload _ runtime restored => w.phase = .idle → discardsRuntime runtime restored = true →
    ∀ k, w.cleanup.cleanupSlot = some k → (w.slots k).summary.reportable = false
  | .endPass ok => ok = false → ∀ f, w.phase = .taken f → f.summary.reportable = false
  | _ => True

namespace CleanupWorld

variable {w : CleanupWorld}

/-- A step keeps the law when what was accounted for stays accounted for. -/
theorem EachOnce.of_accounts {v : CleanupWorld} (h : EachOnce w) (hv : Traced v)
    (hfinished : v.finished = w.finished)
    (hreported : ∀ {c s}, w.Reported c s → v.Reported c s)
    (hwaits : ∀ {c s}, s.reportable = true → w.Waits c s → v.Reported c s ∨ v.Waits c s) :
    EachOnce v := by
  refine hv.eachOnce fun hc hs => ?_
  rw [hfinished] at hc
  rcases h.kept hc hs with hrep | hwait
  · exact Or.inl (hreported hrep)
  · exact hwaits hs hwait

/-- Something to report lies somewhere as the summary of a cleanup. -/
theorem filed_reportable {f : Filed} (hblank : f.cleanup = none → f.summary.reportable = false)
    (h : f.summary.reportable = true) : ∃ c, f = ⟨f.summary, some c⟩ := by
  obtain ⟨summary, cleanup⟩ := f
  cases cleanup with
  | none => rw [hblank rfl] at h; cases h
  | some c => exact ⟨c, rfl⟩

theorem EachOnce.endPass (h : EachOnce w) (ht : Traced w) (normalize : DiskPolicy → DiskPolicy)
    (ok : Bool) : EachOnce (w.endPass ok) ↔ HandsOver w (.endPass ok) := by
  have hv : Traced (w.endPass ok) := ht.step normalize (.endPass ok)
  rcases endPass_cases w ok with ⟨hother, heq⟩ | ⟨f, hphase, ⟨hok, heq⟩ | ⟨hok, heq⟩⟩
  · rw [heq]
    exact iff_of_true h fun _ f hf => absurd hf (hother f)
  · rw [heq] at hv ⊢
    refine iff_of_true (h.of_accounts hv rfl ?_ ?_) fun hfalse => ?_
    · rintro c s ⟨i, hi⟩
      refine ⟨i, ?_⟩
      dsimp only
      rw [List.getElem?_append_left (List.getElem?_eq_some_iff.1 hi).1]
      exact hi
    · rintro c s - (⟨k, hk, hslot⟩ | htaken)
      · exact Or.inr (Or.inl ⟨k, hk, hslot⟩)
      · obtain rfl := DiskPhase.taken.inj (hphase.symm.trans htaken)
        exact Or.inl ⟨w.reports.length, List.getElem?_concat_length ..⟩
    · rw [hok] at hfalse
      cases hfalse
  · rw [heq] at hv ⊢
    constructor
    · intro hafter _ g hg
      obtain rfl := DiskPhase.taken.inj (hphase.symm.trans hg)
      by_contra hreportable
      rw [Bool.not_eq_false] at hreportable
      obtain ⟨c, hf⟩ := filed_reportable (ht.hands_blank _ hphase) hreportable
      rw [hf] at hphase
      have hheld := held_hands.2 hphase
      rcases hafter.kept (ht.custody.traced hheld) hreportable with ⟨i, hi⟩ | ⟨k, -, hk⟩ | hidle
      · cases ht.custody.single hheld (held_report.2 hi)
      · cases ht.custody.single hheld (held_slot.2 hk)
      · cases hidle
    · intro hover
      refine h.of_accounts hv rfl id ?_
      rintro c s hs (⟨k, hk, hslot⟩ | htaken)
      · exact Or.inr (Or.inl ⟨k, hk, hslot⟩)
      · rw [hover hok _ htaken] at hs
        cases hs

theorem EachOnce.complete (h : EachOnce w) (ht : Traced w) (normalize : DiskPolicy → DiskPolicy)
    (c : Nat) (relocation : Except String (Nat × Nat × List ColdCandidate)) :
    EachOnce (w.complete c relocation) ↔ HandsOver w (.complete c relocation) := by
  have hv : Traced (w.complete c relocation) := ht.step normalize (.complete c relocation)
  rcases complete_cases w c relocation with ⟨hnone, heq⟩ | ⟨task, htask, heq⟩
  · rw [heq]
    exact iff_of_true h fun task htask => absurd htask (hnone task)
  · rw [heq] at hv ⊢
    set summary := backgroundSummary task.autoRelocate relocation with hsummary
    have hfresh := ht.running c task htask
    -- Before the step, another cleanup than `c` lies wherever something lies.
    have hother : ∀ {p d s}, w.held p = some (d, s) → d ≠ c := by
      rintro p d s hp rfl
      exact absurd ((ht.custody.traced hp).symm.trans hfresh) nofun
    constructor
    · intro hafter task' htask'
      obtain rfl := Option.some.inj (htask.symm.trans htask')
      by_contra hlost
      split_ifs at hlost with hlive
      · rw [Bool.not_eq_false] at hlost
        obtain ⟨d, hd⟩ := filed_reportable (ht.slot_blank _) hlost
        have hheld := held_slot.2 hd
        have hne := hother hheld
        have hfinished : Function.update w.finished c (some summary) d =
            some (w.slots task.slot).summary := by
          rw [Function.update_of_ne hne]
          exact ht.custody.traced hheld
        rcases hafter.kept hfinished hlost with ⟨i, hi⟩ | ⟨k, -, hk⟩ | hhands
        · cases ht.custody.single hheld (held_report.2 hi)
        · dsimp only [setSlot] at hk
          rw [Function.update_apply] at hk
          split at hk
          · exact hne (Option.some.inj (congrArg Filed.cleanup hk)).symm
          · next hdiff =>
            exact hdiff (Holder.slot.inj (ht.custody.single (held_slot.2 hk) hheld))
        · cases ht.custody.single hheld (held_hands.2 hhands)
      · rw [Bool.not_eq_false] at hlost
        rcases hafter.kept (Function.update_self ..) hlost with ⟨i, hi⟩ | ⟨k, hcurrent, hk⟩ | hhands
        · exact hother (held_report.2 hi) rfl
        · dsimp only [setSlot] at hk hcurrent
          rw [Function.update_apply] at hk
          split at hk
          · next heq' => exact hlive (heq' ▸ hcurrent)
          · exact hother (held_slot.2 hk) rfl
        · exact hother (held_hands.2 hhands) rfl
    · intro hover
      have hcond := hover task htask
      refine hv.eachOnce fun {d s} hd hs => ?_
      dsimp only at hd
      rw [Function.update_apply] at hd
      split at hd
      · next hdc =>
        subst hdc
        obtain rfl := Option.some.inj hd
        split_ifs at hcond with hlive
        · exact Or.inr (Or.inl ⟨task.slot, hlive, Function.update_self ..⟩)
        · rw [hcond] at hs
          cases hs
      · rcases h.kept hd hs with hrep | ⟨k, hcurrent, hk⟩ | hhands
        · exact Or.inl hrep
        · by_cases hslot : k = task.slot
          · subst hslot
            rw [if_pos hcurrent, hk] at hcond
            rw [hcond] at hs
            cases hs
          · exact Or.inr (Or.inl ⟨k, hcurrent, (Function.update_of_ne hslot ..).trans hk⟩)
        · exact Or.inr (Or.inr hhands)

theorem EachOnce.reload (h : EachOnce w) (ht : Traced w) (normalize : DiskPolicy → DiskPolicy)
    (newPolicy : DiskPolicy) (runtime : GuardRuntimeState) (restored : Bool) :
    EachOnce (w.reload normalize newPolicy runtime restored) ↔
      HandsOver w (.reload newPolicy runtime restored) := by
  have hv : Traced (w.reload normalize newPolicy runtime restored) :=
    ht.step normalize (.reload newPolicy runtime restored)
  rcases reload_cases w normalize newPolicy runtime restored with
    ⟨heq, hkeeps⟩ | ⟨hphase, guard, phase, hnext, heq⟩
  · rw [heq]
    refine iff_of_true h fun hphase hdiscards => ?_
    rw [hkeeps hphase] at hdiscards
    cases hdiscards
  · rw [heq] at hv ⊢
    have hidle : ∀ f, phase ≠ .taken f := by
      rcases hnext with rfl | rfl <;> exact fun _ hf => nomatch hf
    cases hdiscards : discardsRuntime runtime restored with
    | false =>
      rw [hdiscards] at hv
      refine iff_of_true (h.of_accounts hv rfl id ?_) fun _ hd => ?_
      · rintro c s - (hslot | htaken)
        · exact Or.inr (Or.inl hslot)
        · rw [hphase] at htaken
          cases htaken
      · rw [hdiscards] at hd
        cases hd
    | true =>
      rw [hdiscards] at hv
      constructor
      · intro hafter _ _ k hk
        by_contra hlost
        rw [Bool.not_eq_false] at hlost
        obtain ⟨d, hd⟩ := filed_reportable (ht.slot_blank _) hlost
        have hheld := held_slot.2 hd
        rcases hafter.kept (ht.custody.traced hheld) hlost with ⟨i, hi⟩ | ⟨k, hnone, -⟩ | hhands
        · cases ht.custody.single hheld (held_report.2 hi)
        · cases hnone
        · exact hidle _ hhands
      · intro hover
        refine h.of_accounts hv rfl id ?_
        rintro c s hs (⟨k, hk, hslot⟩ | htaken)
        · have hblank := hover hphase hdiscards k hk
          rw [hslot] at hblank
          rw [hblank] at hs
          cases hs
        · rw [hphase] at htaken
          cases htaken

theorem EachOnce.beginPass (h : EachOnce w) (ht : Traced w) (normalize : DiskPolicy → DiskPolicy)
    (used : Option Nat) (now : Time) : EachOnce (w.beginPass used now) := by
  have hv : Traced (w.beginPass used now) := ht.step normalize (.beginPass used now)
  rcases beginPass_cases w used now with heq | ⟨hphase, cleanup, k, n, hnow, hslot, heq⟩
  · rw [heq]; exact h
  · have hwaits : ∀ {c s}, w.Waits c s →
        ∃ j, cleanup.cleanupSlot = some j ∧ w.slots j = (⟨s, some c⟩ : Filed) := by
      rintro c s (⟨j, hj, hfiled⟩ | htaken)
      · exact ⟨j, hslot j hj ▸ hnow, hfiled⟩
      · rw [hphase] at htaken
        cases htaken
    have hstill : ∀ {v : CleanupWorld}, Traced v → v.finished = w.finished →
        v.reports = w.reports → v.slots = w.slots → v.cleanup = cleanup → EachOnce v := by
      intro v hv hf hr hs hc
      refine h.of_accounts hv hf (fun ⟨i, hi⟩ => ⟨i, hr ▸ hi⟩) fun _ hw => Or.inr (Or.inl ?_)
      obtain ⟨j, hj, hfiled⟩ := hwaits hw
      exact ⟨j, hc ▸ hj, hs ▸ hfiled⟩
    rcases heq with heq | heq
    · rw [heq] at hv ⊢; exact hstill hv rfl rfl rfl rfl
    · rw [heq] at hv ⊢; exact hstill hv rfl rfl rfl rfl

theorem EachOnce.takeSummary (h : EachOnce w) (ht : Traced w)
    (normalize : DiskPolicy → DiskPolicy) : EachOnce w.takeSummary := by
  have hv : Traced w.takeSummary := ht.step normalize .takeSummary
  rcases takeSummary_cases w with heq | ⟨k, f, hphase, heq, hf⟩
  · rw [heq]; exact h
  · rw [heq] at hv ⊢
    refine h.of_accounts hv rfl id ?_
    rintro c s hs (⟨j, hj, hfiled⟩ | htaken)
    · obtain rfl : j = k := Option.some.inj (hj.symm.trans (ht.current k hphase))
      rcases hf with rfl | ⟨-, hblank⟩
      · exact Or.inr (Or.inr (congrArg _ hfiled))
      · rw [hfiled] at hblank
        rw [hblank] at hs
        cases hs
    · rw [hphase] at htaken
      cases htaken

/-- **One step**: the law survives it exactly if nothing is overwritten, thrown away or dropped. -/
theorem eachOnce_step (normalize : DiskPolicy → DiskPolicy) (e : CleanupEvent) (ht : Traced w)
    (h : EachOnce w) : EachOnce (cleanupStep normalize w e) ↔ HandsOver w e := by
  cases e with
  | beginPass used now => exact iff_of_true (h.beginPass ht normalize used now) trivial
  | takeSummary => exact iff_of_true (h.takeSummary ht normalize) trivial
  | endPass ok => exact h.endPass ht normalize ok
  | complete c relocation => exact h.complete ht normalize c relocation
  | reload newPolicy runtime restored => exact h.reload ht normalize newPolicy runtime restored

/-- The daemon before its first pass. -/
def start (guard : DiskPolicy) : CleanupWorld where
  guard := guard

theorem traced_start (guard : DiskPolicy) : Traced (start guard) where
  custody := Custody.empty.dropped fun p => by cases p <;> exact Or.inl rfl
  slot_blank _ _ := rfl
  hands_blank _ hf := nomatch hf
  running _ _ h := nomatch h
  unstarted _ _ := ⟨rfl, rfl⟩
  current _ h := nomatch h

end CleanupWorld

/-- A cleanup every minute, of eight minutes each; two of them finish between two passes. -/
private def crowdedSlot : List CleanupEvent :=
  [.beginPass (some 92) 0, .takeSummary, .endPass true,
    .beginPass (some 92) 60, .takeSummary, .endPass true,
    .complete 0 (.ok (1, 4096, [])), .complete 1 (.ok (2, 8192, []))]

end DraconGuard
