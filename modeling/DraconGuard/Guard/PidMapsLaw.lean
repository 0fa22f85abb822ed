import DraconGuard.Guard.BiasCapBooks
import DraconGuard.Guard.OneShotLaw

/-!
# Which pids the maps name

After a pass, a key of a map should name a process of the scan or a restoration that is
outstanding. Each part of a pass is followed here at one pid the scan does not show. A loop over
samples passes it by. A release or a prune that is `Tidy` keeps what is in order (`Carried`), and
some parts put their own map in order whatever they find (`Settles`).

| map | order restored by |
| --- | --- |
| `heavySince`, `heavyReports` | the retains after the sample loop |
| `cooled` | the retain at the end of a release, or a clearing |
| `oomKnown` | `prune_oom_known_descendants` |
| `unavailable`, `failures` | nothing: they stay if their entry is dropped over them |
| `skipped`, `capRefused` | nothing: `skipped_stays`, `verdicts_outlive_process` |

`pid_maps_accounted` is the law over runs.
-/

namespace DraconGuard

/-! ## The parts of a pass -/

/-- Under a pid the scan does not show, what was in order stays so. -/
structure PassWorld.Carried (pid : Pid) (w w' : PassWorld) : Prop where
  nice : (w.niceWorld.book pid).Carried (w'.niceWorld.book pid)
  oomCount : w.state.oom.CountHeld pid → w'.state.oom.CountHeld pid
  oomTimer : w.state.oom.TimerHeld pid → w'.state.oom.TimerHeld pid
  caps : CapCarried pid w.state.caps w'.state.caps
  skipped : w.niceRestoreSkippedPids.lookup pid = none →
    w'.niceRestoreSkippedPids.lookup pid = none
  refused : w.capRefusals.lookup pid = none → w'.capRefusals.lookup pid = none
  reports : PidMap.heavyReports.has w pid = false → PidMap.heavyReports.has w' pid = false

namespace PassWorld.Carried

variable {pid : Pid} {w w' w₁ w₂ w₃ : PassWorld}

theorem refl (w : PassWorld) : Carried pid w w := ⟨.refl _, id, id, .refl _, id, id, id⟩

theorem trans (h : Carried pid w₁ w₂) (h' : Carried pid w₂ w₃) : Carried pid w₁ w₃ :=
  ⟨h.nice.trans h'.nice, h'.oomCount ∘ h.oomCount, h'.oomTimer ∘ h.oomTimer,
    h.caps.trans h'.caps, h'.skipped ∘ h.skipped, h'.refused ∘ h.refused, h'.reports ∘ h.reports⟩

theorem onNice {f : NiceWorld → NiceWorld}
    (h : (w.niceWorld.book pid).Carried ((f w.niceWorld).book pid)) : Carried pid w (w.onNice f) :=
  ⟨h, id, id, .refl _, id, id, id⟩

theorem onOom {f : OomWorld → OomWorld} (h : OomCarried pid w.toOomWorld (f w.toOomWorld)) :
    Carried pid w (w.onOom f) := by
  have hnice : (w.onOom f).niceWorld.nice = w.state.nice := h.nice
  have hcaps : (w.onOom f).state.caps = w.state.caps := h.caps
  refine ⟨⟨?_, fun k => ?_, ?_⟩, h.count, h.timer, hcaps ▸ .refl _, id, id, id⟩
  all_goals
    simp only [NiceBook.CountsHeld, NiceBook.TimerHeld, NiceBook.Counted, NiceWorld.book, hnice]
    exact id

theorem onCaps {f : CapWorld → CapWorld} (h : CapCarried pid w.state.caps (f w.capWorld).caps) :
    Carried pid w (w.onCaps f) := ⟨.refl _, id, id, h, id, id, id⟩

end PassWorld.Carried

/-- What a part puts in order whatever it finds. -/
def Settles (pid : Pid) (w : PassWorld) : PassPart → Prop
  | .heavyLoop =>
    (w.niceWorld.book pid).heavy = none ∧ PidMap.heavyReports.has w pid = false
  | .heavyRelease => (w.niceWorld.book pid).TimerHeld .legacy
  | .niceRelease => (w.niceWorld.book pid).TimerHeld .memory
  | .oomRelease => w.state.oom.TimerHeld pid
  | .capRelease => w.state.caps.TimerHeld pid
  | _ => True

theorem Settles.carried {pid : Pid} {w w' : PassWorld} (h : w.Carried pid w') {part : PassPart}
    (hpart : Settles pid w part) : Settles pid w' part := by
  cases part
  case heavyLoop => exact ⟨h.nice.heavy hpart.1, h.reports hpart.2⟩
  case heavyRelease => exact h.nice.timer .legacy hpart
  case niceRelease => exact h.nice.timer .memory hpart
  case oomRelease => exact h.oomTimer hpart
  case capRelease => exact h.caps.timer hpart
  all_goals trivial

section Parts

variable {i : PidPass} {w : PassWorld} {pid : Pid}

theorem not_top (hpid : ¬ w.Seen pid) : pid ∉ (w.topRss i).map (·.pid) := by
  intro hin
  obtain ⟨p, hp, rfl⟩ := List.mem_map.mp hin
  exact hpid (List.mem_map_of_mem ((memoryPressureOffenders_subperm _ _).subset hp))

theorem not_heavy (hpid : ¬ w.Seen pid) : (w.currentHeavy i).contains pid = false := by
  rw [Bool.eq_false_iff]
  intro hin
  obtain ⟨p, hp, rfl⟩ := List.mem_map.mp (List.contains_iff_mem.mp hin)
  exact hpid (List.mem_map_of_mem (List.mem_of_mem_filter hp))

namespace PidMap

theorem backed_owing {m o : PidMap} (h : m.owing = some o) :
    m.Backed w pid ↔ (m.has w pid = true → o.has w pid = true) := by
  unfold Backed
  simp only [h, Option.some.injEq, exists_eq_left']

theorem backed_free {m : PidMap} (h : m.owing = none) : m.Backed w pid ↔ m.has w pid = false := by
  unfold Backed
  simp only [h, reduceCtorEq, false_and, exists_false, imp_false, Bool.not_eq_true]

theorem backed_cooled {k : NiceLimiterKind} :
    (cooled k).Backed w pid ↔ (w.niceWorld.book pid).TimerHeld k :=
  backed_owing (o := .reniced k) rfl

theorem backed_oomCooled : oomCooled.Backed w pid ↔ w.state.oom.TimerHeld pid :=
  backed_owing (o := .oomBiased) rfl

theorem backed_oomKnown : oomKnown.Backed w pid ↔ w.state.oom.KnownHeld pid :=
  backed_owing (o := .oomBiased) rfl

theorem backed_oomUnavailable : oomUnavailable.Backed w pid ↔ w.state.oom.CountHeld pid :=
  backed_owing (o := .oomBiased) rfl

theorem backed_capCooled : capCooled.Backed w pid ↔ w.state.caps.TimerHeld pid :=
  backed_owing (o := .capped) rfl

theorem backed_capUnavailable : capUnavailable.Backed w pid ↔ w.state.caps.CountHeld pid :=
  backed_owing (o := .capped) rfl

end PidMap

theorem heavyLoop_carried (hpid : ¬ w.Seen pid) :
    w.Carried pid (heavyLoop i w) ∧ Settles pid (heavyLoop i w) .heavyLoop := by
  generalize hcan : canRestoreNice i.policy.autoRenice .legacy (i.env.heavy.under w.toOomWorld)
    w.state.nice = canRestore
  have hframe : ∀ (v : NiceWorld × ReportStates) (p : ProcSample) (q : Pid), q ≠ p.pid →
      (heavyOffender i (i.env.heavy.under w.toOomWorld) canRestore v p).1.book q = v.1.book q :=
    fun v p q hq => book_heavyStep_ne hq
  have hloop := Runs.foldl_unvisited (fun (v : NiceWorld × ReportStates) (q : Pid) => v.1.book q)
    ProcSample.pid hframe w.samples (w.niceWorld, w.heavyReports) hpid
  have hheavy : ((heavyLoop i w).niceWorld.book pid).heavy = none := by
    refine Option.eq_none_iff_forall_ne_some.mpr fun since hsince => ?_
    have hcurrent := (FinMap.lookup_retain_some.mp hsince).2
    rw [not_heavy hpid] at hcurrent
    cases hcurrent
  have hreports : PidMap.heavyReports.has (heavyLoop i w) pid = false := by
    refine List.any_eq_false.mpr fun e he hnames => ?_
    have hkept := (List.mem_filter.mp he).2
    obtain ⟨key, state⟩ := e
    cases key
    case heavyProcess q starttime =>
      obtain rfl := eq_of_beq hnames
      obtain ⟨p, hp, hkey⟩ := List.mem_map.mp (List.contains_iff_mem.mp hkept)
      cases hkey
      exact hpid (List.mem_map_of_mem (List.mem_of_mem_filter hp))
    all_goals cases hnames
  have hrest : (heavyLoop i w).niceWorld.book pid =
      { w.niceWorld.book pid with heavy := none } := by
    subst hcan
    rw [← hloop, ← hheavy]
    rfl
  refine ⟨⟨?_, id, id, .refl _, id, id, fun _ => hreports⟩, hheavy, hreports⟩
  rw [hrest]
  exact ⟨id, fun _ => id, fun _ => rfl⟩

theorem heavyRelease_carried (htidy : Tidy i w .heavyRelease) (hpid : ¬ w.Seen pid) :
    w.Carried pid (heavyRelease i w) ∧ Settles pid (heavyRelease i w) .heavyRelease := by
  unfold heavyRelease
  split
  · next hruns =>
    simp only [Tidy, TidyRelease, hruns, if_true] at htidy
    have hreleased := releaseLimiter_carried fun hdue => htidy pid hdue hpid
    exact ⟨.onNice hreleased.1, hreleased.2⟩
  · next hruns =>
    simp only [Tidy, TidyRelease, hruns, Bool.false_eq_true, if_false] at htidy
    exact ⟨.refl w, PidMap.backed_cooled.mp (htidy pid hpid)⟩

theorem unheld_of_bare {k : NiceLimiterKind} (h : Bare w pid (.reniced k)) :
    ¬ (w.niceWorld.book pid).Counted k ∧ (w.niceWorld.book pid).cooled k = none := by
  have hunavailable := h (.unavailable k) rfl rfl
  have hfailures := h (.failures k) rfl rfl
  refine ⟨fun hcounted => ?_, Option.isNone_iff_eq_none.mp ?_⟩
  · rcases hcounted with hcounted | hcounted
    · exact absurd hcounted (Bool.eq_false_iff.mp hunavailable)
    · exact absurd hcounted (Bool.eq_false_iff.mp hfailures)
  · exact Option.isSome_eq_false_iff.mp (h (.cooled k) rfl rfl)

theorem heavyPrune_carried (htidy : Tidy i w .heavyPrune) (hpid : ¬ w.Seen pid) :
    w.Carried pid (passPart i w .heavyPrune) := by
  refine .onNice (pruneLimiter_carried fun hprunes => ?_)
  exact unheld_of_bare (htidy pid hpid hprunes)

variable {pressure : Pressure}

theorem reniceLoop_carried (hpid : ¬ w.Seen pid) : w.Carried pid (reniceLoop i pressure w) := by
  unfold reniceLoop
  dsimp only
  split
  · generalize i.policy.toNicePolicy = g
    generalize i.env.memory.under w.toOomWorld = env
    have hframe : ∀ (v : NiceWorld × FinMap Pid Unit) (p : ProcSample) (q : Pid), q ≠ p.pid →
        ((reniceOffender g env v p).1.book q, (reniceOffender g env v p).2.lookup q) =
          (v.1.book q, v.2.lookup q) := by
      intro v p q hq
      unfold reniceOffender
      rw [book_memoryStep_ne hq]
      split
      · rw [AList.lookup_insert_ne hq]
      · rfl
    have hloop := Runs.foldl_unvisited
      (fun (v : NiceWorld × FinMap Pid Unit) (q : Pid) => (v.1.book q, v.2.lookup q))
      ProcSample.pid hframe (w.topRss i) (w.niceWorld, w.niceRestoreSkippedPids) (not_top hpid)
    rw [Prod.mk.injEq] at hloop
    exact ⟨.of_eq hloop.1, id, id, .refl _, fun h => hloop.2.trans h, id, id⟩
  · exact ⟨.refl _, id, id, .refl _, id, id, id⟩

theorem biasLoop_carried (hpid : ¬ w.Seen pid) : w.Carried pid (biasLoop i pressure w) := by
  unfold biasLoop
  split
  · refine .onOom (.foldl fun o p hp => ?_)
    unfold biasOffender
    split
    · exact .refl o
    · exact applyOomBias_carried fun h =>
        not_top hpid (List.mem_map.mpr ⟨p, hp, h.symm⟩)
  · exact .refl w

theorem capLoop_carried (hpid : ¬ w.Seen pid) : w.Carried pid (capLoop i pressure w) := by
  unfold capLoop
  split
  · have hframe : ∀ (v : CapWorld × FinMap Pid String) (p : ProcSample) (q : Pid), q ≠ p.pid →
        (capOffender i.env.cap i.capError v p).2.lookup q = v.2.lookup q := by
      intro v p q hq
      unfold capOffender
      dsimp only
      split
      · rfl
      · split
        · exact AList.lookup_erase_ne hq
        · exact AList.lookup_insert_ne hq
    have hrefused := Runs.foldl_unvisited
      (fun (v : CapWorld × FinMap Pid String) (q : Pid) => v.2.lookup q)
      ProcSample.pid hframe (w.topRss i) (w.capWorld, w.capRefusals) (not_top hpid)
    have hcaps : CapCarried pid w.state.caps ((w.topRss i).foldl
        (capOffender i.env.cap i.capError) (w.capWorld, w.capRefusals)).1.caps := by
      rw [foldl_capOffender]
      exact .foldl (fun v p hp => capStep_carried fun h =>
        not_top hpid (List.mem_map.mpr ⟨p, hp, h.symm⟩)) w.capWorld
    exact ⟨.refl _, id, id, hcaps, id, fun h => hrefused.trans h, id⟩
  · exact .refl w

theorem niceRelease_carried (hpid : ¬ w.Seen pid) (hpressure : i.env.pressure = some pressure)
    (htidy : Tidy i w .niceRelease) :
    w.Carried pid (niceRelease i pressure w) ∧
      Settles pid (niceRelease i pressure w) .niceRelease := by
  simp only [Tidy, hpressure, Option.all_some, Option.isSome_some, Bool.true_and] at htidy
  unfold niceRelease
  split
  · next hok =>
    replace htidy := htidy (decide_eq_true hok)
    split
    · next hruns =>
      rw [hruns] at htidy
      have hreleased := releaseLimiter_carried fun hdue => htidy pid hdue hpid
      exact ⟨.onNice hreleased.1, hreleased.2⟩
    · next hruns =>
      rw [Bool.not_eq_true] at hruns
      rw [hruns] at htidy
      exact ⟨.refl w, PidMap.backed_cooled.mp (htidy pid hpid)⟩
  · have hcleared : (w.onNice (clearTimers .memory)).niceWorld.book pid =
        (w.niceWorld.book pid).time .memory none := NiceState.book_setTimers ∅
    refine ⟨.onNice ?_, ?_⟩
    · exact Eq.subst (motive := fun b => (w.niceWorld.book pid).Carried b) hcleared.symm
        (.time fun h => absurd h Bool.false_ne_true)
    · intro hcooled
      rw [hcleared] at hcooled
      cases hcooled

theorem oomRelease_carried (htidy : Tidy i w .oomRelease) (hpid : ¬ w.Seen pid) :
    w.Carried pid (passPart i w .oomRelease) ∧
      Settles pid (passPart i w .oomRelease) .oomRelease := by
  cases hpressure : i.env.pressure with
  | none =>
    simp only [Tidy, passPart, hpressure, Option.elim] at htidy ⊢
    exact ⟨.refl w, PidMap.backed_oomCooled.mp (htidy rfl rfl pid hpid)⟩
  | some pressure =>
    simp only [Tidy, passPart, hpressure, Option.elim, Option.all_some, Option.isSome_some,
      Bool.true_and] at htidy ⊢
    split
    · next hok =>
      have hreleased := releaseOomBiases_carried pid i.env.oomRelease w.toOomWorld
      refine ⟨.onOom hreleased.1, ?_⟩
      cases hledger : w.state.mitigationLedgerUnavailable with
      | false => exact hreleased.2 hledger
      | true =>
        rw [hledger] at htidy
        have hbacked := htidy (decide_eq_true hok) rfl pid hpid
        exact hreleased.1.timer (PidMap.backed_oomCooled.mp hbacked)
    · have hcleared : (clearOomTimers w.toOomWorld).state.oom.TimerHeld pid := by
        intro hcooled
        cases hcooled
      exact ⟨.onOom ⟨rfl, rfl, id, fun _ => hcleared⟩, hcleared⟩

theorem capRelease_carried (htidy : Tidy i w .capRelease) (hpid : ¬ w.Seen pid) :
    w.Carried pid (passPart i w .capRelease) ∧
      Settles pid (passPart i w .capRelease) .capRelease := by
  cases hpressure : i.env.pressure with
  | none =>
    simp only [Tidy, passPart, hpressure, Option.elim] at htidy ⊢
    exact ⟨.refl w, PidMap.backed_capCooled.mp (htidy rfl rfl pid hpid)⟩
  | some pressure =>
    simp only [Tidy, passPart, hpressure, Option.elim, Option.all_some, Option.isSome_some,
      Bool.true_and] at htidy ⊢
    split
    · next hok =>
      have hreleased := releaseCaps_carried pid i.env.capRelease w.capWorld
      refine ⟨.onCaps hreleased.1, ?_⟩
      cases hledger : w.state.mitigationLedgerUnavailable with
      | false => exact hreleased.2 hledger
      | true =>
        rw [hledger] at htidy
        have hbacked := htidy (decide_eq_true hok) rfl pid hpid
        exact hreleased.1.timer (PidMap.backed_capCooled.mp hbacked)
    · have hcleared : (clearCapTimers w.capWorld).caps.TimerHeld pid := by
        intro hcooled
        cases hcooled
      exact ⟨.onCaps ⟨id, fun _ => hcleared⟩, hcleared⟩

theorem oomPrune_carried (htidy : Tidy i w .oomPrune) (hpid : ¬ w.Seen pid) :
    w.Carried pid (passPart i w .oomPrune) ∧
      (passPart i w .oomPrune).state.oom.KnownHeld pid := by
  cases hpressure : i.env.pressure with
  | none =>
    simp only [Tidy, passPart, hpressure, Option.elim, Option.isSome_none, Bool.false_eq_true,
      if_false] at htidy ⊢
    exact ⟨.refl w, PidMap.backed_oomKnown.mp (htidy pid hpid)⟩
  | some pressure =>
    simp only [Tidy, passPart, hpressure, Option.elim, Option.isSome_some, if_true] at htidy ⊢
    have hpruned := pruneOom_carried w.samples fun hdead hpending => by
      have hbare := htidy pid hpid hdead hpending
      exact ⟨Option.isNone_iff_eq_none.mp (Option.isSome_eq_false_iff.mp
        (hbare .oomUnavailable rfl rfl)), Option.isNone_iff_eq_none.mp
          (Option.isSome_eq_false_iff.mp (hbare .oomCooled rfl rfl))⟩
    exact ⟨.onOom hpruned.1, hpruned.2⟩

theorem capPrune_carried (htidy : Tidy i w .capPrune) (hpid : ¬ w.Seen pid) :
    w.Carried pid (passPart i w .capPrune) := by
  cases hpressure : i.env.pressure with
  | none =>
    simp only [passPart, hpressure, Option.elim]
    exact .refl w
  | some pressure =>
    simp only [Tidy, passPart, hpressure, Option.elim, Option.isSome_some, forall_const] at htidy ⊢
    refine .onCaps (pruneCaps_carried (w := w.capWorld) fun hdead => ?_)
    have hbare := htidy pid hpid hdead
    exact ⟨Option.isNone_iff_eq_none.mp (Option.isSome_eq_false_iff.mp
      (hbare .capUnavailable rfl rfl)), Option.isNone_iff_eq_none.mp
        (Option.isSome_eq_false_iff.mp (hbare .capCooled rfl rfl))⟩

/-- **A part that leaves nothing behind** keeps what is in order, and puts its own in order. -/
theorem passPart_carried {part : PassPart} (hscan : part ≠ .scan) (htidy : Tidy i w part)
    (hpid : ¬ w.Seen pid) :
    w.Carried pid (passPart i w part) ∧ Settles pid (passPart i w part) part := by
  cases part
  case scan => exact absurd rfl hscan
  case heavyLoop => exact heavyLoop_carried hpid
  case heavyRelease => exact heavyRelease_carried htidy hpid
  case heavyPrune => exact ⟨heavyPrune_carried htidy hpid, trivial⟩
  case oomRelease => exact oomRelease_carried htidy hpid
  case capRelease => exact capRelease_carried htidy hpid
  case oomPrune => exact ⟨(oomPrune_carried htidy hpid).1, trivial⟩
  case capPrune => exact ⟨capPrune_carried htidy hpid, trivial⟩
  case persist => exact ⟨.onOom (f := fun o => (o.persist _).1) (.persist _ _), trivial⟩
  case niceRelease =>
    cases hpressure : i.env.pressure with
    | none =>
      simp only [Tidy, passPart, hpressure, Option.elim] at htidy ⊢
      exact ⟨.refl w, PidMap.backed_cooled.mp (htidy rfl pid hpid)⟩
    | some pressure =>
      simp only [passPart, hpressure, Option.elim]
      exact niceRelease_carried hpid hpressure htidy
  all_goals
    refine ⟨?_, trivial⟩
    cases hpressure : i.env.pressure with
    | none =>
      simp only [passPart, hpressure, Option.elim]
      exact .refl w
    | some pressure =>
      simp only [Tidy, passPart, hpressure, Option.elim, Option.isSome_some,
        forall_const] at htidy ⊢
      first
        | exact reniceLoop_carried hpid
        | exact biasLoop_carried hpid
        | exact capLoop_carried hpid
        | exact .onOom (.of_state rfl)
        | exact .onOom (sweep_carried _ _ _ _)
        | exact .onNice (pruneLimiter_carried fun h => unheld_of_bare (htidy pid hpid h))

end Parts

/-! ## A pass -/

section Pass

variable {i : PidPass} {w : PassWorld} {pid : Pid}

theorem passPart_samples {part : PassPart} (hscan : part ≠ .scan) :
    (passPart i w part).samples = w.samples := by
  cases part
  case scan => exact absurd rfl hscan
  case heavyRelease => exact heavyRelease_samples i w
  case heavyLoop | heavyPrune | persist => rfl
  all_goals
    unfold passPart
    cases i.env.pressure with
    | none => rfl
    | some pressure =>
      first
        | rfl
        | exact (reniceLoop_hand i w pressure).1
        | exact (biasLoop_hand i w pressure).1
        | exact (capLoop_hand i w pressure).1
        | exact niceRelease_samples i w pressure

/-- Only a scan changes what is seen. -/
theorem seen_parts {parts : List PassPart} (hscan : .scan ∉ parts) :
    (Runs.exec (passPart i) w parts).Seen pid ↔ w.Seen pid := by
  unfold PassWorld.Seen
  induction parts generalizing w with
  | nil => exact Iff.rfl
  | cons part parts ih =>
    rw [List.mem_cons, not_or] at hscan
    rw [Runs.exec_cons, ih hscan.2, passPart_samples (Ne.symm hscan.1)]

theorem parts_carried {parts : List PassPart} (hscan : .scan ∉ parts)
    (htidy : Runs.Along (passPart i) (Tidy i) w parts) (hpid : ¬ w.Seen pid) :
    w.Carried pid (Runs.exec (passPart i) w parts) ∧
      ∀ part ∈ parts, Settles pid (Runs.exec (passPart i) w parts) part := by
  induction parts generalizing w with
  | nil => exact ⟨.refl w, fun _ => nofun⟩
  | cons part parts ih =>
    rw [List.mem_cons, not_or] at hscan
    obtain ⟨hcarried, hsettled⟩ := passPart_carried (Ne.symm hscan.1) htidy.1 hpid
    have hunseen : ¬ (passPart i w part).Seen pid := by
      unfold PassWorld.Seen
      rwa [passPart_samples (Ne.symm hscan.1)]
    obtain ⟨hrest, hlater⟩ := ih hscan.2 htidy.2 hunseen
    refine ⟨hcarried.trans hrest, fun part' hin => ?_⟩
    rcases List.mem_cons.mp hin with rfl | hin
    · exact hsettled.carried hrest
    · exact hlater part' hin

/-- Every key under the pid comes with the obligation it is about. -/
def PassWorld.InOrder (w : PassWorld) (pid : Pid) : Prop := ∀ m : PidMap, m.Backed w pid

/-- Of the maps no pass brings up to date. -/
def PassWorld.LastingInOrder (w : PassWorld) (pid : Pid) : Prop :=
  ∀ m : PidMap, m.lasting = true → m.Backed w pid

theorem lastingInOrder_iff : w.LastingInOrder pid ↔
    (w.niceWorld.book pid).CountsHeld ∧ w.state.oom.CountHeld pid ∧ w.state.caps.CountHeld pid ∧
      w.niceRestoreSkippedPids.lookup pid = none ∧ w.capRefusals.lookup pid = none := by
  have hnone : ∀ {β : Type} {o : Option β}, o.isSome = false ↔ o = none :=
    Option.isSome_eq_false_iff.trans Option.isNone_iff_eq_none
  constructor
  · intro h
    refine ⟨fun k hcounted => ?_, PidMap.backed_oomUnavailable.mp (h .oomUnavailable rfl),
      PidMap.backed_capUnavailable.mp (h .capUnavailable rfl),
      hnone.mp ((PidMap.backed_free rfl).mp (h .skipped rfl)),
      hnone.mp ((PidMap.backed_free rfl).mp (h .capRefused rfl))⟩
    rcases hcounted with hcounted | hcounted
    · exact (PidMap.backed_owing rfl).mp (h (.unavailable k) rfl) hcounted
    · exact (PidMap.backed_owing rfl).mp (h (.failures k) rfl) hcounted
  · rintro ⟨hnice, hoom, hcaps, hskipped, hrefused⟩ m hlasting
    cases m
    case unavailable k => exact (PidMap.backed_owing (o := .reniced k) rfl).mpr (hnice k ∘ Or.inl)
    case failures k => exact (PidMap.backed_owing (o := .reniced k) rfl).mpr (hnice k ∘ Or.inr)
    case oomUnavailable => exact PidMap.backed_oomUnavailable.mpr hoom
    case capUnavailable => exact PidMap.backed_capUnavailable.mpr hcaps
    case skipped => exact (PidMap.backed_free rfl).mpr (hnone.mpr hskipped)
    case capRefused => exact (PidMap.backed_free rfl).mpr (hnone.mpr hrefused)
    all_goals cases hlasting

theorem PassWorld.Carried.lasting {w' : PassWorld} (h : w.Carried pid w')
    (hw : w.LastingInOrder pid) : w'.LastingInOrder pid := by
  rw [lastingInOrder_iff] at hw ⊢
  obtain ⟨hnice, hoom, hcaps, hskipped, hrefused⟩ := hw
  exact ⟨h.nice.counts hnice, h.oomCount hoom, h.caps.count hcaps, h.skipped hskipped,
    h.refused hrefused⟩

/-- What the last parts leave of the descendants that are known. -/
theorem lastParts_known (h : w.state.oom.KnownHeld pid) :
    (passPart i (passPart i w .capPrune) .persist).state.oom.KnownHeld pid := by
  have hprune : (passPart i w .capPrune).state.oom = w.state.oom := by
    unfold passPart
    cases i.env.pressure <;> rfl
  have hpersist : (passPart i (passPart i w .capPrune) .persist).state.oom = w.state.oom :=
    (persist_oom _ _).trans hprune
  rw [hpersist]
  exact h

theorem parts_known (htidy : Runs.Along (passPart i) (Tidy i) w passParts.tail)
    (hpid : ¬ w.Seen pid) : (Runs.exec (passPart i) w passParts.tail).state.oom.KnownHeld pid := by
  have hsplit : passParts.tail = passParts.tail.take 12 ++ [.oomPrune, .capPrune, .persist] := rfl
  rw [hsplit] at htidy ⊢
  obtain ⟨hfront, hprune, -⟩ := Runs.along_append.mp htidy
  have hpid' : ¬ (Runs.exec (passPart i) w (passParts.tail.take 12)).Seen pid :=
    (seen_parts (by decide)).not.mpr hpid
  generalize hw' : Runs.exec (passPart i) w (passParts.tail.take 12) = w' at hprune hpid'
  rw [Runs.exec_append, hw']
  exact lastParts_known (oomPrune_carried hprune hpid').2

/-- **A pass that leaves nothing behind** has every key in order of who is not in its scan. -/
theorem runParts_inOrder (htidy : Runs.Along (passPart i) (Tidy i) w passParts)
    (hw : ∀ pid, ¬ w.Seen pid → w.InOrder pid) (hpid : ¬ (runParts i w).Seen pid) :
    (runParts i w).InOrder pid := by
  have hparts : runParts i w = Runs.exec (passPart i) (passPart i w .scan) passParts.tail := rfl
  obtain ⟨hscan, hrest : Runs.Along (passPart i) (Tidy i) (passPart i w .scan) passParts.tail⟩ :=
    htidy
  have hcounts : ¬ (passPart i w .scan).Seen pid → (passPart i w .scan).LastingInOrder pid := by
    -- The scan itself forgets who was seen; the verdicts and the counts stay.
    intro hunseen m hlasts
    by_cases hseen : w.Seen pid
    · exact hscan pid hseen hunseen m hlasts
    · exact hw pid hseen m
  generalize hscanned : passPart i w .scan = scanned at hparts hrest hcounts
  generalize runParts i w = done at hparts hpid ⊢
  subst hparts
  have hunseen : ¬ scanned.Seen pid := fun hseen => hpid ((seen_parts (by decide)).mpr hseen)
  obtain ⟨hcarried, hsettled⟩ := parts_carried (by decide) hrest hunseen
  have hknown := parts_known hrest hunseen
  generalize Runs.exec (passPart i) scanned passParts.tail = done at *
  have hlasting : done.LastingInOrder pid := hcarried.lasting (hcounts hunseen)
  intro m
  cases m
  case heavySince =>
    have hheavy : (done.niceWorld.book pid).heavy = none := (hsettled .heavyLoop (by decide)).1
    exact (PidMap.backed_free rfl).mpr (congrArg Option.isSome hheavy)
  case heavyReports => exact (PidMap.backed_free rfl).mpr (hsettled .heavyLoop (by decide)).2
  case cooled k =>
    refine PidMap.backed_cooled.mpr ?_
    cases k
    case legacy => exact hsettled .heavyRelease (by decide)
    case memory => exact hsettled .niceRelease (by decide)
  case oomKnown => exact PidMap.backed_oomKnown.mpr hknown
  case oomCooled => exact PidMap.backed_oomCooled.mpr (hsettled .oomRelease (by decide))
  case capCooled => exact PidMap.backed_capCooled.mpr (hsettled .capRelease (by decide))
  case reniced k => exact (PidMap.backed_owing rfl).mpr id
  case oomBiased => exact (PidMap.backed_owing rfl).mpr id
  case oomPending => exact (PidMap.backed_owing rfl).mpr id
  case capped => exact (PidMap.backed_owing rfl).mpr id
  all_goals exact hlasting _ rfl

end Pass

/-! ## Runs -/

theorem PassWorld.InOrder.of_table {w : PassWorld} {t : ProcTable} {pid : Pid}
    (h : w.InOrder pid) : PassWorld.InOrder { w with table := t } pid := by
  intro m hhas
  obtain ⟨o, howing, howed⟩ := h m (by cases m <;> exact hhas)
  exact ⟨o, howing, by cases o <;> exact howed⟩

theorem pidStep_inOrder {w : PassWorld} {e : PidEvent} (hw : ∀ pid, ¬ w.Seen pid → w.InOrder pid)
    (htidy : TidyEvent w e) : ∀ pid, ¬ (pidStep w e).Seen pid → (pidStep w e).InOrder pid := by
  intro pid hpid
  cases e with
  | processes t => exact (hw pid hpid).of_table
  | pass i =>
    unfold pidStep at hpid ⊢
    dsimp only at hpid ⊢
    split at hpid
    · next hruns =>
      rw [if_pos hruns]
      exact runParts_inOrder (htidy hruns) hw hpid
    · next hfails =>
      rw [if_neg hfails]
      exact hw pid hpid

/-- Every obligation is its own. -/
theorem PidMap.owing_owing {m o : PidMap} (h : m.owing = some o) : o.owing = some o := by
  cases m <;> cases h <;> rfl

theorem accounted_of_inOrder {w : PassWorld} (h : ∀ pid, ¬ w.Seen pid → w.InOrder pid) :
    w.Accounted := by
  intro m pid hhas
  by_cases hseen : w.Seen pid
  · exact Or.inl hseen
  · obtain ⟨o, howing, howed⟩ := h pid hseen m hhas
    exact Or.inr ⟨o, PidMap.owing_owing howing, howed⟩

/-- **The maps by pid are accounted for** in every run whose passes leave nothing behind. -/
theorem pid_maps_accounted {start : PassWorld}
    (hstart : ∀ pid, ¬ start.Seen pid → start.InOrder pid) {events : List PidEvent}
    (htidy : Runs.Along pidStep TidyEvent start events) :
    Runs.Always pidStep PassWorld.Accounted start events :=
  (htidy.always (fun _ _ => pidStep_inOrder) hstart).mono fun _ => accounted_of_inOrder

/-- A process whose priority cannot be taken back, and which cannot be capped. -/
def unrestorablePass : PidPass where
  policy := { capOffendersCpuPercent := 50, biasOomOnPressure := false }
  env := { shortPass with
    pressure := some .critical
    memory := { now := 0, canRestoreFor := fun _ => false } }
  capError _ := "exempt process in the scope"

def startedWorld : PassWorld := { table := compilerTable, state := {}, disk := ⟨none, []⟩ }

theorem startedWorld_inOrder (pid : Pid) (_ : ¬ startedWorld.Seen pid) :
    startedWorld.InOrder pid := by
  intro m hhas
  cases m with
  | reniced k | cooled k | unavailable k | failures k => cases k <;> cases hhas
  | _ => cases hhas

theorem pid_maps_accounted_unrestorable :
    Runs.Always pidStep PassWorld.Accounted startedWorld [.pass unrestorablePass] := by
  -- Nothing is adjusted, so no release and no prune finds an entry.
  have htidy : Runs.Along (passPart unrestorablePass) (Tidy unrestorablePass) startedWorld
      passParts := by
    refine ⟨fun pid hseen => absurd hseen List.not_mem_nil, trivial,
      fun pid hdue => absurd hdue List.not_mem_nil, ?heavyPrune, trivial, trivial, trivial, trivial,
      trivial, nofun, nofun, nofun, ?nicePrune, ?oomPrune, ?capPrune, trivial, trivial⟩
    case heavyPrune =>
      rintro pid - ⟨e, he, -⟩
      cases he
    case nicePrune =>
      rintro - pid - ⟨e, he, -⟩
      cases he
    case oomPrune =>
      rintro pid - ⟨e, he, -⟩
      cases he
    case capPrune =>
      rintro - pid - ⟨e, he, -⟩
      cases he
  exact pid_maps_accounted startedWorld_inOrder ⟨fun _ => htidy, trivial⟩

/-- The compiler is refused a renice and a cap, and exits. The next pass scans an empty system, and
its verdicts are still kept. -/
theorem verdicts_outlive_process : ¬ ∀ (start : PassWorld) (events : List PidEvent),
    (∀ pid, ¬ start.Seen pid → start.InOrder pid) →
      Runs.Always pidStep PassWorld.Accounted start events := by
  intro h
  have hlast := (h startedWorld [.pass unrestorablePass, .processes fun _ => none,
    .pass { unrestorablePass with env := { unrestorablePass.env with rows := some [] } }]
    startedWorld_inOrder).last
  rcases hlast .skipped 7 (by decide) with hseen | ⟨m, howing, howed⟩
  · exact absurd hseen List.not_mem_nil
  · revert howed
    cases m with
    | reniced k => cases k <;> decide
    | oomBiased | oomPending | capped => decide
    | _ => cases howing

/-! ### What is skipped stays -/

theorem foldl_reniceOffender_skipped {g : NicePolicy} {env : NiceEnv} {pid : Pid}
    {ps : List ProcSample} {v : NiceWorld × FinMap Pid Unit}
    (h : (v.2.lookup pid).isSome = true) :
    ((ps.foldl (reniceOffender g env) v).2.lookup pid).isSome = true := by
  induction ps generalizing v with
  | nil => exact h
  | cons p ps ih =>
    refine ih ?_
    unfold reniceOffender
    split
    · by_cases hp : pid = p.pid
      · rw [hp, AList.lookup_insert]
        rfl
      · rw [AList.lookup_insert_ne hp]
        exact h
    · exact h

theorem passPart_skipped {i : PidPass} {w : PassWorld} {pid : Pid} (part : PassPart)
    (h : PidMap.skipped.has w pid = true) : PidMap.skipped.has (passPart i w part) pid = true := by
  have hpressure : ∀ f : Pressure → PassWorld,
      (∀ pressure, PidMap.skipped.has (f pressure) pid = true) →
        PidMap.skipped.has (i.env.pressure.elim w f) pid = true := by
    intro f hf
    cases i.env.pressure with
    | none => exact h
    | some pressure => exact hf pressure
  cases part
  case scan | heavyLoop | heavyPrune | persist => exact h
  case heavyRelease =>
    change PidMap.skipped.has (heavyRelease i w) pid = true
    unfold heavyRelease
    split <;> exact h
  all_goals refine hpressure _ fun pressure => ?_
  case reniceLoop =>
    unfold reniceLoop
    dsimp only
    split
    · exact foldl_reniceOffender_skipped h
    · exact h
  case biasLoop =>
    unfold biasLoop
    split <;> exact h
  case capLoop =>
    unfold capLoop
    split <;> exact h
  case niceRelease =>
    unfold niceRelease
    split
    · split <;> exact h
    · exact h
  all_goals exact h

/-- **A refused renice is never forgotten**: the pid stays in the map over every run, whoever has it
by then. -/
theorem skipped_stays {start : PassWorld} {pid : Pid} (h : PidMap.skipped.has start pid = true)
    (events : List PidEvent) :
    Runs.Always pidStep (fun w => PidMap.skipped.has w pid = true) start events := by
  refine Runs.Always.of_inv (fun w e hw => ?_) h
  cases e with
  | processes t => exact hw
  | pass i =>
    unfold pidStep
    dsimp only
    split
    · have hparts : Runs.Always (passPart i) (fun w => PidMap.skipped.has w pid = true) w
          passParts :=
        Runs.Always.of_inv (fun _ part => passPart_skipped part) hw
      exact hparts.last
    · exact hw

end DraconGuard
