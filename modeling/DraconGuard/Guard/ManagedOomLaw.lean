import DraconGuard.Guard.ManagedOom

/-!
# Managed debts retire only on proof

"Only a terminal certificate retires a lifetime debt" (test of `decide`, managed_oom.rs:688): a live
debt file goes by a retirement that saw a certificate of its admission, by archiving in a later
boot, or by a confirmed reconciliation, whatever step comes when and wherever it fails. A job that
has been biased keeps its debt, also on disk, until then (`ManagedWorld.Covered`).

"Ancestry-based bias must not be applied on top of it" (main.rs:6556) rests on one reading of
`/proc/<pid>/cgroup`, and `is_managed_job_process` takes a reading that fails for a process outside
every job (`unreadable_group_biased`). **`managedDebts`** is the law where it does not.
-/

namespace DraconGuard

namespace ManagedOom

open Function (update update_self update_of_ne)

/-! ## The law -/

/-- A debt of this admission is in the registry. -/
def Registry.Held (r : Registry) (id : String) (job : Job) : Prop :=
  ∃ debt, r.debts id = some debt ∧ sameAdmission debt.admission job = true

/-- What a step that ends a debt has seen. -/
def Proven (w : ManagedWorld) (id : String) (debt : Debt) : ManagedStep → Prop
  | .drainOne env id' force exempt expected => id' = id ∧ ∃ job, w.visible.jobs id = some job ∧
      (job.phase = .terminal ∧ job.terminalProof = true ∧
          sameAdmission job debt.admission = true ∨
        job.bootId ≠ w.boot ∧
          ((managedStep w (.drainOne env id' force exempt expected)).visible.archived id).isSome)
  | .reconcile _ id' confirmed => id' = id ∧ confirmed = true ∧
      w.groups debt.admission.group = none ∧ w.table debt.admission.sentinel = none
  -- it had not reached the disk
  | .reboot _ _ => ¬ w.durable.Held id debt.admission
  | _ => False

/-- **A live debt is kept** until its end is proven. -/
def RetiredOnProof (w : ManagedWorld) (i : ManagedStep) : Prop :=
  ∀ id debt, w.visible.debts id = some debt →
    (managedStep w i).visible.Held id debt.admission ∨ Proven w id debt i

/-- The process runs in the scope of a registered job. -/
def ManagedWorld.Member (w : ManagedWorld) (pid : Pid) (job : Job) : Prop :=
  ∃ group, w.group pid = some group ∧ idFor group = some job.id ∧
    w.visible.jobs job.id = some job

/-- **A bias of a member is written under a debt**: one of its admission, with its baseline, that
a power loss would have left. -/
def BiasedUnderDebt (w : ManagedWorld) (i : ManagedStep) : Prop :=
  ∀ b ∈ (managedStep w i).biased, ∀ job, w.Member b.pid job →
    ∃ debt, b.disk.debts job.id = some debt ∧ sameAdmission debt.admission job = true ∧
      debt.admission.baseline = job.baseline

structure ManagedLawful (w : ManagedWorld) (i : ManagedStep) : Prop where
  retired : RetiredOnProof w i
  biased : BiasedUnderDebt w i

/-- The condition: `is_managed_job_process` can read the cgroup of a member. -/
def ReadsMembers (w : ManagedWorld) : ManagedStep → Prop
  | .pressureBias env p _ _ => env.groupReadable = true ∨ ∀ job, ¬ w.Member p.pid job
  | _ => True

/-- A job with a member biased on its account, whose end was not seen, has its debt, also on
disk. -/
def ManagedWorld.Covered (w : ManagedWorld) : Prop :=
  ∀ id job, w.owed id = some job → w.visible.Held id job ∧ w.durable.Held id job

/-! ## Admissions -/

/-- What makes two records the same admission. -/
def Job.identity (job : Job) : Job := { job with phase := .admitted, terminalProof := false }

theorem sameAdmission_iff {left right : Job} :
    sameAdmission left right = true ↔ left.identity = right.identity := by
  unfold sameAdmission Job.identity
  rw [decide_eq_true_iff]
  constructor
  · intro h
    rw [← h]
  · intro h
    cases left
    cases right
    simp only [Job.mk.injEq] at h ⊢
    tauto

theorem sameAdmission_refl (job : Job) : sameAdmission job job = true := sameAdmission_iff.2 rfl

theorem sameAdmission_trans {a b c : Job} (hab : sameAdmission a b = true)
    (hbc : sameAdmission b c = true) : sameAdmission a c = true :=
  sameAdmission_iff.2 ((sameAdmission_iff.1 hab).trans (sameAdmission_iff.1 hbc))

theorem sameAdmission_symm {a b : Job} (h : sameAdmission a b = true) :
    sameAdmission b a = true := sameAdmission_iff.2 (sameAdmission_iff.1 h).symm

theorem sameAdmission_id {a b : Job} (h : sameAdmission a b = true) : a.id = b.id := by
  have hid := congrArg Job.id (sameAdmission_iff.1 h)
  exact hid

theorem sameAdmission_baseline {a b : Job} (h : sameAdmission a b = true) :
    a.baseline = b.baseline := by
  have hbaseline := congrArg Job.baseline (sameAdmission_iff.1 h)
  exact hbaseline

/-! ## What the checks establish -/

section Outcome

variable {α β : Type} {x : Outcome α} {f : α → Outcome β} {b : β} {ok : Bool} {text : String}

theorem bind_eq_ok : (x >>= f) = .ok b ↔ ∃ a, x = .ok a ∧ f a = .ok b := by
  cases x with
  | error e => exact ⟨fun h => (by cases h), fun ⟨a, h, _⟩ => (by cases h)⟩
  | ok a => exact ⟨fun h => ⟨a, rfl, h⟩, fun ⟨a', h, h'⟩ => (by cases h; exact h')⟩

theorem ensure_eq_ok {u : Unit} : ensure ok text = .ok u ↔ ok = true := by
  cases ok with
  | true => exact iff_of_true rfl rfl
  | false => exact iff_of_false (fun h => by cases h) (fun h => by cases h)

end Outcome

theorem loadJob_eq_ok {readable : Bool} {id : String} {w : ManagedWorld} {job : Job}
    (h : loadJob readable id w = .ok job) : w.visible.jobs id = some job ∧ job.id = id := by
  unfold loadJob at h
  split at h
  · rename_i found hfound
    split at h
    · obtain ⟨_, hid, hjob⟩ := bind_eq_ok.1 h
      obtain rfl : found = job := Except.ok.inj hjob
      rw [ensure_eq_ok, Bool.and_eq_true, beq_iff_eq, beq_iff_eq] at hid
      exact ⟨hfound, hid.2⟩
    · cases h
  · cases h

theorem loadDebt_eq_ok {readable : Bool} {id : String} {w : ManagedWorld} {found : Option Debt}
    (h : loadDebt readable id w = .ok found) :
    w.visible.debts id = found ∧ ∀ debt, found = some debt → debt.admission.id = id := by
  unfold loadDebt at h
  split at h
  · split at h
    · rename_i hnone
      obtain rfl := Except.ok.inj h
      exact ⟨hnone, fun debt hdebt => by cases hdebt⟩
    · rename_i debt hdebt
      obtain ⟨_, hid, hfound⟩ := bind_eq_ok.1 h
      obtain rfl : some debt = found := Except.ok.inj hfound
      rw [ensure_eq_ok, Bool.and_eq_true, beq_iff_eq, beq_iff_eq] at hid
      exact ⟨hdebt, fun debt' hdebt' => by cases hdebt'; exact hid.1⟩
  · cases h

/-- What `bias_inner` knows when it begins to write. -/
structure BiasPlan.Sound (plan : BiasPlan) (pid : Pid) (w : ManagedWorld) : Prop where
  job : w.visible.jobs plan.job.id = some plan.job
  member : ∃ group, w.group pid = some group ∧ idFor group = some plan.job.id
  previous : w.visible.debts plan.job.id = plan.previous
  same : ∀ debt, plan.previous = some debt → sameAdmission debt.admission plan.job = true

theorem biasPlan_sound {env : ManagedBiasEnv} {p : ProcSample} {exempt : List String}
    {expected : Option Job} {w : ManagedWorld} {plan : BiasPlan}
    (h : biasPlan env p exempt expected w = .ok plan) : plan.Sound p.pid w := by
  unfold biasPlan at h
  obtain ⟨-, -, h⟩ := bind_eq_ok.1 h
  split at h
  · cases h
  · rename_i group hgroup
    split at h
    · cases h
    · rename_i id hid
      obtain ⟨-, -, h⟩ := bind_eq_ok.1 h
      obtain ⟨-, -, h⟩ := bind_eq_ok.1 h
      obtain ⟨job, hjob, h⟩ := bind_eq_ok.1 h
      obtain ⟨-, -, h⟩ := bind_eq_ok.1 h
      obtain ⟨-, -, h⟩ := bind_eq_ok.1 h
      obtain ⟨-, -, h⟩ := bind_eq_ok.1 h
      obtain ⟨-, -, h⟩ := bind_eq_ok.1 h
      obtain ⟨original, -, h⟩ := bind_eq_ok.1 h
      obtain ⟨previous, hprevious, h⟩ := bind_eq_ok.1 h
      obtain ⟨_, hsame, h⟩ := bind_eq_ok.1 h
      obtain ⟨-, -, h⟩ := bind_eq_ok.1 h
      obtain ⟨-, -, h⟩ := bind_eq_ok.1 h
      obtain rfl : (⟨job, original, previous⟩ : BiasPlan) = plan := Except.ok.inj h
      obtain ⟨hfile, rfl⟩ := loadJob_eq_ok hjob
      obtain ⟨hdebt, -⟩ := loadDebt_eq_ok hprevious
      rw [ensure_eq_ok] at hsame
      refine ⟨hfile, ⟨group, ?_, hid⟩, hdebt, fun debt hfound => ?_⟩
      · unfold groupFor at hgroup
        split at hgroup
        · exact hgroup
        · cases hgroup
      · rw [show previous = some debt from hfound, Option.all_some, Bool.and_eq_true] at hsame
        exact hsame.1

/-- What `drain_one` knows when it decides. -/
theorem drainPlan_eq_ok {env : DrainEnv} {id : String} {force : Bool} {expected : Option Job}
    {w : ManagedWorld} {debt : Debt} {job : Job} {action : Action}
    (h : drainPlan env id force expected w = .ok (some (debt, job, action))) :
    w.visible.debts id = some debt ∧ debt.admission.id = id ∧ w.visible.jobs id = some job ∧
      action = Facts.decide
        { sameBoot := job.bootId == w.boot
          terminalProof := job.phase == .terminal && job.terminalProof
          sameAdmission := sameAdmission job debt.admission
          deadlinePassed := force || debt.deadline ≤ w.now
          draining := debt.draining } := by
  unfold drainPlan at h
  obtain ⟨-, -, h⟩ := bind_eq_ok.1 h
  obtain ⟨found, hfound, h⟩ := bind_eq_ok.1 h
  obtain ⟨hdebt, hid⟩ := loadDebt_eq_ok hfound
  split at h
  · cases h
  · rename_i debt' _
    obtain ⟨job', hjob, h⟩ := bind_eq_ok.1 h
    obtain ⟨-, -, h⟩ := bind_eq_ok.1 h
    obtain ⟨-, -, h⟩ := bind_eq_ok.1 h
    have heq := Option.some.inj (Except.ok.inj h)
    obtain rfl := congrArg Prod.fst heq
    obtain rfl := congrArg (fun x => x.2.1) heq
    exact ⟨hdebt, hid _ rfl, (loadJob_eq_ok hjob).1, (congrArg (fun x => x.2.2) heq).symm⟩

theorem decide_retire {facts : Facts} (h : facts.decide = .retire) :
    facts.terminalProof = true ∧ facts.sameAdmission = true := by
  unfold Facts.decide at h
  split at h
  · cases h
  split at h
  · cases h
  · rename_i hsame
    split at h
    · next hproof =>
      rw [Bool.not_eq_true', Bool.not_eq_false] at hsame
      exact ⟨hproof, hsame⟩
    · split at h <;> cases h

theorem decide_archive {facts : Facts} (h : facts.decide = .archivePreviousBoot) :
    facts.sameBoot = false := by
  unfold Facts.decide at h
  split at h
  · next hboot => rwa [Bool.not_eq_true'] at hboot
  split at h
  · cases h
  split at h
  · cases h
  · split at h <;> cases h

theorem orphaned_eq_ok {env : ReconcileEnv} {debt : Debt} {w : ManagedWorld}
    (h : orphaned env debt w = .ok ()) :
    w.groups debt.admission.group = none ∧ w.table debt.admission.sentinel = none := by
  unfold orphaned at h
  obtain ⟨-, -, h⟩ := bind_eq_ok.1 h
  obtain ⟨_, hgroup, h⟩ := bind_eq_ok.1 h
  rw [ensure_eq_ok, Option.isNone_iff_eq_none] at hgroup h
  exact ⟨hgroup, h⟩

/-! ## What a step keeps -/

/-- A step that ends no debt and writes no bias. -/
structure Keeps (w w' : ManagedWorld) : Prop where
  held : ∀ id job, w.visible.Held id job → w'.visible.Held id job
  covered : w.Covered → w'.Covered
  biased : w'.biased = w.biased

theorem Keeps.refl (w : ManagedWorld) : Keeps w w := ⟨fun _ _ h => h, id, rfl⟩

theorem Keeps.trans {w₁ w₂ w₃ : ManagedWorld} (h : Keeps w₁ w₂) (h' : Keeps w₂ w₃) :
    Keeps w₁ w₃ :=
  ⟨fun id job hd => h'.held id job (h.held id job hd), h'.covered ∘ h.covered,
    h'.biased.trans h.biased⟩

/-- A change of the registry that keeps what reads as held now, however far it gets. -/
theorem Keeps.publish {w : ManagedWorld} {o : SaveOutcome} {f : Registry → Registry}
    (hf : ∀ id job, w.visible.Held id job → (f w.visible).Held id job) :
    Keeps w (w.publish o f).1 := by
  cases o with
  | failed => exact Keeps.refl w
  | unsynced =>
    exact ⟨hf, fun hw id job howed => ⟨hf id job (hw id job howed).1, (hw id job howed).2⟩, rfl⟩
  | synced =>
    exact ⟨hf, fun hw id job howed =>
      ⟨hf id job (hw id job howed).1, hf id job (hw id job howed).1⟩, rfl⟩

theorem Keeps.saveJob (w : ManagedWorld) (o : SaveOutcome) (job : Job) :
    Keeps w (w.saveJob o job).1 := Keeps.publish fun _ _ h => h

/-- A debt replaces one of its own admission. -/
theorem Keeps.saveDebt {w : ManagedWorld} {debt : Debt} (o : SaveOutcome)
    (hsame : ∀ old, w.visible.debts debt.admission.id = some old →
      sameAdmission debt.admission old.admission = true) : Keeps w (w.saveDebt o debt).1 := by
  refine Keeps.publish fun id job ⟨old, hold, hjob⟩ => ?_
  by_cases hid : id = debt.admission.id
  · subst hid
    exact ⟨debt, update_self .., sameAdmission_trans (hsame old hold) hjob⟩
  · exact ⟨old, (update_of_ne hid _ _).trans hold, hjob⟩

/-- A step that touches neither the debts nor what is owed. -/
theorem Keeps.of_eq {w w' : ManagedWorld} (hvisible : w'.visible.debts = w.visible.debts)
    (hdurable : w'.durable.debts = w.durable.debts) (howed : w'.owed = w.owed)
    (hbiased : w'.biased = w.biased) : Keeps w w' := by
  have hheld : ∀ id job, w.visible.Held id job → w'.visible.Held id job :=
    fun id job ⟨debt, hdebt, hjob⟩ => ⟨debt, (congrFun hvisible id).trans hdebt, hjob⟩
  refine ⟨hheld, fun hw id job h => ?_, hbiased⟩
  obtain ⟨hnow, debt, hdebt, hjob⟩ := hw id job (howed ▸ h)
  exact ⟨hheld id job hnow, debt, (congrFun hdurable id).trans hdebt, hjob⟩

/-- A step that ends the debt of one job at most. -/
structure Ends (ended : String) (w w' : ManagedWorld) : Prop where
  held : ∀ id job, id ≠ ended → w.visible.Held id job → w'.visible.Held id job
  covered : w.Covered → w'.Covered
  biased : w'.biased = w.biased

theorem Keeps.ends {w w' : ManagedWorld} (h : Keeps w w') (ended : String) : Ends ended w w' :=
  ⟨fun id job _ hd => h.held id job hd, h.covered, h.biased⟩

theorem Keeps.then_ends {w₁ w₂ w₃ : ManagedWorld} {ended : String} (h : Keeps w₁ w₂)
    (h' : Ends ended w₂ w₃) : Ends ended w₁ w₃ :=
  ⟨fun id job hid hd => h'.held id job hid (h.held id job hd), h'.covered ∘ h.covered,
    h'.biased.trans h.biased⟩

theorem Ends.publish {w : ManagedWorld} {ended : String} {o : SaveOutcome}
    {f : Registry → Registry}
    (hf : ∀ id job, id ≠ ended → w.visible.Held id job → (f w.visible).Held id job) :
    Ends ended w (if o = .failed then w else (w.publish o f).1.settle ended) := by
  have howed : ∀ {id job}, (update w.owed ended none) id = some job →
      id ≠ ended ∧ w.owed id = some job := by
    intro id job h
    have hid : id ≠ ended := by
      rintro rfl
      rw [update_self] at h
      cases h
    exact ⟨hid, (update_of_ne hid none w.owed) ▸ h⟩
  cases o with
  | failed => exact (Keeps.refl w).ends ended
  | unsynced =>
    exact ⟨hf, fun hw id job h => ⟨hf id job (howed h).1 (hw id job (howed h).2).1,
      (hw id job (howed h).2).2⟩, rfl⟩
  | synced =>
    exact ⟨hf, fun hw id job h => ⟨hf id job (howed h).1 (hw id job (howed h).2).1,
      hf id job (howed h).1 (hw id job (howed h).2).1⟩, rfl⟩

/-- The file of one job goes, the others stay. -/
theorem Registry.Held.of_ne {r r' : Registry} {ended id : String} {job : Job} (hid : id ≠ ended)
    (hr : r'.debts = update r.debts ended none) (h : r.Held id job) : r'.Held id job := by
  obtain ⟨debt, hdebt, hjob⟩ := h
  refine ⟨debt, ?_, hjob⟩
  rw [hr, update_of_ne hid]
  exact hdebt

theorem retire_ends (env : RetireEnv) (debt : Debt) (w : ManagedWorld) :
    Ends debt.admission.id w (retire env debt w).1 := by
  unfold retire
  split
  · exact (Keeps.refl w).ends _
  · exact Ends.publish fun id job hid h => h.of_ne hid rfl

theorem archive_ends (env : ArchiveEnv) (debt : Debt) (w : ManagedWorld) :
    Ends debt.admission.id w (archivePreviousBoot env debt w).1 := by
  unfold archivePreviousBoot
  simp only
  split
  · exact (Keeps.refl w).ends _
  · refine Keeps.then_ends ?_ (Ends.publish fun id job hid h => h.of_ne hid rfl)
    exact Keeps.of_eq rfl rfl rfl rfl

/-- What is archived is filed before the live file goes. -/
theorem archive_filed (env : ArchiveEnv) {debt : Debt} {w : ManagedWorld}
    (hdebt : w.visible.debts debt.admission.id = some debt) :
    (archivePreviousBoot env debt w).1.visible.debts debt.admission.id = some debt ∨
      ((archivePreviousBoot env debt w).1.visible.archived debt.admission.id).isSome := by
  have hfiled : ((w.visible.archived debt.admission.id).or
      (w.visible.debts debt.admission.id)).isSome := by
    rw [hdebt]
    cases w.visible.archived debt.admission.id with
    | none => rfl
    | some _ => rfl
  unfold archivePreviousBoot
  simp only
  split
  · exact Or.inl hdebt
  · cases env.remove with
    | failed => exact Or.inl hdebt
    | unsynced =>
      refine Or.inr ?_
      change (update w.visible.archived _ _ _).isSome = true
      rw [update_self]
      exact hfiled
    | synced =>
      refine Or.inr ?_
      change (update w.visible.archived _ _ _).isSome = true
      rw [update_self]
      exact hfiled

/-! ## Draining -/

theorem restoreMember_frame (env : DrainEnv) (exempt : List String) (job : Job) (w : ManagedWorld)
    (pid : Pid) : ∃ oom, (restoreMember env exempt job w pid).1 = { w with oom := oom } := by
  unfold restoreMember
  split
  · exact ⟨w.oom, rfl⟩
  split
  · exact ⟨w.oom, rfl⟩
  split
  · exact ⟨w.oom, rfl⟩
  split
  · exact ⟨w.oom, rfl⟩
  split
  · exact ⟨w.oom, rfl⟩
  · simp only
    split <;> exact ⟨_, rfl⟩

theorem restoreMembers_frame (env : DrainEnv) (exempt : List String) (job : Job) :
    ∀ (pids : List Pid) (w : ManagedWorld),
      ∃ oom, (restoreMembers env exempt job pids w).1 = { w with oom := oom }
  | [], w => ⟨w.oom, rfl⟩
  | pid :: pids, w => by
    obtain ⟨oom, hone⟩ := restoreMember_frame env exempt job w pid
    rw [restoreMembers]
    split
    · rename_i after hafter
      rw [hafter] at hone
      obtain rfl : after = { w with oom := oom } := hone
      exact restoreMembers_frame env exempt job pids { w with oom := oom }
    · rename_i after e hafter
      rw [hafter] at hone
      exact ⟨oom, hone⟩

theorem drainPass_frame (env : DrainEnv) (exempt : List String) (job : Job) (w : ManagedWorld) :
    ∃ oom, (drainPass env exempt job w).1 = { w with oom := oom } := by
  unfold drainPass
  split
  · exact ⟨w.oom, rfl⟩
  split
  · exact ⟨w.oom, rfl⟩
  · exact restoreMembers_frame env exempt job _ w

/-- A debt that was saved is there. -/
theorem saveDebt_eq {w w' : ManagedWorld} {o : SaveOutcome} {debt : Debt}
    (h : w.saveDebt o debt = (w', true)) :
    w'.visible.debts = update w.visible.debts debt.admission.id (some debt) ∧
      w'.durable.debts = w'.visible.debts := by
  cases o with
  | failed => cases h
  | unsynced => cases h
  | synced =>
    cases h
    exact ⟨rfl, rfl⟩

/-- A job that was saved has taken the debts to the disk with it. -/
theorem saveJob_eq {w w' : ManagedWorld} {o : SaveOutcome} {job : Job}
    (h : w.saveJob o job = (w', true)) :
    w'.visible.debts = w.visible.debts ∧ w'.durable.debts = w.visible.debts := by
  cases o with
  | failed => cases h
  | unsynced => cases h
  | synced =>
    cases h
    exact ⟨rfl, rfl⟩

theorem debts_saveJob (w : ManagedWorld) (o : SaveOutcome) (job : Job) :
    (w.saveJob o job).1.visible.debts = w.visible.debts := by
  cases o <;> rfl

theorem drainAttempt_keeps {env : DrainEnv} {exempt : List String} {debt : Debt} {job : Job}
    {w : ManagedWorld} (hdebt : w.visible.debts debt.admission.id = some debt) :
    Keeps w (drainAttempt env exempt debt job w).1 := by
  unfold drainAttempt
  obtain ⟨oom, hpass⟩ := drainPass_frame env exempt job w
  simp only [hpass]
  have hframe : Keeps w { w with oom := oom } := Keeps.of_eq rfl rfl rfl rfl
  refine hframe.trans (Keeps.saveDebt _ fun old hold => ?_)
  change w.visible.debts debt.admission.id = some old at hold
  rw [hdebt] at hold
  cases hold
  exact sameAdmission_refl _

/-- Draining rewrites the debt of the job and ends none. -/
theorem drainMembers_keeps {env : DrainEnv} {exempt : List String} {debt : Debt} {job : Job}
    {w : ManagedWorld} (hdebt : w.visible.debts debt.admission.id = some debt) :
    Keeps w (drainMembers env exempt debt job w).1 := by
  unfold drainMembers
  simp only
  have hfirst : Keeps w (w.saveDebt env.saveDraining { debt with draining := true }).1 :=
    Keeps.saveDebt _ fun old hold => by
      rw [hdebt] at hold
      cases hold
      exact sameAdmission_refl _
  cases hsave : w.saveDebt env.saveDraining { debt with draining := true } with
  | mk w₁ saved =>
    rw [hsave] at hfirst
    cases saved with
    | false => exact hfirst
    | true =>
      have hdebt₁ : w₁.visible.debts debt.admission.id = some { debt with draining := true } := by
        rw [(saveDebt_eq hsave).1]
        exact update_self ..
      have hsecond := hfirst.trans (Keeps.saveJob w₁ env.saveJob { job with phase := .draining })
      have hjobs := debts_saveJob w₁ env.saveJob { job with phase := .draining }
      cases hsaveJob : w₁.saveJob env.saveJob { job with phase := .draining } with
      | mk w₂ saved =>
        rw [hsaveJob] at hsecond hjobs
        simp only [Bool.not_true, Bool.false_eq_true, if_false]
        cases saved with
        | false => exact hsecond
        | true =>
          refine hsecond.trans (drainAttempt_keeps ?_)
          exact (congrFun hjobs _).trans hdebt₁

/-- **One `drain_one`.** -/
theorem drainOne_lawful (env : DrainEnv) (id : String) (force : Bool) (exempt : List String)
    (expected : Option Job) (w : ManagedWorld) :
    Ends id w (drainOne env id force exempt expected w).1 ∧
      ∀ debt, w.visible.debts id = some debt →
        (drainOne env id force exempt expected w).1.visible.Held id debt.admission ∨
          ∃ job, w.visible.jobs id = some job ∧
            (job.phase = .terminal ∧ job.terminalProof = true ∧
                sameAdmission job debt.admission = true ∨
              job.bootId ≠ w.boot ∧
                ((drainOne env id force exempt expected w).1.visible.archived id).isSome) := by
  have hkeep : ∀ {w' : ManagedWorld}, Keeps w w' → Ends id w w' ∧
      ∀ debt, w.visible.debts id = some debt → w'.visible.Held id debt.admission :=
    fun h => ⟨h.ends id, fun debt hdebt => h.held id _ ⟨debt, hdebt, sameAdmission_refl _⟩⟩
  unfold drainOne
  split
  · exact (hkeep (Keeps.refl w)).imp_right fun h debt hd => Or.inl (h debt hd)
  · exact (hkeep (Keeps.refl w)).imp_right fun h debt hd => Or.inl (h debt hd)
  · exact (hkeep (Keeps.refl w)).imp_right fun h debt hd => Or.inl (h debt hd)
  · rename_i debt job hplan
    obtain ⟨hdebt, rfl, hjob, hdecide⟩ := drainPlan_eq_ok hplan
    obtain ⟨hproof, hsame⟩ := decide_retire hdecide.symm
    refine ⟨retire_ends env.retire debt w, fun debt' hd => Or.inr ⟨job, hjob, Or.inl ?_⟩⟩
    obtain rfl := Option.some.inj (hdebt.symm.trans hd)
    rw [Bool.and_eq_true, beq_iff_eq] at hproof
    exact ⟨hproof.1, hproof.2, hsame⟩
  · rename_i debt job hplan
    obtain ⟨hdebt, rfl, hjob, hdecide⟩ := drainPlan_eq_ok hplan
    refine ⟨archive_ends env.archive debt w, fun debt' hd => ?_⟩
    obtain rfl := Option.some.inj (hdebt.symm.trans hd)
    rcases archive_filed env.archive hdebt with hkept | hfiled
    · exact Or.inl ⟨debt, hkept, sameAdmission_refl _⟩
    · exact Or.inr ⟨job, hjob, Or.inr ⟨beq_eq_false_iff_ne.1 (decide_archive hdecide.symm), hfiled⟩⟩
  · rename_i debt job hplan
    obtain ⟨hdebt, rfl, -, -⟩ := drainPlan_eq_ok hplan
    exact (hkeep (drainMembers_keeps hdebt)).imp_right fun h debt hd => Or.inl (h debt hd)

/-! ## Biasing -/

theorem BiasPlan.Sound.debt_same {plan : BiasPlan} {pid : Pid} {w : ManagedWorld}
    (h : plan.Sound pid w) (now : Nat) : sameAdmission (plan.debt now).admission plan.job = true := by
  unfold BiasPlan.debt
  cases hprevious : plan.previous with
  | none => exact sameAdmission_refl _
  | some debt => exact h.same debt hprevious

/-- The bias of a member: the registry keeps its debts, and a write comes under the debt of the
job. -/
structure BiasLawful (w w' : ManagedWorld) (pid : Pid) : Prop where
  held : ∀ id job, w.visible.Held id job → w'.visible.Held id job
  covered : w.Covered → w'.Covered
  biased : ∀ b ∈ w'.biased, b ∈ w.biased ∨ b.pid = pid ∧ ∀ job, w.Member pid job →
    b.disk.Held job.id job

theorem Keeps.biasLawful {w w' : ManagedWorld} (h : Keeps w w') (pid : Pid) :
    BiasLawful w w' pid :=
  ⟨h.held, h.covered, fun _ hb => Or.inl (h.biased ▸ hb)⟩

/-- A member's job is the one the plan is about. -/
theorem BiasPlan.Sound.member_eq {plan : BiasPlan} {pid : Pid} {w : ManagedWorld}
    (h : plan.Sound pid w) {job : Job} (hjob : w.Member pid job) : job = plan.job := by
  obtain ⟨group, hgroup, hid, hfile⟩ := hjob
  obtain ⟨group', hgroup', hid'⟩ := h.member
  obtain rfl := Option.some.inj (hgroup.symm.trans hgroup')
  rw [Option.some.inj (hid.symm.trans hid')] at hfile
  exact Option.some.inj (hfile.symm.trans h.job)

/-- The write itself, once the debt is saved. -/
theorem writeBias_covered {w : ManagedWorld} {pid : Pid} {job : Job} (hw : w.Covered)
    (hvisible : w.visible.Held job.id job) (hdurable : w.durable.Held job.id job) :
    (w.writeBias pid job).Covered := by
  intro id job' howed
  change update w.owed job.id (some job) id = some job' at howed
  by_cases hid : id = job.id
  · subst hid
    rw [update_self] at howed
    obtain rfl := Option.some.inj howed
    exact ⟨hvisible, hdurable⟩
  · rw [update_of_ne hid] at howed
    exact hw id job' howed

theorem biasApply_lawful {env : ManagedBiasEnv} {p : ProcSample} {plan : BiasPlan}
    {w : ManagedWorld} (h : plan.Sound p.pid w) :
    BiasLawful w (biasApply env p plan w).1 p.pid := by
  have hid : (plan.debt w.now).admission.id = plan.job.id :=
    sameAdmission_id (h.debt_same w.now)
  have hfirst : Keeps w (w.saveDebt env.saveDebt (plan.debt w.now)).1 := by
    refine Keeps.saveDebt _ fun old hold => ?_
    rw [hid, h.previous] at hold
    exact sameAdmission_trans (h.debt_same w.now) (sameAdmission_symm (h.same old hold))
  unfold biasApply
  simp only
  cases hsave : w.saveDebt env.saveDebt (plan.debt w.now) with
  | mk w₁ saved =>
    rw [hsave] at hfirst
    cases saved with
    | false => exact hfirst.biasLawful _
    | true =>
      have hsecond := hfirst.trans (Keeps.saveJob w₁ env.saveJob { plan.job with phase := .active })
      simp only [Bool.not_true, Bool.false_eq_true, if_false]
      cases hsaveJob : w₁.saveJob env.saveJob { plan.job with phase := .active } with
      | mk w₂ saved =>
        rw [hsaveJob] at hsecond
        have hstop := hsecond.biasLawful p.pid
        split
        · exact hstop
        split
        · exact hstop
        split
        · exact hstop
        split
        · exact hstop
        · rename_i hsaved _ _ _
          have hsaved : saved = true := by
            cases saved with
            | false => exact absurd rfl hsaved
            | true => rfl
          subst hsaved
          obtain ⟨hvisible, hdurable⟩ := saveJob_eq hsaveJob
          have hdebt : w₁.visible.debts plan.job.id = some (plan.debt w.now) := by
            rw [(saveDebt_eq hsave).1, ← hid]
            exact update_self ..
          have hheld : w₂.durable.Held plan.job.id plan.job :=
            ⟨_, (congrFun hdurable _).trans hdebt, h.debt_same w.now⟩
          have hwrite : BiasLawful w (w₂.writeBias p.pid plan.job) p.pid := by
            refine ⟨hsecond.held, fun hw => writeBias_covered (hsecond.covered hw) ?_ hheld,
              fun b hb => ?_⟩
            · exact ⟨_, (congrFun hvisible _).trans hdebt, h.debt_same w.now⟩
            · rcases List.mem_cons.1 hb with rfl | hb
              · refine Or.inr ⟨rfl, fun job hjob => ?_⟩
                rw [h.member_eq hjob]
                exact hheld
              · exact Or.inl (hsecond.biased ▸ hb)
          split <;> exact hwrite

theorem biasInner_lawful (env : ManagedBiasEnv) (p : ProcSample) (exempt : List String)
    (expected : Option Job) (w : ManagedWorld) :
    BiasLawful w (biasInner env p exempt expected w).1 p.pid := by
  unfold biasInner
  split
  · exact (Keeps.refl w).biasLawful _
  · next plan hplan => exact biasApply_lawful (biasPlan_sound hplan)

/-- A turn of the bias loop that can read the cgroup of a member. -/
theorem pressureBias_lawful {env : PressureBiasEnv} {p : ProcSample} {samples : List ProcSample}
    {exempt : List String} {w : ManagedWorld}
    (hread : env.groupReadable = true ∨ ∀ job, ¬ w.Member p.pid job) :
    BiasLawful w (pressureBias env p samples exempt w) p.pid := by
  unfold pressureBias
  split
  · exact biasInner_lawful ..
  · rename_i hmanaged
    have hnone : ∀ job, ¬ w.Member p.pid job := by
      rcases hread with hread | hnone
      · rintro job ⟨group, hgroup, hid, -⟩
        refine hmanaged ?_
        simp only [isManagedJobProcess, groupFor, hread, if_true, hgroup, hid, Option.isSome_some]
      · exact hnone
    refine ⟨fun _ _ h => h, fun h => h, fun b hb => ?_⟩
    simp only [ancestryBias] at hb
    split at hb
    · rcases List.mem_cons.1 hb with rfl | hb
      · exact Or.inr ⟨rfl, fun job hjob => absurd hjob (hnone job)⟩
      · exact Or.inl hb
    · exact Or.inl hb

/-! ## Runs -/

theorem Keeps.admitted (o : SaveOutcome) (locked : Bool) (job : Job) (w : ManagedWorld) :
    Keeps w (admission o locked job w) := by
  unfold ManagedOom.admission
  split
  · exact Keeps.saveJob ..
  · exact Keeps.refl w

theorem Keeps.certify (env : CertifyEnv) (job : Job) (w : ManagedWorld) :
    Keeps w (certify env job w) := by
  unfold ManagedOom.certify
  split
  · split
    · split
      · exact Keeps.saveJob ..
      · exact Keeps.refl w
    · exact Keeps.refl w
  · exact Keeps.refl w

/-- A confirmed reconciliation has seen that sentinel and cgroup of the job are gone. -/
theorem reconcileOrphan_cases (env : ReconcileEnv) (id : String) (confirmed : Bool)
    (w : ManagedWorld) :
    reconcileOrphan env id confirmed w = w ∨
      ∃ debt, w.visible.debts id = some debt ∧ confirmed = true ∧
        w.groups debt.admission.group = none ∧ w.table debt.admission.sentinel = none ∧
        Ends id w (reconcileOrphan env id confirmed w) := by
  unfold reconcileOrphan
  split
  · rename_i hconfirmed
    rw [Bool.and_eq_true] at hconfirmed
    split
    · rename_i debt hload
      obtain ⟨hdebt, hid⟩ := loadDebt_eq_ok hload
      split
      · rename_i horphaned
        obtain ⟨hgroup, hsentinel⟩ := orphaned_eq_ok horphaned
        refine Or.inr ⟨debt, hdebt, hconfirmed.2, hgroup, hsentinel, ?_⟩
        exact hid debt rfl ▸ retire_ends env.retire debt w
      · exact Or.inl rfl
    · exact Or.inl rfl
  · exact Or.inl rfl

section Steps

variable {w : ManagedWorld} {i : ManagedStep}

/-- What is shown of each step. -/
structure StepLawful (w : ManagedWorld) (i : ManagedStep) : Prop extends ManagedLawful w i where
  covered : w.Covered → (managedStep w i).Covered

theorem stepLawful_of_bias {pid : Pid}
    (h : BiasLawful { w with biased := [] } (managedStep w i) pid) : StepLawful w i where
  retired id debt hdebt := Or.inl (h.held id _ ⟨debt, hdebt, sameAdmission_refl _⟩)
  covered := h.covered
  biased b hb job hjob := by
    rcases h.biased b hb with hb | ⟨hpid, hheld⟩
    · cases hb
    · obtain ⟨debt, hdebt, hsame⟩ := hheld job (hpid ▸ hjob)
      exact ⟨debt, hdebt, hsame, sameAdmission_baseline hsame⟩

theorem stepLawful_of_keeps (h : Keeps { w with biased := [] } (managedStep w i)) :
    StepLawful w i :=
  stepLawful_of_bias (h.biasLawful 0)

theorem stepLawful_of_ends {ended : String}
    (h : Ends ended { w with biased := [] } (managedStep w i))
    (hproven : ∀ debt, w.visible.debts ended = some debt →
      (managedStep w i).visible.Held ended debt.admission ∨ Proven w ended debt i) :
    StepLawful w i where
  retired id debt hdebt := by
    by_cases hid : id = ended
    · exact hid ▸ hproven debt (hid ▸ hdebt)
    · exact Or.inl (h.held id _ hid ⟨debt, hdebt, sameAdmission_refl _⟩)
  covered := h.covered
  biased b hb := by
    rw [h.biased] at hb
    cases hb

/-- **One step.** -/
theorem managedStep_lawful (hread : ReadsMembers w i) : StepLawful w i := by
  cases i with
  | admission o locked job => exact stepLawful_of_keeps (Keeps.admitted ..)
  | certify env job => exact stepLawful_of_keeps (Keeps.certify ..)
  | pressureBias env p samples exempt => exact stepLawful_of_bias (pressureBias_lawful hread)
  | biasJob env p exempt expected => exact stepLawful_of_bias (biasInner_lawful ..)
  | drainOne env id force exempt expected =>
    obtain ⟨hends, hproven⟩ := drainOne_lawful env id force exempt expected { w with biased := [] }
    exact stepLawful_of_ends hends fun debt hdebt => (hproven debt hdebt).imp_right
      fun hjob => ⟨rfl, hjob⟩
  | reconcile env id confirmed =>
    rcases reconcileOrphan_cases env id confirmed { w with biased := [] } with
      hsame | ⟨debt, hdebt, hconfirmed, hgroup, hsentinel, hends⟩
    · refine stepLawful_of_keeps ?_
      change Keeps _ (reconcileOrphan env id confirmed { w with biased := [] })
      rw [hsame]
      exact Keeps.refl _
    · refine stepLawful_of_ends hends fun debt' hdebt' => Or.inr ?_
      obtain rfl := Option.some.inj (hdebt.symm.trans hdebt')
      exact ⟨rfl, hconfirmed, hgroup, hsentinel⟩
  | reboot boot oom =>
    refine ⟨⟨fun id debt _ => ?_, fun b hb => ?_⟩, fun hw id job howed => ?_⟩
    · by_cases hheld : w.durable.Held id debt.admission
      · exact Or.inl hheld
      · exact Or.inr hheld
    · cases hb
    · exact ⟨(hw id job howed).2, (hw id job howed).2⟩
  | flush id =>
    refine stepLawful_of_keeps ⟨fun _ _ h => h, fun hw id' job howed => ?_, rfl⟩
    refine ⟨(hw id' job howed).1, ?_⟩
    by_cases hid : id' = id
    · subst hid
      obtain ⟨debt, hdebt, hjob⟩ := (hw id' job howed).1
      exact ⟨debt, (update_self ..).trans hdebt, hjob⟩
    · obtain ⟨debt, hdebt, hjob⟩ := (hw id' job howed).2
      exact ⟨debt, (update_of_ne hid ..).trans hdebt, hjob⟩
  | outside oom group groups now => exact stepLawful_of_keeps (Keeps.of_eq rfl rfl rfl rfl)

end Steps

/-- **Managed debts retire only on proof**, along every run in which `is_managed_job_process` can
read the cgroups of members, from a state in which no bias is owed to a job: no live debt goes
without its end proven, no member is biased without a durable debt, and every job that was biased
keeps its debt on disk until its end is seen. -/
theorem managedDebts (w : ManagedWorld) (howed : ∀ id, w.owed id = none) (is : List ManagedStep)
    (h : Runs.Along managedStep ReadsMembers w is) :
    Runs.Along managedStep ManagedLawful w is ∧
      Runs.Always managedStep ManagedWorld.Covered w is := by
  have hstart : w.Covered := fun id job hid => by
    rw [howed] at hid
    cases hid
  refine ⟨h.mono fun w i hread => (managedStep_lawful hread).toManagedLawful, ?_⟩
  exact h.always (fun w i hw hread => (managedStep_lawful hread).covered hw) hstart

/-! ## A cgroup that cannot be read -/

def jobId : String := "12345678-1234-1234-1234-123456789abc"

def jobGroup : String := "/user.slice/dracon-managed-job-" ++ jobId ++ ".scope"

def registeredJob : Job where
  id := jobId
  bootId := "boot"
  unit := "dracon-managed-job-" ++ jobId ++ ".scope"
  invocation := "inv"
  group := jobGroup
  groupDevice := 1
  groupInode := 2
  sentinel := 6
  sentinelIdentity := ⟨"dracon-system", 90⟩
  baseline := 200

/-- A registered job without a debt, and a compiler in its scope. -/
def jobHost : ManagedWorld where
  oom := {
    table := fun pid => if pid = 7 then
      some { ppid := 6, comm := "cc1", starttime := 100, oomScoreAdj := 200 } else none
    state := { persistMitigations := true }
    disk := { visible := none } }
  group := fun pid => if pid = 7 then some jobGroup else none
  groups := fun _ => none
  boot := "boot"
  now := 0
  visible := ⟨fun id => if id = jobId then some registeredJob else none, fun _ => none,
    fun _ => none, fun _ => none⟩
  durable := ⟨fun id => if id = jobId then some registeredJob else none, fun _ => none,
    fun _ => none, fun _ => none⟩

def jobCompiler : ProcSample where
  pid := 7
  ppid := 6
  cpuPercent := 400
  rssMb := 9000
  swapMb := some 0
  nice := 0
  command := "cc1"
  starttime := 100

def compilerTurn (groupReadable : Bool) : ManagedStep :=
  .pressureBias
    { groupReadable := groupReadable
      managed := { boundary := { manager := ⟨none, none, none⟩ } }
      ancestry := { persist := ⟨some "boot", .written⟩ } }
    jobCompiler [] []

theorem idFor_jobGroup : idFor jobGroup = some jobId := by decide +kernel

theorem managedDebts_compilerTurn :
    Runs.Along managedStep ManagedLawful jobHost [compilerTurn true] ∧
      Runs.Always managedStep ManagedWorld.Covered jobHost [compilerTurn true] :=
  managedDebts jobHost (fun _ => rfl) _ ⟨Or.inl rfl, trivial⟩

/-- The reading of the cgroup fails, so the member is biased on its ancestry, and no debt of the
job records its baseline. -/
theorem unreadable_group_biased :
    ¬ ∀ (w : ManagedWorld) (is : List ManagedStep), (∀ id, w.owed id = none) →
      Runs.Along managedStep ManagedLawful w is ∧
        Runs.Always managedStep ManagedWorld.Covered w is := by
  intro h
  have hstep := (h jobHost [compilerTurn false] fun _ => rfl).1.1.biased
  have hmember : jobHost.Member 7 registeredJob := ⟨jobGroup, rfl, idFor_jobGroup, rfl⟩
  obtain ⟨debt, hdebt, -⟩ := hstep ⟨7, jobHost.durable⟩ List.mem_cons_self registeredJob hmember
  cases hdebt

end ManagedOom

end DraconGuard
