import DraconGuard.Lib.Runs
import DraconGuard.Guard.Oom

/-!
# Descendants that predate the bias

`oom_known_descendants` names, per root, the incarnations the sweep must leave alone. The law
here is about one root `r` and one recorded descendant `c`: while the root is tracked, `c` is
not put on the root's account (`SparedBy`) and the guard writes nothing to it on that account
(`debtWrites`). Only the root's account is meant: `c` may be an offender itself, and it may
owe a debt to another root.

The sweep's own steps keep `SparedBy` outright. A release may drop the set, but only
together with the last reason to track the root.
-/

namespace DraconGuard

/-- The root has a bias record, or a pending descendant names it. -/
def Tracked (r : Pid) (o : OomState) : Prop :=
  (∃ b, o.oomBiasedPids.lookup r = some b) ∨
    ∃ key pd, o.oomPendingDescendants.lookup key = some pd ∧ pd.rootPid = r

/-- `c` is a known descendant of `r` and owes nothing on its account. -/
structure SparedBy (r : Pid) (c : Incarnation) (o : OomState) : Prop where
  known : ∃ known, o.oomKnownDescendants.lookup r = some known ∧ c ∈ known
  notOwed : ∀ pd, o.oomPendingDescendants.lookup c = some pd → pd.rootPid ≠ r

/-- Pending descendants are keyed by the identity they carry. -/
def PendingKeyed (o : OomState) : Prop :=
  ∀ key pd, o.oomPendingDescendants.lookup key = some pd → pd.identity.starttime = key.2

/-- The writes to `c` on the account of `r`. -/
def debtWrites (r : Pid) (c : Incarnation) (w : OomWorld) : List AdjWrite :=
  w.adjWrites.filter fun a => a.pid == c.1 && a.starttime == c.2 && a.cause == .debt r

/-- What is asked of a step: the root stays tracked by its first bias, and the closing prune
finds its record, and `c` in the snapshot when the root's set is over the cap. -/
def KeepsRoot (r : Pid) (c : Incarnation) (w : OomWorld) : OomInput → Prop
  | .bias env p samples => ∀ s original target,
      oomBiasIntent env p samples w = .intend s original target → p.pid ≠ r
  | .prune _ samples => (∃ b, w.state.oom.oomBiasedPids.lookup r = some b) ∧
      ∀ known, w.state.oom.oomKnownDescendants.lookup r = some known →
        oomKnownDescendantsCap < known.card → c ∈ samples.map fun p => (p.pid, p.starttime)
  | _ => True

/-! ## The maps -/

section Maps

variable {r : Pid} {c : Incarnation} {o o' : OomState}

/-- The same maps of descendants: the same law. -/
theorem SparedBy.congr (h : SparedBy r c o)
    (hk : o'.oomKnownDescendants = o.oomKnownDescendants)
    (hp : o'.oomPendingDescendants = o.oomPendingDescendants) : SparedBy r c o' :=
  ⟨by rw [hk]; exact h.known, by rw [hp]; exact h.notOwed⟩

theorem SparedBy.enlist (h : SparedBy r c o) (tracked : Pid → Bool) (exempt : List String)
    (parents : Pid → Option Pid) (roots : FinMap Pid Int) (child : ProcSample) :
    SparedBy r c (enlistStep tracked exempt parents roots o child) := by
  unfold enlistStep
  split
  · exact h
  · split
    · exact h
    · rename_i root _
      simp only
      split
      · exact h
      · rename_i hnew
        split
        · exact h
        · refine ⟨h.known, fun pd hpd => ?_⟩
          simp only [FinMap.lookup_insert_eq] at hpd
          split at hpd
          · rename_i hc
            cases hpd
            -- `c` is known to `r`, so the loop skipped it if `r` was the nearest root
            rintro rfl
            obtain ⟨known, hk, hmem⟩ := h.known
            rw [hc] at hmem
            exact hnew (by simp [hk, hmem])
          · exact h.notOwed pd hpd

theorem PendingKeyed.enlist (h : PendingKeyed o) (tracked : Pid → Bool) (exempt : List String)
    (parents : Pid → Option Pid) (roots : FinMap Pid Int) (child : ProcSample) :
    PendingKeyed (enlistStep tracked exempt parents roots o child) := by
  unfold enlistStep
  split
  · exact h
  · split
    · exact h
    · simp only
      split
      · exact h
      · split
        · exact h
        · intro key pd hpd
          simp only [FinMap.lookup_insert_eq] at hpd
          split at hpd
          · rename_i hk; cases hpd; rw [hk]; rfl
          · exact h key pd hpd

theorem SparedBy.retry (h : SparedBy r c o) {key : Incarnation} {pd : OomPendingDescendant}
    (hpd : o.oomPendingDescendants.lookup key = some pd) : SparedBy r c (recordOomRetry o key pd) := by
  refine ⟨h.known, fun pd' hpd' => ?_⟩
  simp only [recordOomRetry, FinMap.lookup_insert_eq] at hpd'
  split at hpd'
  · rename_i hc; cases hpd'; exact h.notOwed pd (hc ▸ hpd)
  · exact h.notOwed pd' hpd'

theorem PendingKeyed.retry (h : PendingKeyed o) {key : Incarnation} {pd : OomPendingDescendant}
    (hpd : o.oomPendingDescendants.lookup key = some pd) : PendingKeyed (recordOomRetry o key pd) := by
  intro key' pd' hpd'
  simp only [recordOomRetry, FinMap.lookup_insert_eq] at hpd'
  split at hpd'
  · rename_i hk; cases hpd'; rw [hk]; exact h key pd hpd
  · exact h key' pd' hpd'

theorem SparedBy.removePending (h : SparedBy r c o) (key : Incarnation) :
    SparedBy r c (removePending o key) := by
  refine ⟨h.known, fun pd hpd => ?_⟩
  simp only [DraconGuard.removePending, FinMap.lookup_erase_eq] at hpd
  split at hpd
  · cases hpd
  · exact h.notOwed pd hpd

theorem PendingKeyed.removePending (h : PendingKeyed o) (key : Incarnation) :
    PendingKeyed (removePending o key) := by
  intro key' pd hpd
  simp only [DraconGuard.removePending, FinMap.lookup_erase_eq] at hpd
  split at hpd
  · cases hpd
  · exact h key' pd hpd

theorem SparedBy.remember (h : SparedBy r c o) (root pid : Pid) (id : ProcessIdentity) :
    SparedBy r c (rememberOomDescendantIdentity o root pid id) := by
  refine ⟨?_, h.notOwed⟩
  obtain ⟨known, hk, hmem⟩ := h.known
  simp only [rememberOomDescendantIdentity, FinMap.lookup_insert_eq]
  by_cases hr : r = root
  · subst hr
    exact ⟨_, if_pos rfl, Finset.mem_insert_of_mem (by simpa [hk] using hmem)⟩
  · exact ⟨known, by rw [if_neg hr]; exact hk, hmem⟩

theorem oomRootHasPendingDescendants_iff {o : OomState} {pid : Pid} :
    oomRootHasPendingDescendants o pid = true ↔
      ∃ key pd, o.oomPendingDescendants.lookup key = some pd ∧ pd.rootPid = pid := by
  simp only [oomRootHasPendingDescendants, List.any_eq_true, beq_iff_eq]
  constructor
  · rintro ⟨⟨key, pd⟩, hmem, hroot⟩
    exact ⟨key, pd, FinMap.mem_entries_iff.1 hmem, hroot⟩
  · rintro ⟨key, pd, hpd, hroot⟩
    exact ⟨⟨key, pd⟩, FinMap.mem_entries_iff.2 hpd, hroot⟩

/-- `remove_oom_bias` keeps the known descendants of a root that is still tracked. -/
theorem removeOomBias_spared (pid : Pid) (h : Tracked r o → SparedBy r c o) :
    Tracked r (removeOomBias o pid) → SparedBy r c (removeOomBias o pid) := by
  intro ht
  have hbefore : Tracked r o := by
    rcases ht with ⟨b, hb⟩ | hp
    · rw [removeOomBias_biased, FinMap.lookup_erase_eq] at hb
      split at hb
      · cases hb
      · exact Or.inl ⟨b, hb⟩
    · rw [removeOomBias_pending] at hp; exact Or.inr hp
  have hs := h hbefore
  refine ⟨?_, by rw [removeOomBias_pending]; exact hs.notOwed⟩
  obtain ⟨known, hk, hmem⟩ := hs.known
  refine ⟨known, ?_, hmem⟩
  unfold removeOomBias
  simp only
  split
  · exact hk
  · rename_i hno
    have hne : r ≠ pid := by
      rintro rfl
      rcases ht with ⟨b, hb⟩ | hp
      · simp [removeOomBias_biased] at hb
      · rw [removeOomBias_pending] at hp
        exact hno (oomRootHasPendingDescendants_iff.2 hp)
    rw [FinMap.lookup_erase_eq, if_neg hne]
    exact hk

end Maps

/-! ## Writes -/

/-- A write on another account, or to another incarnation, is not a debt write of `r` to `c`. -/
theorem debtWrites_writeAdj {r : Pid} {c : Incarnation} {w : OomWorld} {pid : Pid} {v : Int}
    {cause : AdjCause}
    (h : ∀ p, w.table pid = some p → ¬ (pid = c.1 ∧ p.starttime = c.2 ∧ cause = .debt r)) :
    debtWrites r c (w.writeAdj pid v cause) = debtWrites r c w := by
  unfold OomWorld.writeAdj
  split
  · rfl
  · rename_i p hp
    have := h p hp
    simp only [debtWrites, OomWorld.mark]
    rw [List.filter_cons_of_neg]
    simpa [and_assoc] using this

theorem debtWrites_release {r : Pid} {c : Incarnation} (env : RestoreEnv) (w : OomWorld) (pid : Pid)
    (id : ProcessIdentity) (original : Int) :
    debtWrites r c (oomRestore env w pid id original .release).1 = debtWrites r c w := by
  rcases oomRestore_cases env w pid id original .release with ⟨he, -⟩ | ⟨he, -⟩
  · rw [he]
  · rw [he]
    exact debtWrites_writeAdj fun p _ h => by cases h.2.2

/-! ## The sweep -/

/-- The strong invariant, kept by the sweep. -/
structure Sparing (r : Pid) (c : Incarnation) (writes : List AdjWrite) (w : OomWorld) : Prop where
  keyed : PendingKeyed w.state.oom
  writes : debtWrites r c w = writes
  spared : SparedBy r c w.state.oom

theorem keyed_pendingStep {w : OomWorld} (h : PendingKeyed w.state.oom) (env : PendingEnv)
    (exempt : List String) (key : Incarnation) :
    PendingKeyed (restorePendingStep env exempt w key).state.oom := by
  rcases restorePendingStep_cases env exempt w key with he | ⟨pd, hpd, he | he | ⟨w', -, he | he⟩⟩ <;>
    rw [he]
  · exact h
  · exact h.removePending key
  · exact h.retry hpd
  · exact h.retry hpd
  · exact h.removePending key

theorem Sparing.pendingStep {r : Pid} {c : Incarnation} {L : List AdjWrite} {w : OomWorld}
    (h : Sparing r c L w) (env : PendingEnv) (exempt : List String) (key : Incarnation) :
    Sparing r c L (restorePendingStep env exempt w key) := by
  refine ⟨keyed_pendingStep h.keyed env exempt key, ?_, ?_⟩
  · rcases restorePendingStep_cases env exempt w key with
      he | ⟨pd, hpd, he | he | ⟨w', hw', he⟩⟩
    · rw [he]; exact h.writes
    · rw [he]; exact h.writes
    · rw [he]; exact h.writes
    · have hwr : debtWrites r c w' = L := by
        rw [hw']
        rcases oomRestore_cases (env.restore key) w key.1 pd.identity pd.originalAdj
          (.debt pd.rootPid) with ⟨hr, -⟩ | ⟨hr, hst⟩
        · rw [hr]; exact h.writes
        · rw [hr, ← h.writes]
          refine debtWrites_writeAdj fun p hp ⟨h1, h2, h3⟩ => ?_
          -- the incarnation written to is the key of the debt
          have hkey : key = c := Prod.ext h1 (by rw [← h2, hst p hp, h.keyed key pd hpd])
          cases h3
          exact h.spared.notOwed pd (hkey ▸ hpd) rfl
      rcases he with he | he <;> rw [he] <;> exact hwr
  · rcases restorePendingStep_cases env exempt w key with
      he | ⟨pd, hpd, he | he | ⟨w', -, he | he⟩⟩ <;> rw [he]
    · exact h.spared
    · exact h.spared.removePending key
    · exact h.spared.retry hpd
    · exact h.spared.retry hpd
    · exact (h.spared.removePending key).remember _ _ _

theorem keyed_enlistAll {o : OomState} (h : PendingKeyed o) (tracked : Pid → Bool)
    (exempt : List String) (parents : Pid → Option Pid) (roots : FinMap Pid Int) :
    ∀ samples : List ProcSample,
      PendingKeyed (samples.foldl (enlistStep tracked exempt parents roots) o) := by
  intro samples
  induction samples generalizing o with
  | nil => exact h
  | cons child rest ih => exact ih (h.enlist tracked exempt parents roots child)

theorem SparedBy.enlistAll {r : Pid} {c : Incarnation} {o : OomState} (h : SparedBy r c o)
    (tracked : Pid → Bool) (exempt : List String) (parents : Pid → Option Pid)
    (roots : FinMap Pid Int) :
    ∀ samples : List ProcSample,
      SparedBy r c (samples.foldl (enlistStep tracked exempt parents roots) o) := by
  intro samples
  induction samples generalizing o with
  | nil => exact h
  | cons child rest ih => exact ih (h.enlist tracked exempt parents roots child)

theorem keyed_sweep {w : OomWorld} (h : PendingKeyed w.state.oom) (env : SweepEnv)
    (exempt : List String) (samples : List ProcSample) :
    PendingKeyed (sweepStrandedOomDescendants env exempt samples w).state.oom :=
  sweep_induction (P := fun w => PendingKeyed w.state.oom)
    (keyed_enlistAll h _ _ _ _ samples)
    (fun w env h => by rwa [persist_oom]) (fun w key h => keyed_pendingStep h env.pending exempt key)

theorem Sparing.sweep {r : Pid} {c : Incarnation} {L : List AdjWrite} {w : OomWorld}
    (h : Sparing r c L w) (env : SweepEnv) (exempt : List String) (samples : List ProcSample) :
    Sparing r c L (sweepStrandedOomDescendants env exempt samples w) :=
  sweep_induction
    ⟨keyed_enlistAll h.keyed _ _ _ _ samples, h.writes, h.spared.enlistAll _ _ _ _ samples⟩
    (fun w env h => ⟨by rw [persist_oom]; exact h.keyed, h.writes, by rw [persist_oom]; exact h.spared⟩)
    (fun w key h => h.pendingStep env.pending exempt key)

/-! ## Letting go -/

/-- A step that changes no pending descendant, writes on no debt's account, and drops the set
of a root only when it stops tracking it. -/
structure LetsGo (r : Pid) (c : Incarnation) (w w' : OomWorld) : Prop where
  pending : w'.state.oom.oomPendingDescendants = w.state.oom.oomPendingDescendants
  writes : debtWrites r c w' = debtWrites r c w
  spared : (Tracked r w.state.oom → SparedBy r c w.state.oom) →
    Tracked r w'.state.oom → SparedBy r c w'.state.oom

section LetsGo

variable {r : Pid} {c : Incarnation}

theorem LetsGo.refl (w : OomWorld) : LetsGo r c w w := ⟨rfl, rfl, fun h => h⟩

theorem LetsGo.trans {w₁ w₂ w₃ : OomWorld} (h : LetsGo r c w₁ w₂) (h' : LetsGo r c w₂ w₃) :
    LetsGo r c w₁ w₃ :=
  ⟨h'.pending.trans h.pending, h'.writes.trans h.writes, fun hs => h'.spared (h.spared hs)⟩

theorem LetsGo.foldl {α : Type} {f : OomWorld → α → OomWorld} (hf : ∀ w a, LetsGo r c w (f w a)) :
    ∀ (xs : List α) (w : OomWorld), LetsGo r c w (xs.foldl f w)
  | [], w => LetsGo.refl w
  | a :: xs, w => (hf w a).trans (LetsGo.foldl hf xs (f w a))

/-- Bookkeeping outside the three maps. -/
theorem LetsGo.setOom (w : OomWorld) {o : OomState}
    (hb : o.oomBiasedPids = w.state.oom.oomBiasedPids)
    (hk : o.oomKnownDescendants = w.state.oom.oomKnownDescendants)
    (hp : o.oomPendingDescendants = w.state.oom.oomPendingDescendants) :
    LetsGo r c w (w.setOom o) := by
  refine ⟨hp, rfl, fun hs ht => (hs ?_).congr hk hp⟩
  simp only [Tracked, OomWorld.setOom_oom, hb, hp] at ht
  exact ht

theorem LetsGo.removeBias (w : OomWorld) (pid : Pid) :
    LetsGo r c w (w.setOom (removeOomBias w.state.oom pid)) :=
  ⟨removeOomBias_pending _ pid, rfl, removeOomBias_spared pid⟩

theorem LetsGo.settle (env : RestoreEnv) (w : OomWorld) (pid : Pid) (id : ProcessIdentity)
    (orig : Int) : LetsGo r c w (settleOomBias env w pid id orig) := by
  have hst := oomRestore_state env w pid id orig .release
  have hrestore : LetsGo r c w (oomRestore env w pid id orig .release).1 :=
    ⟨by rw [hst], debtWrites_release env w pid id orig, fun h => by rw [hst]; exact h⟩
  unfold settleOomBias
  simp only
  split
  · exact hrestore
  · exact hrestore.trans (LetsGo.removeBias _ pid)

theorem LetsGo.releaseBias (env : ReleaseEnv) (w : OomWorld) (pid : Pid) :
    LetsGo r c w (releaseOomBias env w pid) := by
  unfold releaseOomBias
  simp only
  split
  · exact LetsGo.refl w
  · split
    · exact LetsGo.removeBias w pid
    · exact LetsGo.removeBias w pid
    · exact LetsGo.setOom w rfl rfl rfl
    · refine (LetsGo.setOom w ?_ ?_ ?_).trans (LetsGo.settle _ _ pid _ _) <;> rfl

theorem LetsGo.releaseAll (env : ReleaseEnv) (w : OomWorld) :
    LetsGo r c w (releaseOomBiases env w) := by
  unfold releaseOomBiases
  split
  · exact LetsGo.refl w
  · simp only
    refine LetsGo.trans ?_ (LetsGo.setOom _ rfl rfl rfl)
    refine LetsGo.trans (LetsGo.setOom w ?_ ?_ ?_) (LetsGo.foldl (LetsGo.releaseBias env) _ _) <;> rfl

theorem LetsGo.restoreBias (env : ReleaseEnv) (w : OomWorld) (pid : Pid) :
    LetsGo r c w (restoreOomBias env w pid) := by
  unfold restoreOomBias
  split
  · exact LetsGo.refl w
  · split
    · exact LetsGo.removeBias w pid
    · exact LetsGo.removeBias w pid
    · exact LetsGo.refl w
    · exact LetsGo.settle _ w pid _ _

end LetsGo

/-! ## Steps -/

theorem LetsGo.dropRecord {r : Pid} {c : Incarnation} (w : OomWorld) (pid : Pid) :
    LetsGo r c w (w.setOom (dropBiasRecord w.state.oom pid)) := by
  refine ⟨rfl, rfl, fun hs ht => (hs ?_).congr rfl rfl⟩
  rcases ht with ⟨b, hb⟩ | hp
  · simp only [OomWorld.setOom_oom, dropBiasRecord, FinMap.lookup_erase_eq] at hb
    split at hb
    · cases hb
    · exact Or.inl ⟨b, hb⟩
  · exact Or.inr hp

/-- Recording a bias of another process. -/
theorem LetsGo.record {r : Pid} {c : Incarnation} (w : OomWorld) (p : ProcSample)
    (samples : List ProcSample) (original : Int) (hne : p.pid ≠ r) :
    LetsGo r c w { w with state := biasedRuntime p samples original w.state } := by
  have hr : r ≠ p.pid := fun h => hne h.symm
  refine ⟨rfl, rfl, fun hs ht => ?_⟩
  have hbefore : Tracked r w.state.oom := by
    rcases ht with ⟨b, hb⟩ | hp
    · exact Or.inl ⟨b, by simpa [biasedRuntime, recordOomBias, dropBiasRecord, hr] using hb⟩
    · exact Or.inr hp
  obtain ⟨⟨known, hk, hmem⟩, hno⟩ := hs hbefore
  exact ⟨⟨known, by simpa [biasedRuntime, recordOomBias, dropBiasRecord, hr] using hk, hmem⟩, hno⟩

theorem LetsGo.persist {r : Pid} {c : Incarnation} (w : OomWorld) (env : PersistEnv) :
    LetsGo r c w (w.persist env).1 :=
  ⟨by rw [persist_oom], rfl, fun h => by rw [persist_oom]; exact h⟩

/-- Biasing any other process, itself a known descendant or not. -/
theorem LetsGo.bias {r : Pid} {c : Incarnation} (w : OomWorld) (env : BiasEnv) (p : ProcSample)
    (samples : List ProcSample)
    (hne : ∀ s original target, oomBiasIntent env p samples w = .intend s original target →
      p.pid ≠ r) : LetsGo r c w (applyOomBias env p samples w).1 := by
  unfold applyOomBias
  split
  · rename_i s res hs
    rcases oomBiasIntent_stop hs with rfl | ⟨rfl, -⟩
    · exact LetsGo.refl w
    · exact LetsGo.dropRecord w p.pid
  · rename_i s original target hs
    have hpid := hne s original target hs
    obtain ⟨q, -, -, -, -, -, rfl⟩ := oomBiasIntent_intend hs
    have hper := (LetsGo.record (c := c) w p samples original hpid).trans
      (LetsGo.persist _ env.persist)
    have hwrite : ∀ w' : OomWorld, LetsGo r c w' (w'.writeAdj p.pid target .bias) := by
      refine fun w' => ⟨by rw [writeAdj_state], ?_, fun h => by rw [writeAdj_state]; exact h⟩
      exact debtWrites_writeAdj fun _ _ h => by simp at h
    simp only
    split_ifs
    · exact hper.trans (LetsGo.removeBias _ p.pid)
    · exact hper
    · exact hper
    · exact hper.trans (hwrite _)
    · exact hper.trans (hwrite _)

/-- The closing prune keeps the set of a root whose record is still there. -/
theorem LetsGo.prune {r : Pid} {c : Incarnation} (w : OomWorld) (readable : Pid → Bool)
    (samples : List ProcSample) (hk : KeepsRoot r c w (.prune readable samples)) :
    LetsGo r c w (pruneOom readable samples w) := by
  obtain ⟨⟨b, hb⟩, htrim⟩ := hk
  refine ⟨rfl, rfl, fun hs ht => ?_⟩
  obtain ⟨⟨known, hknown, hmem⟩, hno⟩ := hs (Or.inl ⟨b, hb⟩)
  refine ⟨?_, hno⟩
  -- a root that is still tracked after the prune still has its record
  have hrec : ∃ b', (pruneOom readable samples w).state.oom.oomBiasedPids.lookup r = some b' := by
    rcases ht with hb' | ⟨key, pd, hpd, hroot⟩
    · exact hb'
    · refine ⟨b, FinMap.lookup_retain_some.2 ⟨hb, ?_⟩⟩
      have howes : oomRootHasPendingDescendants w.state.oom r = true :=
        oomRootHasPendingDescendants_iff.2 ⟨key, pd, hpd, hroot⟩
      rw [howes, Bool.or_true]
  obtain ⟨b', hb'⟩ := hrec
  have hkept : (w.state.oom.oomKnownDescendants.retain fun pid _ =>
      ((pruneOom readable samples w).state.oom.oomBiasedPids.lookup pid).isSome).lookup r =
        some known := FinMap.lookup_retain_some.2 ⟨hknown, by rw [hb']; rfl⟩
  refine ⟨_, (FinMap.lookup_mapValues _ _ r).trans (congrArg _ hkept), ?_⟩
  show c ∈ if oomKnownDescendantsCap < known.card then _ else known
  split
  · rename_i hcap
    exact Finset.mem_filter.2 ⟨hmem, List.mem_toFinset.2 (htrim known hknown hcap)⟩
  · exact hmem

/-! ## Runs -/

theorem applyOomBias_pending (env : BiasEnv) (p : ProcSample) (samples : List ProcSample)
    (w : OomWorld) : (applyOomBias env p samples w).1.state.oom.oomPendingDescendants =
      w.state.oom.oomPendingDescendants := by
  unfold applyOomBias
  split
  · rename_i s r hs
    rcases oomBiasIntent_stop hs with rfl | ⟨rfl, -⟩ <;> rfl
  · rename_i s original target hs
    obtain ⟨q, -, -, -, -, -, rfl⟩ := oomBiasIntent_intend hs
    simp only
    split_ifs <;> simp [biasedRuntime, recordOomBias, dropBiasRecord]

theorem PendingKeyed.step {w : OomWorld} (h : PendingKeyed w.state.oom) (i : OomInput) :
    PendingKeyed (oomStep w i).state.oom := by
  have congr : ∀ w' : OomWorld, w'.state.oom.oomPendingDescendants =
      w.state.oom.oomPendingDescendants → PendingKeyed w'.state.oom := by
    intro w' hp key pd hpd
    exact h key pd (by rwa [hp] at hpd)
  cases i with
  | spawn pid p => simp only [oomStep]; split <;> exact h
  | exit pid => exact h
  | change pid ppid comm adj zombie => simp only [oomStep]; split <;> exact h
  | others nice caps => exact h
  | bias env p samples => exact congr _ (applyOomBias_pending env p samples w)
  | sweep env exempt samples => exact keyed_sweep h env exempt samples
  | release env => exact congr _ (LetsGo.releaseAll (r := 0) (c := (0, 0)) env w).pending
  | pressurePersists => exact congr _ rfl
  | prune readable samples => exact congr _ rfl
  | persist env => simp only [oomStep, persist_oom]; exact h
  | restoreRuntime sweep env samples =>
    simp only [oomStep, restoreRuntimeOom]
    split
    · exact h
    · have hloop := (LetsGo.foldl (r := 0) (c := (0, 0)) (LetsGo.restoreBias env)
        (sweepStrandedOomDescendants sweep [] samples w).state.oom.oomBiasedPids.keys
        (sweepStrandedOomDescendants sweep [] samples w)).pending
      intro key pd hpd
      exact keyed_sweep h sweep [] samples key pd (by rwa [hloop] at hpd)
  | reload =>
    simp only [oomStep, reloadRuntime]
    split
    · intro key pd hpd; cases hpd
    · exact h

/-- The invariant of a run in which the root is tracked. -/
structure SparingWhileTracked (r : Pid) (c : Incarnation) (writes : List AdjWrite) (w : OomWorld) :
    Prop where
  keyed : PendingKeyed w.state.oom
  writes : debtWrites r c w = writes
  spared : Tracked r w.state.oom → SparedBy r c w.state.oom

theorem SparingWhileTracked.step {r : Pid} {c : Incarnation} {L : List AdjWrite} {w : OomWorld}
    (h : SparingWhileTracked r c L w) (i : OomInput) (ht : Tracked r w.state.oom)
    (hk : KeepsRoot r c w i) : SparingWhileTracked r c L (oomStep w i) := by
  have hkeyed := h.keyed.step i
  have lets : ∀ {w' : OomWorld}, LetsGo r c w w' →
      debtWrites r c w' = L ∧ (Tracked r w'.state.oom → SparedBy r c w'.state.oom) :=
    fun hl => ⟨hl.writes.trans h.writes, hl.spared h.spared⟩
  have hstrong : Sparing r c L w := ⟨h.keyed, h.writes, h.spared ht⟩
  suffices hs : debtWrites r c (oomStep w i) = L ∧
      (Tracked r (oomStep w i).state.oom → SparedBy r c (oomStep w i).state.oom) from
    ⟨hkeyed, hs.1, hs.2⟩
  cases i with
  | spawn pid p =>
    simp only [oomStep]
    split <;> exact lets ⟨rfl, rfl, fun h => h⟩
  | exit pid => exact lets ⟨rfl, rfl, fun h => h⟩
  | change pid ppid comm adj zombie =>
    simp only [oomStep]
    split <;> exact lets ⟨rfl, rfl, fun h => h⟩
  | others nice caps => exact lets ⟨rfl, rfl, fun h => h⟩
  | bias env p samples => exact lets (LetsGo.bias w env p samples hk)
  | sweep env exempt samples =>
    have hs := hstrong.sweep env exempt samples
    exact ⟨hs.writes, fun _ => hs.spared⟩
  | release env => exact lets (LetsGo.releaseAll env w)
  | pressurePersists => exact lets (LetsGo.setOom w rfl rfl rfl)
  | prune readable samples => exact lets (LetsGo.prune w readable samples hk)
  | persist env => exact lets (LetsGo.persist w env)
  | restoreRuntime sweep env samples =>
    simp only [oomStep, restoreRuntimeOom]
    split
    · exact ⟨h.writes, h.spared⟩
    · have hs := hstrong.sweep sweep [] samples
      have hl := LetsGo.foldl (LetsGo.restoreBias (r := r) (c := c) env)
        (sweepStrandedOomDescendants sweep [] samples w).state.oom.oomBiasedPids.keys
        (sweepStrandedOomDescendants sweep [] samples w)
      exact ⟨hl.writes.trans hs.writes, hl.spared fun _ => hs.spared⟩
  | reload =>
    simp only [oomStep, reloadRuntime]
    split
    · refine ⟨h.writes, fun ht' => ?_⟩
      rcases ht' with ⟨b, hb⟩ | ⟨key, pd, hpd, -⟩
      · cases hb
      · cases hpd
    · exact ⟨h.writes, h.spared⟩

/-- What hydration leaves is keyed. -/
theorem hydrate_keyed (t : ProcTable) (env : HydrateEnv) (read : LedgerRead) :
    PendingKeyed (hydrateMitigationsFrom t env {} read).oom := by
  have hempty : ∀ b, PendingKeyed ({ mitigationLedgerUnavailable := b } : GuardRuntimeState).oom :=
    fun b key pd hpd => by cases hpd
  have hpending : ∀ (ps : List (Pid × OomPendingDescendant)) (s : GuardRuntimeState),
      PendingKeyed s.oom → PendingKeyed (ps.foldl (hydratePending t env) s).oom := by
    intro ps
    induction ps with
    | nil => exact fun _ h => h
    | cons p ps ih =>
      intro s h
      refine ih _ ?_
      unfold hydratePending
      split
      · exact h
      · intro key pd hpd
        simp only [FinMap.lookup_insert_eq] at hpd
        split at hpd
        · rename_i hk; cases hpd; rw [hk]
        · exact h key pd hpd
  have hknown : ∀ (ks : List (Pid × Finset Incarnation)) (s : GuardRuntimeState),
      PendingKeyed s.oom → PendingKeyed (ks.foldl hydrateKnown s).oom := by
    intro ks
    induction ks with
    | nil => exact fun _ h => h
    | cons k ks ih => exact fun s h => ih _ h
  have hrecords : ∀ (rs : List MitigationRecord) (s : GuardRuntimeState),
      PendingKeyed s.oom → PendingKeyed (rs.foldl (hydrateRecord t env) s).oom := by
    intro rs
    induction rs with
    | nil => exact fun _ h => h
    | cons rec rs ih =>
      intro s h
      refine ih _ ?_
      unfold hydrateRecord
      split <;> exact h
  cases read with
  | notFound => exact hempty false
  | unreadable => exact hempty true
  | text x =>
    cases x with
    | blank => exact hempty true
    | garbled => exact hempty true
    | json l =>
      simp only [hydrateMitigationsFrom]
      split
      · exact hempty true
      · split
        · exact hempty true
        · split
          · exact hempty _
          · exact hrecords _ _ (hknown _ _ (hpending _ _ (hempty _)))

/-- A daemon right after its hydration (main.rs:12173). -/
def daemonStart (t : ProcTable) (env : HydrateEnv) (read : LedgerRead) (d : LedgerDisk) : OomWorld :=
  oomStart t (hydrateMitigationsFrom t env {} read) d

theorem reachable_keyed (t : ProcTable) (env : HydrateEnv) (read : LedgerRead) (d : LedgerDisk)
    (is : List OomInput) :
    PendingKeyed (Runs.exec oomStep (daemonStart t env read d) is).state.oom := by
  have hall : Runs.Always oomStep (fun w => PendingKeyed w.state.oom)
      (daemonStart t env read d) is :=
    Runs.Always.of_inv (fun _ i h => PendingKeyed.step h i) (hydrate_keyed t env read)
  exact Runs.Always.last is hall

/-- **A known descendant is off the root's account.** From any reachable state in which `c`
is a known descendant of `r` and owes it nothing: while the root is tracked, `c` stays known
and off its account, and the guard writes nothing to it on that account. -/
theorem known_descendant_spared (t : ProcTable) (env : HydrateEnv) (read : LedgerRead)
    (d : LedgerDisk) (before is : List OomInput) (r : Pid) (c : Incarnation)
    (hspared : SparedBy r c (Runs.exec oomStep (daemonStart t env read d) before).state.oom)
    (hrun : Runs.Along oomStep (fun w i => Tracked r w.state.oom ∧ KeepsRoot r c w i)
      (Runs.exec oomStep (daemonStart t env read d) before) is) :
    Runs.Always oomStep
      (fun w => debtWrites r c w =
          debtWrites r c (Runs.exec oomStep (daemonStart t env read d) before) ∧
        (Tracked r w.state.oom → SparedBy r c w.state.oom))
      (Runs.exec oomStep (daemonStart t env read d) before) is := by
  have hkeyed := reachable_keyed t env read d before
  refine Runs.Always.mono (fun w h => ⟨h.writes, h.spared⟩) (Runs.Along.always
    (P := SparingWhileTracked r c _) (fun w i h hi => h.step i hi.1 hi.2) ?_ hrun)
  exact ⟨hkeyed, rfl, fun _ => hspared⟩

/-! ## An offender among the known descendants -/

/-- A browser, pid 7, and its renderer, pid 8. -/
def rendererTable : ProcTable := fun pid =>
  if pid = 7 then some { ppid := 1, comm := "chrome", starttime := 100 }
  else if pid = 8 then some { ppid := 7, comm := "renderer", starttime := 101 }
  else none

def rendererSamples : List ProcSample :=
  [{ pid := 7, ppid := 1, cpuPercent := 0, rssMb := 9000, swapMb := some 0, nice := 0
     command := "chrome", starttime := 100 },
   { pid := 8, ppid := 7, cpuPercent := 0, rssMb := 8000, swapMb := some 0, nice := 0
     command := "renderer", starttime := 101 }]

def writtenEnv : PersistEnv := ⟨some "boot", .written⟩

def biasSample (p : ProcSample) : OomInput := .bias { persist := writtenEnv } p rendererSamples

/-- Every write to an incarnation, on whatever account. -/
def writesTo (c : Incarnation) (w : OomWorld) : List AdjWrite :=
  w.adjWrites.filter fun a => a.pid == c.1 && a.starttime == c.2

/-- The renderer descends from the biased browser, and is then biased as an offender. -/
theorem known_descendant_biased_itself :
    ¬ ∀ (t : ProcTable) (env : HydrateEnv) (read : LedgerRead) (d : LedgerDisk)
        (before is : List OomInput) (r : Pid) (c : Incarnation),
      let w₀ := Runs.exec oomStep (daemonStart t env read d) before
      (∃ b, w₀.state.oom.oomBiasedPids.lookup r = some b) →
      (∃ known, w₀.state.oom.oomKnownDescendants.lookup r = some known ∧ c ∈ known) →
      Runs.Along oomStep (fun w _ => Tracked r w.state.oom) w₀ is →
      Runs.Always oomStep (fun w => writesTo c w = writesTo c w₀ ∧
        (w₀.state.oom.oomPendingDescendants.lookup c = none →
          w.state.oom.oomPendingDescendants.lookup c = none)) w₀ is := by
  intro h
  have hrun := h rendererTable ⟨some "boot", fun _ => true, true⟩ .notFound ⟨none, []⟩
    (rendererSamples.take 1 |>.map biasSample) (rendererSamples.drop 1 |>.map biasSample)
    7 (8, 101) ⟨(0, ⟨"chrome", 100⟩), rfl⟩ ⟨{(8, 101)}, rfl, by decide⟩
    ⟨Or.inl ⟨(0, ⟨"chrome", 100⟩), rfl⟩, trivial⟩
  have hw := hrun.2.1
  exact absurd hw (by decide)

/-- A sweep after the bias leaves the renderer alone. -/
theorem known_descendant_spared_renderer :
    Runs.Always oomStep
      (fun w => debtWrites 7 (8, 101) w = [] ∧
        (Tracked 7 w.state.oom → SparedBy 7 (8, 101) w.state.oom))
      (Runs.exec oomStep (daemonStart rendererTable ⟨some "boot", fun _ => true, true⟩ .notFound
        ⟨none, []⟩) (rendererSamples.take 1 |>.map biasSample))
      [.sweep { intent := writtenEnv, settled := writtenEnv } [] rendererSamples] :=
  known_descendant_spared rendererTable ⟨some "boot", fun _ => true, true⟩ .notFound ⟨none, []⟩
    (rendererSamples.take 1 |>.map biasSample) _ 7 (8, 101)
    ⟨⟨{(8, 101)}, rfl, by decide⟩, fun pd hpd => by cases hpd⟩
    ⟨⟨Or.inl ⟨(0, ⟨"chrome", 100⟩), rfl⟩, trivial⟩, trivial⟩

end DraconGuard
