import DraconGuard.Guard.PidBooks
import DraconGuard.Guard.PressureTimers

/-!
# The biases' and the caps' books on one process

Each of the two maps of adjustments has a timer and a count of retries by pid. What a loop, a
release and a prune leave of them under one pid (`OomCarried`, `CapCarried`); `remove_oom_bias`
and `remove_cpu_cap` take both along, a prune takes neither.
-/

namespace DraconGuard

/-! ## Keys with their entry -/

section EntryHeld

variable {β γ : Type} {m : FinMap Pid β} {entries : FinMap Pid γ} {pid q : Pid}

/-- A key of `m` is a key of `entries`. -/
def EntryHeld (m : FinMap Pid β) (entries : FinMap Pid γ) (pid : Pid) : Prop :=
  (m.lookup pid).isSome = true → (entries.lookup pid).isSome = true

theorem EntryHeld.erase_left (h : EntryHeld m entries pid) : EntryHeld (m.erase q) entries pid := by
  intro hkept
  rw [FinMap.lookup_erase_eq] at hkept
  split at hkept
  · cases hkept
  · exact h hkept

theorem EntryHeld.erase (h : EntryHeld m entries pid) :
    EntryHeld (m.erase q) (entries.erase q) pid := by
  intro hkept
  rw [FinMap.lookup_erase_eq] at hkept ⊢
  split at hkept
  · cases hkept
  · next hq =>
    rw [if_neg hq]
    exact h hkept

/-- A key is put in for an entry. -/
theorem EntryHeld.insert_left {v : β} (h : EntryHeld m entries pid)
    (hq : (entries.lookup q).isSome = true) : EntryHeld (m.insert q v) entries pid := by
  intro hkept
  by_cases hpid : pid = q
  · exact hpid ▸ hq
  · exact h (by rwa [AList.lookup_insert_ne hpid] at hkept)

theorem entryHeld_retain :
    EntryHeld (m.retain fun pid _ => (entries.lookup pid).isSome) entries pid := by
  intro hkept
  obtain ⟨v, hv⟩ := Option.isSome_iff_exists.mp hkept
  exact (FinMap.lookup_retain_some.mp hv).2

/-- A loop of `coolStep` over the entries. -/
theorem EntryHeld.started {timers : FinMap Pid Time} (h : EntryHeld timers entries pid)
    (busy : Pid → Bool) (now : Time) (dur : Nat) :
    EntryHeld (entries.keys.foldl (coolStep busy now dur) (timers, [])).1 entries pid := by
  intro hkept
  rcases cooled_or _ _ _ _ _ hkept with hold | hin
  · exact h hold
  · exact AList.lookup_isSome.mpr hin

/-- A prune that drops the entry over no key. -/
theorem EntryHeld.pruned {keep : Pid → γ → Bool} (h : EntryHeld m entries pid)
    (hdrops : ∀ e, entries.lookup pid = some e → keep pid e = false → m.lookup pid = none) :
    EntryHeld m (entries.retain keep) pid := by
  intro hkept
  obtain ⟨e, he⟩ := Option.isSome_iff_exists.mp (h hkept)
  refine Option.isSome_iff_exists.mpr ⟨e, FinMap.lookup_retain_some.mpr ⟨he, ?_⟩⟩
  by_contra hdropped
  rw [hdrops e he (Bool.eq_false_iff.mpr hdropped)] at hkept
  cases hkept

end EntryHeld

/-! ## The biases -/

section Oom

variable {pid : Pid}

namespace OomState

def CountHeld (o : OomState) (pid : Pid) : Prop :=
  EntryHeld o.oomIdentityUnavailableAttempts o.oomBiasedPids pid

def TimerHeld (o : OomState) (pid : Pid) : Prop := EntryHeld o.oomCooledSince o.oomBiasedPids pid

def KnownHeld (o : OomState) (pid : Pid) : Prop :=
  EntryHeld o.oomKnownDescendants o.oomBiasedPids pid

end OomState

/-- The biases' maps under one pid stay in order, and nobody else's are touched. -/
structure OomCarried (pid : Pid) (w w' : OomWorld) : Prop where
  nice : w'.state.nice = w.state.nice
  caps : w'.state.caps = w.state.caps
  count : w.state.oom.CountHeld pid → w'.state.oom.CountHeld pid
  timer : w.state.oom.TimerHeld pid → w'.state.oom.TimerHeld pid

namespace OomCarried

variable {w w₁ w₂ w₃ : OomWorld}

theorem refl (w : OomWorld) : OomCarried pid w w := ⟨rfl, rfl, id, id⟩

theorem trans (h : OomCarried pid w₁ w₂) (h' : OomCarried pid w₂ w₃) : OomCarried pid w₁ w₃ :=
  ⟨h'.nice.trans h.nice, h'.caps.trans h.caps, h'.count ∘ h.count, h'.timer ∘ h.timer⟩

theorem foldl {α : Type} {f : OomWorld → α → OomWorld} {as : List α}
    (hf : ∀ w, ∀ a ∈ as, OomCarried pid w (f w a)) : OomCarried pid w (as.foldl f w) := by
  induction as generalizing w with
  | nil => exact refl w
  | cons a as ih =>
    exact (hf w a List.mem_cons_self).trans (ih fun w b hb => hf w b (List.mem_cons_of_mem a hb))

/-- What is under the pid is as it was. -/
theorem setOom {o : OomState}
    (hbiased : o.oomBiasedPids.lookup pid = w.state.oom.oomBiasedPids.lookup pid)
    (hcooled : o.oomCooledSince.lookup pid = w.state.oom.oomCooledSince.lookup pid)
    (hcount : o.oomIdentityUnavailableAttempts.lookup pid =
      w.state.oom.oomIdentityUnavailableAttempts.lookup pid) : OomCarried pid w (w.setOom o) where
  nice := rfl
  caps := rfl
  count h hkept := by
    rw [OomWorld.setOom_oom, hcount] at hkept
    rw [OomWorld.setOom_oom, hbiased]
    exact h hkept
  timer h hkept := by
    rw [OomWorld.setOom_oom, hcooled] at hkept
    rw [OomWorld.setOom_oom, hbiased]
    exact h hkept

theorem of_state {w' : OomWorld} (h : w'.state = w.state) : OomCarried pid w w' := by
  constructor
  case nice => rw [h]
  case caps => rw [h]
  case count => rw [h]; exact id
  case timer => rw [h]; exact id

theorem persist (env : PersistEnv) (w : OomWorld) : OomCarried pid w (w.persist env).1 := by
  obtain ⟨l, hl⟩ := persistMitigations_state env w.state w.disk
  have hstate : (w.persist env).1.state = { w.state with lastPersistedMitigations := l } := hl
  constructor
  case nice => rw [hstate]
  case caps => rw [hstate]
  case count => rw [hstate]; exact id
  case timer => rw [hstate]; exact id

/-- `remove_oom_bias` takes timer and count along. -/
theorem remove (q : Pid) (w : OomWorld) :
    OomCarried pid w (w.setOom (removeOomBias w.state.oom q)) := by
  have hcooled : (removeOomBias w.state.oom q).oomCooledSince =
      w.state.oom.oomCooledSince.erase q := by
    unfold removeOomBias
    dsimp only
    split <;> rfl
  have hcount : (removeOomBias w.state.oom q).oomIdentityUnavailableAttempts =
      w.state.oom.oomIdentityUnavailableAttempts.erase q := by
    unfold removeOomBias
    dsimp only
    split <;> rfl
  refine ⟨rfl, rfl, fun h => ?_, fun h => ?_⟩
  · rw [OomWorld.setOom_oom, OomState.CountHeld, hcount, removeOomBias_biased]
    exact h.erase
  · rw [OomWorld.setOom_oom, OomState.TimerHeld, hcooled, removeOomBias_biased]
    exact h.erase

end OomCarried

/-- A bias is the matter of its own process. -/
theorem applyOomBias_carried {env : BiasEnv} {p : ProcSample} {samples : List ProcSample}
    {w : OomWorld} (h : pid ≠ p.pid) : OomCarried pid w (applyOomBias env p samples w).1 := by
  unfold applyOomBias
  split
  · next s r hstop =>
    rcases oomBiasIntent_stop hstop with rfl | ⟨rfl, -⟩
    · exact .of_state rfl
    · exact .setOom (AList.lookup_erase_ne h) rfl rfl
  · next s original target hintend =>
    obtain ⟨-, -, -, -, -, -, rfl⟩ := oomBiasIntent_intend hintend
    have hrecorded : OomCarried pid w
        (w.setOom (recordOomBias p samples original (dropBiasRecord w.state.oom p.pid))) := by
      refine .setOom ?_ rfl rfl
      exact (AList.lookup_insert_ne h).trans (AList.lookup_erase_ne h)
    have hpersisted := hrecorded.trans (.persist env.persist _)
    dsimp only
    split
    · exact hpersisted.trans (.remove _ _)
    · split
      · exact hpersisted
      · split
        · exact hpersisted
        · have hwritten := hpersisted.trans (.of_state (writeAdj_state _ p.pid target .bias))
          split <;> exact hwritten

/-- A sweep works on descendants. -/
theorem sweep_carried (env : SweepEnv) (exempt : List String) (samples : List ProcSample)
    (w : OomWorld) : OomCarried pid w (sweepStrandedOomDescendants env exempt samples w) := by
  refine sweep_induction (P := OomCarried pid w) ?_ (fun w' env' h => h.trans (.persist env' w'))
    (fun w' key h => h.trans ?_)
  · have henlist : ∀ (tracked : Pid → Bool) (parents : Pid → Option Pid) (roots : FinMap Pid Int)
        (o : OomState) (p : ProcSample),
        (enlistStep tracked exempt parents roots o p).oomBiasedPids = o.oomBiasedPids ∧
          (enlistStep tracked exempt parents roots o p).oomCooledSince = o.oomCooledSince ∧
          (enlistStep tracked exempt parents roots o p).oomIdentityUnavailableAttempts =
            o.oomIdentityUnavailableAttempts := by
      intro tracked parents roots o p
      unfold enlistStep
      dsimp only
      repeat' split
      all_goals exact ⟨rfl, rfl, rfl⟩
    unfold enlistStrandedDescendants
    dsimp only
    refine .setOom ?_ ?_ ?_
    · rw [Runs.foldl_unwritten (·.oomBiasedPids) fun o p => (henlist _ _ _ o p).1]
    · rw [Runs.foldl_unwritten (·.oomCooledSince) fun o p => (henlist _ _ _ o p).2.1]
    · rw [Runs.foldl_unwritten (·.oomIdentityUnavailableAttempts) fun o p =>
        (henlist _ _ _ o p).2.2]
  · rcases restorePendingStep_cases env.pending exempt w' key with
      heq | ⟨pd, -, heq | heq | ⟨v, rfl, heq | heq⟩⟩
    · rw [heq]
      exact .refl w'
    · rw [heq]
      exact .setOom rfl rfl rfl
    · rw [heq]
      exact .setOom rfl rfl rfl
    · rw [heq]
      refine .trans (.of_state (oomRestore_state _ _ _ _ _ _)) (.setOom ?_ ?_ ?_)
      all_goals rw [oomRestore_state]; rfl
    · rw [heq]
      refine .trans (.of_state (oomRestore_state _ _ _ _ _ _)) (.setOom ?_ ?_ ?_)
      all_goals rw [oomRestore_state]; rfl

theorem releaseOomBias_carried (env : ReleaseEnv) (w : OomWorld) (q : Pid) :
    OomCarried pid w (releaseOomBias env w q) := by
  unfold releaseOomBias
  dsimp only
  cases hbiased : w.state.oom.oomBiasedPids.lookup q with
  | none => exact .refl w
  | some b =>
    obtain ⟨orig, identity⟩ := b
    dsimp only
    split
    · exact .remove q w
    · exact .remove q w
    · exact ⟨rfl, rfl, fun h => h.insert_left (Option.isSome_iff_exists.mpr ⟨_, hbiased⟩), id⟩
    · have hread : OomCarried pid w (w.setOom { w.state.oom with
          oomIdentityUnavailableAttempts :=
            w.state.oom.oomIdentityUnavailableAttempts.erase q }) :=
        ⟨rfl, rfl, fun h => h.erase_left, id⟩
      unfold settleOomBias
      have hrestored := hread.trans (.of_state (oomRestore_state (env.restore q) (w.setOom
        { w.state.oom with oomIdentityUnavailableAttempts :=
          w.state.oom.oomIdentityUnavailableAttempts.erase q }) q identity orig .release))
      dsimp only
      split
      · exact hrestored
      · exact hrestored.trans (.remove q _)

/-- **The release of the biases.** -/
theorem releaseOomBiases_carried (pid : Pid) (env : ReleaseEnv) (w : OomWorld) :
    OomCarried pid w (releaseOomBiases env w) ∧
      (w.state.mitigationLedgerUnavailable = false →
        (releaseOomBiases env w).state.oom.TimerHeld pid) := by
  unfold releaseOomBiases
  split
  · next hledger => exact ⟨.refl w, fun h => by rw [h] at hledger; cases hledger⟩
  · dsimp only
    have hstarted : OomCarried pid w (w.setOom { w.state.oom with
        oomCooledSince := (w.state.oom.oomBiasedPids.keys.foldl
          (coolStep (fun _ => false) env.now env.releaseAfterSecs)
            (w.state.oom.oomCooledSince, [])).1 }) :=
      ⟨rfl, rfl, id, fun h => h.started _ _ _⟩
    generalize w.state.oom.oomBiasedPids.keys.foldl
      (coolStep (fun _ => false) env.now env.releaseAfterSecs)
        (w.state.oom.oomCooledSince, []) = cooled at hstarted ⊢
    have hreleased := hstarted.trans
      (.foldl fun w q (_ : q ∈ cooled.2) => releaseOomBias_carried env w q)
    exact ⟨hreleased.trans ⟨rfl, rfl, id, fun _ => entryHeld_retain⟩, fun _ => entryHeld_retain⟩

/-- **The closing prune of the biases**; what is known of descendants goes with its root. -/
theorem pruneOom_carried (samples : List ProcSample) {readable : Pid → Bool} {w : OomWorld}
    (h : (∃ b, w.state.oom.oomBiasedPids.lookup pid = some b ∧
        (processIdentityStatus w.table (readable pid) pid b.2).dead = true) →
      oomRootHasPendingDescendants w.state.oom pid = false →
        w.state.oom.oomIdentityUnavailableAttempts.lookup pid = none ∧
          w.state.oom.oomCooledSince.lookup pid = none) :
    OomCarried pid w (pruneOom readable samples w) ∧
      (pruneOom readable samples w).state.oom.KnownHeld pid := by
  have hdrops : ∀ b, w.state.oom.oomBiasedPids.lookup pid = some b →
      (!(processIdentityStatus w.table (readable pid) pid b.2).dead ||
        oomRootHasPendingDescendants w.state.oom pid) = false →
          w.state.oom.oomIdentityUnavailableAttempts.lookup pid = none ∧
            w.state.oom.oomCooledSince.lookup pid = none := by
    intro b hb hdropped
    rw [Bool.or_eq_false_iff, Bool.not_eq_false'] at hdropped
    exact h ⟨b, hb, hdropped.1⟩ hdropped.2
  refine ⟨⟨rfl, rfl, fun hw => hw.pruned fun b hb hdead => (hdrops b hb hdead).1,
    fun hw => hw.pruned fun b hb hdead => (hdrops b hb hdead).2⟩, fun hkept => ?_⟩
  obtain ⟨known, hknown⟩ := Option.isSome_iff_exists.mp hkept
  change (FinMap.mapValues _ (FinMap.retain _ _)).lookup pid = some known at hknown
  rw [FinMap.lookup_mapValues, Option.map_eq_some_iff] at hknown
  obtain ⟨was, hwas, -⟩ := hknown
  exact (FinMap.lookup_retain_some.mp hwas).2

end Oom

/-! ## The caps -/

section Caps

variable {pid : Pid}

namespace CapState

def CountHeld (c : CapState) (pid : Pid) : Prop :=
  EntryHeld c.capIdentityUnavailableAttempts c.cappedPids pid

def TimerHeld (c : CapState) (pid : Pid) : Prop := EntryHeld c.capCooledSince c.cappedPids pid

end CapState

/-- The caps' maps under one pid stay in order. -/
structure CapCarried (pid : Pid) (c c' : CapState) : Prop where
  count : c.CountHeld pid → c'.CountHeld pid
  timer : c.TimerHeld pid → c'.TimerHeld pid

namespace CapCarried

variable {c c₁ c₂ c₃ : CapState}

theorem refl (c : CapState) : CapCarried pid c c := ⟨id, id⟩

theorem trans (h : CapCarried pid c₁ c₂) (h' : CapCarried pid c₂ c₃) : CapCarried pid c₁ c₃ :=
  ⟨h'.count ∘ h.count, h'.timer ∘ h.timer⟩

theorem foldl {α : Type} {f : CapWorld → α → CapWorld} {as : List α}
    (hf : ∀ w, ∀ a ∈ as, CapCarried pid w.caps (f w a).caps) (w : CapWorld) :
    CapCarried pid w.caps (as.foldl f w).caps := by
  induction as generalizing w with
  | nil => exact refl w.caps
  | cons a as ih =>
    have hrest := ih fun w b hb => hf w b (List.mem_cons_of_mem a hb)
    exact (hf w a List.mem_cons_self).trans (hrest _)

theorem remove (q : Pid) (c : CapState) : CapCarried pid c (removeCpuCap c q) :=
  ⟨fun h => h.erase, fun h => h.erase⟩

end CapCarried

theorem capStep_carried {env : CapEnv} {w : CapWorld} {p : ProcSample} (h : pid ≠ p.pid) :
    CapCarried pid w.caps (capStep env w p).caps := by
  unfold capStep
  split
  · exact .refl _
  · split
    · exact .refl _
    · split
      · exact .refl _
      · refine ⟨fun hw hkept => ?_, fun hw hkept => ?_⟩
        all_goals
          dsimp only
          rw [AList.lookup_insert_ne h]
          exact hw hkept

theorem releaseCap_carried (env : CapReleaseEnv) (w : CapWorld) (q : Pid) :
    CapCarried pid w.caps (releaseCap env w q).caps := by
  have hlegacy : ∀ (e : CapEntry) (allow : Bool),
      CapCarried pid w.caps (releaseLegacyCap (env.uncap q) w q e allow).caps := by
    intro e allow
    have hread : CapCarried pid w.caps { w.caps with
        capIdentityUnavailableAttempts := w.caps.capIdentityUnavailableAttempts.erase q } :=
      ⟨fun hw => hw.erase_left, id⟩
    unfold releaseLegacyCap
    dsimp only
    split
    · exact hread.trans (.remove q _)
    · exact hread
  unfold releaseCap
  cases hcapped : w.caps.cappedPids.lookup q with
  | none => exact .refl _
  | some e =>
    dsimp only
    split
    · split
      · exact .remove q _
      · exact .refl _
    · split
      · exact hlegacy e true
      · exact hlegacy e true
      · exact hlegacy e false
      · exact ⟨fun hw => hw.insert_left (Option.isSome_iff_exists.mpr ⟨e, hcapped⟩), id⟩

/-- **The release of the caps.** -/
theorem releaseCaps_carried (pid : Pid) (env : CapReleaseEnv) (w : CapWorld) :
    CapCarried pid w.caps (releaseCaps env w).caps ∧
      (w.ledgerUnavailable = false → (releaseCaps env w).caps.TimerHeld pid) := by
  unfold releaseCaps
  split
  · next hledger => exact ⟨.refl _, fun h => by rw [h] at hledger; cases hledger⟩
  · dsimp only
    have hstarted : CapCarried pid w.caps { w.caps with
        capCooledSince := (w.caps.cappedPids.keys.foldl
          (coolStep (fun _ => false) env.now env.releaseAfterSecs)
            (w.caps.capCooledSince, [])).1 } :=
      ⟨id, fun h => h.started _ _ _⟩
    generalize w.caps.cappedPids.keys.foldl
      (coolStep (fun _ => false) env.now env.releaseAfterSecs) (w.caps.capCooledSince, []) = cooled
        at hstarted ⊢
    have hreleased := hstarted.trans
      (CapCarried.foldl (fun w q (_ : q ∈ cooled.2) => releaseCap_carried env w q)
        { w with caps := { w.caps with capCooledSince := cooled.1 } })
    exact ⟨hreleased.trans ⟨id, fun _ => entryHeld_retain⟩, fun _ => entryHeld_retain⟩

/-- **The closing prune of the caps.** -/
theorem pruneCaps_carried {readable : Pid → Bool} {w : CapWorld}
    (h : (∃ e, w.caps.cappedPids.lookup pid = some e ∧
        (processIdentityStatus w.table (readable pid) pid e.identity).dead = true) →
      w.caps.capIdentityUnavailableAttempts.lookup pid = none ∧
        w.caps.capCooledSince.lookup pid = none) :
    CapCarried pid w.caps (pruneCaps readable w).caps := by
  have hdrops : ∀ e, w.caps.cappedPids.lookup pid = some e →
      (!(processIdentityStatus w.table (readable pid) pid e.identity).dead) = false →
        w.caps.capIdentityUnavailableAttempts.lookup pid = none ∧
          w.caps.capCooledSince.lookup pid = none := by
    intro e he hdead
    rw [Bool.not_eq_false'] at hdead
    exact h ⟨e, he, hdead⟩
  exact ⟨fun hw => hw.pruned fun e he hdead => (hdrops e he hdead).1,
    fun hw => hw.pruned fun e he hdead => (hdrops e he hdead).2⟩

end Caps

end DraconGuard
