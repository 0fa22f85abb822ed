import DraconGuard.Guard.LedgerRoundTrip
import DraconGuard.Guard.OomLedgerLaw

/-!
# Pending descendants across passes and restarts

A pending descendant is a debt: an adjustment to write back to one incarnation. The daemon retries
it (`restore_pending_oom_descendants`, main.rs:2698), persists it and starts again on the same boot.
In memory a debt lives until a pass observes that there is nothing left to write back
(`Observed`). Across restarts it lives once the ledger lists it; a debt that no persist has
reached yet is forgotten (`unrecorded_debt_forgotten`).
-/

namespace DraconGuard

/-- A pending descendant without its retry counter. -/
structure PendingDebt where
  rootPid : Pid
  originalAdj : Int
  identity : ProcessIdentity
deriving DecidableEq

def OomPendingDescendant.debt (pd : OomPendingDescendant) : PendingDebt :=
  ⟨pd.rootPid, pd.originalAdj, pd.identity⟩

/-- The debt in memory. -/
def OomWorld.owes (w : OomWorld) (key : Incarnation) : Option PendingDebt :=
  (w.state.oom.oomPendingDescendants.lookup key).map (·.debt)

def pendingKey (p : Pid × OomPendingDescendant) : Incarnation := (p.1, p.2.identity.starttime)

/-- The debt a ledger lists: of two entries under one key the later one counts. -/
def MitigationLedger.owes (l : MitigationLedger) (key : Incarnation) : Option PendingDebt :=
  (l.oomPending.reverse.find? fun p => pendingKey p = key).map (·.2.debt)

/-- The ledger of this boot lists the debt. -/
def Recorded (boot : String) (w : OomWorld) (key : Incarnation) (d : PendingDebt) : Prop :=
  ∃ l, w.disk.visible = some (.json l) ∧ l.version ≤ 1 ∧ l.bootId.all (· == boot) = true ∧
    l.owes key = some d

/-! ## Runs -/

/-- What can happen on one boot. -/
inductive PendingInput where
  /-- Anything happens to the processes. -/
  | outside (t : ProcTable)
  | pass (env : PendingEnv) (exempt : List String)
  | persist (bootReadable : Bool) (outcome : PersistOutcome)
  /-- A new daemon, which may fail to read the boot id or the ledger. -/
  | restart (bootReadable ledgerReadable : Bool) (readable : Pid → Bool)

def PendingInput.isRestart : PendingInput → Bool
  | .restart .. => true
  | _ => false

/-- A restart that could not read its ledger, or tell its boot. -/
def PendingInput.isBlind : PendingInput → Bool
  | .restart bootReadable ledgerReadable _ => !(bootReadable && ledgerReadable)
  | _ => false

def bootIdRead (boot : String) (readable : Bool) : Option String :=
  if readable then some boot else none

def pendingStep (boot : String) (w : OomWorld) : PendingInput → OomWorld
  | .outside t => { w with table := t }
  | .pass env exempt => restorePendingOomDescendants env exempt w
  | .persist bootReadable outcome => (w.persist ⟨bootIdRead boot bootReadable, outcome⟩).1
  | .restart bootReadable ledgerReadable readable =>
    let env : HydrateEnv := { bootId := bootIdRead boot bootReadable, readable := readable }
    let read := if ledgerReadable then w.disk.read else .unreadable
    { w with state := (daemonStart w.table env read w.disk).state }

/-! ## What a pass observes -/

/-- What a debt is dropped on, at its turn in a pass: the process is gone or another one, it is
defunct, its adjustment was written back and read back, or it is no longer the bias target. -/
inductive Observed (env : PendingEnv) (exempt : List String) (w : OomWorld) (key : Incarnation)
    (d : PendingDebt) : Prop
  | dead (hread : env.readable key = true)
      (hgone : ∀ p, w.table key.1 = some p → p.starttime ≠ d.identity.starttime)
  | zombie (p : Proc) (hp : w.table key.1 = some p) (hst : p.starttime = d.identity.starttime)
      (hread : env.stateReadable key = true) (hzombie : p.zombie = true)
  | restored (p : Proc) (hp : w.table key.1 = some p) (hst : p.starttime = d.identity.starttime)
      (hfree : exemptComm exempt p.comm = false) (hwrote : (env.restore key).wrote = true)
      (hverified : (env.restore key).verified = true)
      (hafter : (oomRestore (env.restore key) w key.1 d.identity d.originalAdj
        (.debt d.rootPid)).1.table key.1 = some { p with oomScoreAdj := d.originalAdj })
  | changed (p : Proc) (hp : w.table key.1 = some p) (hst : p.starttime = d.identity.starttime)
      (hfree : exemptComm exempt p.comm = false) (hread : (env.restore key).parsed = true)
      (hother : p.oomScoreAdj ≠ oomBiasTargetValue)

/-- What a debt is kept on: no verdict about the process, a live process whose name cannot be read
or is exempt, or a failure of the restore. -/
def Withheld (env : PendingEnv) (exempt : List String) (w : OomWorld) (key : Incarnation)
    (d : PendingDebt) : Prop :=
  env.readable key = false ∨ ∃ p, w.table key.1 = some p ∧ p.starttime = d.identity.starttime ∧
    ¬ (env.stateReadable key = true ∧ p.zombie = true) ∧
      (env.identityReadable key = false ∨ exemptComm exempt p.comm = true ∨
        ∃ e, (oomRestore (env.restore key) w key.1 d.identity d.originalAdj
          (.debt d.rootPid)).2 = .error e)

/-- The debt is dropped in this step, and on what. -/
def Discharged (w : OomWorld) (i : PendingInput) (key : Incarnation) (d : PendingDebt) : Prop :=
  match i with
  | .outside _ => False
  | .pass env exempt => ∃ before after,
      w.state.oom.oomPendingDescendants.keys = before ++ key :: after ∧
        Observed env exempt (before.foldl (restorePendingStep env exempt) w) key d
  | .persist _ _ => False
  | .restart bootReadable ledgerReadable readable =>
    bootReadable = true ∧ ledgerReadable = true ∧
      (processIdentityStatus w.table (readable key.1) key.1 d.identity).dead = true

/-! ## One retry -/

section Retry

variable {env : PendingEnv} {exempt : List String} {w : OomWorld} {key : Incarnation}
  {d : PendingDebt}

/-- A retry is about its own key. -/
theorem owes_pendingStep_other {key' : Incarnation} (h : key' ≠ key) :
    (restorePendingStep env exempt w key).owes key' = w.owes key' := by
  have hremove : ((removePending w.state.oom key).oomPendingDescendants.lookup key').map
      (·.debt) = w.owes key' := by
    rw [removePending, FinMap.lookup_erase_eq, if_neg h]
    rfl
  have hretry : ∀ pd, ((recordOomRetry w.state.oom key pd).oomPendingDescendants.lookup key').map
      (·.debt) = w.owes key' := by
    intro pd
    rw [recordOomRetry, FinMap.lookup_insert_eq, if_neg h]
    rfl
  rcases restorePendingStep_cases env exempt w key with
    he | ⟨pd, -, he | he | ⟨w', -, he | he⟩⟩ <;> rw [he]
  · exact hremove
  · exact hretry pd
  · exact hretry pd
  · exact hremove

theorem owes_retry (w w' : OomWorld) (key : Incarnation) (pd : OomPendingDescendant) :
    (w'.setOom (recordOomRetry w.state.oom key pd)).owes key = some pd.debt := by
  simp [OomWorld.owes, recordOomRetry, OomPendingDescendant.debt]

/-- A restore that succeeds wrote the original value back and read it back, or found another value
than the target. -/
theorem oomRestore_ok {env : RestoreEnv} {pid : Pid} {id : ProcessIdentity} {original : Int}
    {cause : AdjCause} {b : Bool} (h : (oomRestore env w pid id original cause).2 = .ok b) :
    env.parsed = true ∧ ∃ p, w.table pid = some p ∧ p.starttime = id.starttime ∧
      (p.oomScoreAdj ≠ oomBiasTargetValue ∨ env.wrote = true ∧ env.verified = true ∧
        (oomRestore env w pid id original cause).1.table pid =
          some { p with oomScoreAdj := original }) := by
  unfold oomRestore at h ⊢
  split_ifs at h ⊢ with h1 h2 h3 h4 h5 h6
  · obtain ⟨-, p, hp, hst⟩ := processIdentityStatus_matching (by simpa using h2)
    exact ⟨by simpa using h3, p, hp, hst, Or.inl (by simpa [hp] using h4)⟩
  · obtain ⟨-, p, hp, hst⟩ := processIdentityStatus_matching (by simpa using h2)
    refine ⟨by simpa using h3, p, hp, hst, Or.inr ⟨by simpa using h5, by simpa using h6, ?_⟩⟩
    simp [OomWorld.writeAdj, hp, OomWorld.mark, ProcTable.setAdj_apply]

variable (env exempt) in
/-- At its turn a debt stays, or is dropped on what was observed, with nothing to keep it on. -/
theorem owes_pendingStep_self (h : w.owes key = some d) :
    (restorePendingStep env exempt w key).owes key = some d ∨
      Observed env exempt w key d ∧ ¬ Withheld env exempt w key d := by
  obtain ⟨pd, hpd, rfl⟩ := Option.map_eq_some_iff.1 h
  -- the process is gone or another one
  have hdead : (processIdentityStatus w.table (env.readable key) key.1 pd.identity).dead = true →
      Observed env exempt w key pd.debt ∧ ¬ Withheld env exempt w key pd.debt := by
    intro hdead
    have hread : env.readable key = true := by
      cases hread : env.readable key with
      | true => rfl
      | false => simp [processIdentityStatus, hread, ProcessIdentityStatus.dead] at hdead
    have hgone := processIdentityStatus_dead hdead
    refine ⟨.dead hread hgone, ?_⟩
    rintro (hunread | ⟨p, hp, hst, -⟩)
    · rw [hread] at hunread
      cases hunread
    · exact hgone p hp hst
  have hunique : ∀ {p p'}, w.table key.1 = some p → w.table key.1 = some p' → p = p' :=
    fun hp hp' => Option.some.inj (hp.symm.trans hp')
  have hkept : ∀ w' : OomWorld, (w'.setOom (recordOomRetry w.state.oom key pd)).owes key = some pd.debt :=
    fun w' => owes_retry w w' key pd
  unfold restorePendingStep
  dsimp only
  rw [hpd]
  dsimp only
  split
  · next hs => exact Or.inr (hdead (by rw [hs]; rfl))
  · next hs => exact Or.inr (hdead (by rw [hs]; rfl))
  · exact Or.inl (hkept w)
  · next hs =>
    obtain ⟨-, p, hp, hst⟩ := processIdentityStatus_matching hs
    rw [hp]
    split
    · next hz =>
      simp only [Option.any_some, Bool.and_eq_true] at hz
      refine Or.inr ⟨.zombie p hp hst hz.1 hz.2, ?_⟩
      rintro (hunread | ⟨p', hp', -, hlive, -⟩)
      · simp [processIdentityStatus, hunread] at hs
      · obtain rfl := hunique hp hp'
        exact hlive hz
    split
    · exact Or.inl (hkept w)
    split
    · exact Or.inl (hkept w)
    next hz hid hexempt =>
    simp only [Option.any_some, Bool.and_eq_true] at hz hexempt
    split
    · exact Or.inl (hkept _)
    · next b hb =>
      obtain ⟨hparsed, p', hp', -, hresult⟩ := oomRestore_ok hb
      obtain rfl := hunique hp hp'
      have hfree : exemptComm exempt p.comm = false := by simpa using hexempt
      refine Or.inr ⟨?_, ?_⟩
      · rcases hresult with hother | ⟨hwrote, hverified, hafter⟩
        · exact .changed p hp hst hfree hparsed hother
        · exact .restored p hp hst hfree hwrote hverified hafter
      · rintro (hunread | ⟨p', hp', -, -, hunnamed | hheld | ⟨e, he⟩⟩)
        · simp [processIdentityStatus, hunread] at hs
        · simp [hunnamed] at hid
        · obtain rfl := hunique hp hp'
          exact hexempt hheld
        · cases hb.symm.trans he

/-- A debt with something to keep it on is kept. -/
theorem Withheld.keeps (h : Withheld env exempt w key d) (hd : w.owes key = some d) :
    (restorePendingStep env exempt w key).owes key = some d :=
  (owes_pendingStep_self env exempt hd).resolve_right fun hobs => hobs.2 h

end Retry

/-! ## One pass -/

section Pass

variable {env : PendingEnv} {exempt : List String} {w : OomWorld} {key : Incarnation}
  {d : PendingDebt}

theorem owes_loop_other {keys : List Incarnation} (h : key ∉ keys) :
    (keys.foldl (restorePendingStep env exempt) w).owes key = w.owes key := by
  induction keys generalizing w with
  | nil => rfl
  | cons k keys ih =>
    rw [List.mem_cons, not_or] at h
    exact (ih h.2).trans (owes_pendingStep_other h.1)

/-- The debt stays on at its turn. -/
def HeldBack (w : OomWorld) (i : PendingInput) (key : Incarnation) (d : PendingDebt) : Prop :=
  match i with
  | .pass env exempt => ∀ before after,
      w.state.oom.oomPendingDescendants.keys = before ++ key :: after →
        Withheld env exempt (before.foldl (restorePendingStep env exempt) w) key d
  | _ => False

/-- A pass retries every debt once. -/
theorem owes_pass (h : w.owes key = some d) :
    (restorePendingOomDescendants env exempt w).owes key = some d ∨
      Discharged w (.pass env exempt) key d ∧ ¬ HeldBack w (.pass env exempt) key d := by
  have hmem : key ∈ w.state.oom.oomPendingDescendants.keys := by
    obtain ⟨pd, hpd, -⟩ := Option.map_eq_some_iff.1 h
    exact AList.mem_keys.1 (FinMap.mem_iff_lookup.2 ⟨pd, hpd⟩)
  obtain ⟨before, after, hkeys⟩ := List.append_of_mem hmem
  have hnodup : (before ++ key :: after).Nodup := hkeys ▸ AList.keys_nodup _
  have hbefore : key ∉ before := fun hin =>
    List.disjoint_of_nodup_append hnodup hin List.mem_cons_self
  have hafter : key ∉ after := (List.nodup_cons.1 hnodup.of_append_right).1
  have hturn : (before.foldl (restorePendingStep env exempt) w).owes key = some d :=
    (owes_loop_other hbefore).trans h
  unfold restorePendingOomDescendants
  rw [hkeys, List.foldl_append, List.foldl_cons, owes_loop_other hafter]
  rcases owes_pendingStep_self env exempt hturn with hkept | ⟨hobs, hnot⟩
  · exact Or.inl hkept
  · exact Or.inr ⟨⟨before, after, hkeys, hobs⟩, fun hheld => hnot (hheld before after hkeys)⟩

variable (env exempt) in
/-- A retry touches neither the ledger nor the flag about it. -/
theorem pendingStep_ledger (w : OomWorld) (key : Incarnation) :
    (restorePendingStep env exempt w key).disk = w.disk ∧
      (restorePendingStep env exempt w key).state.mitigationLedgerUnavailable =
        w.state.mitigationLedgerUnavailable := by
  have hrestore : ∀ pd : OomPendingDescendant, (oomRestore (env.restore key) w key.1 pd.identity
      pd.originalAdj (.debt pd.rootPid)).1.disk = w.disk := by
    intro pd
    rcases oomRestore_cases (env.restore key) w key.1 pd.identity pd.originalAdj
      (.debt pd.rootPid) with ⟨he, -⟩ | ⟨he, -⟩
    · rw [he]
    · rw [he]
      unfold OomWorld.writeAdj
      split <;> rfl
  rcases restorePendingStep_cases env exempt w key with
    he | ⟨pd, -, he | he | ⟨w', hw', he | he⟩⟩ <;> rw [he]
  · exact ⟨rfl, rfl⟩
  · exact ⟨rfl, rfl⟩
  · exact ⟨rfl, rfl⟩
  · subst hw'
    exact ⟨hrestore pd, by rw [OomWorld.setOom, oomRestore_state]⟩
  · subst hw'
    exact ⟨hrestore pd, by rw [OomWorld.setOom, oomRestore_state]⟩

variable (env exempt) in
theorem loop_ledger (keys : List Incarnation) (w : OomWorld) :
    (keys.foldl (restorePendingStep env exempt) w).disk = w.disk ∧
      (keys.foldl (restorePendingStep env exempt) w).state.mitigationLedgerUnavailable =
        w.state.mitigationLedgerUnavailable := by
  induction keys generalizing w with
  | nil => exact ⟨rfl, rfl⟩
  | cons k keys ih =>
    obtain ⟨hdisk, hflag⟩ := pendingStep_ledger env exempt w k
    obtain ⟨hdisk', hflag'⟩ := ih (restorePendingStep env exempt w k)
    exact ⟨hdisk'.trans hdisk, hflag'.trans hflag⟩

theorem loop_keyed (keys : List Incarnation) {w : OomWorld} (h : PendingKeyed w.state.oom) :
    PendingKeyed (keys.foldl (restorePendingStep env exempt) w).state.oom := by
  induction keys generalizing w with
  | nil => exact h
  | cons k keys ih => exact ih (keyed_pendingStep h env exempt k)

end Pass

/-! ## Persisting -/

section Persist

variable {boot : String} {w : OomWorld} {key : Incarnation} {d : PendingDebt}

/-- The ledger of a state lists what the state owes. -/
theorem mitigationLedger_owes {s : GuardRuntimeState} (hkeyed : PendingKeyed s.oom)
    {pd : OomPendingDescendant} (hpd : s.oom.oomPendingDescendants.lookup key = some pd) :
    (mitigationLedger boot s).owes key = some pd.debt := by
  have hmem : ∀ p, p ∈ (mitigationLedger boot s).oomPending ↔
      ∃ k, s.oom.oomPendingDescendants.lookup k = some p.2 ∧ k.1 = p.1 := by
    intro p
    simp only [mitigationLedger, List.mem_insertionSort, List.mem_map]
    constructor
    · rintro ⟨⟨k, pd'⟩, hk, rfl⟩
      exact ⟨k, FinMap.mem_entries_iff.1 hk, rfl⟩
    · rintro ⟨k, hk, hk1⟩
      exact ⟨⟨k, p.2⟩, FinMap.mem_entries_iff.2 hk, Prod.ext hk1 rfl⟩
  have hin : (key.1, pd) ∈ (mitigationLedger boot s).oomPending := (hmem _).2 ⟨key, hpd, rfl⟩
  have hown : pendingKey (key.1, pd) = key := Prod.ext rfl (hkeyed key pd hpd)
  unfold MitigationLedger.owes
  cases hfind : (mitigationLedger boot s).oomPending.reverse.find? fun p => pendingKey p = key with
  | none =>
    have hnone := List.find?_eq_none.1 hfind (key.1, pd) (List.mem_reverse.2 hin)
    exact absurd (by simpa using hown) hnone
  | some p =>
    -- one entry has this key
    have hkey : pendingKey p = key := by simpa using List.find?_some hfind
    obtain ⟨k, hk, hk1⟩ := (hmem p).1 (List.mem_reverse.1 (List.mem_of_find?_eq_some hfind))
    have hk2 : k = key := by
      rw [← hkey]
      exact Prod.ext hk1 (hkeyed k p.2 hk).symm
    rw [hk2, hpd] at hk
    rw [Option.map_some, Option.some.inj hk]

/-- A persist leaves the file, or writes the state's own ledger. -/
theorem persist_visible (env : PersistEnv) (w : OomWorld) :
    (w.persist env).1.state.mitigationLedgerUnavailable = w.state.mitigationLedgerUnavailable ∧
      ((w.persist env).1.disk = w.disk ∨ w.state.mitigationLedgerUnavailable = false ∧
        ∃ b, env.bootId = some b ∧
          (w.persist env).1.disk.visible = some (.json (mitigationLedger b w.state))) := by
  have hstate : (w.persist env).1.state = (persistMitigations env w.state w.disk).1 := rfl
  have hdisk : (w.persist env).1.disk = (persistMitigations env w.state w.disk).2.1 := rfl
  rw [hstate, hdisk]
  unfold persistMitigations persistMitigationsTo
  split
  · exact ⟨rfl, Or.inl rfl⟩
  split
  · exact ⟨rfl, Or.inl rfl⟩
  next hflag =>
  have hflag' : w.state.mitigationLedgerUnavailable = false := by simpa using hflag
  split
  · exact ⟨rfl, Or.inl rfl⟩
  next b hb =>
  dsimp only
  split
  · exact ⟨rfl, Or.inl rfl⟩
  split
  · exact ⟨rfl, Or.inl rfl⟩
  · exact ⟨rfl, Or.inr ⟨hflag', b, hb, rfl⟩⟩
  · exact ⟨rfl, Or.inr ⟨hflag', b, hb, rfl⟩⟩

theorem recorded_persist (hkeyed : PendingKeyed w.state.oom) (readable : Bool)
    (outcome : PersistOutcome) (h : Recorded boot w key d) (howed : w.owes key = some d) :
    Recorded boot (w.persist ⟨bootIdRead boot readable, outcome⟩).1 key d := by
  obtain ⟨pd, hpd, rfl⟩ := Option.map_eq_some_iff.1 howed
  rcases (persist_visible ⟨bootIdRead boot readable, outcome⟩ w).2 with hdisk | ⟨-, b, hb, hvis⟩
  · unfold Recorded
    rwa [hdisk]
  · refine ⟨_, hvis, le_rfl, ?_, mitigationLedger_owes hkeyed hpd⟩
    have hboot : b = boot := by
      cases readable with
      | false => cases hb
      | true => exact (Option.some.inj hb).symm
    simp [mitigationLedger, hboot]

end Persist

/-! ## Starting again -/

section Restart

variable {boot : String} {w : OomWorld} {key : Incarnation} {d : PendingDebt}

/-- The verdict depends on the start time only. -/
theorem dead_congr {t : ProcTable} {r : Bool} {pid : Pid} {id id' : ProcessIdentity}
    (h : id.starttime = id'.starttime) :
    (processIdentityStatus t r pid id).dead = (processIdentityStatus t r pid id').dead := by
  unfold processIdentityStatus
  rw [h]

/-- What the entries of a ledger set, dead processes apart: the last of each key. -/
theorem hydratePendings_lookup {t : ProcTable} {env : HydrateEnv} {id : ProcessIdentity}
    (hid : id.starttime = key.2) (ps : List (Pid × OomPendingDescendant)) (s : GuardRuntimeState)
    (hfresh : s.oom.oomPendingDescendants.lookup key = none) :
    (ps.foldl (hydratePending t env) s).oom.oomPendingDescendants.lookup key =
      if (processIdentityStatus t (env.readable key.1) key.1 id).dead then none
      else (ps.reverse.find? fun p => pendingKey p = key).map (·.2) := by
  induction ps using List.reverseRecOn with
  | nil => simp [hfresh]
  | append_singleton ps p ih =>
    rw [List.foldl_append, List.foldl_cons, List.foldl_nil, hydratePending_lookup, ih,
      List.reverse_append, List.reverse_singleton, List.singleton_append, List.find?_cons]
    by_cases hkey : pendingKey p = key
    · have hst : p.2.identity.starttime = id.starttime := by rw [hid, ← hkey]; rfl
      have hpid : p.1 = key.1 := by rw [← hkey]; rfl
      rw [dead_congr hst, hpid]
      cases hd : (processIdentityStatus t (env.readable key.1) key.1 id).dead with
      | true => simp
      | false => simp [← hkey, pendingKey]
    · have hne : ¬ key = (p.1, p.2.identity.starttime) := fun heq => hkey heq.symm
      simp [hkey, hne]

theorem hydrateLedger_pending_eq (t : ProcTable) (env : HydrateEnv) (s : GuardRuntimeState)
    (l : MitigationLedger) (key : Incarnation) :
    (hydrateLedger t env s l).oom.oomPendingDescendants.lookup key =
      (l.oomPending.foldl (hydratePending t env) s).oom.oomPendingDescendants.lookup key := by
  have hknown : ∀ (s : GuardRuntimeState) (k : Pid × Finset Incarnation),
      (hydrateKnown s k).oom.oomPendingDescendants.lookup key =
        s.oom.oomPendingDescendants.lookup key := fun _ _ => rfl
  unfold hydrateLedger
  rw [Runs.foldl_unwritten (fun s : GuardRuntimeState => s.oom.oomPendingDescendants.lookup key)
      (hydrateRecord_descendants (fun o => o.oomPendingDescendants.lookup key) fun _ _ => rfl),
    Runs.foldl_unwritten (fun s : GuardRuntimeState => s.oom.oomPendingDescendants.lookup key)
      hknown]

/-- A daemon that reads its ledger takes a recorded debt up again, unless the process is dead. -/
theorem owes_restart (h : Recorded boot w key d) (readable : Pid → Bool) :
    (pendingStep boot w (.restart true true readable)).owes key =
      if (processIdentityStatus w.table (readable key.1) key.1 d.identity).dead then none
      else some d := by
  obtain ⟨l, hvis, hversion, hboot, howes⟩ := h
  obtain ⟨p, hfind, rfl⟩ := Option.map_eq_some_iff.1 howes
  have hkey : pendingKey p = key := by simpa using List.find?_some hfind
  have hid : p.2.identity.starttime = key.2 := by rw [← hkey]; rfl
  have hread : w.disk.read = .text (.json l) := by rw [LedgerDisk.read, hvis]
  have hsame : l.bootId.any (· != boot) = false := by
    cases hl : l.bootId with
    | none => rfl
    | some b => simpa [hl] using hboot
  unfold OomWorld.owes
  simp only [pendingStep, bootIdRead, if_true, hread, daemonStart, oomStart,
    hydrateMitigationsFrom, not_lt.2 hversion, if_false, hsame, Bool.false_eq_true]
  rw [hydrateLedger_pending_eq, hydratePendings_lookup hid _ _ rfl, hfind]
  exact apply_ite (Option.map OomPendingDescendant.debt) _ _ _

/-- One that cannot leaves the ledger alone from then on. -/
theorem blind_restart (h : Recorded boot w key d) {bootReadable ledgerReadable : Bool}
    (hblind : (bootReadable && ledgerReadable) = false) (readable : Pid → Bool) :
    (pendingStep boot w (.restart bootReadable ledgerReadable
      readable)).state.mitigationLedgerUnavailable = true := by
  obtain ⟨l, hvis, hversion, -⟩ := h
  have hread : w.disk.read = .text (.json l) := by rw [LedgerDisk.read, hvis]
  cases ledgerReadable with
  | false => rfl
  | true =>
    obtain rfl : bootReadable = false := by simpa using hblind
    simp [pendingStep, bootIdRead, hread, daemonStart, oomStart, hydrateMitigationsFrom,
      not_lt.2 hversion]

end Restart

/-! ## The law -/

/-- A step at which nothing was observed that ends the debt, or at whose turn it was withheld. -/
def Kept (key : Incarnation) (d : PendingDebt) (w : OomWorld) (i : PendingInput) : Prop :=
  ¬ Discharged w i key d ∨ HeldBack w i key d

section Law

variable {boot : String} {w : OomWorld} {key : Incarnation} {d : PendingDebt}

/-- A debt that a restart does not lose: the ledger lists it, and it is in memory or the ledger is
left alone. -/
def Retained (boot : String) (w : OomWorld) (key : Incarnation) (d : PendingDebt) : Prop :=
  Recorded boot w key d ∧ (w.owes key = some d ∨ w.state.mitigationLedgerUnavailable = true)

theorem pendingStep_keyed (h : PendingKeyed w.state.oom) (i : PendingInput) :
    PendingKeyed (pendingStep boot w i).state.oom := by
  cases i with
  | outside t => exact h
  | pass env exempt => exact loop_keyed _ h
  | persist readable outcome =>
    rw [pendingStep, persist_oom]
    exact h
  | restart bootReadable ledgerReadable readable => exact hydrate_keyed _ _ _

/-- No step but a restart drops a debt from memory without a reason. -/
theorem owes_step (h : w.owes key = some d) {i : PendingInput} (hi : i.isRestart = false)
    (hkeep : Kept key d w i) :
    (pendingStep boot w i).owes key = some d := by
  cases i with
  | outside t => exact h
  | pass env exempt =>
    rcases owes_pass h with hkept | ⟨hdis, hheld⟩
    · exact hkept
    · exact absurd hkeep (not_or.2 ⟨not_not.2 hdis, hheld⟩)
  | persist readable outcome =>
    unfold OomWorld.owes pendingStep
    rw [persist_oom]
    exact h
  | restart bootReadable ledgerReadable readable => cases hi

/-- A step keeps what is retained, unless it discharges it. -/
theorem Retained.step (hkeyed : PendingKeyed w.state.oom) (h : Retained boot w key d)
    {i : PendingInput} (hkeep : Kept key d w i) :
    Retained boot (pendingStep boot w i) key d := by
  obtain ⟨hrec, hheld⟩ := h
  cases i with
  | outside t => exact ⟨hrec, hheld⟩
  | pass env exempt =>
    obtain ⟨hdisk, hflag⟩ := loop_ledger env exempt
      w.state.oom.oomPendingDescendants.keys w
    have hdisk' : (pendingStep boot w (.pass env exempt)).disk = w.disk := hdisk
    have hflag' : (pendingStep boot w
      (.pass env exempt)).state.mitigationLedgerUnavailable = _ := hflag
    refine ⟨by unfold Recorded; rwa [hdisk'], ?_⟩
    rw [hflag']
    exact hheld.imp_left fun howed => owes_step howed rfl hkeep
  | persist readable outcome =>
    obtain ⟨hflag, hdisk⟩ := persist_visible ⟨bootIdRead boot readable, outcome⟩ w
    have hflag' : (pendingStep boot w
      (.persist readable outcome)).state.mitigationLedgerUnavailable = _ := hflag
    unfold Retained
    rw [hflag']
    rcases hheld with howed | hun
    · exact ⟨recorded_persist hkeyed readable outcome hrec howed, Or.inl (owes_step howed rfl hkeep)⟩
    · rcases hdisk with hdisk | ⟨havail, -⟩
      · have hdisk' : (pendingStep boot w (.persist readable outcome)).disk = w.disk := hdisk
        exact ⟨by unfold Recorded; rwa [hdisk'], Or.inr hun⟩
      · rw [hun] at havail
        cases havail
  | restart bootReadable ledgerReadable readable =>
    refine ⟨hrec, ?_⟩
    cases hsees : bootReadable && ledgerReadable with
    | false => exact Or.inr (blind_restart hrec hsees readable)
    | true =>
      obtain ⟨rfl, rfl⟩ := Bool.and_eq_true_iff.1 hsees
      have hlive : ¬ (processIdentityStatus w.table (readable key.1) key.1 d.identity).dead = true :=
        fun hdead => (hkeep.resolve_right id) ⟨rfl, rfl, hdead⟩
      exact Or.inl ((owes_restart hrec readable).trans (if_neg hlive))

/-- A recorded debt in memory stays there unless a restart cannot read the ledger. -/
theorem owes_step_recorded (hrec : Recorded boot w key d) (h : w.owes key = some d)
    {i : PendingInput} (hi : i.isBlind = false)
    (hkeep : Kept key d w i) :
    (pendingStep boot w i).owes key = some d := by
  cases hrestart : i.isRestart with
  | false => exact owes_step h hrestart hkeep
  | true =>
    cases i with
    | outside t => cases hrestart
    | pass env exempt => cases hrestart
    | persist readable outcome => cases hrestart
    | restart bootReadable ledgerReadable readable =>
      obtain ⟨rfl, rfl⟩ : bootReadable = true ∧ ledgerReadable = true := by
        simpa [PendingInput.isBlind] using hi
      have hlive : ¬ (processIdentityStatus w.table (readable key.1) key.1 d.identity).dead = true :=
        fun hdead => (hkeep.resolve_right id) ⟨rfl, rfl, hdead⟩
      exact (owes_restart hrec readable).trans (if_neg hlive)

theorem owes_exec (h : w.owes key = some d) {is : List PendingInput}
    (hrun : Runs.Along (pendingStep boot) (Kept key d) w is)
    (his : ∀ i ∈ is, i.isRestart = false) :
    (Runs.exec (pendingStep boot) w is).owes key = some d := by
  induction is generalizing w with
  | nil => exact h
  | cons i is ih =>
    exact ih (owes_step h (his i List.mem_cons_self) hrun.1) hrun.2
      fun j hj => his j (List.mem_cons_of_mem i hj)

theorem Retained.exec (hkeyed : PendingKeyed w.state.oom) (h : Retained boot w key d)
    {is : List PendingInput} (hrun : Runs.Along (pendingStep boot) (Kept key d) w is) :
    Retained boot (Runs.exec (pendingStep boot) w is) key d :=
  (Runs.Along.exec_inv (P := fun w => PendingKeyed w.state.oom ∧ Retained boot w key d)
    (fun _ i hw hkeep => ⟨pendingStep_keyed hw.1 i, hw.2.step hw.1 hkeep⟩) is ⟨hkeyed, h⟩ hrun).2

theorem owes_exec_recorded (hkeyed : PendingKeyed w.state.oom) (hrec : Recorded boot w key d)
    (h : w.owes key = some d) {is : List PendingInput}
    (hrun : Runs.Along (pendingStep boot) (Kept key d) w is)
    (his : ∀ i ∈ is, i.isBlind = false) :
    (Runs.exec (pendingStep boot) w is).owes key = some d := by
  induction is generalizing w with
  | nil => exact h
  | cons i is ih =>
    have hstep := Retained.step hkeyed ⟨hrec, Or.inl h⟩ hrun.1
    exact ih (pendingStep_keyed hkeyed i) hstep.1
      (owes_step_recorded hrec h (his i List.mem_cons_self) hrun.1) hrun.2
      fun j hj => his j (List.mem_cons_of_mem i hj)

end Law

/-- **Pending debts are never lost.** From any reachable state, along any run of passes, persists
and restarts at none of whose steps the debt is discharged, or whose passes have something to
withhold it on:

* restarts apart, the debt is in memory;
* once this boot's ledger lists it, it stays listed, and is in memory or the ledger is left alone;
  in memory it is after every run whose restarts could read the ledger, and after the next restart
  that can. -/
theorem pending_debts_never_lost (t : ProcTable) (henv : HydrateEnv) (read : LedgerRead)
    (disk : LedgerDisk) (before : List OomInput) (boot : String) (key : Incarnation)
    (d : PendingDebt) (is : List PendingInput)
    (hrun : Runs.Along (pendingStep boot) (Kept key d)
      (Runs.exec oomStep (daemonStart t henv read disk) before) is) :
    let w := Runs.exec oomStep (daemonStart t henv read disk) before
    let w' := Runs.exec (pendingStep boot) w is
    (w.owes key = some d → (∀ i ∈ is, i.isRestart = false) → w'.owes key = some d) ∧
      (Retained boot w key d → Retained boot w' key d ∧
        (w.owes key = some d → (∀ i ∈ is, i.isBlind = false) → w'.owes key = some d) ∧
        ∀ readable : Pid → Bool,
          (processIdentityStatus w'.table (readable key.1) key.1 d.identity).dead = false →
            (pendingStep boot w' (.restart true true readable)).owes key = some d) := by
  have hkeyed := reachable_keyed t henv read disk before
  refine ⟨fun h his => owes_exec h hrun his, fun h => ?_⟩
  have hafter := h.exec hkeyed hrun
  refine ⟨hafter, fun howed his => owes_exec_recorded hkeyed h.1 howed hrun his, ?_⟩
  intro readable hlive
  rw [owes_restart hafter.1, hlive]
  rfl

/-! ## A debt no persist has reached -/

private def childSample : ProcSample :=
  { pid := 8, ppid := 7, cpuPercent := 0, rssMb := 100, swapMb := some 0, nice := 0
    command := "renderer", starttime := 101 }

private def childSweep (outcome : PersistOutcome) : SweepEnv :=
  { intent := ledgerWrite outcome, settled := ledgerWrite outcome
    pending := { readable := fun _ => false } }

/-- The browser is biased, a child inherits the value, and a sweep enlists it. -/
private def enlistChild (outcome : PersistOutcome) : List OomInput :=
  [biasBrowser,
    .spawn 8 { ppid := 7, comm := "renderer", starttime := 101, oomScoreAdj := 250 },
    .sweep (childSweep outcome) [] [browserSample, childSample]]

private def childDebt : PendingDebt := ⟨7, 0, ⟨"renderer", 101⟩⟩

private def childDaemon (outcome : PersistOutcome) : OomWorld :=
  Runs.exec oomStep (daemonStart browserTable ⟨some "boot", fun _ => true, true⟩ .notFound
    ⟨none, []⟩) (enlistChild outcome)

/-- The write of the ledger failed, and the next daemon knows nothing of the child. -/
theorem unrecorded_debt_forgotten :
    ¬ ∀ (t : ProcTable) (henv : HydrateEnv) (read : LedgerRead) (disk : LedgerDisk)
        (before : List OomInput) (boot : String) (key : Incarnation) (d : PendingDebt)
        (is : List PendingInput),
      let w := Runs.exec oomStep (daemonStart t henv read disk) before
      Runs.Along (pendingStep boot) (fun w i => ¬ Discharged w i key d) w is →
      w.owes key = some d → (∀ i ∈ is, i.isBlind = false) →
      (Runs.exec (pendingStep boot) w is).owes key = some d := by
  intro h
  have hrestart := h browserTable ⟨some "boot", fun _ => true, true⟩ .notFound ⟨none, []⟩
    (enlistChild .failedBeforeRename) "boot" (8, 101) childDebt
    [.restart true true fun _ => true]
    ⟨(fun hdis => nomatch hdis.2.2), trivial⟩ rfl (by simp [PendingInput.isBlind])
  cases hrestart

/-- Written, it comes back. -/
theorem recorded_child_debt :
    (Runs.exec (pendingStep "boot") (childDaemon .written) [.restart true true fun _ => true]).owes
      (8, 101) = some childDebt :=
  ((pending_debts_never_lost browserTable ⟨some "boot", fun _ => true, true⟩ .notFound
    ⟨none, []⟩ (enlistChild .written) "boot" (8, 101) childDebt
    [.restart true true fun _ => true] ⟨Or.inl (fun hdis => nomatch hdis.2.2), trivial⟩).2
    ⟨⟨_, rfl, le_rfl, rfl, rfl⟩, Or.inl rfl⟩).2.1 rfl (by simp [PendingInput.isBlind])

end DraconGuard
