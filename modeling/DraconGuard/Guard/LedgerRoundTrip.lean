import DraconGuard.Guard.OomDescendants

/-!
# The ledger round trip

What `persist_mitigations_to` writes and `hydrate_mitigations_from` reads back on the same
boot, for a state the daemon can reach. Bias records, pending and known descendants and caps
come back as they were, and so does every entry of `memory_reniced_pids`. The entries of
`reniced_pids` are not written at all: such a restoration survives a restart only where
`memory_reniced_pids` owes the same one.
-/

namespace DraconGuard

/-- Some limiter owes this process this nice value. -/
def NiceDebt (s : GuardRuntimeState) (pid : Pid) (id : ProcessIdentity) (original : Int) : Prop :=
  ∃ k e, s.nice.entry k pid = some e ∧ e.identity = id ∧ e.originalNice = original

/-- The same outstanding restorations. -/
structure SameObligations (s s' : GuardRuntimeState) : Prop where
  nice : ∀ pid id original, NiceDebt s' pid id original ↔ NiceDebt s pid id original
  biased : ∀ pid, s'.oom.oomBiasedPids.lookup pid = s.oom.oomBiasedPids.lookup pid
  pending : ∀ key, s'.oom.oomPendingDescendants.lookup key = s.oom.oomPendingDescendants.lookup key
  known : ∀ pid, s'.oom.oomKnownDescendants.lookup pid = s.oom.oomKnownDescendants.lookup pid
  capped : ∀ pid, s'.caps.cappedPids.lookup pid = s.caps.cappedPids.lookup pid

/-- Every tracked incarnation reads as a match. -/
structure StillMatches (t : ProcTable) (readable : Pid → Bool) (s : GuardRuntimeState) : Prop where
  nice : ∀ k pid e, s.nice.entry k pid = some e →
    processIdentityStatus t (readable pid) pid e.identity = .matching
  biased : ∀ pid b, s.oom.oomBiasedPids.lookup pid = some b →
    processIdentityStatus t (readable pid) pid b.2 = .matching
  pending : ∀ key pd, s.oom.oomPendingDescendants.lookup key = some pd →
    processIdentityStatus t (readable key.1) key.1 pd.identity = .matching
  capped : ∀ pid c, s.caps.cappedPids.lookup pid = some c →
    processIdentityStatus t (readable pid) pid c.identity = .matching

/-- Every restoration of the heavy-process limiter is owed by the memory limiter too. -/
def LegacyCovered (s : GuardRuntimeState) : Prop :=
  ∀ pid e, s.nice.legacy.renicedPids.lookup pid = some e →
    ∃ m, s.nice.memory.renicedPids.lookup pid = some m ∧ m.identity = e.identity ∧
      m.originalNice = e.originalNice

/-- The file holds the ledger last counted as written. -/
def FileInSync (s : GuardRuntimeState) (d : LedgerDisk) : Prop :=
  ∀ l, s.lastPersistedMitigations = some l → d.visible = some (.json l)

/-- `fs::read_to_string` on the ledger file. -/
def LedgerDisk.read (d : LedgerDisk) : LedgerRead :=
  match d.visible with
  | none => .notFound
  | some t => .text t

/-! ## What hydration sets -/

section Hydrate

variable {t : ProcTable} {env : HydrateEnv}

theorem hydratePending_lookup (key : Incarnation) (s : GuardRuntimeState)
    (p : Pid × OomPendingDescendant) :
    (hydratePending t env s p).oom.oomPendingDescendants.lookup key =
      (if (processIdentityStatus t (env.readable p.1) p.1 p.2.identity).dead = false ∧
          key = (p.1, p.2.identity.starttime) then some p.2 else none).or
        (s.oom.oomPendingDescendants.lookup key) := by
  unfold hydratePending
  cases hd : (processIdentityStatus t (env.readable p.1) p.1 p.2.identity).dead with
  | true => simp
  | false =>
    simp only [Bool.false_eq_true, if_false, true_and, FinMap.lookup_insert_eq]
    split <;> simp

theorem hydrateKnown_lookup (pid : Pid) (s : GuardRuntimeState) (k : Pid × Finset Incarnation) :
    (hydrateKnown s k).oom.oomKnownDescendants.lookup pid =
      (if pid = k.1 then some k.2 else none).or (s.oom.oomKnownDescendants.lookup pid) := by
  simp only [hydrateKnown, FinMap.lookup_insert_eq]
  split <;> simp

/-- The record names this pid and a process that is not provably dead. -/
def adopted (t : ProcTable) (env : HydrateEnv) (pid : Pid) (r : MitigationRecord) : Bool :=
  pid == r.pid && !(processIdentityStatus t (env.readable r.pid) r.pid r.identity).dead

theorem hydrateRecord_memory (pid : Pid) (s : GuardRuntimeState) (r : MitigationRecord) :
    (hydrateRecord t env s r).nice.entry .memory pid =
      (if adopted t env pid r then
        r.originalNice.map fun o => (⟨o, o + 5, r.identity⟩ : ReniceState) else none).or
        (s.nice.entry .memory pid) := by
  unfold hydrateRecord adopted
  by_cases hd : (processIdentityStatus t (env.readable r.pid) r.pid r.identity).dead = true
  · simp [hd]
  · rw [if_neg hd, Bool.eq_false_iff.2 hd]
    cases hn : r.originalNice with
    | none => simp
    | some o =>
      simp only [NiceState.entry_insertEntry, true_and, Bool.not_false, Bool.and_true, beq_iff_eq]
      split <;> simp

theorem hydrateRecord_legacy (s : GuardRuntimeState) (r : MitigationRecord) :
    (hydrateRecord t env s r).nice.legacy = s.nice.legacy := by
  unfold hydrateRecord
  split
  · rfl
  · cases r.originalNice <;> rfl

theorem hydrateRecord_biased (pid : Pid) (s : GuardRuntimeState) (r : MitigationRecord) :
    (hydrateRecord t env s r).oom.oomBiasedPids.lookup pid =
      (if adopted t env pid r then r.originalOomAdj.map fun o => (o, r.identity) else none).or
        (s.oom.oomBiasedPids.lookup pid) := by
  unfold hydrateRecord adopted
  by_cases hd : (processIdentityStatus t (env.readable r.pid) r.pid r.identity).dead = true
  · simp [hd]
  · rw [if_neg hd, Bool.eq_false_iff.2 hd]
    cases hn : r.originalOomAdj with
    | none => simp
    | some o =>
      simp only [FinMap.lookup_insert_eq, Bool.not_false, Bool.and_true, beq_iff_eq]
      split <;> simp

theorem hydrateRecord_capped (pid : Pid) (s : GuardRuntimeState) (r : MitigationRecord) :
    (hydrateRecord t env s r).caps.cappedPids.lookup pid =
      (if adopted t env pid r then
        r.capScope.map fun scope => (⟨scope, r.capOrigCgroup.getD "", r.identity⟩ : CapEntry)
        else none).or (s.caps.cappedPids.lookup pid) := by
  unfold hydrateRecord adopted
  by_cases hd : (processIdentityStatus t (env.readable r.pid) r.pid r.identity).dead = true
  · simp [hd]
  · rw [if_neg hd, Bool.eq_false_iff.2 hd]
    cases hn : r.capScope with
    | none => simp
    | some o =>
      simp only [FinMap.lookup_insert_eq, Bool.not_false, Bool.and_true, beq_iff_eq]
      split <;> simp

end Hydrate

/-! ## The whole ledger -/

section RoundTrip

variable {t : ProcTable} {env : HydrateEnv} {s : GuardRuntimeState} {b : String}

theorem dead_of_matching {pid : Pid} {r : Bool} {id : ProcessIdentity}
    (h : processIdentityStatus t r pid id = .matching) :
    (processIdentityStatus t r pid id).dead = false := by rw [h]; rfl

/-- The state before the records are read: fresh but for the descendant maps. -/
def hydratedDescendants (t : ProcTable) (env : HydrateEnv) (u : Bool) (l : MitigationLedger) :
    GuardRuntimeState :=
  l.oomKnown.foldl hydrateKnown
    (l.oomPending.foldl (hydratePending t env) { mitigationLedgerUnavailable := u })

/-- Reading descendants sets none of the maps that records set. -/
theorem hydratedDescendants_fresh {β : Type} (look : GuardRuntimeState → Option β) (u : Bool)
    (l : MitigationLedger)
    (hp : ∀ s o, look { s with oom := { s.oom with oomPendingDescendants := o } } = look s)
    (hk : ∀ s o, look { s with oom := { s.oom with oomKnownDescendants := o } } = look s)
    (hfresh : look { mitigationLedgerUnavailable := u } = none) :
    look (hydratedDescendants t env u l) = none := by
  have hpend : ∀ s p, look (hydratePending t env s p) = look s := by
    intro s p
    unfold hydratePending
    split
    · rfl
    · exact hp s _
  have hknow : ∀ s k, look (hydrateKnown s k) = look s := fun s k => hk s _
  unfold hydratedDescendants
  rw [Runs.foldl_unwritten look hknow, Runs.foldl_unwritten look hpend, hfresh]

theorem hydrateLedger_eq (u : Bool) (l : MitigationLedger) :
    hydrateLedger t env { mitigationLedgerUnavailable := u } l =
      l.records.foldl (hydrateRecord t env) (hydratedDescendants t env u l) := rfl

theorem hydrateLedger_memory (h : StillMatches t env.readable s) (u : Bool) (pid : Pid) :
    (hydrateLedger t env { mitigationLedgerUnavailable := u } (mitigationLedger b s)).nice.entry
        .memory pid =
      (s.nice.entry .memory pid).map fun e => ⟨e.originalNice, e.originalNice + 5, e.identity⟩ := by
  rw [hydrateLedger_eq]
  refine Runs.foldl_register_eq (fun s : GuardRuntimeState => s.nice.entry .memory pid)
    (hydrateRecord_memory pid)
    (hydratedDescendants_fresh (fun s => s.nice.entry .memory pid) u _ (fun _ _ => rfl)
      (fun _ _ => rfl) rfl) ?_ ?_
  · intro r hr e he
    rcases mem_mitigationLedger_records.1 hr with
      ⟨pid', m, hm, rfl⟩ | ⟨pid', m, -, rfl⟩ | ⟨pid', m, -, rfl⟩
    · have hst := dead_of_matching (h.nice .memory pid' m hm)
      by_cases hp : pid = pid'
      · subst hp
        have hm' : s.nice.entry .memory pid = some m := hm
        simp only [memoryReniceRecord, adopted, hst, beq_self_eq_true, Bool.not_false,
          Bool.and_self, if_true, Option.map_some] at he
        rw [hm', Option.map_some]
        exact he
      · simp [adopted, memoryReniceRecord, hp] at he
    · cases (ite_self _).symm.trans he
    · cases (ite_self _).symm.trans he
  · intro e he
    obtain ⟨m, hm, rfl⟩ := Option.map_eq_some_iff.1 he
    refine ⟨memoryReniceRecord ⟨pid, m⟩,
      mem_mitigationLedger_records.2 (Or.inl ⟨pid, m, hm, rfl⟩), ?_⟩
    simp [adopted, memoryReniceRecord, dead_of_matching (h.nice .memory pid m hm)]

theorem hydrateLedger_legacy (u : Bool) (pid : Pid) (l : MitigationLedger) :
    (hydrateLedger t env { mitigationLedgerUnavailable := u } l).nice.entry .legacy pid = none := by
  rw [hydrateLedger_eq]
  have hstep : ∀ (s : GuardRuntimeState) (r : MitigationRecord),
      (hydrateRecord t env s r).nice.entry .legacy pid = s.nice.entry .legacy pid := fun s r =>
    congrArg (fun l : NiceLimiter => l.renicedPids.lookup pid) (hydrateRecord_legacy s r)
  rw [Runs.foldl_unwritten (fun s : GuardRuntimeState => s.nice.entry .legacy pid) hstep]
  exact hydratedDescendants_fresh (fun s => s.nice.entry .legacy pid) u l (fun _ _ => rfl)
    (fun _ _ => rfl) rfl

theorem hydrateLedger_biased (h : StillMatches t env.readable s) (u : Bool) (pid : Pid) :
    (hydrateLedger t env { mitigationLedgerUnavailable := u }
      (mitigationLedger b s)).oom.oomBiasedPids.lookup pid = s.oom.oomBiasedPids.lookup pid := by
  rw [hydrateLedger_eq]
  refine Runs.foldl_register_eq (fun s : GuardRuntimeState => s.oom.oomBiasedPids.lookup pid)
    (hydrateRecord_biased pid)
    (hydratedDescendants_fresh (fun s => s.oom.oomBiasedPids.lookup pid) u _ (fun _ _ => rfl)
      (fun _ _ => rfl) rfl) ?_ ?_
  · intro r hr e he
    rcases mem_mitigationLedger_records.1 hr with
      ⟨pid', m, -, rfl⟩ | ⟨pid', m, hm, rfl⟩ | ⟨pid', m, -, rfl⟩
    · cases (ite_self _).symm.trans he
    · by_cases hp : pid = pid'
      · subst hp
        simp [oomBiasRecord, adopted, dead_of_matching (h.biased pid m hm)] at he
        rw [hm, ← he]
      · simp [adopted, oomBiasRecord, hp] at he
    · cases (ite_self _).symm.trans he
  · intro e he
    refine ⟨oomBiasRecord ⟨pid, e⟩,
      mem_mitigationLedger_records.2 (Or.inr (Or.inl ⟨pid, e, he, rfl⟩)), ?_⟩
    simp [adopted, oomBiasRecord, dead_of_matching (h.biased pid e he)]

theorem hydrateLedger_capped (h : StillMatches t env.readable s) (u : Bool) (pid : Pid) :
    (hydrateLedger t env { mitigationLedgerUnavailable := u }
      (mitigationLedger b s)).caps.cappedPids.lookup pid = s.caps.cappedPids.lookup pid := by
  rw [hydrateLedger_eq]
  refine Runs.foldl_register_eq (fun s : GuardRuntimeState => s.caps.cappedPids.lookup pid)
    (hydrateRecord_capped pid)
    (hydratedDescendants_fresh (fun s => s.caps.cappedPids.lookup pid) u _ (fun _ _ => rfl)
      (fun _ _ => rfl) rfl) ?_ ?_
  · intro r hr e he
    rcases mem_mitigationLedger_records.1 hr with
      ⟨pid', m, -, rfl⟩ | ⟨pid', m, -, rfl⟩ | ⟨pid', m, hm, rfl⟩
    · cases (ite_self _).symm.trans he
    · cases (ite_self _).symm.trans he
    · by_cases hp : pid = pid'
      · subst hp
        simp [cpuCapRecord, adopted, dead_of_matching (h.capped pid m hm)] at he
        rw [hm, ← he]
      · simp [adopted, cpuCapRecord, hp] at he
  · intro e he
    refine ⟨cpuCapRecord ⟨pid, e⟩,
      mem_mitigationLedger_records.2 (Or.inr (Or.inr ⟨pid, e, he, rfl⟩)), ?_⟩
    simp [adopted, cpuCapRecord, dead_of_matching (h.capped pid e he)]

/-- Records do not touch the descendant maps. -/
theorem hydrateRecord_descendants {β : Type} (look : OomState → Option β)
    (hb : ∀ o m, look { o with oomBiasedPids := m } = look o) (s : GuardRuntimeState)
    (r : MitigationRecord) : look (hydrateRecord t env s r).oom = look s.oom := by
  unfold hydrateRecord
  split
  · rfl
  · exact hb _ _

theorem hydrateLedger_pending (h : StillMatches t env.readable s) (hkey : PendingKeyed s.oom)
    (u : Bool) (key : Incarnation) :
    (hydrateLedger t env { mitigationLedgerUnavailable := u }
      (mitigationLedger b s)).oom.oomPendingDescendants.lookup key =
        s.oom.oomPendingDescendants.lookup key := by
  have hmem : ∀ p : Pid × OomPendingDescendant, p ∈ (mitigationLedger b s).oomPending ↔
      ∃ st, s.oom.oomPendingDescendants.lookup (p.1, st) = some p.2 := by
    rintro ⟨pid, pd⟩
    simp only [mitigationLedger, List.mem_insertionSort, List.mem_map]
    constructor
    · rintro ⟨⟨k, pd'⟩, hk, heq⟩
      cases heq
      exact ⟨k.2, FinMap.mem_entries_iff.1 hk⟩
    · rintro ⟨st, hst⟩
      exact ⟨⟨(pid, st), pd⟩, FinMap.mem_entries_iff.2 hst, rfl⟩
  rw [hydrateLedger_eq, Runs.foldl_unwritten
    (fun s : GuardRuntimeState => s.oom.oomPendingDescendants.lookup key)
    (hydrateRecord_descendants (fun o => o.oomPendingDescendants.lookup key) fun _ _ => rfl)]
  unfold hydratedDescendants
  have hknow : ∀ (s : GuardRuntimeState) (k : Pid × Finset Incarnation),
      (hydrateKnown s k).oom.oomPendingDescendants.lookup key =
        s.oom.oomPendingDescendants.lookup key := fun _ _ => rfl
  rw [Runs.foldl_unwritten
    (fun s : GuardRuntimeState => s.oom.oomPendingDescendants.lookup key) hknow]
  refine Runs.foldl_register_eq (fun s : GuardRuntimeState => s.oom.oomPendingDescendants.lookup key)
    (hydratePending_lookup key) rfl ?_ ?_
  · rintro p hp pd hpd
    obtain ⟨st, hst⟩ := (hmem p).1 hp
    split at hpd
    · rename_i hc
      cases hpd
      have hk : p.2.identity.starttime = st := hkey _ _ hst
      rw [hc.2, hk]
      exact hst
    · cases hpd
  · intro pd hpd
    have hk : pd.identity.starttime = key.2 := hkey key pd hpd
    refine ⟨(key.1, pd), (hmem _).2 ⟨key.2, hpd⟩, if_pos ⟨?_, ?_⟩⟩
    · exact dead_of_matching (h.pending key pd hpd)
    · rw [hk]

theorem hydrateLedger_known (u : Bool) (pid : Pid) :
    (hydrateLedger t env { mitigationLedgerUnavailable := u }
      (mitigationLedger b s)).oom.oomKnownDescendants.lookup pid =
        s.oom.oomKnownDescendants.lookup pid := by
  have hmem : ∀ k : Pid × Finset Incarnation, k ∈ (mitigationLedger b s).oomKnown ↔
      s.oom.oomKnownDescendants.lookup k.1 = some k.2 := by
    rintro ⟨pid, known⟩
    simp only [mitigationLedger, List.mem_insertionSort, List.mem_map]
    constructor
    · rintro ⟨⟨pid', known'⟩, hk, heq⟩
      cases heq
      exact FinMap.mem_entries_iff.1 hk
    · intro hk
      exact ⟨⟨pid, known⟩, FinMap.mem_entries_iff.2 hk, rfl⟩
  rw [hydrateLedger_eq, Runs.foldl_unwritten
    (fun s : GuardRuntimeState => s.oom.oomKnownDescendants.lookup pid)
    (hydrateRecord_descendants (fun o => o.oomKnownDescendants.lookup pid) fun _ _ => rfl)]
  have hfresh : (List.foldl (hydratePending t env) { mitigationLedgerUnavailable := u }
      (mitigationLedger b s).oomPending).oom.oomKnownDescendants.lookup pid = none := by
    refine (Runs.foldl_unwritten
      (fun s : GuardRuntimeState => s.oom.oomKnownDescendants.lookup pid) (fun s p => ?_) _ _).trans rfl
    unfold hydratePending
    split <;> rfl
  refine Runs.foldl_register_eq (fun s : GuardRuntimeState => s.oom.oomKnownDescendants.lookup pid)
    (hydrateKnown_lookup pid) hfresh ?_ ?_
  · intro k hk known hknown
    split at hknown
    · rename_i hp
      cases hknown
      rw [hp]
      exact (hmem k).1 hk
    · cases hknown
  · intro known hknown
    exact ⟨(pid, known), (hmem _).2 hknown, if_pos rfl⟩

end RoundTrip

/-! ## The claim of a restart -/

/-- After a persist that succeeded the file holds the state's own ledger. -/
theorem persisted_visible {env : PersistEnv} {s : GuardRuntimeState} {d : LedgerDisk}
    (hsync : FileInSync s d) (hok : (persistMitigationsTo env s d).2.2 = true) :
    ∃ b, env.bootId = some b ∧
      (persistMitigationsTo env s d).2.1.visible = some (.json (mitigationLedger b s)) := by
  unfold persistMitigationsTo at hok ⊢
  split at hok
  · cases hok
  · rename_i hun
    rw [if_neg hun]
    split at hok
    · cases hok
    · rename_i b hb
      refine ⟨b, hb, ?_⟩
      simp only at hok ⊢
      split at hok
      · rename_i hlast; rw [if_pos hlast]; exact hsync _ hlast
      · rename_i hlast
        rw [if_neg hlast]
        split at hok
        · cases hok
        · cases hok
        · rename_i ho; simp

/-- On the boot that wrote it, a ledger is adopted whole. -/
theorem hydrate_own (t : ProcTable) (env : HydrateEnv) (b : String) (s : GuardRuntimeState)
    (hboot : env.bootId = some b) :
    hydrateMitigationsFrom t env {} (.text (.json (mitigationLedger b s))) =
      hydrateLedger t env { mitigationLedgerUnavailable := false } (mitigationLedger b s) := by
  simp [hydrateMitigationsFrom, hboot, mitigationLedger]

/-- A state and what hydrating its own ledger gives. -/
theorem sameObligations_iff {t : ProcTable} {env : HydrateEnv} {s : GuardRuntimeState} (b : String)
    (h : StillMatches t env.readable s) (hkey : PendingKeyed s.oom) (u : Bool) :
    SameObligations s (hydrateLedger t env { mitigationLedgerUnavailable := u }
      (mitigationLedger b s)) ↔ LegacyCovered s := by
  set s' := hydrateLedger t env { mitigationLedgerUnavailable := u } (mitigationLedger b s)
  have hmem : ∀ pid, s'.nice.entry .memory pid = _ := hydrateLedger_memory h u
  have hleg : ∀ pid, s'.nice.entry .legacy pid = none := fun pid => hydrateLedger_legacy u pid _
  have hdebt : ∀ pid id o, NiceDebt s' pid id o ↔
      ∃ e, s.nice.entry .memory pid = some e ∧ e.identity = id ∧ e.originalNice = o := by
    intro pid id o
    constructor
    · rintro ⟨k, e, he, hid, ho⟩
      cases k with
      | legacy => rw [hleg] at he; cases he
      | memory =>
        rw [hmem] at he
        obtain ⟨m, hm, rfl⟩ := Option.map_eq_some_iff.1 he
        exact ⟨m, hm, hid, ho⟩
    · rintro ⟨e, he, hid, ho⟩
      exact ⟨.memory, ⟨e.originalNice, e.originalNice + 5, e.identity⟩, by rw [hmem, he]; rfl,
        hid, ho⟩
  constructor
  · intro hsame pid e he
    obtain ⟨m, hm, hid, ho⟩ := (hdebt pid e.identity e.originalNice).1
      ((hsame.nice pid e.identity e.originalNice).2 ⟨.legacy, e, he, rfl, rfl⟩)
    exact ⟨m, hm, hid, ho⟩
  · intro hcov
    refine ⟨fun pid id o => (hdebt pid id o).trans ⟨?_, ?_⟩, hydrateLedger_biased h u,
      hydrateLedger_pending h hkey u, hydrateLedger_known u, hydrateLedger_capped h u⟩
    · rintro ⟨e, he, hid, ho⟩
      exact ⟨.memory, e, he, hid, ho⟩
    · rintro ⟨k, e, he, hid, ho⟩
      cases k with
      | memory => exact ⟨e, he, hid, ho⟩
      | legacy =>
        obtain ⟨m, hm, hmid, hmo⟩ := hcov pid e he
        exact ⟨m, hm, hmid.trans hid, hmo.trans ho⟩

/-- The daemon of `rendererTable` after the given inputs. -/
def rendererDaemon (is : List OomInput) : OomWorld :=
  Runs.exec oomStep (daemonStart rendererTable ⟨some "boot", fun _ => true, true⟩ .notFound
    ⟨none, []⟩) is

/-- The heavy-process limiter holds the browser at nice 10, originally 0. -/
def heavyEntries : FinMap Pid ReniceState :=
  (∅ : FinMap Pid ReniceState).insert 7 ⟨0, 10, ⟨"chrome", 100⟩⟩

def heldByHeavyLimiter : OomInput := .others { legacy := { renicedPids := heavyEntries } } {}

end DraconGuard
