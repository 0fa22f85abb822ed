import DraconGuard.Guard.State

/-!
# The mitigation ledger

`persist_mitigations_to` (main.rs:7216) and `hydrate_mitigations_from` (main.rs:7334). A file
holds bytes that are blank, that `serde_json` rejects, or that parse as a ledger; writing a
ledger and parsing it gives that ledger back.

`LedgerDisk.images` are the contents a crash can leave behind. A rename whose directory is
not yet synced may or may not survive: the new content joins the old ones. The head is what
the running system sees.
-/

namespace DraconGuard

inductive LedgerText where
  /-- Empty or only white space. -/
  | blank
  /-- Not a ledger. -/
  | garbled
  | json (l : MitigationLedger)
deriving DecidableEq

structure LedgerDisk where
  /-- `none` is a missing file. -/
  visible : Option LedgerText
  /-- What else a crash may bring back. -/
  older : List (Option LedgerText) := []

def LedgerDisk.images (d : LedgerDisk) : List (Option LedgerText) := d.visible :: d.older

/-- How the write of a changed ledger ends. -/
inductive PersistOutcome where
  | written
  /-- No directory, no temporary file, a failed write, sync or rename: nothing replaced. -/
  | failedBeforeRename
  /-- The rename went through, then opening or syncing the directory failed. -/
  | failedDirSync
deriving DecidableEq, Repr

/-- What the outside answers during one `persist_mitigations`. `bootId = none` stands for an
unreadable or blank boot id. -/
structure PersistEnv where
  bootId : Option String
  outcome : PersistOutcome

def memoryReniceRecord (e : Sigma fun _ : Pid => ReniceState) : MitigationRecord :=
  { pid := e.1, originalNice := some e.2.originalNice, identity := e.2.identity }

def oomBiasRecord (e : Sigma fun _ : Pid => Int × ProcessIdentity) : MitigationRecord :=
  { pid := e.1, originalOomAdj := some e.2.1, identity := e.2.2 }

def cpuCapRecord (e : Sigma fun _ : Pid => CapEntry) : MitigationRecord :=
  { pid := e.1, capScope := some e.2.scope, capOrigCgroup := some e.2.origCgroup
    identity := e.2.identity }

/-- The records in push order, before the stable sort by pid. -/
def mitigationRecords (s : GuardRuntimeState) : List MitigationRecord :=
  s.nice.memory.renicedPids.entries.map memoryReniceRecord ++
    s.oom.oomBiasedPids.entries.map oomBiasRecord ++
    s.caps.cappedPids.entries.map cpuCapRecord

/-- The sort key of `oom_pending`: pid, then the starttime of the identity. -/
def pendingBefore (a b : Pid × OomPendingDescendant) : Bool :=
  a.1 < b.1 || (a.1 == b.1 && a.2.identity.starttime ≤ b.2.identity.starttime)

/-- The ledger `persist_mitigations_to` encodes (main.rs:7220-7276). -/
def mitigationLedger (bootId : String) (s : GuardRuntimeState) : MitigationLedger where
  version := 1
  bootId := some bootId
  records := List.insertionSort (fun a b => a.pid ≤ b.pid) (mitigationRecords s)
  oomPending := List.insertionSort (fun a b => pendingBefore a b = true)
    (s.oom.oomPendingDescendants.entries.map fun e => (e.1.1, e.2))
  oomKnown := List.insertionSort (fun a b => a.1 ≤ b.1)
    (s.oom.oomKnownDescendants.entries.map fun e => (e.1, e.2))

/-- `persist_mitigations_to` (main.rs:7216); the flag says whether the intent is durable. -/
def persistMitigationsTo (env : PersistEnv) (s : GuardRuntimeState) (d : LedgerDisk) :
    GuardRuntimeState × LedgerDisk × Bool :=
  if s.mitigationLedgerUnavailable then (s, d, false)
  else match env.bootId with
    | none => (s, d, false)
    | some bootId =>
      let ledger := mitigationLedger bootId s
      if s.lastPersistedMitigations = some ledger then (s, d, true)
      else match env.outcome with
        | .failedBeforeRename => (s, d, false)
        -- Write-ahead means durable before mutation, not just atomic rename.
        | .failedDirSync => (s, { visible := some (.json ledger), older := d.images }, false)
        | .written =>
          ({ s with lastPersistedMitigations := some ledger },
            { visible := some (.json ledger) }, true)

/-- `persist_mitigations` (main.rs:7207): a one-shot run keeps no ledger. -/
def persistMitigations (env : PersistEnv) (s : GuardRuntimeState) (d : LedgerDisk) :
    GuardRuntimeState × LedgerDisk × Bool :=
  if !s.persistMitigations then (s, d, true) else persistMitigationsTo env s d

@[simp] theorem persistMitigations_oom (env : PersistEnv) (s : GuardRuntimeState) (d : LedgerDisk) :
    (persistMitigations env s d).1.oom = s.oom := by
  unfold persistMitigations persistMitigationsTo
  split
  · rfl
  · split
    · rfl
    · split
      · rfl
      · simp only
        split
        · rfl
        · split <;> rfl

/-- A persist changes only what is known to be on file. -/
theorem persistMitigations_state (env : PersistEnv) (s : GuardRuntimeState) (d : LedgerDisk) :
    ∃ l, (persistMitigations env s d).1 = { s with lastPersistedMitigations := l } := by
  unfold persistMitigations persistMitigationsTo
  split
  · exact ⟨_, rfl⟩
  · split
    · exact ⟨_, rfl⟩
    · split
      · exact ⟨_, rfl⟩
      · dsimp only
        split
        · exact ⟨_, rfl⟩
        · split
          · exact ⟨_, rfl⟩
          · exact ⟨_, rfl⟩
          · exact ⟨_, rfl⟩

/-! ## Reading it back -/

/-- What the outside answers during one hydration. -/
structure HydrateEnv where
  /-- `/proc/sys/kernel/random/boot_id`; `none` when unreadable or blank. -/
  bootId : Option String
  /-- Identity reads, one per recorded incarnation. -/
  readable : Pid → Bool := fun _ => true
  /-- Whether the previous boot's ledger could be archived. -/
  archived : Bool := true

/-- What `fs::read_to_string` gives: a missing file, an error, or the text. -/
inductive LedgerRead where
  | notFound
  | unreadable
  | text (t : LedgerText)

def hydratePending (t : ProcTable) (env : HydrateEnv) (s : GuardRuntimeState)
    (p : Pid × OomPendingDescendant) : GuardRuntimeState :=
  if (processIdentityStatus t (env.readable p.1) p.1 p.2.identity).dead then s
  else
    let pending := s.oom.oomPendingDescendants.insert (p.1, p.2.identity.starttime) p.2
    { s with oom := { s.oom with oomPendingDescendants := pending } }

def hydrateKnown (s : GuardRuntimeState) (k : Pid × Finset Incarnation) : GuardRuntimeState :=
  { s with oom := { s.oom with
      oomKnownDescendants := s.oom.oomKnownDescendants.insert k.1 k.2 } }

/-- Adopt one record; which of its three parts it carries is up to the record. -/
def hydrateRecord (t : ProcTable) (env : HydrateEnv) (s : GuardRuntimeState)
    (r : MitigationRecord) : GuardRuntimeState :=
  if (processIdentityStatus t (env.readable r.pid) r.pid r.identity).dead then s
  else
    let nice := match r.originalNice with
      | some original => s.nice.insertEntry .memory r.pid ⟨original, original + 5, r.identity⟩
      | none => s.nice
    let biased := match r.originalOomAdj with
      | some original => s.oom.oomBiasedPids.insert r.pid (original, r.identity)
      | none => s.oom.oomBiasedPids
    let capped := match r.capScope with
      | some scope => s.caps.cappedPids.insert r.pid ⟨scope, r.capOrigCgroup.getD "", r.identity⟩
      | none => s.caps.cappedPids
    { s with
      nice := nice
      oom := { s.oom with oomBiasedPids := biased }
      caps := { s.caps with cappedPids := capped } }

/-- The maps a readable ledger of this boot fills (main.rs:7411-7470). -/
def hydrateLedger (t : ProcTable) (env : HydrateEnv) (s : GuardRuntimeState)
    (l : MitigationLedger) : GuardRuntimeState :=
  let s := l.oomPending.foldl (hydratePending t env) s
  let s := l.oomKnown.foldl hydrateKnown s
  l.records.foldl (hydrateRecord t env) s

/-- `hydrate_mitigations_from` (main.rs:7334). Missing state is fresh state; unreadable
state is not empty, and disables new mutations. -/
def hydrateMitigationsFrom (t : ProcTable) (env : HydrateEnv) (s : GuardRuntimeState) :
    LedgerRead → GuardRuntimeState
  | .notFound => s
  | .unreadable | .text .blank | .text .garbled => { s with mitigationLedgerUnavailable := true }
  | .text (.json l) =>
    if 1 < l.version then { s with mitigationLedgerUnavailable := true }
    else match env.bootId with
      | none => { s with mitigationLedgerUnavailable := true }
      | some currentBoot =>
        let hasObligations := l.records != [] || l.oomPending != []
        let legacyUnverified := hasObligations && l.bootId.isNone
        if l.bootId.any (· != currentBoot) then
          { s with mitigationLedgerUnavailable := !env.archived }
        else hydrateLedger t env { s with mitigationLedgerUnavailable := legacyUnverified } l

/-! ## What the ledger of a state holds -/

/-- The ledger restores this adjustment of this incarnation: a bias record or a pending
descendant carries its pid, starttime and original value. -/
def MitigationLedger.RestoresAdj (l : MitigationLedger) (pid : Pid) (starttime : Nat)
    (original : Int) : Prop :=
  (∃ r ∈ l.records, r.pid = pid ∧ r.identity.starttime = starttime ∧
    r.originalOomAdj = some original) ∨
  (∃ p ∈ l.oomPending, p.1 = pid ∧ p.2.identity.starttime = starttime ∧
    p.2.originalAdj = original)

theorem mem_mitigationLedger_records {bootId : String} {s : GuardRuntimeState}
    {r : MitigationRecord} :
    r ∈ (mitigationLedger bootId s).records ↔
      (∃ pid e, s.nice.memory.renicedPids.lookup pid = some e ∧
        r = memoryReniceRecord ⟨pid, e⟩) ∨
      (∃ pid b, s.oom.oomBiasedPids.lookup pid = some b ∧ r = oomBiasRecord ⟨pid, b⟩) ∨
      (∃ pid c, s.caps.cappedPids.lookup pid = some c ∧ r = cpuCapRecord ⟨pid, c⟩) := by
  have key : ∀ {β : Type} (m : FinMap Pid β) (f : (Sigma fun _ : Pid => β) → MitigationRecord),
      r ∈ m.entries.map f ↔ ∃ pid b, m.lookup pid = some b ∧ r = f ⟨pid, b⟩ := by
    intro β m f
    simp only [List.mem_map, ← FinMap.mem_entries_iff]
    constructor
    · rintro ⟨⟨pid, b⟩, hb, rfl⟩; exact ⟨pid, b, hb, rfl⟩
    · rintro ⟨pid, b, hb, rfl⟩; exact ⟨⟨pid, b⟩, hb, rfl⟩
  simp only [mitigationLedger, List.mem_insertionSort, mitigationRecords, List.mem_append, key,
    or_assoc]

theorem biased_restoresAdj {s : GuardRuntimeState} {pid : Pid} {original : Int}
    {id : ProcessIdentity} (h : s.oom.oomBiasedPids.lookup pid = some (original, id))
    (bootId : String) : (mitigationLedger bootId s).RestoresAdj pid id.starttime original :=
  Or.inl ⟨oomBiasRecord ⟨pid, original, id⟩,
    mem_mitigationLedger_records.2 (Or.inr (Or.inl ⟨pid, (original, id), h, rfl⟩)), rfl, rfl, rfl⟩

end DraconGuard
