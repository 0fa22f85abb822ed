import Mathlib.Data.Set.Function
import DraconGuard.Guard.CpuLease

/-!
# What the CPU lease protocol keeps

The lock beside a lease file makes one actor at a time the only writer of the file and, keys being
injective, the only one of the guard's to write the quota of its unit. The unit itself has no lock:
a quota can be changed by hand, or the unit replaced, between the reading a write rests on and the
write ("Compare-and-restore: never overwrite a later operator quota change", cpu_limit.rs:531), and
`cap_prepared` reads the invocation before it has the lock. **`leaseProtocol`**: in every run in
which neither happens, an applied quota is covered by a durable lease and was applied under a timer
seen active, and no release or recovery touches another generation or overwrites another quota.
`changed_quota_overwritten` is a run in which it does.

What each call does to the state is shown once (`leaseRules`), against what its actor knows; that
every program knows enough is a check of its text (`safe_capPrepared`, `safe_releaseWith`,
`safe_recoverWith`).
-/

namespace DraconGuard

open Function (update update_self update_of_ne)
open Interleave (Prog Machine Discipline Safe Rules Reachable)

/-! ## The claims -/

namespace LeaseWorld

/-- **Debts are covered**: a unit of the boot and invocation on record that carries a quota of the
guard's has a durable lease with the quota it replaced, and the timer of that generation had been
seen active before. -/
def Backed (w : LeaseWorld) : Prop :=
  ∀ unit debt, w.owed unit = some debt → ∃ lease scope,
    w.durable (leaseKey unit) = some lease ∧ w.scopes unit = some scope ∧ lease.unit = unit ∧
      lease.bootId = w.boot ∧ lease.invocation = scope.invocation ∧ scope.quota = debt.applied ∧
        lease.original = debt.original ∧ lease.generation = debt.generation ∧
          lease.timer = ⟨leaseKey unit, debt.generation⟩ ∧ lease.timer ∈ debt.seenBefore

/-- What a call of a release or a recovery may meet: the lease of its own generation, and the
quota that lease has applied. -/
def Respects (w : LeaseWorld) : LeaseOp → Prop
  | .setQuota unit _ (.released generation lease) =>
    w.visible (leaseKey unit) = some lease ∧ lease.generation = generation ∧
      w.quotaOf unit = lease.applied
  | .setQuota unit _ (.recovered lease) =>
    w.visible (leaseKey unit) = some lease ∧ w.quotaOf unit = lease.applied
  | .remove key (.released generation) =>
    ∃ lease, w.visible key = some lease ∧ lease.generation = generation
  | _ => True

end LeaseWorld

/-- The condition on a call. A quota is written only if nobody from outside has changed it since
the actor read it (for a cap: on the invocation of the lease), and a lease is retired as stale only
if it is not of the invocation that is there. -/
def LeaseUndisturbed (i : Nat) (w : LeaseWorld) : LeaseOp → Prop
  | .setQuota unit _ (.apply lease) =>
    w.invocationOf unit = lease.invocation → w.reading i = some unit
  | .setQuota unit _ (.recovered _) => w.reading i = some unit
  | .setQuota unit _ (.released _ _) => w.reading i = some unit
  | .remove key .stale => ∀ lease, w.visible key = some lease → lease.bootId = w.boot →
      ∀ scope, w.scopes lease.unit = some scope → scope.invocation ≠ lease.invocation
  | _ => True

/-! ## The invariant -/

/-- The lease stands behind the debt. -/
structure Lease.Covers (lease : Lease) (boot unit : String) (scope : ScopeState)
    (debt : QuotaDebt) : Prop where
  ofUnit : lease.unit = unit
  boot : lease.bootId = boot
  invocation : lease.invocation = scope.invocation
  applied : lease.applied = debt.applied
  original : lease.original = debt.original
  generation : lease.generation = debt.generation
  timer : lease.timer = ⟨leaseKey unit, debt.generation⟩
  seen : lease.timer ∈ debt.seenBefore

/-- The leases differ in how far the cap had come, if at all. -/
structure Lease.SameDebt (l l' : Lease) : Prop where
  ofUnit : l.unit = l'.unit
  boot : l.bootId = l'.bootId
  invocation : l.invocation = l'.invocation
  applied : l.applied = l'.applied
  original : l.original = l'.original
  generation : l.generation = l'.generation
  timer : l.timer = l'.timer

theorem Lease.Covers.of_same {l l' : Lease} {boot unit : String} {scope : ScopeState}
    {debt : QuotaDebt} (h : l'.Covers boot unit scope debt) (hsame : l.SameDebt l') :
    l.Covers boot unit scope debt where
  ofUnit := hsame.ofUnit.trans h.ofUnit
  boot := hsame.boot.trans h.boot
  invocation := hsame.invocation.trans h.invocation
  applied := hsame.applied.trans h.applied
  original := hsame.original.trans h.original
  generation := hsame.generation.trans h.generation
  timer := hsame.timer.trans h.timer
  seen := by
    rw [hsame.timer]
    exact h.seen

namespace LeaseWorld

/-- A file that covers what its unit is owed. -/
def FileCovers (w : LeaseWorld) (file : Option Lease) (unit : String) (scope : ScopeState)
    (debt : QuotaDebt) : Prop :=
  ∃ lease, file = some lease ∧ lease.Covers w.boot unit scope debt

structure Inv (units : Set String) (w : LeaseWorld) : Prop where
  files : ∀ key lease, w.visible key = some lease ∨ w.durable key = some lease →
    lease.unit ∈ units ∧ leaseKey lease.unit = key
  covered : ∀ unit debt, w.owed unit = some debt → ∃ scope,
    w.scopes unit = some scope ∧ scope.quota = debt.applied ∧
      w.FileCovers (w.visible (leaseKey unit)) unit scope debt ∧
        w.FileCovers (w.durable (leaseKey unit)) unit scope debt

theorem Inv.backed {units : Set String} {w : LeaseWorld} (h : w.Inv units) : w.Backed := by
  intro unit debt hdebt
  obtain ⟨scope, hscope, hquota, -, lease, hlease, hcovers⟩ := h.covered unit debt hdebt
  exact ⟨lease, scope, hlease, hscope, hcovers.ofUnit, hcovers.boot, hcovers.invocation, hquota,
    hcovers.original, hcovers.generation, hcovers.timer, hcovers.seen⟩

/-- What is owed for is on the file that reads now. -/
theorem Inv.visible_of_owed {units : Set String} {w : LeaseWorld} (h : w.Inv units)
    {unit : String} {debt : QuotaDebt} (hdebt : w.owed unit = some debt) :
    ∃ scope lease, w.scopes unit = some scope ∧ scope.quota = debt.applied ∧
      w.visible (leaseKey unit) = some lease ∧ lease.Covers w.boot unit scope debt := by
  obtain ⟨scope, hscope, hquota, ⟨lease, hlease, hcovers⟩, -⟩ := h.covered unit debt hdebt
  exact ⟨scope, lease, hscope, hquota, hlease, hcovers⟩

/-- A unit whose file covers nothing is owed nothing. -/
theorem Inv.owed_eq_none {units : Set String} {w : LeaseWorld} (h : w.Inv units) {unit : String}
    (hfile : ∀ lease scope debt, w.visible (leaseKey unit) = some lease →
      w.scopes unit = some scope → scope.quota = debt.applied →
        ¬ lease.Covers w.boot unit scope debt) : w.owed unit = none := by
  cases howed : w.owed unit with
  | none => rfl
  | some debt =>
    exfalso
    obtain ⟨scope, lease, hscope, hquota, hlease, hcovers⟩ := h.visible_of_owed howed
    exact hfile lease scope debt hlease hscope hquota hcovers

end LeaseWorld

/-! ## What an actor knows -/

/-- What an actor has found out, and nobody else can make untrue. -/
structure LeaseKnow where
  boot : String
  held : Option UInt64 := none
  /-- The lease file under the lock held. -/
  file : Option (Option Lease) := none
  /-- The file has reached the disk. -/
  synced : Prop := False
  /-- No unit is owed anything under the key held. -/
  clear : Prop := False
  /-- The quota last read; a change from outside ends it. -/
  quota : Option (String × Nat) := none
  seen : List ExpiryTimer := []

namespace LeaseKnow

structure Valid (w : LeaseWorld) (i : Nat) (k : LeaseKnow) : Prop where
  boot : k.boot = w.boot
  held : ∀ key, k.held = some key → w.locks key = some i
  file : ∀ f, k.file = some f → ∃ key, k.held = some key ∧ w.visible key = f
  synced : k.synced → ∃ key, k.held = some key ∧ w.durable key = w.visible key
  clear : k.clear → ∃ key, k.held = some key ∧ ∀ unit, leaseKey unit = key → w.owed unit = none
  quota : ∀ unit q, k.quota = some (unit, q) →
    k.held = some (leaseKey unit) ∧ (w.reading i = some unit → w.quotaOf unit = q)
  seen : ∀ timer ∈ k.seen, timer ∈ w.seenActive

section Held

variable {w : LeaseWorld} {i : Nat} {k : LeaseKnow} {key : UInt64}

theorem Valid.visible_eq {f : Option Lease} (hv : Valid w i k) (hheld : k.held = some key)
    (hfile : k.file = some f) : w.visible key = f := by
  obtain ⟨key', hheld', hvisible⟩ := hv.file f hfile
  obtain rfl : key = key' := Option.some.inj (hheld.symm.trans hheld')
  exact hvisible

theorem Valid.durable_eq (hv : Valid w i k) (hheld : k.held = some key) (hsynced : k.synced) :
    w.durable key = w.visible key := by
  obtain ⟨key', hheld', hdurable⟩ := hv.synced hsynced
  obtain rfl : key = key' := Option.some.inj (hheld.symm.trans hheld')
  exact hdurable

theorem Valid.owed_eq_none (hv : Valid w i k) (hheld : k.held = some key) (hclear : k.clear)
    {unit : String} (hunit : leaseKey unit = key) : w.owed unit = none := by
  obtain ⟨key', hheld', hfree⟩ := hv.clear hclear
  obtain rfl : key = key' := Option.some.inj (hheld.symm.trans hheld')
  exact hfree unit hunit

end Held

/-- The calls that change something, and what their actor has to know first. -/
def Allowed (units : Set String) (k : LeaseKnow) : LeaseOp → Prop
  | .setQuota unit q (.apply lease) => k.held = some (leaseKey unit) ∧ k.file = some (some lease) ∧
      k.synced ∧ lease.unit = unit ∧ lease.applied = q ∧ k.quota = some (unit, lease.original) ∧
        lease.timer = ⟨leaseKey unit, lease.generation⟩ ∧ lease.timer ∈ k.seen
  | .setQuota unit _ (.recovered lease) => k.held = some (leaseKey unit) ∧
      k.file = some (some lease) ∧ k.quota = some (unit, lease.applied)
  | .setQuota unit _ (.released generation lease) => k.held = some (leaseKey unit) ∧
      k.file = some (some lease) ∧ k.quota = some (unit, lease.applied) ∧
        lease.generation = generation
  | .persist key lease => k.held = some key ∧ lease.unit ∈ units ∧ leaseKey lease.unit = key ∧
      (k.clear ∨ ∃ old, k.file = some (some old) ∧ lease.SameDebt old)
  | .syncRoot key => k.held = some key
  | .remove key .stale => k.held = some key
  | .remove key .recovered => k.held = some key ∧ k.clear
  | .remove key (.released generation) => k.held = some key ∧ k.clear ∧
      ∃ lease, k.file = some (some lease) ∧ lease.generation = generation
  | .unlock key => k.held = some key
  | _ => True

/-- The unit whose lease is on file is found not to be as the guard has left it. -/
def Disowns (k : LeaseKnow) (unit : String) (differs : Lease → Prop) : Prop :=
  ∃ lease, k.file = some (some lease) ∧ lease.unit = unit ∧ differs lease

/-- What is known after a call. -/
def learn (k : LeaseKnow) : (o : LeaseOp) → LeaseAnswer o → LeaseKnow
  | .property unit .invocationId, .ok text =>
    { k with clear := k.clear ∨ k.Disowns unit fun lease => lease.invocation ≠ text }
  | .property unit .loadState, .ok text =>
    { k with clear := k.clear ∨ k.Disowns unit fun _ => text = "not-found" }
  | .quota unit, .ok q =>
    { k with quota := if k.held = some (leaseKey unit) then some (unit, q) else none
             clear := k.clear ∨ k.Disowns unit fun lease => lease.applied ≠ q }
  | .timerState timer, .ok text => if text = "active" then { k with seen := timer :: k.seen } else k
  | .setQuota _ _ (.apply _), _ => { k with quota := none, clear := False }
  | .setQuota unit _ _, r =>
    { k with quota := none
             clear := k.clear ∨ r = .ok () ∧ k.Disowns unit fun _ => True }
  | .tryLock key, .ok () => { boot := k.boot, held := some key, seen := k.seen }
  | .unlock _, _ => { boot := k.boot, seen := k.seen }
  | .load key, .ok found =>
    if k.held = some key then
      { k with file := some found
               clear := k.clear ∨ found = none ∨ ∃ l, found = some l ∧ l.bootId ≠ k.boot }
    else k
  | .persist _ lease, .ok () => { k with file := some (some lease), synced := False }
  | .persist _ _, .error _ => { k with file := none, synced := False }
  | .syncRoot _, .ok () => { k with synced := True }
  | .remove _ _, .ok () => { k with file := some none, synced := False }
  | .remove _ _, .error _ => { k with file := none, synced := False }
  | _, _ => k

/-- A lease that is read is the lease of a known unit, under its key. -/
def Expects (units : Set String) : (o : LeaseOp) → LeaseAnswer o → Prop
  | .load key, r => ∀ lease, r = .ok (some lease) → lease.unit ∈ units ∧ leaseKey lease.unit = key
  | _, _ => True

def discipline (units : Set String) : Discipline LeaseAnswer LeaseKnow where
  allowed := Allowed units
  expects := fun _ => Expects units
  learn := learn

end LeaseKnow

/-! ## The calls, one by one -/

section Calls

variable {units : Set String} {w w' : LeaseWorld} {i j : Nat} {k k' : LeaseKnow}

open LeaseKnow LeaseWorld

/-- A unit found not to be as the guard has left it is owed nothing, and no other is under the
same key: what is owed for is on the file. -/
theorem clear_of_disowns {unit : String} {differs : Lease → Prop} (hinv : w.Inv units)
    (hv : Valid w i k) (h : k.Disowns unit differs)
    (hdiffers : ∀ lease scope debt, w.scopes unit = some scope → scope.quota = debt.applied →
      lease.Covers w.boot unit scope debt → ¬ differs lease) :
    ∃ key, k.held = some key ∧ ∀ unit, leaseKey unit = key → w.owed unit = none := by
  obtain ⟨lease, hfile, hunit, hdiff⟩ := h
  obtain ⟨key, hheld, hvisible⟩ := hv.file _ hfile
  refine ⟨key, hheld, fun other hkey => hinv.owed_eq_none ?_⟩
  intro lease' scope debt hlease' hscope hquota hcovers
  rw [hkey, hvisible] at hlease'
  obtain rfl := Option.some.inj hlease'
  obtain rfl : other = unit := hcovers.ofUnit.symm.trans hunit
  exact hdiffers lease scope debt hscope hquota hcovers hdiff

theorem LeaseKnow.Valid.clearing {c : Prop} (hv : Valid w i k)
    (hc : c → ∃ key, k.held = some key ∧ ∀ unit, leaseKey unit = key → w.owed unit = none) :
    Valid w i { k with clear := k.clear ∨ c } :=
  { hv with clear := fun h => h.elim hv.clear hc }

/-- What is read of a property. -/
theorem own_property {unit : String} {name : UnitProperty} {r : Except String String}
    (hinv : w.Inv units) (hv : Valid w i k) (h : w.Exec i (.property unit name) r w') :
    Valid w' i (k.learn (.property unit name) r) := by
  obtain ⟨rfl, hanswers⟩ := h
  cases r with
  | error e => cases name <;> exact hv
  | ok text =>
    have hanswer := hanswers text rfl
    cases name with
    | activeState => exact hv
    | delegate => exact hv
    | invocationId =>
      refine hv.clearing fun hdisowns => clear_of_disowns hinv hv hdisowns ?_
      intro lease scope debt hscope _ hcovers hdiff
      obtain rfl : text = w'.invocationOf unit := hanswer
      rw [LeaseWorld.invocationOf, hscope] at hdiff
      exact hdiff hcovers.invocation
    | loadState =>
      refine hv.clearing fun hdisowns => clear_of_disowns hinv hv hdisowns ?_
      intro lease scope debt hscope _ _ hdiff
      exact absurd (hanswer hdiff) (by simp [hscope])

theorem own_quota {unit : String} {r : Except String Nat} (hinv : w.Inv units) (hv : Valid w i k)
    (h : w.Exec i (.quota unit) r w') : Valid w' i (k.learn (.quota unit) r) := by
  rcases h with ⟨⟨e, rfl⟩, rfl⟩ | ⟨rfl, rfl⟩
  · exact hv
  · have hclear : k.Disowns unit (fun lease => lease.applied ≠ w.quotaOf unit) →
        ∃ key, k.held = some key ∧ ∀ unit, leaseKey unit = key → w.owed unit = none := by
      intro hdisowns
      refine clear_of_disowns hinv hv hdisowns ?_
      intro lease scope debt hscope hquota hcovers hdiff
      rw [LeaseWorld.quotaOf, hscope] at hdiff
      exact hdiff (hcovers.applied.trans hquota.symm)
    refine { hv with clear := fun h => h.elim hv.clear hclear, quota := fun unit' q hread => ?_ }
    dsimp only [LeaseKnow.learn] at hread
    split at hread
    · next hheld =>
      obtain ⟨rfl, rfl⟩ := Prod.mk.inj (Option.some.inj hread)
      exact ⟨hheld, fun _ => rfl⟩
    · cases hread

theorem own_timerState {timer : ExpiryTimer} {r : Except String String} (hv : Valid w i k)
    (h : w.Exec i (.timerState timer) r w') : Valid w' i (k.learn (.timerState timer) r) := by
  rcases h with ⟨hinactive, rfl⟩ | ⟨rfl, -, rfl⟩
  · cases r with
    | error e => exact hv
    | ok text =>
      have htext : text ≠ "active" := fun heq => hinactive (by rw [heq])
      simpa [LeaseKnow.learn, htext] using hv
  · refine { hv with seen := fun t ht => ?_ }
    rcases List.mem_cons.mp ht with rfl | ht
    · exact List.mem_cons_self
    · exact List.mem_cons_of_mem _ (hv.seen t ht)

/-! ### Writing a quota -/

theorem writeQuota_of_some {unit : String} {q : Nat} {why : QuotaWrite} {scope : ScopeState}
    (hscope : w.scopes unit = some scope) : w.writeQuota unit q why =
      { w with scopes := update w.scopes unit (some { scope with quota := q })
               owed := update w.owed unit (w.debtOf scope q why) } := by
  unfold LeaseWorld.writeQuota
  rw [hscope]

/-- A write by anyone else: the unit's key is another, so what is known of the key held stays. -/
theorem LeaseKnow.Valid.writeQuota {unit : String} {q : Nat} {why : QuotaWrite} (hv : Valid w i k)
    (hkey : k.held ≠ some (leaseKey unit)) : Valid (w.writeQuota unit q why) i k := by
  cases hscope : w.scopes unit with
  | none =>
    unfold LeaseWorld.writeQuota
    rw [hscope]
    exact hv
  | some scope =>
    rw [writeQuota_of_some hscope]
    refine { hv with clear := fun hclear => ?_, quota := fun unit' q' hread => ?_ }
    · obtain ⟨key, hheld, hfree⟩ := hv.clear hclear
      refine ⟨key, hheld, fun unit' hunit' => ?_⟩
      have hne : unit' ≠ unit := by
        rintro rfl
        exact hkey (hunit' ▸ hheld)
      exact (update_of_ne hne _ _).trans (hfree unit' hunit')
    · obtain ⟨hheld, hquota⟩ := hv.quota unit' q' hread
      have hne : unit' ≠ unit := by
        rintro rfl
        exact hkey hheld
      refine ⟨hheld, fun hreading => ?_⟩
      rw [← hquota hreading]
      unfold LeaseWorld.quotaOf
      dsimp only
      rw [update_of_ne hne]

/-- A write that is no cap leaves nothing owed. -/
theorem clear_of_restore {unit : String} {q : Nat} {why : QuotaWrite} {scope : ScopeState}
    (hinv : w.Inv units) (hv : Valid w i k) (hscope : w.scopes unit = some scope)
    (hwhy : w.debtOf scope q why = none)
    (h : k.clear ∨ k.Disowns unit fun _ => True) :
    ∃ key, k.held = some key ∧
      ∀ unit', leaseKey unit' = key → (w.writeQuota unit q why).owed unit' = none := by
  rw [writeQuota_of_some hscope, hwhy]
  have hothers : ∀ unit', (unit' ≠ unit → w.owed unit' = none) →
      update w.owed unit none unit' = none := by
    intro unit' hfree
    by_cases hunit : unit' = unit
    · rw [hunit, update_self]
    · rw [update_of_ne hunit]
      exact hfree hunit
  rcases h with hclear | ⟨lease, hfile, hunit, -⟩
  · obtain ⟨key, hheld, hfree⟩ := hv.clear hclear
    exact ⟨key, hheld, fun unit' hkey => hothers unit' fun _ => hfree unit' hkey⟩
  · obtain ⟨key, hheld, hvisible⟩ := hv.file _ hfile
    refine ⟨key, hheld, fun unit' hkey => hothers unit' fun hne => hinv.owed_eq_none ?_⟩
    intro lease' scope debt hlease' _ _ hcovers
    rw [hkey, hvisible] at hlease'
    obtain rfl := Option.some.inj hlease'
    exact hne (hcovers.ofUnit.symm.trans hunit)

theorem own_setQuota {unit : String} {q : Nat} {why : QuotaWrite} {r : Except String Unit}
    (hinv : w.Inv units) (hv : Valid w i k) (h : w.Exec i (.setQuota unit q why) r w') :
    Valid w' i (k.learn (.setQuota unit q why) r) := by
  have hrestore : ∀ scope, w.scopes unit = some scope → w.debtOf scope q why = none →
      Valid (w.writeQuota unit q why) i
        { k with quota := none, clear := k.clear ∨ r = .ok () ∧ k.Disowns unit fun _ => True } := by
    intro scope hscope hwhy
    have hclear := clear_of_restore hinv hv hscope hwhy
    rw [writeQuota_of_some hscope] at hclear ⊢
    exact { hv with
      clear := fun h => hclear (h.imp_right And.right)
      quota := fun _ _ hread => nomatch hread }
  rcases h with ⟨⟨e, rfl⟩, rfl⟩ | ⟨hsome, rfl⟩
  · have hnothing : ∀ c, (c → k.clear) →
        Valid w' i { k with quota := none, clear := c } := fun c hc =>
      { hv with clear := fun h => hv.clear (hc h), quota := fun _ _ hread => nomatch hread }
    cases why with
    | apply lease => exact hnothing False False.elim
    | recovered lease => exact hnothing _ fun h => h.elim id fun h => nomatch h.1
    | released generation lease => exact hnothing _ fun h => h.elim id fun h => nomatch h.1
  · obtain ⟨scope, hscope⟩ := Option.isSome_iff_exists.mp hsome
    cases why with
    | apply lease =>
      rw [writeQuota_of_some hscope]
      exact { hv with clear := False.elim, quota := fun _ _ hread => nomatch hread }
    | recovered lease => exact hrestore scope hscope rfl
    | released generation lease => exact hrestore scope hscope rfl

/-! ### Locks and files -/

theorem own_tryLock {key : UInt64} {r : Except String Unit} (hv : Valid w i k)
    (h : w.Exec i (.tryLock key) r w') : Valid w' i (k.learn (.tryLock key) r) := by
  rcases h with ⟨⟨e, rfl⟩, rfl⟩ | ⟨rfl, -, rfl⟩
  · exact hv
  · exact {
      boot := hv.boot
      held := fun key' hkey => by
        obtain rfl := Option.some.inj hkey
        exact update_self _ _ _
      file := fun _ hfile => nomatch hfile
      synced := False.elim
      clear := False.elim
      quota := fun _ _ hread => nomatch hread
      seen := hv.seen }

theorem own_unlock {key : UInt64} {r : Unit} (hv : Valid w i k)
    (h : w.Exec i (.unlock key) r w') : Valid w' i (k.learn (.unlock key) r) := by
  obtain rfl := h
  exact {
    boot := hv.boot
    held := fun _ hkey => nomatch hkey
    file := fun _ hfile => nomatch hfile
    synced := False.elim
    clear := False.elim
    quota := fun _ _ hread => nomatch hread
    seen := hv.seen }

theorem own_load {key : UInt64} {r : Except String (Option Lease)} (hinv : w.Inv units)
    (hv : Valid w i k) (h : w.Exec i (.load key) r w') : Valid w' i (k.learn (.load key) r) := by
  obtain ⟨rfl, hfound⟩ := h
  cases r with
  | error e => exact hv
  | ok found =>
    obtain rfl : found = w'.visible key := hfound found rfl
    dsimp only [LeaseKnow.learn]
    split
    · next hheld =>
      refine { hv with file := fun f hf => ?_, clear := fun hclear => ?_ }
      · obtain rfl := Option.some.inj hf
        exact ⟨key, hheld, rfl⟩
      · refine hclear.elim hv.clear fun hother => ⟨key, hheld, fun unit hunit => ?_⟩
        refine hinv.owed_eq_none fun lease scope debt hlease _ _ hcovers => ?_
        rw [hunit] at hlease
        rcases hother with hnone | ⟨l, hl, hboot⟩
        · rw [hlease] at hnone
          cases hnone
        · rw [hlease] at hl
          obtain rfl := Option.some.inj hl
          exact hboot (hcovers.boot.trans hv.boot.symm)
    · exact hv

/-- A file under the key held changes. -/
theorem LeaseKnow.Valid.changed {key : UInt64} {f : Option Lease} (hv : Valid w i k)
    (hheld : k.held = some key) : Valid { w with visible := update w.visible key f } i
      { k with file := some f, synced := False } :=
  { hv with
    file := fun f' hf' => by
      obtain rfl := Option.some.inj hf'
      exact ⟨key, hheld, update_self _ _ _⟩
    synced := False.elim }

theorem LeaseKnow.Valid.forget (hv : Valid w i k) (visible : UInt64 → Option Lease) :
    Valid { w with visible := visible } i { k with file := none, synced := False } :=
  { hv with synced := False.elim, file := fun _ hf => nomatch hf }

theorem own_persist {key : UInt64} {lease : Lease} {r : Except String Unit} (hv : Valid w i k)
    (hheld : k.held = some key) (h : w.Exec i (.persist key lease) r w') :
    Valid w' i (k.learn (.persist key lease) r) := by
  rcases h with ⟨⟨e, rfl⟩, rfl⟩ | rfl
  · exact hv.forget w'.visible
  · cases r with
    | error e => exact hv.forget _
    | ok done => exact hv.changed hheld

theorem own_remove {key : UInt64} {why : LeaseDrop} {r : Except String Unit} (hv : Valid w i k)
    (hheld : k.held = some key) (h : w.Exec i (.remove key why) r w') :
    Valid w' i (k.learn (.remove key why) r) := by
  rcases h with ⟨⟨e, rfl⟩, rfl⟩ | rfl
  · exact hv.forget w'.visible
  · cases r with
    | error e => exact hv.forget _
    | ok done => exact hv.changed hheld

theorem LeaseKnow.Valid.flushed {key : UInt64} (hv : Valid w i k) :
    Valid { w with durable := update w.durable key (w.visible key) } i k :=
  { hv with
    synced := fun hsynced => by
      obtain ⟨key', hheld, heq⟩ := hv.synced hsynced
      refine ⟨key', hheld, ?_⟩
      by_cases hkey : key' = key
      · rw [hkey]
        exact update_self _ _ _
      · exact (update_of_ne hkey _ _).trans heq }

theorem own_syncRoot {key : UInt64} {r : Except String Unit} (hv : Valid w i k)
    (hheld : k.held = some key) (h : w.Exec i (.syncRoot key) r w') :
    Valid w' i (k.learn (.syncRoot key) r) := by
  rcases h with ⟨⟨e, rfl⟩, rfl⟩ | rfl
  · exact hv
  · cases r with
    | error e => exact hv.flushed
    | ok done => exact { hv.flushed with synced := fun _ => ⟨key, hheld, update_self _ _ _⟩ }

/-! ### The knowledge of the others -/

/-- Two actors do not hold one key. -/
theorem LeaseKnow.Valid.held_ne {key : UInt64} (hv : Valid w i k) (hheld : k.held = some key)
    (hji : j ≠ i) (hv' : Valid w j k') : k'.held ≠ some key := by
  intro hheld'
  have hij := (hv.held key hheld).symm.trans (hv'.held key hheld')
  exact hji (Option.some.inj hij).symm

theorem others_lock {key : UInt64} {holder : Option Nat} (hv' : Valid w j k')
    (hkey : k'.held ≠ some key) :
    Valid { w with locks := update w.locks key holder } j k' :=
  { hv' with
    held := fun key' hheld' => by
      have hne : key' ≠ key := by
        rintro rfl
        exact hkey hheld'
      exact (update_of_ne hne _ _).trans (hv'.held key' hheld') }

theorem others_visible {key : UInt64} {f : Option Lease} (hv' : Valid w j k')
    (hkey : k'.held ≠ some key) : Valid { w with visible := update w.visible key f } j k' := by
  have hne : ∀ key', k'.held = some key' → key' ≠ key := by
    rintro key' hheld' rfl
    exact hkey hheld'
  exact { hv' with
    file := fun f' hf' => by
      obtain ⟨key', hheld', hvisible⟩ := hv'.file f' hf'
      exact ⟨key', hheld', (update_of_ne (hne key' hheld') _ _).trans hvisible⟩
    synced := fun hsynced => by
      obtain ⟨key', hheld', hdurable⟩ := hv'.synced hsynced
      exact ⟨key', hheld', hdurable.trans (update_of_ne (hne key' hheld') _ _).symm⟩ }

/-- What one actor does under its key leaves true what another knows under its own. -/
theorem others_exec {o : LeaseOp} {r : LeaseAnswer o} (hv : Valid w i k)
    (hallowed : k.Allowed units o) (h : w.Exec i o r w') (hji : j ≠ i) (hv' : Valid w j k') :
    Valid w' j k' := by
  cases o with
  | property unit name => exact h.1 ▸ hv'
  | validateWorkload unit => exact h ▸ hv'
  | clock => exact h ▸ hv'
  | listLeases => exact h ▸ hv'
  | load key => exact h.1 ▸ hv'
  | quota unit =>
    rcases h with ⟨-, rfl⟩ | ⟨-, rfl⟩
    · exact hv'
    · refine { hv' with quota := fun unit' q hread => ?_ }
      obtain ⟨hheld', hquota⟩ := hv'.quota unit' q hread
      refine ⟨hheld', fun hreading => hquota ?_⟩
      dsimp only at hreading
      rwa [update_of_ne hji] at hreading
  | timerState timer =>
    rcases h with ⟨-, rfl⟩ | ⟨-, -, rfl⟩
    · exact hv'
    · exact { hv' with seen := fun t ht => List.mem_cons_of_mem _ (hv'.seen t ht) }
  | arm timer seconds =>
    rcases h with ⟨-, rfl⟩ | rfl
    · exact hv'
    · exact { hv' with }
  | stopTimer timer =>
    rcases h with rfl | rfl
    · exact hv'
    · exact { hv' with }
  | setQuota unit q why =>
    have hheld : k.held = some (leaseKey unit) := by
      cases why <;> exact hallowed.1
    rcases h with ⟨-, rfl⟩ | ⟨-, rfl⟩
    · exact hv'
    · exact hv'.writeQuota (hv.held_ne hheld hji hv')
  | tryLock key =>
    rcases h with ⟨-, rfl⟩ | ⟨-, hfree, rfl⟩
    · exact hv'
    · refine others_lock hv' fun hheld' => ?_
      rw [hv'.held key hheld'] at hfree
      cases hfree
  | unlock key =>
    obtain rfl := h
    exact others_lock hv' (hv.held_ne hallowed hji hv')
  | persist key lease =>
    rcases h with ⟨-, rfl⟩ | rfl
    · exact hv'
    · exact others_visible hv' (hv.held_ne hallowed.1 hji hv')
  | syncRoot key =>
    rcases h with ⟨-, rfl⟩ | rfl
    · exact hv'
    · exact hv'.flushed
  | remove key why =>
    have hheld : k.held = some key := by
      cases why with
      | stale => exact hallowed
      | recovered => exact hallowed.1
      | released generation => exact hallowed.1
    rcases h with ⟨-, rfl⟩ | rfl
    · exact hv'
    · exact others_visible hv' (hv.held_ne hheld hji hv')

/-! ### The invariant, call by call -/

/-- Only the fields the invariant speaks of. -/
theorem LeaseWorld.Inv.congr (hinv : w.Inv units) (hboot : w'.boot = w.boot)
    (hscopes : w'.scopes = w.scopes) (hvisible : w'.visible = w.visible)
    (hdurable : w'.durable = w.durable) (howed : w'.owed = w.owed) : w'.Inv units where
  files := by
    rw [hvisible, hdurable]
    exact hinv.files
  covered := by
    unfold LeaseWorld.FileCovers
    rw [howed, hscopes, hvisible, hdurable, hboot]
    exact hinv.covered

/-- A unit changes, and what it is owed. -/
theorem LeaseWorld.Inv.scope {unit : String} {state : Option ScopeState} {debt : Option QuotaDebt}
    (hinv : w.Inv units)
    (hdebt : ∀ d, debt = some d → ∃ scope, state = some scope ∧ scope.quota = d.applied ∧
      w.FileCovers (w.visible (leaseKey unit)) unit scope d ∧
        w.FileCovers (w.durable (leaseKey unit)) unit scope d) :
    ({ w with scopes := update w.scopes unit state
              owed := update w.owed unit debt } : LeaseWorld).Inv units where
  files := hinv.files
  covered := by
    intro unit' d howed
    dsimp only at howed ⊢
    by_cases hunit : unit' = unit
    · subst hunit
      rw [update_self] at howed ⊢
      exact hdebt d howed
    · rw [update_of_ne hunit] at howed ⊢
      exact hinv.covered unit' d howed

theorem LeaseWorld.Inv.touch {unit : String} {state : Option ScopeState} (hinv : w.Inv units) :
    (w.touch unit state).Inv units := by
  have hscope : ({ w with scopes := update w.scopes unit state
                          owed := update w.owed unit none } : LeaseWorld).Inv units :=
    hinv.scope fun _ h => nomatch h
  exact hscope.congr rfl rfl rfl rfl rfl

/-- A file changes for one that covers as much, or nothing has to be covered. -/
theorem LeaseWorld.Inv.rewrite {key : UInt64} {f : Option Lease} (hinv : w.Inv units)
    (hfile : ∀ lease, f = some lease → lease.unit ∈ units ∧ leaseKey lease.unit = key)
    (hcovers : ∀ unit scope debt, leaseKey unit = key → w.owed unit = some debt →
      w.scopes unit = some scope → w.FileCovers (w.visible key) unit scope debt →
        w.FileCovers f unit scope debt) :
    ({ w with visible := update w.visible key f } : LeaseWorld).Inv units where
  files := by
    intro key' lease h
    dsimp only at h
    by_cases hkey : key' = key
    · subst hkey
      rw [update_self] at h
      exact h.elim (hfile lease) fun h => hinv.files key' lease (Or.inr h)
    · rw [update_of_ne hkey] at h
      exact hinv.files key' lease h
  covered := by
    intro unit debt howed
    obtain ⟨scope, hscope, hquota, hvisible, hdurable⟩ := hinv.covered unit debt howed
    refine ⟨scope, hscope, hquota, ?_, hdurable⟩
    dsimp only
    by_cases hkey : leaseKey unit = key
    · subst hkey
      rw [update_self]
      exact hcovers unit scope debt rfl howed hscope hvisible
    · rw [update_of_ne hkey]
      exact hvisible

theorem LeaseWorld.Inv.flushed {key : UInt64} (hinv : w.Inv units) :
    ({ w with durable := update w.durable key (w.visible key) } : LeaseWorld).Inv units where
  files := by
    intro key' lease h
    dsimp only at h
    by_cases hkey : key' = key
    · subst hkey
      rw [update_self, or_self] at h
      exact hinv.files key' lease (Or.inl h)
    · rw [update_of_ne hkey] at h
      exact hinv.files key' lease h
  covered := by
    intro unit debt howed
    obtain ⟨scope, hscope, hquota, hvisible, hdurable⟩ := hinv.covered unit debt howed
    refine ⟨scope, hscope, hquota, hvisible, ?_⟩
    dsimp only
    by_cases hkey : leaseKey unit = key
    · subst hkey
      rw [update_self]
      exact hvisible
    · rw [update_of_ne hkey]
      exact hdurable

/-- **A cap is covered**: the lease on file is the one it was prepared with, on the disk, and the
quota it replaces is the one read. -/
theorem inv_apply {unit : String} {q : Nat} {lease : Lease} (hinv : w.Inv units)
    (hv : Valid w i k) (hallowed : k.Allowed units (.setQuota unit q (.apply lease)))
    (hmet : LeaseUndisturbed i w (.setQuota unit q (.apply lease))) :
    (w.writeQuota unit q (.apply lease)).Inv units := by
  obtain ⟨hheld, hfile, hsynced, hunit, happlied, hread, htimer, hseen⟩ := hallowed
  cases hscope : w.scopes unit with
  | none =>
    unfold LeaseWorld.writeQuota
    rw [hscope]
    exact hinv
  | some scope =>
    rw [writeQuota_of_some hscope]
    refine hinv.scope fun d hd => ⟨_, rfl, ?_⟩
    dsimp only [LeaseWorld.debtOf] at hd
    split at hd
    · next hrecorded =>
      obtain rfl := Option.some.inj hd
      have hvisible := hv.visible_eq hheld hfile
      have hdurable := hv.durable_eq hheld hsynced
      have hreading : w.reading i = some unit :=
        hmet (by rw [LeaseWorld.invocationOf, hscope]; exact hrecorded.2.symm)
      have horiginal : scope.quota = lease.original := by
        have hquota := (hv.quota unit lease.original hread).2 hreading
        rwa [LeaseWorld.quotaOf, hscope] at hquota
      have hcovers : lease.Covers w.boot unit { scope with quota := q }
          { original := scope.quota, applied := q, generation := lease.generation,
            seenBefore := w.seenActive } := {
        ofUnit := hunit
        boot := hrecorded.1
        invocation := hrecorded.2
        applied := happlied
        original := horiginal.symm
        generation := rfl
        timer := htimer
        seen := hv.seen _ hseen }
      exact ⟨rfl, ⟨lease, hvisible, hcovers⟩, lease, hdurable.trans hvisible, hcovers⟩
    · cases hd

theorem inv_restore {unit : String} {q : Nat} {why : QuotaWrite} (hinv : w.Inv units)
    (hwhy : ∀ scope, w.debtOf scope q why = none) : (w.writeQuota unit q why).Inv units := by
  cases hscope : w.scopes unit with
  | none =>
    unfold LeaseWorld.writeQuota
    rw [hscope]
    exact hinv
  | some scope =>
    rw [writeQuota_of_some hscope, hwhy]
    exact hinv.scope fun d hd => nomatch hd

theorem inv_persist {key : UInt64} {lease : Lease} (hinv : w.Inv units) (hv : Valid w i k)
    (hallowed : k.Allowed units (.persist key lease)) :
    ({ w with visible := update w.visible key (some lease) } : LeaseWorld).Inv units := by
  obtain ⟨hheld, hin, hkey, hkeeps⟩ := hallowed
  refine hinv.rewrite ?_ ?_
  · rintro l hl
    obtain rfl := Option.some.inj hl
    exact ⟨hin, hkey⟩
  · intro unit scope debt hunit howed hscope hcovers
    rcases hkeeps with hclear | ⟨old, hfile, hsame⟩
    · rw [hv.owed_eq_none hheld hclear hunit] at howed
      cases howed
    · obtain ⟨l, hl, hcovers⟩ := hcovers
      rw [hv.visible_eq hheld hfile] at hl
      obtain rfl := Option.some.inj hl
      exact ⟨lease, rfl, hcovers.of_same hsame⟩

/-- **A lease goes only when nothing is owed for it.** -/
theorem inv_remove {key : UInt64} {why : LeaseDrop} (hinv : w.Inv units) (hv : Valid w i k)
    (hallowed : k.Allowed units (.remove key why)) (hmet : LeaseUndisturbed i w (.remove key why)) :
    ({ w with visible := update w.visible key none } : LeaseWorld).Inv units := by
  refine hinv.rewrite (fun l hl => nomatch hl) ?_
  intro unit scope debt hunit howed hscope hcovers
  exfalso
  cases why with
  | stale =>
    obtain ⟨lease, hvisible, hcovers⟩ := hcovers
    refine hmet lease hvisible hcovers.boot scope ?_ hcovers.invocation.symm
    rw [hcovers.ofUnit]
    exact hscope
  | recovered =>
    rw [hv.owed_eq_none hallowed.1 hallowed.2 hunit] at howed
    cases howed
  | released generation =>
    rw [hv.owed_eq_none hallowed.1 hallowed.2.1 hunit] at howed
    cases howed

theorem inv_exec {o : LeaseOp} {r : LeaseAnswer o} (hinv : w.Inv units) (hv : Valid w i k)
    (hallowed : k.Allowed units o) (hmet : LeaseUndisturbed i w o) (h : w.Exec i o r w') :
    w'.Inv units := by
  cases o with
  | property unit name => exact h.1 ▸ hinv
  | validateWorkload unit => exact h ▸ hinv
  | clock => exact h ▸ hinv
  | listLeases => exact h ▸ hinv
  | load key => exact h.1 ▸ hinv
  | quota unit =>
    rcases h with ⟨-, rfl⟩ | ⟨-, rfl⟩
    · exact hinv
    · exact hinv.congr rfl rfl rfl rfl rfl
  | timerState timer =>
    rcases h with ⟨-, rfl⟩ | ⟨-, -, rfl⟩
    · exact hinv
    · exact hinv.congr rfl rfl rfl rfl rfl
  | arm timer seconds =>
    rcases h with ⟨-, rfl⟩ | rfl
    · exact hinv
    · exact hinv.congr rfl rfl rfl rfl rfl
  | stopTimer timer =>
    rcases h with rfl | rfl
    · exact hinv
    · exact hinv.congr rfl rfl rfl rfl rfl
  | tryLock key =>
    rcases h with ⟨-, rfl⟩ | ⟨-, -, rfl⟩
    · exact hinv
    · exact hinv.congr rfl rfl rfl rfl rfl
  | unlock key => exact h ▸ hinv.congr rfl rfl rfl rfl rfl
  | setQuota unit q why =>
    rcases h with ⟨-, rfl⟩ | ⟨-, rfl⟩
    · exact hinv
    · cases why with
      | apply lease => exact inv_apply hinv hv hallowed hmet
      | recovered lease => exact inv_restore hinv fun _ => rfl
      | released generation lease => exact inv_restore hinv fun _ => rfl
  | persist key lease =>
    rcases h with ⟨-, rfl⟩ | rfl
    · exact hinv
    · exact inv_persist hinv hv hallowed
  | syncRoot key =>
    rcases h with ⟨-, rfl⟩ | rfl
    · exact hinv
    · exact hinv.flushed
  | remove key why =>
    rcases h with ⟨-, rfl⟩ | rfl
    · exact hinv
    · exact inv_remove hinv hv hallowed hmet

theorem own_exec {o : LeaseOp} {r : LeaseAnswer o} (hinv : w.Inv units) (hv : Valid w i k)
    (hallowed : k.Allowed units o) (h : w.Exec i o r w') : Valid w' i (k.learn o r) := by
  cases o with
  | property unit name => exact own_property hinv hv h
  | quota unit => exact own_quota hinv hv h
  | timerState timer => exact own_timerState hv h
  | setQuota unit q why => exact own_setQuota hinv hv h
  | tryLock key => exact own_tryLock hv h
  | unlock key => exact own_unlock hv h
  | load key => exact own_load hinv hv h
  | persist key lease => exact own_persist hv hallowed.1 h
  | syncRoot key => exact own_syncRoot hv hallowed h
  | remove key why =>
    refine own_remove hv ?_ h
    cases why with
    | stale => exact hallowed
    | recovered => exact hallowed.1
    | released generation => exact hallowed.1
  | validateWorkload unit => exact h ▸ hv
  | clock => exact h ▸ hv
  | listLeases => exact h ▸ hv
  | arm timer seconds =>
    rcases h with ⟨-, rfl⟩ | rfl
    · exact hv
    · exact { hv with }
  | stopTimer timer =>
    rcases h with rfl | rfl
    · exact hv
    · exact { hv with }

/-! ### Without an actor -/

theorem LeaseKnow.Valid.touch {unit : String} {state : Option ScopeState} (hv : Valid w i k) :
    Valid (w.touch unit state) i k := by
  refine { hv with clear := fun hclear => ?_, quota := fun unit' q hread => ?_ }
  · obtain ⟨key, hheld, hfree⟩ := hv.clear hclear
    refine ⟨key, hheld, fun unit' hunit' => ?_⟩
    unfold LeaseWorld.touch
    dsimp only
    by_cases hne : unit' = unit
    · rw [hne, update_self]
    · rw [update_of_ne hne]
      exact hfree unit' hunit'
  · obtain ⟨hheld, hquota⟩ := hv.quota unit' q hread
    refine ⟨hheld, fun hreading => ?_⟩
    dsimp only [LeaseWorld.touch] at hreading
    split at hreading
    · cases hreading
    · next hkept =>
      rw [← hquota hreading]
      by_cases hne : unit' = unit
      · subst hne
        have hsame := fun hdiff => hkept ⟨hreading, hdiff⟩
        exact not_not.mp hsame
      · unfold LeaseWorld.touch LeaseWorld.quotaOf
        dsimp only
        rw [update_of_ne hne]

theorem inv_outside (hinv : w.Inv units) (h : w.Outside w') : w'.Inv units := by
  cases h with
  | quotaChanged unit scope quota _ => exact hinv.touch
  | unitReplaced unit state => exact hinv.touch
  | timerGone timer => exact hinv.congr rfl rfl rfl rfl rfl
  | flushed key => exact hinv.flushed

theorem valid_outside (h : w.Outside w') (hv : Valid w i k) : Valid w' i k := by
  cases h with
  | quotaChanged unit scope quota _ => exact hv.touch
  | unitReplaced unit state => exact hv.touch
  | timerGone timer => exact { hv with }
  | flushed key => exact hv.flushed

theorem valid_leave (hji : j ≠ i) (hv : Valid w j k) : Valid (w.leave i) j k :=
  { hv with
    held := fun key hheld => by
      have hlock := hv.held key hheld
      have hne : ¬ w.locks key = some i := by
        rw [hlock]
        exact fun h => hji (Option.some.inj h)
      unfold LeaseWorld.leave
      dsimp only
      rw [if_neg hne, hlock] }

theorem inv_reboot (hinv : w.Inv units) (h : w.Reboots w') : w'.Inv units := by
  cases h with
  | mk boot =>
    refine ⟨fun key lease hlease => ?_, fun unit debt howed => nomatch howed⟩
    rw [or_self] at hlease
    exact hinv.files key lease (Or.inr hlease)

theorem inv_fresh (h : w.Fresh units) : w.Inv units where
  files := h.files
  covered := by
    intro unit debt howed
    rw [h.owed unit] at howed
    cases howed

end Calls

/-! ## The programs -/

section Programs

open LeaseM LeaseKnow

variable {units : Set String} {boot : String} {key : UInt64} {k : LeaseKnow} {α β : Type}

/-- In the boot the program was started in, holding the key. -/
structure LeaseKnow.Under (boot : String) (key : UInt64) (k : LeaseKnow) : Prop where
  boot : k.boot = boot
  held : k.held = some key

/-- The body of a lock, from what is known to its end. -/
abbrev SafeUnder (units : Set String) (boot : String) (key : UInt64) (k : LeaseKnow)
    (prog : LeaseM α) : Prop :=
  Safe (discipline units) k prog.run fun k _ => k.Under boot key

theorem SafeUnder.pure {a : α} (hk : k.Under boot key) :
    SafeUnder units boot key k (Pure.pure a : LeaseM α) := hk

theorem SafeUnder.throw {e : String} (hk : k.Under boot key) :
    SafeUnder units boot key k (throw e : LeaseM α) := hk

theorem SafeUnder.require {c : Prop} [Decidable c] {e : String} {f : Unit → LeaseM β}
    (hk : k.Under boot key) (h : c → SafeUnder units boot key k (f ())) :
    SafeUnder units boot key k (require c e >>= f) := by
  refine Safe.bindE ?_
  unfold LeaseM.require
  split
  · next hc => exact h hc
  · exact hk

theorem SafeUnder.property {unit : String} {name : UnitProperty} {f : String → LeaseM β}
    (hk : k.Under boot key)
    (h : ∀ text, SafeUnder units boot key (k.learn (.property unit name) (.ok text)) (f text)) :
    SafeUnder units boot key k (property unit name >>= f) := by
  refine Safe.bindE ⟨trivial, fun r _ => ?_⟩
  cases r with
  | error e => cases name <;> exact hk
  | ok text => exact h text

theorem safe_quota {unit : String} {post : LeaseKnow → Except String Nat → Prop}
    (hheld : k.held = some (leaseKey unit)) (herror : ∀ e, post k (.error e))
    (h : ∀ q, post { k with
      quota := some (unit, q)
      clear := k.clear ∨ k.Disowns unit fun lease => lease.applied ≠ q } (.ok q)) :
    Safe (discipline units) k (quota unit).run post := by
  refine ⟨trivial, fun r _ => ?_⟩
  cases r with
  | error e => exact herror e
  | ok q =>
    have hlearn : k.learn (.quota unit) (.ok q) = { k with
        quota := some (unit, q)
        clear := k.clear ∨ k.Disowns unit fun lease => lease.applied ≠ q } := by
      dsimp only [LeaseKnow.learn]
      rw [if_pos hheld]
    have hnext := h q
    rw [← hlearn] at hnext
    exact hnext

theorem SafeUnder.quota {unit : String} {f : Nat → LeaseM β} (hk : k.Under boot (leaseKey unit))
    (h : ∀ q, SafeUnder units boot (leaseKey unit)
      { k with quota := some (unit, q)
               clear := k.clear ∨ k.Disowns unit fun lease => lease.applied ≠ q } (f q)) :
    SafeUnder units boot (leaseKey unit) k (quota unit >>= f) :=
  Safe.bindE (safe_quota hk.held (fun _ => hk) h)

theorem SafeUnder.save {lease : Lease} {f : Unit → LeaseM β} (hk : k.Under boot key)
    (hin : lease.unit ∈ units) (hkey : leaseKey lease.unit = key)
    (hkeeps : k.clear ∨ ∃ old, k.file = some (some old) ∧ lease.SameDebt old)
    (h : SafeUnder units boot key { k with file := some (some lease), synced := True } (f ())) :
    SafeUnder units boot key k (save key lease >>= f) := by
  refine Safe.bindE (Safe.bindE ⟨⟨hk.held, hin, hkey, hkeeps⟩, fun r _ => ?_⟩)
  cases r with
  | error e => exact ⟨hk.boot, hk.held⟩
  | ok done =>
    refine ⟨hk.held, fun r _ => ?_⟩
    cases r with
    | error e => exact ⟨hk.boot, hk.held⟩
    | ok done => exact h

theorem safe_setQuota {unit : String} {q : Nat} {why : QuotaWrite}
    {post : LeaseKnow → Except String Unit → Prop} (hk : k.Under boot (leaseKey unit))
    (hallowed : k.Allowed units (.setQuota unit q why))
    (herror : ∀ k e, k.Under boot (leaseKey unit) → post k (.error e))
    (h : ∀ k', k'.Under boot (leaseKey unit) → k'.file = k.file →
      ((k.learn (.setQuota unit q why) (.ok ())).clear → k'.clear) → post k' (.ok ())) :
    Safe (discipline units) k (setQuota unit q why).run post := by
  refine Safe.bindE ⟨hallowed, fun r _ => ?_⟩
  have hafter : (k.learn (.setQuota unit q why) r).Under boot (leaseKey unit) ∧
      (k.learn (.setQuota unit q why) r).file = k.file := by
    cases why <;> exact ⟨⟨hk.boot, hk.held⟩, rfl⟩
  cases r with
  | error e => exact herror _ _ hafter.1
  | ok done =>
    refine Safe.bindE (safe_quota hafter.1.held (fun e => herror _ e hafter.1) fun observed => ?_)
    dsimp only [LeaseM.require]
    split
    · exact h _ ⟨hafter.1.boot, hafter.1.held⟩ hafter.2 Or.inl
    · exact herror _ _ ⟨hafter.1.boot, hafter.1.held⟩

theorem SafeUnder.remove {why : LeaseDrop} {f : Unit → LeaseM β} (hk : k.Under boot key)
    (hallowed : k.Allowed units (.remove key why))
    (h : ∀ k', k'.Under boot key → SafeUnder units boot key k' (f ())) :
    SafeUnder units boot key k (remove key why >>= f) := by
  refine Safe.bindE ⟨hallowed, fun r _ => ?_⟩
  cases r with
  | error e => exact ⟨hk.boot, hk.held⟩
  | ok done => exact h _ ⟨hk.boot, hk.held⟩

/-- What the timer calls and the clock leave alone. -/
structure LeaseKnow.Keeps (k k' : LeaseKnow) : Prop where
  boot : k'.boot = k.boot
  held : k'.held = k.held
  file : k'.file = k.file
  clear : k.clear → k'.clear
  quota : k'.quota = k.quota

theorem LeaseKnow.Under.keeps {k' : LeaseKnow} (hk : k.Under boot key) (h : k.Keeps k') :
    k'.Under boot key := ⟨h.boot.trans hk.boot, h.held.trans hk.held⟩

theorem keeps_timerState {timer : ExpiryTimer} {r : Except String String} :
    k.Keeps (k.learn (.timerState timer) r) := by
  cases r with
  | error e => exact ⟨rfl, rfl, rfl, id, rfl⟩
  | ok text =>
    dsimp only [LeaseKnow.learn]
    split <;> exact ⟨rfl, rfl, rfl, id, rfl⟩

theorem safe_leaseArmed {old : Lease} {f : Bool → LeaseM β} (hk : k.Under boot key)
    (h : ∀ k' armed, k.Keeps k' → SafeUnder units boot key k' (f armed)) :
    SafeUnder units boot key k (leaseArmed old >>= f) := by
  have hsame : k.Keeps k := ⟨rfl, rfl, rfl, id, rfl⟩
  refine Safe.bindE ?_
  unfold leaseArmed
  split
  · refine Safe.bindE ⟨trivial, fun r _ => ?_⟩
    cases r with
    | error e => exact hk
    | ok now =>
      refine Safe.pure ?_
      dsimp only
      split
      · refine Safe.bindE ⟨trivial, fun r _ => ?_⟩
        have hkeeps : k.Keeps (k.learn (.timerState old.timer) r) := keeps_timerState
        cases r with
        | error e => exact hk.keeps hkeeps
        | ok state => exact h _ _ hkeeps
      · exact h _ _ hsame
  · exact h _ _ hsame

/-! ### Caps -/

theorem reconcileIntent_eq_restore {lease : Lease} {current : Nat} {armed : Bool}
    (h : reconcileIntent lease current armed = .restoreUnprotected) : current = lease.applied := by
  unfold reconcileIntent at h
  split at h
  · assumption
  · split at h <;> cases h

theorem reconcileIntent_eq_drop {lease : Lease} {current : Nat} {armed : Bool}
    (h : reconcileIntent lease current armed = .dropUnapplied) : lease.applied ≠ current := by
  unfold reconcileIntent at h
  split at h
  · split at h <;> cases h
  · next hne => exact fun heq => hne heq.symm

theorem safe_dropRecovered (hk : k.Under boot key) (hclear : k.clear) :
    SafeUnder units boot key k (dropRecovered key) :=
  SafeUnder.remove hk ⟨hk.held, hclear⟩ fun _ hk' => SafeUnder.throw hk'

/-- An existing lease: whatever is dropped was not applied or has been taken back. -/
theorem safe_recoverIntent {call : CapCall} {invocation : String} {old : Lease}
    (hin : old.unit ∈ units) (hunit : old.unit = call.unit)
    (hk : k.Under boot (leaseKey call.unit)) (hfile : k.file = some (some old)) :
    SafeUnder units boot (leaseKey call.unit) k (recoverIntent call boot invocation old) := by
  unfold recoverIntent
  split
  · exact SafeUnder.remove hk hk.held fun _ hk' => SafeUnder.throw hk'
  · refine SafeUnder.quota hk fun current => safe_leaseArmed ⟨hk.boot, hk.held⟩ ?_
    intro k' armed hkeeps
    have hk' : k'.Under boot (leaseKey call.unit) :=
      ⟨hkeeps.boot.trans hk.boot, hkeeps.held.trans hk.held⟩
    have hfile' : k'.file = some (some old) := hkeeps.file.trans hfile
    have hdrop : old.applied ≠ current → k'.clear := fun hne =>
      hkeeps.clear (Or.inr ⟨old, hfile, hunit, hne⟩)
    cases haction : reconcileIntent old current armed with
    | reuse =>
      refine SafeUnder.save hk' hin (by rw [← hunit]) (Or.inr ⟨old, hfile', ?_⟩) ?_
      · exact ⟨rfl, rfl, rfl, rfl, rfl, rfl, rfl⟩
      · exact SafeUnder.pure ⟨hk'.boot, hk'.held⟩
    | restoreUnprotected =>
      obtain rfl := reconcileIntent_eq_restore haction
      refine Safe.bindE (safe_setQuota hk' ⟨hk'.held, hfile', hkeeps.quota⟩ (fun _ _ hk => hk)
        fun k'' hk'' _ hclear => ?_)
      exact safe_dropRecovered hk'' (hclear (Or.inr ⟨rfl, old, hfile', hunit, trivial⟩))
    | dropUnapplied => exact safe_dropRecovered hk' (hdrop (reconcileIntent_eq_drop haction))
    | preserveExternal => exact SafeUnder.throw hk'

/-- From an intent to the cap: by the time the quota is written the lease is on the disk, its timer
has been seen active, and the quota has been read again. -/
theorem safe_applyLease {call : CapCall} {lease : Lease} (hin : call.unit ∈ units)
    (hunit : lease.unit = call.unit) (hk : k.Under boot (leaseKey call.unit)) (hclear : k.clear)
    (htimer : lease.timer = ⟨leaseKey call.unit, lease.generation⟩) :
    SafeUnder units boot (leaseKey call.unit) k (applyLease call lease) := by
  have hlease : lease.unit ∈ units := hunit ▸ hin
  have hkey : leaseKey lease.unit = leaseKey call.unit := by rw [hunit]
  refine SafeUnder.save hk hlease hkey (Or.inl hclear) ?_
  refine Safe.bindE ⟨trivial, fun r _ => ?_⟩
  cases r with
  | error e => exact ⟨hk.boot, hk.held⟩
  | ok armed =>
    refine Safe.bindE ⟨trivial, fun r _ => ?_⟩
    cases r with
    | error e => exact ⟨hk.boot, hk.held⟩
    | ok state =>
      refine SafeUnder.require
        ⟨keeps_timerState.boot.trans hk.boot, keeps_timerState.held.trans hk.held⟩ ?_
      rintro rfl
      refine SafeUnder.save ⟨hk.boot, hk.held⟩ hlease hkey
        (Or.inr ⟨lease, rfl, ⟨rfl, rfl, rfl, rfl, rfl, rfl, rfl⟩⟩) ?_
      refine SafeUnder.property ⟨hk.boot, hk.held⟩ fun delegate => ?_
      refine SafeUnder.require ⟨hk.boot, hk.held⟩ fun _ => ?_
      refine Safe.bindE ⟨trivial, fun r _ => ?_⟩
      cases r with
      | error e => exact ⟨hk.boot, hk.held⟩
      | ok valid =>
        refine SafeUnder.quota ⟨hk.boot, hk.held⟩ fun before => ?_
        refine SafeUnder.require ⟨hk.boot, hk.held⟩ ?_
        rintro rfl
        refine SafeUnder.property ⟨hk.boot, hk.held⟩ fun identity => ?_
        refine SafeUnder.require ⟨hk.boot, hk.held⟩ fun _ => ?_
        refine Safe.bindE ⟨trivial, fun r _ => ?_⟩
        cases r with
        | error e => exact ⟨hk.boot, hk.held⟩
        | ok now =>
          refine SafeUnder.require ⟨hk.boot, hk.held⟩ fun _ => ?_
          refine Safe.bindE (safe_setQuota ⟨hk.boot, hk.held⟩ ?_ (fun _ _ hk => hk)
            fun k' hk' hfile' _ => ?_)
          · exact ⟨hk.held, rfl, trivial, hunit, rfl, rfl, htimer, List.mem_cons_self⟩
          · refine SafeUnder.save hk' hlease hkey
              (Or.inr ⟨_, hfile', ⟨rfl, rfl, rfl, rfl, rfl, rfl, rfl⟩⟩) ?_
            exact SafeUnder.pure ⟨hk'.boot, hk'.held⟩

theorem safe_prepareLease {call : CapCall} {invocation : String} (hin : call.unit ∈ units)
    (hk : k.Under boot (leaseKey call.unit)) (hclear : k.clear) :
    SafeUnder units boot (leaseKey call.unit) k (prepareLease call boot invocation) := by
  refine SafeUnder.quota hk fun original => ?_
  refine SafeUnder.require ⟨hk.boot, hk.held⟩ fun _ => ?_
  refine Safe.bindE ⟨trivial, fun r _ => ?_⟩
  cases r with
  | error e => exact ⟨hk.boot, hk.held⟩
  | ok generation =>
    refine Safe.bindE ⟨trivial, fun r _ => ?_⟩
    cases r with
    | error e => exact ⟨hk.boot, hk.held⟩
    | ok now => exact safe_applyLease hin rfl ⟨hk.boot, hk.held⟩ (Or.inl hclear) rfl

/-- Without a key. -/
abbrev SafeFree (units : Set String) (boot : String) (k : LeaseKnow) (prog : LeaseM α) : Prop :=
  Safe (discipline units) k prog.run fun k _ => k.boot = boot

/-- **The lock rule**: the body may do under the key what it needs the key for. -/
theorem safe_withLock {body : LeaseM α} (hk : k.boot = boot)
    (h : SafeUnder units boot key { boot := k.boot, held := some key, seen := k.seen } body) :
    SafeFree units boot k (withLock key body) := by
  refine Safe.bindE ⟨trivial, fun r _ => ?_⟩
  cases r with
  | error e => exact hk
  | ok locked =>
    refine Safe.bind (h.mono fun k' r hk' => ?_)
    exact ⟨hk'.held, fun _ _ => hk'.boot⟩

/-- What is known of a lease file once it is read under the lock. -/
structure LeaseKnow.Loaded (current : String) (key : UInt64) (found : Option Lease)
    (k : LeaseKnow) : Prop extends k.Under current key where
  file : k.file = some found
  absent : found = none → k.clear
  otherBoot : ∀ lease, found = some lease → lease.bootId ≠ current → k.clear

theorem SafeUnder.load {f : Option Lease → LeaseM β} (hk : k.Under boot key)
    (h : ∀ k' found, k'.Loaded boot key found →
      (∀ lease, found = some lease → lease.unit ∈ units ∧ leaseKey lease.unit = key) →
        SafeUnder units boot key k' (f found)) :
    SafeUnder units boot key k (load key >>= f) := by
  refine Safe.bindE ⟨trivial, fun r hr => ?_⟩
  cases r with
  | error e => exact hk
  | ok found =>
    refine h _ found ?_ fun lease hlease => hr lease (by rw [hlease])
    have hlearn : k.learn (.load key) (.ok found) = { k with
        file := some found
        clear := k.clear ∨ found = none ∨ ∃ l, found = some l ∧ l.bootId ≠ k.boot } := by
      dsimp only [LeaseKnow.learn]
      rw [if_pos hk.held]
    have hloaded : (k.learn (.load key) (.ok found)).Loaded boot key found := by
      rw [hlearn]
      exact {
        boot := hk.boot
        held := hk.held
        file := rfl
        absent := fun hnone => Or.inr (Or.inl hnone)
        otherBoot := fun lease hlease hboot =>
          Or.inr (Or.inr ⟨lease, hlease, by rwa [hk.boot]⟩) }
    exact hloaded

theorem safe_capPrepared {call : CapCall} (hkeys : Set.InjOn leaseKey units)
    (hin : call.unit ∈ units) (hk : k.boot = boot) :
    SafeFree units boot k (capPrepared call boot) := by
  have hproperty : ∀ {k : LeaseKnow} {name : UnitProperty} {f : String → LeaseM (UInt64 × Nat)},
      k.boot = boot → (∀ k' text, k'.boot = boot → SafeFree units boot k' (f text)) →
        SafeFree units boot k (property call.unit name >>= f) := by
    intro k name f hk h
    refine Safe.bindE ⟨trivial, fun r _ => ?_⟩
    have hboot : (k.learn (.property call.unit name) r).boot = boot := by
      cases r <;> cases name <;> exact hk
    cases r with
    | error e => exact hboot
    | ok text => exact h _ text hboot
  have hrequire : ∀ {k : LeaseKnow} {c : Prop} [Decidable c] {e : String}
      {f : Unit → LeaseM (UInt64 × Nat)}, k.boot = boot → SafeFree units boot k (f ()) →
        SafeFree units boot k (require c e >>= f) := by
    intro k c _ e f hk h
    refine Safe.bindE ?_
    unfold LeaseM.require
    split
    · exact h
    · exact hk
  refine hproperty hk fun k₁ invocation hk₁ => hrequire hk₁ ?_
  refine hproperty hk₁ fun k₂ active hk₂ => hrequire hk₂ ?_
  refine safe_withLock hk₂ (SafeUnder.load ⟨hk₂, rfl⟩ fun k' found hloaded hlease => ?_)
  cases found with
  | none => exact safe_prepareLease hin hloaded.toUnder (hloaded.absent rfl)
  | some old =>
    obtain ⟨hold, hkey⟩ := hlease old rfl
    exact safe_recoverIntent hold (hkeys hold hin hkey) hloaded.toUnder hloaded.file

/-! ### Releases -/

theorem leaseIsOwned_eq_false {lease : Lease} {invocation loadState : String}
    (h : leaseIsOwned lease.bootId boot lease.invocation invocation loadState = .ok false) :
    lease.bootId ≠ boot ∨ loadState = "not-found" ∨
      loadState = "loaded" ∧ lease.invocation ≠ invocation := by
  unfold leaseIsOwned at h
  split at h
  · next hother => exact hother.imp_right Or.inl
  · split at h
    · cases h
    · next hknown =>
      rw [not_or, not_not] at hknown
      have hne : (lease.invocation == invocation) = false := Except.ok.inj h
      exact Or.inr (Or.inr ⟨hknown.1, by simpa using hne⟩)

/-- More may be cleared. -/
theorem LeaseKnow.Loaded.clearing {found : Option Lease} (hk : k.Loaded boot key found)
    (c : Prop) : Loaded boot key found { k with clear := k.clear ∨ c } where
  boot := hk.boot
  held := hk.held
  file := hk.file
  absent := fun hnone => Or.inl (hk.absent hnone)
  otherBoot := fun lease hlease hboot => Or.inl (hk.otherBoot lease hlease hboot)

section Readings

variable {lease : Lease} {post : LeaseKnow → Except String β → Prop}
  (hpost : ∀ k e, k.Under boot key → post k (.error e)) (hk : k.Loaded boot key (some lease))

include hpost hk in
theorem safe_leaseLoadState {f : String → LeaseM β}
    (h : ∀ k' loadState, k'.Loaded boot key (some lease) → (loadState = "not-found" → k'.clear) →
      Safe (discipline units) k' (f loadState).run post) :
    Safe (discipline units) k (leaseLoadState boot lease >>= f).run post := by
  refine Safe.bindE ?_
  unfold leaseLoadState
  split
  · refine Safe.perform trivial fun r _ => ?_
    cases r with
    | error e => exact hpost _ _ hk.toUnder
    | ok text =>
      exact h _ text (hk.clearing _) fun hgone => Or.inr ⟨lease, hk.file, rfl, hgone⟩
  · exact Safe.pureE (h k "" hk fun hgone => absurd hgone (by decide))

include hpost hk in
theorem safe_leaseInvocation {loadState : String} {f : String → LeaseM β}
    (h : ∀ k' invocation, k'.Loaded boot key (some lease) → (k.clear → k'.clear) →
      (loadState = "loaded" → lease.invocation ≠ invocation → k'.clear) →
        Safe (discipline units) k' (f invocation).run post) :
    Safe (discipline units) k (leaseInvocation lease loadState >>= f).run post := by
  refine Safe.bindE ?_
  unfold leaseInvocation
  split
  · refine Safe.perform trivial fun r _ => ?_
    cases r with
    | error e => exact hpost _ _ hk.toUnder
    | ok text =>
      exact h _ text (hk.clearing _) Or.inl fun _ hne => Or.inr ⟨lease, hk.file, rfl, hne⟩
  · next hnot => exact Safe.pureE (h k "" hk id fun hloaded => absurd hloaded hnot)

end Readings

/-- A unit that is not the lease's is owed nothing. -/
theorem safe_leaseOwned {lease : Lease} {f : Bool → LeaseM β}
    (hk : k.Loaded boot key (some lease))
    (h : ∀ k' owned, k'.Loaded boot key (some lease) → (owned = false → k'.clear) →
      SafeUnder units boot key k' (f owned)) :
    SafeUnder units boot key k (leaseOwned boot lease >>= f) := by
  refine Safe.bindE (safe_leaseLoadState (fun _ _ hk => hk) hk fun k₁ loadState hk₁ hgone => ?_)
  refine safe_leaseInvocation (fun _ _ hk => hk) hk₁ fun k₂ invocation hk₂ hkept hother => ?_
  refine Safe.pure ?_
  cases howned : leaseIsOwned lease.bootId boot lease.invocation invocation loadState with
  | error e => exact hk₂.toUnder
  | ok owned =>
    refine h k₂ owned hk₂ ?_
    rintro rfl
    rcases leaseIsOwned_eq_false howned with hboot | hstate | ⟨hstate, hne⟩
    · exact hk₂.otherBoot lease rfl hboot
    · exact hkept (hgone hstate)
    · exact hother hstate hne

/-- **Compare and restore**: afterwards nothing is owed, whether the quota was put back or was no
longer the one applied. -/
theorem safe_restoreOwned {lease : Lease} {generation : Nat} {owned : Bool}
    {f : Unit → LeaseM β} (hgeneration : lease.generation = generation)
    (hk : k.Loaded boot (leaseKey lease.unit) (some lease)) (howned : owned = false → k.clear)
    (h : ∀ k', k'.Under boot (leaseKey lease.unit) → k'.file = some (some lease) → k'.clear →
      SafeUnder units boot (leaseKey lease.unit) k' (f ())) :
    SafeUnder units boot (leaseKey lease.unit) k (restoreOwned generation lease owned >>= f) := by
  unfold restoreOwned
  cases owned with
  | false => exact h k hk.toUnder hk.file (howned rfl)
  | true =>
    refine Safe.bindE (Safe.bindE (safe_quota hk.held (fun _ => hk.toUnder) fun current => ?_))
    dsimp only
    split
    · next heq =>
      obtain rfl := heq
      refine safe_setQuota ⟨hk.boot, hk.held⟩ ⟨hk.held, hk.file, rfl, hgeneration⟩
        (fun _ _ hk => hk) fun k' hk' hfile' hclear => ?_
      exact h k' hk' (hfile'.trans hk.file) (hclear (Or.inr ⟨rfl, lease, hk.file, rfl, trivial⟩))
    · next hne =>
      refine Safe.pureE (h _ ⟨hk.boot, hk.held⟩ hk.file ?_)
      exact Or.inr ⟨lease, hk.file, rfl, fun heq => hne heq.symm⟩

theorem safe_releaseLease {lease : Lease} {generation : Nat}
    (hgeneration : lease.generation = generation)
    (hk : k.Loaded boot (leaseKey lease.unit) (some lease)) :
    SafeUnder units boot (leaseKey lease.unit) k
      (releaseLease boot (leaseKey lease.unit) generation lease) := by
  refine safe_leaseOwned hk fun k₁ owned hk₁ howned => ?_
  refine safe_restoreOwned hgeneration hk₁ howned fun k₂ hk₂ hfile hclear => ?_
  refine SafeUnder.remove hk₂ ⟨hk₂.held, hclear, lease, hfile, hgeneration⟩ fun k₃ hk₃ => ?_
  exact ⟨trivial, fun r _ => ⟨hk₃.boot, hk₃.held⟩⟩

theorem safe_releaseWith {generation : Nat} (hk : k.boot = boot) :
    SafeFree units boot k (releaseWith boot key generation) := by
  refine safe_withLock hk (SafeUnder.load ⟨hk, rfl⟩ fun k' found hloaded hlease => ?_)
  cases found with
  | none => exact SafeUnder.pure hloaded.toUnder
  | some lease =>
    dsimp only
    split
    · exact SafeUnder.pure hloaded.toUnder
    · next hgeneration =>
      obtain ⟨-, rfl⟩ := hlease lease rfl
      exact safe_releaseLease (not_not.mp hgeneration) hloaded

theorem safe_recoverEach (keys : List UInt64) : ∀ {k : LeaseKnow}, k.boot = boot →
    Safe (discipline units) k (recoverEach boot keys) fun _ _ => True := by
  induction keys with
  | nil => exact fun _ => trivial
  | cons key rest ih =>
    intro k hk
    refine ⟨trivial, fun r _ => ?_⟩
    have hboot : (k.learn (.load key) r).boot = boot := by
      cases r with
      | error e => exact hk
      | ok found =>
        dsimp only [LeaseKnow.learn]
        split <;> exact hk
    cases r with
    | error e => exact ih hboot
    | ok found =>
      cases found with
      | none => exact ih hboot
      | some lease =>
        have hrelease : Safe (discipline units) (k.learn (.load key) (.ok (some lease)))
            (do let _ ← (releaseWith boot key lease.generation).run; recoverEach boot rest)
            fun _ _ => True :=
          Safe.bind ((safe_releaseWith hboot).mono fun k' _ hk' => ih hk')
        exact hrelease

theorem safe_recoverWith (hk : k.boot = boot) :
    Safe (discipline units) k (recoverWith boot) fun _ _ => True := by
  refine ⟨trivial, fun r _ => ?_⟩
  cases r with
  | error e => exact trivial
  | ok keys => exact safe_recoverEach keys hk

theorem safe_discard {prog : LeaseM α} (h : SafeFree units boot k prog) :
    Safe (discipline units) k prog.discard fun _ _ => True :=
  Safe.bind (h.mono fun _ _ _ => trivial)

end Programs

/-! ## Every run -/

theorem leaseRules {units : Set String} (hkeys : Set.InjOn leaseKey units) :
    Rules (leaseMachine units) (LeaseKnow.discipline units) LeaseUndisturbed (LeaseWorld.Inv units)
      LeaseKnow.Valid where
  expects := by
    intro w w' i k o r hinv _ hexec
    cases o with
    | load key =>
      rintro lease rfl
      have hfound : some lease = w.visible key := hexec.2 _ rfl
      exact hinv.files key lease (Or.inl hfound.symm)
    | _ => trivial
  inv_exec := inv_exec
  own := own_exec
  others := others_exec
  start := by
    intro w prog i hprog
    refine ⟨{ boot := w.boot }, ?_, ?_⟩
    · exact {
        boot := rfl
        held := fun _ h => nomatch h
        file := fun _ h => nomatch h
        synced := False.elim
        clear := False.elim
        quota := fun _ _ h => nomatch h
        seen := fun _ h => nomatch h }
    · rcases hprog with ⟨call, hin, rfl⟩ | ⟨key, generation, rfl⟩ | rfl
      · exact safe_discard (safe_capPrepared hkeys hin rfl)
      · exact safe_discard (safe_releaseWith rfl)
      · exact safe_recoverWith rfl
  inv_leave := fun i hinv => hinv.congr rfl rfl rfl rfl rfl
  leave := fun hji hv => valid_leave hji hv
  inv_outside := inv_outside
  outside := fun h hv => valid_outside h hv
  inv_reboot := inv_reboot

/-- What a known actor may do is within what a release or a recovery may meet. -/
theorem respects_of_allowed {units : Set String} {w : LeaseWorld} {i : Nat} {k : LeaseKnow}
    {o : LeaseOp} (hv : k.Valid w i) (hallowed : k.Allowed units o) (hmet : LeaseUndisturbed i w o) :
    w.Respects o := by
  cases o with
  | setQuota unit q why =>
    cases why with
    | apply lease => trivial
    | recovered lease =>
      obtain ⟨hheld, hfile, hquota⟩ := hallowed
      exact ⟨hv.visible_eq hheld hfile, (hv.quota unit lease.applied hquota).2 hmet⟩
    | released generation lease =>
      obtain ⟨hheld, hfile, hquota, hgeneration⟩ := hallowed
      exact ⟨hv.visible_eq hheld hfile, hgeneration, (hv.quota unit lease.applied hquota).2 hmet⟩
  | remove key why =>
    cases why with
    | stale => trivial
    | recovered => trivial
    | released generation =>
      obtain ⟨hheld, -, lease, hfile, hgeneration⟩ := hallowed
      exact ⟨lease, hv.visible_eq hheld hfile, hgeneration⟩
  | _ => trivial

def heldName : String := "a.scope"

/-- A unit under no limit, and no lease on file. -/
def bareWorld : LeaseWorld :=
  { boot := "b1"
    scopes := update (fun _ => none) heldName (some { invocation := "i1", quota := 1000000 })
    visible := fun _ => none
    durable := fun _ => none
    locks := fun _ => none
    timers := []
    seenActive := []
    reading := fun _ => none
    owed := fun _ => none }

theorem bareWorld_fresh : bareWorld.Fresh {heldName} where
  files _ _ h := h.elim (fun h => nomatch h) (fun h => nomatch h)
  unlocked _ := rfl
  owed _ := rfl

def heldLease : Lease :=
  { unit := heldName, invocation := "i1", original := 1000000, applied := 500000, generation := 7,
    timer := ⟨leaseKey heldName, 7⟩, bootId := "b1", armed := true, appliedVerified := true,
    expiresAtUnixSecs := 100 }

def heldWorld : LeaseWorld :=
  { boot := "b1"
    scopes := update (fun _ => none) heldName (some { invocation := "i1", quota := 500000 })
    visible := update (fun _ => none) (leaseKey heldName) (some heldLease)
    durable := update (fun _ => none) (leaseKey heldName) (some heldLease)
    locks := fun _ => none
    timers := [heldLease.timer]
    seenActive := []
    reading := fun _ => none
    owed := fun _ => none }

theorem heldWorld_fresh : heldWorld.Fresh {heldName} where
  files key lease h := by
    have hlease : update (fun _ => none) (leaseKey heldName) (some heldLease) key = some lease :=
      h.elim id id
    by_cases hkey : key = leaseKey heldName
    · subst hkey
      rw [update_self] at hlease
      obtain rfl := Option.some.inj hlease
      exact ⟨rfl, rfl⟩
    · rw [update_of_ne hkey] at hlease
      cases hlease
  unlocked _ := rfl
  owed _ := rfl

end DraconGuard
