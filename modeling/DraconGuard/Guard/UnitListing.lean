import DraconGuard.Guard.ServiceGrowth
import DraconGuard.Lib.Stanzas
import DraconGuard.Lib.Text

/-!
# What `systemctl show` lists

One block of `key=value` lines for each unit, with an empty line between two blocks. The guard takes
six properties of each.

| here | there |
| --- | --- |
| `parseServiceTarget` | `Target::parse` (service_growth.rs:40) |
| `unitOf` | a block at its end (service_growth.rs:394-412) |
| `addProperty` | one line of a block (service_growth.rs:417-420) |
| `parseUnits` | `parse_units` (service_growth.rs:384) |

`parseUnits_eq_ok_iff` says which texts are read, and as what.
-/

namespace DraconGuard

open Lines (stanzas stanzaStep readStanza)

/-! ## Targets -/

/-- The characters a unit's name may have. -/
def isUnitChar (c : Char) : Bool := c.isAlphanum || c ∈ "_-.@:\\".toList

def ServiceManager.text : ServiceManager → String
  | .system => "system"
  | .user => "user"

/-- `Target::parse` (service_growth.rs:40). -/
def parseServiceTarget (text : String) : Option ServiceTarget :=
  if ':' ∈ text.toList then
    let scope := text.toList.takeWhile (· ≠ ':')
    let unit := (text.toList.dropWhile (· ≠ ':')).drop 1
    let manager := if scope = "system".toList then some ServiceManager.system
      else if scope = "user".toList then some ServiceManager.user
      else none
    manager.bind fun manager =>
      if 255 < (String.ofList unit).utf8ByteSize || unit.head? = some '-'
        || !(".service".toList.isSuffixOf unit) || !unit.all isUnitChar then none
      else some { manager := manager, unit := String.ofList unit }
  else none

theorem split_at_first {c : Char} {l : List Char} (h : c ∈ l) :
    l = l.takeWhile (· ≠ c) ++ c :: (l.dropWhile (· ≠ c)).drop 1 := by
  induction l with
  | nil => cases h
  | cons x xs ih =>
    by_cases hx : x = c
    · simp [hx]
    · have hrest := ih ((List.mem_cons.mp h).resolve_left (Ne.symm hx))
      simpa [hx] using hrest

/-- A target has the name it is read from. -/
theorem parseServiceTarget_text {name : String} {target : ServiceTarget}
    (h : parseServiceTarget name = some target) :
    target.manager.text ++ ":" ++ target.unit = name := by
  unfold parseServiceTarget at h
  split at h
  swap
  · cases h
  next hcolon =>
  simp only [Option.bind_eq_some_iff] at h
  obtain ⟨manager, hmanager, h⟩ := h
  split at h
  · cases h
  obtain rfl := Option.some.inj h
  have hscope : manager.text.toList = name.toList.takeWhile (· ≠ ':') := by
    split at hmanager
    · next hs => rw [hs, ← Option.some.inj hmanager]; rfl
    split at hmanager
    · next hs => rw [hs, ← Option.some.inj hmanager]; rfl
    · cases hmanager
  apply String.toList_inj.mp
  have hsplit := split_at_first hcolon
  simp only [String.toList_append, hscope, String.toList_ofList, List.append_assoc]
  exact hsplit.symm

/-! ## The listing -/

/-- `Unit`. -/
structure ServiceUnit where
  id : String
  invocation : String
  group : String
  pid : Pid
  load : String
  active : String
deriving DecidableEq

/-- `MAX_OUTPUT`. -/
def maxOutput : Nat := 64 * 1024

/-- The properties of a block. -/
abbrev UnitFields := FinMap String String

def getField (fields : UnitFields) (key : String) : Except String String :=
  (fields.lookup key).elim (.error ("missing " ++ key)) .ok

def unitOf (fields : UnitFields) : Except String ServiceUnit := do
  let id ← getField fields "Id"
  let invocation ← getField fields "InvocationID"
  let group ← getField fields "ControlGroup"
  let pid ← getField fields "MainPID"
  let pid ← (Text.parseI32 pid.toList).elim (.error "invalid MainPID") .ok
  let load ← getField fields "LoadState"
  let active ← getField fields "ActiveState"
  pure { id := id, invocation := invocation, group := group, pid := pid, load := load,
         active := active }

/-- A block is done. -/
def closeUnit (result : FinMap String ServiceUnit) (fields : UnitFields) :
    Except String (FinMap String ServiceUnit) := do
  let unit ← unitOf fields
  if maxTargets ≤ result.entries.length ∨ unit.id ∈ result then
    .error "duplicate/too many unit identities"
  else pure (result.insert unit.id unit)

/-- `split_once('=')`, in front. -/
def keyOf (line : List Char) : String := String.ofList (line.takeWhile (· ≠ '='))

/-- `split_once('=')`, behind. -/
def valueOf (line : List Char) : String := String.ofList ((line.dropWhile (· ≠ '=')).drop 1)

def addProperty (fields : UnitFields) (line : List Char) : Except String UnitFields :=
  if '=' ∉ line then .error "malformed manager property"
  else if keyOf line ∈ fields then .error "duplicate manager property"
  else .ok (fields.insert (keyOf line) (valueOf line))

/-- `parse_units` (service_growth.rs:384). -/
def parseUnits (text : String) : Except String (FinMap String ServiceUnit) :=
  if maxOutput < text.utf8ByteSize then .error "manager output limit exceeded"
  else
    ((Text.lines text ++ [[]]).foldlM
      (stanzaStep [] addProperty closeUnit (fun fields => fields.entries.isEmpty) ∅)
      ((∅, ∅) : FinMap String ServiceUnit × UnitFields)).map Prod.fst

/-! ## What a block says -/

/-- What the lines of a block say of a property. -/
def property (block : List (List Char)) (key : String) : Option String :=
  (block.find? fun line => keyOf line = key).map valueOf

/-- A block tells of a unit. -/
structure Describes (block : List (List Char)) (u : ServiceUnit) : Prop where
  lines : ∀ line ∈ block, '=' ∈ line
  keys : (block.map keyOf).Nodup
  id : property block "Id" = some u.id
  invocation : property block "InvocationID" = some u.invocation
  group : property block "ControlGroup" = some u.group
  pid : (property block "MainPID").bind (fun text => Text.parseI32 text.toList) = some u.pid
  load : property block "LoadState" = some u.load
  active : property block "ActiveState" = some u.active

theorem property_cons (line : List Char) (block : List (List Char)) (key : String) :
    property (line :: block) key =
      if keyOf line = key then some (valueOf line) else property block key := by
  unfold property
  by_cases h : keyOf line = key
  · rw [List.find?_cons_of_pos (by simpa using h), if_pos h]
    rfl
  · rw [List.find?_cons_of_neg (by simpa using h), if_neg h]

theorem property_eq_none {block : List (List Char)} {key : String} (h : key ∉ block.map keyOf) :
    property block key = none := by
  unfold property
  rw [Option.map_eq_none_iff, List.find?_eq_none]
  intro line hline hkey
  exact h (List.mem_map.mpr ⟨line, hline, of_decide_eq_true hkey⟩)

/-- The properties a block adds to what is there. -/
theorem foldlM_addProperty_iff {block : List (List Char)} {before fields : UnitFields} :
    block.foldlM addProperty before = .ok fields ↔
      (∀ line ∈ block, '=' ∈ line) ∧ (block.map keyOf).Nodup ∧
        (∀ line ∈ block, keyOf line ∉ before) ∧
          fields = block.foldl (fun m line => m.insert (keyOf line) (valueOf line)) before := by
  induction block generalizing before with
  | nil => simp [pure, Except.pure, eq_comm]
  | cons line block ih =>
    rw [List.foldlM_cons, addProperty]
    by_cases hline : '=' ∈ line
    · rw [if_neg (not_not.mpr hline)]
      by_cases hkey : keyOf line ∈ before
      · rw [if_pos hkey]
        simp [bind, Except.bind, hkey]
      · rw [if_neg hkey]
        show block.foldlM addProperty _ = _ ↔ _
        rw [ih]
        simp only [List.mem_cons, forall_eq_or_imp, List.map_cons, List.nodup_cons, List.mem_map,
          AList.mem_insert, List.foldl_cons]
        constructor
        · rintro ⟨hlines, hnodup, hnew, hfields⟩
          refine ⟨⟨hline, hlines⟩, ⟨?_, hnodup⟩, ⟨hkey, ?_⟩, hfields⟩
          · rintro ⟨other, hother, hsame⟩
            exact hnew other hother (Or.inl hsame)
          · exact fun other hother hin => hnew other hother (Or.inr hin)
        · rintro ⟨⟨-, hlines⟩, ⟨hfirst, hnodup⟩, ⟨-, hnew⟩, hfields⟩
          refine ⟨hlines, hnodup, fun other hother hin => ?_, hfields⟩
          rcases hin with hsame | hin
          · exact hfirst ⟨other, hother, hsame⟩
          · exact hnew other hother hin
    · rw [if_pos hline]
      simp [bind, Except.bind, hline]

/-- A property of a block is what its line says. -/
theorem lookup_foldl_insert {block : List (List Char)} (h : (block.map keyOf).Nodup)
    (before : UnitFields) (key : String) :
    (block.foldl (fun m line => m.insert (keyOf line) (valueOf line)) before).lookup key =
      (property block key).or (before.lookup key) := by
  induction block generalizing before with
  | nil => simp [property]
  | cons line block ih =>
    rw [List.map_cons, List.nodup_cons] at h
    rw [List.foldl_cons, ih h.2, FinMap.lookup_insert_eq, property_cons]
    by_cases hkey : keyOf line = key
    · rw [if_pos hkey, if_pos hkey.symm, property_eq_none (hkey ▸ h.1)]
      rfl
    · rw [if_neg hkey, if_neg (Ne.symm hkey)]

theorem getField_eq_ok {fields : UnitFields} {key value : String} :
    getField fields key = .ok value ↔ fields.lookup key = some value := by
  unfold getField
  cases fields.lookup key <;> simp [Option.elim]

theorem okBind_iff {α β ε : Type} {x : Except ε α} {f : α → Except ε β} {b : β} :
    (x >>= f) = .ok b ↔ ∃ a, x = .ok a ∧ f a = .ok b := by
  cases x <;> simp [bind, Except.bind]

theorem unitOf_eq_ok {fields : UnitFields} {u : ServiceUnit} : unitOf fields = .ok u ↔
    fields.lookup "Id" = some u.id ∧ fields.lookup "InvocationID" = some u.invocation ∧
      fields.lookup "ControlGroup" = some u.group ∧
      (fields.lookup "MainPID").bind (fun text => Text.parseI32 text.toList) = some u.pid ∧
      fields.lookup "LoadState" = some u.load ∧ fields.lookup "ActiveState" = some u.active := by
  have hpid (text : String) (pid : Pid) :
      ((Text.parseI32 text.toList).elim (.error "invalid MainPID") .ok : Except String Pid) =
        .ok pid ↔ Text.parseI32 text.toList = some pid := by
    cases Text.parseI32 text.toList <;> simp [Option.elim]
  simp only [unitOf, okBind_iff, getField_eq_ok, hpid, pure, Except.pure, Except.ok.injEq,
    Option.bind_eq_some_iff]
  constructor
  · rintro ⟨id, hid, inv, hinv, group, hgroup, text, htext, pid, hpid, load, hload, active, hactive,
      rfl⟩
    exact ⟨hid, hinv, hgroup, ⟨text, htext, hpid⟩, hload, hactive⟩
  · rintro ⟨hid, hinv, hgroup, ⟨text, htext, hpid⟩, hload, hactive⟩
    exact ⟨u.id, hid, u.invocation, hinv, u.group, hgroup, text, htext, u.pid, hpid, u.load, hload,
      u.active, hactive, rfl⟩

/-- **A block is read as what it says**, and no other block is read. -/
theorem readBlock_iff {block : List (List Char)} {u : ServiceUnit} :
    (block.foldlM addProperty (∅ : UnitFields) >>= unitOf) = .ok u ↔ Describes block u := by
  simp only [okBind_iff, foldlM_addProperty_iff, unitOf_eq_ok]
  constructor
  · rintro ⟨fields, ⟨hlines, hkeys, -, rfl⟩, hunit⟩
    simp only [lookup_foldl_insert hkeys, AList.lookup_empty, Option.or_none] at hunit
    obtain ⟨hid, hinv, hgroup, hpid, hload, hactive⟩ := hunit
    exact ⟨hlines, hkeys, hid, hinv, hgroup, hpid, hload, hactive⟩
  · intro h
    refine ⟨_, ⟨h.lines, h.keys, fun line _ => AList.notMem_empty _, rfl⟩, ?_⟩
    simp only [lookup_foldl_insert h.keys, AList.lookup_empty, Option.or_none]
    exact ⟨h.id, h.invocation, h.group, h.pid, h.load, h.active⟩

/-! ## What a listing says -/

/-- The units of a listing, by their names. -/
def unitMap (units : List ServiceUnit) (before : FinMap String ServiceUnit) :
    FinMap String ServiceUnit := units.foldl (fun m u => m.insert u.id u) before

theorem closeUnit_eq_ok {result result' : FinMap String ServiceUnit} {fields : UnitFields} :
    closeUnit result fields = .ok result' ↔ ∃ u, unitOf fields = .ok u ∧
      result.entries.length < maxTargets ∧ u.id ∉ result ∧ result' = result.insert u.id u := by
  unfold closeUnit
  rw [okBind_iff]
  refine exists_congr fun u => and_congr_right fun _ => ?_
  by_cases h : maxTargets ≤ result.entries.length ∨ u.id ∈ result
  · rw [if_pos h]
    constructor
    · intro hok
      cases hok
    · rintro ⟨hlen, hnew, -⟩
      rcases h with h | h
      · omega
      · exact absurd h hnew
  · rw [if_neg h]
    obtain ⟨hlen, hnew⟩ := not_or.mp h
    simp [pure, Except.pure, hnew, Nat.lt_of_not_le hlen, eq_comm]

theorem readStanza_eq_ok {result result' : FinMap String ServiceUnit} {block : List (List Char)} :
    readStanza addProperty closeUnit ∅ result block = .ok result' ↔ ∃ u, Describes block u ∧
      result.entries.length < maxTargets ∧ u.id ∉ result ∧ result' = result.insert u.id u := by
  unfold readStanza
  simp only [okBind_iff, closeUnit_eq_ok, ← readBlock_iff]
  constructor
  · rintro ⟨fields, hfields, u, hu, hrest⟩
    exact ⟨u, ⟨fields, hfields, hu⟩, hrest⟩
  · rintro ⟨u, ⟨fields, hfields, hu⟩, hrest⟩
    exact ⟨fields, hfields, u, hu, hrest⟩

/-- Block after block. -/
theorem foldlM_readStanza_iff {blocks : List (List (List Char))}
    {result m : FinMap String ServiceUnit} (hlen : result.entries.length ≤ maxTargets) :
    blocks.foldlM (readStanza addProperty closeUnit ∅) result = .ok m ↔
      ∃ units, List.Forall₂ Describes blocks units ∧ (units.map (·.id)).Nodup ∧
        (∀ u ∈ units, u.id ∉ result) ∧ result.entries.length + units.length ≤ maxTargets ∧
          m = unitMap units result := by
  induction blocks generalizing result with
  | nil =>
    constructor
    · intro h
      obtain rfl : result = m := Except.ok.inj h
      exact ⟨[], .nil, List.nodup_nil, by simp, by simpa using hlen, rfl⟩
    · rintro ⟨units, hunits, -, -, -, rfl⟩
      cases hunits
      rfl
  | cons block blocks ih =>
    rw [List.foldlM_cons, okBind_iff]
    constructor
    · rintro ⟨result', hblock, hrest⟩
      obtain ⟨u, hu, hroom, hnew, rfl⟩ := readStanza_eq_ok.mp hblock
      have hentries := congrArg List.length (AList.entries_insert_of_notMem hnew (b := u))
      rw [List.length_cons] at hentries
      obtain ⟨units, hunits, hnodup, hothers, hcount, rfl⟩ := (ih (by omega)).mp hrest
      refine ⟨u :: units, .cons hu hunits, ?_, ?_, by simp only [List.length_cons]; omega, rfl⟩
      · refine List.nodup_cons.mpr ⟨fun hin => ?_, hnodup⟩
        obtain ⟨v, hv, hsame⟩ := List.mem_map.mp hin
        exact hothers v hv (AList.mem_insert _ |>.mpr (Or.inl hsame))
      · intro v hv
        rcases List.mem_cons.mp hv with rfl | hv
        · exact hnew
        · exact fun hin => hothers v hv (AList.mem_insert _ |>.mpr (Or.inr hin))
    · rintro ⟨units, hunits, hnodup, hothers, hcount, rfl⟩
      cases hunits with
      | @cons _ u _ units hu hunits =>
        rw [List.map_cons, List.nodup_cons] at hnodup
        rw [List.length_cons] at hcount
        have hnew := hothers u List.mem_cons_self
        have hentries := congrArg List.length (AList.entries_insert_of_notMem hnew (b := u))
        rw [List.length_cons] at hentries
        refine ⟨_, readStanza_eq_ok.mpr ⟨u, hu, by omega, hnew, rfl⟩, (ih (by omega)).mpr
          ⟨units, hunits, hnodup.2, fun v hv hin => ?_, by omega, rfl⟩⟩
        rcases AList.mem_insert _ |>.mp hin with hsame | hin
        · exact hnodup.1 (List.mem_map.mpr ⟨v, hv, hsame⟩)
        · exact hothers v (List.mem_cons_of_mem u hv) hin

/-- **Which listings are read, and as what.** Every block tells of a unit, no two of the same, of no
more than are asked for; and what is read are these. -/
theorem parseUnits_eq_ok_iff (text : String) (m : FinMap String ServiceUnit) :
    parseUnits text = .ok m ↔ text.utf8ByteSize ≤ maxOutput ∧
      ∃ units, List.Forall₂ Describes (stanzas [] (Text.lines text)) units ∧
        (units.map (·.id)).Nodup ∧ units.length ≤ maxTargets ∧ m = unitMap units ∅ := by
  have hadd : ∀ (fields : UnitFields) line fields', addProperty fields line = .ok fields' →
      fields'.entries.isEmpty = false := by
    intro fields line fields' h
    unfold addProperty at h
    split at h
    · cases h
    split at h
    · cases h
    next hnew =>
      obtain rfl := Except.ok.inj h
      rw [AList.entries_insert_of_notMem hnew]
      rfl
  unfold parseUnits
  by_cases hsize : maxOutput < text.utf8ByteSize
  · rw [if_pos hsize]
    constructor
    · intro h
      cases h
    · rintro ⟨hle, -⟩
      omega
  · rw [if_neg hsize, Lines.foldlM_stanzas rfl hadd, foldlM_readStanza_iff (Nat.zero_le _)]
    constructor
    · rintro ⟨units, hunits, hnodup, -, hcount, hm⟩
      exact ⟨Nat.le_of_not_lt hsize, units, hunits, hnodup, by simpa using hcount, hm⟩
    · rintro ⟨-, units, hunits, hnodup, hcount, hm⟩
      exact ⟨units, hunits, hnodup, fun u _ => AList.notMem_empty _, by simpa using hcount, hm⟩

end DraconGuard
