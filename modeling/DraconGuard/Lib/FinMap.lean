import Mathlib.Data.List.AList

/-!
# Finite maps with unique keys

`FinMap α β` is Mathlib's association list with unique keys, used wherever a program keeps
a hash map: the order of `entries` is the (arbitrary) iteration order. Mathlib has
`insert`, `erase` and `lookup`; this file adds the two operations a long-running program
needs besides them, `retain` (drop the entries a predicate rejects) and `orInsert`
(`entry(k).or_insert(v)`), each with its `lookup` equation.
-/

universe u v

/-- A finite map; the key list has no duplicates by construction. -/
abbrev FinMap (α : Type u) (β : Type v) := AList (fun _ : α => β)

namespace FinMap

variable {α : Type u} {β : Type v}

/-- Keep the entries `p` accepts. -/
def retain (p : α → β → Bool) (m : FinMap α β) : FinMap α β :=
  ⟨m.entries.filter fun e => p e.1 e.2, m.nodupKeys.sublist List.filter_sublist⟩

/-- Change every value. -/
def mapValues {γ : Type v} (f : β → γ) (m : FinMap α β) : FinMap α γ :=
  ⟨m.entries.map fun e => ⟨e.1, f e.2⟩, by
    have hkeys : (m.entries.map fun e => (⟨e.1, f e.2⟩ : Sigma fun _ : α => γ)).keys =
        m.entries.keys := by simp [List.keys]
    rw [List.NodupKeys, hkeys]
    exact m.nodupKeys⟩

variable [DecidableEq α]

/-- `entry(a).or_insert(b)`: keep what is there, else insert `b`. -/
def orInsert (a : α) (b : β) (m : FinMap α β) : FinMap α β :=
  if a ∈ m then m else m.insert a b

theorem mem_iff_lookup {m : FinMap α β} {a : α} : a ∈ m ↔ ∃ b, m.lookup a = some b := by
  rw [← AList.lookup_isSome, Option.isSome_iff_exists]

theorem lookup_insert_eq {m : FinMap α β} (a a' : α) (b : β) :
    (m.insert a b).lookup a' = if a' = a then some b else m.lookup a' := by
  by_cases h : a' = a
  · subst h; simp
  · simp [h, AList.lookup_insert_ne h]

theorem lookup_erase_eq {m : FinMap α β} (a a' : α) :
    (m.erase a).lookup a' = if a' = a then none else m.lookup a' := by
  by_cases h : a' = a
  · subst h; simp
  · simp [h, AList.lookup_erase_ne h]

/-- Counts by key, zero where there is none. -/
theorem count_insert {m : FinMap α Nat} (a a' : α) (n : Nat) :
    ((m.insert a n).lookup a').getD 0 = if a' = a then n else (m.lookup a').getD 0 := by
  rw [lookup_insert_eq]
  split <;> rfl

theorem count_erase_le {m : FinMap α Nat} (a a' : α) :
    ((m.erase a).lookup a').getD 0 ≤ (m.lookup a').getD 0 := by
  rw [lookup_erase_eq]
  split
  · exact Nat.zero_le _
  · exact Nat.le_refl _

theorem lookup_retain (p : α → β → Bool) (m : FinMap α β) (a : α) :
    (m.retain p).lookup a = (m.lookup a).filter (p a) := by
  apply Option.ext
  intro b
  change b ∈ (m.retain p).lookup a ↔ _
  rw [AList.mem_lookup_iff, Option.filter_eq_some_iff]
  change (⟨a, b⟩ : Sigma fun _ : α => β) ∈ m.entries.filter _ ↔ _
  rw [List.mem_filter]
  exact and_congr_left fun _ => AList.mem_lookup_iff.symm

theorem lookup_retain_some {p : α → β → Bool} {m : FinMap α β} {a : α} {b : β} :
    (m.retain p).lookup a = some b ↔ m.lookup a = some b ∧ p a b = true := by
  rw [lookup_retain, Option.filter_eq_some_iff]

theorem lookup_mapValues {γ : Type v} (f : β → γ) (m : FinMap α β) (a : α) :
    (m.mapValues f).lookup a = (m.lookup a).map f := by
  apply Option.ext
  intro c
  rw [Option.map_eq_some_iff]
  change c ∈ (m.mapValues f).lookup a ↔ _
  rw [AList.mem_lookup_iff]
  simp only [mapValues, List.mem_map, Sigma.mk.injEq, heq_eq_eq]
  constructor
  · rintro ⟨⟨a', b⟩, hb, rfl, rfl⟩
    exact ⟨b, AList.mem_lookup_iff.2 hb, rfl⟩
  · rintro ⟨b, hb, rfl⟩
    exact ⟨⟨a, b⟩, AList.mem_lookup_iff.1 hb, rfl, rfl⟩

theorem lookup_orInsert (m : FinMap α β) (a a' : α) (b : β) :
    (m.orInsert a b).lookup a' =
      if a' = a then some ((m.lookup a).getD b) else m.lookup a' := by
  unfold orInsert
  split
  · rename_i h
    obtain ⟨c, hc⟩ := mem_iff_lookup.1 h
    by_cases he : a' = a
    · subst he; simp [hc]
    · simp [he]
  · rename_i h
    rw [lookup_insert_eq, AList.lookup_eq_none.2 h]
    simp

/-- A key of the map is a key of its entries, with its value. -/
theorem mem_entries_iff {m : FinMap α β} {a : α} {b : β} :
    (⟨a, b⟩ : Sigma fun _ : α => β) ∈ m.entries ↔ m.lookup a = some b :=
  AList.mem_lookup_iff.symm

end FinMap
