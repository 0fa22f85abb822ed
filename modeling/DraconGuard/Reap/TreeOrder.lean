import DraconGuard.Reap.ForgottenScanLaw
import DraconGuard.Reap.Terminate

/-!
# In which order a tree is ended

`build_tree` (forgotten.rs:501) gives each member a depth, and `reap_forgotten_orphan_trees` sorts
by it (reap.rs:1160). What is below the root has its depth below the root. A crashpad handler has
the depth of the process that names it, and one: that says nothing about where the handler stands,
and the number on a command line may be any process, one above the root too.

| member | depth |
|---|---|
| the root | 0 |
| below the root | its distance (`BreadthFirst.depth_lt`) |
| **a handler** | **one more than what names it** |
-/

namespace DraconGuard

open Relation (ReflTransGen TransGen)

/-! ## The places of the members -/

/-- Pid and depth. -/
def TreeMember.place (m : TreeMember) : Pid × Nat := (m.pid, m.depth)

section Members

variable {call : ScanCall} {table : ReapTable} {root : ProcEntry}

/-- A fold that adds members adds them behind, each at its place and each once. -/
theorem foldl_adds {f : List TreeMember → Pid × Nat → List TreeMember}
    (hf : ∀ ms item, f ms item = ms ∨
      ∃ m, f ms item = ms ++ [m] ∧ m.place = item ∧ m.pid ∉ ms.map (·.pid))
    (items : List (Pid × Nat)) : ∀ ms, ∃ added, items.foldl f ms = ms ++ added ∧
      (added.map TreeMember.place).Sublist items ∧
        ((ms.map (·.pid)).Nodup → ((ms ++ added).map (·.pid)).Nodup) := by
  induction items with
  | nil => exact fun ms => ⟨[], by simp, List.Sublist.refl _, fun h => by simpa using h⟩
  | cons item items ih =>
    intro ms
    rw [List.foldl_cons]
    rcases hf ms item with hsame | ⟨m, hmore, hplace, hnew⟩
    · obtain ⟨added, hfold, hsub, hnodup⟩ := ih ms
      exact ⟨added, by rw [hsame, hfold], hsub.cons _, hnodup⟩
    · obtain ⟨added, hfold, hsub, hnodup⟩ := ih (ms ++ [m])
      refine ⟨m :: added, by rw [hmore, hfold, List.append_assoc, List.singleton_append], ?_, ?_⟩
      · rw [List.map_cons, hplace]
        exact hsub.cons_cons _
      · intro hms
        have hone : ((ms ++ [m]).map (·.pid)).Nodup := by
          rw [List.map_append, List.map_singleton, List.nodup_append]
          refine ⟨hms, List.nodup_singleton _, ?_⟩
          rintro p hp q hq rfl
          obtain rfl := List.mem_singleton.mp hq
          exact hnew hp
        have hall := hnodup hone
        rwa [List.append_assoc, List.singleton_append] at hall

theorem addDescendant_adds (ms : List TreeMember) (item : Pid × Nat) :
    addDescendant call table root ms item = ms ∨ ∃ m, addDescendant call table root ms item =
      ms ++ [m] ∧ m.place = item ∧ m.pid ∉ ms.map (·.pid) := by
  obtain ⟨pid, depth⟩ := item
  unfold addDescendant
  dsimp only
  cases hget : table.get pid with
  | none => exact Or.inl rfl
  | some entry =>
    have hpid : entry.pid = pid := (ReapTable.get_eq_some_iff.mp hget).2
    dsimp only
    split
    · exact Or.inl rfl
    · next hnew =>
      rw [Bool.or_eq_true, not_or] at hnew
      refine Or.inr ⟨_, rfl, congrArg (·, depth) hpid, fun hmem => hnew.2 ?_⟩
      exact alreadyMember_iff.mpr (hpid ▸ hmem)

theorem addHandler_adds (ms : List TreeMember) (item : Pid × Nat) :
    addHandler call table root ms item = ms ∨ ∃ m, addHandler call table root ms item =
      ms ++ [m] ∧ m.place = item ∧ m.pid ∉ ms.map (·.pid) := by
  obtain ⟨pid, depth⟩ := item
  unfold addHandler
  dsimp only
  split
  · exact Or.inl rfl
  · next hnew =>
    cases hget : table.get pid with
    | none => exact Or.inl rfl
    | some handler =>
      have hpid : handler.pid = pid := (ReapTable.get_eq_some_iff.mp hget).2
      dsimp only
      split
      · exact Or.inl rfl
      split
      · exact Or.inl rfl
      · refine Or.inr ⟨_, rfl, congrArg (·, depth) hpid, fun hmem => hnew ?_⟩
        exact alreadyMember_iff.mpr (hpid ▸ hmem)

/-- **The members in order**: the root, what is below it in the order of the search, the
handlers. -/
theorem treeMembers_eq : ∃ below handlers,
    treeMembers call table root = treeMember call root.pid root 0 "root" :: (below ++ handlers) ∧
      (below.map TreeMember.place).Sublist (table.descendants root.pid) ∧
      (handlers.map TreeMember.place).Sublist (handlerLinks table root.pid) ∧
      ((treeMembers call table root).map (·.pid)).Nodup ∧
      ∀ p, table.Below root.pid p → (∃ e, table.get p = some e ∧ admits call root e = true) →
        p ∉ handlers.map (·.pid) := by
  obtain ⟨below, hbelow, hplaces, hown⟩ := foldl_adds
    (@addDescendant_adds call table root)
    (table.descendants root.pid) [treeMember call root.pid root 0 "root"]
  obtain ⟨handlers, hhandlers, hlinks, hall⟩ := foldl_adds
    (@addHandler_adds call table root)
    (handlerLinks table root.pid) ([treeMember call root.pid root 0 "root"] ++ below)
  have hmembers : treeMembers call table root =
      treeMember call root.pid root 0 "root" :: (below ++ handlers) := by
    unfold treeMembers
    dsimp only
    rw [hbelow, hhandlers, List.append_assoc, List.singleton_append]
  have hnodup := hall (hown (List.nodup_singleton _))
  refine ⟨below, handlers, hmembers, hplaces, hlinks, ?_, ?_⟩
  · rw [hmembers]
    rwa [List.append_assoc, List.singleton_append] at hnodup
  · intro p hp hadmits hmem
    -- it is among the first already
    have hfound : p ∈ ([treeMember call root.pid root 0 "root"] ++ below).map (·.pid) := by
      rw [← hbelow]
      refine (mem_pids_foldl mem_pids_addDescendant _ _).mpr (Or.inr ⟨?_, hadmits⟩)
      exact ReapTable.mem_descendants.mpr hp
    rw [List.map_append, List.nodup_append] at hnodup
    exact hnodup.2.2 p hfound p hmem rfl

/-- Neither the root nor below it. -/
def Outside (table : ReapTable) (root : ProcEntry) (m : TreeMember) : Prop :=
  m.pid ≠ root.pid ∧ ¬ table.Below root.pid m.pid

/-- **Where a member stands**, and what depth it has there. -/
theorem member_cases {m : TreeMember} (hm : m ∈ (buildTree call table root).members) :
    (m.pid = root.pid ∧ m.depth = 0) ∨
      (table.Below root.pid m.pid ∧ m.place ∈ table.descendants root.pid) ∨
      (Outside table root m ∧ 0 < m.depth) := by
  obtain ⟨below, handlers, hmembers, hplaces, hlinks, hnodup, hapart⟩ :=
    @treeMembers_eq call table root
  have hm' : m ∈ treeMembers call table root := hm
  have hadmitted := (@mem_pids_buildTree call table root m.pid).mp
    (List.mem_map_of_mem hm)
  rw [hmembers] at hm' hnodup
  rcases List.mem_cons.mp hm' with rfl | hm'
  · exact Or.inl ⟨rfl, rfl⟩
  rw [List.map_cons, List.nodup_cons] at hnodup
  have hne : m.pid ≠ root.pid := by
    intro heq
    refine hnodup.1 ?_
    show root.pid ∈ _
    rw [← heq]
    exact List.mem_map_of_mem hm'
  rcases List.mem_append.mp hm' with hm' | hm'
  · have hplace := hplaces.subset (List.mem_map_of_mem hm')
    exact Or.inr (Or.inl ⟨ReapTable.mem_descendants.mp (List.mem_map.mpr ⟨_, hplace, rfl⟩), hplace⟩)
  · have hlink := hlinks.subset (List.mem_map_of_mem hm')
    refine Or.inr (Or.inr ⟨⟨hne, fun hbelow => ?_⟩, ?_⟩)
    · refine hapart m.pid hbelow ?_ (List.mem_map_of_mem hm')
      rcases hadmitted with heq | ⟨-, hadmits⟩ | ⟨-, e, he, -, hadmits⟩
      · exact absurd heq hne
      · exact hadmits
      · exact ⟨e, he, hadmits⟩
    · obtain ⟨⟨p, k⟩, -, hnames⟩ := List.mem_filterMap.mp hlink
      simp only [Option.bind_eq_bind, Option.bind_eq_some_iff, Option.pure_def, Option.some.injEq]
        at hnames
      obtain ⟨_, -, handler, -, heq⟩ := hnames
      have hdepth : k + 1 = m.depth := congrArg Prod.snd heq
      omega

theorem nodup_members : ((buildTree call table root).members.map (·.pid)).Nodup := by
  obtain ⟨-, -, -, -, -, hnodup, -⟩ :=
    @treeMembers_eq call table root
  exact hnodup

theorem root_first : ∃ rest, (buildTree call table root).members =
    treeMember call root.pid root 0 "root" :: rest := by
  obtain ⟨below, handlers, hmembers, -⟩ :=
    @treeMembers_eq call table root
  exact ⟨below ++ handlers, hmembers⟩

end Members

/-! ## The order of the signals -/

section Order

variable {α : Type} {l : List α} {a b : α}

/-- Of two elements one comes before the other. -/
theorem pair_sublist_or (ha : a ∈ l) (hb : b ∈ l) (hne : a ≠ b) :
    [a, b].Sublist l ∨ [b, a].Sublist l := by
  induction l with
  | nil => cases ha
  | cons x l ih =>
    rcases List.mem_cons.mp ha with rfl | ha'
    · have hb' := (List.mem_cons.mp hb).resolve_left hne.symm
      exact Or.inl ((List.singleton_sublist.mpr hb').cons_cons a)
    · rcases List.mem_cons.mp hb with rfl | hb'
      · exact Or.inr ((List.singleton_sublist.mpr ha').cons_cons b)
      · exact (ih ha' hb').imp (·.cons x) (·.cons x)

/-- And not both before each other. -/
theorem pair_sublist_asymm (hl : l.Nodup) (h : [a, b].Sublist l) : ¬ [b, a].Sublist l := by
  induction l with
  | nil => cases h
  | cons x l ih =>
    obtain ⟨hx, hl⟩ := List.nodup_cons.mp hl
    intro h'
    have hrest : ∀ {c d}, [c, d].Sublist l → d ∈ l := fun hcd =>
      hcd.subset (List.mem_cons_of_mem _ (List.mem_singleton_self _))
    rcases List.cons_sublist_cons'.mp h with hab | ⟨rfl, hb⟩
    · rcases List.cons_sublist_cons'.mp h' with hba | ⟨rfl, -⟩
      · exact ih hl hab hba
      · exact hx (hrest hab)
    · rcases List.cons_sublist_cons'.mp h' with hba | ⟨rfl, -⟩
      · exact hx (hrest hba)
      · exact hx (List.singleton_sublist.mp hb)

end Order

theorem nodup_of_pids {ms : List TreeMember} (h : (ms.map (·.pid)).Nodup) : ms.Nodup :=
  List.Nodup.of_map _ h

theorem pairwise_deepestFirst (ms : List TreeMember) :
    (deepestFirst ms).Pairwise fun a b => b.depth ≤ a.depth := by
  have hsorted := @List.pairwise_mergeSort _ (fun a b : TreeMember => decide (b.depth ≤ a.depth))
    (fun a b c hab hbc => by simp only [decide_eq_true_eq] at *; omega)
    (fun a b => by simp only [Bool.or_eq_true, decide_eq_true_eq]; omega) ms
  exact hsorted.imp fun h => by simpa using h

/-- **Deepest first**, and at one depth in the order of the tree. -/
theorem pair_deepestFirst_iff {ms : List TreeMember} (hms : ms.Nodup) {a b : TreeMember}
    (ha : a ∈ ms) (hb : b ∈ ms) (hne : a ≠ b) : [a, b].Sublist (deepestFirst ms) ↔
      b.depth < a.depth ∨ a.depth = b.depth ∧ [a, b].Sublist ms := by
  have hperm : (deepestFirst ms).Perm ms := List.mergeSort_perm ms _
  have hnodup : (deepestFirst ms).Nodup := hperm.nodup_iff.mpr hms
  have hdepth : ∀ {c d}, [c, d].Sublist (deepestFirst ms) → d.depth ≤ c.depth := by
    intro c d h
    have hpair := List.Pairwise.sublist h (pairwise_deepestFirst ms)
    simpa using hpair
  have hstable : ∀ {c d}, d.depth ≤ c.depth → [c, d].Sublist ms →
      [c, d].Sublist (deepestFirst ms) := fun hle h =>
    @List.pair_sublist_mergeSort _ (fun a b : TreeMember => decide (b.depth ≤ a.depth)) _ _ _
      (fun a b c hab hbc => by simp only [decide_eq_true_eq] at *; omega)
      (fun a b => by simp only [Bool.or_eq_true, decide_eq_true_eq]; omega) (by simpa using hle) h
  have hboth := pair_sublist_or (hperm.mem_iff.mpr ha) (hperm.mem_iff.mpr hb) hne
  constructor
  · intro h
    rcases Nat.lt_or_eq_of_le (hdepth h) with hlt | heq
    · exact Or.inl hlt
    · refine Or.inr ⟨heq.symm, (pair_sublist_or ha hb hne).resolve_right fun hba => ?_⟩
      exact pair_sublist_asymm hnodup h (hstable heq.ge hba)
  · rintro (hlt | ⟨heq, hab⟩)
    · exact hboth.resolve_right fun hba => absurd (hdepth hba) (Nat.not_le.mpr hlt)
    · exact hstable heq.ge hab

end DraconGuard
