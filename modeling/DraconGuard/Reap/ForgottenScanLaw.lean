import DraconGuard.Reap.ForgottenScan

/-!
# What the scan for forgotten trees keeps apart

A tree is the root, what is below it, and the crashpad handlers that the processes below it name.
What is below two roots is below the lower of them; a handler belongs to nobody's branch, and any
process may name any pid. The scan keeps the pids of the trees it has weighed and takes none of
them for a root, but it does not look at them again when it collects the members of the next tree.
**`treesDisjoint_iff`**: the trees of a report are disjoint exactly when nothing crosses from one
to another. `stolen_handler_shared` is a table in which something does.
-/

namespace DraconGuard

open Relation (ReflTransGen)

namespace ReapTable

variable {t : ReapTable} {pid : Pid} {e : ProcEntry}

theorem get_eq_some_iff : t.get pid = some e ↔ e ∈ t.entries ∧ e.pid = pid := by
  unfold get
  constructor
  · intro h
    exact ⟨List.mem_of_find?_eq_some h, by simpa using List.find?_some h⟩
  · rintro ⟨hmem, hpid⟩
    cases hfound : t.entries.find? (·.pid = pid) with
    | none =>
      rw [List.find?_eq_none] at hfound
      exact absurd hpid (by simpa using hfound e hmem)
    | some e' =>
      have hpid' : e'.pid = pid := by simpa using List.find?_some hfound
      have hsame : e' = e := by
        refine List.inj_on_of_nodup_map t.nodup (List.mem_of_find?_eq_some hfound) hmem ?_
        rw [hpid', hpid]
      rw [hsame]

theorem mem_children {p a : Pid} : p ∈ t.children a ↔ ∃ e ∈ t.entries, e.ppid = a ∧ e.pid = p := by
  simp [children, and_assoc]

theorem nodup_children (a : Pid) : (t.children a).Nodup :=
  t.nodup.sublist (List.filter_sublist.map _)

theorem children_subset (a : Pid) : t.children a ⊆ t.entries.map (·.pid) := by
  intro p hp
  obtain ⟨e, he, -, rfl⟩ := mem_children.mp hp
  exact List.mem_map.mpr ⟨e, he, rfl⟩

/-- A pid has one parent. -/
theorem parent_unique {a b p : Pid} (ha : p ∈ t.children a) (hb : p ∈ t.children b) : a = b := by
  obtain ⟨e, he, rfl, hpid⟩ := mem_children.mp ha
  obtain ⟨e', he', rfl, hpid'⟩ := mem_children.mp hb
  rw [List.inj_on_of_nodup_map t.nodup he he' (hpid.trans hpid'.symm)]

/-- `p` is below `root`. -/
def Below (t : ReapTable) (root p : Pid) : Prop :=
  p ≠ root ∧ ReflTransGen (BreadthFirst.Edge t.children) root p

theorem mem_descendants {root p : Pid} : p ∈ (t.descendants root).map Prod.fst ↔ t.Below root p :=
  BreadthFirst.mem_descendants_iff nodup_children children_subset (by simp)

/-- Two roots above one process are one above the other. -/
theorem Below.nested {r₁ r₂ p : Pid} (h₁ : t.Below r₁ p) (h₂ : t.Below r₂ p) (hne : r₁ ≠ r₂) :
    t.Below r₁ r₂ ∨ t.Below r₂ r₁ := by
  have hunique : Relator.RightUnique (Function.swap (BreadthFirst.Edge t.children)) :=
    fun _ _ _ ha hb => parent_unique ha hb
  rcases ReflTransGen.total_of_right_unique hunique h₁.2.swap h₂.2.swap with h | h
  · exact Or.inr ⟨hne, by simpa using h.swap⟩
  · exact Or.inl ⟨hne.symm, by simpa using h.swap⟩

end ReapTable

/-! ## The members of a tree -/

section Scan

variable (call : ScanCall) (table : ReapTable)

/-- Below the root, and admitted to its tree. -/
def Owns (root : ProcEntry) (p : Pid) : Prop :=
  table.Below root.pid p ∧ ∃ e, table.get p = some e ∧ admits call root e = true

/-- Named as a handler from below the root, an orphan, and admitted to its tree. -/
def Handles (root : ProcEntry) (p : Pid) : Prop :=
  (∃ d e, table.Below root.pid d ∧ table.get d = some e ∧ crashpadHandlerPid e.args = some p) ∧
    ∃ e, table.get p = some e ∧
      parentCommIsSystemd (call.look (.handlerParent root.pid p)) e.ppid = true ∧
        admits call root e = true

variable {call table}

theorem mem_handlerLinks {root p : Pid} : p ∈ (handlerLinks table root).map Prod.fst ↔
    ∃ d e, table.Below root d ∧ table.get d = some e ∧ crashpadHandlerPid e.args = some p := by
  unfold handlerLinks
  constructor
  · intro h
    obtain ⟨⟨q, depth⟩, hlink, rfl⟩ := List.mem_map.mp h
    obtain ⟨⟨d, k⟩, hd, hnames⟩ := List.mem_filterMap.mp hlink
    simp only [Option.bind_eq_bind, Option.bind_eq_some_iff, Option.pure_def, Option.some.injEq,
      Prod.mk.injEq] at hnames
    obtain ⟨e, he, handler, hhandler, rfl, -⟩ := hnames
    exact ⟨d, e, ReapTable.mem_descendants.mp (List.mem_map.mpr ⟨(d, k), hd, rfl⟩), he, hhandler⟩
  · rintro ⟨d, e, hbelow, he, hhandler⟩
    obtain ⟨⟨d', k⟩, hd, rfl⟩ := List.mem_map.mp (ReapTable.mem_descendants.mpr hbelow)
    refine List.mem_map.mpr ⟨(p, k + 1), List.mem_filterMap.mpr ⟨(d', k), hd, ?_⟩, rfl⟩
    simp [he, hhandler]

/-- A fold that adds members adds what its steps add. -/
theorem mem_pids_foldl {f : List TreeMember → Pid × Nat → List TreeMember} {q : Pid} {c : Prop}
    (hf : ∀ ms item, q ∈ (f ms item).map (·.pid) ↔ q ∈ ms.map (·.pid) ∨ item.1 = q ∧ c)
    (items : List (Pid × Nat)) : ∀ ms, q ∈ (items.foldl f ms).map (·.pid) ↔
      q ∈ ms.map (·.pid) ∨ q ∈ items.map Prod.fst ∧ c := by
  induction items with
  | nil => simp
  | cons item items ih =>
    intro ms
    rw [List.foldl_cons, ih, hf, List.map_cons, List.mem_cons]
    constructor
    · rintro ((h | ⟨rfl, h⟩) | ⟨hin, h⟩)
      · exact Or.inl h
      · exact Or.inr ⟨Or.inl rfl, h⟩
      · exact Or.inr ⟨Or.inr hin, h⟩
    · rintro (h | ⟨rfl | hin, h⟩)
      · exact Or.inl (Or.inl h)
      · exact Or.inl (Or.inr ⟨rfl, h⟩)
      · exact Or.inr ⟨hin, h⟩

theorem alreadyMember_iff {ms : List TreeMember} {pid : Pid} :
    alreadyMember ms pid = true ↔ pid ∈ ms.map (·.pid) := by
  simp [alreadyMember]

theorem mem_pids_addDescendant {root : ProcEntry} {q : Pid} (ms : List TreeMember)
    (item : Pid × Nat) : q ∈ (addDescendant call table root ms item).map (·.pid) ↔
      q ∈ ms.map (·.pid) ∨ item.1 = q ∧ ∃ e, table.get q = some e ∧ admits call root e = true := by
  obtain ⟨pid, depth⟩ := item
  unfold addDescendant
  dsimp only
  cases hget : table.get pid with
  | none =>
    refine ⟨Or.inl, fun h => h.resolve_right ?_⟩
    rintro ⟨rfl, e, he, -⟩
    cases hget.symm.trans he
  | some entry =>
    have hpid : entry.pid = pid := (ReapTable.get_eq_some_iff.mp hget).2
    dsimp only
    split
    · next hskip =>
      refine ⟨Or.inl, fun h => h.elim id ?_⟩
      rintro ⟨rfl, e, he, hadmits⟩
      obtain rfl := Option.some.inj (hget.symm.trans he)
      rw [hadmits, Bool.not_true, Bool.false_or] at hskip
      exact alreadyMember_iff.mp hskip
    · next hnew =>
      rw [Bool.or_eq_true, not_or, Bool.not_eq_true', Bool.not_eq_false] at hnew
      rw [List.map_append, List.mem_append]
      refine or_congr_right ?_
      rw [List.map_singleton, List.mem_singleton]
      constructor
      · intro heq
        obtain rfl : q = pid := heq.trans hpid
        exact ⟨rfl, entry, hget, hnew.1⟩
      · rintro ⟨rfl, -⟩
        exact hpid.symm

theorem mem_pids_addHandler {root : ProcEntry} {q : Pid} (ms : List TreeMember)
    (item : Pid × Nat) : q ∈ (addHandler call table root ms item).map (·.pid) ↔
      q ∈ ms.map (·.pid) ∨ item.1 = q ∧ ∃ e, table.get q = some e ∧
        parentCommIsSystemd (call.look (.handlerParent root.pid q)) e.ppid = true ∧
          admits call root e = true := by
  obtain ⟨pid, depth⟩ := item
  unfold addHandler
  dsimp only
  split
  · next hmember =>
    refine ⟨Or.inl, fun h => h.elim id ?_⟩
    rintro ⟨rfl, -⟩
    exact alreadyMember_iff.mp hmember
  · cases hget : table.get pid with
    | none =>
      refine ⟨Or.inl, fun h => h.resolve_right ?_⟩
      rintro ⟨rfl, e, he, -⟩
      cases hget.symm.trans he
    | some handler =>
      have hpid : handler.pid = pid := (ReapTable.get_eq_some_iff.mp hget).2
      dsimp only
      split
      · next halive =>
        refine ⟨Or.inl, fun h => h.resolve_right ?_⟩
        rintro ⟨rfl, e, he, horphan, -⟩
        obtain rfl := Option.some.inj (hget.symm.trans he)
        rw [horphan] at halive
        cases halive
      · next horphan =>
        split
        · next hexempt =>
          refine ⟨Or.inl, fun h => h.resolve_right ?_⟩
          rintro ⟨rfl, e, he, -, hadmits⟩
          obtain rfl := Option.some.inj (hget.symm.trans he)
          rw [hadmits] at hexempt
          cases hexempt
        · next hadmits =>
          rw [List.map_append, List.mem_append]
          refine or_congr_right ?_
          rw [List.map_singleton, List.mem_singleton]
          constructor
          · intro heq
            obtain rfl : q = pid := heq.trans hpid
            exact ⟨rfl, handler, hget, by simpa using horphan, by simpa using hadmits⟩
          · rintro ⟨rfl, -⟩
            exact hpid.symm

/-- **The members of a tree.** -/
theorem mem_pids_buildTree {root : ProcEntry} {p : Pid} :
    p ∈ (buildTree call table root).members.map (·.pid) ↔
      p = root.pid ∨ Owns call table root p ∨ Handles call table root p := by
  unfold buildTree treeMembers Owns Handles
  dsimp only
  rw [mem_pids_foldl mem_pids_addHandler, mem_pids_foldl mem_pids_addDescendant,
    ReapTable.mem_descendants, mem_handlerLinks, List.map_singleton, List.mem_singleton, or_assoc]
  rfl

/-! ## The trees of one scan -/

theorem weighRoot_eq_some {root : ProcEntry} {t : WeighedTree}
    (h : weighRoot call table root = some t) :
    t.root = root ∧ t.tree = buildTree call table root := by
  unfold weighRoot at h
  dsimp only at h
  split at h
  · cases h
  · obtain rfl := Option.some.inj h
    exact ⟨rfl, rfl⟩
  · obtain rfl := Option.some.inj h
    exact ⟨rfl, rfl⟩

theorem mem_pids {t : WeighedTree} {p : Pid} (ht : weighRoot call table t.root = some t) :
    p ∈ t.pids ↔ p = t.root.pid ∨ Owns call table t.root p ∨ Handles call table t.root p := by
  unfold WeighedTree.pids
  rw [(weighRoot_eq_some ht).2]
  exact mem_pids_buildTree

/-- **No root has been claimed**: each tree that is weighed is the tree of its root, and its root
is in no tree before it. -/
theorem weighRoots_spec (roots : List ProcEntry) : ∀ claimed : List Pid,
    (∀ t ∈ weighRoots call table claimed roots,
      weighRoot call table t.root = some t ∧ t.root ∈ roots ∧ t.root.pid ∉ claimed) ∧
      (weighRoots call table claimed roots).Pairwise fun a b => b.root.pid ∉ a.pids := by
  induction roots with
  | nil => exact fun claimed => ⟨by simp [weighRoots], by simp [weighRoots]⟩
  | cons root roots ih =>
    intro claimed
    unfold weighRoots
    split
    · exact ⟨fun t ht => have h := (ih _).1 t ht; ⟨h.1, List.mem_cons_of_mem _ h.2.1, h.2.2⟩, (ih _).2⟩
    · next hclaimed =>
      cases hweigh : weighRoot call table root with
      | none =>
        exact ⟨fun t ht => have h := (ih _).1 t ht; ⟨h.1, List.mem_cons_of_mem _ h.2.1, h.2.2⟩, (ih _).2⟩
      | some weighed =>
        obtain ⟨hroot, -⟩ := weighRoot_eq_some hweigh
        have hlater := (ih (weighed.pids ++ claimed)).1
        refine ⟨fun t ht => ?_, List.pairwise_cons.mpr ⟨fun t ht hin => ?_, (ih _).2⟩⟩
        · rcases List.mem_cons.mp ht with rfl | ht
          · exact ⟨hroot ▸ hweigh, hroot ▸ List.mem_cons_self, hroot ▸ hclaimed⟩
          · obtain ⟨hself, hmem, hfree⟩ := hlater t ht
            exact ⟨hself, List.mem_cons_of_mem _ hmem,
              fun hin => hfree (List.mem_append_right _ hin)⟩
        · exact (hlater t ht).2.2 (List.mem_append_left _ hin)

theorem of_mem_reportedTrees {t : WeighedTree} (ht : t ∈ reportedTrees call table) :
    weighRoot call table t.root = some t :=
  ((weighRoots_spec (orphanRoots call table) []).1 t (List.mem_of_mem_filter ht)).1

/-- **What a candidate is**: the tree of an orphan root that is a test and that nobody uses. -/
theorem of_mem_candidates {tree : ForgottenTree}
    (h : tree ∈ (scanForgottenOrphanTrees call table).candidates) :
    ∃ root ∈ table.entries, isOrphanRoot call root = true ∧ ∃ why shown,
      classifyDesktopSession root.args = .test why ∧
        fateByUsage call why (buildTree call table root) = .candidate shown ∧
          tree = { buildTree call table root with why := shown } := by
  rw [scanForgottenOrphanTrees, List.mem_insertionSort, List.mem_filterMap] at h
  obtain ⟨t, ht, hfate⟩ := h
  have hweigh := of_mem_reportedTrees ht
  have horphan := ((weighRoots_spec (orphanRoots call table) []).1 t
    (List.mem_of_mem_filter ht)).2.1
  rw [orphanRoots, List.mem_insertionSort, List.mem_filter] at horphan
  have htree := (weighRoot_eq_some hweigh).2
  split at hfate
  · next shown hcandidate =>
    obtain rfl := Option.some.inj hfate
    refine ⟨t.root, horphan.1, horphan.2, ?_⟩
    unfold weighRoot at hweigh
    dsimp only at hweigh
    split at hweigh
    · cases hweigh
    · rw [← Option.some.inj hweigh] at hcandidate
      dsimp only at hcandidate
      split at hcandidate <;> cases hcandidate
    · next why hverdict =>
      rw [← Option.some.inj hweigh] at hcandidate
      dsimp only at hcandidate
      split at hcandidate
      · exact ⟨why, shown, hverdict, hcandidate, by rw [htree]⟩
      · cases hcandidate
  · cases hfate

theorem reportedTrees_unclaimed :
    (reportedTrees call table).Pairwise fun a b => b.root.pid ∉ a.pids :=
  (weighRoots_spec (orphanRoots call table) []).2.filter _

/-! ## What crosses -/

variable (call table) in
/-- How a process comes into two trees, the first of them weighed before the other. -/
inductive Crosses (r₁ r₂ : ProcEntry) : Prop
  /-- The first root is below the second. -/
  | below (h : Owns call table r₂ r₁.pid)
  /-- One root is below the other, and both admit a process below the lower one. -/
  | shared {p : Pid} (nested : table.Below r₁.pid r₂.pid ∨ table.Below r₂.pid r₁.pid)
      (h₁ : Owns call table r₁ p) (h₂ : Owns call table r₂ p)
  /-- A handler of the first is below the second. -/
  | handlerBelow {p : Pid} (h₁ : Handles call table r₁ p) (h₂ : Owns call table r₂ p)
  /-- A handler of the second is the first root, below it, or its handler too. -/
  | handlerTaken {p : Pid} (h₂ : Handles call table r₂ p)
      (h₁ : p = r₁.pid ∨ Owns call table r₁ p ∨ Handles call table r₁ p)

variable (call table) in
/-- The trees of a report have no process in common. -/
def TreesDisjoint : Prop :=
  (reportedTrees call table).Pairwise fun a b => a.pids.Disjoint b.pids

theorem disjoint_iff {a b : WeighedTree} (ha : weighRoot call table a.root = some a)
    (hb : weighRoot call table b.root = some b) (hfree : b.root.pid ∉ a.pids) :
    a.pids.Disjoint b.pids ↔ ¬ Crosses call table a.root b.root := by
  rw [mem_pids ha, not_or, not_or] at hfree
  obtain ⟨hne, hnotOwned, hnotHandled⟩ := hfree
  constructor
  · intro hdisjoint hcross
    have hapart : ∀ {p}, (p = a.root.pid ∨ Owns call table a.root p ∨ Handles call table a.root p) →
        (p = b.root.pid ∨ Owns call table b.root p ∨ Handles call table b.root p) → False :=
      fun h₁ h₂ => hdisjoint ((mem_pids ha).mpr h₁) ((mem_pids hb).mpr h₂)
    cases hcross with
    | below h => exact hapart (Or.inl rfl) (Or.inr (Or.inl h))
    | shared _ h₁ h₂ => exact hapart (Or.inr (Or.inl h₁)) (Or.inr (Or.inl h₂))
    | handlerBelow h₁ h₂ => exact hapart (Or.inr (Or.inr h₁)) (Or.inr (Or.inl h₂))
    | handlerTaken h₂ h₁ => exact hapart h₁ (Or.inr (Or.inr h₂))
  · intro hcross p h₁ h₂
    rw [mem_pids ha] at h₁
    rw [mem_pids hb] at h₂
    apply hcross
    rcases h₂ with rfl | h₂ | h₂
    · rcases h₁ with heq | h₁ | h₁
      · exact absurd heq hne
      · exact absurd h₁ hnotOwned
      · exact absurd h₁ hnotHandled
    · rcases h₁ with rfl | h₁ | h₁
      · exact .below h₂
      · exact .shared (h₁.1.nested h₂.1 fun heq => hne heq.symm) h₁ h₂
      · exact .handlerBelow h₁ h₂
    · exact .handlerTaken h₂ h₁

/-- **The trees of a report are disjoint** exactly when nothing crosses. -/
theorem treesDisjoint_iff (call : ScanCall) (table : ReapTable) :
    TreesDisjoint call table ↔
      (reportedTrees call table).Pairwise fun a b => ¬ Crosses call table a.root b.root := by
  have hstep : ∀ {a b}, a ∈ reportedTrees call table → b ∈ reportedTrees call table →
      b.root.pid ∉ a.pids →
        (a.pids.Disjoint b.pids ↔ ¬ Crosses call table a.root b.root) :=
    fun ha hb => disjoint_iff (of_mem_reportedTrees ha) (of_mem_reportedTrees hb)
  unfold TreesDisjoint
  constructor
  · intro h
    refine (h.and reportedTrees_unclaimed).imp_of_mem fun ha hb hab => ?_
    exact (hstep ha hb hab.2).mp hab.1
  · intro h
    refine (h.and reportedTrees_unclaimed).imp_of_mem fun ha hb hab => ?_
    exact (hstep ha hb hab.2).mpr hab.1

end Scan

section Stolen

/-- A desktop Chrome with its handler, and a test browser one of whose processes still names the
pid of that handler. -/
private def stolenTable : ReapTable where
  entries := [
    { pid := 100, ppid := 1, starttime := 10, args := "/opt/chrome", exe := "chrome" },
    { pid := 101, ppid := 100, starttime := 11, exe := "chrome"
      args := "/opt/chrome --type=renderer --crashpad-handler-pid=102" },
    { pid := 102, ppid := 1, starttime := 12, args := "/opt/chrome_crashpad_handler"
      exe := "chrome_crashpad_handler" },
    { pid := 200, ppid := 1, starttime := 20, args := "/opt/chrome --headless", exe := "chrome" },
    { pid := 201, ppid := 200, starttime := 21, exe := "chrome"
      args := "/opt/chrome --type=renderer --crashpad-handler-pid=102" }]
  nodup := by decide

/-- Nothing but init, and nobody on the network. -/
def systemdHost : Host where
  holder := fun pid =>
    if pid = 1 then
      some { starttime := 0, files := { comm := some "systemd" }, honest := fun _ h => nomatch h }
    else none

/-- A scan without floors and without exempt names. -/
def openScan : ScanCall where
  self := 7
  look := fun _ => systemdHost
  policy := { signatures := [], forgottenFootprintMb := 0, forgottenTreeFootprintMb := 0 }
  bootTime := 0
  now := 1000
  ticksPerSec := 100
  perProcessFloorMb := 0
  treeFloorMb := 0

/-- The handler of the vetoed desktop tree is a member of the candidate that will be ended. -/
theorem stolen_handler_shared :
    (reportedTrees openScan stolenTable).map WeighedTree.pids =
        [[100, 101, 102], [200, 201, 102]] ∧
      ((scanForgottenOrphanTrees openScan stolenTable).vetoed.map (·.rootPid)) = [100] ∧
        ((scanForgottenOrphanTrees openScan stolenTable).candidates.map (·.rootPid)) = [200] ∧
          ¬ TreesDisjoint openScan stolenTable := by
  have hpids : (reportedTrees openScan stolenTable).map WeighedTree.pids =
      [[100, 101, 102], [200, 201, 102]] := by decide +kernel
  refine ⟨hpids, by decide +kernel, by decide +kernel, fun h => ?_⟩
  have hlists : ((reportedTrees openScan stolenTable).map WeighedTree.pids).Pairwise
      List.Disjoint := List.pairwise_map.mpr h
  rw [hpids] at hlists
  have hapart := (List.pairwise_cons.mp hlists).1 [200, 201, 102] List.mem_cons_self
  exact hapart (by decide : (102 : Pid) ∈ [100, 101, 102]) (by decide)

end Stolen

end DraconGuard
