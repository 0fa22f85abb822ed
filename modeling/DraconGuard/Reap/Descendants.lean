import DraconGuard.Lib.LevelOrder
import DraconGuard.Reap.ForgottenScanLaw

/-!
# The descendants of a process

`ProcTable::descendants` (reap.rs:346) on the parent-to-children map as it comes: with cycles, and
with a child under several parents or several times under one. **`descendants_listsLevels`**: the
loop ends, and lists whatever can be reached once, by its distance.

The map that `read_proc_table` makes has every process once (`listed_childMap`), and the search that
the scans of this development are about is this one (`descendants_childMap`).
-/

namespace DraconGuard

open BreadthFirst

/-- `ProcTable.children` (reap.rs:326). -/
abbrev ChildMap := FinMap Pid (List Pid)

namespace ChildMap

/-- `self.children.get(&pid).into_iter().flatten()`. -/
def listed (children : ChildMap) (pid : Pid) : List Pid := (children.lookup pid).getD []

/-- Whoever is a child of somebody. -/
def everyone (children : ChildMap) : List Pid := children.entries.flatMap fun e => e.2

/-- `ProcTable::descendants` (reap.rs:346). -/
def descendants (children : ChildMap) (root : Pid) : Option (List (Pid × Nat)) :=
  walk children.listed (children.everyone.length + 1) [(root, 0)] [root]

theorem listed_subset (children : ChildMap) (pid : Pid) :
    children.listed pid ⊆ children.everyone := by
  intro child hchild
  unfold listed at hchild
  cases hlookup : children.lookup pid with
  | none =>
    rw [hlookup] at hchild
    cases hchild
  | some pids =>
    rw [hlookup] at hchild
    exact List.mem_flatMap.mpr ⟨⟨pid, pids⟩, FinMap.mem_entries_iff.mpr hlookup, hchild⟩

/-- **Everything below a process is listed**, once, at its depth, what is nearer first. -/
theorem descendants_listsLevels (children : ChildMap) (root : Pid) :
    ∃ out, children.descendants root = some out ∧ ListsLevels children.listed root out :=
  listsLevels_walk children.listed_subset (Nat.le_refl _) root

-- a cycle, and a child that is listed twice
example : ChildMap.descendants (([(1, [2, 2, 3]), (3, [1, 4, 2])] : List (Pid × List Pid)).foldl
    (fun m e => m.insert e.1 e.2) ∅) 1 = some [(2, 1), (3, 1), (4, 2)] := by decide

end ChildMap

/-! ## The map of a scan -/

namespace ReapTable

/-- `children` as `read_proc_table` (reap.rs:394) fills it. -/
def childMap (t : ReapTable) : ChildMap :=
  t.entries.foldl (fun m e => m.insert e.ppid (ChildMap.listed m e.ppid ++ [e.pid])) ∅

variable (t : ReapTable)

theorem listed_childMap (pid : Pid) : t.childMap.listed pid = t.children pid := by
  have hfold : ∀ (es : List ProcEntry) (m : ChildMap),
      ChildMap.listed (es.foldl
        (fun m e => m.insert e.ppid (ChildMap.listed m e.ppid ++ [e.pid])) m) pid =
          m.listed pid ++ (es.filter (·.ppid = pid)).map (·.pid) := by
    intro es
    induction es with
    | nil => exact fun m => (List.append_nil _).symm
    | cons e es ih =>
      intro m
      rw [List.foldl_cons, ih]
      by_cases hparent : e.ppid = pid
      · rw [List.filter_cons_of_pos (by simpa using hparent), List.map_cons, hparent]
        simp [ChildMap.listed]
      · rw [List.filter_cons_of_neg (by simpa using hparent)]
        simp [ChildMap.listed, Ne.symm hparent]
  exact hfold t.entries ∅

/-- **The searches of the scans are this one.** -/
theorem descendants_childMap (root : Pid) :
    t.childMap.descendants root = some (t.descendants root) := by
  have hlisted : t.childMap.listed = t.children := funext t.listed_childMap
  obtain ⟨out, hwalk, -⟩ := listsLevels_walk t.childMap.listed_subset (Nat.le_refl _) root
  obtain ⟨out', hwalk', -⟩ := @listsLevels_walk _ _ t.children _ children_subset _
    (Nat.le_refl _) root
  have hsearch := search_of_walk nodup_children hwalk'
  rw [List.length_map] at hsearch
  have hsame : out = out' := by
    rw [hlisted] at hwalk
    have hmore := walk_mono (Nat.le_max_left (t.childMap.everyone.length + 1)
      ((t.entries.map (·.pid)).length + 1)) hwalk
    have hmore' := walk_mono (Nat.le_max_right (t.childMap.everyone.length + 1)
      ((t.entries.map (·.pid)).length + 1)) hwalk'
    exact Option.some.inj (hmore.symm.trans hmore')
  rw [ChildMap.descendants, hwalk, hsame, descendants, BreadthFirst.descendants, hsearch]

end ReapTable

end DraconGuard
