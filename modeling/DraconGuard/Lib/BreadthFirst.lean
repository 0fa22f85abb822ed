import Mathlib.Data.List.Nodup
import Mathlib.Data.List.Perm.Subperm
import Mathlib.Logic.Relation

/-!
# Breadth-first search

Everything that can be reached from a node, each with its distance, in the order of a queue. The
loop is given fuel; `mem_descendants_iff` says that as much fuel as there are nodes is enough.
-/

namespace BreadthFirst

variable {α : Type} [DecidableEq α] (next : α → List α)

/-- The nodes behind `a` that have not been seen. -/
def fresh (seen : List α) (a : α) : List α := (next a).filter (· ∉ seen)

/-- Takes at most `fuel` nodes from the queue. -/
def search : Nat → List (α × Nat) → List α → List (α × Nat)
  | 0, _, _ => []
  | _ + 1, [], _ => []
  | fuel + 1, (a, depth) :: queue, seen =>
    let found := (fresh next seen a).map fun b => (b, depth + 1)
    found ++ search fuel (queue ++ found) (fresh next seen a ++ seen)

/-- What is found from `root`, itself left out. -/
def descendants (fuel : Nat) (root : α) : List (α × Nat) := search next fuel [(root, 0)] [root]

/-- An edge. -/
def Edge (a b : α) : Prop := b ∈ next a

variable {next}

theorem mem_fresh {seen : List α} {a b : α} :
    b ∈ fresh next seen a ↔ b ∈ next a ∧ b ∉ seen := by
  simp [fresh]

/-! ## Soundness -/

/-- What is found has not been seen before, and can be reached from the queue. -/
theorem of_mem_search {fuel : Nat} : ∀ {queue : List (α × Nat)} {seen : List α} {b : α},
    b ∈ (search next fuel queue seen).map Prod.fst →
      b ∉ seen ∧ ∃ a ∈ queue.map Prod.fst, Relation.ReflTransGen (Edge next) a b := by
  induction fuel with
  | zero => intro queue seen b hb; simp [search] at hb
  | succ fuel ih =>
    intro queue seen b hb
    cases queue with
    | nil => simp [search] at hb
    | cons head queue =>
      obtain ⟨a, depth⟩ := head
      simp only [search, List.map_append, List.mem_append, List.map_map] at hb
      rcases hb with hb | hb
      · obtain ⟨c, hc, rfl⟩ := List.mem_map.mp hb
        obtain ⟨hedge, hunseen⟩ := mem_fresh.mp hc
        exact ⟨hunseen, a, List.mem_cons_self, Relation.ReflTransGen.single hedge⟩
      · obtain ⟨hunseen, c, hc, hreach⟩ := ih hb
        refine ⟨fun hin => hunseen (List.mem_append_right _ hin), ?_⟩
        rw [List.map_append, List.mem_append] at hc
        rcases hc with hc | hc
        · exact ⟨c, List.mem_cons_of_mem _ hc, hreach⟩
        · -- found just now, behind `a`
          obtain ⟨⟨d, _⟩, hd, rfl⟩ := List.mem_map.mp hc
          obtain ⟨d', hd', heq⟩ := List.mem_map.mp hd
          obtain ⟨rfl, -⟩ := Prod.mk.inj heq
          exact ⟨a, List.mem_cons_self, hreach.head (mem_fresh.mp hd').1⟩

/-- Whatever is found is one edge further than where it was found from. -/
theorem parent_of_mem_search {fuel : Nat} : ∀ {queue : List (α × Nat)} {seen : List α} {b : α}
    {depth : Nat}, (b, depth) ∈ search next fuel queue seen →
      ∃ a k, b ∈ next a ∧ depth = k + 1 ∧
        ((a, k) ∈ queue ∨ (a, k) ∈ search next fuel queue seen) := by
  induction fuel with
  | zero => intro queue seen b depth hb; simp [search] at hb
  | succ fuel ih =>
    intro queue seen b depth hb
    cases queue with
    | nil => simp [search] at hb
    | cons head queue =>
      obtain ⟨a, k⟩ := head
      simp only [search, List.mem_append] at hb ⊢
      rcases hb with hb | hb
      · obtain ⟨c, hc, heq⟩ := List.mem_map.mp hb
        obtain ⟨rfl, rfl⟩ := Prod.mk.inj heq
        exact ⟨a, k, (mem_fresh.mp hc).1, rfl, Or.inl List.mem_cons_self⟩
      · obtain ⟨c, j, hedge, hdepth, hfrom⟩ := ih hb
        refine ⟨c, j, hedge, hdepth, ?_⟩
        rcases hfrom with hqueue | hfound
        · exact (List.mem_append.mp hqueue).imp (List.mem_cons_of_mem _) Or.inl
        · exact Or.inr (Or.inr hfound)

/-- Nothing is found twice. -/
theorem nodup_search (hnodup : ∀ a, (next a).Nodup) {fuel : Nat} : ∀ (queue : List (α × Nat))
    (seen : List α), ((search next fuel queue seen).map Prod.fst).Nodup := by
  induction fuel with
  | zero => intro queue seen; simp [search]
  | succ fuel ih =>
    intro queue seen
    cases queue with
    | nil => simp [search]
    | cons head queue =>
      obtain ⟨a, k⟩ := head
      simp only [search, List.map_append, List.map_map]
      refine List.nodup_append.mpr ⟨?_, ih _ _, ?_⟩
      · have hfresh : (Prod.fst ∘ fun b : α => (b, k + 1)) = id := rfl
        rw [hfresh, List.map_id]
        exact (hnodup a).filter _
      · rintro b hb _ hlater rfl
        obtain ⟨c, hc, rfl⟩ := List.mem_map.mp hb
        exact (of_mem_search hlater).1 (List.mem_append_left _ hc)

/-- **Further down is deeper**, where every node has one parent and the way does not lead back to
the root. -/
theorem depth_lt (hnodup : ∀ a, (next a).Nodup)
    (hparent : ∀ a b c, c ∈ next a → c ∈ next b → a = b) {fuel : Nat} {root a b : α}
    {i j : Nat} (ha : (a, i) ∈ descendants next fuel root)
    (hb : (b, j) ∈ descendants next fuel root)
    (hbelow : Relation.TransGen (Edge next) a b)
    (hback : ¬ Relation.ReflTransGen (Edge next) a root) : i < j := by
  have hsame : ∀ {k}, (a, k) ∈ descendants next fuel root → k = i := fun hk =>
    congrArg Prod.snd (List.inj_on_of_nodup_map (nodup_search hnodup _ _) hk ha rfl)
  induction hbelow generalizing j with
  | single hedge =>
    obtain ⟨p, k, hp, rfl, hfrom⟩ := parent_of_mem_search hb
    obtain rfl := hparent _ _ _ hp hedge
    rcases hfrom with hroot | hfound
    · obtain ⟨rfl, -⟩ := Prod.mk.inj (List.mem_singleton.mp hroot)
      exact absurd Relation.ReflTransGen.refl hback
    · exact Nat.lt_succ_of_le (Nat.le_of_eq (hsame hfound).symm)
  | tail hmid hedge ih =>
    obtain ⟨p, k, hp, rfl, hfrom⟩ := parent_of_mem_search hb
    obtain rfl := hparent _ _ _ hp hedge
    rcases hfrom with hroot | hfound
    · obtain ⟨rfl, -⟩ := Prod.mk.inj (List.mem_singleton.mp hroot)
      exact absurd hmid.to_reflTransGen hback
    · exact Nat.lt_succ_of_lt (ih hfound)

/-! ## Completeness -/

/-- Whatever has been seen and is no longer queued has been looked behind. -/
def Expanded (next : α → List α) (queue : List (α × Nat)) (seen : List α) : Prop :=
  ∀ a ∈ seen, a ∉ queue.map Prod.fst → ∀ b ∈ next a, b ∈ seen

theorem Expanded.step {a : α} {depth : Nat} {queue : List (α × Nat)} {seen : List α}
    (h : Expanded next ((a, depth) :: queue) seen) :
    Expanded next (queue ++ (fresh next seen a).map fun b => (b, depth + 1))
      (fresh next seen a ++ seen) := by
  intro c hc hqueue b hb
  rw [List.map_append, List.mem_append, not_or] at hqueue
  rcases List.mem_append.mp hc with hc | hc
  · exact absurd (List.mem_map.mpr ⟨(c, depth + 1), List.mem_map.mpr ⟨c, hc, rfl⟩, rfl⟩) hqueue.2
  · rw [List.mem_append]
    by_cases hca : c = a
    · subst hca
      by_cases hseen : b ∈ seen
      · exact Or.inr hseen
      · exact Or.inl (mem_fresh.mpr ⟨hb, hseen⟩)
    · refine Or.inr (h c hc ?_ b hb)
      simpa [hca] using hqueue.1

omit [DecidableEq α] in
/-- With nothing queued, nothing behind the seen is left. -/
theorem Expanded.mem_of_reach {seen : List α} (h : Expanded next [] seen) {a b : α} (ha : a ∈ seen)
    (hreach : Relation.ReflTransGen (Edge next) a b) : b ∈ seen := by
  induction hreach with
  | refl => exact ha
  | tail _ hedge ih => exact h _ ih (by simp) _ hedge

/-- Every node found is one that was not seen before. -/
theorem length_found_add {univ seen found : List α} (hnodup : found.Nodup)
    (hfound : ∀ b ∈ found, b ∈ univ ∧ b ∉ seen) :
    found.length + (univ.filter (· ∉ found ++ seen)).length ≤ (univ.filter (· ∉ seen)).length := by
  have hsplit := List.length_eq_length_filter_add (l := univ.filter (· ∉ seen))
    (fun b => decide (b ∈ found))
  have hlength : found.length ≤
      ((univ.filter (· ∉ seen)).filter fun b => decide (b ∈ found)).length := by
    refine (List.subperm_of_subset hnodup fun _ hb => ?_).length_le
    simp only [List.mem_filter, decide_eq_true_eq]
    exact ⟨hfound _ hb, hb⟩
  have hrest : (univ.filter (· ∉ found ++ seen)) =
      (univ.filter (· ∉ seen)).filter fun b => !decide (b ∈ found) := by
    rw [List.filter_filter]
    exact List.filter_congr fun _ _ => by simp [not_or]
  rw [hrest]
  omega

theorem length_fresh_add {univ : List α} (seen : List α) {a : α} (hnodup : (next a).Nodup)
    (huniv : next a ⊆ univ) :
    (fresh next seen a).length + (univ.filter (· ∉ fresh next seen a ++ seen)).length ≤
      (univ.filter (· ∉ seen)).length :=
  length_found_add (hnodup.filter _) fun _ hb =>
    ⟨huniv (mem_fresh.mp hb).1, (mem_fresh.mp hb).2⟩

theorem mem_search {univ : List α} (hnodup : ∀ a, (next a).Nodup) (huniv : ∀ a, next a ⊆ univ)
    {fuel : Nat} : ∀ {queue : List (α × Nat)} {seen : List α},
    queue.length + (univ.filter (· ∉ seen)).length ≤ fuel → Expanded next queue seen →
      ∀ {a b : α}, a ∈ seen → Relation.ReflTransGen (Edge next) a b →
        b ∈ seen ∨ b ∈ (search next fuel queue seen).map Prod.fst := by
  induction fuel with
  | zero =>
    intro queue seen hfuel hexp a b ha hreach
    obtain rfl : queue = [] := List.eq_nil_of_length_eq_zero (by omega)
    exact Or.inl (hexp.mem_of_reach ha hreach)
  | succ fuel ih =>
    intro queue seen hfuel hexp a b ha hreach
    cases queue with
    | nil => exact Or.inl (hexp.mem_of_reach ha hreach)
    | cons head queue =>
      obtain ⟨c, depth⟩ := head
      have hcount := length_fresh_add seen (hnodup c) (huniv c)
      have hfuel' : (queue ++ (fresh next seen c).map fun b => (b, depth + 1)).length +
          (univ.filter (· ∉ fresh next seen c ++ seen)).length ≤ fuel := by
        rw [List.length_append, List.length_map]
        rw [List.length_cons] at hfuel
        omega
      have hrest := ih hfuel' hexp.step (List.mem_append_right _ ha) hreach
      simp only [search, List.map_append, List.mem_append, List.map_map] at hrest ⊢
      rcases hrest with (hfound | hseen) | hlater
      · exact Or.inr (Or.inl (List.mem_map.mpr ⟨b, hfound, rfl⟩))
      · exact Or.inl hseen
      · exact Or.inr (Or.inr hlater)

/-- **What the search finds** is what can be reached, the root left out. -/
theorem mem_descendants_iff {univ : List α} (hnodup : ∀ a, (next a).Nodup)
    (huniv : ∀ a, next a ⊆ univ) {fuel : Nat} (hfuel : univ.length + 1 ≤ fuel) {root b : α} :
    b ∈ (descendants next fuel root).map Prod.fst ↔
      b ≠ root ∧ Relation.ReflTransGen (Edge next) root b := by
  constructor
  · intro hb
    obtain ⟨hunseen, a, ha, hreach⟩ := of_mem_search hb
    obtain rfl : a = root := by simpa using ha
    exact ⟨by simpa using hunseen, hreach⟩
  · rintro ⟨hne, hreach⟩
    have hlength := List.length_filter_le (fun b => decide (b ∉ [root])) univ
    have hexp : Expanded next [(root, 0)] [root] := by
      intro a ha hqueue
      exact absurd ha hqueue
    have hfuel' : [(root, 0)].length + (univ.filter (· ∉ [root])).length ≤ fuel := by
      rw [List.length_singleton]
      omega
    have hfound := mem_search hnodup huniv hfuel' hexp List.mem_cons_self hreach
    exact hfound.resolve_left (by simpa using hne)

end BreadthFirst
