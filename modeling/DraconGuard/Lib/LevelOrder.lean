import Mathlib.Order.Bounds.Basic
import DraconGuard.Lib.BreadthFirst

/-!
# Breadth-first search: the levels

The search with a queue and a set of what has been seen, where a node may be listed more than once
among the nodes behind another, and where fuel that does not last is no result. Everything that can
be reached is found once, at its distance and in the order of the distances (`listsLevels_walk`).
Where no node is listed twice this is the search of `BreadthFirst` (`search_of_walk`).
-/

namespace BreadthFirst

variable {α : Type} [DecidableEq α] (next : α → List α)

/-- The first occurrences of what has not been seen. -/
def unseen (seen : List α) : List α → List α
  | [] => []
  | b :: bs => if b ∈ seen then unseen seen bs else b :: unseen (b :: seen) bs

/-- The loop over the queue. -/
def walk : Nat → List (α × Nat) → List α → Option (List (α × Nat))
  | _, [], _ => some []
  | 0, _ :: _, _ => none
  | fuel + 1, (a, depth) :: queue, seen =>
    let found := (unseen seen (next a)).map fun b => (b, depth + 1)
    (walk fuel (queue ++ found) (unseen seen (next a) ++ seen)).map (found ++ ·)

/-- A way of so many edges. -/
inductive Way : Nat → α → α → Prop
  | here (a : α) : Way 0 a a
  | step {n : Nat} {a b c : α} : Way n a b → c ∈ next b → Way (n + 1) a c

/-- The least number of edges. -/
def Distance (a b : α) (n : Nat) : Prop := IsLeast {k | Way next k a b} n

/-- Everything below the root, once, at its distance, what is nearer first. -/
structure ListsLevels (root : α) (out : List (α × Nat)) : Prop where
  reached : ∀ a, a ∈ out.map Prod.fst ↔ a ≠ root ∧ Relation.ReflTransGen (Edge next) root a
  once : (out.map Prod.fst).Nodup
  distance : ∀ a depth, (a, depth) ∈ out → Distance next root a depth
  ordered : out.Pairwise (·.2 ≤ ·.2)

variable {next}

theorem mem_unseen {seen bs : List α} {b : α} : b ∈ unseen seen bs ↔ b ∈ bs ∧ b ∉ seen := by
  induction bs generalizing seen with
  | nil => simp [unseen]
  | cons c bs ih =>
    rw [unseen]
    split
    · next hc =>
      rw [ih, List.mem_cons]
      refine ⟨fun h => ⟨Or.inr h.1, h.2⟩, fun h => ⟨h.1.resolve_left ?_, h.2⟩⟩
      rintro rfl
      exact h.2 hc
    · next hc =>
      rw [List.mem_cons, ih, List.mem_cons, List.mem_cons, not_or]
      by_cases hb : b = c
      · subst hb
        simp [hc]
      · simp [hb]

theorem nodup_unseen (seen bs : List α) : (unseen seen bs).Nodup := by
  induction bs generalizing seen with
  | nil => exact List.nodup_nil
  | cons c bs ih =>
    rw [unseen]
    split
    · exact ih seen
    · refine List.nodup_cons.mpr ⟨fun h => ?_, ih _⟩
      exact (mem_unseen.mp h).2 List.mem_cons_self

theorem unseen_of_nodup {seen bs : List α} (h : bs.Nodup) :
    unseen seen bs = bs.filter (· ∉ seen) := by
  induction bs generalizing seen with
  | nil => rfl
  | cons c bs ih =>
    obtain ⟨hc, hbs⟩ := List.nodup_cons.mp h
    rw [unseen]
    split
    · next hseen => rw [ih hbs, List.filter_cons_of_neg (by simpa using hseen)]
    · next hseen =>
      rw [ih hbs, List.filter_cons_of_pos (by simpa using hseen)]
      refine congrArg (c :: ·) (List.filter_congr fun b hb => ?_)
      have hne : b ≠ c := fun heq => hc (heq ▸ hb)
      simp [hne]

omit [DecidableEq α] in
/-- A way is a chain of edges. -/
theorem way_iff {a b : α} :
    (∃ n, Way next n a b) ↔ Relation.ReflTransGen (Edge next) a b := by
  constructor
  · rintro ⟨n, hway⟩
    induction hway with
    | here => exact Relation.ReflTransGen.refl
    | step _ hedge ih => exact ih.tail hedge
  · intro hreach
    induction hreach with
    | refl => exact ⟨0, .here a⟩
    | tail _ hedge ih =>
      obtain ⟨n, hway⟩ := ih
      exact ⟨n + 1, hway.step hedge⟩

/-! ## The invariant -/

/-- The queue holds two levels at most, of nodes that have been seen at their distance, and what
has been seen and is not queued has been looked behind. -/
structure Frontier (next : α → List α) (root : α) (queue : List (α × Nat)) (seen : List α) :
    Prop where
  rootSeen : root ∈ seen
  queued : ∀ x ∈ queue, Distance next root x.1 x.2
  expanded : Expanded next queue seen
  ordered : queue.Pairwise (·.2 ≤ ·.2)
  narrow : ∀ x ∈ queue, ∀ y ∈ queue, y.2 ≤ x.2 + 1

namespace Frontier

variable {root a b : α} {depth : Nat} {queue : List (α × Nat)} {seen : List α}

/-- What has not been seen is behind something in the queue. -/
theorem behind (h : Frontier next root queue seen) {n : Nat} (hway : Way next n root b)
    (hb : b ∉ seen) : ∃ x ∈ queue, x.2 + 1 ≤ n := by
  induction hway with
  | here => exact absurd h.rootSeen hb
  | @step n _ c d hway hedge ih =>
    by_cases hc : c ∈ seen
    · by_cases hqueue : c ∈ queue.map Prod.fst
      · obtain ⟨x, hx, rfl⟩ := List.mem_map.mp hqueue
        exact ⟨x, hx, Nat.succ_le_succ ((h.queued x hx).2 hway)⟩
      · exact absurd (h.expanded c hc hqueue d hedge) hb
    · obtain ⟨x, hx, hn⟩ := ih h hc
      exact ⟨x, hx, Nat.le_succ_of_le hn⟩

omit [DecidableEq α] in
/-- The head of the queue is nearest. -/
theorem head_le (h : Frontier next root ((a, depth) :: queue) seen) :
    ∀ x ∈ (a, depth) :: queue, depth ≤ x.2 := by
  intro x hx
  rcases List.mem_cons.mp hx with rfl | hx
  · exact Nat.le_refl _
  · exact (List.pairwise_cons.mp h.ordered).1 x hx

/-- **What is found is found at its distance.** -/
theorem distance_found (h : Frontier next root ((a, depth) :: queue) seen) (hedge : b ∈ next a)
    (hb : b ∉ seen) : Distance next root b (depth + 1) := by
  refine ⟨Way.step (h.queued _ List.mem_cons_self).1 hedge, fun n hway => ?_⟩
  obtain ⟨x, hx, hn⟩ := h.behind hway hb
  exact Nat.le_trans (Nat.succ_le_succ (h.head_le x hx)) hn

theorem step (h : Frontier next root ((a, depth) :: queue) seen) :
    Frontier next root (queue ++ (unseen seen (next a)).map fun b => (b, depth + 1))
      (unseen seen (next a) ++ seen) := by
  have hfound : ∀ x ∈ (unseen seen (next a)).map (fun b => (b, depth + 1)),
      x.1 ∈ next a ∧ x.1 ∉ seen ∧ x.2 = depth + 1 := by
    intro x hx
    obtain ⟨b, hb, rfl⟩ := List.mem_map.mp hx
    exact ⟨(mem_unseen.mp hb).1, (mem_unseen.mp hb).2, rfl⟩
  have hbetween : ∀ x ∈ queue ++ (unseen seen (next a)).map (fun b => (b, depth + 1)),
      depth ≤ x.2 ∧ x.2 ≤ depth + 1 := by
    intro x hx
    rcases List.mem_append.mp hx with hx | hx
    · exact ⟨h.head_le x (List.mem_cons_of_mem _ hx),
        h.narrow _ List.mem_cons_self x (List.mem_cons_of_mem _ hx)⟩
    · rw [(hfound x hx).2.2]
      exact ⟨Nat.le_succ _, Nat.le_refl _⟩
  refine ⟨List.mem_append_right _ h.rootSeen, fun x hx => ?_, ?_, ?_, fun x hx y hy => ?_⟩
  · rcases List.mem_append.mp hx with hx | hx
    · exact h.queued x (List.mem_cons_of_mem _ hx)
    · obtain ⟨hedge, hseen, hdepth⟩ := hfound x hx
      rw [hdepth]
      exact h.distance_found hedge hseen
  · intro c hc hqueue b hb
    rw [List.map_append, List.mem_append, not_or] at hqueue
    rcases List.mem_append.mp hc with hc | hc
    · refine absurd (List.mem_map.mpr ⟨(c, depth + 1), ?_, rfl⟩) hqueue.2
      exact List.mem_map.mpr ⟨c, hc, rfl⟩
    · rw [List.mem_append, mem_unseen]
      by_cases hb' : b ∈ seen
      · exact Or.inr hb'
      · by_cases hca : c = a
        · exact Or.inl ⟨hca ▸ hb, hb'⟩
        · refine absurd (h.expanded c hc ?_ b hb) hb'
          simpa [hca] using hqueue.1
  · refine List.pairwise_append.mpr ⟨(List.pairwise_cons.mp h.ordered).2, ?_, fun x hx y hy => ?_⟩
    · exact List.pairwise_map.mpr (List.pairwise_of_forall fun _ _ => Nat.le_refl _)
    · rw [(hfound y hy).2.2]
      exact (hbetween x (List.mem_append_left _ hx)).2
  · exact Nat.le_trans (hbetween y hy).2 (Nat.succ_le_succ (hbetween x hx).1)

end Frontier

/-! ## The result -/

/-- What the loop has still to list. -/
structure Rest (next : α → List α) (root : α) (queue : List (α × Nat)) (seen : List α)
    (out : List (α × Nat)) : Prop where
  found : ∀ x ∈ out, x.1 ∉ seen ∧ Distance next root x.1 x.2
  all : ∀ a, Relation.ReflTransGen (Edge next) root a → a ∈ seen ∨ a ∈ out.map Prod.fst
  once : (out.map Prod.fst).Nodup
  ordered : out.Pairwise (·.2 ≤ ·.2)
  further : ∀ depth, (∀ x ∈ queue, depth ≤ x.2) → ∀ x ∈ out, depth + 1 ≤ x.2

omit [DecidableEq α] in
theorem Frontier.rest_nil {root : α} {seen : List α} (h : Frontier next root [] seen) :
    Rest next root [] seen [] where
  found _ hx := absurd hx List.not_mem_nil
  all _ hreach := Or.inl (h.expanded.mem_of_reach h.rootSeen hreach)
  once := List.nodup_nil
  ordered := List.Pairwise.nil
  further _ _ _ hx := absurd hx List.not_mem_nil

/-- One node from the queue. -/
theorem Frontier.rest_cons {root a : α} {depth : Nat} {queue : List (α × Nat)} {seen : List α}
    (h : Frontier next root ((a, depth) :: queue) seen) {out : List (α × Nat)}
    (hrest : Rest next root (queue ++ (unseen seen (next a)).map fun b => (b, depth + 1))
      (unseen seen (next a) ++ seen) out) :
    Rest next root ((a, depth) :: queue) seen
      ((unseen seen (next a)).map (fun b => (b, depth + 1)) ++ out) := by
  have hfirst : ((unseen seen (next a)).map fun b => (b, depth + 1)).map Prod.fst =
      unseen seen (next a) := by
    rw [List.map_map]
    exact List.map_id _
  have hlater : ∀ x ∈ out, depth + 1 ≤ x.2 := by
    refine hrest.further depth fun x hx => ?_
    rcases List.mem_append.mp hx with hx | hx
    · exact h.head_le x (List.mem_cons_of_mem _ hx)
    · obtain ⟨b, -, rfl⟩ := List.mem_map.mp hx
      exact Nat.le_succ depth
  constructor
  · intro x hx
    rcases List.mem_append.mp hx with hx | hx
    · obtain ⟨b, hb, rfl⟩ := List.mem_map.mp hx
      obtain ⟨hedge, hseen⟩ := mem_unseen.mp hb
      exact ⟨hseen, h.distance_found hedge hseen⟩
    · obtain ⟨hseen, hdistance⟩ := hrest.found x hx
      exact ⟨fun hmem => hseen (List.mem_append_right _ hmem), hdistance⟩
  · intro b hreach
    rw [List.map_append, hfirst, List.mem_append]
    rcases hrest.all b hreach with hseen | hout
    · rcases List.mem_append.mp hseen with hfound | hseen
      · exact Or.inr (Or.inl hfound)
      · exact Or.inl hseen
    · exact Or.inr (Or.inr hout)
  · rw [List.map_append, hfirst]
    refine List.nodup_append.mpr ⟨nodup_unseen _ _, hrest.once, ?_⟩
    rintro b hb _ hout rfl
    obtain ⟨x, hx, rfl⟩ := List.mem_map.mp hout
    exact (hrest.found x hx).1 (List.mem_append_left _ hb)
  · refine List.pairwise_append.mpr ⟨?_, hrest.ordered, fun x hx y hy => ?_⟩
    · exact List.pairwise_map.mpr (List.pairwise_of_forall fun _ _ => Nat.le_refl _)
    · obtain ⟨b, -, rfl⟩ := List.mem_map.mp hx
      exact hlater y hy
  · intro least hleast x hx
    have hdepth := Nat.succ_le_succ (hleast (a, depth) List.mem_cons_self)
    rcases List.mem_append.mp hx with hx | hx
    · obtain ⟨b, -, rfl⟩ := List.mem_map.mp hx
      exact hdepth
    · exact Nat.le_trans hdepth (hlater x hx)

theorem rest_of_walk {root : α} {fuel : Nat} : ∀ {queue : List (α × Nat)} {seen : List α}
    {out : List (α × Nat)}, Frontier next root queue seen → walk next fuel queue seen = some out →
      Rest next root queue seen out := by
  induction fuel with
  | zero =>
    intro queue seen out h hwalk
    cases queue with
    | nil =>
      obtain rfl : [] = out := Option.some.inj hwalk
      exact h.rest_nil
    | cons x queue => cases hwalk
  | succ fuel ih =>
    intro queue seen out h hwalk
    cases queue with
    | nil =>
      obtain rfl : [] = out := Option.some.inj hwalk
      exact h.rest_nil
    | cons x queue =>
      obtain ⟨out', hwalk', rfl⟩ := Option.map_eq_some_iff.mp hwalk
      exact h.rest_cons (ih h.step hwalk')

/-- **Fuel for every node is enough.** -/
theorem walk_isSome {univ : List α} (huniv : ∀ a, next a ⊆ univ) {fuel : Nat} :
    ∀ {queue : List (α × Nat)} {seen : List α},
      queue.length + (univ.filter (· ∉ seen)).length ≤ fuel →
        (walk next fuel queue seen).isSome = true := by
  induction fuel with
  | zero =>
    intro queue seen hfuel
    obtain rfl : queue = [] := List.eq_nil_of_length_eq_zero (by omega)
    rfl
  | succ fuel ih =>
    intro queue seen hfuel
    cases queue with
    | nil => rfl
    | cons x queue =>
      have hcount : _ ≤ (univ.filter (· ∉ seen)).length :=
        length_found_add (nodup_unseen seen (next x.1))
          fun b hb => ⟨huniv x.1 (mem_unseen.mp hb).1, (mem_unseen.mp hb).2⟩
      rw [walk, Option.isSome_map]
      refine ih ?_
      rw [List.length_append, List.length_map]
      rw [List.length_cons] at hfuel
      omega

/-- More fuel makes no difference. -/
theorem walk_mono {fuel more : Nat} (h : fuel ≤ more) : ∀ {queue : List (α × Nat)}
    {seen : List α} {out : List (α × Nat)}, walk next fuel queue seen = some out →
      walk next more queue seen = some out := by
  induction fuel generalizing more with
  | zero =>
    intro queue seen out hwalk
    cases queue with
    | nil =>
      cases more <;> exact hwalk
    | cons x queue => cases hwalk
  | succ fuel ih =>
    intro queue seen out hwalk
    obtain ⟨more, rfl⟩ := Nat.exists_eq_add_one.mpr (Nat.lt_of_lt_of_le (Nat.succ_pos fuel) h)
    cases queue with
    | nil => exact hwalk
    | cons x queue =>
      obtain ⟨out', hwalk', rfl⟩ := Option.map_eq_some_iff.mp hwalk
      exact Option.map_eq_some_iff.mpr ⟨out', ih (Nat.le_of_succ_le_succ h) hwalk', rfl⟩

/-- **The search lists the levels.** -/
theorem listsLevels_walk {univ : List α} (huniv : ∀ a, next a ⊆ univ) {fuel : Nat}
    (hfuel : univ.length + 1 ≤ fuel) (root : α) :
    ∃ out, walk next fuel [(root, 0)] [root] = some out ∧ ListsLevels next root out := by
  have hlength := List.length_filter_le (fun b => decide (b ∉ [root])) univ
  have hsome : (walk next fuel [(root, 0)] [root]).isSome = true := by
    refine walk_isSome huniv ?_
    rw [List.length_singleton]
    omega
  obtain ⟨out, hwalk⟩ := Option.isSome_iff_exists.mp hsome
  have hstart : Frontier next root [(root, 0)] [root] := by
    refine ⟨List.mem_cons_self, fun x hx => ?_, fun a ha hqueue => absurd ha hqueue,
      List.pairwise_singleton _ _, fun x hx y hy => ?_⟩
    · rw [List.mem_singleton.mp hx]
      exact ⟨.here root, fun _ _ => Nat.zero_le _⟩
    · rw [List.mem_singleton.mp hy]
      exact Nat.zero_le _
  have hrest := rest_of_walk hstart hwalk
  refine ⟨out, hwalk, fun a => ⟨fun ha => ?_, fun ha => ?_⟩, hrest.once, fun a depth ha => ?_,
    hrest.ordered⟩
  · obtain ⟨x, hx, rfl⟩ := List.mem_map.mp ha
    obtain ⟨hseen, hdistance⟩ := hrest.found x hx
    exact ⟨fun heq => hseen (List.mem_singleton.mpr heq), way_iff.mp ⟨x.2, hdistance.1⟩⟩
  · exact (hrest.all a ha.2).resolve_left fun hroot => ha.1 (List.mem_singleton.mp hroot)
  · exact (hrest.found _ ha).2

/-! ## Without repetitions -/

/-- Where no node is listed twice behind another the two searches are one. -/
theorem search_of_walk (hnodup : ∀ a, (next a).Nodup) {fuel : Nat} : ∀ {queue : List (α × Nat)}
    {seen : List α} {out : List (α × Nat)}, walk next fuel queue seen = some out →
      search next fuel queue seen = out := by
  induction fuel with
  | zero =>
    intro queue seen out hwalk
    cases queue with
    | nil => exact Option.some.inj hwalk
    | cons x queue => cases hwalk
  | succ fuel ih =>
    intro queue seen out hwalk
    cases queue with
    | nil => exact Option.some.inj hwalk
    | cons x queue =>
      obtain ⟨out', hwalk', rfl⟩ := Option.map_eq_some_iff.mp hwalk
      have hfresh : unseen seen (next x.1) = fresh next seen x.1 := unseen_of_nodup (hnodup x.1)
      rw [hfresh] at hwalk' ⊢
      rw [search, ih hwalk']

end BreadthFirst
