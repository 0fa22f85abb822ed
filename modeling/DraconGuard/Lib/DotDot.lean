import Mathlib.Data.List.Basic
import Mathlib.Data.List.Induction

/-!
# Normal forms of paths with `..`

A path is a list of steps: into a name, up, or nowhere. Walking it from a place, the parent of
the root being the root, forgets how often it went up from the root; `normal` does not, it keeps
a number of ups and a list of names.

Main results: two paths have one normal form exactly when they lead to one place from every start
(`normal_eq_iff`), and, walked from the root, exactly when they lead to one place and went up
from the root equally often (`normal_eq_iff_root`).
-/

namespace DotDot

variable {α : Type}

inductive Step (α : Type) where
  | into (a : α)
  | up
  | stay

/-- One step from a place; the root is above itself. -/
def move (place : List α) : Step α → List α
  | .into a => place ++ [a]
  | .up => place.dropLast
  | .stay => place

def walk (base : List α) (steps : List (Step α)) : List α := steps.foldl move base

/-- One step of the rewriting: the ups kept, and the names below them. -/
def push : Nat × List α → Step α → Nat × List α
  | (ups, names), .into a => (ups, names ++ [a])
  | (ups, names), .up => if names.isEmpty then (ups + 1, []) else (ups, names.dropLast)
  | (ups, names), .stay => (ups, names)

def normal (steps : List (Step α)) : Nat × List α := steps.foldl push (0, [])

theorem push_up (ups : Nat) (names : List α) :
    push (ups, names) .up = if names.isEmpty then (ups + 1, []) else (ups, names.dropLast) := rfl

/-- How often a walk goes up from the root. -/
def climbs : List α → List (Step α) → Nat
  | _, [] => 0
  | place, .up :: rest => (if place.isEmpty then 1 else 0) + climbs place.dropLast rest
  | place, step :: rest => climbs (move place step) rest

theorem climbs_up (place : List α) (rest : List (Step α)) :
    climbs place (.up :: rest) =
      (if place.isEmpty then 1 else 0) + climbs place.dropLast rest := rfl

/-- Where a normal form leads from a place. -/
def leads (base : List α) (form : Nat × List α) : List α :=
  base.take (base.length - form.1) ++ form.2

theorem leads_push (base : List α) (form : Nat × List α) (step : Step α) :
    leads base (push form step) = move (leads base form) step := by
  obtain ⟨ups, names⟩ := form
  cases step with
  | into a => simp [leads, push, move]
  | stay => rfl
  | up =>
    cases names using List.reverseRecOn with
    | nil =>
      simp only [leads, push, move, List.isEmpty_nil, if_true, List.append_nil]
      rw [List.dropLast_eq_take, List.length_take, List.take_take]
      congr 1
      omega
    | append_singleton names a _ =>
      simp [leads, push, move, ← List.append_assoc]

/-- A walk leads where its normal form leads. -/
theorem walk_eq_leads (base : List α) (steps : List (Step α)) :
    walk base steps = leads base (normal steps) := by
  have hgen : ∀ form, steps.foldl move (leads base form) = leads base (steps.foldl push form) := by
    induction steps with
    | nil => exact fun _ => rfl
    | cons step rest ih =>
      intro form
      rw [List.foldl_cons, List.foldl_cons, ← leads_push, ih]
  have hstart : leads base (0, []) = base := by simp [leads]
  have h := hgen (0, [])
  rwa [hstart] at h

/-- The ups that are kept are those from the root. -/
theorem ups_eq_climbs (steps : List (Step α)) : (normal steps).1 = climbs [] steps := by
  have hgen : ∀ ups names, (steps.foldl push (ups, names)).1 = ups + climbs names steps := by
    induction steps with
    | nil => exact fun _ _ => rfl
    | cons step rest ih =>
      intro ups names
      rw [List.foldl_cons]
      cases step with
      | into a => exact ih ups (names ++ [a])
      | stay => exact ih ups names
      | up =>
        rw [push_up, climbs_up]
        by_cases hempty : names.isEmpty = true
        · have hnil : names = [] := List.isEmpty_iff.mp hempty
          rw [if_pos hempty, if_pos hempty, ih, hnil, List.dropLast_nil, Nat.add_assoc]
        · rw [if_neg hempty, if_neg hempty, ih, Nat.zero_add]
  have h := hgen 0 []
  rwa [Nat.zero_add] at h

/-- Fewer ups leave a part of the start that more ups take away. -/
theorem ups_le_of_walk {P : α → Prop} (htwo : ∃ a b, P a ∧ P b ∧ a ≠ b) {p q : List (Step α)}
    (h : ∀ base, (∀ c ∈ base, P c) → walk base p = walk base q) :
    (normal q).1 ≤ (normal p).1 := by
  by_contra hlt
  obtain ⟨a, b, ha, hb, hab⟩ := htwo
  obtain ⟨k, hk⟩ : ∃ k, (normal q).1 = (normal p).1 + (k + 1) :=
    ⟨(normal q).1 - (normal p).1 - 1, by omega⟩
  -- the same names behind different beginnings
  have hcut : ∀ c, P c → List.replicate (k + 1) c ++ (normal p).2 = (normal q).2 := by
    intro c hc
    have hbase := h (List.replicate (normal q).1 c)
      fun d hd => by rw [List.eq_of_mem_replicate hd]; exact hc
    rw [walk_eq_leads, walk_eq_leads] at hbase
    unfold leads at hbase
    rw [List.length_replicate, List.take_replicate, List.take_replicate, Nat.sub_self,
      Nat.zero_min, List.replicate_zero, List.nil_append] at hbase
    have hlen : min ((normal q).1 - (normal p).1) (normal q).1 = k + 1 := by omega
    rwa [hlen] at hbase
  have hboth := (hcut a ha).trans (hcut b hb).symm
  rw [List.replicate_succ, List.replicate_succ, List.cons_append, List.cons_append] at hboth
  exact hab (List.cons.inj hboth).1

/-- **The normal form says where a path leads**, from any start over two names or more. -/
theorem normal_eq_iff {P : α → Prop} (htwo : ∃ a b, P a ∧ P b ∧ a ≠ b) {p q : List (Step α)} :
    normal p = normal q ↔ ∀ base, (∀ c ∈ base, P c) → walk base p = walk base q := by
  constructor
  · intro h base _
    rw [walk_eq_leads, walk_eq_leads, h]
  · intro h
    refine Prod.ext (Nat.le_antisymm (ups_le_of_walk htwo fun base hbase => (h base hbase).symm)
      (ups_le_of_walk htwo h)) ?_
    have hroot := h [] fun c hc => nomatch hc
    rw [walk_eq_leads, walk_eq_leads] at hroot
    simpa [leads] using hroot

/-- **From the root** it says that, and how often the path went up from there. -/
theorem normal_eq_iff_root {p q : List (Step α)} :
    normal p = normal q ↔ walk [] p = walk [] q ∧ climbs [] p = climbs [] q := by
  have hnames : ∀ steps : List (Step α), walk [] steps = (normal steps).2 := by
    intro steps
    rw [walk_eq_leads]
    simp [leads]
  rw [hnames, hnames, ← ups_eq_climbs, ← ups_eq_climbs, Prod.ext_iff, and_comm]

theorem normal_ups (ups : Nat) :
    (List.replicate ups (Step.up : Step α)).foldl push (0, []) = (ups, []) := by
  induction ups with
  | zero => rfl
  | succ ups ih =>
    rw [List.replicate_succ', List.foldl_append, ih]
    rfl

/-- Ups before a path stay before its normal form. -/
theorem normal_ups_append (k : Nat) (steps : List (Step α)) :
    normal (List.replicate k .up ++ steps) = (k + (normal steps).1, (normal steps).2) := by
  have hlater : ∀ ups names, steps.foldl push (k + ups, names) =
      (k + (steps.foldl push (ups, names)).1, (steps.foldl push (ups, names)).2) := by
    induction steps with
    | nil => exact fun _ _ => rfl
    | cons step rest ih =>
      intro ups names
      rw [List.foldl_cons, List.foldl_cons]
      cases step with
      | into a => exact ih ups (names ++ [a])
      | stay => exact ih ups names
      | up =>
        rw [push_up, push_up]
        split
        · exact ih (ups + 1) []
        · exact ih ups names.dropLast
  rw [normal, List.foldl_append, normal_ups]
  exact hlater 0 []

/-- The steps a normal form stands for come to that form. -/
theorem normal_ups_into (ups : Nat) (names : List α) :
    normal (List.replicate ups .up ++ names.map .into) = (ups, names) := by
  have hnames : ∀ front, (names.map Step.into).foldl push (0, front) = (0, front ++ names) := by
    induction names with
    | nil => intro front; simp
    | cons a names ih =>
      intro front
      rw [List.map_cons, List.foldl_cons]
      exact (ih (front ++ [a])).trans (by simp)
  have hnormal : normal (names.map Step.into) = (0, names) := hnames []
  rw [normal_ups_append, hnormal, Nat.add_zero]

end DotDot
