import Mathlib.Data.List.Nodup
import Mathlib.Data.List.Flatten
import Mathlib.Data.List.TakeDrop
import Mathlib.Logic.Relation

/-!
# Workers that fill slots

A list of jobs is dealt to workers, each job with the slot for its result. The workers take their
jobs one by one, in any order among themselves; when no job is left, they are joined. `chunks`
deals in stretches of equal length, as slices that are split off one after the other.

**`finished_map`**: whatever the order, every slot ends with the result of its own job. Every
worker that is not done can go on, and each step takes one job (`Step.jobs_length`), so the end is
reached (`exists_finished`).
-/

namespace ForkJoin

variable {α β : Type*}

/-- The slots, and what each worker still has to do. -/
structure Pool (α β : Type*) where
  slots : List β
  queues : List (List (Nat × α))

def Pool.jobs (p : Pool α β) : List (Nat × α) := p.queues.flatten

def Pool.Finished (p : Pool α β) : Prop := ∀ queue ∈ p.queues, queue = []

/-- One worker does its next job. -/
inductive Step (f : α → β) : Pool α β → Pool α β → Prop
  | work (slots : List β) (before after : List (List (Nat × α))) (i : Nat) (a : α)
      (rest : List (Nat × α)) :
      Step f ⟨slots, before ++ ((i, a) :: rest) :: after⟩
        ⟨slots.set i (f a), before ++ rest :: after⟩

abbrev Run (f : α → β) : Pool α β → Pool α β → Prop := Relation.ReflTransGen (Step f)

variable {f : α → β} {p p' : Pool α β}

/-- The job that a step takes, and what it leaves. -/
theorem Step.exists_job (h : Step f p p') :
    ∃ i a, p.jobs.Perm ((i, a) :: p'.jobs) ∧ p'.slots = p.slots.set i (f a) := by
  cases h with
  | work slots before after i a rest =>
    refine ⟨i, a, ?_, rfl⟩
    simp only [Pool.jobs, List.flatten_append, List.flatten_cons, List.cons_append]
    exact List.perm_middle

theorem Step.jobs_length (h : Step f p p') : p.jobs.length = p'.jobs.length + 1 := by
  obtain ⟨i, a, hperm, -⟩ := h.exists_job
  exact hperm.length_eq

theorem Pool.Finished.jobs_eq (h : p.Finished) : p.jobs = [] :=
  List.flatten_eq_nil_iff.mpr h

/-- A worker that is not done can go on. -/
theorem exists_step (h : ¬ p.Finished) : ∃ p', Step f p p' := by
  obtain ⟨slots, queues⟩ := p
  simp only [Pool.Finished, not_forall] at h
  obtain ⟨queue, hmem, hne⟩ := h
  obtain ⟨before, after, rfl⟩ := List.append_of_mem hmem
  obtain ⟨⟨i, a⟩, rest, rfl⟩ := List.exists_cons_of_ne_nil hne
  exact ⟨_, .work slots before after i a rest⟩

/-- The workers can be joined. -/
theorem exists_finished (f : α → β) (p : Pool α β) : ∃ p', Run f p p' ∧ p'.Finished := by
  generalize hn : p.jobs.length = n
  induction n generalizing p with
  | zero =>
    by_cases hfin : p.Finished
    · exact ⟨p, .refl, hfin⟩
    · obtain ⟨p', hstep⟩ := exists_step (f := f) hfin
      have := hstep.jobs_length
      omega
  | succ n ih =>
    by_cases hfin : p.Finished
    · exact ⟨p, .refl, hfin⟩
    · obtain ⟨p', hstep⟩ := exists_step (f := f) hfin
      have hlen := hstep.jobs_length
      obtain ⟨last, hrun, hlast⟩ := ih p' (by omega)
      exact ⟨last, .head hstep hrun, hlast⟩

/-- **Every job's slot holds its result at the end**, and a slot without a job is left alone. -/
theorem finished_slots (hrun : Run f p p') (hfin : p'.Finished)
    (hslots : (p.jobs.map Prod.fst).Nodup) (hlt : ∀ job ∈ p.jobs, job.1 < p.slots.length) :
    p'.slots.length = p.slots.length ∧ (∀ job ∈ p.jobs, p'.slots[job.1]? = some (f job.2)) ∧
      ∀ i, i ∉ p.jobs.map Prod.fst → p'.slots[i]? = p.slots[i]? := by
  induction hrun using Relation.ReflTransGen.head_induction_on with
  | refl => simp [hfin.jobs_eq]
  | head hstep _ ih =>
    obtain ⟨i, a, hperm, hset⟩ := hstep.exists_job
    have hnodup := (hperm.map Prod.fst).nodup_iff.mp hslots
    rw [List.map_cons, List.nodup_cons] at hnodup
    have hi := hlt (i, a) (hperm.mem_iff.mpr List.mem_cons_self)
    obtain ⟨hlen, hjobs, hothers⟩ := ih hnodup.2 fun job hjob => by
      rw [hset, List.length_set]
      exact hlt job (hperm.mem_iff.mpr (List.mem_cons_of_mem _ hjob))
    refine ⟨by rw [hlen, hset, List.length_set], fun job hjob => ?_, fun j hj => ?_⟩
    · rcases List.mem_cons.mp (hperm.mem_iff.mp hjob) with rfl | hlater
      · -- no later job has this slot
        rw [hothers i hnodup.1, hset, List.getElem?_set_self hi]
      · exact hjobs job hlater
    · have hj' := mt (hperm.map Prod.fst).mem_iff.mpr hj
      rw [List.map_cons, List.mem_cons, not_or] at hj'
      rw [hothers j hj'.2, hset, List.getElem?_set_ne (Ne.symm hj'.1)]

/-! ## Dealing in stretches -/

/-- A slice is split off for each worker while anything is left: `size` jobs, the last may get
fewer. -/
def chunks (size : Nat) (offset : Nat) (xs : List α) : List (List (Nat × α)) :=
  if _h : xs = [] ∨ size = 0 then []
  else
    let take := min size xs.length
    (List.range' offset take).zip (xs.take take) :: chunks size (offset + take) (xs.drop take)
termination_by xs.length
decreasing_by
  obtain ⟨hne, hsize⟩ := not_or.mp _h
  have hpos : 0 < xs.length := List.length_pos_iff.mpr hne
  simp only [List.length_drop]
  omega

theorem chunks_flatten {size : Nat} (hsize : size ≠ 0) (offset : Nat) (xs : List α) :
    (chunks size offset xs).flatten = (List.range' offset xs.length).zip xs := by
  induction offset, xs using chunks.induct size with
  | case1 offset xs h =>
    rw [chunks, dif_pos h]
    obtain rfl := h.resolve_right hsize
    rfl
  | case2 offset xs h take ih =>
    rw [chunks, dif_neg h, List.flatten_cons, ih]
    have hle : take ≤ xs.length := Nat.min_le_right _ _
    have hsplit : List.range' offset xs.length =
        List.range' offset take ++ List.range' (offset + take) (xs.drop take).length := by
      rw [List.length_drop, List.range'_append_1, Nat.add_sub_cancel' hle]
    calc _ = (List.range' offset take ++ List.range' (offset + take) (xs.drop take).length).zip
          (xs.take take ++ xs.drop take) := (List.zip_append (by simp [hle])).symm
      _ = _ := by rw [← hsplit, List.take_append_drop]

/-- The pool as it starts. -/
def start (size : Nat) (blank : β) (xs : List α) : Pool α β :=
  ⟨List.replicate xs.length blank, chunks size 0 xs⟩

/-- **Fork and join compute the map**, in whatever order the workers go. -/
theorem finished_map {size : Nat} (hsize : size ≠ 0) {blank : β} {xs : List α}
    (hrun : Run f (start size blank xs) p') (hfin : p'.Finished) : p'.slots = xs.map f := by
  have hjobs : (start size blank xs).jobs = (List.range' 0 xs.length).zip xs :=
    chunks_flatten hsize 0 xs
  have hindex : (start size blank xs).jobs.map Prod.fst = List.range' 0 xs.length := by
    rw [hjobs, List.map_fst_zip (by simp)]
  obtain ⟨hlen, hslots, -⟩ := finished_slots hrun hfin (hindex ▸ List.nodup_range')
    fun job hjob => by
      have hmem : job.1 ∈ List.range' 0 xs.length := hindex ▸ List.mem_map_of_mem hjob
      simpa [start] using hmem
  have hlen' : p'.slots.length = xs.length := by simpa [start] using hlen
  apply List.ext_getElem?
  intro i
  by_cases hi : i < xs.length
  · have hjob : (i, xs[i]) ∈ (start size blank xs).jobs := by
      rw [hjobs, List.mem_iff_getElem]
      exact ⟨i, by simpa using hi, by simp⟩
    rw [hslots _ hjob, List.getElem?_map, List.getElem?_eq_getElem hi]
    rfl
  · rw [List.getElem?_eq_none (by omega),
      List.getElem?_eq_none (by simpa using Nat.le_of_not_lt hi)]

end ForkJoin
