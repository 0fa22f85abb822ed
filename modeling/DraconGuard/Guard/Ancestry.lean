import DraconGuard.Guard.Oom
import DraconGuard.Lib.ParentWalk

/-!
# Ancestry in a snapshot

`process_is_descendant_of` and `nearest_biased_ancestor` (main.rs:2160 and 2193) walk up the map of
parents, 1024 links at most. Both are one walk (`isDescendantLoop_eq`, `nearestAncestorLoop_eq`).
**`ancestry_exact`**: the chain of parents of a process ends whatever the map is, and where it has
no more links than the walk takes both find what is on it.

The last of a chain is what it ends at, so it may be a pid that is no process: `0` above the first
one, or the process itself in a cycle.
-/

namespace DraconGuard

open ParentWalk

/-- Where the chain of parents ends at the latest. -/
def noProcess (pid : Pid) : Bool := pid ≤ 0

/-- The pids above a process, the nearest first. -/
def AncestorChain (parents : Pid → Option Pid) (pid : Pid) (chain : List Pid) : Prop :=
  Chain parents noProcess [pid] pid chain

variable {parents : Pid → Option Pid}

theorem isDescendantLoop_eq (root : Pid) (n : Nat) (seen : List Pid) (pid : Pid) :
    isDescendantLoop parents root n seen pid =
      (search parents noProcess (· == root) n seen pid).isSome := by
  induction n generalizing seen pid with
  | zero => rfl
  | succ n ih =>
    rw [isDescendantLoop, search]
    cases parents pid with
    | none => rfl
    | some parent =>
      by_cases hroot : parent = root
      · simp [hroot]
      · have hmiss : ¬ (parent == root) = true := by simpa using hroot
        dsimp only
        rw [if_neg hroot, if_neg hmiss]
        by_cases hend : (noProcess parent || seen.contains pid) = true
        · rw [if_pos hend]
          exact if_pos hend
        · rw [if_neg hend, ← ih]
          exact if_neg hend

theorem nearestAncestorLoop_eq (biased : Pid → Bool) (n : Nat) (seen : List Pid) (pid : Pid) :
    nearestAncestorLoop parents biased n seen pid = search parents noProcess biased n seen pid := by
  induction n generalizing seen pid with
  | zero => rfl
  | succ n ih =>
    rw [nearestAncestorLoop, search]
    cases parents pid with
    | none => rfl
    | some parent =>
      simp only [ih]
      rfl

/-- Every process has one chain of parents. -/
theorem exists_ancestorChain (parents : FinMap Pid Pid) (pid : Pid) :
    ∃ chain, AncestorChain parents.lookup pid chain ∧
      ∀ chain', AncestorChain parents.lookup pid chain' → chain' = chain := by
  have hkeys : ∀ a, (parents.lookup a).isSome = true → a ∈ parents.keys := fun a ha =>
    AList.mem_keys.mp (AList.lookup_isSome.mp ha)
  have hchain : ∃ chain, AncestorChain parents.lookup pid chain :=
    exists_chain hkeys (parents.keys.length + 1) (List.nodup_singleton pid)
      (fun b hb => Or.inr (List.mem_singleton.mp hb)) (by rw [List.length_singleton]; omega)
  obtain ⟨chain, hchain⟩ := hchain
  exact ⟨chain, hchain, fun chain' hchain' => hchain'.unique hchain⟩

/-- **Both walks are exact** where the chain has at most 1024 links. -/
theorem ancestry_exact (parents : FinMap Pid Pid) (pid : Pid) :
    ∃ chain, AncestorChain parents.lookup pid chain ∧
      (∀ chain', AncestorChain parents.lookup pid chain' → chain' = chain) ∧
      (chain.length ≤ 1024 →
        (∀ root, root ≠ pid →
          (processIsDescendantOf pid root parents.lookup = true ↔ root ∈ chain)) ∧
        ∀ biased, nearestBiasedAncestor pid parents.lookup biased = chain.find? biased) := by
  obtain ⟨chain, hchain, hunique⟩ := exists_ancestorChain parents pid
  refine ⟨chain, hchain, hunique, fun hlength => ?_⟩
  have hwalk : ∀ hit, search parents.lookup noProcess hit 1024 [] pid = chain.find? hit :=
    fun hit => search_eq_find hchain rfl List.not_mem_nil
      (fun _ hb => absurd hb List.not_mem_nil) hlength
  refine ⟨fun root hroot => ?_, fun biased => ?_⟩
  · rw [processIsDescendantOf, if_neg hroot.symm, isDescendantLoop_eq, hwalk, List.find?_isSome]
    simp
  · rw [nearestBiasedAncestor, nearestAncestorLoop_eq, hwalk]

end DraconGuard
