import Mathlib.Data.List.Nodup
import Mathlib.Data.List.Perm.Subperm

/-!
# Walking up a map of parents

The map may miss a parent, lead outside, or lead back to where the walk has been: there a chain of
parents ends (`Chain`). It does so whatever the map is, if the map is finite (`exists_chain`). A
walk that looks for the first parent of a kind, and takes a bounded number of links, finds it on the
chain if the chain has no more links than that (`search_eq_find`).
-/

namespace ParentWalk

variable {α : Type} [DecidableEq α] (parents : α → Option α) (outside : α → Bool)

/-- The parents above `a`, the nearest first. The last is outside, seen before or without a
parent. -/
inductive Chain : List α → α → List α → Prop
  | missing {seen : List α} {a : α} : parents a = none → Chain seen a []
  | last {seen : List α} {a b : α} : parents a = some b → outside b = true ∨ b ∈ seen →
      Chain seen a [b]
  | link {seen : List α} {a b : α} {rest : List α} : parents a = some b → outside b = false →
      b ∉ seen → Chain (b :: seen) b rest → Chain seen a (b :: rest)

/-- The loop: at most so many links, with the nodes that have been left in `seen`. -/
def search (hit : α → Bool) : Nat → List α → α → Option α
  | 0, _, _ => none
  | n + 1, seen, a =>
    match parents a with
    | none => none
    | some b =>
      if hit b then some b
      else if outside b || seen.contains a then none
      else search hit n (a :: seen) b

variable {parents outside}

/-! ## The chain -/

omit [DecidableEq α] in
theorem Chain.unique {seen : List α} {a : α} {chain chain' : List α}
    (h : Chain parents outside seen a chain) (h' : Chain parents outside seen a chain') :
    chain = chain' := by
  induction h generalizing chain' with
  | missing hnone =>
    cases h' with
    | missing => rfl
    | last hsome => rw [hnone] at hsome; cases hsome
    | link hsome => rw [hnone] at hsome; cases hsome
  | last hsome hend =>
    cases h' with
    | missing hnone => rw [hsome] at hnone; cases hnone
    | last hsome' =>
      rw [hsome] at hsome'
      rw [Option.some.inj hsome']
    | link hsome' hinside hseen =>
      obtain rfl := Option.some.inj (hsome.symm.trans hsome')
      rcases hend with hout | hin
      · rw [hout] at hinside
        cases hinside
      · exact absurd hin hseen
  | link hsome hinside hseen _ ih =>
    cases h' with
    | missing hnone => rw [hsome] at hnone; cases hnone
    | last hsome' hend =>
      obtain rfl := Option.some.inj (hsome.symm.trans hsome')
      rcases hend with hout | hin
      · rw [hinside] at hout
        cases hout
      · exact absurd hin hseen
    | link hsome' _ _ hrest =>
      obtain rfl := Option.some.inj (hsome.symm.trans hsome')
      rw [ih hrest]

/-- A finite map has a chain above every node: each link takes a node that was not seen. -/
theorem exists_chain {keys : List α} (hkeys : ∀ a, (parents a).isSome = true → a ∈ keys)
    (n : Nat) : ∀ {seen : List α} {a : α}, seen.Nodup → (∀ b ∈ seen, b ∈ keys ∨ b = a) →
      keys.length + 2 ≤ seen.length + n → ∃ chain, Chain parents outside seen a chain := by
  induction n with
  | zero =>
    intro seen a hnodup hseen hlength
    have hsub : seen ⊆ a :: keys := fun b hb =>
      List.mem_cons.mpr ((hseen b hb).symm)
    have hle := (List.subperm_of_subset hnodup hsub).length_le
    rw [List.length_cons] at hle
    omega
  | succ n ih =>
    intro seen a hnodup hseen hlength
    cases hparent : parents a with
    | none => exact ⟨[], .missing hparent⟩
    | some b =>
      by_cases hend : outside b = true ∨ b ∈ seen
      · exact ⟨[b], .last hparent hend⟩
      · rw [not_or] at hend
        have ha : a ∈ keys := hkeys a (by rw [hparent]; rfl)
        obtain ⟨rest, hrest⟩ := ih (List.nodup_cons.mpr ⟨hend.2, hnodup⟩)
          (fun c hc => (List.mem_cons.mp hc).elim Or.inr fun hc =>
            Or.inl ((hseen c hc).elim id fun heq => heq ▸ ha))
          (by rw [List.length_cons]; omega)
        exact ⟨b :: rest, .link hparent (Bool.eq_false_iff.mpr hend.1) hend.2 hrest⟩

/-! ## The walk -/

variable {hit : α → Bool}

/-- Back where it has been, the walk finds nothing any more. -/
theorem search_seen {n : Nat} {seen : List α} {a : α} (ha : a ∈ seen)
    (hpast : ∀ b ∈ seen, ∀ c, parents b = some c → hit c = false) :
    search parents outside hit n seen a = none := by
  cases n with
  | zero => rfl
  | succ n =>
    rw [search]
    cases hparent : parents a with
    | none => rfl
    | some b =>
      have hseen : (outside b || seen.contains a) = true := by simp [ha]
      have hmiss : ¬ hit b = true := Bool.eq_false_iff.mp (hpast a ha b hparent)
      dsimp only
      rw [if_neg hmiss, if_pos hseen]

/-- **The walk finds the first hit on the chain.** -/
theorem search_eq_find {n : Nat} {visited seen : List α} {a : α} {chain : List α}
    (h : Chain parents outside visited a chain) (hvisited : visited = a :: seen) (ha : a ∉ seen)
    (hpast : ∀ b ∈ seen, ∀ c, parents b = some c → hit c = false) (hlength : chain.length ≤ n) :
    search parents outside hit n seen a = chain.find? hit := by
  induction h generalizing n seen with
  | missing hnone =>
    cases n with
    | zero => rfl
    | succ n => rw [search, hnone, List.find?_nil]
  | @last _ a b hsome hend =>
    obtain ⟨n, rfl⟩ := Nat.exists_eq_add_one.mpr (Nat.lt_of_lt_of_le Nat.one_pos hlength)
    rw [search, hsome, List.find?_cons, List.find?_nil]
    cases hb : hit b with
    | true => simp [hb]
    | false =>
      have hnone : search parents outside hit n (a :: seen) b = none ∨ outside b = true := by
        rcases hend with hout | hin
        · exact Or.inr hout
        · refine Or.inl (search_seen (hvisited ▸ hin) fun c hc d hd => ?_)
          rcases List.mem_cons.mp hc with rfl | hc
          · rw [hsome] at hd
            rw [← Option.some.inj hd, hb]
          · exact hpast c hc d hd
      rcases hnone with hnone | hout
      · simp [hb, hnone]
      · simp [hb, hout]
  | @link _ a b rest hsome hinside hseen _ ih =>
    obtain ⟨n, rfl⟩ := Nat.exists_eq_add_one.mpr
      (Nat.lt_of_lt_of_le (Nat.succ_pos rest.length) hlength)
    rw [search, hsome, List.find?_cons]
    cases hb : hit b with
    | true => simp [hb]
    | false =>
      have hgo : ¬ (outside b || seen.contains a) = true := by simp [hinside, ha]
      have hagain : b :: _ = b :: a :: seen := congrArg (b :: ·) hvisited
      have hrest := ih (n := n) hagain (hvisited ▸ hseen)
        (fun c hc d hd => by
          rcases List.mem_cons.mp hc with rfl | hc
          · rw [hsome] at hd
            rw [← Option.some.inj hd, hb]
          · exact hpast c hc d hd) (Nat.le_of_succ_le_succ hlength)
      dsimp only
      rw [hb, if_neg Bool.false_ne_true, if_neg hgo, hrest]

end ParentWalk
