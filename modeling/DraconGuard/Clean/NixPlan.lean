import Mathlib.Data.Finset.Card
import DraconGuard.Clean.NixGenerations

/-!
# What a retention plan leaves of a profile

`nix_generations_to_delete_protecting` (main.rs:5357) for any list of numbers, in any order
and with repetitions. Its output is the deletions; what the profile keeps is the rest,
`retained`, and it is the spread and the protected generations, no more
(`toFinset_retained`). Counting it rests on `Spread.card_toFinset_pick`, and how far apart
the anchors stand on `Spread.gap_le`.

The product `i * (sorted.len() - 1)` of the source is below `2 ^ 64` for `u32` generations,
and the early return for `keep >= sorted.len()` is the general plan there: a spread of at
least as many anchors as generations skips none (`retainBySpread_of_length_le`).
-/

namespace DraconGuard

/-- The distinct generations the plan does not delete. -/
def retained (generations : List Nat) (keep : Nat) (shielded : List Nat) : Finset Nat :=
  generations.toFinset \
    (nixGenerationsToDeleteProtecting generations keep shielded).toFinset

/-- A position of the sorted profile that holds an anchor of the spread. -/
def AnchorAt (generations : List Nat) (keep a : Nat) : Prop :=
  ∃ g ∈ retainBySpread (sortedGenerations generations) keep,
    (sortedGenerations generations)[a]? = some g

/-! ## The sorted profile -/

theorem pairwise_lt_sortedGenerations (generations : List Nat) :
    (sortedGenerations generations).Pairwise (· < ·) := by
  have hle := pairwise_sortedGenerations generations
  have hne : (sortedGenerations generations).Pairwise (· ≠ ·) :=
    nodup_sortedGenerations generations
  exact (hle.and hne).imp fun h => Nat.lt_of_le_of_ne h.1 h.2

theorem toFinset_sortedGenerations (generations : List Nat) :
    (sortedGenerations generations).toFinset = generations.toFinset := by
  ext g
  simp

theorem length_sortedGenerations (generations : List Nat) :
    (sortedGenerations generations).length = generations.toFinset.card := by
  rw [← toFinset_sortedGenerations,
    List.toFinset_card_of_nodup (nodup_sortedGenerations generations)]

/-- The first generation in order is the lowest. -/
theorem sortedGenerations_head {generations : List Nat} {m : Nat}
    (hm : generations.min? = some m) : (sortedGenerations generations).head? = some m := by
  obtain ⟨hmem, hle⟩ := List.min?_eq_some_iff.mp hm
  have hmem' := mem_sortedGenerations.mpr hmem
  have hpair := pairwise_sortedGenerations generations
  cases hsorted : sortedGenerations generations with
  | nil => simp [hsorted] at hmem'
  | cons first rest =>
    rw [hsorted] at hmem' hpair
    have hfirst : first ∈ generations := by
      rw [← mem_sortedGenerations, hsorted]
      exact List.mem_cons_self
    have hge : first ≤ m := by
      rcases List.mem_cons.mp hmem' with rfl | hrest
      · exact Nat.le_refl _
      · exact List.rel_of_pairwise_cons hpair hrest
    have heq : first = m := Nat.le_antisymm hge (hle first hfirst)
    rw [heq, List.head?_cons]

/-! ## The spread -/

theorem mem_retainBySpread_of_two_le {sorted : List Nat} {keep g : Nat} (hkeep : 2 ≤ keep) :
    g ∈ retainBySpread sorted keep ↔ g ∈ Spread.pick sorted keep := by
  rw [retainBySpread, if_neg (by omega), List.mem_append]
  constructor
  · rintro (hpick | hlast)
    · exact hpick
    · exact Spread.getLast_mem_pick hkeep (by simpa using hlast)
  · exact Or.inl

theorem toFinset_retainBySpread {sorted : List Nat} {keep : Nat} (hkeep : 2 ≤ keep) :
    (retainBySpread sorted keep).toFinset = (Spread.pick sorted keep).toFinset := by
  ext g
  simp only [List.mem_toFinset]
  exact mem_retainBySpread_of_two_le hkeep

/-- As many anchors as asked for, or every generation of a shorter profile. -/
theorem card_retainBySpread {sorted : List Nat} {keep : Nat} (hsorted : sorted.Nodup)
    (hkeep : 1 ≤ keep) :
    (retainBySpread sorted keep).toFinset.card = min sorted.length keep := by
  rcases Nat.lt_or_ge 1 keep with htwo | hone
  · rw [toFinset_retainBySpread htwo, Spread.card_toFinset_pick hsorted htwo]
  · have hkeep1 : keep = 1 := by omega
    rw [retainBySpread, if_pos hone, hkeep1]
    cases hlast : sorted.getLast? with
    | none => simp [List.getLast?_eq_none_iff.mp hlast]
    | some m =>
      have hpos : 0 < sorted.length := List.length_pos_of_mem (List.mem_of_getLast? hlast)
      simp
      omega

/-- A profile of at most `keep` generations: the spread is all of it. -/
theorem retainBySpread_of_length_le {sorted : List Nat} {keep g : Nat}
    (hlen : sorted.length ≤ keep) (hg : g ∈ sorted) : g ∈ retainBySpread sorted keep := by
  rcases Nat.lt_or_ge 1 keep with htwo | hone
  · exact (mem_retainBySpread_of_two_le htwo).mpr (Spread.subset_pick htwo hlen hg)
  · obtain ⟨h, rfl⟩ := List.length_eq_one_iff.mp
      (Nat.le_antisymm (Nat.le_trans hlen hone) (List.length_pos_of_mem hg))
    rw [List.mem_singleton.mp hg]
    exact getLast_mem_retainBySpread keep rfl

/-- No stretch of the profile longer than the exact step rounded up is without an anchor. -/
theorem anchor_gap_le {generations : List Nat} {keep a b : Nat} (hkeep : 2 ≤ keep)
    (hab : a < b) (hb : b < (sortedGenerations generations).length)
    (hnone : ∀ c, a < c → c < b → ¬ AnchorAt generations keep c) :
    b - a ≤ ((sortedGenerations generations).length - 1) ⌈/⌉ (keep - 1) := by
  refine Spread.gap_le hkeep hab hb fun i hi => ?_
  by_contra hbetween
  rw [not_or] at hbetween
  have hlt := Spread.index_lt hi (Nat.zero_lt_of_lt hb)
  have hget := List.getElem?_eq_getElem hlt
  refine hnone _ (Nat.lt_of_not_le hbetween.1) (Nat.lt_of_not_le hbetween.2) ⟨_, ?_, hget⟩
  exact (mem_retainBySpread_of_two_le hkeep).mpr (Spread.mem_pick.mpr ⟨i, hi, hget⟩)

/-! ## The plan -/

theorem plan_pairwise (generations : List Nat) (keep : Nat) (shielded : List Nat) :
    (nixGenerationsToDeleteProtecting generations keep shielded).Pairwise (· < ·) := by
  unfold nixGenerationsToDeleteProtecting
  dsimp only
  split
  · exact List.Pairwise.nil
  · split
    · exact List.Pairwise.nil
    · exact (pairwise_lt_sortedGenerations generations).filter _

/-- **What is kept**: the spread, and the protected generations of the profile. -/
theorem toFinset_retained (generations : List Nat) (keep : Nat) (shielded : List Nat) :
    retained generations keep shielded =
      (retainBySpread (sortedGenerations generations) keep).toFinset ∪
        (shielded.toFinset ∩ generations.toFinset) := by
  ext g
  simp only [retained, Finset.mem_sdiff, Finset.mem_union, Finset.mem_inter,
    List.mem_toFinset, mem_plan_iff]
  constructor
  · rintro ⟨hg, hplan⟩
    by_cases hmany : keep < (sortedGenerations generations).length
    · by_contra hneither
      rw [not_or, not_and] at hneither
      exact hplan ⟨hmany, hg, hneither.1, fun hs => hneither.2 hs hg⟩
    · have hg' := mem_sortedGenerations.mpr hg
      exact Or.inl (retainBySpread_of_length_le (Nat.le_of_not_lt hmany) hg')
  · rintro (hspread | ⟨hshield, hg⟩)
    · exact ⟨mem_sortedGenerations.mp (retainBySpread_subset hspread),
        fun hplan => hplan.2.2.1 hspread⟩
    · exact ⟨hg, fun hplan => hplan.2.2.2 hshield⟩

theorem card_retained {generations shielded : List Nat} {keep : Nat} (hkeep : 1 ≤ keep) :
    (retained generations keep shielded).card =
      min generations.toFinset.card keep +
        ((shielded.toFinset ∩ generations.toFinset) \
          (retainBySpread (sortedGenerations generations) keep).toFinset).card := by
  have hspread := card_retainBySpread (nodup_sortedGenerations generations) hkeep
  rw [length_sortedGenerations] at hspread
  rw [toFinset_retained, Finset.union_comm, ← Finset.card_sdiff_add_card, hspread,
    Nat.add_comm]

/-- The two ends of the profile are anchors. -/
theorem ends_mem_retainBySpread {generations : List Nat} {keep m : Nat} (hkeep : 2 ≤ keep)
    (hm : generations.min? = some m ∨ generations.max? = some m) :
    m ∈ retainBySpread (sortedGenerations generations) keep := by
  rcases hm with hmin | hmax
  · have hhead := sortedGenerations_head hmin
    rw [mem_retainBySpread_of_two_le hkeep]
    obtain ⟨rest, hsorted⟩ := List.head?_eq_some_iff.mp hhead
    rw [hsorted]
    exact Spread.head_mem_pick (by omega)
  · exact getLast_mem_retainBySpread keep (sortedGenerations_getLast hmax)

/-- **The generation plan**: it ascends, names listed generations only, and never a protected
one or the highest; what stays is as many as asked for and the protected ones besides; from
two on, both ends stay, and anchors next to each other are at most the exact step, rounded
up, apart. -/
theorem generation_plan_spread (generations shielded : List Nat) (keep : Nat)
    (hkeep : 1 ≤ keep) :
    (nixGenerationsToDeleteProtecting generations keep shielded).Pairwise (· < ·) ∧
      nixGenerationsToDeleteProtecting generations keep shielded ⊆ generations ∧
      (∀ g ∈ nixGenerationsToDeleteProtecting generations keep shielded,
        g ∉ shielded ∧ generations.max? ≠ some g) ∧
      (retained generations keep shielded).card =
        min generations.toFinset.card keep +
          ((shielded.toFinset ∩ generations.toFinset) \
            (retainBySpread (sortedGenerations generations) keep).toFinset).card ∧
      (2 ≤ keep →
        (∀ m, generations.min? = some m ∨ generations.max? = some m →
          m ∈ retainBySpread (sortedGenerations generations) keep ∧
            m ∈ retained generations keep shielded) ∧
        (∀ g ∈ retainBySpread (sortedGenerations generations) keep,
          g ∈ retained generations keep shielded) ∧
        ∀ a b, a < b → AnchorAt generations keep a → AnchorAt generations keep b →
          (∀ c, a < c → c < b → ¬ AnchorAt generations keep c) →
          b - a ≤ (generations.toFinset.card - 1) ⌈/⌉ (keep - 1)) := by
  have hspread : ∀ g ∈ retainBySpread (sortedGenerations generations) keep,
      g ∈ retained generations keep shielded := by
    intro g hg
    rw [toFinset_retained]
    exact Finset.mem_union_left _ (List.mem_toFinset.mpr hg)
  refine ⟨plan_pairwise generations keep shielded, ?_, ?_, card_retained hkeep, ?_⟩
  · intro g hg
    exact (mem_plan_iff.mp hg).2.1
  · intro g hg
    obtain ⟨-, -, hout, hshield⟩ := mem_plan_iff.mp hg
    refine ⟨hshield, fun hmax => hout ?_⟩
    exact getLast_mem_retainBySpread keep (sortedGenerations_getLast hmax)
  · intro htwo
    refine ⟨fun m hm => ?_, hspread, ?_⟩
    · have hend := ends_mem_retainBySpread htwo hm
      exact ⟨hend, hspread m hend⟩
    · rintro a b hab - ⟨g, -, hb⟩ hnone
      have hlt : b < (sortedGenerations generations).length :=
        (List.getElem?_eq_some_iff.mp hb).1
      have hgap := anchor_gap_le htwo hab hlt hnone
      rwa [length_sortedGenerations] at hgap

/-- Ten generations in any order, three asked for, and one protected between the anchors. -/
theorem generation_plan_spread_ten :
    let generations := [7, 3, 10, 1, 4, 4, 2, 9, 8, 6, 5, 7]
    nixGenerationsToDeleteProtecting generations 3 [4] = [2, 3, 6, 7, 8, 9] ∧
      (retained generations 3 [4]).card = 4 ∧
      (∀ a b, a < b → AnchorAt generations 3 a → AnchorAt generations 3 b →
        (∀ c, a < c → c < b → ¬ AnchorAt generations 3 c) → b - a ≤ 5) := by
  intro generations
  have hlaw := generation_plan_spread generations [4] 3 (by decide)
  refine ⟨by decide, hlaw.2.2.2.1.trans (by decide), ?_⟩
  intro a b hab ha hb hnone
  exact Nat.le_trans ((hlaw.2.2.2.2 (by decide)).2.2 a b hab ha hb hnone) (by decide)

end DraconGuard
