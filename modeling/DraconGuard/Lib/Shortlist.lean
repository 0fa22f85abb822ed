import Mathlib.Data.List.Sort

/-!
# Bounded shortlists

The `k` first elements of a stream in some order, kept in a list that never holds more than
`k + 1`: each element is appended, the list sorted and cut. `TopOf` says what the list is
without its history, an initial stretch of a sorted arrangement of everything seen. Every
arrival keeps it (`TopOf.arrive`), ties or not; where the order separates the elements there is
one such stretch only (`TopOf.unique`), whatever the order of arrival.
-/

namespace Shortlist

variable {α : Type*} (r : α → α → Prop) (k : Nat)

/-- `top` starts a sorted arrangement of `xs`, and is as long as `k` allows. -/
def TopOf (xs top : List α) : Prop :=
  ∃ rest, (top ++ rest).Perm xs ∧ (top ++ rest).Pairwise r ∧ top.length = min k xs.length

/-- One arrival. -/
def arrive [DecidableRel r] (top : List α) (x : α) : List α :=
  ((top ++ [x]).insertionSort r).take k

variable {r k} {xs ys top top' : List α} {x : α}

theorem TopOf.nil : TopOf r k [] [] := ⟨[], List.Perm.refl _, List.Pairwise.nil, by simp⟩

theorem TopOf.of_perm (h : TopOf r k xs top) (hperm : xs.Perm ys) : TopOf r k ys top := by
  obtain ⟨rest, harr, hsorted, hlen⟩ := h
  exact ⟨rest, harr.trans hperm, hsorted, by rw [hlen, hperm.length_eq]⟩

/-- The shortlist is the first `k` of a sorted arrangement. -/
theorem TopOf.exists_eq_take (h : TopOf r k xs top) :
    ∃ ranked : List α, ranked.Perm xs ∧ ranked.Pairwise r ∧ top = ranked.take k := by
  obtain ⟨rest, hperm, hsorted, hlen⟩ := h
  refine ⟨top ++ rest, hperm, hsorted, ?_⟩
  have hxs := hperm.length_eq
  rw [List.length_append] at hxs
  rcases Nat.lt_or_ge xs.length k with hshort | hlong
  · have hrest : rest = [] := List.eq_nil_of_length_eq_zero (by omega)
    rw [hrest, List.append_nil, List.take_of_length_le (by omega)]
  · have hfull : top.length = k := by omega
    rw [← hfull, List.take_left]

section Step

variable [DecidableRel r] (htotal : ∀ a b, r a b ∨ r b a)
  (htrans : ∀ a b c, r a b → r b c → r a c)

include htotal htrans

theorem pairwise_insertionSort (xs : List α) : (xs.insertionSort r).Pairwise r := by
  have : Std.Total r := ⟨htotal⟩
  have : IsTrans α r := ⟨htrans⟩
  exact List.pairwise_insertionSort r xs

/-- What a full list keeps comes before what it did not hold before. -/
theorem arrive_before {rest : List α} (hsorted : (top ++ rest).Pairwise r)
    (hfull : top.length = k) {a b : α} (ha : a ∈ arrive r k top x) (hb : b ∈ rest) : r a b := by
  have hcross := (List.pairwise_append.mp hsorted).2.2
  have hsort := pairwise_insertionSort htotal htrans (top ++ [x])
  have hperm := List.perm_insertionSort r (top ++ [x])
  unfold arrive at ha
  rw [← List.take_append_drop k ((top ++ [x]).insertionSort r)] at hsort hperm
  obtain ⟨y, hy⟩ : ∃ y, ((top ++ [x]).insertionSort r).drop k = [y] := by
    rw [← List.length_eq_one_iff, List.length_drop, List.length_insertionSort,
      List.length_append, hfull, List.length_singleton]
    omega
  rw [hy] at hsort hperm
  have hay : r a y := (List.pairwise_append.mp hsort).2.2 a ha y List.mem_cons_self
  -- the element that falls off is an old one, or it is the arrival
  have hold : y ∈ top ++ [x] := hperm.mem_iff.mp (by simp)
  rcases List.mem_append.mp hold with htop | harrival
  · exact htrans a y b hay (hcross y htop b hb)
  · obtain rfl := List.mem_singleton.mp harrival
    have hsame := (List.perm_append_right_iff [y]).mp hperm
    exact hcross a (hsame.mem_iff.mp ha) b hb

/-- **One more element.** -/
theorem TopOf.arrive (h : TopOf r k xs top) (x : α) :
    TopOf r k (xs ++ [x]) (Shortlist.arrive r k top x) := by
  obtain ⟨rest, hperm, hsorted, hlen⟩ := h
  have hxs := hperm.length_eq
  rw [List.length_append] at hxs
  have hsort := pairwise_insertionSort htotal htrans (top ++ [x])
  have hsplit := List.take_append_drop k ((top ++ [x]).insertionSort r)
  rw [← hsplit] at hsort
  obtain ⟨hkept, -, hcut⟩ := List.pairwise_append.mp hsort
  refine ⟨(((top ++ [x]).insertionSort r).drop k ++ rest).insertionSort r, ?_, ?_, ?_⟩
  · have hjoin : Shortlist.arrive r k top x ++
        (((top ++ [x]).insertionSort r).drop k ++ rest) = (top ++ [x]).insertionSort r ++ rest := by
      rw [← List.append_assoc, Shortlist.arrive, hsplit]
    have hlast : ((top ++ [x]) ++ rest).Perm ((top ++ rest) ++ [x]) := by
      rw [List.append_assoc, List.append_assoc]
      exact List.perm_append_comm.append_left top
    refine ((List.perm_insertionSort r _).append_left _).trans ?_
    rw [hjoin]
    exact ((List.perm_insertionSort r _).append_right rest).trans
      (hlast.trans (hperm.append_right [x]))
  · refine List.pairwise_append.mpr
      ⟨hkept, pairwise_insertionSort htotal htrans _, fun a ha b hb => ?_⟩
    rcases List.mem_append.mp ((List.perm_insertionSort r _).mem_iff.mp hb) with hb | hb
    · exact hcut a ha b hb
    · have hpos : 0 < rest.length := List.length_pos_of_mem hb
      exact arrive_before htotal htrans hsorted (by omega) ha hb
  · rw [Shortlist.arrive, List.length_take, List.length_insertionSort, List.length_append,
      List.length_append, hlen]
    simp only [List.length_singleton]
    omega

/-- **A whole stream.** -/
theorem TopOf.foldl (h : TopOf r k xs top) (ys : List α) :
    TopOf r k (xs ++ ys) (ys.foldl (Shortlist.arrive r k) top) := by
  induction ys generalizing xs top with
  | nil => rwa [List.append_nil]
  | cons y ys ih =>
    have hrest := ih (h.arrive htotal htrans y)
    rwa [List.append_assoc, List.singleton_append] at hrest

end Step

/-- Where no two different elements are tied, there is one shortlist. -/
theorem TopOf.unique (hties : ∀ a ∈ xs, ∀ b ∈ xs, r a b → r b a → a = b)
    (h : TopOf r k xs top) (h' : TopOf r k xs top') : top = top' := by
  obtain ⟨rest, hperm, hsorted, hlen⟩ := h
  obtain ⟨rest', hperm', hsorted', hlen'⟩ := h'
  have heq : top ++ rest = top' ++ rest' := by
    refine List.Perm.eq_of_pairwise (fun a b ha hb => ?_) hsorted hsorted'
      (hperm.trans hperm'.symm)
    exact hties a (hperm.mem_iff.mp ha) b (hperm'.mem_iff.mp hb)
  exact (List.append_inj heq (hlen.trans hlen'.symm)).1

end Shortlist
