import DraconGuard.Lib.Watch
import Mathlib.Data.List.Forall2

/-!
# Reads between two sightings of a stamp

A program that reads several things of a world it does not own gets them at different instants. If
it looks at a stamp before and after, and the world never shows a stamp again that was gone
(`NeverBack`), then two equal sightings say that all it read in between was read under that stamp.
-/

namespace Watch

variable {ω ε α β τ : Type} {w : Nat → ω}

/-- The stamp is `t` at every instant from `i` to `j`. -/
def Stands (w : Nat → ω) (stamp : ω → Option τ) (t : τ) (i j : Nat) : Prop :=
  ∀ k, i ≤ k → k ≤ j → stamp (w k) = some t

/-- A stamp that was gone is not seen again: two equal sightings say that it stood all the time
between. -/
def NeverBack (w : Nat → ω) (stamp : ω → Option τ) : Prop :=
  ∀ i j t, stamp (w i) = some t → stamp (w j) = some t → Stands w stamp t i j

/-- At an instant from `i` on and before `j` the world was so. -/
def SeenIn (w : Nat → ω) (i j : Nat) (p : ω → Prop) : Prop := ∃ k, i ≤ k ∧ k < j ∧ p (w k)

theorem SeenIn.mono {i i' j j' : Nat} {p : ω → Prop} (h : SeenIn w i j p) (hi : i' ≤ i)
    (hj : j ≤ j') : SeenIn w i' j' p := by
  obtain ⟨k, hik, hkj, hp⟩ := h
  exact ⟨k, by omega, by omega, hp⟩

theorem SeenIn.le {i j : Nat} {p : ω → Prop} (h : SeenIn w i j p) : i ≤ j := by
  obtain ⟨k, hik, hkj, -⟩ := h
  omega

theorem SeenIn.imp {i j : Nat} {p q : ω → Prop} (h : SeenIn w i j p) (hpq : ∀ v, p v → q v) :
    SeenIn w i j q := by
  obtain ⟨k, hik, hkj, hp⟩ := h
  exact ⟨k, hik, hkj, hpq _ hp⟩

theorem Stands.mono {stamp : ω → Option τ} {t : τ} {i i' j j' : Nat} (h : Stands w stamp t i j)
    (hi : i ≤ i') (hj : j' ≤ j) : Stands w stamp t i' j' :=
  fun k hik hkj => h k (by omega) (by omega)

/-! ## Rules -/

/-- What is known when a program begins is kept as knowledge of that instant, and the program goes
on after it. -/
theorem On.freeze {P : Progress ε → Prop} {prog : Prog ω ε α} {Q : α → Progress ε → Prop}
    (h : ∀ s₀, P s₀ → On w (fun s => s₀.now ≤ s.now) prog Q) : On w P prog Q :=
  fun s hs => h s hs s (Nat.le_refl _)

/-- Time does not go back in a program that advances. -/
theorem Advances.now_le {prog : Prog ω ε α} (h : Advances prog) (w : Nat → ω) (s : Progress ε) :
    s.now ≤ (prog w s).2.now := (h w s).now

/-- A program that begins after an instant ends after it. -/
theorem Advances.after {prog : Prog ω ε α} (h : Advances prog) (n : Nat) :
    On w (fun s => n ≤ s.now) prog fun _ s => n ≤ s.now :=
  h.keeps fun _ _ hlater hn => Nat.le_trans hn hlater.now

/-- What a look answers was so at its instant. -/
theorem look_seen (f : ω → α) (n : Nat) : On w (fun s : Progress ε => n ≤ s.now) (look f)
    fun a s => SeenIn w n s.now fun v => f v = a :=
  On.look fun s hs => ⟨s.now, hs, Nat.lt_succ_self _, rfl⟩

theorem Advances.each {f : α → Prog ω ε β} (h : ∀ a, Advances (f a)) :
    ∀ as, Advances (each f as)
  | [] => Advances.pure _
  | a :: as => (h a).bind fun _ => (Advances.each h as).bind fun _ => Advances.pure _

/-- A loop answers for every element what its body answers for one, between its own beginning and
end. -/
theorem On.each {R : α → β → Nat → Nat → Prop} {f : α → Prog ω ε β} (hadv : ∀ a, Advances (f a))
    (hmono : ∀ a b n n' m m', n' ≤ n → m ≤ m' → R a b n m → R a b n' m')
    (hf : ∀ a n, On w (fun s => n ≤ s.now) (f a) fun b s => R a b n s.now) (n : Nat) (as : List α) :
    On w (fun s => n ≤ s.now) (each f as) fun bs s =>
      n ≤ s.now ∧ List.Forall₂ (fun a b => R a b n s.now) as bs := by
  induction as generalizing n with
  | nil => exact On.pure fun s hs => ⟨hs, .nil⟩
  | cons a as ih =>
    refine ((hf a n).and ((hadv a).after n)).bind fun b => On.freeze fun s₁ hs₁ => ?_
    refine (ih s₁.now).bind fun bs => On.pure fun s hs => ⟨Nat.le_trans hs₁.2 hs.1, .cons ?_ ?_⟩
    · exact hmono a b _ _ _ _ (Nat.le_refl _) hs.1 hs₁.1
    · exact hs.2.imp fun a' b' h => hmono a' b' _ _ _ _ hs₁.2 (Nat.le_refl _) h

/-- Two passes over a list, one after the other. -/
theorem forall₂_trans {γ : Type} {R : α → β → Prop} {S : β → γ → Prop} {T : α → γ → Prop}
    (h : ∀ a b c, R a b → S b c → T a c) {as : List α} {bs : List β} {cs : List γ}
    (hR : List.Forall₂ R as bs) (hS : List.Forall₂ S bs cs) : List.Forall₂ T as cs := by
  induction hR generalizing cs with
  | nil =>
    cases hS
    exact .nil
  | cons hab _ ih =>
    cases hS with
    | cons hbc hS => exact .cons (h _ _ _ hab hbc) (ih hS)

/-- The visits of a loop lie between its beginning and its end. -/
theorem now_of_mem_visits {f : α → Prog ω ε β} (hadv : ∀ a, Advances (f a))
    {visit : Visit α β ε} : ∀ {as : List α} {s : Progress ε}, visit ∈ visits f w as s →
      s.now ≤ visit.before.now ∧ visit.after.now ≤ (each f as w s).2.now
  | a :: as, s, h => by
    have hlater : (f a w s).2.now ≤ (Watch.each f as w (f a w s).2).2.now :=
      (Advances.each hadv as).now_le w _
    rcases List.mem_cons.mp h with rfl | h
    · exact ⟨Nat.le_refl _, hlater⟩
    · obtain ⟨hbegin, hend⟩ := now_of_mem_visits hadv h
      exact ⟨Nat.le_trans ((hadv a).now_le w s) hbegin, hend⟩

end Watch
