import Mathlib.Logic.Function.Basic

/-!
# Programs over shared state, run in any order

Actors run programs made of atomic operations on a state they share. Between two operations of one
of them any of the others may act, one may end or die, the outside may change the state, and
everything may stop at once.

To reason about one actor at a time, each carries what it *knows*. A `Discipline` says which
operations its knowledge allows, what it may expect of an answer and what it learns from it; `Safe`
is the check of one program against it, by recursion on the program. `Rules` asks that an allowed
operation keeps the invariant and makes the new knowledge true, and that the knowledge of the others
stays true. Then the invariant holds in every state of every run (`Rules.reachable`), and an actor
about to act knows what allows it to (`Rules.acting`).
-/

namespace Interleave

variable {Op : Type} {Answer : Op → Type} {α β κ ω : Type}

/-! ## Programs -/

/-- A program that returns an `α`, one atomic operation at a time. -/
inductive Prog (Answer : Op → Type) (α : Type) : Type
  | done (a : α)
  | call (o : Op) (next : Answer o → Prog Answer α)

namespace Prog

def bind : Prog Answer α → (α → Prog Answer β) → Prog Answer β
  | .done a, f => f a
  | .call o next, f => .call o fun r => (next r).bind f

instance : Monad (Prog Answer) where
  pure := .done
  bind := .bind

def perform (o : Op) : Prog Answer (Answer o) := .call o .done

end Prog

/-! ## Knowledge -/

/-- What an actor that knows `κ` may do, may expect and will know. -/
structure Discipline (Answer : Op → Type) (κ : Type) where
  allowed : κ → Op → Prop
  expects : κ → (o : Op) → Answer o → Prop
  learn : κ → (o : Op) → Answer o → κ

/-- Every operation of the program is allowed by what is known when it comes, and the program ends
with `post`. -/
def Safe (d : Discipline Answer κ) (k : κ) (prog : Prog Answer α) (post : κ → α → Prop) : Prop :=
  match prog with
  | .done a => post k a
  | .call o next =>
    d.allowed k o ∧ ∀ r, d.expects k o r → Safe d (d.learn k o r) (next r) post

section Safe

variable {d : Discipline Answer κ} {k : κ} {post post' : κ → α → Prop}

theorem Safe.mono {prog : Prog Answer α} (h : Safe d k prog post)
    (hpost : ∀ k a, post k a → post' k a) : Safe d k prog post' := by
  induction prog generalizing k with
  | done a => exact hpost k a h
  | call o next ih => exact ⟨h.1, fun r hr => ih r (h.2 r hr)⟩

theorem Safe.pure {a : α} (h : post k a) : Safe d k (Pure.pure a : Prog Answer α) post := h

theorem Safe.perform {o : Op} {post : κ → Answer o → Prop} (hallowed : d.allowed k o)
    (h : ∀ r, d.expects k o r → post (d.learn k o r) r) : Safe d k (Prog.perform o) post :=
  ⟨hallowed, h⟩

theorem Safe.bind {prog : Prog Answer α} {f : α → Prog Answer β} {post : κ → β → Prop}
    (h : Safe d k prog fun k a => Safe d k (f a) post) : Safe d k (prog >>= f) post := by
  induction prog generalizing k with
  | done a => exact h
  | call o next ih => exact ⟨h.1, fun r hr => ih r (h.2 r hr)⟩

/-! ### Programs that may fail -/

variable {ε : Type}

theorem Safe.pureE {a : α} {post : κ → Except ε α → Prop} (h : post k (.ok a)) :
    Safe d k (Pure.pure a : ExceptT ε (Prog Answer) α).run post := h

theorem Safe.bindE {prog : ExceptT ε (Prog Answer) α} {f : α → ExceptT ε (Prog Answer) β}
    {post : κ → Except ε β → Prop}
    (h : Safe d k prog.run fun k r => match r with
      | .ok a => Safe d k (f a).run post
      | .error e => post k (.error e)) : Safe d k (prog >>= f).run post := by
  refine Safe.bind (h.mono fun k r hr => ?_)
  cases r with
  | ok a => exact hr
  | error e => exact hr

end Safe

/-! ## Runs -/

/-- What the actors run on. -/
structure Machine (Answer : Op → Type) (ω : Type) where
  /-- Actor `i` performs the operation, is answered and leaves a state behind. -/
  exec : Nat → ω → (o : Op) → Answer o → ω → Prop
  /-- The programs that may be started. -/
  programs : ω → Prog Answer Unit → Prop
  /-- An actor ends or dies. -/
  leave : Nat → ω → ω
  outside : ω → ω → Prop
  /-- All actors die at once. -/
  reboot : ω → ω → Prop

structure Sys (Answer : Op → Type) (ω : Type) where
  world : ω
  actors : Nat → Option (Prog Answer Unit)

/-- One step in which every operation meets the condition. -/
inductive Step (m : Machine Answer ω) (met : Nat → ω → Op → Prop) :
    Sys Answer ω → Sys Answer ω → Prop
  | act {s : Sys Answer ω} {i : Nat} {o : Op} {next : Answer o → Prog Answer Unit} {r : Answer o}
      {w : ω} (hactor : s.actors i = some (.call o next)) (hexec : m.exec i s.world o r w)
      (hmet : met i s.world o) :
      Step m met s { world := w, actors := Function.update s.actors i (some (next r)) }
  | start {s : Sys Answer ω} {i : Nat} {prog : Prog Answer Unit} (hfree : s.actors i = none)
      (hprog : m.programs s.world prog) :
      Step m met s { s with actors := Function.update s.actors i (some prog) }
  | leave {s : Sys Answer ω} (i : Nat) : Step m met s
      { world := m.leave i s.world, actors := Function.update s.actors i none }
  | outside {s : Sys Answer ω} {w : ω} (h : m.outside s.world w) :
      Step m met s { s with world := w }
  | reboot {s : Sys Answer ω} {w : ω} (h : m.reboot s.world w) :
      Step m met s { world := w, actors := fun _ => none }

/-- A run from an initial state without actors. -/
inductive Reachable (m : Machine Answer ω) (met : Nat → ω → Op → Prop) (init : ω → Prop) :
    Sys Answer ω → Prop
  | init {w : ω} (h : init w) : Reachable m met init { world := w, actors := fun _ => none }
  | step {s s' : Sys Answer ω} (hs : Reachable m met init s) (h : Step m met s s') :
      Reachable m met init s'

/-- The next operation of a program under way. -/
theorem Reachable.act {m : Machine Answer ω} {met : Nat → ω → Op → Prop} {init : ω → Prop}
    {w w' : ω} {a : Nat → Option (Prog Answer Unit)} {i : Nat} {o : Op}
    {next : Answer o → Prog Answer Unit} {r : Answer o}
    (hs : Reachable m met init
      { world := w, actors := Function.update a i (some (.call o next)) })
    (hexec : m.exec i w o r w') (hmet : met i w o) :
    Reachable m met init { world := w', actors := Function.update a i (some (next r)) } := by
  have hstep := hs.step (.act (Function.update_self ..) hexec hmet)
  rwa [Function.update_idem] at hstep

/-! ## The rules -/

/-- What has to be shown of each operation, once for all programs. -/
structure Rules (m : Machine Answer ω) (d : Discipline Answer κ) (met : Nat → ω → Op → Prop)
    (inv : ω → Prop) (valid : ω → Nat → κ → Prop) : Prop where
  expects : ∀ {w w' i k o r}, inv w → valid w i k → m.exec i w o r w' → d.expects k o r
  inv_exec : ∀ {w w' i k o r}, inv w → valid w i k → d.allowed k o → met i w o →
    m.exec i w o r w' → inv w'
  own : ∀ {w w' i k o r}, inv w → valid w i k → d.allowed k o → m.exec i w o r w' →
    valid w' i (d.learn k o r)
  others : ∀ {w w' i j k k' o r}, valid w i k → d.allowed k o → m.exec i w o r w' →
    j ≠ i → valid w j k' → valid w' j k'
  start : ∀ {w prog} i, m.programs w prog → ∃ k, valid w i k ∧ Safe d k prog fun _ _ => True
  inv_leave : ∀ {w} i, inv w → inv (m.leave i w)
  leave : ∀ {w i j k}, j ≠ i → valid w j k → valid (m.leave i w) j k
  inv_outside : ∀ {w w'}, inv w → m.outside w w' → inv w'
  outside : ∀ {w w' i k}, m.outside w w' → valid w i k → valid w' i k
  inv_reboot : ∀ {w w'}, inv w → m.reboot w w' → inv w'

namespace Rules

variable {m : Machine Answer ω} {d : Discipline Answer κ} {met : Nat → ω → Op → Prop}
  {inv init : ω → Prop} {valid : ω → Nat → κ → Prop} (h : Rules m d met inv valid)

/-- The invariant holds, and every actor has knowledge that makes the rest of its program safe. -/
def Good (d : Discipline Answer κ) (inv : ω → Prop) (valid : ω → Nat → κ → Prop)
    (s : Sys Answer ω) : Prop :=
  inv s.world ∧ ∀ i prog, s.actors i = some prog →
    ∃ k, valid s.world i k ∧ Safe d k prog fun _ _ => True

include h in
theorem good_step {s s' : Sys Answer ω} (hs : Good d inv valid s) (hstep : Step m met s s') :
    Good d inv valid s' := by
  obtain ⟨hinv, hactors⟩ := hs
  cases hstep with
  | @act i o next r w hactor hexec hmet =>
    obtain ⟨k, hk, hallowed, hnext⟩ := hactors i _ hactor
    refine ⟨h.inv_exec hinv hk hallowed hmet hexec, fun j prog hj => ?_⟩
    dsimp only at hj
    by_cases hji : j = i
    · subst hji
      rw [Function.update_self] at hj
      obtain rfl := Option.some.inj hj
      exact ⟨d.learn k o r, h.own hinv hk hallowed hexec, hnext r (h.expects hinv hk hexec)⟩
    · rw [Function.update_of_ne hji] at hj
      obtain ⟨k', hk', hsafe⟩ := hactors j prog hj
      exact ⟨k', h.others hk hallowed hexec hji hk', hsafe⟩
  | @start i started hfree hprog =>
    refine ⟨hinv, fun j prog hj => ?_⟩
    dsimp only at hj
    by_cases hji : j = i
    · subst hji
      rw [Function.update_self] at hj
      obtain rfl := Option.some.inj hj
      exact h.start j hprog
    · rw [Function.update_of_ne hji] at hj
      exact hactors j prog hj
  | leave i =>
    refine ⟨h.inv_leave i hinv, fun j prog hj => ?_⟩
    dsimp only at hj
    by_cases hji : j = i
    · subst hji
      rw [Function.update_self] at hj
      cases hj
    · rw [Function.update_of_ne hji] at hj
      obtain ⟨k, hk, hsafe⟩ := hactors j prog hj
      exact ⟨k, h.leave hji hk, hsafe⟩
  | outside hout =>
    refine ⟨h.inv_outside hinv hout, fun j prog hj => ?_⟩
    obtain ⟨k, hk, hsafe⟩ := hactors j prog hj
    exact ⟨k, h.outside hout hk, hsafe⟩
  | reboot hboot => exact ⟨h.inv_reboot hinv hboot, fun j prog hj => nomatch hj⟩

include h in
/-- **Every state of every run.** -/
theorem reachable (hinit : ∀ w, init w → inv w) {s : Sys Answer ω}
    (hs : Reachable m met init s) : Good d inv valid s := by
  induction hs with
  | init hw => exact ⟨hinit _ hw, fun j prog hj => nomatch hj⟩
  | step _ hstep ih => exact h.good_step ih hstep

include h in
/-- An actor about to act knows what allows it to. -/
theorem acting (hinit : ∀ w, init w → inv w) {s : Sys Answer ω} (hs : Reachable m met init s)
    {i : Nat} {o : Op} {next : Answer o → Prog Answer Unit}
    (hactor : s.actors i = some (.call o next)) :
    inv s.world ∧ ∃ k, valid s.world i k ∧ d.allowed k o := by
  obtain ⟨hinv, hactors⟩ := h.reachable hinit hs
  obtain ⟨k, hk, hallowed, -⟩ := hactors i _ hactor
  exact ⟨hinv, k, hk, hallowed⟩

end Rules

end Interleave
