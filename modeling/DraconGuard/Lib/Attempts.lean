import DraconGuard.Lib.Stamps

/-!
# Programs that watch a world and may fail

`Attempt` is a program whose answer is a value or a failure, and which stops at the first failure.
`OnOk P prog Q` speaks of the runs that succeed only, and its rules go through a program step by
step as those of `On` do. A program about a part of the world is one about the world (`through`).

`Computes prog f` speaks of a world that stands still: the program only looks, and `f` is what it
answers. Its rules build `f` along the program, so a program of many looks is compared with a plain
function of the world once, in the end.
-/

namespace Watch

variable {ω ω' ε κ α β τ : Type}

/-- A program that may fail. -/
abbrev Attempt (ω ε κ : Type) := ExceptT κ (Prog ω ε)

/-- An observation that may fail. -/
def tryLook (f : ω → Except κ α) : Attempt ω ε κ α := ExceptT.mk (look f)

/-- A program that may not fail, as one that may. -/
def always (prog : Prog ω ε α) : Attempt ω ε κ α := ExceptT.lift prog

/-- What is known already. -/
def given (answer : Except κ α) : Attempt ω ε κ α := ExceptT.mk (pure answer)

/-- A condition to go on. -/
def ensured (c : Prop) [Decidable c] (e : κ) : Except κ Unit := if c then .ok () else .error e

def ensure (c : Prop) [Decidable c] (e : κ) : Attempt ω ε κ Unit := given (ensured c e)

@[simp] theorem ensured_eq_ok {c : Prop} [Decidable c] {e : κ} {u : Unit} :
    ensured c e = .ok u ↔ c := by
  by_cases h : c <;> simp [ensured, h]

/-- A program about a part of the world. -/
def through (part : ω' → ω) (prog : Prog ω ε α) : Prog ω' ε α :=
  fun w s => prog (fun k => part (w k)) s

theorem On.through {part : ω' → ω} {w : Nat → ω'} {P : Progress ε → Prop} {prog : Prog ω ε α}
    {Q : α → Progress ε → Prop} (h : On (fun k => part (w k)) P prog Q) :
    On w P (through part prog) Q := h

/-- From a progress with `P`, where `prog` succeeds it does so with `Q`. -/
def OnOk (w : Nat → ω) (P : Progress ε → Prop) (prog : Attempt ω ε κ α)
    (Q : α → Progress ε → Prop) : Prop :=
  On w P prog.run fun answer s => ∀ a, answer = .ok a → Q a s

section OnOk

variable {w : Nat → ω} {P P' : Progress ε → Prop} {Q Q' : α → Progress ε → Prop}
  {R : β → Progress ε → Prop}

theorem OnOk.pure {a : α} (h : ∀ s, P s → Q a s) : OnOk w P (Pure.pure a : Attempt ω ε κ α) Q := by
  intro s hs b hb
  obtain rfl := Except.ok.inj hb
  exact h s hs

theorem OnOk.throw (e : κ) : OnOk w P (MonadExcept.throw e : Attempt ω ε κ α) Q := by
  intro s hs b hb
  cases hb

theorem OnOk.bind {prog : Attempt ω ε κ α} {f : α → Attempt ω ε κ β} (hprog : OnOk w P prog Q)
    (hf : ∀ a, OnOk w (Q a) (f a) R) : OnOk w P (prog >>= f) R := by
  show On w P (prog.run >>= ExceptT.bindCont f) _
  refine On.bind hprog fun answer => ?_
  cases answer with
  | error e => exact On.pure fun s hs b hb => by cases hb
  | ok a => exact fun s hs => hf a s (hs a rfl)

theorem OnOk.ite {c : Prop} [Decidable c] {p q : Attempt ω ε κ α} (hp : c → OnOk w P p Q)
    (hq : ¬ c → OnOk w P q Q) : OnOk w P (if c then p else q) Q := by
  by_cases h : c
  · simpa [h] using hp h
  · simpa [h] using hq h

theorem OnOk.given {answer : Except κ α} (h : ∀ a, answer = .ok a → ∀ s, P s → Q a s) :
    OnOk w P (given answer) Q := On.pure fun s hs a ha => h a ha s hs

theorem OnOk.ensure {c : Prop} [Decidable c] (e : κ) {Q : Progress ε → Prop}
    (h : c → ∀ s, P s → Q s) : OnOk w P (ensure c e) fun _ => Q :=
  OnOk.given fun _ hok => h (ensured_eq_ok.mp hok)

theorem OnOk.post {prog : Attempt ω ε κ α} (h : OnOk w P prog Q)
    (hQ : ∀ a s, Q a s → Q' a s) : OnOk w P prog Q' :=
  fun s hs a ha => hQ a _ (h s hs a ha)

theorem OnOk.freeze {prog : Attempt ω ε κ α}
    (h : ∀ s₀, P s₀ → OnOk w (fun s => s₀.now ≤ s.now) prog Q) : OnOk w P prog Q :=
  On.freeze h

theorem OnOk.tryLook (f : ω → Except κ α) (n : Nat) :
    OnOk w (fun s : Progress ε => n ≤ s.now) (tryLook f) fun a s =>
      SeenIn w n s.now fun v => f v = .ok a :=
  fun s hs _ ha => ⟨s.now, hs, Nat.lt_succ_self _, ha⟩

/-- An attempt ends after it began. -/
theorem OnOk.after {prog : Attempt ω ε κ α} (h : Advances prog.run) (n : Nat) :
    OnOk w (fun s : Progress ε => n ≤ s.now) prog fun _ s => n ≤ s.now :=
  fun s hs _ _ => h.after n s hs

theorem OnOk.always {prog : Prog ω ε α} (h : On w P prog Q) :
    OnOk w P (always prog : Attempt ω ε κ α) Q := by
  refine On.bind h fun a => On.pure fun s hs b hb => ?_
  obtain rfl := Except.ok.inj hb
  exact hs

end OnOk

/-! ## What a program computes -/

theorem Observes.through {prog : Prog ω ε α} (h : Observes prog) (part : ω' → ω) :
    Observes (through part prog) := by
  induction h with
  | pure a => exact .pure a
  | look f => exact .look fun v => f (part v)
  | bind _ _ ihprog ihf => exact .bind ihprog ihf

/-- The program only looks, and in a world that stands still its answer is a function of that
world. -/
structure Computes (prog : Prog ω ε α) (f : ω → α) : Prop where
  observes : Observes prog
  answer_eq : ∀ v, answer v prog = f v

namespace Computes

variable {f : ω → α} {g : α → ω → β}

theorem advances {prog : Prog ω ε α} (h : Computes prog f) : Advances prog := h.observes.advances

theorem pure (a : α) : Computes (Pure.pure a : Prog ω ε α) fun _ => a := ⟨.pure a, fun _ => rfl⟩

theorem look (f : ω → α) : Computes (look f : Prog ω ε α) f := ⟨.look f, fun _ => rfl⟩

theorem bind {prog : Prog ω ε α} {next : α → Prog ω ε β} (hprog : Computes prog f)
    (hnext : ∀ a, Computes (next a) (g a)) : Computes (prog >>= next) fun v => g (f v) v := by
  refine ⟨hprog.observes.bind fun a => (hnext a).observes, fun v => ?_⟩
  rw [answer_bind v prog fun a => (hnext a).observes, hprog.answer_eq, (hnext _).answer_eq]

theorem ite {c : Prop} [Decidable c] {p q : Prog ω ε α} {f' : ω → α} (hp : Computes p f)
    (hq : Computes q f') : Computes (if c then p else q) fun v => if c then f v else f' v := by
  by_cases h : c
  · simpa [h] using hp
  · simpa [h] using hq

theorem through {prog : Prog ω ε α} (h : Computes prog f) (part : ω' → ω) :
    Computes (through part prog) fun v => f (part v) :=
  ⟨h.observes.through part, fun v => h.answer_eq (part v)⟩

theorem each {next : α → Prog ω ε β} (h : ∀ a, Computes (next a) (g a)) (as : List α) :
    Computes (each next as) fun v => as.map fun a => g a v := by
  refine ⟨Observes.each (fun a => (h a).observes) as, fun v => ?_⟩
  rw [answer_each v fun a => (h a).observes]
  exact List.map_congr_left fun a _ => (h a).answer_eq v

/-- The same answers under another name. -/
theorem congr {prog : Prog ω ε α} {f' : ω → α} (h : Computes prog f) (heq : ∀ v, f v = f' v) :
    Computes prog f' := ⟨h.observes, fun v => (h.answer_eq v).trans (heq v)⟩

/-! ## Attempts -/

theorem ok (a : α) : Computes (Pure.pure a : Attempt ω ε κ α).run fun _ => .ok a := pure _

theorem throw (e : κ) : Computes (MonadExcept.throw e : Attempt ω ε κ α).run fun _ => .error e :=
  pure _

theorem tryLook (f : ω → Except κ α) : Computes (tryLook f : Attempt ω ε κ α).run f := look f

theorem always {prog : Prog ω ε α} (h : Computes prog f) :
    Computes (always prog : Attempt ω ε κ α).run fun v => .ok (f v) :=
  h.bind (g := fun a _ => Except.ok a) fun _ => pure _

theorem given (answer : Except κ α) :
    Computes (given answer : Attempt ω ε κ α).run fun _ => answer := pure _

theorem ensure (c : Prop) [Decidable c] (e : κ) :
    Computes (ensure c e : Attempt ω ε κ Unit).run fun _ => ensured c e := pure _

/-- An attempt computes what its steps compute, one after the other. -/
theorem attempt {prog : Attempt ω ε κ α} {next : α → Attempt ω ε κ β} {f : ω → Except κ α}
    {g : α → ω → Except κ β} (hprog : Computes prog.run f)
    (hnext : ∀ a, Computes (next a).run (g a)) :
    Computes (prog >>= next).run fun v => f v >>= fun a => g a v := by
  show Computes (prog.run >>= ExceptT.bindCont next) _
  refine (hprog.bind (g := fun r v => r >>= fun a => g a v) fun answer => ?_)
  cases answer with
  | error e => exact pure _
  | ok a => exact hnext a

/-- A step that does not fail. -/
theorem after {prog : Prog ω ε α} {next : α → Attempt ω ε κ β} {g : α → ω → Except κ β}
    (hprog : Computes prog f) (hnext : ∀ a, Computes (next a).run (g a)) :
    Computes (Watch.always prog >>= next).run fun v => g (f v) v :=
  ((always hprog).attempt hnext).congr fun _ => rfl

end Computes

end Watch
