import Mathlib.Data.List.Basic

/-!
# Programs that watch a world they do not own

A program reads the world one observation at a time, and the world may become anything between
two observations: a run is taken against a timeline `Nat → ω`, and every observation happens at
the next instant of it. A program may record events as it goes; the log is newest first, so what
happened before an event is the tail behind it.

`Triple P prog Q` speaks about the log alone. An observation may answer with any world, so a
triple that is derived from the rules below holds against every timeline, whatever happens
between the steps of the program.
-/

namespace Watch

/-- How far a run has come. -/
structure Progress (ε : Type) where
  now : Nat := 0
  log : List ε := []

/-- A program over worlds `ω` that records events `ε`. -/
def Prog (ω ε α : Type) := (Nat → ω) → Progress ε → α × Progress ε

variable {ω ε α β : Type}

instance : Monad (Prog ω ε) where
  pure a := fun _ s => (a, s)
  bind prog f := fun w s => let (a, s') := prog w s; f a w s'

theorem pure_run (a : α) (w : Nat → ω) (s : Progress ε) :
    (Pure.pure a : Prog ω ε α) w s = (a, s) := rfl

theorem bind_run (prog : Prog ω ε α) (f : α → Prog ω ε β) (w : Nat → ω) (s : Progress ε) :
    (prog >>= f) w s = f (prog w s).1 w (prog w s).2 := rfl

/-- One observation, with what it adds to the log. -/
def act (f : ω → α × List ε) : Prog ω ε α := fun w s =>
  let (a, events) := f (w s.now)
  (a, { now := s.now + 1, log := events ++ s.log })

/-- One observation that leaves no trace. -/
def look (f : ω → α) : Prog ω ε α := act fun h => (f h, [])

theorem look_run (f : ω → α) (w : Nat → ω) (s : Progress ε) :
    (look f : Prog ω ε α) w s = (f (w s.now), { s with now := s.now + 1 }) := rfl

/-- Time passes. -/
def pause : Prog ω ε Unit := look fun _ => ()

/-- Records what is known already. -/
def note (events : List ε) : Prog ω ε Unit := fun _ s => ((), { s with log := events ++ s.log })

/-- `f` on each element in order. -/
def each (f : α → Prog ω ε β) : List α → Prog ω ε (List β)
  | [] => pure []
  | a :: as => do
    let b ← f a
    let bs ← each f as
    pure (b :: bs)

/-- The elements `f` answers `true` on, asked in order. -/
def retain (f : α → Prog ω ε Bool) : List α → Prog ω ε (List α)
  | [] => pure []
  | a :: as => do
    let keep ← f a
    let rest ← retain f as
    pure (if keep then a :: rest else rest)

/-- From a log with `P`, `prog` returns a value and a log with `Q`, on every timeline. -/
def Triple (P : List ε → Prop) (prog : Prog ω ε α) (Q : α → List ε → Prop) : Prop :=
  ∀ w s, P s.log → Q (prog w s).1 (prog w s).2.log

variable {P P' : List ε → Prop} {Q Q' : α → List ε → Prop} {R : β → List ε → Prop}

theorem Triple.run {prog : Prog ω ε α} (h : Triple P prog Q) {w : Nat → ω} {s : Progress ε}
    (hs : P s.log) : Q (prog w s).1 (prog w s).2.log := h w s hs

theorem Triple.pure {a : α} (h : ∀ log, P log → Q a log) :
    Triple P (Pure.pure a : Prog ω ε α) Q := fun _ s hs => h s.log hs

theorem Triple.bind {prog : Prog ω ε α} {f : α → Prog ω ε β} (hprog : Triple P prog Q)
    (hf : ∀ a, Triple (Q a) (f a) R) : Triple P (prog >>= f) R :=
  fun w s hs => hf _ w _ (hprog w s hs)

theorem Triple.act {f : ω → α × List ε} (h : ∀ v log, P log → Q (f v).1 ((f v).2 ++ log)) :
    Triple P (act f) Q := fun w s hs => h (w s.now) s.log hs

/-- An observation that leaves no trace may answer anything. -/
theorem Triple.look {f : ω → α} (h : ∀ v log, P log → Q (f v) log) : Triple P (look f) Q :=
  Triple.act h

theorem Triple.pause {R : Unit → List ε → Prop} (h : ∀ log, P log → R () log) :
    Triple P (pause : Prog ω ε Unit) R := Triple.look fun _ => h

theorem Triple.note {events : List ε} {R : Unit → List ε → Prop}
    (h : ∀ log, P log → R () (events ++ log)) : Triple P (note events : Prog ω ε Unit) R :=
  fun _ s hs => h s.log hs

theorem Triple.weaken {prog : Prog ω ε α} (h : Triple P prog Q) (hP : ∀ log, P' log → P log)
    (hQ : ∀ a log, Q a log → Q' a log) : Triple P' prog Q' :=
  fun w s hs => hQ _ _ (h w s (hP _ hs))

theorem Triple.post {prog : Prog ω ε α} (h : Triple P prog Q)
    (hQ : ∀ a log, Q a log → Q' a log) : Triple P prog Q' := h.weaken (fun _ hs => hs) hQ

theorem Triple.ite {c : Prop} [Decidable c] {p q : Prog ω ε α} (hp : c → Triple P p Q)
    (hq : ¬ c → Triple P q Q) : Triple P (if c then p else q) Q := by
  by_cases h : c
  · simpa [h] using hp h
  · simpa [h] using hq h

/-- **Loop rule.** -/
theorem Triple.foldlM {ι : Type} {I : α → List ε → Prop} {f : α → ι → Prog ω ε α} :
    ∀ (is : List ι), (∀ a, ∀ i ∈ is, Triple (I a) (f a i) I) →
      ∀ a, Triple (I a) (is.foldlM f a) I
  | [], _, _ => Triple.pure fun _ hs => hs
  | i :: is, h, a => by
    rw [List.foldlM_cons]
    refine (h a i List.mem_cons_self).bind fun b => ?_
    exact Triple.foldlM is (fun c j hj => h c j (List.mem_cons_of_mem i hj)) b

theorem Triple.each {inv : List ε → Prop} {f : α → Prog ω ε β}
    (h : ∀ a, Triple inv (f a) fun _ => inv) :
    ∀ as, Triple inv (each f as) fun _ => inv
  | [] => Triple.pure fun _ hs => hs
  | a :: as =>
    (h a).bind fun _ => (Triple.each h as).bind fun _ => Triple.pure fun _ hs => hs

/-- **Filter rule.** `keeps a` is what an answer `true` on `a` establishes; asking about the
other elements must not spoil it. -/
theorem Triple.retain {inv : List ε → Prop} {keeps : α → List ε → Prop}
    {f : α → Prog ω ε Bool} (hinv : ∀ a, Triple inv (f a) fun b log =>
      inv log ∧ (b = true → keeps a log))
    (hkeeps : ∀ a c, Triple (fun log => inv log ∧ keeps c log) (f a) fun _ log => keeps c log) :
    ∀ as, Triple inv (retain f as) fun bs log => inv log ∧ ∀ b ∈ bs, keeps b log := by
  -- what holds of an element kept survives the questions about the ones behind it
  have hrest : ∀ as c, Triple (fun log => inv log ∧ keeps c log) (Watch.retain f as)
      fun _ log => inv log ∧ keeps c log := by
    intro as
    induction as with
    | nil => exact fun c => Triple.pure fun _ hs => hs
    | cons a as ih =>
      intro c
      refine Triple.bind (Q := fun _ log => inv log ∧ keeps c log) ?_ fun b => ?_
      · intro w s hs
        exact ⟨((hinv a) w s hs.1).1, (hkeeps a c) w s hs⟩
      · exact (ih c).bind fun _ => Triple.pure fun _ hs => hs
  intro as
  induction as with
  | nil => exact Triple.pure fun _ hs => ⟨hs, by simp⟩
  | cons a as ih =>
    refine (hinv a).bind fun b => ?_
    cases b with
    | false =>
      refine Triple.bind (ih.weaken (fun _ hs => hs.1) fun _ _ hs => hs) fun bs => ?_
      exact Triple.pure fun _ hs => hs
    | true =>
      refine Triple.bind
        (Q := fun bs log => (inv log ∧ ∀ b ∈ bs, keeps b log) ∧ keeps a log) ?_ fun bs => ?_
      · intro w s hs
        exact ⟨ih w s hs.1, ((hrest as a) w s ⟨hs.1, hs.2 rfl⟩).2⟩
      · refine Triple.pure fun log hs => ⟨hs.1.1, ?_⟩
        intro b hb
        rcases List.mem_cons.1 hb with rfl | hb
        · exact hs.2
        · exact hs.1.2 b hb

theorem Triple.retain_inv {inv : List ε → Prop} {f : α → Prog ω ε Bool}
    (h : ∀ a, Triple inv (f a) fun _ => inv) :
    ∀ as, Triple inv (Watch.retain f as) fun _ => inv
  | [] => Triple.pure fun _ hs => hs
  | a :: as =>
    (h a).bind fun _ => (Triple.retain_inv h as).bind fun _ => Triple.pure fun _ hs => hs

/-! ## Programs that record nothing -/

/-- The program leaves the log as it is. -/
def Silent (prog : Prog ω ε α) : Prop := ∀ P, Triple P prog fun _ => P

theorem Silent.pure (a : α) : Silent (Pure.pure a : Prog ω ε α) :=
  fun _ => Triple.pure fun _ hs => hs

/-! ## Runs on one timeline -/

/-- A progress that was reached later: time went on and the log grew. -/
structure Later (s s' : Progress ε) : Prop where
  now : s.now ≤ s'.now
  log : s.log <:+ s'.log

theorem Later.refl (s : Progress ε) : Later s s := ⟨Nat.le_refl _, List.suffix_refl _⟩

theorem Later.trans {s s' s'' : Progress ε} (h : Later s s') (h' : Later s' s'') : Later s s'' :=
  ⟨Nat.le_trans h.now h'.now, h.log.trans h'.log⟩

/-- The program never takes back what it has seen and recorded. -/
def Advances (prog : Prog ω ε α) : Prop := ∀ w s, Later s (prog w s).2

theorem Advances.pure (a : α) : Advances (Pure.pure a : Prog ω ε α) := fun _ s => Later.refl s

theorem Advances.act (f : ω → α × List ε) : Advances (act f) := fun w s =>
  ⟨Nat.le_succ s.now, List.suffix_append (f (w s.now)).2 s.log⟩

theorem Advances.look (f : ω → α) : Advances (look f : Prog ω ε α) := Advances.act _

theorem Advances.pause : Advances (pause : Prog ω ε Unit) := Advances.look _

theorem Advances.note (events : List ε) : Advances (note events : Prog ω ε Unit) := fun _ s =>
  ⟨Nat.le_refl s.now, List.suffix_append events s.log⟩

theorem Advances.bind {prog : Prog ω ε α} {f : α → Prog ω ε β} (hprog : Advances prog)
    (hf : ∀ a, Advances (f a)) : Advances (prog >>= f) :=
  fun w s => (hprog w s).trans (hf _ w _)

theorem Advances.ite {c : Prop} [Decidable c] {p q : Prog ω ε α} (hp : Advances p)
    (hq : Advances q) : Advances (if c then p else q) := by
  by_cases h : c
  · simpa [h] using hp
  · simpa [h] using hq

theorem Advances.foldlM {ι : Type} {f : α → ι → Prog ω ε α} (h : ∀ a i, Advances (f a i)) :
    ∀ (is : List ι) (a : α), Advances (is.foldlM f a)
  | [], a => Advances.pure a
  | i :: is, a => by
    rw [List.foldlM_cons]
    exact (h a i).bind fun b => Advances.foldlM h is b

theorem Advances.retain {f : α → Prog ω ε Bool} (h : ∀ a, Advances (f a)) :
    ∀ as, Advances (retain f as)
  | [] => Advances.pure _
  | a :: as => (h a).bind fun _ => (Advances.retain h as).bind fun _ => Advances.pure _

/-! ## Programs that only look -/

/-- The program looks at the world and records nothing. -/
inductive Observes : ∀ {α : Type}, Prog ω ε α → Prop
  | pure {α : Type} (a : α) : Observes (Pure.pure a)
  | look {α : Type} (f : ω → α) : Observes (look f)
  | bind {α β : Type} {prog : Prog ω ε α} {f : α → Prog ω ε β} (hprog : Observes prog)
      (hf : ∀ a, Observes (f a)) : Observes (prog >>= f)

theorem Observes.ite {c : Prop} [Decidable c] {p q : Prog ω ε α} (hp : Observes p)
    (hq : Observes q) : Observes (if c then p else q) := by
  by_cases h : c
  · simpa [h] using hp
  · simpa [h] using hq

theorem Observes.foldlM {ι : Type} {f : α → ι → Prog ω ε α} (h : ∀ a i, Observes (f a i)) :
    ∀ (is : List ι) (a : α), Observes (is.foldlM f a)
  | [], a => .pure a
  | i :: is, a => by
    rw [List.foldlM_cons]
    exact (h a i).bind fun b => Observes.foldlM h is b

theorem Observes.retain {f : α → Prog ω ε Bool} (h : ∀ a, Observes (f a)) :
    ∀ as, Observes (retain f as)
  | [] => .pure _
  | a :: as => (h a).bind fun _ => (Observes.retain h as).bind fun _ => .pure _

theorem Observes.each {f : α → Prog ω ε β} (h : ∀ a, Observes (f a)) :
    ∀ as, Observes (each f as)
  | [] => .pure _
  | a :: as => (h a).bind fun _ => (Observes.each h as).bind fun _ => .pure _

theorem Observes.silent {prog : Prog ω ε α} (h : Observes prog) : Silent prog := by
  induction h with
  | pure a => exact Silent.pure a
  | look f => exact fun _ => Triple.look fun _ _ hs => hs
  | bind _ _ ihprog ihf => exact fun P => (ihprog P).bind fun a => ihf a P

theorem Observes.advances {prog : Prog ω ε α} (h : Observes prog) : Advances prog := by
  induction h with
  | pure a => exact Advances.pure a
  | look f => exact Advances.look f
  | bind _ _ ihprog ihf => exact ihprog.bind ihf

/-- A run depends on the instants it looks at and on no others. -/
theorem Observes.congr {prog : Prog ω ε α} (h : Observes prog) {w w' : Nat → ω} :
    ∀ {s : Progress ε}, (∀ k, s.now ≤ k → k < (prog w s).2.now → w k = w' k) →
      prog w s = prog w' s := by
  induction h with
  | pure a => exact fun _ => rfl
  | look f =>
    intro s hagree
    have hnow : w s.now = w' s.now := hagree s.now (Nat.le_refl _) (Nat.lt_succ_self _)
    exact congrArg (fun v => (f v, { s with now := s.now + 1 })) hnow
  | @bind _ _ prog f hprog hf ihprog ihf =>
    intro s hagree
    have hlater := (hf (prog w s).1).advances w (prog w s).2
    have hfirst : prog w s = prog w' s :=
      ihprog fun k hk hend => hagree k hk (Nat.lt_of_lt_of_le hend hlater.now)
    have hrest : f (prog w s).1 w (prog w s).2 = f (prog w s).1 w' (prog w s).2 :=
      ihf _ fun k hk hend => hagree k (Nat.le_trans (hprog.advances w s).now hk) hend
    rw [bind_run, bind_run, ← hfirst, hrest]

/-- What the program answers while the world stands still at `v`. -/
def answer (v : ω) (prog : Prog ω ε α) : α := (prog (fun _ => v) {}).1

/-- In a world that stands still it does not matter when the program runs. -/
theorem Observes.answer_eq {prog : Prog ω ε α} (h : Observes prog) (v : ω) (s : Progress ε) :
    (prog (fun _ => v) s).1 = answer v prog := by
  suffices hany : ∀ s s', (prog (fun _ => v) s).1 = (prog (fun _ => v) s').1 from hany s {}
  induction h with
  | pure a => exact fun _ _ => rfl
  | look f => exact fun _ _ => rfl
  | @bind _ _ prog f _ _ ihprog ihf =>
    intro s s'
    rw [bind_run, bind_run, ihprog s s']
    exact ihf _ _ _

/-- The same when the world stands still for as long as the run takes. -/
theorem Observes.answer_of_still {prog : Prog ω ε α} (h : Observes prog) {w : Nat → ω} {v : ω}
    {s : Progress ε} (hstill : ∀ k, s.now ≤ k → k < (prog w s).2.now → w k = v) :
    (prog w s).1 = answer v prog := by
  have hrun : prog w s = prog (fun _ => v) s := h.congr hstill
  rw [hrun, h.answer_eq v s]

@[simp] theorem answer_pure (v : ω) (a : α) : answer v (Pure.pure a : Prog ω ε α) = a := rfl

@[simp] theorem answer_look (v : ω) (f : ω → α) : answer v (look f : Prog ω ε α) = f v := rfl

theorem answer_bind (v : ω) (prog : Prog ω ε α) {f : α → Prog ω ε β}
    (hf : ∀ a, Observes (f a)) : answer v (prog >>= f) = answer v (f (answer v prog)) :=
  (hf _).answer_eq v _

theorem answer_retain (v : ω) {f : α → Prog ω ε Bool} (h : ∀ a, Observes (f a)) :
    ∀ as : List α, answer v (retain f as) = as.filter fun a => answer v (f a)
  | [] => rfl
  | a :: as => by
    have hrest : ∀ keep : Bool, Observes
        (Watch.retain f as >>= fun rest => Pure.pure (if keep then a :: rest else rest)) :=
      fun keep => (Observes.retain h as).bind fun _ => .pure _
    show answer v (f a >>= fun keep => Watch.retain f as >>= fun rest =>
      Pure.pure (if keep then a :: rest else rest)) = _
    rw [answer_bind v (f a) hrest, answer_bind v _ fun _ => .pure _, answer_pure,
      answer_retain v h as, List.filter_cons]

theorem answer_each (v : ω) {f : α → Prog ω ε β} (h : ∀ a, Observes (f a)) :
    ∀ as : List α, answer v (each f as) = as.map fun a => answer v (f a)
  | [] => rfl
  | a :: as => by
    have hrest : ∀ b : β, Observes
        (Watch.each f as >>= fun bs => (Pure.pure (b :: bs) : Prog ω ε (List β))) :=
      fun _ => (Observes.each h as).bind fun _ => .pure _
    show answer v (f a >>= fun b => Watch.each f as >>= fun bs => Pure.pure (b :: bs)) = _
    rw [answer_bind v (f a) hrest, answer_bind v _ fun _ => .pure _, answer_pure,
      answer_each v h as, List.map_cons]

/-! ## Programs that do not read their log -/

/-- What the program answers and adds to the log does not depend on what the log holds. -/
def Blind (prog : Prog ω ε α) : Prop := ∀ w n log, prog w { now := n, log := log } =
  ((prog w { now := n }).1,
    { now := (prog w { now := n }).2.now, log := (prog w { now := n }).2.log ++ log })

theorem Blind.pure (a : α) : Blind (Pure.pure a : Prog ω ε α) := fun _ _ _ => rfl

theorem Blind.act (f : ω → α × List ε) : Blind (act f) := fun w n log => by
  show ((f (w n)).1, Progress.mk (n + 1) ((f (w n)).2 ++ log)) =
    ((f (w n)).1, Progress.mk (n + 1) (((f (w n)).2 ++ []) ++ log))
  rw [List.append_nil]

theorem Blind.look (f : ω → α) : Blind (look f : Prog ω ε α) := Blind.act _

theorem Blind.pause : Blind (pause : Prog ω ε Unit) := Blind.look _

theorem Blind.note (events : List ε) : Blind (note events : Prog ω ε Unit) := fun _ n log => by
  show ((), Progress.mk n (events ++ log)) = ((), Progress.mk n ((events ++ []) ++ log))
  rw [List.append_nil]

theorem Blind.bind {prog : Prog ω ε α} {f : α → Prog ω ε β} (hprog : Blind prog)
    (hf : ∀ a, Blind (f a)) : Blind (prog >>= f) := by
  intro w n log
  rw [bind_run, bind_run, hprog w n log]
  dsimp only
  have hlater := hf (prog w { now := n }).1 w (prog w { now := n }).2.now
  rw [hlater ((prog w { now := n }).2.log ++ log), hlater (prog w { now := n }).2.log,
    List.append_assoc]

theorem Blind.ite {c : Prop} [Decidable c] {p q : Prog ω ε α} (hp : Blind p) (hq : Blind q) :
    Blind (if c then p else q) := by
  by_cases h : c
  · simpa [h] using hp
  · simpa [h] using hq

theorem Observes.blind {prog : Prog ω ε α} (h : Observes prog) : Blind prog := by
  induction h with
  | pure a => exact Blind.pure a
  | look f => exact Blind.look f
  | bind _ _ ihprog ihf => exact ihprog.bind ihf

/-- What the program records in a run from this instant. -/
def recorded (prog : Prog ω ε α) (w : Nat → ω) (n : Nat) : List ε := (prog w { now := n }).2.log

/-- What a filter keeps was among what it asked about. -/
theorem retain_subset (f : α → Prog ω ε Bool) (w : Nat → ω) :
    ∀ (as : List α) (s : Progress ε), (retain f as w s).1 ⊆ as
  | [], _ => List.Subset.refl _
  | a :: as, s => by
    have hrest := retain_subset f w as (f a w s).2
    show (if (f a w s).1 then a :: (Watch.retain f as w (f a w s).2).1
      else (Watch.retain f as w (f a w s).2).1) ⊆ a :: as
    split
    · exact List.cons_subset_cons a hrest
    · exact fun b hb => List.mem_cons_of_mem a (hrest hb)

/-! ## Claims about one timeline -/

/-- From a progress with `P`, `prog` returns a value and a progress with `Q`, on this
timeline. -/
def On (w : Nat → ω) (P : Progress ε → Prop) (prog : Prog ω ε α)
    (Q : α → Progress ε → Prop) : Prop := ∀ s, P s → Q (prog w s).1 (prog w s).2

section On

variable {w : Nat → ω} {P P' : Progress ε → Prop} {Q Q' : α → Progress ε → Prop}
  {R : β → Progress ε → Prop}

theorem On.pure {a : α} (h : ∀ s, P s → Q a s) : On w P (Pure.pure a) Q := h

theorem On.look {f : ω → α} (h : ∀ s, P s → Q (f (w s.now)) { s with now := s.now + 1 }) :
    On w P (look f) Q := h

theorem On.bind {prog : Prog ω ε α} {f : α → Prog ω ε β} (hprog : On w P prog Q)
    (hf : ∀ a, On w (Q a) (f a) R) : On w P (prog >>= f) R :=
  fun s hs => hf _ _ (hprog s hs)

theorem On.weaken {prog : Prog ω ε α} (h : On w P prog Q) (hP : ∀ s, P' s → P s)
    (hQ : ∀ a s, Q a s → Q' a s) : On w P' prog Q' :=
  fun s hs => hQ _ _ (h s (hP s hs))

theorem On.and {prog : Prog ω ε α} (h : On w P prog Q) (h' : On w P prog Q') :
    On w P prog fun a s => Q a s ∧ Q' a s := fun s hs => ⟨h s hs, h' s hs⟩

theorem On.ite {c : Prop} [Decidable c] {p q : Prog ω ε α} (hp : c → On w P p Q)
    (hq : ¬ c → On w P q Q) : On w P (if c then p else q) Q := by
  by_cases h : c
  · simpa [h] using hp h
  · simpa [h] using hq h

/-- What holds of the log on every timeline holds on this one. -/
theorem Triple.on {P : List ε → Prop} {Q : α → List ε → Prop} {prog : Prog ω ε α}
    (h : Triple P prog Q) : On w (fun s => P s.log) prog fun a s => Q a s.log := h w

/-- **Frame rule**: what stays true as time goes on survives a program that only advances. -/
theorem Advances.keeps {prog : Prog ω ε α} (h : Advances prog)
    (hstable : ∀ s s', Later s s' → P s → P s') : On w P prog fun _ => P :=
  fun s hs => hstable s _ (h w s) hs

/-- What a filter drops has been seen to be gone, and stays so. -/
theorem On.retain {gone : α → Progress ε → Prop} {f : α → Prog ω ε Bool}
    (hadv : ∀ a, Advances (f a)) (hstable : ∀ a s s', Later s s' → gone a s → gone a s')
    (hgone : ∀ a, On w P (f a) fun keep s => P s ∧ (keep = false → gone a s)) :
    ∀ as, On w P (Watch.retain f as) fun bs s => P s ∧ ∀ a ∈ as, a ∉ bs → gone a s := by
  intro as
  induction as with
  | nil => exact On.pure fun s hs => ⟨hs, by simp⟩
  | cons a as ih =>
    refine (hgone a).bind fun keep s hs => ?_
    have hrest := ih s hs.1
    have hlater := Advances.retain hadv as w s
    refine ⟨hrest.1, fun b hb hdropped => ?_⟩
    cases keep with
    | true =>
      rw [List.mem_cons] at hb
      have hne : b ≠ a := fun h => hdropped (h ▸ List.mem_cons_self)
      exact hrest.2 b (hb.resolve_left hne) fun hin => hdropped (List.mem_cons_of_mem a hin)
    | false =>
      rcases List.mem_cons.mp hb with rfl | hb
      · exact hstable b s _ hlater (hs.2 rfl)
      · exact hrest.2 b hb hdropped

end On

/-! ## The visits of a loop -/

/-- How a loop came by one of its answers. -/
structure Visit (α β ε : Type) where
  item : α
  answer : β
  before : Progress ε
  after : Progress ε

/-- The visits of `each`, in order. -/
def visits (f : α → Prog ω ε β) (w : Nat → ω) : List α → Progress ε → List (Visit α β ε)
  | [], _ => []
  | a :: as, s =>
    { item := a, answer := (f a w s).1, before := s, after := (f a w s).2 } ::
      visits f w as (f a w s).2

theorem each_eq_visits (f : α → Prog ω ε β) (w : Nat → ω) : ∀ (as : List α) (s : Progress ε),
    (each f as w s).1 = (visits f w as s).map (·.answer)
  | [], _ => rfl
  | a :: as, s => congrArg ((f a w s).1 :: ·) (each_eq_visits f w as (f a w s).2)

theorem visits_items (f : α → Prog ω ε β) (w : Nat → ω) : ∀ (as : List α) (s : Progress ε),
    (visits f w as s).map (·.item) = as
  | [], _ => rfl
  | a :: as, s => congrArg (a :: ·) (visits_items f w as (f a w s).2)

/-- What was recorded in the visit. -/
def Visit.events (visit : Visit α β ε) : List ε :=
  visit.after.log.take (visit.after.log.length - visit.before.log.length)

theorem item_mem_of_mem_visits {f : α → Prog ω ε β} {w : Nat → ω} {visit : Visit α β ε} :
    ∀ {as : List α} {s : Progress ε}, visit ∈ visits f w as s → visit.item ∈ as
  | a :: as, s, h => by
    rcases List.mem_cons.mp h with rfl | h
    · exact List.mem_cons_self
    · exact List.mem_cons_of_mem a (item_mem_of_mem_visits h)

/-- Each visit is a run of the loop's body. -/
theorem run_of_mem_visits {f : α → Prog ω ε β} {w : Nat → ω} {visit : Visit α β ε} :
    ∀ {as : List α} {s : Progress ε}, visit ∈ visits f w as s →
      f visit.item w visit.before = (visit.answer, visit.after)
  | a :: as, s, h => by
    rcases List.mem_cons.mp h with rfl | h
    · rfl
    · exact run_of_mem_visits h

/-- A visit records what its body records from that instant on. -/
theorem events_of_mem_visits {f : α → Prog ω ε β} {w : Nat → ω} {visit : Visit α β ε}
    {as : List α} {s : Progress ε} (h : visit ∈ visits f w as s) (hblind : Blind (f visit.item)) :
    visit.answer = (f visit.item w { now := visit.before.now }).1 ∧
      visit.events = recorded (f visit.item) w visit.before.now := by
  have hrun := run_of_mem_visits h
  have hsame := hblind w visit.before.now visit.before.log
  rw [hrun] at hsame
  obtain ⟨hanswer, hafter⟩ := Prod.mk.inj hsame
  refine ⟨hanswer, ?_⟩
  unfold Visit.events recorded
  rw [hafter]
  simp

/-! ## What holds of every event -/

/-- `holds e past` of every event and what was recorded before it. -/
def Throughout (holds : ε → List ε → Prop) : List ε → Prop
  | [] => True
  | e :: past => holds e past ∧ Throughout holds past

instance Throughout.decidable {holds : ε → List ε → Prop} [∀ e past, Decidable (holds e past)] :
    ∀ log, Decidable (Throughout holds log)
  | [] => inferInstanceAs (Decidable True)
  | e :: past =>
    have : Decidable (Throughout holds past) := Throughout.decidable past
    inferInstanceAs (Decidable (holds e past ∧ Throughout holds past))

end Watch
