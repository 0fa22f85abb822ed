import Mathlib.Data.List.Basic

/-!
# Runs of a state machine driven by inputs

A machine is a step function `σ → ι → σ`; a run is the fold of a list of inputs. `Along`
says that a condition on (state before the step, input) holds at every step of a run, and
`Always` that a state predicate holds in every state the run reaches. The two induction
rules turn a step lemma into a run lemma.
-/

namespace Runs

variable {σ ι : Type*} (step : σ → ι → σ)

/-- The state a run ends in. -/
def exec (s : σ) (is : List ι) : σ := is.foldl step s

/-- `ok s i` holds at every step `(s, i)` of the run. -/
def Along (ok : σ → ι → Prop) : σ → List ι → Prop
  | _, [] => True
  | s, i :: is => ok s i ∧ Along ok (step s i) is

/-- `P` holds in every state of the run, the first and the last included. -/
def Always (P : σ → Prop) : σ → List ι → Prop
  | s, [] => P s
  | s, i :: is => P s ∧ Always P (step s i) is

variable {step} {ok ok' : σ → ι → Prop} {P Q : σ → Prop}

@[simp] theorem exec_nil (s : σ) : exec step s [] = s := rfl

@[simp] theorem exec_cons (s : σ) (i : ι) (is : List ι) :
    exec step s (i :: is) = exec step (step s i) is := rfl

theorem exec_append (s : σ) (is js : List ι) :
    exec step s (is ++ js) = exec step (exec step s is) js := List.foldl_append

/-- **Invariant rule.** What every admissible step keeps, every admissible run keeps. -/
theorem Along.exec_inv (hstep : ∀ s i, P s → ok s i → P (step s i)) :
    ∀ (is : List ι) {s : σ}, P s → Along step ok s is → P (exec step s is)
  | [], _, hs, _ => hs
  | i :: is, _, hs, h => Along.exec_inv hstep is (hstep _ i hs h.1) h.2

/-- The invariant rule for every state a run visits. -/
theorem Along.always (hstep : ∀ s i, P s → ok s i → P (step s i)) :
    ∀ {s : σ} {is : List ι}, P s → Along step ok s is → Always step P s is
  | _, [], hs, _ => hs
  | _, i :: _, hs, h => ⟨hs, Along.always hstep (hstep _ i hs h.1) h.2⟩

/-- What every step keeps holds in every state of a run. -/
theorem Always.of_inv (hstep : ∀ s i, P s → P (step s i)) :
    ∀ {is : List ι} {s : σ}, P s → Always step P s is
  | [], _, hs => hs
  | _ :: _, _, hs => ⟨hs, Always.of_inv hstep (hstep _ _ hs)⟩

theorem Along.mono (h : ∀ s i, ok s i → ok' s i) :
    ∀ {s : σ} {is : List ι}, Along step ok s is → Along step ok' s is
  | _, [], _ => trivial
  | _, i :: _, hs => ⟨h _ i hs.1, Along.mono h hs.2⟩

theorem along_append {js : List ι} : ∀ {is : List ι} {s : σ},
    Along step ok s (is ++ js) ↔ Along step ok s is ∧ Along step ok (exec step s is) js
  | [], _ => ⟨fun h => ⟨trivial, h⟩, And.right⟩
  | _ :: _, _ => (and_congr_right fun _ => along_append).trans (and_assoc ..).symm

theorem Along.of_forall : ∀ {is : List ι} {s : σ}, (∀ i ∈ is, ∀ s, ok s i) → Along step ok s is
  | [], _, _ => trivial
  | i :: _, s, h =>
    ⟨h i List.mem_cons_self s, Along.of_forall fun j hj => h j (List.mem_cons_of_mem i hj)⟩

/-- What is known of every input of a run. -/
theorem Along.and_forall {Q : ι → Prop} : ∀ {is : List ι} {s : σ}, (∀ i ∈ is, Q i) →
    Along step ok s is → Along step (fun s i => Q i ∧ ok s i) s is
  | [], _, _, _ => trivial
  | i :: _, _, hQ, h => ⟨⟨hQ i List.mem_cons_self, h.1⟩,
      Along.and_forall (fun j hj => hQ j (List.mem_cons_of_mem i hj)) h.2⟩

/-- What an invariant and the condition on a step imply holds at every step of an admissible run. -/
theorem Along.under (hstep : ∀ s i, P s → ok s i → P (step s i))
    (hok : ∀ s i, P s → ok s i → ok' s i) :
    ∀ {is : List ι} {s : σ}, P s → Along step ok s is → Along step ok' s is
  | [], _, _, _ => trivial
  | i :: _, s, hs, h =>
    ⟨hok s i hs h.1, Along.under hstep hok (hstep s i hs h.1) h.2⟩

/-- What an invariant implies holds at every step of a run that starts in it. -/
theorem Along.of_inv (hstep : ∀ s i, P s → P (step s i)) (hok : ∀ s i, P s → ok s i) :
    ∀ {is : List ι} {s : σ}, P s → Along step ok s is
  | [], _, _ => trivial
  | i :: _, s, hs => ⟨hok s i hs, Along.of_inv hstep hok (hstep s i hs)⟩

theorem along_congr (h : ∀ s i, ok s i ↔ ok' s i) {s : σ} {is : List ι} :
    Along step ok s is ↔ Along step ok' s is :=
  ⟨Along.mono fun s i => (h s i).1, Along.mono fun s i => (h s i).2⟩

/-- Two conditions that agree under an invariant of every step. -/
theorem along_congr_of_inv (hstep : ∀ s i, P s → P (step s i))
    (h : ∀ s i, P s → (ok s i ↔ ok' s i)) :
    ∀ {is : List ι} {s : σ}, P s → (Along step ok s is ↔ Along step ok' s is)
  | [], _, _ => Iff.rfl
  | i :: _, s, hs => and_congr (h s i hs) (along_congr_of_inv hstep h (hstep s i hs))

theorem Always.mono (h : ∀ s, P s → Q s) :
    ∀ {s : σ} {is : List ι}, Always step P s is → Always step Q s is
  | _, [], hs => h _ hs
  | _, _ :: _, hs => ⟨h _ hs.1, Always.mono h hs.2⟩

theorem Always.last : ∀ (is : List ι) {s : σ}, Always step P s is → P (exec step s is)
  | [], _, h => h
  | _ :: is, _, h => Always.last is h.2

/-- **An exact condition.** When, under an invariant, a step keeps `P` exactly if it is `ok`, a run
stays in `P` exactly if all its steps are. -/
theorem always_iff_along {I : σ → Prop} (hinv : ∀ s i, I s → I (step s i))
    (hstep : ∀ s i, I s → P s → (P (step s i) ↔ ok s i)) :
    ∀ {is : List ι} {s : σ}, I s → P s → (Always step P s is ↔ Along step ok s is)
  | [], _, _, hs => iff_of_true hs trivial
  | i :: is, s, hI, hs => by
    have hnext : P (step s i) → (Always step P (step s i) is ↔ Along step ok (step s i) is) :=
      always_iff_along hinv hstep (hinv s i hI)
    constructor
    · rintro ⟨-, hrest⟩
      have hfirst : P (step s i) := by cases is with
        | nil => exact hrest
        | cons => exact hrest.1
      exact ⟨(hstep s i hI hs).1 hfirst, (hnext hfirst).1 hrest⟩
    · rintro ⟨hok, hrest⟩
      exact ⟨hs, (hnext ((hstep s i hI hs).2 hok)).2 hrest⟩

/-! ## Keyed loops -/

section Keyed

variable {ω α κ ν : Type*} [DecidableEq κ] {f : ω → α → ω}
variable (view : ω → κ → ν) (key : α → κ) (P : κ → ν → Prop)

/-- A loop whose body changes only what is seen at its own key, over elements with distinct
keys: what one iteration keeps at its key, the loop keeps at every key, and each element
may assume `ok` of what was seen at its key before the loop. -/
theorem foldl_keyed (ok : α → ν → Prop)
    (frame : ∀ w a k, k ≠ key a → view (f w a) k = view w k)
    (body : ∀ w a, P (key a) (view w (key a)) → ok a (view w (key a)) →
      P (key a) (view (f w a) (key a))) :
    ∀ (xs : List α) (w : ω), (xs.map key).Nodup → (∀ a ∈ xs, ok a (view w (key a))) →
      (∀ k, P k (view w k)) → ∀ k, P k (view (xs.foldl f w) k)
  | [], _, _, _, hP => hP
  | a :: xs, w, hnd, hok, hP => by
    rw [List.map_cons, List.nodup_cons] at hnd
    refine foldl_keyed ok frame body xs (f w a) hnd.2 (fun b hb => ?_) fun k => ?_
    · have hne : key b ≠ key a := fun he => hnd.1 (he ▸ List.mem_map_of_mem hb)
      rw [frame w a _ hne]
      exact hok b (List.mem_cons_of_mem a hb)
    · by_cases hk : k = key a
      · subst hk; exact body w a (hP _) (hok a List.mem_cons_self)
      · rw [frame w a k hk]; exact hP k

/-- The same for a body that needs no assumption: keys may repeat. -/
theorem foldl_keyed_all
    (frame : ∀ w a k, k ≠ key a → view (f w a) k = view w k)
    (body : ∀ w a, P (key a) (view w (key a)) → P (key a) (view (f w a) (key a))) :
    ∀ (xs : List α) (w : ω), (∀ k, P k (view w k)) → ∀ k, P k (view (xs.foldl f w) k)
  | [], _, hP => hP
  | a :: xs, w, hP => by
    refine foldl_keyed_all frame body xs (f w a) fun k => ?_
    by_cases hk : k = key a
    · subst hk; exact body w a (hP _)
    · rw [frame w a k hk]; exact hP k

omit [DecidableEq κ] in
/-- A key no element of the loop has. -/
theorem foldl_unvisited (frame : ∀ w a k, k ≠ key a → view (f w a) k = view w k) {k : κ} :
    ∀ (xs : List α) (w : ω), k ∉ xs.map key → view (xs.foldl f w) k = view w k
  | [], _, _ => rfl
  | a :: xs, w, hk => by
    rw [List.map_cons, List.mem_cons, not_or] at hk
    exact (foldl_unvisited frame xs (f w a) hk.2).trans (frame w a k hk.1)

omit [DecidableEq κ] in
/-- Over distinct keys, what one iteration makes of its key is what the loop makes of it. -/
theorem foldl_visit {R : α → ν → ν → Prop}
    (frame : ∀ w a k, k ≠ key a → view (f w a) k = view w k)
    (body : ∀ w a, R a (view w (key a)) (view (f w a) (key a))) {a : α} :
    ∀ (xs : List α) (w : ω), (xs.map key).Nodup → a ∈ xs →
      R a (view w (key a)) (view (xs.foldl f w) (key a))
  | [], _, _, ha => nomatch ha
  | b :: xs, w, hnd, ha => by
    rw [List.map_cons, List.nodup_cons] at hnd
    rw [List.foldl_cons]
    by_cases hab : a = b
    · subst hab
      rw [foldl_unvisited view key frame xs _ hnd.1]
      exact body w a
    · have hin : a ∈ xs := (List.mem_cons.1 ha).resolve_left hab
      have hne : key a ≠ key b := fun he => hnd.1 (he ▸ List.mem_map_of_mem hin)
      rw [← frame w b (key a) hne]
      exact foldl_visit frame body xs (f w b) hnd.2 hin

omit [DecidableEq κ] in
/-- A loop over recorded elements is a loop over their keys, when what the body finds at a key is
the element as long as no other turn has changed it. -/
theorem foldl_recorded {g : ω → κ → ω} (recorded : ω → α → Prop)
    (same : ∀ w a, recorded w a → f w a = g w (key a))
    (frame : ∀ w a b, key b ≠ key a → recorded w b → recorded (g w (key a)) b) :
    ∀ (xs : List α) (w : ω), (xs.map key).Nodup → (∀ a ∈ xs, recorded w a) →
      xs.foldl f w = (xs.map key).foldl g w
  | [], _, _, _ => rfl
  | a :: xs, w, hnd, hrec => by
    rw [List.map_cons, List.nodup_cons] at hnd
    rw [List.map_cons, List.foldl_cons, List.foldl_cons, same w a (hrec a List.mem_cons_self)]
    refine foldl_recorded recorded same frame xs _ hnd.2 fun b hb => ?_
    refine frame w a b (fun he => hnd.1 (he ▸ List.mem_map_of_mem hb)) ?_
    exact hrec b (List.mem_cons_of_mem a hb)

end Keyed

/-! ## Registers

A fold may write a register many times. When all its writes agree, their order and number do
not matter.
-/

section Register

variable {ω ρ β : Type*} {f : ω → ρ → ω} {sets : ρ → Option β} (look : ω → Option β)

/-- What no step of a fold writes. -/
theorem foldl_unwritten {γ : Type*} (look : ω → γ) (hf : ∀ w r, look (f w r) = look w) :
    ∀ (rs : List ρ) (w : ω), look (rs.foldl f w) = look w
  | [], _ => rfl
  | r :: rs, w => (foldl_unwritten look hf rs (f w r)).trans (hf w r)

theorem foldl_register (hf : ∀ w r, look (f w r) = (sets r).or (look w)) :
    ∀ (rs : List ρ) (w : ω) (b : β),
      (∀ r ∈ rs, ∀ b', sets r = some b' → b' = b) →
      (look w = some b ∨ ∃ r ∈ rs, sets r = some b) → look (rs.foldl f w) = some b
  | [], w, b, _, h => by simpa using h
  | r :: rs, w, b, hsame, h => by
    refine foldl_register hf rs (f w r) b (fun r' hr' => hsame r' (List.mem_cons_of_mem r hr')) ?_
    cases hr : sets r with
    | some b' =>
      rw [hf, hr, hsame r List.mem_cons_self b' hr]
      exact Or.inl rfl
    | none =>
      rw [hf, hr, Option.none_or]
      rcases h with h | ⟨r', hr', hb⟩
      · exact Or.inl h
      · rcases List.mem_cons.1 hr' with rfl | hr'
        · rw [hr] at hb; cases hb
        · exact Or.inr ⟨r', hr', hb⟩

theorem foldl_register_none (hf : ∀ w r, look (f w r) = (sets r).or (look w)) :
    ∀ (rs : List ρ) (w : ω), (∀ r ∈ rs, sets r = none) → look (rs.foldl f w) = look w
  | [], _, _ => rfl
  | r :: rs, w, h => by
    rw [List.foldl_cons, foldl_register_none hf rs (f w r) fun r' hr' =>
      h r' (List.mem_cons_of_mem r hr'), hf, h r List.mem_cons_self, Option.none_or]

/-- A register of a fresh state that a fold sets from a table `m`: it reads as the table. -/
theorem foldl_register_eq (hf : ∀ w r, look (f w r) = (sets r).or (look w)) {rs : List ρ} {w : ω}
    {m : Option β} (hfresh : look w = none) (h : ∀ r ∈ rs, ∀ b, sets r = some b → m = some b)
    (hm : ∀ b, m = some b → ∃ r ∈ rs, sets r = some b) : look (rs.foldl f w) = m := by
  cases hcase : m with
  | some b =>
    refine foldl_register look hf rs w b (fun r hr b' hb' => ?_) (Or.inr (hm b hcase))
    exact Option.some.inj ((h r hr b' hb').symm.trans hcase)
  | none =>
    rw [foldl_register_none look hf rs w fun r hr => ?_, hfresh]
    cases hr' : sets r with
    | none => rfl
    | some b => rw [h r hr b hr'] at hcase; cases hcase

end Register

end Runs
