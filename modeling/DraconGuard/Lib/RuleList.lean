import Mathlib.Data.List.Basic

/-!
# Rules applied in sequence

Each rule changes a state and may say so by a name; `run` applies a list of them and collects the
names. A state that every rule leaves alone is left alone by the list (`run_of_fixed`), and what a
rule establishes and no later rule takes back holds at the end (`run_of_split`).
-/

namespace RuleList

variable {σ ν ρ : Type*} (apply : ρ → σ → σ × List ν)

def run : List ρ → σ → σ × List ν
  | [], s => (s, [])
  | r :: rules, s =>
    let (s', names) := apply r s
    let (last, later) := run rules s'
    (last, names ++ later)

variable {apply} {rules pre post : List ρ} {r : ρ} {s : σ}

theorem run_append (pre post : List ρ) (s : σ) :
    (run apply (pre ++ post) s).1 = (run apply post (run apply pre s).1).1 := by
  induction pre generalizing s with
  | nil => rfl
  | cons r pre ih => exact ih (apply r s).1

/-- **What every rule keeps, the list keeps.** -/
theorem run_of_keeps {P : σ → Prop} (hkeeps : ∀ r ∈ rules, ∀ s, P s → P (apply r s).1)
    (hs : P s) : P (run apply rules s).1 := by
  induction rules generalizing s with
  | nil => exact hs
  | cons r rules ih =>
    exact ih (fun r' hr' => hkeeps r' (List.mem_cons_of_mem r hr'))
      (hkeeps r List.mem_cons_self s hs)

/-- **What a rule establishes holds at the end**, where no later rule takes it back. -/
theorem run_of_split {P : σ → Prop} (hsplit : rules = pre ++ r :: post)
    (hr : ∀ s, P (apply r s).1) (hkeeps : ∀ r' ∈ post, ∀ s, P s → P (apply r' s).1) :
    P (run apply rules s).1 := by
  subst hsplit
  rw [run_append]
  have hpost : P (run apply post (apply r (run apply pre s).1).1).1 := run_of_keeps hkeeps (hr _)
  exact hpost

/-- A state that no rule changes. -/
theorem run_of_fixed (h : ∀ r ∈ rules, (apply r s).1 = s) : (run apply rules s).1 = s :=
  run_of_keeps (P := (· = s)) (fun r hr _ hs' => hs' ▸ h r hr) rfl

/-- **A state that every rule passes over in silence.** -/
theorem run_of_quiet (h : ∀ r ∈ rules, apply r s = (s, [])) : run apply rules s = (s, []) := by
  induction rules with
  | nil => rfl
  | cons r rules ih =>
    have hrest := ih fun r' hr' => h r' (List.mem_cons_of_mem r hr')
    simp only [run, h r List.mem_cons_self, hrest, List.append_nil]

end RuleList
