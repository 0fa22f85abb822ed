import DraconGuard.Lib.Runs

/-!
# Logs whose entries obey a law

A machine that notes what it does, the last first. `Obeyed law` says of every entry that it obeys a
law about what was noted before it; a machine whose every step notes by it has such a log after
every run (`Obeyed.exec`).
-/

namespace Journal

variable {ε σ ι : Type*} {law : ε → List ε → Prop}

/-- Every entry obeys the law about the ones before it. -/
def Obeyed (law : ε → List ε → Prop) : List ε → Prop
  | [] => True
  | e :: older => law e older ∧ Obeyed law older

theorem Obeyed.of_append {newer older : List ε} (h : Obeyed law (newer ++ older)) :
    Obeyed law older := by
  induction newer with
  | nil => exact h
  | cons e newer ih => exact ih h.2

/-- What is known of an entry. -/
theorem Obeyed.at {newer older : List ε} {e : ε} (h : Obeyed law (newer ++ e :: older)) :
    law e older := h.of_append.1

/-- A new entry over a log that obeys. -/
theorem Obeyed.cons {log : List ε} {e : ε} (h : Obeyed law log) (he : law e log) :
    Obeyed law (e :: log) := ⟨he, h⟩

/-- **Run rule.** Where every step from a good state to a good state notes by the law, the log of a
run obeys it. -/
theorem Obeyed.exec {step : σ → ι → σ} {good : σ → Prop} {log : σ → List ε}
    (hstep : ∀ s i, good s → Obeyed law (log s) →
      good (step s i) ∧ Obeyed law (log (step s i)))
    {s : σ} (hgood : good s) (hlog : Obeyed law (log s)) (is : List ι) :
    good (Runs.exec step s is) ∧ Obeyed law (log (Runs.exec step s is)) := by
  induction is generalizing s with
  | nil => exact ⟨hgood, hlog⟩
  | cons i is ih =>
    obtain ⟨hgood', hlog'⟩ := hstep s i hgood hlog
    exact ih hgood' hlog'

end Journal
