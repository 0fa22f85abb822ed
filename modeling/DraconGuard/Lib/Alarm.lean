import Mathlib.Data.List.Chain

/-!
# Alarms that re-arm and are rate limited

A monitor looks at a condition again and again. A register keeps the last value it reported and
when it last spoke; the monitor speaks when the value changes, and repeats an alarm no sooner than
`gap` after the last time. Over the history of its sightings, newest first, that is `Rearmed` and
`RateLimited`. `Tracks` ties the register to the history; `Tracks.feed` and
`Tracks.clear_cons` say what a sighting must do to it.
-/

namespace Alarm

variable {V : Type*}

/-- One look at the condition: what was reported of it, if anything, and whether the monitor
spoke. -/
structure Sighting (V : Type*) where
  time : Nat
  holds : Bool
  value : Option V
  emitted : Bool

/-- After a sighting of a clear condition, the next one of a condition that holds speaks. -/
def Rearmed (hist : List (Sighting V)) : Prop :=
  hist.IsChain fun e e' => e'.holds = false → e.holds = true → e.emitted = true

/-- Since the sighting `e`, the condition has held with one value. -/
def Unchanged (hist : List (Sighting V)) (e : Sighting V) : Prop :=
  ∃ newer older, hist = newer ++ e :: older ∧ ∀ m ∈ newer, m.holds = true ∧ m.value = e.value

/-- While the value stays unchanged, the monitor speaks once in `gap`. -/
def RateLimited (gap : Nat) : List (Sighting V) → Prop
  | [] => True
  | e :: older =>
    (e.emitted = true → ∀ e', Unchanged older e' → e'.emitted = true → e'.value = e.value →
      gap ≤ e.time - e'.time) ∧ RateLimited gap older

/-- **What the register knows**: no alarm, when the condition was last seen clear; and the value of
an alarm that was given and still holds, with a time no earlier than the alarm's. -/
structure Tracks (alarm : V → Bool) (value : Option V) (last : Option Nat)
    (hist : List (Sighting V)) : Prop where
  clear : ∀ e ∈ hist.head?, e.holds = false → ∀ v, value = some v → alarm v = false
  given : ∀ e, Unchanged hist e → e.emitted = true →
    value = e.value ∧ ∃ t, last = some t ∧ e.time ≤ t

variable {hist : List (Sighting V)}

theorem unchanged_cons {e x : Sighting V} : Unchanged (x :: hist) e ↔
    e = x ∨ Unchanged hist e ∧ x.holds = true ∧ x.value = e.value := by
  constructor
  · rintro ⟨newer, older, heq, hsame⟩
    cases newer with
    | nil => exact Or.inl (List.cons.inj heq).1.symm
    | cons y newer =>
      obtain ⟨rfl, rfl⟩ := List.cons.inj heq
      refine Or.inr ⟨⟨newer, older, rfl, fun m hm => hsame m ?_⟩, hsame _ List.mem_cons_self⟩
      exact List.mem_cons_of_mem _ hm
  · rintro (rfl | ⟨⟨newer, older, rfl, hsame⟩, hx⟩)
    · exact ⟨[], hist, rfl, fun _ hm => nomatch hm⟩
    · refine ⟨x :: newer, older, rfl, fun m hm => ?_⟩
      rcases List.mem_cons.1 hm with rfl | hm
      · exact hx
      · exact hsame m hm

section Step

variable [DecidableEq V] {alarm : V → Bool} {value : Option V} {last : Option Nat} {gap now : Nat}

/-- Whether the monitor speaks: the value has changed, or an alarm is due again. -/
def due (gap : Nat) (alarm : V → Bool) (value : Option V) (last : Option Nat) (v : V)
    (now : Nat) : Bool :=
  value ≠ some v || alarm v && last.all fun last => gap ≤ now - last

/-- The sighting of a monitor that reports `v`. -/
def fed (gap : Nat) (alarm : V → Bool) (value : Option V) (last : Option Nat) (v : V)
    (now : Nat) : Sighting V :=
  ⟨now, alarm v, some v, due gap alarm value last v now && alarm v⟩

theorem fed_emitted {v : V} : (fed gap alarm value last v now).emitted = true ↔
    alarm v = true ∧ (value ≠ some v ∨ ∀ t, last = some t → gap ≤ now - t) := by
  unfold fed due
  cases last <;> cases alarm v <;> simp

/-- A report keeps the register in step. -/
theorem Tracks.feed (hpos : 0 < gap) (h : Tracks alarm value last hist) {v : V}
    {last' : Option Nat}
    (hspoken : (fed gap alarm value last v now).emitted = true → last' = some now)
    (hsilent : alarm v = true → (fed gap alarm value last v now).emitted = false → last' = last) :
    Tracks alarm (some v) last' (fed gap alarm value last v now :: hist) where
  clear := by
    intro e he hclear v' hv'
    rw [List.head?_cons, Option.mem_some_iff] at he
    obtain rfl := Option.some.inj hv'
    subst he
    exact hclear
  given := by
    intro e he hgiven
    rcases unchanged_cons.1 he with rfl | ⟨hold, hholds, hsame⟩
    · exact ⟨rfl, now, hspoken hgiven, Nat.le_refl _⟩
    · obtain ⟨hvalue, t, ht, hle⟩ := h.given e hold hgiven
      refine ⟨hsame, ?_⟩
      cases hem : (fed gap alarm value last v now).emitted with
      | false => exact ⟨t, (hsilent hholds hem).trans ht, hle⟩
      | true =>
        refine ⟨now, hspoken hem, ?_⟩
        rcases (fed_emitted.1 hem).2 with hchanged | hgap
        · exact absurd (hvalue.trans hsame.symm) hchanged
        · have hdue := hgap t ht
          omega

/-- **A report keeps the law**: an alarm after a clear sighting is a change, and an alarm that is
repeated was due. -/
theorem Tracks.rearmed_feed (h : Tracks alarm value last hist) (hlaw : Rearmed hist) (v : V)
    (now : Nat) : Rearmed (fed gap alarm value last v now :: hist) := by
  refine List.isChain_cons.2 ⟨fun e he hclear hholds => fed_emitted.2 ⟨hholds, Or.inl ?_⟩, hlaw⟩
  intro hsame
  have hquiet := h.clear e he hclear v hsame
  exact absurd (hquiet.symm.trans hholds) (by decide)

theorem Tracks.rateLimited_feed (h : Tracks alarm value last hist)
    (hlaw : RateLimited gap hist) (v : V) (now : Nat) :
    RateLimited gap (fed gap alarm value last v now :: hist) := by
  refine ⟨fun hem e he hgiven hsame => ?_, hlaw⟩
  obtain ⟨hvalue, t, ht, hle⟩ := h.given e he hgiven
  rcases (fed_emitted.1 hem).2 with hchanged | hgap
  · exact absurd (hvalue.trans hsame) hchanged
  · have hdue := hgap t ht
    change gap ≤ now - e.time
    omega

end Step

section Silent

variable {alarm : V → Bool} {value : Option V} {last : Option Nat} {gap : Nat} {e : Sighting V}

/-- A sighting of a clear condition keeps the law. -/
theorem rearmed_clear (h : Rearmed hist) (hclear : e.holds = false) : Rearmed (e :: hist) := by
  refine List.isChain_cons.2 ⟨fun _ _ _ hholds => ?_, h⟩
  rw [hclear] at hholds
  cases hholds

theorem rateLimited_silent (h : RateLimited gap hist) (hsilent : e.emitted = false) :
    RateLimited gap (e :: hist) := by
  refine ⟨fun hem => ?_, h⟩
  rw [hsilent] at hem
  cases hem

/-- With the condition clear, the register must hold no alarm: whether it was told or left alone. -/
theorem Tracks.clear_cons (hclear : e.holds = false) (hsilent : e.emitted = false)
    (hquiet : ∀ v, value = some v → alarm v = false) : Tracks alarm value last (e :: hist) where
  clear _ _ _ v hv := hquiet v hv
  given e' he hgiven := by
    rcases unchanged_cons.1 he with rfl | ⟨-, hholds, -⟩
    · rw [hsilent] at hgiven; cases hgiven
    · rw [hclear] at hholds; cases hholds

theorem Tracks.empty : Tracks alarm none last [] where
  clear _ he := absurd he (by simp)
  given e he := by
    obtain ⟨newer, older, heq, -⟩ := he
    exact absurd heq (by simp)

end Silent

end Alarm
