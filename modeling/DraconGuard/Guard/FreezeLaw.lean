import DraconGuard.Lib.Runs
import DraconGuard.Guard.DiskPass

/-!
# Whose marker the guard writes over

"Never remove or rewrite another owner's marker" (main.rs:7624). The guard acts on what it saw: that
no marker was there at the start of the pass, or that the marker was its own when it read the
prefix. The operator may pause between, and then the guard writes over the operator's marker, or
removes it (`paused_marker_overwritten`). `freeze_harmless_iff`: it harms a marker in no other way.
-/

namespace DraconGuard

/-- No marker of another owner was ever overwritten or removed. -/
def Harmless (w : FreezeWorld) : Prop := w.harmed = []

/-- The operator's last command since the pass looked is a pause. -/
def FreezeWorld.PausedSince (w : FreezeWorld) : Prop :=
  ∃ text, w.since = some (some text) ∧ guardOwnsText text = false

/-- **No pause comes between** the look of a pass and the write or the removal it leads to. A write
that cannot open the file, and a removal that fails, touch nothing. -/
def NotPaused (w : FreezeWorld) : FreezeEvent → Prop
  | .write outcome => ∀ used, w.phase = .writing used → outcome ≠ .openFailed → ¬ w.PausedSince
  | .remove ok => w.phase = .owned → ok = true → ¬ w.PausedSince
  | _ => True

/-! ## What a pass knows of the marker -/

/-- The pass has seen no marker, or its own, and will act on it. -/
def FreezeWorld.acting (w : FreezeWorld) : Prop :=
  match w.phase with
  | .checked _ => w.syncFrozen = false
  | .writing _ => True
  | .owned => True
  | _ => False

/-- Where a pass acts, the marker is what it saw, or what the operator made of it since. -/
structure KnowsMarker (w : FreezeWorld) : Prop where
  own : w.since = none → w.foreign = []
  command : ∀ m, w.since = some m → w.marker = m

section Step

variable {w : FreezeWorld}

theorem foreign_eq_nil : w.foreign = [] ↔ w.marker.all guardOwnsText = true := by
  unfold FreezeWorld.foreign
  cases w.marker with
  | none => simp
  | some text => cases h : guardOwnsText text <;> simp [h]

theorem KnowsMarker.foreign_iff (h : KnowsMarker w) : w.foreign = [] ↔ ¬ w.PausedSince := by
  cases hsince : w.since with
  | none =>
    refine iff_of_true (h.own hsince) ?_
    rintro ⟨text, htext, -⟩
    rw [hsince] at htext
    cases htext
  | some m =>
    rw [foreign_eq_nil, h.command m hsince]
    unfold FreezeWorld.PausedSince
    cases m with
    | none => simp [hsince]
    | some text => simp [hsince]

/-- A pass that found a marker does not write one. -/
theorem decideFreeze_frozen (guard : DiskPolicy) (used : Nat) :
    decideFreeze guard used true = .idle ∨ decideFreeze guard used true = .lifting := by
  unfold decideFreeze
  dsimp only
  rw [if_pos rfl]
  split_ifs
  · exact Or.inl rfl
  · exact Or.inr rfl
  · exact Or.inl rfl

theorem knowsMarker_step (h : w.acting → KnowsMarker w) (e : FreezeEvent) :
    (freezeStep w e).acting → KnowsMarker (freezeStep w e) := by
  cases e with
  | check used =>
    dsimp only [freezeStep]
    split
    · intro hacting
      have hnone : w.marker = none :=
        Option.isNone_iff_eq_none.1 (Option.isSome_eq_false_iff.1 hacting)
      refine ⟨fun _ => ?_, fun m hm => nomatch hm⟩
      rw [foreign_eq_nil]
      dsimp only
      rw [hnone]
      rfl
    · exact h
  | decide =>
    dsimp only [freezeStep]
    split
    · next used hphase =>
      intro hacting
      have hfree : w.acting := by
        unfold FreezeWorld.acting at hacting ⊢
        rw [hphase]
        dsimp only at hacting ⊢
        cases hfrozen : w.syncFrozen with
        | false => rfl
        | true =>
          rw [hfrozen] at hacting
          rcases decideFreeze_frozen w.guard used with hidle | hlifting
          · rw [hidle] at hacting; exact hacting.elim
          · rw [hlifting] at hacting; exact hacting.elim
      exact ⟨(h hfree).own, (h hfree).command⟩
    · exact h
  | write outcome =>
    dsimp only [freezeStep]
    split
    · cases outcome <;> exact fun hacting => hacting.elim
    · exact h
  | look =>
    dsimp only [freezeStep]
    split
    · split_ifs <;> exact fun hacting => hacting.elim
    · exact h
  | readOwner readable =>
    dsimp only [freezeStep]
    split
    · intro hacting
      refine ⟨fun _ => ?_, fun m hm => nomatch hm⟩
      rw [foreign_eq_nil]
      unfold FreezeWorld.acting at hacting
      dsimp only at hacting ⊢
      split_ifs at hacting with howned
      · rw [Bool.and_eq_true] at howned
        cases hm : w.marker with
        | none => rfl
        | some text => rw [hm] at howned; exact howned.2
      · exact hacting.elim
    · exact h
  | remove ok =>
    dsimp only [freezeStep]
    split
    · split_ifs <;> exact fun hacting => hacting.elim
    · exact h
  | reload guard =>
    dsimp only [freezeStep]
    split
    · next hphase =>
      intro hacting
      unfold FreezeWorld.acting at hacting
      dsimp only at hacting
      rw [hphase] at hacting
      exact hacting.elim
    · exact h
  | pause text => exact fun _ => ⟨nofun, fun m hm => Option.some.inj hm⟩
  | resume => exact fun _ => ⟨nofun, fun m hm => Option.some.inj hm⟩

/-! ## What harms a marker -/

theorem harmless_write (h : w.acting → KnowsMarker w) (outcome : WriteOutcome) (hw : Harmless w) :
    Harmless (freezeStep w (.write outcome)) ↔ NotPaused w (.write outcome) := by
  unfold Harmless at *
  dsimp only [freezeStep]
  split
  · next used hphase =>
    have hseen : KnowsMarker w := h (by unfold FreezeWorld.acting; rw [hphase]; trivial)
    cases outcome with
    | openFailed => exact iff_of_true hw fun _ _ hopen => absurd rfl hopen
    | writeFailed | written =>
      dsimp only
      rw [hw, List.append_nil, hseen.foreign_iff]
      constructor
      · exact fun hnot _ _ _ => hnot
      · exact fun hnot => hnot used hphase nofun
  · next hother => exact iff_of_true hw fun used hphase => absurd hphase (hother used)

theorem harmless_remove (h : w.acting → KnowsMarker w) (ok : Bool) (hw : Harmless w) :
    Harmless (freezeStep w (.remove ok)) ↔ NotPaused w (.remove ok) := by
  unfold Harmless at *
  dsimp only [freezeStep]
  split
  · next hphase =>
    have hseen : KnowsMarker w := h (by unfold FreezeWorld.acting; rw [hphase]; trivial)
    split
    · next hgone =>
      rw [Bool.and_eq_true] at hgone
      dsimp only
      rw [hw, List.append_nil, hseen.foreign_iff]
      constructor
      · exact fun hnot _ _ => hnot
      · exact fun hnot => hnot hphase hgone.1
    · next hstays =>
      refine iff_of_true hw fun _ hok => ?_
      rw [hok, Bool.true_and, Bool.not_eq_true, Option.isSome_eq_false_iff,
        Option.isNone_iff_eq_none] at hstays
      rw [← hseen.foreign_iff, foreign_eq_nil, hstays]
      rfl
  · next hother => exact iff_of_true hw fun hphase => absurd hphase hother

/-- The other steps of a pass, and the operator's, harm nothing. -/
theorem freezeStep_harmed {e : FreezeEvent} (hwrite : ∀ o, e ≠ .write o)
    (hremove : ∀ ok, e ≠ .remove ok) : (freezeStep w e).harmed = w.harmed := by
  cases e with
  | write o => exact absurd rfl (hwrite o)
  | remove ok => exact absurd rfl (hremove ok)
  | look => dsimp only [freezeStep]; split <;> [split_ifs; skip] <;> rfl
  | check _ | decide | readOwner _ | reload _ => dsimp only [freezeStep]; split <;> rfl
  | pause _ | resume => rfl

theorem harmless_step (h : w.acting → KnowsMarker w) (e : FreezeEvent) (hw : Harmless w) :
    Harmless (freezeStep w e) ↔ NotPaused w e := by
  have hother : (∀ o, e ≠ .write o) → (∀ ok, e ≠ .remove ok) → Harmless (freezeStep w e) :=
    fun hwrite hremove => (freezeStep_harmed hwrite hremove).trans hw
  cases e with
  | write outcome => exact harmless_write h outcome hw
  | remove ok => exact harmless_remove h ok hw
  | check used => exact iff_of_true (hother nofun nofun) trivial
  | decide => exact iff_of_true (hother nofun nofun) trivial
  | look => exact iff_of_true (hother nofun nofun) trivial
  | readOwner readable => exact iff_of_true (hother nofun nofun) trivial
  | reload guard => exact iff_of_true (hother nofun nofun) trivial
  | pause text => exact iff_of_true (hother nofun nofun) trivial
  | resume => exact iff_of_true (hother nofun nofun) trivial

end Step

/-- **The guard harms no marker of another owner, exactly in the runs in which no pause comes
between a pass's look and its write or removal.** -/
theorem freeze_harmless_iff (guard : DiskPolicy) (marker : Option String) (es : List FreezeEvent) :
    Runs.Always freezeStep Harmless { guard := guard, marker := marker } es ↔
      Runs.Along freezeStep NotPaused { guard := guard, marker := marker } es :=
  Runs.always_iff_along (I := fun w => w.acting → KnowsMarker w) (fun _ e h => knowsMarker_step h e)
    (fun _ e h hw => harmless_step h e hw) (fun hacting => hacting.elim) rfl

/-- The operator pauses after the look at the start of a pass, and before the write later in it. -/
theorem paused_marker_overwritten :
    ¬ ∀ (guard : DiskPolicy) (marker : Option String) (es : List FreezeEvent),
      Runs.Always freezeStep Harmless { guard := guard, marker := marker } es := by
  intro h
  have hrun := (h { freezeSyncAtAction := true } none
    [.check 95, .pause "dracon-sync pause", .decide, .write .written]).last
  exact absurd hrun (by unfold Harmless; decide)

end DraconGuard
