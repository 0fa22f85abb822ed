import DraconGuard.Lib.Runs
import DraconGuard.Guard.ManagedOom

/-!
# The bytes of a debt from a previous boot

`archive_previous_boot` (managed_oom.rs:139) copies the debt file, unless there is an archive
already, and removes it: "keep its bytes for operator review". `fs::copy` writes into the archive
itself, so a run that stops leaves what it has written, and the next run finds an archive.

| here | there |
| --- | --- |
| `ArchivePoint.check` | `destination.exists()` (:141), which is false of a file it cannot stat |
| `create`, `copy` | the archive opened empty, and written (:142) |
| `remove`, `sync` | `remove_file` (:144) and the sync of the directory (:145) |
| `ArchiveInput.stop` | a call that fails, or a crash: the next input is of another run |

Files are as the kernel shows them. A run that nothing stops does to them what
`archivePreviousBoot` does to the registry (`exec_archive_registry`).
-/

namespace DraconGuard

namespace ManagedOom

open Runs

abbrev Bytes := List UInt8

/-- How far a run has come. -/
inductive ArchivePoint where
  | check
  | create
  | copy
  /-- Whether the copy was skipped. -/
  | remove (skipped : Bool)
  | sync
deriving DecidableEq

/-- The two files of one debt, and the run. -/
structure ArchiveState where
  point : ArchivePoint
  live : Option Bytes
  archive : Option Bytes
deriving DecidableEq

inductive ArchiveInput where
  | go
  /-- The archive cannot be looked at. -/
  | unseen
  | stop
deriving DecidableEq

/-- One system call, or one byte of the copy. -/
def archiveStep (s : ArchiveState) : ArchiveInput → ArchiveState
  | .stop => { s with point := .check }
  | .unseen => { s with point := if s.point = .check then .create else .check }
  | .go =>
    match s.point with
    | .check => { s with point := if s.archive.isSome then .remove true else .create }
    | .create =>
      match s.live with
      | none => { s with point := .check }
      | some _ => { s with point := .copy, archive := some [] }
    | .copy =>
      match s.live, s.archive with
      | some debt, some written =>
        if written.length < debt.length then
          { s with archive := some (debt.take (written.length + 1)) }
        else { s with point := .remove false }
      | _, _ => { s with point := .check }
    | .remove _ =>
      match s.live with
      | none => { s with point := .check }
      | some _ => { s with point := .sync, live := none }
    | .sync => { s with point := .check }

/-- A run is about to begin. -/
def ArchiveState.start (debt : Bytes) (archive : Option Bytes) : ArchiveState :=
  ⟨.check, some debt, archive⟩

/-- All the bytes are in the one file or the other. -/
def ArchiveState.Complete (debt : Bytes) (s : ArchiveState) : Prop :=
  s.live = some debt ∨ s.archive = some debt

/-- A run that took the archive for a copy has it complete before it removes the debt. -/
def TrustedInFull (debt : Bytes) (s : ArchiveState) (i : ArchiveInput) : Prop :=
  i = .go → s.point = .remove true → s.live.isSome → s.archive = some debt

/-- The live file is the debt until it goes, and a copy is a front of it. -/
structure ArchiveState.Consistent (debt : Bytes) (s : ArchiveState) : Prop where
  live : s.live = none ∨ s.live = some debt
  copying : s.point = .copy →
    s.live = some debt ∧ ∃ k ≤ debt.length, s.archive = some (debt.take k)
  copied : s.point = .remove false → s.archive = some debt

section Step

variable {debt : Bytes}

/-- Away from a copy there is nothing to know but the live file. -/
theorem ArchiveState.Consistent.of_ne {s : ArchiveState} (hlive : s.live = none ∨ s.live = some debt)
    (hcopy : s.point ≠ .copy) (hremove : s.point ≠ .remove false) : s.Consistent debt :=
  ⟨hlive, fun h => absurd h hcopy, fun h => absurd h hremove⟩

/-- A byte more, or the end of the copy. -/
theorem archiveStep_copy {k : Nat} (hk : k ≤ debt.length) :
    archiveStep ⟨.copy, some debt, some (debt.take k)⟩ .go =
      if k < debt.length then ⟨.copy, some debt, some (debt.take (k + 1))⟩
      else ⟨.remove false, some debt, some debt⟩ := by
  have hlength : (debt.take k).length = k := by
    rw [List.length_take]
    omega
  simp only [archiveStep, hlength]
  split
  · rfl
  · next hall => rw [List.take_of_length_le (Nat.le_of_not_lt hall)]

theorem archiveStep_consistent (s : ArchiveState) (i : ArchiveInput) (h : s.Consistent debt) :
    (archiveStep s i).Consistent debt := by
  obtain ⟨point, live, archive⟩ := s
  cases i with
  | stop => exact .of_ne h.live (by simp [archiveStep]) (by simp [archiveStep])
  | unseen =>
    have hpoint : (archiveStep ⟨point, live, archive⟩ .unseen).point = .create ∨
        (archiveStep ⟨point, live, archive⟩ .unseen).point = .check := by
      simp only [archiveStep]
      split
      · exact Or.inl rfl
      · exact Or.inr rfl
    rcases hpoint with hpoint | hpoint
    · exact .of_ne h.live (by simp [hpoint]) (by simp [hpoint])
    · exact .of_ne h.live (by simp [hpoint]) (by simp [hpoint])
  | go =>
    cases point with
    | check =>
      cases archive with
      | none => exact .of_ne h.live (by simp [archiveStep]) (by simp [archiveStep])
      | some _ => exact .of_ne h.live (by simp [archiveStep]) (by simp [archiveStep])
    | create =>
      rcases h.live with hlive | hlive
      · obtain rfl : live = none := hlive
        exact .of_ne (Or.inl rfl) (by simp [archiveStep]) (by simp [archiveStep])
      · obtain rfl : live = some debt := hlive
        exact ⟨Or.inr rfl, fun _ => ⟨rfl, 0, Nat.zero_le _, rfl⟩, fun hpoint => nomatch hpoint⟩
    | copy =>
      obtain ⟨hlive, k, hk, harchive⟩ := h.copying rfl
      obtain rfl : live = some debt := hlive
      obtain rfl : archive = some (debt.take k) := harchive
      rw [archiveStep_copy hk]
      split
      · next hmore =>
        exact ⟨Or.inr rfl, fun _ => ⟨rfl, k + 1, hmore, rfl⟩, fun hpoint => nomatch hpoint⟩
      · exact ⟨Or.inr rfl, (fun hpoint => nomatch hpoint), fun _ => rfl⟩
    | remove skipped =>
      cases live with
      | none => exact .of_ne (Or.inl rfl) (by simp [archiveStep]) (by simp [archiveStep])
      | some _ => exact .of_ne (Or.inl rfl) (by simp [archiveStep]) (by simp [archiveStep])
    | sync => exact .of_ne h.live (by simp [archiveStep]) (by simp [archiveStep])

/-- A step that leaves the live file loses nothing. -/
theorem ArchiveState.Complete.of_live {s s' : ArchiveState} (hs : s.Complete debt)
    (hlive : s'.live = s.live) (harchive : s.live = none → s'.archive = s.archive)
    (hconsistent : s.Consistent debt) : s'.Complete debt := by
  rcases hconsistent.live with hnone | hsome
  · refine Or.inr ((harchive hnone).trans (hs.resolve_left ?_))
    rw [hnone]
    simp
  · exact Or.inl (hlive.trans hsome)

/-- Only a removal takes the live file. -/
theorem archiveStep_live {s : ArchiveState} {i : ArchiveInput}
    (h : i = .go → ∀ skipped, s.point ≠ .remove skipped) :
    (archiveStep s i).live = s.live ∧ (s.live = none → (archiveStep s i).archive = s.archive) := by
  obtain ⟨point, live, archive⟩ := s
  cases i with
  | stop => exact ⟨rfl, fun _ => rfl⟩
  | unseen => exact ⟨rfl, fun _ => rfl⟩
  | go =>
    cases point with
    | check => exact ⟨rfl, fun _ => rfl⟩
    | create =>
      cases live with
      | none => exact ⟨rfl, fun _ => rfl⟩
      | some _ => exact ⟨rfl, fun hnone => nomatch hnone⟩
    | copy =>
      cases live with
      | none => exact ⟨rfl, fun _ => rfl⟩
      | some _ =>
        cases archive with
        | none => exact ⟨rfl, fun _ => rfl⟩
        | some _ =>
          simp only [archiveStep]
          split
          · exact ⟨rfl, fun hnone => nomatch hnone⟩
          · exact ⟨rfl, fun _ => rfl⟩
    | remove skipped => exact absurd rfl (h rfl skipped)
    | sync => exact ⟨rfl, fun _ => rfl⟩

/-- **One step**: bytes are lost exactly by a removal that trusted an archive without all of
them. -/
theorem complete_archiveStep_iff (s : ArchiveState) (i : ArchiveInput) (h : s.Consistent debt)
    (hs : s.Complete debt) : (archiveStep s i).Complete debt ↔ TrustedInFull debt s i := by
  by_cases hremove : i = .go ∧ ∃ skipped, s.point = .remove skipped
  · obtain ⟨rfl, skipped, hpoint⟩ := hremove
    obtain ⟨point, live, archive⟩ := s
    obtain rfl : point = .remove skipped := hpoint
    cases live with
    | none =>
      -- nothing to remove: the call fails
      have harchive : archive = some debt := hs.resolve_left (by simp)
      exact iff_of_true (Or.inr harchive) fun _ _ _ => harchive
    | some _ =>
      constructor
      · rintro (hlive | harchive) - - -
        · cases hlive
        · exact harchive
      · intro htrusted
        cases skipped with
        | true => exact Or.inr (htrusted rfl rfl rfl)
        | false => exact Or.inr (h.copied rfl)
  · have hkeeps := archiveStep_live (s := s) (i := i) fun hgo skipped hpoint =>
      hremove ⟨hgo, skipped, hpoint⟩
    exact iff_of_true (hs.of_live hkeeps.1 hkeeps.2 h) fun hgo hpoint _ =>
      absurd ⟨hgo, true, hpoint⟩ hremove

end Step

/-! ## Runs -/

section Run

variable {debt : Bytes}

theorem exec_copy {k : Nat} (hk : k ≤ debt.length) :
    exec archiveStep ⟨.copy, some debt, some (debt.take k)⟩
        (List.replicate (debt.length - k + 1) .go) = ⟨.remove false, some debt, some debt⟩ := by
  obtain ⟨n, hn⟩ := Nat.exists_eq_add_of_le hk
  induction n generalizing k with
  | zero =>
    have hsteps : debt.length - k + 1 = 1 := by omega
    rw [hsteps, List.replicate_one, exec_cons, exec_nil, archiveStep_copy hk, if_neg (by omega)]
  | succ n ih =>
    have hsteps : debt.length - k + 1 = debt.length - (k + 1) + 1 + 1 := by omega
    rw [hsteps, List.replicate_succ, exec_cons, archiveStep_copy hk, if_pos (by omega)]
    exact ih (by omega) (by omega)

/-- **A run that nothing stops**: the live file is gone, the archive what it was, or the debt. -/
theorem exec_archive (debt : Bytes) (archive : Option Bytes) :
    ∃ n, exec archiveStep (.start debt archive) (List.replicate n .go) =
      ⟨.sync, none, archive.or (some debt)⟩ := by
  cases archive with
  | some found => exact ⟨2, rfl⟩
  | none =>
    refine ⟨debt.length + 1 + 1 + 2, ?_⟩
    have hcopy := exec_copy (Nat.zero_le debt.length)
    rw [Nat.sub_zero, List.take_zero] at hcopy
    rw [List.replicate_succ', List.replicate_succ, List.replicate_succ, exec, List.foldl_append]
    change exec archiveStep (exec archiveStep ⟨.copy, some debt, some []⟩ _) [.go] = _
    rw [hcopy]
    rfl

/-- The files of a job after a run, as the registry has them. -/
theorem exec_archive_registry (encode : Debt → Bytes) {env : ArchiveEnv} {d : Debt}
    {w : ManagedWorld} (hcopied : env.copied = true) (hremove : env.remove = .synced)
    (hdebt : w.visible.debts d.admission.id = some d) :
    let after := (archivePreviousBoot env d w).1.visible
    ∃ n, exec archiveStep
        (.start (encode d) ((w.visible.archived d.admission.id).map encode))
        (List.replicate n .go) =
      ⟨.sync, (after.debts d.admission.id).map encode,
        (after.archived d.admission.id).map encode⟩ := by
  obtain ⟨n, hn⟩ := exec_archive (encode d) ((w.visible.archived d.admission.id).map encode)
  refine ⟨n, hn.trans ?_⟩
  unfold archivePreviousBoot
  rw [hcopied, hremove]
  cases harchived : w.visible.archived d.admission.id with
  | none => simp [ManagedWorld.publish, ManagedWorld.settle, harchived, hdebt]
  | some _ => simp [ManagedWorld.publish, ManagedWorld.settle, harchived]

/-- No archive, or one with all the bytes, unless a copy is under way. -/
structure ArchiveState.Uncut (debt : Bytes) (s : ArchiveState) : Prop extends
    s.Consistent debt where
  settled : s.point ≠ .copy → s.archive = none ∨ s.archive = some debt
  found : s.point = .remove true → s.archive.isSome

theorem archiveStep_uncut (s : ArchiveState) (i : ArchiveInput) (h : s.Uncut debt)
    (hi : s.point = .copy → i = .go) : (archiveStep s i).Uncut debt := by
  refine ⟨archiveStep_consistent s i h.toConsistent, ?_, ?_⟩
  · obtain ⟨point, live, archive⟩ := s
    cases i with
    | stop => exact fun _ => h.settled fun hcopy => nomatch hi hcopy
    | unseen => exact fun _ => h.settled fun hcopy => nomatch hi hcopy
    | go =>
      cases point with
      | check => exact fun _ => h.settled (by simp)
      | create =>
        cases live with
        | none => exact fun _ => h.settled (by simp)
        | some _ => exact fun hcopy => absurd rfl hcopy
      | copy =>
        obtain ⟨hlive, k, hk, harchive⟩ := h.copying rfl
        obtain rfl : live = some debt := hlive
        obtain rfl : archive = some (debt.take k) := harchive
        rw [archiveStep_copy hk]
        split
        · exact fun hcopy => absurd rfl hcopy
        · exact fun _ => Or.inr rfl
      | remove skipped =>
        cases live with
        | none => exact fun _ => h.settled (by simp)
        | some _ => exact fun _ => h.settled (by simp)
      | sync => exact fun _ => h.settled (by simp)
  · intro hpoint
    obtain ⟨point, live, archive⟩ := s
    -- only the check leads there
    cases i with
    | stop => cases hpoint
    | unseen =>
      simp only [archiveStep] at hpoint
      split at hpoint
      · cases hpoint
      · cases hpoint
    | go =>
      cases point with
      | check =>
        cases archive with
        | none => cases hpoint
        | some _ => rfl
      | create => cases live with
        | none => cases hpoint
        | some _ => cases hpoint
      | copy =>
        obtain ⟨hlive, k, hk, harchive⟩ := h.copying rfl
        obtain rfl : live = some debt := hlive
        obtain rfl : archive = some (debt.take k) := harchive
        rw [archiveStep_copy hk] at hpoint
        split at hpoint
        · cases hpoint
        · cases hpoint
      | remove skipped => cases live with
        | none => cases hpoint
        | some _ => cases hpoint
      | sync => cases hpoint

/-- **Runs that cut no copy short lose nothing.** -/
theorem trusted_of_uncut {archive : Option Bytes} (harchive : archive = none ∨ archive = some debt)
    {inputs : List ArchiveInput}
    (huncut : Along archiveStep (fun s i => s.point = .copy → i = .go) (.start debt archive)
      inputs) : Along archiveStep (TrustedInFull debt) (.start debt archive) inputs := by
  have hstart : (ArchiveState.start debt archive).Uncut debt :=
    { live := Or.inr rfl
      copying := fun hpoint => nomatch hpoint
      copied := fun hpoint => nomatch hpoint
      settled := fun _ => harchive
      found := fun hpoint => nomatch hpoint }
  refine Along.under archiveStep_uncut (fun s i h _ => ?_) hstart huncut
  intro _ hpoint _
  rcases h.settled (by simp [hpoint]) with hnone | hall
  · have hfound := h.found hpoint
    rw [hnone] at hfound
    cases hfound
  · exact hall

end Run

end ManagedOom

end DraconGuard
