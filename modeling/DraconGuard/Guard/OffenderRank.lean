import DraconGuard.Lib.Shortlist
import DraconGuard.Proc

/-!
# The shortlist of a memory-pressure scan

`memory_pressure_offenders` (main.rs:793) sorts and truncates after every sample, "storage is
bounded to five rows; ties are PID-ordered rather than ps-order dependent". The loop is a
`Shortlist` of the samples that are neither exempt nor kernel processes
(`memoryPressureOffenders_eq`); distinct pids break every tie, so what it returns is the first
five of all of them ranked, whatever the order of the scan (`offenders_ranked`).
-/

namespace DraconGuard

/-- The samples the loop does not skip. -/
def eligibleSamples (samples : List ProcSample) (exempt : List String) : List ProcSample :=
  samples.filter fun p => !(exempt.contains p.command || isKernelProcess p.command)

/-- Larger footprint first, then smaller pid. -/
def OutRanks (a b : ProcSample) : Prop :=
  memoryPressureFootprintMb b < memoryPressureFootprintMb a ∨
    memoryPressureFootprintMb a = memoryPressureFootprintMb b ∧ a.pid < b.pid

/-- The order the shortlist is sorted by. -/
abbrev OffenderOrder (a b : ProcSample) : Prop := offenderBefore a b = true

/-! ## The order -/

theorem offenderOrder_iff {a b : ProcSample} :
    OffenderOrder a b ↔ memoryPressureFootprintMb b < memoryPressureFootprintMb a ∨
      memoryPressureFootprintMb a = memoryPressureFootprintMb b ∧ a.pid ≤ b.pid := by
  simp [OffenderOrder, offenderBefore]

theorem offenderOrder_total (a b : ProcSample) : OffenderOrder a b ∨ OffenderOrder b a := by
  rw [offenderOrder_iff, offenderOrder_iff]
  rcases Nat.lt_trichotomy (memoryPressureFootprintMb b) (memoryPressureFootprintMb a) with
    hlt | heq | hgt
  · exact Or.inl (Or.inl hlt)
  · rcases Int.le_total a.pid b.pid with hle | hle
    · exact Or.inl (Or.inr ⟨heq.symm, hle⟩)
    · exact Or.inr (Or.inr ⟨heq, hle⟩)
  · exact Or.inr (Or.inl hgt)

theorem offenderOrder_trans (a b c : ProcSample) (hab : OffenderOrder a b)
    (hbc : OffenderOrder b c) : OffenderOrder a c := by
  rw [offenderOrder_iff] at hab hbc ⊢
  rcases hab with hab | ⟨heq, hab⟩ <;> rcases hbc with hbc | ⟨heq', hbc⟩
  · exact Or.inl (Nat.lt_trans hbc hab)
  · exact Or.inl (heq' ▸ hab)
  · exact Or.inl (heq ▸ hbc)
  · exact Or.inr ⟨heq.trans heq', Int.le_trans hab hbc⟩

/-- A tie is one pid. -/
theorem pid_eq_of_tie {a b : ProcSample} (hab : OffenderOrder a b) (hba : OffenderOrder b a) :
    a.pid = b.pid := by
  rw [offenderOrder_iff] at hab hba
  rcases hab with hab | ⟨heq, hab⟩ <;> rcases hba with hba | ⟨heq', hba⟩
  · exact absurd hba (Nat.lt_asymm hab)
  · exact absurd hab (Nat.not_lt_of_le (Nat.le_of_eq heq'.symm))
  · exact absurd hba (Nat.not_lt_of_le (Nat.le_of_eq heq.symm))
  · exact Int.le_antisymm hab hba

theorem OutRanks.of_order {a b : ProcSample} (h : OffenderOrder a b) (hpid : a.pid ≠ b.pid) :
    OutRanks a b := by
  rw [offenderOrder_iff] at h
  rcases h with hlt | ⟨heq, hle⟩
  · exact Or.inl hlt
  · exact Or.inr ⟨heq, Int.lt_iff_le_and_ne.mpr ⟨hle, hpid⟩⟩

/-! ## The loop -/

/-- Skipped samples leave the loop as it was; the others arrive at the shortlist. -/
theorem foldl_offenderStep (samples : List ProcSample) (exempt : List String)
    (acc : List ProcSample × Nat) :
    samples.foldl (offenderStep exempt) acc =
      ((eligibleSamples samples exempt).foldl
          (Shortlist.arrive OffenderOrder memoryOffenderLimit) acc.1,
        acc.2 + (eligibleSamples samples exempt).countP (·.swapMb.isNone)) := by
  induction samples generalizing acc with
  | nil => rfl
  | cons p rest ih =>
    rw [List.foldl_cons, ih]
    unfold offenderStep eligibleSamples
    cases hskip : exempt.contains p.command || isKernelProcess p.command with
    | true =>
      rw [if_pos rfl, List.filter_cons_of_neg (by rw [hskip]; decide)]
    | false =>
      rw [if_neg Bool.false_ne_true, List.filter_cons_of_pos (by rw [hskip]; rfl),
        List.foldl_cons, List.countP_cons, Nat.add_assoc,
        Nat.add_comm (if p.swapMb.isNone then 1 else 0)]
      rfl

theorem memoryPressureOffenders_eq (samples : List ProcSample) (exempt : List String) :
    memoryPressureOffenders samples exempt =
      ((eligibleSamples samples exempt).foldl
          (Shortlist.arrive OffenderOrder memoryOffenderLimit) [],
        (eligibleSamples samples exempt).countP (·.swapMb.isNone)) := by
  rw [memoryPressureOffenders, foldl_offenderStep, Nat.zero_add]

/-- **The loop's invariant**, at its end. -/
theorem memoryPressureOffenders_topOf (samples : List ProcSample) (exempt : List String) :
    Shortlist.TopOf OffenderOrder memoryOffenderLimit (eligibleSamples samples exempt)
      (memoryPressureOffenders samples exempt).1 := by
  rw [memoryPressureOffenders_eq]
  exact Shortlist.TopOf.nil.foldl offenderOrder_total offenderOrder_trans _

theorem nodup_pid_eligibleSamples {samples : List ProcSample} {exempt : List String}
    (hpids : (samples.map (·.pid)).Nodup) :
    (eligibleSamples samples exempt).Pairwise fun a b => a.pid ≠ b.pid :=
  (List.pairwise_map.mp hpids).sublist List.filter_sublist

/-- With distinct pids no two samples are tied. -/
theorem eq_of_tie {samples : List ProcSample} {exempt : List String}
    (hpids : (samples.map (·.pid)).Nodup) :
    ∀ a ∈ eligibleSamples samples exempt, ∀ b ∈ eligibleSamples samples exempt,
      OffenderOrder a b → OffenderOrder b a → a = b := by
  intro a ha b hb hab hba
  have hmap : ((eligibleSamples samples exempt).map (·.pid)).Nodup :=
    List.pairwise_map.mpr (nodup_pid_eligibleSamples hpids)
  exact List.inj_on_of_nodup_map hmap ha hb (pid_eq_of_tie hab hba)

/-- The arrangement behind the shortlist, strictly ranked. -/
theorem pairwise_outRanks {samples ranked : List ProcSample} {exempt : List String}
    (hpids : (samples.map (·.pid)).Nodup) (hperm : ranked.Perm (eligibleSamples samples exempt))
    (hsorted : ranked.Pairwise OffenderOrder) : ranked.Pairwise OutRanks := by
  have hdistinct : ranked.Pairwise fun a b => a.pid ≠ b.pid :=
    (hperm.pairwise_iff fun h => Ne.symm h).mpr (nodup_pid_eligibleSamples hpids)
  exact (hsorted.and hdistinct).imp fun h => OutRanks.of_order h.1 h.2

/-- **The bounded list is the sorted prefix**: the first five of all eligible samples in rank
order, with the number of all unavailable readings, for every order of arrival. -/
theorem offenders_ranked (samples : List ProcSample) (exempt : List String)
    (hpids : (samples.map (·.pid)).Nodup) :
    (∃ ranked : List ProcSample, ranked.Perm (eligibleSamples samples exempt) ∧ ranked.Pairwise OutRanks ∧
      (memoryPressureOffenders samples exempt).1 = ranked.take 5) ∧
    (memoryPressureOffenders samples exempt).2 =
      (eligibleSamples samples exempt).countP (fun p => p.swapMb.isNone) ∧
    ∀ arrival : List ProcSample, arrival.Perm samples →
      memoryPressureOffenders arrival exempt = memoryPressureOffenders samples exempt := by
  have htop := memoryPressureOffenders_topOf samples exempt
  refine ⟨?_, by rw [memoryPressureOffenders_eq], fun arrival hperm => ?_⟩
  · obtain ⟨ranked, hperm, hsorted, htake⟩ := htop.exists_eq_take
    exact ⟨ranked, hperm, pairwise_outRanks hpids hperm hsorted, htake⟩
  · have heligible : (eligibleSamples arrival exempt).Perm (eligibleSamples samples exempt) :=
      hperm.filter _
    have harrival := (memoryPressureOffenders_topOf arrival exempt).of_perm heligible
    have hlist := harrival.unique (eq_of_tie hpids) htop
    refine Prod.ext hlist ?_
    rw [memoryPressureOffenders_eq, memoryPressureOffenders_eq]
    exact heligible.countP_eq _

/-- A process of this scan. -/
def scanRow (pid : Pid) (rssMb : Nat) (swapMb : Option Nat) (command : String) : ProcSample where
  pid := pid
  ppid := 1
  cpuPercent := 0
  rssMb := rssMb
  swapMb := swapMb
  nice := 0
  command := command
  starttime := 100

/-- Seven processes: one is exempt, two are tied, one has no swap reading, and one is pushed
off the list. -/
def sevenRows : List ProcSample :=
  [scanRow 9 10 (some 0) "small", scanRow 8 500 (some 0) "b", scanRow 3 400 (some 100) "a",
    scanRow 4 9000 (some 0) "sshd", scanRow 5 20 none "unread", scanRow 6 900 (some 0) "c",
    scanRow 7 100 (some 3000) "swapped"]

theorem offenders_ranked_seven :
    (memoryPressureOffenders sevenRows ["sshd"]).1.map (·.pid) = [7, 6, 3, 8, 5] ∧
      (memoryPressureOffenders sevenRows ["sshd"]).2 = 1 ∧
      memoryPressureOffenders sevenRows.reverse ["sshd"] =
        memoryPressureOffenders sevenRows ["sshd"] := by
  have hlaw := offenders_ranked sevenRows ["sshd"] (by decide)
  exact ⟨by decide +kernel, hlaw.2.1.trans (by decide +kernel),
    hlaw.2.2 _ (List.reverse_perm sevenRows)⟩

end DraconGuard
