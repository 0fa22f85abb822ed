import DraconGuard.Lib.Median
import DraconGuard.Reap.ProcFiles
import Mathlib.Data.List.Perm.Basic
import Mathlib.Data.String.Basic

/-!
# The report of abandoned servers

With the automatic reaping off, a pass only reports which processes it would end, and it does so on a
change: it keeps the text of the last worklist, `pid:comm` sorted and joined by commas, and says
nothing while the text stays the same. The text stands for the set as long as no name has a comma
in it; two lists of the same processes always have the same text.

| here | there |
| --- | --- |
| `candidateLabel`, `worklistSignature` | the signature (main.rs:9871-9876) |
| `worklistDetail` | the text of the report (main.rs:9898-9915) |
| `checkReapCandidates` | `check_reap_candidates` (main.rs:9866) |
-/

namespace DraconGuard

open Median (pairwise_mergeSort_le)

/-! ## The report -/

def candidateLabel (c : ReapCandidate) : String := toString c.pid ++ ":" ++ c.comm

/-- The sorted labels. -/
def worklistLabels (cs : List ReapCandidate) : List String :=
  (cs.map candidateLabel).mergeSort fun a b => decide (a ≤ b)

def worklistSignature (cs : List ReapCandidate) : List Char :=
  [','].intercalate ((worklistLabels cs).map String.toList)

/-- `p.split(',').filter(|s| !s.is_empty()).count()` (main.rs:9921). -/
def listedCount (signature : List Char) : Nat :=
  ((signature.splitOn ',').filter fun part => part ≠ []).length

def candidateLine (c : ReapCandidate) : String :=
  c.comm ++ " pid=" ++ toString c.pid ++ " " ++ toString c.idleHours ++ "h idle " ++
    toString c.rssMb ++ "MiB"

def worklistDetail (cs : List ReapCandidate) : String :=
  let listed := (cs.take 5).map candidateLine
  toString cs.length ++
    " abandoned dev/test process(es) (reap_stale_dev_servers is OFF — report only): " ++
    "; ".intercalate listed ++
    (if listed.length < cs.length then
      " … and " ++ toString (cs.length - listed.length) ++ " more" else "")

/-- What a pass tells the operator. -/
inductive WorklistNews where
  | silent
  /-- No abandoned processes remain. -/
  | cleared
  /-- The event, and whether there is a notification of it. -/
  | abandoned (detail : String) (notified : Bool)
deriving DecidableEq

/-- `check_reap_candidates` (main.rs:9866), with the signature the pass leaves. -/
def checkReapCandidates (previous : Option (List Char)) (cs : List ReapCandidate) :
    WorklistNews × Option (List Char) :=
  let signature := worklistSignature cs
  let news : WorklistNews :=
    if previous = some signature then .silent
    else if cs = [] then
      if previous.any fun p => p ≠ [] then .cleared else .silent
    else
      .abandoned (worklistDetail cs)
        (previous.any (fun p => p = []) || previous.elim 0 listedCount < cs.length)
  (news, some signature)

/-- The signature after some passes of a daemon. -/
def signatureAfter (passes : List (List ReapCandidate)) : Option (List Char) :=
  passes.foldl (fun previous cs => (checkReapCandidates previous cs).2) none

/-! ## The signature stands for the set -/

/-- The same processes, in whatever order. -/
def SameListed (xs ys : List ReapCandidate) : Prop :=
  (xs.map fun c => (c.pid, c.comm)).Perm (ys.map fun c => (c.pid, c.comm))

/-- No name has a comma. -/
def CommaFree (cs : List ReapCandidate) : Prop := ∀ c ∈ cs, ',' ∉ c.comm.toList

/-- The label of a pid with its name. -/
def pairLabel (p : Pid × String) : String := toString p.1 ++ ":" ++ p.2

theorem map_candidateLabel (cs : List ReapCandidate) :
    cs.map candidateLabel = (cs.map fun c => (c.pid, c.comm)).map pairLabel := by
  rw [List.map_map]
  rfl

/-- The text of a negative pid begins with its sign. -/
theorem toString_negSucc (n : Nat) :
    (toString (Int.negSucc n)).toList = '-' :: (toString (n + 1)).toList := by
  show ("-" ++ toString (n + 1)).toList = _
  rw [String.toList_append]
  rfl

theorem digits_toString {n : Nat} {ch : Char} (h : ch ∈ (toString n).toList) :
    ch.isDigit = true := by
  rw [Text.toList_toString] at h
  exact Nat.isDigit_of_mem_toDigits (by decide) (by decide) h

theorem toString_pid_injective : Function.Injective fun pid : Pid => (toString pid).toList := by
  have hnat {m n : Nat} (h : (toString m).toList = (toString n).toList) : m = n := by
    have hread := Text.parseDigits_toString m
    rw [h, Text.parseDigits_toString] at hread
    exact (Option.some.inj hread).symm
  intro pid pid' h
  cases pid with
  | ofNat m =>
    cases pid' with
    | ofNat n => exact congrArg Int.ofNat (hnat h)
    | negSucc n => exact absurd (h.trans (toString_negSucc n)) (Text.toString_ne_cons (by decide) _)
  | negSucc m =>
    cases pid' with
    | ofNat n =>
      exact absurd (h.symm.trans (toString_negSucc m)) (Text.toString_ne_cons (by decide) _)
    | negSucc n =>
      have htail : '-' :: (toString (m + 1)).toList = '-' :: (toString (n + 1)).toList :=
        (toString_negSucc m).symm.trans (h.trans (toString_negSucc n))
      have hsucc := hnat (List.tail_eq_of_cons_eq htail)
      exact congrArg Int.negSucc (by omega)

theorem pid_free (pid : Pid) {ch : Char} (hdigit : ch.isDigit = false) (hminus : ch ≠ '-') :
    ch ∉ (toString pid).toList := by
  have hnat (n : Nat) : ch ∉ (toString n).toList := fun h => by
    rw [digits_toString h] at hdigit
    cases hdigit
  cases pid with
  | ofNat n => exact hnat n
  | negSucc n =>
    rw [toString_negSucc, List.mem_cons, not_or]
    exact ⟨hminus, hnat (n + 1)⟩

/-- A text up to its first separator, and what comes after it. -/
theorem append_cons_inj {sep : Char} {a b x y : List Char} (ha : sep ∉ a) (hb : sep ∉ b)
    (h : a ++ sep :: x = b ++ sep :: y) : a = b ∧ x = y := by
  have htake := congrArg (List.takeWhile (· ≠ sep)) h
  have hfree {l : List Char} (hl : sep ∉ l) : ∀ ch ∈ l, decide (ch ≠ sep) = true := by
    intro ch hch
    simp only [decide_eq_true_eq]
    rintro rfl
    exact hl hch
  rw [List.takeWhile_append_of_pos (hfree ha), List.takeWhile_append_of_pos (hfree hb)] at htake
  simp only [ne_eq, not_true_eq_false, decide_false, Bool.false_eq_true, not_false_eq_true,
    List.takeWhile_cons_of_neg, List.append_nil] at htake
  subst htake
  exact ⟨rfl, List.tail_eq_of_cons_eq (List.append_cancel_left h)⟩

theorem pairLabel_injective : Function.Injective pairLabel := by
  rintro ⟨pid, comm⟩ ⟨pid', comm'⟩ h
  have hchars := congrArg String.toList h
  simp only [pairLabel, String.toList_append, List.append_assoc] at hchars
  obtain ⟨hpid, hcomm⟩ := append_cons_inj (pid_free pid (by decide) (by decide))
    (pid_free pid' (by decide) (by decide)) hchars
  have hpid : pid = pid' := toString_pid_injective hpid
  rw [hpid, String.toList_inj.mp hcomm]

theorem perm_worklistLabels (cs : List ReapCandidate) :
    (worklistLabels cs).Perm (cs.map candidateLabel) := List.mergeSort_perm _ _

/-- The sorted labels are the same exactly for the same processes. -/
theorem worklistLabels_eq_iff {xs ys : List ReapCandidate} :
    worklistLabels xs = worklistLabels ys ↔ SameListed xs ys := by
  unfold SameListed
  rw [← List.map_perm_map_iff pairLabel_injective, ← map_candidateLabel, ← map_candidateLabel]
  constructor
  · intro h
    exact (perm_worklistLabels xs).symm.trans (h ▸ perm_worklistLabels ys)
  · intro h
    have hperm := ((perm_worklistLabels xs).trans h).trans (perm_worklistLabels ys).symm
    exact hperm.eq_of_pairwise (fun a b _ _ hab hba => le_antisymm hab hba)
      (pairwise_mergeSort_le _) (pairwise_mergeSort_le _)

theorem colon_mem_label (c : ReapCandidate) : ':' ∈ (candidateLabel c).toList := by
  simp [candidateLabel]

/-- Splitting the signature gives its labels back. -/
theorem parts_worklistSignature {cs : List ReapCandidate} (h : CommaFree cs) :
    ((worklistSignature cs).splitOn ',').filter (fun part => part ≠ []) =
      (worklistLabels cs).map String.toList := by
  have hpart : ∀ part ∈ (worklistLabels cs).map String.toList, ',' ∉ part ∧ part ≠ [] := by
    intro part hpart
    obtain ⟨label, hlabel, rfl⟩ := List.mem_map.mp hpart
    obtain ⟨c, hc, rfl⟩ := List.mem_map.mp ((perm_worklistLabels cs).mem_iff.mp hlabel)
    refine ⟨?_, List.ne_nil_of_mem (colon_mem_label c)⟩
    simp only [candidateLabel, String.toList_append, List.mem_append, not_or]
    exact ⟨⟨pid_free c.pid (by decide) (by decide), by decide⟩, h c hc⟩
  unfold worklistSignature
  generalize hparts : (worklistLabels cs).map String.toList = parts at hpart ⊢
  by_cases hne : parts = []
  · subst hne
    rfl
  · rw [List.splitOn_intercalate _ (fun part hmem => (hpart part hmem).1) hne]
    exact List.filter_eq_self.mpr fun part hmem => by simpa using (hpart part hmem).2

theorem listedCount_worklistSignature {cs : List ReapCandidate} (h : CommaFree cs) :
    listedCount (worklistSignature cs) = cs.length := by
  rw [listedCount, parts_worklistSignature h, List.length_map, (perm_worklistLabels cs).length_eq,
    List.length_map]

theorem worklistSignature_eq_nil {cs : List ReapCandidate} :
    worklistSignature cs = [] ↔ cs = [] := by
  constructor
  · intro h
    by_contra hne
    obtain ⟨c, rest, rfl⟩ := List.exists_cons_of_ne_nil hne
    have hmem : candidateLabel c ∈ worklistLabels (c :: rest) :=
      (perm_worklistLabels _).mem_iff.mpr List.mem_cons_self
    unfold worklistSignature at h
    cases hlabels : worklistLabels (c :: rest) with
    | nil =>
      rw [hlabels] at hmem
      cases hmem
    | cons label labels =>
      obtain ⟨d, hd, rfl⟩ := List.mem_map.mp
        ((perm_worklistLabels (c :: rest)).mem_iff.mp (hlabels ▸ List.mem_cons_self))
      have hcolon : ':' ∈ [','].intercalate ((worklistLabels (c :: rest)).map String.toList) := by
        rw [hlabels, List.map_cons]
        cases labels with
        | nil => simpa using colon_mem_label d
        | cons next more =>
          rw [List.map_cons, List.intercalate_cons_cons]
          simp [colon_mem_label d]
      rw [h] at hcolon
      cases hcolon
  · rintro rfl
    simp [worklistSignature, worklistLabels]

/-- A text stands for its processes. -/
theorem worklistSignature_eq_iff {xs ys : List ReapCandidate} (hxs : CommaFree xs)
    (hys : CommaFree ys) : worklistSignature xs = worklistSignature ys ↔ SameListed xs ys := by
  rw [← worklistLabels_eq_iff]
  constructor
  · intro h
    have hparts := parts_worklistSignature hxs
    rw [h, parts_worklistSignature hys] at hparts
    exact (List.map_injective_iff.mpr fun a b hab => String.toList_inj.mp hab) hparts.symm
  · intro h
    rw [worklistSignature, worklistSignature, h]

/-! ## The reports of a daemon -/

theorem signatureAfter_eq (passes : List (List ReapCandidate)) :
    signatureAfter passes = passes.getLast?.map worklistSignature := by
  induction passes using List.reverseRecOn with
  | nil => rfl
  | append_singleton passes cs _ =>
    rw [signatureAfter, List.foldl_append, List.getLast?_append]
    rfl

/-- What a pass tells, of the worklist before it and its own. -/
structure NewsLaw (before : Option (List ReapCandidate)) (now : List ReapCandidate)
    (news : WorklistNews) : Prop where
  /-- The same processes are no news, whatever their names. -/
  same : ∀ last, before = some last → SameListed last now → news = .silent
  /-- The last abandoned process is gone, and never otherwise. -/
  cleared : news = .cleared ↔ now = [] ∧ ∃ last, before = some last ∧ last ≠ []
  /-- Other processes are news, as far as names without a comma go. -/
  changed : (∀ last, before = some last → CommaFree last) → CommaFree now → now ≠ [] →
    (∀ last, before = some last → ¬ SameListed last now) →
      news = .abandoned (worklistDetail now) (decide ((before.elim 0 List.length) < now.length))

/-- The first pass of a daemon. -/
theorem newsLaw_first (now : List ReapCandidate) :
    NewsLaw none now (checkReapCandidates none now).1 := by
  refine ⟨by simp, ?_, fun _ _ hne _ => ?_⟩
  · by_cases hnow : now = [] <;> simp [checkReapCandidates, hnow]
  · obtain ⟨c, rest, rfl⟩ := List.exists_cons_of_ne_nil hne
    simp [checkReapCandidates]

/-- A pass that knows the worklist of the last one. -/
theorem newsLaw_next (last now : List ReapCandidate) :
    NewsLaw (some last) now (checkReapCandidates (some (worklistSignature last)) now).1 := by
  constructor
  case same =>
    intro last' hlast hsame
    obtain rfl := Option.some.inj hlast
    have heq : worklistSignature last = worklistSignature now := by
      rw [worklistSignature, worklistSignature, worklistLabels_eq_iff.mpr hsame]
    simp [checkReapCandidates, heq]
  case cleared =>
    by_cases hnow : now = []
    · subst hnow
      by_cases hlast : last = []
      · simp [checkReapCandidates, hlast]
      · have hdiff : worklistSignature last ≠ worklistSignature [] := by
          rw [worklistSignature_eq_nil.mpr rfl]
          exact fun h => hlast (worklistSignature_eq_nil.mp h)
        simp [checkReapCandidates, hdiff, hlast, worklistSignature_eq_nil]
    · by_cases heq : worklistSignature last = worklistSignature now <;>
        simp [checkReapCandidates, heq, hnow]
  case changed =>
    intro hfree hnow hne hother
    have hlast := hfree last rfl
    have hdiff : worklistSignature last ≠ worklistSignature now := fun h =>
      hother last rfl ((worklistSignature_eq_iff hlast hnow).mp h)
    have hcount : ((worklistSignature last = []) ∨ last.length < now.length) ↔
        last.length < now.length := by
      refine or_iff_right_of_imp fun h => ?_
      rw [worklistSignature_eq_nil.mp h]
      exact List.length_pos_iff.mpr hne
    simp only [checkReapCandidates, hne, Option.some.injEq, hdiff, if_false, Option.any_some,
      Option.elim_some, listedCount_worklistSignature hlast, WorklistNews.abandoned.injEq, true_and]
    rw [← Bool.decide_or]
    exact decide_eq_decide.mpr hcount

/-- **The reports of a daemon**: a pass tells what is new since the pass before, and nothing else. -/
theorem checkReapCandidates_news (passes : List (List ReapCandidate)) (now : List ReapCandidate) :
    NewsLaw passes.getLast? now (checkReapCandidates (signatureAfter passes) now).1 := by
  rw [signatureAfter_eq]
  cases passes.getLast? with
  | none => exact newsLaw_first now
  | some last => exact newsLaw_next last now

end DraconGuard
