import Mathlib.Data.List.TakeWhile
import DraconGuard.Clean.NixGenerations

/-!
# The pruning run

`clean_nix_garbage_with_bins` (main.rs:5581-5774) as the `nix-env` calls it makes. The user
profile is listed and deleted from without `-p`, the system profile is deleted from with
`-p /nix/var/nix/profiles/default`.

`nixDeletes` reads such a call the way Nix does: `+N` keeps the newest `N` and the current
generation, a list of numbers deletes exactly those. Against the plan made from the profile's
own table (`listingPlan`) a run can ask for too much in three ways:

* a table without a `(current)` row is refused by `spread_delete_args`, and the refusal is
  then taken for an unreadable listing: `or_else` falls back to `+N`;
* so is a plan that names nothing, since an empty plan is also how the fallback is spelled;
* the system plan is made from the `system-<n>-link` numbers and applied to the profile
  `default`, which numbers its generations on its own.
-/

namespace DraconGuard

structure CommandOutput where
  success : Bool
  stdout : String := ""
  stderr : String := ""
deriving DecidableEq, Repr

/-- What the run reads. Every command line is issued at most once, so an answer for each
covers every order of successes and failures. -/
structure NixHost where
  /-- `nix-env`, `none` when it cannot be started. -/
  nixEnv : List String → Option CommandOutput
  /-- `nix-collect-garbage` under `run_bounded`: `none` when the bound expires. -/
  nixGc : List String → Except String (Option CommandOutput)
  readDir : String → Option (List String)
  readLink : String → Option String

structure NixRun where
  nixEnvCalls : List (List String)
  gcCalls : List (List String) := []
  /-- The warning that names the privileged script. -/
  advisePrivileged : Bool := false
  result : Except String (Nat × List String)

def systemProfile : String := "/nix/var/nix/profiles/default"

def profileDir : String := "/nix/var/nix/profiles"

def nixListGenerationsArgv (profile : String) : List String :=
  ["--list-generations", "-p", profile]

/-- `nix_env_list_generations` (main.rs:5442). -/
def nixEnvListGenerations (host : NixHost) (profile : String) : Option NixGenerationListing :=
  match host.nixEnv (nixListGenerationsArgv profile) with
  | none => none
  | some output => if output.success then some (parseNixGenerationListing output.stdout) else none

/-- `nix_env_generation_count` (main.rs:5535): rows that are not blank. -/
def nixEnvGenerationCount (host : NixHost) (profile : String) : Option Nat :=
  match host.nixEnv (nixListGenerationsArgv profile) with
  | none => none
  | some output =>
    if output.success then
      some ((Text.lines output.stdout).countP fun line => !(Text.splitWhitespace line).isEmpty)
    else none

/-- `nix_delete_generations_arg` (main.rs:5235). -/
def nixDeleteGenerationsArg (keepGenerations : Nat) : Option String :=
  if 0 < keepGenerations then some ("+" ++ toString keepGenerations) else none

/-- `nix_delete_generations_argv` (main.rs:5529): one argument a generation. -/
def nixDeleteGenerationsArgv (generations : List Nat) : List String :=
  "--delete-generations" :: generations.map toString

/-- `nix_delete_generations_argv_with_profile` (main.rs:5513). -/
def nixDeleteGenerationsArgvWithProfile (generations : List Nat) (profile : String) :
    List String :=
  nixDeleteGenerationsArgv generations ++ ["-p", profile]

/-- Everything `system_profile_spread_plan` protects (main.rs:5476-5482): what the running
closure references, when there is one to read, and the highest number. -/
def systemProfileProtected (host : NixHost) (generations : List Nat) : List Nat :=
  (match host.readLink "/run/current-system" with
    | some closure =>
      nixGenerationsReferencedByClosure host.readLink profileDir generations closure
    | none => []) ++ generations.max?.toList

/-- `system_profile_spread_plan` (main.rs:5470-5489). -/
def systemProfileSpreadPlan (host : NixHost) (keep : Nat) : Option (List Nat) :=
  match systemProfileGenerations (host.readDir profileDir) with
  | none => none
  | some generations =>
    if generations = [] then none
    else some (nixGenerationsToDeleteProtecting generations keep (systemProfileProtected host generations))

/-- `spread_delete_args` (main.rs:5623-5657). -/
def spreadDeleteArgs (host : NixHost) (keepGenerations : Nat) : Option (List Nat) :=
  if 0 < keepGenerations then
    match nixEnvListGenerations host "default" with
    | none => none
    | some listing =>
      if listing.generations = [] then none
      else match listing.current with
        -- "skipping the generation prune"
        | none => none
        | some current =>
          let toDelete :=
            nixGenerationsToDeleteProtecting listing.generations keepGenerations [current]
          if toDelete = [] then none else some toDelete
  else none

/-- The plan of the run, `[]` standing for the `+N` fallback (main.rs:5659-5662). -/
def pruneArgs (host : NixHost) (keepGenerations : Nat) (apply : Bool) : Option (List Nat) :=
  ((spreadDeleteArgs host keepGenerations).or
    ((nixDeleteGenerationsArg keepGenerations).map fun _ => [])).filter fun _ => apply

/-- `nix_args` of the user profile (main.rs:5665-5672). -/
def userPruneArgv (keepGenerations : Nat) (deleteArgs : List Nat) : List String :=
  if deleteArgs = [] then
    match nixDeleteGenerationsArg keepGenerations with
    | some retain => ["--delete-generations", retain]
    | none => []
  else nixDeleteGenerationsArgv deleteArgs

/-- The closing `nix-collect-garbage` (main.rs:5736-5774). -/
def collectGarbage (host : NixHost) (apply advise : Bool) (calls : List (List String)) :
    NixRun :=
  let args := if apply then [] else ["--dry-run"]
  let result : Except String (Nat × List String) :=
    match host.nixGc args with
    | .error e => .error e
    | .ok none => .ok (0, [])
    | .ok (some out) =>
      if out.success then
        let deleteCount :=
          (Text.lines out.stdout).countP fun l => Text.containsChars l "deleting".toList
        .ok (0, if 0 < deleteCount then
          ["nix store garbage (" ++ toString deleteCount ++ " paths)"] else [])
      else .error ("nix-collect-garbage failed: " ++ out.stderr)
  { nixEnvCalls := calls, gcCalls := [args], advisePrivileged := advise, result := result }

@[simp] theorem collectGarbage_calls (host : NixHost) (apply advise : Bool)
    (calls : List (List String)) :
    (collectGarbage host apply advise calls).nixEnvCalls = calls := rfl

/-- `clean_nix_garbage_with_bins` (main.rs:5581-5774). A failed deletion only prints, so the
calls do not depend on how the deletions end. -/
def cleanNixGarbageWithBins (host : NixHost) (keepGenerations : Nat) (apply : Bool) : NixRun :=
  let listed := if 0 < keepGenerations then [nixListGenerationsArgv "default"] else []
  match pruneArgs host keepGenerations apply with
  | none => collectGarbage host apply false listed
  | some deleteArgs =>
    let nixArgs := userPruneArgv keepGenerations deleteArgs
    if nixArgs = [] then { nixEnvCalls := listed, result := .ok (0, []) }
    else
      let calls := listed ++ [nixArgs, nixListGenerationsArgv systemProfile]
      let needsPrune := (nixEnvGenerationCount host systemProfile).any (keepGenerations < ·)
      match (systemProfileSpreadPlan host keepGenerations).filter (· ≠ []) with
      | some systemDelete =>
        let systemArgs := nixDeleteGenerationsArgvWithProfile systemDelete systemProfile
        { nixEnvCalls := calls ++ [systemArgs], result := .ok (0, []) }
      | none => collectGarbage host apply needsPrune calls

/-! ## What a call asks Nix to delete -/

/-- All but the newest `n`. -/
def olderThanNewest (generations : List Nat) (n : Nat) : List Nat :=
  (sortedGenerations generations).take ((sortedGenerations generations).length - n)

/-- One argument of `--delete-generations` on a profile with these generations, of which
`live` is the current one. -/
def specDeletes (generations : List Nat) (live : Option Nat) (spec : String) : List Nat :=
  match spec.toList with
  | '+' :: digits =>
    match Text.parseDigits digits with
    | some n => (olderThanNewest generations n).filter (live ≠ some ·)
    | none => []
  | digits => (Text.parseDigits digits).toList

/-- The profile a call works on. Without `-p` it is the user's own, listed as `default`. -/
def targetProfile (args : List String) : String :=
  match args.dropWhile (· ≠ "-p") with
  | _ :: profile :: _ => profile
  | _ => "default"

/-- The generations of `profile` a call asks Nix to delete. -/
def nixDeletes (profile : String) (generations : List Nat) (live : Option Nat) :
    List String → List Nat
  | "--delete-generations" :: args =>
    if targetProfile args = profile then
      (args.takeWhile (· ≠ "-p")).flatMap (specDeletes generations live)
    else []
  | _ => []

/-- The current generation: the marked row, or what Nix holds when its table marks none. -/
def liveGeneration (held : String → Option Nat) (profile : String)
    (listing : NixGenerationListing) : Option Nat :=
  listing.current.or (held profile)

def askedToDelete (held : String → Option Nat) (profile : String)
    (listing : NixGenerationListing) (calls : List (List String)) : List Nat :=
  calls.flatMap (nixDeletes profile listing.generations (liveGeneration held profile listing))

/-- What the profile's own table allows: nothing without a `(current)` row. -/
def listingPlan (keep : Nat) (listing : NixGenerationListing) : List Nat :=
  match listing.current with
  | none => []
  | some current => nixGenerationsToDeleteProtecting listing.generations keep [current]

/-- Every generation a run asks to delete from a profile is on the plan of that profile's own
table. -/
def PruneWithinPlan (host : NixHost) (held : String → Option Nat) (keep : Nat)
    (run : NixRun) : Prop :=
  ∀ profile listing, nixEnvListGenerations host profile = some listing →
    ∀ g ∈ askedToDelete held profile listing run.nixEnvCalls, g ∈ listingPlan keep listing

/-! ## Reading the guard's own command lines -/

section Calls

variable {profile : String} {generations ids : List Nat} {live : Option Nat} {n : Nat}

theorem specDeletes_number : specDeletes generations live (toString n) = [n] := by
  unfold specDeletes
  split
  · next h => exact absurd h (Text.toString_ne_cons (by decide) _)
  · rw [Text.parseDigits_toString]
    rfl

theorem specDeletes_retain : specDeletes generations live ("+" ++ toString n) =
    (olderThanNewest generations n).filter (live ≠ some ·) := by
  have htext : ("+" ++ toString n).toList = '+' :: (toString n).toList := by simp
  simp only [specDeletes, htext, Text.parseDigits_toString]

theorem toString_ne_flag (n : Nat) : toString n ≠ "-p" := by
  intro h
  exact Text.toString_ne_cons (by decide) _ (congrArg String.toList h)

theorem retain_ne_flag (n : Nat) : "+" ++ toString n ≠ "-p" := by
  intro h
  have htext := congrArg String.toList h
  simp at htext

/-- Generation numbers are never taken for the `-p` flag. -/
theorem numbers_not_flag (ids : List Nat) : ∀ arg ∈ ids.map (toString : Nat → String), (arg ≠ "-p" : Bool) := by
  intro arg harg
  obtain ⟨n, -, rfl⟩ := List.mem_map.mp harg
  simpa using toString_ne_flag n

theorem flatMap_specDeletes :
    (ids.map toString).flatMap (specDeletes generations live) = ids := by
  rw [List.flatMap_map]
  simp only [specDeletes_number, List.flatMap_singleton']

theorem nixDeletes_numbers :
    nixDeletes profile generations live (nixDeleteGenerationsArgv ids) =
      if "default" = profile then ids else [] := by
  have hdrop := List.dropWhile_eq_nil_iff.mpr (numbers_not_flag ids)
  have htake := List.takeWhile_eq_self_iff.mpr (numbers_not_flag ids)
  simp only [nixDeletes, nixDeleteGenerationsArgv, targetProfile, hdrop, htake,
    flatMap_specDeletes]

theorem nixDeletes_numbers_profile {target : String} :
    nixDeletes profile generations live (nixDeleteGenerationsArgvWithProfile ids target) =
      if target = profile then ids else [] := by
  have hdrop : (ids.map toString ++ ["-p", target]).dropWhile (· ≠ "-p") = ["-p", target] := by
    rw [List.dropWhile_append_of_pos (numbers_not_flag ids)]
    simp
  have htake : (ids.map toString ++ ["-p", target]).takeWhile (· ≠ "-p") = ids.map toString := by
    rw [List.takeWhile_append_of_pos (numbers_not_flag ids)]
    simp
  simp only [nixDeletes, nixDeleteGenerationsArgvWithProfile, nixDeleteGenerationsArgv,
    List.cons_append, targetProfile, hdrop, htake, flatMap_specDeletes]

theorem nixDeletes_retain :
    nixDeletes profile generations live ["--delete-generations", "+" ++ toString n] =
      if "default" = profile then (olderThanNewest generations n).filter (live ≠ some ·)
      else [] := by
  have hne := retain_ne_flag n
  simp only [nixDeletes, targetProfile, List.dropWhile, List.takeWhile, hne, ne_eq,
    not_false_eq_true, decide_true, List.flatMap_cons, List.flatMap_nil, List.append_nil,
    specDeletes_retain]

theorem nixDeletes_list {p : String} :
    nixDeletes profile generations live (nixListGenerationsArgv p) = [] := by
  simp [nixDeletes, nixListGenerationsArgv]

end Calls

/-! ## What a run asks for -/

/-- A table's marked generation is a row of it. -/
theorem listed_current {host : NixHost} {profile : String} {listing : NixGenerationListing}
    {c : Nat} (h : nixEnvListGenerations host profile = some listing)
    (hc : listing.current = some c) : c ∈ listing.generations := by
  unfold nixEnvListGenerations at h
  split at h
  · simp at h
  · split at h
    · obtain rfl := Option.some.inj h
      exact parseNixGenerationListing_current hc
    · simp at h

theorem spreadDeleteArgs_ne_nil {host : NixHost} {keep : Nat} {ids : List Nat}
    (h : spreadDeleteArgs host keep = some ids) : ids ≠ [] := by
  unfold spreadDeleteArgs at h
  repeat' split at h
  · simp at h
  · simp at h
  · simp at h
  · simp only [Option.ite_none_left_eq_some, Option.some.injEq] at h
    obtain ⟨hne, rfl⟩ := h
    exact hne
  · simp at h

/-- The generations of the user profile a run asks for: the plan, or what `+N` reaches. -/
def userAsked (host : NixHost) (keep : Nat) (generations : List Nat) (live : Option Nat) :
    List Nat :=
  match spreadDeleteArgs host keep with
  | some ids => ids
  | none => (olderThanNewest generations keep).filter (live ≠ some ·)

/-- The generations of the system profile a run asks for. -/
def systemAsked (host : NixHost) (keep : Nat) : List Nat :=
  (systemProfileSpreadPlan host keep).getD []

theorem pruneArgs_of_keep {host : NixHost} {keep : Nat} (hkeep : 0 < keep) :
    pruneArgs host keep true = some ((spreadDeleteArgs host keep).getD []) := by
  cases hplan : spreadDeleteArgs host keep <;>
    simp [pruneArgs, hplan, nixDeleteGenerationsArg, hkeep, Option.filter]

/-- The command line of the user profile. -/
def userCall (host : NixHost) (keep : Nat) : List String :=
  userPruneArgv keep ((spreadDeleteArgs host keep).getD [])

theorem userCall_ne_nil (host : NixHost) {keep : Nat} (hkeep : 0 < keep) :
    userCall host keep ≠ [] := by
  unfold userCall userPruneArgv
  split
  · simp [nixDeleteGenerationsArg, hkeep]
  · simp [nixDeleteGenerationsArgv]

/-- The command line of the system profile, when there is one. -/
def systemCall (host : NixHost) (keep : Nat) : List (List String) :=
  if systemAsked host keep = [] then []
  else [nixDeleteGenerationsArgvWithProfile (systemAsked host keep) systemProfile]

/-- The `nix-env` calls of an applied run, in order. -/
theorem cleanNixGarbage_calls {host : NixHost} {keep : Nat} (hkeep : 0 < keep) :
    (cleanNixGarbageWithBins host keep true).nixEnvCalls =
      [nixListGenerationsArgv "default", userCall host keep,
        nixListGenerationsArgv systemProfile] ++ systemCall host keep := by
  have hne := userCall_ne_nil host hkeep
  unfold userCall at hne
  unfold cleanNixGarbageWithBins
  rw [pruneArgs_of_keep hkeep]
  dsimp only
  rw [if_neg hne, if_pos hkeep]
  unfold systemCall systemAsked userCall
  cases systemProfileSpreadPlan host keep with
  | none => rfl
  | some plan =>
    cases plan with
    | nil => rfl
    | cons g rest => rfl

/-- The user call, read back. -/
theorem nixDeletes_userCall {host : NixHost} {keep : Nat} (hkeep : 0 < keep)
    (profile : String) (generations : List Nat) (live : Option Nat) :
    nixDeletes profile generations live (userCall host keep) =
      if "default" = profile then userAsked host keep generations live else [] := by
  unfold userCall userAsked userPruneArgv
  cases hplan : spreadDeleteArgs host keep with
  | none =>
    simp only [Option.getD_none, if_true, nixDeleteGenerationsArg, hkeep]
    exact nixDeletes_retain
  | some ids =>
    simp only [Option.getD_some, spreadDeleteArgs_ne_nil hplan, if_false]
    exact nixDeletes_numbers

/-- **The requests of an applied run**, profile by profile. -/
theorem askedToDelete_run {host : NixHost} {held : String → Option Nat} {keep : Nat}
    (hkeep : 0 < keep) (profile : String) (listing : NixGenerationListing) :
    askedToDelete held profile listing (cleanNixGarbageWithBins host keep true).nixEnvCalls =
      (if "default" = profile then
        userAsked host keep listing.generations (liveGeneration held profile listing) else []) ++
      (if systemProfile = profile then systemAsked host keep else []) := by
  rw [cleanNixGarbage_calls hkeep]
  unfold askedToDelete
  rw [List.flatMap_append]
  congr 1
  · simp only [List.flatMap_cons, List.flatMap_nil, nixDeletes_list,
      nixDeletes_userCall hkeep, List.nil_append, List.append_nil]
  · unfold systemCall
    split
    · next hnil => simp [hnil]
    · simp only [List.flatMap_cons, List.flatMap_nil, List.append_nil,
        nixDeletes_numbers_profile]

/-- Without a retention nothing is asked for. -/
theorem askedToDelete_keep_zero {host : NixHost} {held : String → Option Nat}
    (profile : String) (listing : NixGenerationListing) :
    askedToDelete held profile listing (cleanNixGarbageWithBins host 0 true).nixEnvCalls = [] := by
  have hargs : pruneArgs host 0 true = none := rfl
  unfold cleanNixGarbageWithBins
  rw [hargs]
  rfl

/-! ## When a run stays within the plans -/

/-- The user leg. A table without a marked row must have nothing `+N` reaches. With one, a
plan that names nothing must name nothing because there is nothing to thin: some generation
other than the current one is off the spread whenever there are more than `keep`. -/
structure UserPruneSafe (host : NixHost) (held : String → Option Nat) (keep : Nat) : Prop where
  unmarked : ∀ listing, nixEnvListGenerations host "default" = some listing →
    listing.current = none →
      ∀ g ∈ olderThanNewest listing.generations keep, held "default" = some g
  spare : ∀ listing current, nixEnvListGenerations host "default" = some listing →
    listing.current = some current → 2 ≤ keep →
      keep < (sortedGenerations listing.generations).length →
        ∃ g ∈ listing.generations, g ≠ current ∧
          g ∉ retainBySpread (sortedGenerations listing.generations) keep

/-- A generation the table of a profile puts off its spread. -/
def OffOwnSpread (keep : Nat) (listing : NixGenerationListing) (g : Nat) : Prop :=
  ∃ current, listing.current = some current ∧ g ≠ current ∧ g ∈ listing.generations ∧
    keep < (sortedGenerations listing.generations).length ∧
    g ∉ retainBySpread (sortedGenerations listing.generations) keep

/-- A link number the running system may depend on. -/
def KeptByClosure (host : NixHost) (g : Nat) : Prop :=
  ∃ closure, host.readLink "/run/current-system" = some closure ∧
    referencedByClosure host.readLink profileDir closure g = true

/-- The system leg: a link number off the spread of the links and not of the running closure
must be off the spread of the table `default` itself prints. -/
def SystemPruneSafe (host : NixHost) (keep : Nat) : Prop :=
  ∀ listing links, nixEnvListGenerations host systemProfile = some listing →
    systemProfileGenerations (host.readDir profileDir) = some links →
      keep < (sortedGenerations links).length →
        ∀ g ∈ links, g ∉ retainBySpread (sortedGenerations links) keep →
          ¬ KeptByClosure host g → OffOwnSpread keep listing g

theorem mem_listingPlan {keep g : Nat} {listing : NixGenerationListing} :
    g ∈ listingPlan keep listing ↔ OffOwnSpread keep listing g := by
  unfold listingPlan OffOwnSpread
  cases listing.current with
  | none => simp
  | some current =>
    simp only [mem_plan_iff, List.mem_singleton, Option.some.injEq]
    constructor
    · rintro ⟨hmany, hg, hspread, hne⟩
      exact ⟨current, rfl, hne, hg, hmany, hspread⟩
    · rintro ⟨_, rfl, hne, hg, hmany, hspread⟩
      exact ⟨hmany, hg, hspread, hne⟩

/-- The system plan names the link numbers off the spread that no closure keeps. -/
theorem mem_systemAsked {host : NixHost} {keep g : Nat} :
    g ∈ systemAsked host keep ↔
      ∃ links, systemProfileGenerations (host.readDir profileDir) = some links ∧
        keep < (sortedGenerations links).length ∧ g ∈ links ∧
        g ∉ retainBySpread (sortedGenerations links) keep ∧ ¬ KeptByClosure host g := by
  unfold systemAsked systemProfileSpreadPlan
  cases systemProfileGenerations (host.readDir profileDir) with
  | none => simp
  | some links =>
    by_cases hnil : links = []
    · simp [hnil]
    · simp only [hnil, if_false, Option.getD_some, mem_plan_iff, Option.some.injEq,
        exists_eq_left']
      constructor
      · rintro ⟨hmany, hg, hspread, hfree⟩
        refine ⟨hmany, hg, hspread, ?_⟩
        rintro ⟨closure, hclosure, href⟩
        apply hfree
        simp [systemProfileProtected, hclosure, nixGenerationsReferencedByClosure, hg, href]
      · rintro ⟨hmany, hg, hspread, hfree⟩
        refine ⟨hmany, hg, hspread, ?_⟩
        intro hprotected
        rcases List.mem_append.mp hprotected with hclosure | hhighest
        · split at hclosure
          · next closure hread =>
            exact hfree ⟨closure, hread, (List.mem_filter.mp hclosure).2⟩
          · simp at hclosure
        · -- the highest link number is the newest of the spread
          have hmax : links.max? = some g := by simpa using hhighest
          exact hspread (getLast_mem_retainBySpread keep (sortedGenerations_getLast hmax))

/-- What `+N` reaches is listed, and never the newest. -/
theorem mem_of_mem_olderThanNewest {generations : List Nat} {n g : Nat}
    (h : g ∈ olderThanNewest generations n) : g ∈ generations :=
  mem_sortedGenerations.mp (List.mem_of_mem_take h)

theorem not_getLast_of_mem_olderThanNewest {generations : List Nat} {n g : Nat} (hn : 0 < n)
    (h : g ∈ olderThanNewest generations n) :
    (sortedGenerations generations).getLast? ≠ some g := by
  intro hlast
  have hnodup := nodup_sortedGenerations generations
  unfold olderThanNewest at h
  obtain ⟨i, hi, hget⟩ := List.mem_take_iff_getElem.mp h
  rw [List.getLast?_eq_getElem?, List.getElem?_eq_some_iff] at hlast
  obtain ⟨hlt, hlast⟩ := hlast
  have hsame := hnodup.getElem_inj_iff.mp (hget.trans hlast.symm)
  omega

/-- The oldest generation is within reach of `+N` and on every spread of two or more. -/
theorem exists_reached_and_retained {generations : List Nat} {keep : Nat} (hkeep : 2 ≤ keep)
    (hmany : keep < (sortedGenerations generations).length) :
    ∃ g ∈ olderThanNewest generations keep,
      g ∈ retainBySpread (sortedGenerations generations) keep := by
  unfold olderThanNewest
  cases hsorted : sortedGenerations generations with
  | nil => simp [hsorted] at hmany
  | cons oldest rest =>
    rw [hsorted] at hmany
    refine ⟨oldest, ?_, ?_⟩
    · have hreach : (oldest :: rest).length - keep =
          ((oldest :: rest).length - keep - 1) + 1 := by omega
      rw [hreach, List.take_succ_cons]
      exact List.mem_cons_self
    · rw [retainBySpread, if_neg (by omega)]
      exact List.mem_append_left _ (Spread.head_mem_pick (by omega))

/-- **The fallback after an empty plan.** `+N` reaches nothing but the current generation
exactly when there are not two survivors to choose and more generations than survivors. -/
theorem emptyPlan_safe_iff {generations : List Nat} {current keep : Nat} (hkeep : 0 < keep)
    (hplan : nixGenerationsToDeleteProtecting generations keep [current] = []) :
    (∀ g ∈ olderThanNewest generations keep, g = current) ↔
      ¬ (2 ≤ keep ∧ keep < (sortedGenerations generations).length) := by
  have hcovered : keep < (sortedGenerations generations).length → ∀ g ∈ generations,
      g ∉ retainBySpread (sortedGenerations generations) keep → g = current := by
    intro hmany g hg hspread
    by_contra hne
    have : g ∈ nixGenerationsToDeleteProtecting generations keep [current] :=
      mem_plan_iff.mpr ⟨hmany, hg, hspread, by simpa using hne⟩
    simp [hplan] at this
  constructor
  · rintro hreach ⟨htwo, hmany⟩
    -- the reached one would be current and on the spread, the other current and off it
    obtain ⟨oldest, hold, hretained⟩ := exists_reached_and_retained htwo hmany
    obtain ⟨g, hg, hspread⟩ := exists_not_retained htwo hmany
    have heq : g = oldest := (hcovered hmany g hg hspread).trans (hreach oldest hold).symm
    exact hspread (heq ▸ hretained)
  · intro hsafe g hg
    have hmany : keep < (sortedGenerations generations).length := by
      by_contra hfew
      have hnone : (sortedGenerations generations).length - keep = 0 := by omega
      simp [olderThanNewest, hnone] at hg
    have hone : keep ≤ 1 := by
      by_contra htwo
      exact hsafe ⟨by omega, hmany⟩
    apply hcovered hmany g (mem_of_mem_olderThanNewest hg)
    rw [retainBySpread, if_pos hone]
    simpa using not_getLast_of_mem_olderThanNewest hkeep hg

/-- The user leg, table by table. -/
theorem userAsked_within_iff {host : NixHost} {held : String → Option Nat} {keep : Nat}
    (hkeep : 0 < keep) :
    (∀ listing, nixEnvListGenerations host "default" = some listing →
      ∀ g ∈ userAsked host keep listing.generations (liveGeneration held "default" listing),
        g ∈ listingPlan keep listing) ↔ UserPruneSafe host held keep := by
  have hplan : ∀ listing, nixEnvListGenerations host "default" = some listing →
      spreadDeleteArgs host keep =
        if listingPlan keep listing = [] then none else some (listingPlan keep listing) := by
    intro listing hlisting
    unfold spreadDeleteArgs listingPlan
    rw [if_pos hkeep, hlisting]
    dsimp only
    cases hc : listing.current with
    | none => simp
    | some current =>
      have hne : listing.generations ≠ [] := List.ne_nil_of_mem (listed_current hlisting hc)
      simp [hne]
  constructor
  · intro hwithin
    refine ⟨fun listing hlisting hnone g hg => ?_, fun listing current hlisting hc htwo hmany => ?_⟩
    · by_contra hheld
      have hnil : listingPlan keep listing = [] := by simp [listingPlan, hnone]
      have hasked : g ∈ userAsked host keep listing.generations
          (liveGeneration held "default" listing) := by
        simp [userAsked, hplan listing hlisting, hnil, liveGeneration, hnone, hg, hheld]
      have := hwithin listing hlisting g hasked
      simp [hnil] at this
    · by_contra hnospare
      have hnil : nixGenerationsToDeleteProtecting listing.generations keep [current] = [] := by
        rw [List.eq_nil_iff_forall_not_mem]
        intro g hg
        obtain ⟨-, hmem, hspread, hshield⟩ := mem_plan_iff.mp hg
        exact hnospare ⟨g, hmem, by simpa using hshield, hspread⟩
      refine (emptyPlan_safe_iff hkeep hnil).mp (fun g hg => ?_) ⟨htwo, hmany⟩
      by_contra hne
      have hlp : listingPlan keep listing = [] := by simp [listingPlan, hc, hnil]
      have hasked : g ∈ userAsked host keep listing.generations
          (liveGeneration held "default" listing) := by
        simp [userAsked, hplan listing hlisting, hlp, liveGeneration, hc, hg, Ne.symm hne]
      have := hwithin listing hlisting g hasked
      simp [hlp] at this
  · intro hsafe listing hlisting g hg
    by_cases hlp : listingPlan keep listing = []
    · have hreach : g ∈ olderThanNewest listing.generations keep ∧
          liveGeneration held "default" listing ≠ some g := by
        simpa [userAsked, hplan listing hlisting, hlp] using hg
      cases hc : listing.current with
      | none =>
        have hheld := hsafe.unmarked listing hlisting hc g hreach.1
        exact absurd (by simp [liveGeneration, hc, hheld]) hreach.2
      | some current =>
        have hnil : nixGenerationsToDeleteProtecting listing.generations keep [current] = [] := by
          simpa [listingPlan, hc] using hlp
        have hthin : ¬ (2 ≤ keep ∧ keep < (sortedGenerations listing.generations).length) := by
          rintro ⟨htwo, hmany⟩
          obtain ⟨spare, hmem, hne, hspread⟩ :=
            hsafe.spare listing current hlisting hc htwo hmany
          have : spare ∈ nixGenerationsToDeleteProtecting listing.generations keep [current] :=
            mem_plan_iff.mpr ⟨hmany, hmem, hspread, by simpa using hne⟩
          simp [hnil] at this
        have hgc := (emptyPlan_safe_iff hkeep hnil).mpr hthin g hreach.1
        exact absurd (by simp [liveGeneration, hc, hgc]) hreach.2
    · simpa [userAsked, hplan listing hlisting, hlp] using hg

/-- The system leg, table by table. -/
theorem systemAsked_within_iff {host : NixHost} {keep : Nat} :
    (∀ listing, nixEnvListGenerations host systemProfile = some listing →
      ∀ g ∈ systemAsked host keep, g ∈ listingPlan keep listing) ↔ SystemPruneSafe host keep := by
  simp only [SystemPruneSafe, mem_systemAsked, mem_listingPlan]
  constructor
  · intro hwithin listing links hlisting hlinks hmany g hg hspread hfree
    exact hwithin listing hlisting g ⟨links, hlinks, hmany, hg, hspread, hfree⟩
  · rintro hsafe listing hlisting g ⟨links, hlinks, hmany, hg, hspread, hfree⟩
    exact hsafe listing links hlisting hlinks hmany g hg hspread hfree

/-- **Pruning within the plans.** An applied run asks each profile only for generations the
plan of that profile's own table names, exactly when both legs are safe. -/
theorem pruneWithinPlan_iff (host : NixHost) (held : String → Option Nat) (keep : Nat) :
    PruneWithinPlan host held keep (cleanNixGarbageWithBins host keep true) ↔
      (0 < keep → UserPruneSafe host held keep ∧ SystemPruneSafe host keep) := by
  have hdistinct : "default" ≠ systemProfile := by decide
  rcases Nat.eq_zero_or_pos keep with rfl | hkeep
  · simp [PruneWithinPlan, askedToDelete_keep_zero]
  · simp only [PruneWithinPlan, askedToDelete_run hkeep, hkeep, true_imp_iff]
    rw [← userAsked_within_iff hkeep, ← systemAsked_within_iff]
    constructor
    · intro hwithin
      refine ⟨fun listing hlisting g hg => ?_, fun listing hlisting g hg => ?_⟩
      · exact hwithin "default" listing hlisting g (by simp [hg])
      · exact hwithin systemProfile listing hlisting g (by simp [hg])
    · rintro ⟨huser, hsystem⟩ profile listing hlisting g hg
      rcases List.mem_append.mp hg with hu | hs
      · split at hu
        · next heq => subst heq; exact huser listing hlisting g hu
        · simp at hu
      · split at hs
        · next heq => subst heq; exact hsystem listing hlisting g hs
        · simp at hs

/-- A host whose two profiles print these tables, with these entries in the directory of the
system profile and no readable closure. -/
def tableHost (user system : String) (names : List String) : NixHost where
  nixEnv argv :=
    if argv = nixListGenerationsArgv "default" then some { success := true, stdout := user }
    else if argv = nixListGenerationsArgv systemProfile then
      some { success := true, stdout := system }
    else some { success := true }
  nixGc _ := .ok none
  readDir dir := if dir = profileDir then some names else none
  readLink path := if path = "/run/current-system" then none else some "/nix/store/x"

/-- Three generations, rolled back to the middle one: with two to keep the spread leaves only
the current one, so the plan names nothing and the run asks `+2`, which reaches 1. -/
def rolledBackHost : NixHost :=
  tableHost "  1  a\n  2  b   (current)\n  3  c\n" "  1  a   (current)\n" []

/-- The same three without a marker. -/
def unmarkedHost : NixHost :=
  tableHost "  1  a\n  2  b\n  3  c\n" "  1  a   (current)\n" []

/-- One generation in the profile `default`, two links of the system profile. -/
def renumberedHost : NixHost :=
  tableHost "  1  a   (current)\n" "  1  a   (current)\n" ["system-1-link", "system-2-link"]

theorem prune_beyond_plan :
    ¬ PruneWithinPlan rolledBackHost (fun _ => some 2) 2
        (cleanNixGarbageWithBins rolledBackHost 2 true) ∧
      ¬ PruneWithinPlan unmarkedHost (fun _ => some 2) 2
        (cleanNixGarbageWithBins unmarkedHost 2 true) ∧
      ¬ PruneWithinPlan renumberedHost (fun _ => some 1) 1
        (cleanNixGarbageWithBins renumberedHost 1 true) := by
  have hrolled : 1 ∈ askedToDelete (fun _ => some 2) "default" ⟨[1, 2, 3], some 2⟩
      (cleanNixGarbageWithBins rolledBackHost 2 true).nixEnvCalls := by decide
  have hunmarked : 1 ∈ askedToDelete (fun _ => some 2) "default" ⟨[1, 2, 3], none⟩
      (cleanNixGarbageWithBins unmarkedHost 2 true).nixEnvCalls := by decide
  have hsystem : 1 ∈ askedToDelete (fun _ => some 1) systemProfile ⟨[1], some 1⟩
      (cleanNixGarbageWithBins renumberedHost 1 true).nixEnvCalls := by decide
  refine ⟨fun h => ?_, fun h => ?_, fun h => ?_⟩
  · exact absurd (h "default" ⟨[1, 2, 3], some 2⟩ (by decide) 1 hrolled) (by decide)
  · exact absurd (h "default" ⟨[1, 2, 3], none⟩ (by decide) 1 hunmarked) (by decide)
  · exact absurd (h systemProfile ⟨[1], some 1⟩ (by decide) 1 hsystem) (by decide)

end DraconGuard
