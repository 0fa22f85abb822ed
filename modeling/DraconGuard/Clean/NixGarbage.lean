import DraconGuard.Clean.NixPrune

/-!
# Whether the store is collected

The prune half of `clean_nix_garbage_with_bins` (main.rs:5581) only prints its failures:
"generation-prune failures are warnings, not fatal", and both warnings of the system profile
end "user GC still runs". The function has three ways out before `nix-collect-garbage`:

| here | there | taken |
|------|-------|-------|
| `pruneArgs` is `none` | 5659 `if let Some(delete_args)` | goes on to the collection |
| `userPruneArgv` is `[]` | 5673 `return` | never: `+N` is spelled for every `keep > 0` |
| the system plan names something | 5733 `return` | whenever it does, deleted or not |

So the third way skips the collection (`garbage_collected_iff`), also after a deletion that
worked, on every cycle until the plan is empty; and a guard that may not write the system
profile never empties it.
-/

namespace DraconGuard

inductive NixCommand
  | nixEnv (argv : List String)
  | collectGarbage (argv : List String)
deriving DecidableEq, Repr

/-- The commands of `clean_nix_garbage_with_bins` (main.rs:5581-5774), in the order they are
started. -/
def cleanNixGarbageLog (host : NixHost) (keepGenerations : Nat) (apply : Bool) :
    List NixCommand :=
  let gcArgs := if apply then [] else ["--dry-run"]
  let listed :=
    if 0 < keepGenerations then [NixCommand.nixEnv (nixListGenerationsArgv "default")] else []
  match pruneArgs host keepGenerations apply with
  | none => listed ++ [.collectGarbage gcArgs]
  | some deleteArgs =>
    let nixArgs := userPruneArgv keepGenerations deleteArgs
    if nixArgs = [] then listed
    else
      let log := listed ++ [.nixEnv nixArgs, .nixEnv (nixListGenerationsArgv systemProfile)]
      match (systemProfileSpreadPlan host keepGenerations).filter (· ≠ []) with
      | some systemDelete =>
        log ++ [.nixEnv (nixDeleteGenerationsArgvWithProfile systemDelete systemProfile)]
      | none => log ++ [.collectGarbage gcArgs]

/-- What the collection itself reports. -/
def garbageResult (host : NixHost) : Except String (Nat × List String) :=
  (collectGarbage host true false []).result

/-- An applied run whose last command, after `nix-env` calls only, is the collection, and
which reports what the collection did. -/
structure GarbageCollected (host : NixHost) (keep : Nat) : Prop where
  last : ∃ calls : List (List String),
    cleanNixGarbageLog host keep true = calls.map NixCommand.nixEnv ++ [.collectGarbage []]
  result : (cleanNixGarbageWithBins host keep true).result = garbageResult host

/-- Every `system-<n>-link` off the spread of the links is kept by the running closure, or
there are not more links than `keep`, or they cannot be listed. -/
def SystemLinksKept (host : NixHost) (keep : Nat) : Prop :=
  ∀ links, systemProfileGenerations (host.readDir profileDir) = some links →
    keep < (sortedGenerations links).length →
      ∀ g ∈ links, g ∉ retainBySpread (sortedGenerations links) keep → KeptByClosure host g

/-! ## The log and the run -/

theorem collectGarbage_gcCalls (host : NixHost) (apply advise : Bool)
    (calls : List (List String)) :
    (collectGarbage host apply advise calls).gcCalls =
      [if apply then [] else ["--dry-run"]] := rfl

/-- The log holds the calls of the run, the collection after them. -/
theorem cleanNixGarbageLog_eq (host : NixHost) (keep : Nat) (apply : Bool) :
    cleanNixGarbageLog host keep apply =
      (cleanNixGarbageWithBins host keep apply).nixEnvCalls.map NixCommand.nixEnv ++
        (cleanNixGarbageWithBins host keep apply).gcCalls.map NixCommand.collectGarbage := by
  unfold cleanNixGarbageLog cleanNixGarbageWithBins
  cases pruneArgs host keep apply with
  | none =>
    dsimp only
    split <;> rfl
  | some deleteArgs =>
    dsimp only
    by_cases hargs : userPruneArgv keep deleteArgs = []
    · rw [if_pos hargs, if_pos hargs]
      split <;> rfl
    · rw [if_neg hargs, if_neg hargs]
      cases (systemProfileSpreadPlan host keep).filter (· ≠ []) with
      | none =>
        simp only [collectGarbage_calls, collectGarbage_gcCalls, List.map_append, List.map_cons,
          List.map_nil]
        split <;> rfl
      | some systemDelete =>
        simp only [List.map_append, List.map_cons, List.map_nil, List.append_nil]
        split <;> rfl

theorem systemAsked_eq_nil_iff {host : NixHost} {keep : Nat} :
    systemAsked host keep = [] ↔ SystemLinksKept host keep := by
  rw [List.eq_nil_iff_forall_not_mem]
  constructor
  · intro hnone links hlinks hmany g hg hspread
    by_contra hfree
    exact hnone g (mem_systemAsked.mpr ⟨links, hlinks, hmany, hg, hspread, hfree⟩)
  · intro hkept g hasked
    obtain ⟨links, hlinks, hmany, hg, hspread, hfree⟩ := mem_systemAsked.mp hasked
    exact hfree (hkept links hlinks hmany g hg hspread)

theorem filter_systemProfileSpreadPlan (host : NixHost) (keep : Nat) :
    (systemProfileSpreadPlan host keep).filter (· ≠ []) =
      if systemAsked host keep = [] then none else some (systemAsked host keep) := by
  unfold systemAsked
  cases systemProfileSpreadPlan host keep with
  | none => rfl
  | some plan =>
    cases plan with
    | nil => rfl
    | cons g rest => rfl

/-- Without a retention the collection is the only command. -/
theorem garbageCollected_keep_zero (host : NixHost) : GarbageCollected host 0 where
  last := ⟨[], rfl⟩
  result := rfl

/-- With one, the run ends with the collection when the system plan is empty, and with the
deletion it names otherwise. -/
theorem cleanNixGarbageWithBins_of_keep (host : NixHost) {keep : Nat} (hkeep : 0 < keep) :
    cleanNixGarbageWithBins host keep true =
      if systemAsked host keep = [] then
        collectGarbage host true
          ((nixEnvGenerationCount host systemProfile).any (keep < ·))
          [nixListGenerationsArgv "default", userCall host keep,
            nixListGenerationsArgv systemProfile]
      else
        { nixEnvCalls := [nixListGenerationsArgv "default", userCall host keep,
            nixListGenerationsArgv systemProfile,
            nixDeleteGenerationsArgvWithProfile (systemAsked host keep) systemProfile]
          result := .ok (0, []) } := by
  have hne := userCall_ne_nil host hkeep
  unfold userCall at hne
  unfold cleanNixGarbageWithBins
  rw [pruneArgs_of_keep hkeep]
  dsimp only
  rw [if_neg hne, if_pos hkeep, filter_systemProfileSpreadPlan]
  by_cases hasked : systemAsked host keep = []
  · rw [if_pos hasked, if_pos hasked]
    rfl
  · rw [if_neg hasked, if_neg hasked]
    rfl

theorem garbageCollected_of_keep_iff {host : NixHost} {keep : Nat} (hkeep : 0 < keep) :
    GarbageCollected host keep ↔ systemAsked host keep = [] := by
  have hlog := cleanNixGarbageLog_eq host keep true
  have hrun := cleanNixGarbageWithBins_of_keep host hkeep
  constructor
  · rintro ⟨⟨calls, hlast⟩, -⟩
    by_contra hasked
    rw [if_neg hasked] at hrun
    rw [hlog, hrun] at hlast
    have hend := congrArg List.getLast? hlast
    simp at hend
  · intro hnil
    rw [if_pos hnil] at hrun
    refine ⟨⟨(cleanNixGarbageWithBins host keep true).nixEnvCalls, ?_⟩, ?_⟩
    · rw [hlog, hrun]
      rfl
    · rw [hrun]
      rfl

/-- **Whether the store is collected**: exactly when there is no retention or every link off
the spread of the system profile is kept by the running closure. -/
theorem garbage_collected_iff (host : NixHost) (keep : Nat) :
    GarbageCollected host keep ↔ (0 < keep → SystemLinksKept host keep) := by
  rcases Nat.eq_zero_or_pos keep with rfl | hkeep
  · simp [garbageCollected_keep_zero host]
  · rw [garbageCollected_of_keep_iff hkeep, systemAsked_eq_nil_iff]
    simp [hkeep]

/-- Three generations of a system that runs the newest. The user's own profile has one, the
system profile may not be written, and the store has garbage. -/
def readOnlySystemHost : NixHost where
  nixEnv argv :=
    if argv = nixListGenerationsArgv "default" ∨ argv = nixListGenerationsArgv systemProfile then
      some { success := true, stdout := "  1  a   (current)\n" }
    else some { success := false, stderr := "Read-only file system" }
  nixGc _ := .ok (some { success := true, stdout := "deleting '/nix/store/old'\n" })
  readDir dir :=
    if dir = profileDir then some ["system", "system-1-link", "system-2-link", "system-3-link"]
    else none
  readLink path :=
    if path = "/run/current-system" ∨ path = profileDir ++ "/system-3-link" then
      some "/nix/store/third"
    else if path = profileDir ++ "/system-2-link" then some "/nix/store/second"
    else if path = profileDir ++ "/system-1-link" then some "/nix/store/first"
    else none

/-- The deletion of generation 2 is the last command, and the run reports nothing collected. -/
theorem system_plan_skips_collection :
    ¬ GarbageCollected readOnlySystemHost 2 ∧
      (cleanNixGarbageWithBins readOnlySystemHost 2 true).gcCalls = [] ∧
      (cleanNixGarbageWithBins readOnlySystemHost 2 true).result.toOption = some (0, []) ∧
      (garbageResult readOnlySystemHost).toOption =
        some (0, ["nix store garbage (1 paths)"]) := by
  refine ⟨fun h => ?_, by decide +kernel, by decide +kernel, by decide +kernel⟩
  have hasked : systemAsked readOnlySystemHost 2 = [2] := by decide +kernel
  have hnil := (garbageCollected_of_keep_iff (by decide)).mp h
  rw [hasked] at hnil
  simp at hnil

end DraconGuard
