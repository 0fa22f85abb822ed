import Mathlib.Data.List.Dedup
import Mathlib.Data.List.Sort
import DraconGuard.Lib.Spread
import DraconGuard.Lib.Text

/-!
# Which generations a retention plan names

`nix_generations_to_delete_protecting` (main.rs:5357) and what feeds it: the table
`nix-env --list-generations` prints, and the `system-<n>-link` entries of the system profile
directory. `mem_plan_iff` says in one line when a generation is on the plan; the pruning run
of `NixPrune` cites it and never unfolds the plan.
-/

namespace DraconGuard

/-! ## The plan -/

/-- `sort_unstable` and `dedup`. -/
def sortedGenerations (generations : List Nat) : List Nat :=
  (generations.insertionSort (· ≤ ·)).dedup

/-- `retain_by_spread`: the newest alone for `keep <= 1`, else `keep` of them spread over the
range, and the newest. -/
def retainBySpread (sorted : List Nat) (keep : Nat) : List Nat :=
  if keep ≤ 1 then sorted.getLast?.toList
  else Spread.pick sorted keep ++ sorted.getLast?.toList

/-- `nix_generations_to_delete_protecting` (main.rs:5357-5397). -/
def nixGenerationsToDeleteProtecting (generations : List Nat) (keep : Nat)
    (shielded : List Nat) : List Nat :=
  let sorted := sortedGenerations generations
  if sorted = [] then []
  else if sorted.length ≤ keep then []
  else
    -- protection is added on top of the spread, never in its place
    let retain := retainBySpread sorted keep ++ shielded.filter (· ∈ sorted)
    sorted.filter (· ∉ retain)

@[simp] theorem mem_sortedGenerations {generations : List Nat} {g : Nat} :
    g ∈ sortedGenerations generations ↔ g ∈ generations := by
  simp [sortedGenerations]

theorem nodup_sortedGenerations (generations : List Nat) :
    (sortedGenerations generations).Nodup :=
  List.nodup_dedup _

theorem pairwise_sortedGenerations (generations : List Nat) :
    (sortedGenerations generations).Pairwise (· ≤ ·) :=
  (List.pairwise_insertionSort (· ≤ ·) generations).sublist (List.dedup_sublist _)

theorem sortedGenerations_eq_nil {generations : List Nat} :
    sortedGenerations generations = [] ↔ generations = [] := by
  simp only [List.eq_nil_iff_forall_not_mem, mem_sortedGenerations]

/-- The last generation in order is the highest. -/
theorem sortedGenerations_getLast {generations : List Nat} {m : Nat}
    (hm : generations.max? = some m) : (sortedGenerations generations).getLast? = some m := by
  obtain ⟨hmem, hle⟩ := List.max?_eq_some_iff.mp hm
  have hmem' := mem_sortedGenerations.mpr hmem
  obtain ⟨init, last, hsplit⟩ := List.eq_nil_or_concat (sortedGenerations generations)
    |>.resolve_left (List.ne_nil_of_mem hmem')
  have hlast : last ∈ generations := by
    rw [← mem_sortedGenerations, hsplit]
    simp
  have hge : m ≤ last := by
    have hpair := pairwise_sortedGenerations generations
    rw [hsplit, List.concat_eq_append] at hpair hmem'
    rcases List.mem_append.mp hmem' with hin | hin
    · exact (List.pairwise_append.mp hpair).2.2 m hin last List.mem_cons_self
    · exact Nat.le_of_eq (List.mem_singleton.mp hin)
  have heq : last = m := Nat.le_antisymm (hle last hlast) hge
  rw [hsplit, heq]
  simp

/-- The newest generation is never up for deletion. -/
theorem getLast_mem_retainBySpread {sorted : List Nat} {m : Nat} (keep : Nat)
    (hm : sorted.getLast? = some m) : m ∈ retainBySpread sorted keep := by
  unfold retainBySpread
  split <;> simp [hm]

theorem retainBySpread_subset {sorted : List Nat} {keep : Nat} :
    retainBySpread sorted keep ⊆ sorted := by
  intro g hg
  have hlast : g ∈ sorted.getLast?.toList → g ∈ sorted := by
    intro h
    exact List.mem_of_getLast? (by simpa using h)
  unfold retainBySpread at hg
  split at hg
  · exact hlast hg
  · rcases List.mem_append.mp hg with hpick | hend
    · exact Spread.pick_subset hpick
    · exact hlast hend

/-- **What the plan names**: a listed generation of a profile with more than `keep` of them
that neither the spread retains nor protection shields. -/
theorem mem_plan_iff {generations shielded : List Nat} {keep g : Nat} :
    g ∈ nixGenerationsToDeleteProtecting generations keep shielded ↔
      keep < (sortedGenerations generations).length ∧ g ∈ generations ∧
        g ∉ retainBySpread (sortedGenerations generations) keep ∧ g ∉ shielded := by
  unfold nixGenerationsToDeleteProtecting
  dsimp only
  split
  · next hnil =>
    have : generations = [] := sortedGenerations_eq_nil.mp hnil
    simp [this]
  · split
    · next hfew => simp [Nat.not_lt.mpr hfew]
    · next hmany =>
      simp only [List.mem_filter, mem_sortedGenerations, List.mem_append, not_or, not_and,
        decide_eq_true_eq]
      constructor
      · rintro ⟨hg, hspread, hshield⟩
        exact ⟨by omega, hg, hspread, fun hs => hshield hs hg⟩
      · rintro ⟨-, hg, hspread, hshield⟩
        exact ⟨hg, hspread, fun hs _ => hshield hs⟩

/-- Some generation is not retained by the spread alone, unless none is to go. -/
theorem exists_not_retained {generations : List Nat} {keep : Nat} (hkeep : 2 ≤ keep)
    (hmany : keep < (sortedGenerations generations).length) :
    ∃ g ∈ generations, g ∉ retainBySpread (sortedGenerations generations) keep := by
  obtain ⟨g, hg, hpick⟩ :=
    Spread.exists_not_mem_pick (nodup_sortedGenerations generations) hmany
  refine ⟨g, mem_sortedGenerations.mp hg, ?_⟩
  rw [retainBySpread, if_neg (by omega), List.mem_append, not_or]
  refine ⟨hpick, fun hlast => hpick ?_⟩
  exact Spread.getLast_mem_pick hkeep (by simpa using hlast)

/-! ## The table of `nix-env --list-generations` -/

structure NixGenerationListing where
  generations : List Nat
  /-- The generation marked `(current)`, when the table marks one. -/
  current : Option Nat
deriving DecidableEq, Repr

/-- The number in the first column of a row. -/
def rowGeneration (line : List Char) : Option Nat :=
  (Text.splitWhitespace line).head?.bind Text.parseU32

/-- `parse_nix_generation_numbers` (main.rs:5413). -/
def parseNixGenerationNumbers (stdout : String) : List Nat :=
  (Text.lines stdout).filterMap rowGeneration

/-- `parse_nix_current_generation` (main.rs:5277): the first marked row with a number. -/
def parseNixCurrentGeneration (stdout : String) : Option Nat :=
  (Text.lines stdout).findSome? fun line =>
    if Text.containsChars line "(current)".toList then rowGeneration line else none

/-- `parse_nix_generation_listing` (main.rs:5434). -/
def parseNixGenerationListing (stdout : String) : NixGenerationListing where
  generations := parseNixGenerationNumbers stdout
  current := parseNixCurrentGeneration stdout

/-- The marked generation is one of the table's own. -/
theorem parseNixGenerationListing_current {stdout : String} {c : Nat}
    (h : (parseNixGenerationListing stdout).current = some c) :
    c ∈ (parseNixGenerationListing stdout).generations := by
  obtain ⟨line, hline, hc⟩ := List.exists_of_findSome?_eq_some h
  split at hc
  · exact List.mem_filterMap.mpr ⟨line, hline, hc⟩
  · simp at hc

example : parseNixGenerationListing "   1   2026-09-01 10:00:01\n   2   2026-09-15   (current)\n" =
    { generations := [1, 2], current := some 2 } := by decide

/-! ## The links of the system profile -/

/-- `system-<n>-link`. -/
def linkGeneration (name : String) : Option Nat := do
  let rest ← Text.stripPrefix name.toList "system-".toList
  let number ← Text.stripSuffix rest "-link".toList
  Text.parseU32 number

/-- `system_profile_generations` (main.rs:5493) over the names `read_dir` gave. -/
def systemProfileGenerations (names : Option (List String)) : Option (List Nat) :=
  names.map fun entries => sortedGenerations (entries.filterMap linkGeneration)

/-- `resolve_store_path` (main.rs:5345). -/
def resolveStorePath (readLink : String → Option String) (path : String) : String :=
  (readLink path).getD path

/-- Whether a link may be the running system: it resolves to the closure, or it cannot be
read at all (main.rs:5318-5335). -/
def referencedByClosure (readLink : String → Option String) (profileDir closure : String)
    (generation : Nat) : Bool :=
  match readLink (profileDir ++ "/system-" ++ toString generation ++ "-link") with
  | none => true
  | some target => resolveStorePath readLink target == resolveStorePath readLink closure

/-- `nix_generations_referenced_by_closure` (main.rs:5318). -/
def nixGenerationsReferencedByClosure (readLink : String → Option String)
    (profileDir : String) (generations : List Nat) (closure : String) : List Nat :=
  generations.filter (referencedByClosure readLink profileDir closure)

end DraconGuard
