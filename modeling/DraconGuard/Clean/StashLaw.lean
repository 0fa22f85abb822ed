import Mathlib.Data.List.Perm.Subperm
import DraconGuard.Clean.Stash

/-!
# What a failed stash move leaves behind

`stashMove_atomic_iff` is the boundary of the move's atomicity. An error leaves the origin
whole except in two situations, and then no entry of the stash has a manifest for it, unless an
older one does:

* the tree was copied and verified, and the removal of the origin failed after it had taken
  something: the error propagates past the manifest, with the origin in part and the complete
  entry unrecorded;
* the data had moved and the manifest could not be published: the data is moved back by a
  rename, which fails where the first rename did, between two file systems (the entry then
  stays unrecorded), and which brings back a copy, without the special files.
-/

namespace DraconGuard

open FileTree

/-! ## The entry name is free -/

theorem backupName_injective {base : Name} {m n : Nat} (h : backupName base m = backupName base n) :
    m = n := by
  have htext := congrArg (fun name => name.text.toList) h
  have hdigits : (toString m).toList = (toString n).toList := by
    simpa [backupName] using htext
  have hread := congrArg Text.parseDigits hdigits
  simpa only [Text.parseDigits_toString, Option.some.injEq] using hread

theorem backupName_ne_base {base : Name} {n : Nat} : backupName base n ≠ base := by
  intro h
  have htext := congrArg (fun name => name.text.toList.length) h
  simp [backupName] at htext

theorem backupCandidate_injective (base : Name) : Function.Injective (backupCandidate base) := by
  intro m n h
  cases m with
  | zero =>
    cases n with
    | zero => rfl
    | succ n => exact absurd h.symm backupName_ne_base
  | succ m =>
    cases n with
    | zero => exact absurd h backupName_ne_base
    | succ n => exact backupName_injective h

/-- **The search ends**: among more candidates than there are entries one is free. -/
theorem uniqueBackupPath_free (fs : Fs FileData) (dir : Location) (base : Name) :
    fs.lookup (dir ++ [uniqueBackupPath fs dir base]) = none := by
  unfold uniqueBackupPath
  set candidates := (List.range (fs.keys.length + 1)).map (backupCandidate base) with hcand
  dsimp only
  cases hfind : candidates.find? fun n => (fs.lookup (dir ++ [n])).isNone with
  | some n =>
    have := List.find?_some hfind
    simpa using this
  | none =>
    -- every candidate would be a key
    have hall : ∀ n ∈ candidates, dir ++ [n] ∈ fs.keys := by
      intro n hn
      have := List.find?_eq_none.mp hfind n hn
      have hsome : (fs.lookup (dir ++ [n])).isSome := by
        simpa [Option.isSome_iff_ne_none] using this
      exact AList.mem_keys.mp (AList.lookup_isSome.mp hsome)
    have hnodup : (candidates.map fun n => dir ++ [n]).Nodup := by
      rw [hcand, List.map_map]
      refine List.nodup_range.map ?_
      intro m n h
      exact backupCandidate_injective base (by simpa using h)
    have hsub : (candidates.map fun n => dir ++ [n]) ⊆ fs.keys := by
      intro p hp
      obtain ⟨n, hn, rfl⟩ := List.mem_map.mp hp
      exact hall n hn
    have hlen := (hnodup.subperm hsub).length_le
    simp only [hcand, List.length_map, List.length_range] at hlen
    omega

/-! ## What the checks establish -/

/-- The later file system has everything the earlier one had. -/
def Extends (fs fs' : Fs FileData) : Prop := ∀ q e, fs.lookup q = some e → fs'.lookup q = some e

theorem Extends.refl (fs : Fs FileData) : Extends fs fs := fun _ _ h => h

/-- The stash root is there and nothing else has changed but for added directories. -/
theorem lookup_createRoot (t : Disk FileData) (root : String) (q : Location) :
    (createRoot t root).1.lookup q = t.fs.lookup q ∨
      t.fs.lookup q = none ∧ (createRoot t root).1.lookup q = some .dir := by
  unfold createRoot
  split
  · exact Or.inl rfl
  · exact lookup_makeDirs _ _ _ q

theorem createRoot_extends (t : Disk FileData) (root : String) :
    Extends t.fs (createRoot t root).1 := by
  intro q e h
  rcases lookup_createRoot t root q with heq | ⟨hnone, -⟩
  · rw [heq, h]
  · simp [h] at hnone

theorem createRoot_closed (t : Disk FileData) (root : String) : Closed (createRoot t root).1 := by
  unfold createRoot
  split
  · exact t.closed
  · next p _ => exact t.closed.makeDirs (t.start_dir p)

/-- Special files are never added. -/
theorem createRoot_special {t : Disk FileData} {root : String} {q : Location} :
    (createRoot t root).1.lookup q = some .special ↔ t.fs.lookup q = some .special := by
  rcases lookup_createRoot t root q with heq | ⟨hnone, hdir⟩
  · rw [heq]
  · simp [hnone, hdir]

/-- What an accepted move rests on: the origin is a directory apart from the stash root, without
a manifest of its own, and the new entry's place is free. `fs` is the file system the checks
leave behind. -/
structure StashReady (t : Disk FileData) (origin : String) (fs : Fs FileData) (p : Prepared) :
    Prop where
  canonical : t.canonicalize origin = .ok p.origin
  origin_dir : t.fs.lookup p.origin = some .dir
  grown : Extends t.fs fs
  special : ∀ q, fs.lookup q = some .special ↔ t.fs.lookup q = some .special
  apart : Apart p.root p.origin
  reserved : fs.lookup (p.origin ++ [manifestName]) = none ∨
    fs.lookup (p.origin ++ [manifestName]) = some .dir
  stats : walkStats fs p.origin = (p.files, p.bytes)
  entry_free : ∀ rel, fs.lookup (p.entry ++ rel) = none

/-- Refused or not, the checks change nothing but the directories of the stash root. -/
theorem stashPreflight_fs (t : Disk FileData) (faults : MoveFaults) (clock : StashClock)
    (origin root : String) (userProtected : List String) :
    (stashPreflight t faults clock origin root userProtected).1 = t.fs ∨
      (stashPreflight t faults clock origin root userProtected).1 = (createRoot t root).1 := by
  unfold stashPreflight
  by_cases hinspect : faults.inspectOrigin
  · exact Or.inl (by rw [if_pos hinspect])
  rw [if_neg hinspect]
  split
  · exact Or.inl rfl
  · exact Or.inl rfl
  · split
    · exact Or.inl rfl
    · dsimp only
      split
      · exact Or.inl rfl
      · split
        · exact Or.inl rfl
        · right
          cases hcreate : createRoot t root with
          | mk fs r =>
            cases r with
            | error e => rfl
            | ok q =>
              dsimp only
              repeat' split
              all_goals rfl
  · exact Or.inl rfl

theorem stashPreflight_extends (t : Disk FileData) (faults : MoveFaults) (clock : StashClock)
    (origin root : String) (userProtected : List String) :
    Extends t.fs (stashPreflight t faults clock origin root userProtected).1 := by
  rcases stashPreflight_fs t faults clock origin root userProtected with h | h
  · rw [h]
    exact Extends.refl t.fs
  · rw [h]
    exact createRoot_extends t root

/-- **Accepted moves are ready.** -/
theorem stashPreflight_ready {t : Disk FileData} {faults : MoveFaults} {clock : StashClock}
    {origin root : String} {userProtected : List String} {fs : Fs FileData} {p : Prepared}
    (h : stashPreflight t faults clock origin root userProtected = (fs, .ok p)) :
    fs = (createRoot t root).1 ∧ canonicalize fs t.cwd root = .ok p.root ∧
      StashReady t origin fs p := by
  unfold stashPreflight at h
  split at h
  · simp at h
  split at h
  · simp at h
  · simp at h
  · next loc hlstat =>
    have hcanon : t.canonicalize origin = .ok loc := canonicalize_of_lstat_dir hlstat
    split at h
    · simp at h
    · next checked hcheck =>
      obtain ⟨rfl, hne, -, -⟩ := checkSafeToDeleteGuard_ok hcanon hcheck
      have hloc : (CheckedPath.canonical loc).location loc = loc := rfl
      rw [hloc] at h
      split at h
      · simp at h
      by_cases hreserved : (t.fs.lookup (loc ++ [manifestName])).isSome
      · simp [hreserved] at h
      rw [if_neg hreserved] at h
      cases hcreate : createRoot t root with
      | mk fs' r =>
        rw [hcreate] at h
        cases r with
        | error e => simp at h
        | ok _ =>
          dsimp only at h
          split at h
          · simp at h
          split at h
          · simp at h
          next canonRoot hrootat =>
          split at h
          · simp at h
          next hnest =>
          split at h
          · simp at h
          obtain ⟨rfl, rfl⟩ : fs' = fs ∧ _ = p := by simpa using h
          have hnotPrefix : ¬ canonRoot <+: loc ∧ ¬ loc <+: canonRoot := by
            simpa [List.isPrefixOf_iff_prefix] using hnest
          have hdir : entryAt t.fs loc = some .dir := t.entryAt_of_lstat hlstat
          have hfs : (createRoot t root).1 = fs' := by rw [hcreate]
          have hlookup := lookup_createRoot t root
          rw [hfs] at hlookup
          refine ⟨rfl, hrootat, ?_⟩
          constructor
          case canonical => exact hcanon
          case origin_dir => simpa [entryAt, hne] using hdir
          case grown => exact hfs ▸ createRoot_extends t root
          case special => exact fun q => hfs ▸ createRoot_special
          case apart => exact hnotPrefix
          case reserved =>
            have hnone : t.fs.lookup (loc ++ [manifestName]) = none := by simpa using hreserved
            rcases hlookup (loc ++ [manifestName]) with heq | ⟨-, hnew⟩
            · exact Or.inl (heq.trans hnone)
            · exact Or.inr hnew
          case stats => rfl
          case entry_free =>
            intro rel
            have hfree : entryAt fs' (canonRoot ++ [entryNameFor fs' canonRoot loc clock]) =
                none := by
              rw [entryAt_concat]
              exact uniqueBackupPath_free _ _ _
            have hbelow := (hfs ▸ createRoot_closed t root).none_below hfree rel
            simpa [entryAt, Prepared.entry] using hbelow
  · simp at h

/-! ## Copying -/

/-- A copy writes below its destination only. -/
theorem lookup_copyEntries_other {faults : MoveFaults} {dst q : Location}
    {items : List (Location × Entry FileData)} {skipped : Nat} {fs : Fs FileData}
    (h : ¬ dst <+: q) : (copyEntries faults dst items skipped fs).1.lookup q = fs.lookup q := by
  induction items generalizing skipped fs with
  | nil => rfl
  | cons i items ih =>
    obtain ⟨rel, entry⟩ := i
    unfold copyEntries
    split
    · rfl
    · split
      · exact ih
      · rw [ih, AList.lookup_insert_ne]
        rintro rfl
        exact h (List.prefix_append dst rel)

theorem copyEntries_ok {faults : MoveFaults} {items : List (Location × Entry FileData)}
    (dst : Location) (skipped : Nat) (fs : Fs FileData)
    (h : ∀ i ∈ items, faults.copyEntry i.1 = false) :
    ∃ k, copyEntries faults dst items skipped fs =
      (graft dst (items.filter (·.2 ≠ .special)) fs, .ok k) := by
  induction items generalizing skipped fs with
  | nil => exact ⟨skipped, rfl⟩
  | cons i items ih =>
    obtain ⟨rel, entry⟩ := i
    have hrel : faults.copyEntry rel = false := h (rel, entry) List.mem_cons_self
    have htail : ∀ i ∈ items, faults.copyEntry i.1 = false := fun i hi =>
      h i (List.mem_cons_of_mem _ hi)
    unfold copyEntries
    rw [if_neg (by simp [hrel])]
    by_cases hspecial : entry = .special
    · obtain ⟨k, hk⟩ := ih (skipped + 1) fs htail
      exact ⟨k, by simp [hspecial, hk]⟩
    · obtain ⟨k, hk⟩ := ih skipped (fs.insert (dst ++ rel) entry) htail
      exact ⟨k, by simp [hspecial, hk, graft]⟩

theorem copyEntries_error {faults : MoveFaults} {dst : Location}
    {items : List (Location × Entry FileData)} {skipped : Nat} {fs : Fs FileData}
    (h : ∃ i ∈ items, faults.copyEntry i.1 = true) :
    ∃ e, (copyEntries faults dst items skipped fs).2 = .error e := by
  induction items generalizing skipped fs with
  | nil => simp at h
  | cons i items ih =>
    obtain ⟨rel, entry⟩ := i
    unfold copyEntries
    by_cases hrel : faults.copyEntry rel
    · exact ⟨_, by rw [if_pos hrel]⟩
    · have htail : ∃ i ∈ items, faults.copyEntry i.1 = true := by
        obtain ⟨i, hi, hbad⟩ := h
        rcases List.mem_cons.mp hi with rfl | hin
        · exact absurd hbad hrel
        · exact ⟨i, hin, hbad⟩
      rw [if_neg hrel]
      split
      · exact ih htail
      · exact ih htail

theorem lookup_copyTree_other (faults : MoveFaults) (src : Location) {dst q : Location}
    (fs : Fs FileData) (h : ¬ dst <+: q) : (copyTree faults src dst fs).1.lookup q = fs.lookup q := by
  unfold copyTree
  split
  · rfl
  · rw [lookup_copyEntries_other h, AList.lookup_insert_ne]
    rintro rfl
    exact h (List.prefix_refl q)

/-- No entry of the tree is in the way of a copy. -/
def Copyable (faults : MoveFaults) (fs : Fs FileData) (src : Location) : Prop :=
  ∀ rel e, fs.lookup (src ++ rel) = some e → faults.copyEntry rel = false

/-- **A copy that succeeds** has everything but the special files. -/
theorem copyTree_ok {faults : MoveFaults} {src dst : Location} {fs : Fs FileData}
    (hsrc : fs.lookup src = some .dir) (hfree : ∀ rel, fs.lookup (dst ++ rel) = none)
    (hcopy : Copyable faults fs src) :
    ∃ fs' k, copyTree faults src dst fs = (fs', .ok k) ∧
      ∀ rel, fs'.lookup (dst ++ rel) = (fs.lookup (src ++ rel)).filter (· ≠ .special) := by
  have hroot : faults.copyEntry [] = false := hcopy [] .dir (by rw [List.append_nil, hsrc])
  have hitems : ∀ i ∈ (walk fs src).filter (·.1 ≠ []), faults.copyEntry i.1 = false := by
    rintro ⟨rel, e⟩ hi
    exact hcopy rel e (mem_walk.mp (List.mem_of_mem_filter hi))
  obtain ⟨k, hk⟩ := copyEntries_ok dst 0 (fs.insert dst .dir) hitems
  refine ⟨_, k, by rw [copyTree, if_neg (by simp [hroot]), hk], ?_⟩
  intro rel
  by_cases hcopied : ∃ e, fs.lookup (src ++ rel) = some e ∧ e ≠ .special ∧ rel ≠ []
  · obtain ⟨e, he, hspecial, hrel⟩ := hcopied
    rw [lookup_graft_mem (e := e), he]
    · simp [Option.filter, hspecial]
    · intro i hi
      exact walk_uniq he i (List.mem_of_mem_filter (List.mem_of_mem_filter hi))
    · simp [mem_walk, he, hspecial, hrel]
  · rw [lookup_graft_other]
    · by_cases hrel : rel = []
      · subst hrel
        rw [List.append_nil, List.append_nil, AList.lookup_insert, hsrc]
        simp [Option.filter]
      · rw [AList.lookup_insert_ne (by simpa using hrel), hfree rel]
        cases he : fs.lookup (src ++ rel) with
        | none => rfl
        | some e =>
          have hspecial : e = .special := by
            by_contra hne
            exact hcopied ⟨e, he, hne, hrel⟩
          simp [Option.filter, hspecial]
    · rintro ⟨r, e⟩ hi heq
      obtain rfl : r = rel := List.append_cancel_left heq
      simp only [List.mem_filter, mem_walk, decide_eq_true_eq] at hi
      exact hcopied ⟨e, hi.1.1, hi.2, hi.1.2⟩

theorem copyTree_error {faults : MoveFaults} {src : Location} (dst : Location)
    {fs : Fs FileData} (hcopy : ¬ Copyable faults fs src) : ∃ e, (copyTree faults src dst fs).2 = .error e := by
  obtain ⟨rel, entry, hlook, hbad⟩ : ∃ rel e, fs.lookup (src ++ rel) = some e ∧
      faults.copyEntry rel = true := by
    simpa [Copyable] using hcopy
  unfold copyTree
  by_cases hroot : faults.copyEntry []
  · exact ⟨_, by rw [if_pos hroot]⟩
  · rw [if_neg hroot]
    refine copyEntries_error ⟨(rel, entry), ?_, hbad⟩
    have hrel : rel ≠ [] := fun h => hroot (h ▸ hbad)
    simp [mem_walk, hlook, hrel]

/-! ## Verifying -/

/-- The size of a regular file. -/
def fileSize (i : Location × Entry FileData) : Option Nat :=
  match i.2 with
  | .file data => some data.length
  | _ => none

theorem fileSize_isSome {rel : Location} {e : Entry FileData} :
    (fileSize (rel, e)).isSome ↔ ∃ data, e = .file data := by
  cases e <;> simp [fileSize]

/-- The tallies depend on the regular files only. -/
theorem walkStats_congr {fs fs' : Fs FileData} {root root' : Location}
    (h : ∀ rel data, fs.lookup (root ++ rel) = some (.file data) ↔
      fs'.lookup (root' ++ rel) = some (.file data)) : walkStats fs root = walkStats fs' root' := by
  have hfiles : ∀ l : List (Location × Entry FileData),
      l.filterMap fileSize = (l.filter fun i => (fileSize i).isSome).filterMap fileSize := by
    intro l
    rw [List.filterMap_filter]
    congr 1
    funext i
    cases hi : fileSize i <;> simp
  have hperm : ((walk fs root).filter fun i => (fileSize i).isSome).Perm
      ((walk fs' root').filter fun i => (fileSize i).isSome) := by
    rw [List.perm_ext_iff_of_nodup ((nodup_walk _ _).filter _) ((nodup_walk _ _).filter _)]
    rintro ⟨rel, e⟩
    rw [List.mem_filter, List.mem_filter, mem_walk, mem_walk, fileSize_isSome]
    constructor
    · rintro ⟨he, data, rfl⟩
      exact ⟨(h rel data).1 he, data, rfl⟩
    · rintro ⟨he, data, rfl⟩
      exact ⟨(h rel data).2 he, data, rfl⟩
  have hsizes := hperm.filterMap fileSize
  rw [← hfiles, ← hfiles] at hsizes
  exact Prod.ext hsizes.length_eq hsizes.sum_nat

/-! ## The data on its way -/

section Move

variable {t : Disk FileData} {origin : String} {fs : Fs FileData} {p : Prepared}
  {faults : MoveFaults}

theorem StashReady.entry_apart (h : StashReady t origin fs p) : Apart p.entry p.origin :=
  h.apart.concat p.entryName

theorem StashReady.dir (h : StashReady t origin fs p) : fs.lookup p.origin = some .dir :=
  h.grown p.origin .dir h.origin_dir

/-- A copy leaves special files behind, a rename nothing. -/
def carries (faults : MoveFaults) (e : Entry FileData) : Bool :=
  !(faults.rename && e = .special)

/-- The entry has what the way taken carries, and nothing else has changed but the origin. -/
structure InEntry (fs : Fs FileData) (p : Prepared) (faults : MoveFaults)
    (after : Fs FileData) : Prop where
  entry : ∀ rel, after.lookup (p.entry ++ rel) =
    (fs.lookup (p.origin ++ rel)).filter (carries faults)
  other : ∀ q, ¬ p.entry <+: q → ¬ p.origin <+: q → after.lookup q = fs.lookup q

/-- Nothing keeps the tree from being copied and verified. -/
def CopySound (faults : MoveFaults) (fs : Fs FileData) (p : Prepared) : Prop :=
  Copyable faults fs p.origin ∧ faults.walkEntry = false

/-- The data reaches the entry and leaves the origin: by rename, or copied and removed. -/
def Carried (faults : MoveFaults) (fs : Fs FileData) (p : Prepared) : Prop :=
  faults.rename = false ∨ (CopySound faults fs p ∧ faults.removeOrigin = none)

theorem moveIntoEntry_renamed (h : StashReady t origin fs p) (hrename : faults.rename = false) :
    ∃ after, moveIntoEntry faults p fs = (after, .ok ()) ∧ InEntry fs p faults after ∧
      ∀ rel, after.lookup (p.origin ++ rel) = none := by
  refine ⟨FileTree.rename p.origin p.entry fs, by simp [moveIntoEntry, hrename], ⟨?_, ?_⟩, ?_⟩
  · intro rel
    rw [lookup_rename_dst rel h.entry_free]
    cases fs.lookup (p.origin ++ rel) <;> simp [Option.filter, carries, hrename]
  · intro q hentry horigin
    exact lookup_rename_other horigin hentry
  · intro rel
    exact lookup_rename_src rel h.entry_apart

/-- The copy path up to the removal of the origin. -/
theorem moveIntoEntry_copied (h : StashReady t origin fs p) (hrename : faults.rename = true)
    (hsound : CopySound faults fs p) :
    ∃ copied, InEntry fs p faults copied ∧
      (∀ rel, copied.lookup (p.origin ++ rel) = fs.lookup (p.origin ++ rel)) ∧
      moveIntoEntry faults p fs = removeOriginal faults p copied := by
  obtain ⟨copied, k, hcopy, hentry⟩ := copyTree_ok h.dir h.entry_free hsound.1
  have hother : ∀ q, ¬ p.entry <+: q → copied.lookup q = fs.lookup q := by
    intro q hq
    have := lookup_copyTree_other faults p.origin fs hq
    rwa [hcopy] at this
  have hcarried : ∀ rel, copied.lookup (p.entry ++ rel) =
      (fs.lookup (p.origin ++ rel)).filter (carries faults) := by
    intro rel
    rw [hentry rel]
    cases fs.lookup (p.origin ++ rel) <;> simp [Option.filter, carries, hrename]
  have hstats : walkStats copied p.entry = (p.files, p.bytes) := by
    rw [← h.stats]
    apply walkStats_congr
    intro rel data
    rw [hcarried rel]
    cases he : fs.lookup (p.origin ++ rel) with
    | none => simp
    | some e => cases e <;> simp [Option.filter, carries]
  refine ⟨copied, ⟨hcarried, fun q hq _ => hother q hq⟩, fun rel => ?_, ?_⟩
  · exact hother _ (h.entry_apart.not_prefix_append rel)
  · simp [moveIntoEntry, hrename, hcopy, hsound.2, hstats]

/-- **Data that arrives.** -/
theorem moveIntoEntry_carried (h : StashReady t origin fs p) (hcarried : Carried faults fs p) :
    ∃ after, moveIntoEntry faults p fs = (after, .ok ()) ∧ InEntry fs p faults after ∧
      ∀ rel, after.lookup (p.origin ++ rel) = none := by
  by_cases hrename : faults.rename = false
  · exact moveIntoEntry_renamed h hrename
  · obtain ⟨hsound, hremove⟩ := hcarried.resolve_left hrename
    obtain ⟨copied, hin, -, heq⟩ := moveIntoEntry_copied h (by simpa using hrename) hsound
    rw [removeOriginal, hremove] at heq
    refine ⟨removeSubtree copied p.origin, heq, ⟨fun rel => ?_, fun q hentry horigin => ?_⟩,
      fun rel => ?_⟩
    · rw [lookup_removeSubtree, if_neg (h.entry_apart.symm.not_prefix_append rel)]
      exact hin.entry rel
    · rw [lookup_removeSubtree, if_neg horigin]
      exact hin.other q hentry horigin
    · simp

/-- **A removal that stops.** The entry is complete, the origin is short of what was taken. -/
theorem moveIntoEntry_stopped (h : StashReady t origin fs p) (hrename : faults.rename = true)
    (hsound : CopySound faults fs p) {gone : List Location}
    (hremove : faults.removeOrigin = some gone) :
    ∃ after, moveIntoEntry faults p fs = (after, .error faults.ioError) ∧
      InEntry fs p faults after ∧
      ∀ rel, after.lookup (p.origin ++ rel) =
        if rel ∈ gone then none else fs.lookup (p.origin ++ rel) := by
  obtain ⟨copied, hin, horigin, heq⟩ := moveIntoEntry_copied h hrename hsound
  rw [removeOriginal, hremove] at heq
  have hother : ∀ q, ¬ p.origin <+: q →
      (removeDirAllAt p.origin (some gone) copied).1.lookup q = copied.lookup q := fun q hq =>
    lookup_removeDirAllAt_other (some gone) copied hq
  refine ⟨_, heq, ⟨fun rel => ?_, fun q hentry hq => ?_⟩, fun rel => ?_⟩
  · exact (hother _ (h.entry_apart.symm.not_prefix_append rel)).trans (hin.entry rel)
  · exact (hother q hq).trans (hin.other q hentry hq)
  · rw [lookup_foldl_erase, horigin rel]
    by_cases hgone : rel ∈ gone
    · rw [if_pos hgone, if_pos ⟨rel, hgone, rfl⟩]
    · rw [if_neg hgone, if_neg]
      rintro ⟨r, hr, heq⟩
      exact hgone (List.append_cancel_left heq ▸ hr)

/-- **A copy that fails** leaves the origin alone. -/
theorem moveIntoEntry_uncopied (h : StashReady t origin fs p) (hrename : faults.rename = true)
    (hsound : ¬ CopySound faults fs p) :
    ∃ after e, moveIntoEntry faults p fs = (after, .error e) ∧
      ∀ rel, after.lookup (p.origin ++ rel) = fs.lookup (p.origin ++ rel) := by
  have hclean : ∀ copied : Fs FileData,
      (∀ rel, copied.lookup (p.origin ++ rel) = fs.lookup (p.origin ++ rel)) → ∀ rel,
        (removeDirAllAt p.entry faults.removeEntry copied).1.lookup (p.origin ++ rel) =
          fs.lookup (p.origin ++ rel) := by
    intro copied hcopied rel
    rw [lookup_removeDirAllAt_other _ _ (h.entry_apart.not_prefix_append rel)]
    exact hcopied rel
  have hsame : ∀ rel, (copyTree faults p.origin p.entry fs).1.lookup (p.origin ++ rel) =
      fs.lookup (p.origin ++ rel) := fun rel =>
    lookup_copyTree_other _ _ _ (h.entry_apart.not_prefix_append rel)
  by_cases hcopy : Copyable faults fs p.origin
  · obtain ⟨copied, k, heq, -⟩ := copyTree_ok h.dir h.entry_free hcopy
    have hwalk : faults.walkEntry = true := by
      by_contra hwalk
      exact hsound ⟨hcopy, by simpa using hwalk⟩
    rw [heq] at hsame
    exact ⟨_, _, by simp only [moveIntoEntry, hrename, heq, hwalk]; rfl, hclean copied hsame⟩
  · obtain ⟨e, he⟩ := copyTree_error p.entry hcopy
    cases heq : copyTree faults p.origin p.entry fs with
    | mk copied r =>
      rw [heq] at he hsame
      obtain rfl : r = .error e := he
      exact ⟨_, e, by simp only [moveIntoEntry, hrename, heq]; rfl, hclean copied hsame⟩

/-! ## Publishing, or moving back -/

/-- The manifest cannot be published: the write fails, or its name is taken. -/
def PublishFails (faults : MoveFaults) (fs : Fs FileData) (p : Prepared) : Prop :=
  faults.publish = true ∨ (fs.lookup (p.origin ++ [manifestName])).isSome

instance : Decidable (PublishFails faults fs p) :=
  inferInstanceAs (Decidable (_ ∨ _))

/-- No manifest comes along with the data. -/
theorem InEntry.no_manifest (h : StashReady t origin fs p) {after : Fs FileData}
    (hin : InEntry fs p faults after) : readManifest after p.entry = none := by
  unfold readManifest
  rw [hin.entry]
  rcases h.reserved with hnone | hdir
  · simp [hnone]
  · simp [hdir, Option.filter, carries]

/-- A directory under the reserved name is carried either way. -/
theorem InEntry.reserved_isSome (h : StashReady t origin fs p) {after : Fs FileData}
    (hin : InEntry fs p faults after) :
    (after.lookup (p.entry ++ [manifestName])).isSome =
      (fs.lookup (p.origin ++ [manifestName])).isSome := by
  rw [hin.entry]
  rcases h.reserved with hnone | hdir
  · simp [hnone]
  · simp [hdir, Option.filter, carries]

theorem publishManifest_ok (h : StashReady t origin fs p) {after : Fs FileData}
    (hin : InEntry fs p faults after) (hpublish : ¬ PublishFails faults fs p)
    (manifest : StashManifest) (length : Nat) :
    publishManifest faults p manifest length after =
      (after.insert (p.entry ++ [manifestName]) (.file (.manifest manifest length)),
        .ok manifest) := by
  obtain ⟨hwrite, hfree⟩ := not_or.mp hpublish
  have htaken : (faults.publish || (after.lookup (p.entry ++ [manifestName])).isSome) = false := by
    rw [hin.reserved_isSome h]
    simp only [Bool.or_eq_false_iff]
    exact ⟨by simpa using hwrite, by simpa using hfree⟩
  simp [publishManifest, htaken]

theorem publishManifest_error (h : StashReady t origin fs p) {after : Fs FileData}
    (hin : InEntry fs p faults after) (hpublish : PublishFails faults fs p)
    (manifest : StashManifest) (length : Nat) :
    ∃ e, publishManifest faults p manifest length after =
      (if faults.moveBack then after else FileTree.rename p.entry p.origin after, .error e) := by
  have htaken : (faults.publish || (after.lookup (p.entry ++ [manifestName])).isSome) = true := by
    rw [hin.reserved_isSome h]
    simpa [PublishFails] using hpublish
  unfold publishManifest
  dsimp only
  rw [if_pos htaken]
  split
  · exact ⟨_, rfl⟩
  · exact ⟨_, rfl⟩

/-- What the move back restores: everything the way taken had carried. -/
theorem lookup_moveBack (h : StashReady t origin fs p) {after : Fs FileData}
    (hin : InEntry fs p faults after) (hgone : ∀ rel, after.lookup (p.origin ++ rel) = none) :
    (∀ rel, (FileTree.rename p.entry p.origin after).lookup (p.origin ++ rel) =
        (fs.lookup (p.origin ++ rel)).filter (carries faults)) ∧
      (∀ rel, (FileTree.rename p.entry p.origin after).lookup (p.entry ++ rel) = none) ∧
      ∀ q, ¬ p.entry <+: q → ¬ p.origin <+: q →
        (FileTree.rename p.entry p.origin after).lookup q = fs.lookup q := by
  refine ⟨fun rel => ?_, fun rel => ?_, fun q hentry horigin => ?_⟩
  · rw [lookup_rename_dst rel hgone, hin.entry]
  · exact lookup_rename_src rel h.entry_apart.symm
  · rw [lookup_rename_other hentry horigin, hin.other q hentry horigin]

/-! ## What an error leaves -/

/-- Every entry of the origin is where it was. -/
def OriginIntact (t : Disk FileData) (q : Location) (after : Fs FileData) : Prop :=
  ∀ rel e, t.fs.lookup (q ++ rel) = some e → after.lookup (q ++ rel) = some e

/-- An entry of the stash has a readable manifest naming the origin and holds all of its tree. -/
def Stashed (t : Disk FileData) (q root : Location) (after : Fs FileData) : Prop :=
  ∃ name m, readManifest after (root ++ [name]) = some m ∧ m.origin = render q ∧
    ∀ rel e, t.fs.lookup (q ++ rel) = some e → after.lookup (root ++ [name] ++ rel) = some e

/-- As long as the new entry has no manifest, only the older ones count, and they are as they
were. -/
theorem stashed_iff (h : StashReady t origin fs p) {after : Fs FileData}
    (hother : ∀ q, ¬ p.entry <+: q → ¬ p.origin <+: q → after.lookup q = fs.lookup q)
    (hunrecorded : readManifest after p.entry = none) :
    Stashed t p.origin p.root after ↔ Stashed t p.origin p.root fs := by
  have hsame : ∀ name, name ≠ p.entryName → ∀ rel,
      after.lookup (p.root ++ [name] ++ rel) = fs.lookup (p.root ++ [name] ++ rel) := by
    intro name hne rel
    apply hother
    · intro hpre
      have hsplit : p.root ++ [name] ++ rel = p.root ++ name :: rel := by simp
      rw [hsplit, Prepared.entry, List.prefix_append_right_inj, List.cons_prefix_cons] at hpre
      exact hne hpre.1.symm
    · exact (h.apart.concat name).symm.not_prefix_append rel
  have hmanifest : ∀ name, name ≠ p.entryName →
      readManifest after (p.root ++ [name]) = readManifest fs (p.root ++ [name]) := by
    intro name hne
    rw [readManifest, readManifest, hsame name hne [manifestName]]
  have hold : readManifest fs p.entry = none := by simp [readManifest, h.entry_free]
  constructor
  · rintro ⟨name, m, hread, hnames, hholds⟩
    have hne : name ≠ p.entryName := by
      rintro rfl
      exact absurd (hunrecorded.symm.trans hread) (by simp)
    refine ⟨name, m, (hmanifest name hne) ▸ hread, hnames, fun rel e he => ?_⟩
    rw [← hsame name hne rel]
    exact hholds rel e he
  · rintro ⟨name, m, hread, hnames, hholds⟩
    have hne : name ≠ p.entryName := by
      rintro rfl
      exact absurd (hold.symm.trans hread) (by simp)
    refine ⟨name, m, (hmanifest name hne).trans hread, hnames, fun rel e he => ?_⟩
    rw [hsame name hne rel]
    exact hholds rel e he

end Move

/-- The ways an error damages the origin: its removal stopped after something of it was gone,
or the data had moved, no manifest could be published, and moving back failed or brought back
less than there was. -/
def Damages (t : Disk FileData) (faults : MoveFaults) (fs : Fs FileData) (p : Prepared) : Prop :=
  (faults.rename = true ∧ CopySound faults fs p ∧ ∃ gone, faults.removeOrigin = some gone ∧
      ∃ rel ∈ gone, (t.fs.lookup (p.origin ++ rel)).isSome) ∨
    (Carried faults fs p ∧ PublishFails faults fs p ∧
      (faults.moveBack = true ∨
        (faults.rename = true ∧ ∃ rel, t.fs.lookup (p.origin ++ rel) = some .special)))

section Outcome

variable {t : Disk FileData} {origin : String} {fs : Fs FileData} {p : Prepared}
  {faults : MoveFaults} (clock : StashClock) (jsonLength : StashManifest → Nat) (auto : Bool)

/-- Once the data has arrived, the rest of the run is the publication. -/
theorem completeMove_carried {after : Fs FileData}
    (hmove : moveIntoEntry faults p fs = (after, .ok ())) :
    ∃ manifest length,
      (completeMove faults clock jsonLength auto p fs).fs =
          (publishManifest faults p manifest length after).1 ∧
        (completeMove faults clock jsonLength auto p fs).result =
          (publishManifest faults p manifest length after).2 := by
  unfold completeMove
  rw [hmove]
  exact ⟨_, _, rfl, rfl⟩

theorem completeMove_failed {after : Fs FileData} {e : String}
    (hmove : moveIntoEntry faults p fs = (after, .error e)) :
    completeMove faults clock jsonLength auto p fs = ⟨after, .error e⟩ := by
  unfold completeMove
  rw [hmove]

/-- **Without damage** an error leaves the origin whole. -/
theorem completeMove_intact (h : StashReady t origin fs p) (hsafe : ¬ Damages t faults fs p)
    {e : String} (herr : (completeMove faults clock jsonLength auto p fs).result = .error e) :
    OriginIntact t p.origin (completeMove faults clock jsonLength auto p fs).fs := by
  obtain ⟨hremoval, hpublication⟩ := not_or.mp hsafe
  by_cases hcarried : Carried faults fs p
  · obtain ⟨after, hmove, hin, hgone⟩ := moveIntoEntry_carried h hcarried
    obtain ⟨manifest, length, hfs, hresult⟩ :=
      completeMove_carried clock jsonLength auto hmove
    rw [hresult] at herr
    rw [hfs]
    by_cases hpublish : PublishFails faults fs p
    · obtain ⟨_, heq⟩ := publishManifest_error h hin hpublish manifest length
      have hfate : ¬ (faults.moveBack = true ∨
          (faults.rename = true ∧ ∃ rel, t.fs.lookup (p.origin ++ rel) = some .special)) :=
        fun hbad => hpublication ⟨hcarried, hpublish, hbad⟩
      obtain ⟨hback, hspecial⟩ := not_or.mp hfate
      rw [heq, if_neg hback]
      intro rel entry hentry
      rw [(lookup_moveBack h hin hgone).1 rel, h.grown _ _ hentry]
      have hkept : carries faults entry = true := by
        rw [carries, Bool.not_eq_true', Bool.and_eq_false_iff]
        by_cases hrename : faults.rename = true
        · right
          have hne : entry ≠ .special := fun heq => hspecial ⟨hrename, rel, heq ▸ hentry⟩
          simpa using hne
        · exact Or.inl (by simpa using hrename)
      simp [Option.filter, hkept]
    · rw [publishManifest_ok h hin hpublish] at herr
      simp at herr
  · -- by copy, and either it failed or the removal of the origin did
    have hrename : faults.rename = true := by
      by_contra hno
      exact hcarried (Or.inl (by simpa using hno))
    by_cases hsound : CopySound faults fs p
    · cases hremove : faults.removeOrigin with
      | none => exact absurd (Or.inr ⟨hsound, hremove⟩) hcarried
      | some gone =>
        obtain ⟨after, hmove, -, horigin⟩ := moveIntoEntry_stopped h hrename hsound hremove
        rw [completeMove_failed clock jsonLength auto hmove]
        intro rel entry hentry
        have hspared : rel ∉ gone := by
          intro hin
          exact hremoval ⟨hrename, hsound, gone, hremove, rel, hin, by simp [hentry]⟩
        rw [horigin rel, if_neg hspared]
        exact h.grown _ _ hentry
    · obtain ⟨after, e', hmove, horigin⟩ := moveIntoEntry_uncopied h hrename hsound
      rw [completeMove_failed clock jsonLength auto hmove]
      intro rel entry hentry
      rw [horigin rel]
      exact h.grown _ _ hentry

/-- **Damage** is an error that leaves the origin short, and nothing new recorded. -/
theorem completeMove_damaged (h : StashReady t origin fs p) (hdamage : Damages t faults fs p) :
    (∃ e, (completeMove faults clock jsonLength auto p fs).result = .error e) ∧
      ¬ OriginIntact t p.origin (completeMove faults clock jsonLength auto p fs).fs ∧
      (Stashed t p.origin p.root (completeMove faults clock jsonLength auto p fs).fs ↔
        Stashed t p.origin p.root fs) := by
  rcases hdamage with ⟨hrename, hsound, gone, hremove, rel, hrel, hsome⟩ |
    ⟨hcarried, hpublish, hfate⟩
  · obtain ⟨after, hmove, hin, horigin⟩ := moveIntoEntry_stopped h hrename hsound hremove
    rw [completeMove_failed clock jsonLength auto hmove]
    refine ⟨⟨_, rfl⟩, fun hintact => ?_, stashed_iff h hin.other (hin.no_manifest h)⟩
    obtain ⟨entry, hentry⟩ := Option.isSome_iff_exists.mp hsome
    have := hintact rel entry hentry
    simp [horigin rel, hrel] at this
  · obtain ⟨after, hmove, hin, hgone⟩ := moveIntoEntry_carried h hcarried
    obtain ⟨manifest, length, hfs, hresult⟩ :=
      completeMove_carried clock jsonLength auto hmove
    obtain ⟨e, heq⟩ := publishManifest_error h hin hpublish manifest length
    rw [hfs, hresult, heq]
    refine ⟨⟨e, rfl⟩, ?_⟩
    by_cases hback : faults.moveBack = true
    · rw [if_pos hback]
      refine ⟨fun hintact => ?_, stashed_iff h hin.other (hin.no_manifest h)⟩
      have := hintact [] .dir (by rw [List.append_nil, h.origin_dir])
      rw [hgone []] at this
      simp at this
    · rw [if_neg hback]
      obtain ⟨hrename, rel, hspecial⟩ := hfate.resolve_left hback
      obtain ⟨hreturned, hleft, hother⟩ := lookup_moveBack h hin hgone
      refine ⟨fun hintact => ?_, stashed_iff h hother (by simp [readManifest, hleft])⟩
      have := hintact rel .special hspecial
      rw [hreturned rel, (h.special _).mpr hspecial] at this
      simp [Option.filter, carries, hrename] at this

end Outcome

/-- An error leaves the origin whole, or an entry under the stash root records and holds all of
it. -/
def AtomicOnError (t : Disk FileData) (origin root : String) (run : StashRun) : Prop :=
  ∀ e, run.result = .error e → ∀ q, t.canonicalize origin = .ok q →
    OriginIntact t q run.fs ∨
      ∃ r, canonicalize (createRoot t root).1 t.cwd root = .ok r ∧ Stashed t q r run.fs

/-- **Atomicity of `stash_move` on error.** It holds exactly when, for a move the checks let
through, no failure damages the origin, or an older entry of the stash already holds it. -/
theorem stashMove_atomic_iff (t : Disk FileData) (faults : MoveFaults) (clock : StashClock)
    (jsonLength : StashManifest → Nat) (origin root : String) (userProtected : List String) :
    AtomicOnError t origin root
        (stashMove t faults clock jsonLength origin root userProtected) ↔
      ∀ fs p, stashPreflight t faults clock origin root userProtected = (fs, .ok p) →
        Damages t faults fs p → Stashed t p.origin p.root fs := by
  unfold stashMove stashMoveInner
  cases hpre : stashPreflight t faults clock origin root userProtected with
  | mk fs r =>
    cases r with
    | error e =>
      -- refused: nothing was taken from anywhere
      have hgrown := stashPreflight_extends t faults clock origin root userProtected
      rw [hpre] at hgrown
      constructor
      · intro _ fs' p hno
        simp at hno
      · intro _ e' _ q _
        exact Or.inl fun rel entry hentry => hgrown _ _ hentry
    | ok p =>
      obtain ⟨hfs, hroot, hready⟩ := stashPreflight_ready hpre
      dsimp only
      constructor
      · intro hatomic fs' p' heq hdamage
        obtain ⟨rfl, rfl⟩ : fs = fs' ∧ p = p' := by simpa using heq
        obtain ⟨⟨e, herr⟩, hlost, hstashed⟩ :=
          completeMove_damaged clock jsonLength false hready hdamage
        rcases hatomic e herr p.origin hready.canonical with hintact | ⟨r, hr, hin⟩
        · exact absurd hintact hlost
        · rw [← hfs, hroot] at hr
          obtain rfl := Except.ok.inj hr
          exact hstashed.mp hin
      · intro hsafe e herr q hq
        obtain rfl := Except.ok.inj (hready.canonical.symm.trans hq)
        by_cases hdamage : Damages t faults fs p
        · obtain ⟨-, -, hstashed⟩ := completeMove_damaged clock jsonLength false hready hdamage
          right
          exact ⟨p.root, hfs ▸ hroot, hstashed.mpr (hsafe fs p rfl hdamage)⟩
        · exact Or.inl (completeMove_intact clock jsonLength false hready hdamage herr)

/-! ## Two failures that damage -/

/-- Where no entry has the manifest's name, nothing is stashed. -/
theorem not_stashed_of_keys {t : Disk FileData} {q root : Location} {after : Fs FileData}
    (h : ∀ k ∈ after.keys, k.getLast? ≠ some manifestName) : ¬ Stashed t q root after := by
  rintro ⟨name, m, hread, -⟩
  unfold readManifest at hread
  cases hlook : after.lookup (root ++ [name] ++ [manifestName]) with
  | none => simp [hlook] at hread
  | some e =>
    have hkey : root ++ [name] ++ [manifestName] ∈ after.keys :=
      AList.mem_keys.mp (AList.lookup_isSome.mp (by rw [hlook]; rfl))
    exact h _ hkey (by simp)

def stashName : Name := ⟨"stash", by decide⟩

def cacheName : Name := ⟨"cache", by decide⟩

def dataName : Name := ⟨"data", by decide⟩

/-- `/cache/data` and an empty `/stash`. -/
def cacheTree : Disk FileData where
  fs := (((∅ : Fs FileData).insert [stashName] .dir).insert [cacheName] .dir).insert
    [cacheName, dataName] (.file (.bytes [1]))
  closed := FileTree.closed_of_keys (by decide)
  cwd := []
  cwd_dir := rfl

def stashCache (faults : MoveFaults) : StashRun :=
  stashMove cacheTree faults ⟨0, 0⟩ (fun _ => 0) "/cache" "/stash" []

/-- An error that took the file out, with no manifest anywhere, is not atomic. -/
theorem cache_not_atomic {faults : MoveFaults}
    (herr : (stashCache faults).result.toOption = none)
    (hlost : (stashCache faults).fs.lookup [cacheName, dataName] = none)
    (hkeys : ∀ k ∈ (stashCache faults).fs.keys, k.getLast? ≠ some manifestName) :
    ¬ AtomicOnError cacheTree "/cache" "/stash" (stashCache faults) := by
  intro h
  cases hresult : (stashCache faults).result with
  | ok m => simp [hresult, Except.toOption] at herr
  | error e =>
    rcases h e hresult [cacheName] (by rfl) with hintact | ⟨r, -, hstashed⟩
    · have := hintact [dataName] (.file (.bytes [1])) (by rfl)
      exact absurd (hlost.symm.trans this) (by simp)
    · exact not_stashed_of_keys hkeys hstashed

/-- The stash is on another device and the removal of the origin stops after the file; or the
manifest cannot be written and the data cannot be moved back. -/
theorem stashMove_damages_cache :
    ¬ AtomicOnError cacheTree "/cache" "/stash"
        (stashCache { rename := true, removeOrigin := some [[dataName]] }) ∧
      ¬ AtomicOnError cacheTree "/cache" "/stash"
        (stashCache { publish := true, moveBack := true }) :=
  ⟨cache_not_atomic (by decide +kernel) (by decide +kernel) (by decide +kernel),
    cache_not_atomic (by decide +kernel) (by decide +kernel) (by decide +kernel)⟩

end DraconGuard
