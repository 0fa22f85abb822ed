import DraconGuard.Clean.RestoreLaw

/-!
# A restore that fails can be tried again

`stash_restore` (stash.rs:506-542) keeps the manifest until the tree is home, so that a restore
that fails leaves the entry to be restored. What it leaves at the origin is another matter: the
next restore refuses an origin that exists.

| a step fails | the origin | the entry |
|---|---|---|
| the parent's directories | is not there | as it was |
| the copy | is removed, where it can be | as it was |
| the walk of the copy (`walk_stats_strict`) | stays, complete | as it was |
| the tally | is removed, where it can be | as it was |
| the removal of the entry | stays, complete | short of what was removed |

`restore_retryable_iff` says so exactly. `stash_move_inner` (stash.rs:247-252), going the other
way, removes its copy when the walk fails.
-/

namespace DraconGuard

open FileTree

/-! ## Copying, entry by entry -/

theorem lookup_copyEntries_ne {faults : MoveFaults} {dst q : Location}
    {items : List (Location × Entry FileData)} {skipped : Nat} {fs : Fs FileData}
    (h : ∀ i ∈ items, dst ++ i.1 ≠ q) :
    (copyEntries faults dst items skipped fs).1.lookup q = fs.lookup q := by
  induction items generalizing skipped fs with
  | nil => rfl
  | cons i items ih =>
    obtain ⟨rel, entry⟩ := i
    have htail : ∀ i ∈ items, dst ++ i.1 ≠ q := fun i hi => h i (List.mem_cons_of_mem _ hi)
    unfold copyEntries
    split
    · rfl
    · split
      · exact ih htail
      · rw [ih htail, AList.lookup_insert_ne (h (rel, entry) List.mem_cons_self).symm]

/-- Where a copy is to go is a directory once the copy has begun. -/
theorem lookup_copyTree_dst (faults : MoveFaults) (src dst : Location) (fs : Fs FileData) :
    (copyTree faults src dst fs).1.lookup dst =
      if faults.copyEntry [] then fs.lookup dst else some .dir := by
  unfold copyTree
  split
  · rfl
  · rw [lookup_copyEntries_ne, AList.lookup_insert]
    rintro ⟨rel, entry⟩ hi heq
    have hrel : rel ≠ [] := by simpa using List.of_mem_filter hi
    exact hrel (by simpa using heq)

/-! ## What a restore can leave behind -/

/-- `symlink_metadata` finds nothing at a path. -/
def Absent (fs : Fs FileData) (cwd : Location) (text : String) : Prop :=
  ∀ r, lstat fs cwd text ≠ .ok r

/-- A restore that fails leaves the origin as absent as it was, and the entry as it was. -/
def RestoreRetryable (t : Disk FileData) (faults : RestoreFaults) (root name : String) : Prop :=
  ∀ e, (stashRestore t.fs t.cwd faults root name).2 = .error e →
    ∀ entry m, resolveEntryDir t.fs t.cwd root name = .ok entry →
      readManifest t.fs entry = some m →
        (Absent t.fs t.cwd m.origin →
            Absent (stashRestore t.fs t.cwd faults root name).1 t.cwd m.origin) ∧
          ∀ rel, (stashRestore t.fs t.cwd faults root name).1.lookup (entry ++ rel) =
            t.fs.lookup (entry ++ rel)

/-- A manifest as `stash_move_inner` writes it: the origin is spelled from the root, without
`.` and `..`. -/
def StashManifest.Recorded (m : StashManifest) (dirs : List Name) (n : Name) : Prop :=
  m.origin = render (dirs ++ [n]) ∧ ∀ c ∈ dirs ++ [n], c.isPlain = true

/-- A directory is displayed as a path from the root, in text. -/
theorem recorded_of_display {m : StashManifest} {q : Location} (hne : q ≠ [])
    (hplain : ∀ n ∈ q, n.isPlain = true) (hm : m.origin = display q) :
    ∃ dirs n, m.Recorded dirs n ∧ n.isUtf8 = true := by
  have hne' : displayed q ≠ [] := by simpa [displayed] using hne
  have hsplit : (displayed q).dropLast ++ [(displayed q).getLast hne'] = displayed q :=
    List.dropLast_append_getLast _
  refine ⟨_, _, ⟨by rw [hsplit, hm]; rfl, fun c hc => ?_⟩, ?_⟩
  · rw [hsplit] at hc
    obtain ⟨n, hn, rfl⟩ := List.mem_map.mp hc
    exact Name.isPlain_lossy (hplain n hn)
  · obtain ⟨n, -, heq⟩ := List.mem_map.mp (List.getLast_mem hne')
    rw [← heq]
    exact Name.isUtf8_lossy n

/-- What a move writes is so. -/
theorem stashMove_recorded (t : Mount FileData) (faults : MoveFaults) (clock : StashClock)
    (jsonLength : StashManifest → Nat) (origin root : String) (userProtected : List String)
    {m : StashManifest}
    (hmove : (stashMove t.toDisk faults clock jsonLength origin root userProtected).result = .ok m) :
    ∃ dirs n, m.Recorded dirs n := by
  unfold stashMove stashMoveInner at hmove
  cases hpre : stashPreflight t.toDisk faults clock origin root userProtected with
  | mk fs r =>
    rw [hpre] at hmove
    cases r with
    | error e => cases hmove
    | ok p =>
      obtain ⟨-, -, hready⟩ := stashPreflight_ready hpre
      obtain ⟨hm, -⟩ := completeMove_ok hready hmove
      have hne : p.origin ≠ [] := fun hnil => hready.apart.2 (hnil ▸ List.nil_prefix)
      have hplain := t.plain p.origin (by rw [hready.origin_dir]; rfl)
      obtain ⟨dirs, n, hrecorded, -⟩ := recorded_of_display (m := m) hne hplain (by rw [hm])
      exact ⟨dirs, n, hrecorded⟩

/-- The restore gets to the directory the origin goes to. -/
structure Homebound (t : Disk FileData) (faults : RestoreFaults) (root name : String)
    (m : StashManifest) (entry parent : Location) (dirs : List Name) (n : Name) : Prop where
  resolved : resolveEntryDir t.fs t.cwd root name = .ok entry
  reads : faults.readManifest = false
  manifest : readManifest t.fs entry = some m
  recorded : m.Recorded dirs n
  absent : Absent t.fs t.cwd m.origin
  made : (makeDirs t.fs [] dirs).2 = .ok parent

/-- The directory the origin goes to was made in the entry. -/
def GrowsEntry (fs : Fs FileData) (entry parent : Location) : Prop :=
  entry <+: parent ∧ entryAt fs parent = none

/-- The tree can be copied: nothing in it is in the way, and the copy is not into the entry. -/
def CopyableHome (faults : RestoreFaults) (fs : Fs FileData) (entry home : Location) : Prop :=
  Copyable faults.copying fs entry ∧ ¬ entry <+: home

/-- What the copy is counted as: the entry without the manifest, if that can be dropped. -/
def tally (faults : RestoreFaults) (fs : Fs FileData) (entry : Location) : Nat × Nat :=
  walkStats (dropManifest faults entry fs) entry

/-- The failures that leave the copy behind. -/
inductive Strands (faults : RestoreFaults) (m : StashManifest) (entry home : Location)
    (fs : Fs FileData) : Prop where
  | uncopied (hbegun : faults.copyEntry [] = false) (hcopy : ¬ CopyableHome faults fs entry home)
      (hcleanup : faults.cleanup.isSome)
  | unwalked (hcopy : CopyableHome faults fs entry home) (hwalk : faults.walkOrigin = true)
  | miscounted (hcopy : CopyableHome faults fs entry home) (hwalk : faults.walkOrigin = false)
      (hcount : tally faults fs entry ≠ (m.files, m.bytes)) (hcleanup : faults.cleanup.isSome)
  | unremoved (hcopy : CopyableHome faults fs entry home) (hwalk : faults.walkOrigin = false)
      (hcount : tally faults fs entry = (m.files, m.bytes)) (hremove : faults.removeEntry.isSome)

/-- The tree goes home by copy. -/
def ByCopy (faults : RestoreFaults) (entry home : Location) : Prop :=
  faults.rename = true ∨ entry <+: home

/-! ## The steps after the parent is there -/

section Steps

variable {faults : RestoreFaults} {m : StashManifest} {entry home : Location}
  {made : Fs FileData}

/-- The entry is there, and nothing is where it is to go. -/
structure HomeFree (made : Fs FileData) (entry home : Location) : Prop where
  entry_dir : made.lookup entry = some .dir
  free : ∀ rel, made.lookup (home ++ rel) = none
  home_ne : home ≠ []

theorem HomeFree.not_above (h : HomeFree made entry home) : ¬ home <+: entry := by
  rintro ⟨rel, rfl⟩
  have hdir := h.entry_dir
  rw [h.free rel] at hdir
  cases hdir

theorem HomeFree.apart (h : HomeFree made entry home) (hout : ¬ entry <+: home) :
    Apart home entry := ⟨h.not_above, hout⟩

theorem HomeFree.entryAt_home (h : HomeFree made entry home) : entryAt made home = none := by
  have hfree := h.free []
  rw [List.append_nil] at hfree
  rw [entryAt, if_neg h.home_ne, hfree]

theorem moveHome_rename (h : HomeFree made entry home) (hway : ¬ ByCopy faults entry home) :
    moveHome faults m entry home made =
      (dropManifest faults home (FileTree.rename entry home made), .ok m.origin) := by
  obtain ⟨hrename, hout⟩ := not_or.mp hway
  have hout' : entry.isPrefixOf home = false := by
    rw [Bool.eq_false_iff]
    exact fun hpre => hout (List.isPrefixOf_iff_prefix.mp hpre)
  simp [moveHome, hrename, h.entryAt_home, hout']

/-- On the copy path the rename comes to nothing. -/
theorem byCopy_eq_true (hway : ByCopy faults entry home) :
    (faults.rename || (entryAt made home).isSome || entry.isPrefixOf home) = true := by
  rcases hway with hrename | hin
  · simp [hrename]
  · simp [List.isPrefixOf_iff_prefix.mpr hin]

/-- **A copy that fails is removed**, as far as that goes. -/
theorem moveHome_uncopied (hway : ByCopy faults entry home)
    (hcopy : ¬ CopyableHome faults made entry home) :
    ∃ e, moveHome faults m entry home made =
      ((removeDirAllAt home faults.cleanup
        (copyTree faults.copying entry home made).1).1, .error e) := by
  unfold moveHome
  rw [byCopy_eq_true hway]
  simp only [Bool.not_true, Bool.false_eq_true, if_false]
  cases hrun : copyTree faults.copying entry home made with
  | mk copied r =>
    cases r with
    | error e => exact ⟨e, rfl⟩
    | ok k =>
      have hin : entry.isPrefixOf home = true := by
        by_contra hout
        have hcopyable : Copyable faults.copying made entry := by
          by_contra hno
          obtain ⟨e, he⟩ := copyTree_error home hno
          rw [hrun] at he
          cases he
        exact hcopy ⟨hcopyable, fun hpre => hout (List.isPrefixOf_iff_prefix.mpr hpre)⟩
      dsimp only
      rw [if_pos hin]
      exact ⟨_, rfl⟩

/-- The copy without its manifest is counted as the entry is. -/
theorem tally_copied {copied : Fs FileData}
    (hlook : ∀ rel, copied.lookup (home ++ rel) =
      (made.lookup (entry ++ rel)).filter (· ≠ .special)) :
    walkStats (dropManifest faults home copied) home = tally faults made entry := by
  refine walkStats_congr fun rel data => ?_
  have hcarried : copied.lookup (home ++ rel) = some (.file data) ↔
      made.lookup (entry ++ rel) = some (.file data) := by
    rw [hlook]
    cases made.lookup (entry ++ rel) with
    | none => simp
    | some e => cases e <;> simp [Option.filter]
  by_cases hrel : rel = [manifestName]
  · subst hrel
    rw [lookup_dropManifest_self, lookup_dropManifest_self]
    split
    · exact hcarried
    · exact Iff.rfl
  · rw [lookup_dropManifest _ hrel, lookup_dropManifest _ hrel]
    exact hcarried

/-- **A copy that is complete**, and what the steps after it come to. -/
theorem moveHome_complete (h : HomeFree made entry home) (hway : ByCopy faults entry home)
    (hcopy : CopyableHome faults made entry home) :
    ∃ copied, (∀ p, ¬ home <+: p → copied.lookup p = made.lookup p) ∧
      (∀ rel, copied.lookup (home ++ rel) = none ∨
        copied.lookup (home ++ rel) = made.lookup (entry ++ rel)) ∧
      copied.lookup home = some .dir ∧
      moveHome faults m entry home made =
        if faults.walkOrigin then (copied, .error faults.ioError)
        else if tally faults made entry ≠ (m.files, m.bytes) then
          ((removeDirAllAt home faults.cleanup copied).1,
            .error "restore verification failed — stash entry kept")
        else match removeDirAllAt entry faults.removeEntry copied with
          | (fs, true) => (fs, .ok m.origin)
          | (fs, false) => (fs, .error faults.ioError) := by
  obtain ⟨copied, k, hrun, hlook⟩ := copyTree_ok h.entry_dir h.free hcopy.1
  have hout : ¬ entry.isPrefixOf home = true := fun hpre =>
    hcopy.2 (List.isPrefixOf_iff_prefix.mp hpre)
  have hin : ∀ rel, copied.lookup (home ++ rel) = none ∨
      copied.lookup (home ++ rel) = made.lookup (entry ++ rel) := by
    intro rel
    rw [hlook]
    cases made.lookup (entry ++ rel) with
    | none => exact Or.inl rfl
    | some e => by_cases he : e = .special <;> simp [Option.filter, he]
  refine ⟨dropManifest faults home copied, fun p hp => ?_, fun rel => ?_, ?_, ?_⟩
  · rw [lookup_dropManifest_other _ hp]
    have hother := lookup_copyTree_other faults.copying entry made hp
    rwa [hrun] at hother
  · by_cases hrel : rel = [manifestName]
    · subst hrel
      rw [lookup_dropManifest_self]
      split
      · exact hin _
      · exact Or.inl rfl
    · rw [lookup_dropManifest _ hrel]
      exact hin rel
  · have hroot := @lookup_dropManifest faults [] copied (by simp) home
    rw [List.append_nil] at hroot
    have hdir := hlook []
    rw [List.append_nil, List.append_nil, h.entry_dir] at hdir
    rw [hroot, hdir]
    rfl
  · unfold moveHome
    rw [byCopy_eq_true hway, hrun]
    simp only [Bool.not_true, Bool.false_eq_true, if_false, hout, tally_copied hlook] <;> rfl

/-- What a cleaned-up copy leaves: what there was, but for a copy that could not be removed. -/
theorem lookup_cleaned (hfree : ∀ rel, made.lookup (home ++ rel) = none) {copied : Fs FileData}
    (hother : ∀ p, ¬ home <+: p → copied.lookup p = made.lookup p)
    (hclean : faults.cleanup = none ∨ ∀ p, copied.lookup p = made.lookup p) (p : Location) :
    (removeDirAllAt home faults.cleanup copied).1.lookup p = made.lookup p := by
  by_cases hp : home <+: p
  · obtain ⟨rel, rfl⟩ := hp
    rw [hfree rel]
    cases hstop : faults.cleanup with
    | none => simp [removeDirAllAt]
    | some gone =>
      rcases hclean with hnone | hsame
      · rw [hnone] at hstop
        cases hstop
      · unfold removeDirAllAt
        rw [lookup_foldl_erase, hsame, hfree rel, ite_self]
  · rw [lookup_removeDirAllAt_other _ _ hp, hother p hp]

/-- **A failure that strands nothing** leaves everything as it was. -/
theorem moveHome_unstranded (h : HomeFree made entry home)
    (hsafe : ByCopy faults entry home → ¬ Strands faults m entry home made) {e : String}
    (herr : (moveHome faults m entry home made).2 = .error e) (p : Location) :
    (moveHome faults m entry home made).1.lookup p = made.lookup p := by
  by_cases hway : ByCopy faults entry home
  · have hsafe := hsafe hway
    by_cases hcopy : CopyableHome faults made entry home
    · obtain ⟨copied, hother, -, -, heq⟩ := moveHome_complete (m := m) h hway hcopy
      rw [heq] at herr ⊢
      by_cases hwalk : faults.walkOrigin = true
      · exact absurd (.unwalked hcopy hwalk) hsafe
      rw [if_neg hwalk] at herr ⊢
      have hwalk' : faults.walkOrigin = false := by simpa using hwalk
      by_cases hcount : tally faults made entry = (m.files, m.bytes)
      · rw [if_neg (by simp [hcount])] at herr
        cases hremove : faults.removeEntry with
        | none => simp [removeDirAllAt, hremove] at herr
        | some gone => exact absurd (.unremoved hcopy hwalk' hcount (by simp [hremove])) hsafe
      · rw [if_pos hcount]
        refine lookup_cleaned h.free hother (Or.inl ?_) p
        by_contra hcleanup
        exact hsafe (.miscounted hcopy hwalk' hcount (Option.isSome_iff_ne_none.mpr hcleanup))
    · obtain ⟨e', heq⟩ := moveHome_uncopied (m := m) hway hcopy
      rw [heq]
      refine lookup_cleaned h.free (fun q hq => lookup_copyTree_other _ _ _ hq) ?_ p
      by_cases hbegun : faults.copying.copyEntry [] = true
      · exact Or.inr fun q => by rw [copyTree, if_pos hbegun]
      · left
        by_contra hcleanup
        exact hsafe (.uncopied (Bool.eq_false_iff.mpr hbegun) hcopy
          (Option.isSome_iff_ne_none.mpr hcleanup))
  · rw [moveHome_rename h hway] at herr
    cases herr

/-- A removal that stops has the directory left: `rmdir` is its last step. -/
def RestoreFaults.Removal (faults : RestoreFaults) : Prop :=
  ∀ gone, faults.cleanup = some gone → [] ∉ gone

theorem lookup_cleaned_root (hremoval : faults.Removal) (hcleanup : faults.cleanup.isSome)
    (copied : Fs FileData) :
    (removeDirAllAt home faults.cleanup copied).1.lookup home = copied.lookup home := by
  obtain ⟨gone, hgone⟩ := Option.isSome_iff_exists.mp hcleanup
  rw [hgone]
  exact lookup_removeDirAllAt_self (hremoval gone hgone) copied

/-- **A stranding failure** is an error, with the copy left at home or the entry short of
something. -/
theorem moveHome_strands (h : HomeFree made entry home) (hremoval : faults.Removal)
    (hway : ByCopy faults entry home) (hstrands : Strands faults m entry home made) :
    (∃ e, (moveHome faults m entry home made).2 = .error e) ∧
      ((moveHome faults m entry home made).1.lookup home = some .dir ∧
          (∀ p, ¬ home <+: p →
            (moveHome faults m entry home made).1.lookup p = made.lookup p) ∨
        ∃ rel, (moveHome faults m entry home made).1.lookup (entry ++ rel) ≠
          made.lookup (entry ++ rel)) := by
  have hcleaned : ∀ {copied : Fs FileData}, copied.lookup home = some .dir →
      (∀ p, ¬ home <+: p → copied.lookup p = made.lookup p) → faults.cleanup.isSome →
        (removeDirAllAt home faults.cleanup copied).1.lookup home = some .dir ∧
          ∀ p, ¬ home <+: p →
            (removeDirAllAt home faults.cleanup copied).1.lookup p = made.lookup p := by
    intro copied hdir hother hcleanup
    refine ⟨(lookup_cleaned_root hremoval hcleanup copied).trans hdir, fun p hp => ?_⟩
    rw [lookup_removeDirAllAt_other _ _ hp, hother p hp]
  cases hstrands with
  | uncopied hbegun hcopy hcleanup =>
    obtain ⟨e, heq⟩ := moveHome_uncopied (m := m) hway hcopy
    rw [heq]
    refine ⟨⟨e, rfl⟩, Or.inl (hcleaned ?_ (fun p hp => lookup_copyTree_other _ _ _ hp) hcleanup)⟩
    rw [lookup_copyTree_dst, if_neg]
    simpa [RestoreFaults.copying] using hbegun
  | unwalked hcopy hwalk =>
    obtain ⟨copied, hother, -, hdir, heq⟩ := moveHome_complete (m := m) h hway hcopy
    rw [heq, if_pos hwalk]
    exact ⟨⟨_, rfl⟩, Or.inl ⟨hdir, hother⟩⟩
  | miscounted hcopy hwalk hcount hcleanup =>
    obtain ⟨copied, hother, -, hdir, heq⟩ := moveHome_complete (m := m) h hway hcopy
    rw [heq, if_neg (by simp [hwalk]), if_pos hcount]
    exact ⟨⟨_, rfl⟩, Or.inl (hcleaned hdir hother hcleanup)⟩
  | unremoved hcopy hwalk hcount hremove =>
    obtain ⟨copied, hother, -, hdir, heq⟩ := moveHome_complete (m := m) h hway hcopy
    obtain ⟨gone, hgone⟩ := Option.isSome_iff_exists.mp hremove
    rw [heq, if_neg (by simp [hwalk]), if_neg (by simp [hcount]), hgone]
    refine ⟨⟨_, rfl⟩, ?_⟩
    have hafter : ∀ p, (gone.foldl (fun m rel => m.erase (entry ++ rel)) copied).lookup p =
        if ∃ rel ∈ gone, p = entry ++ rel then none else copied.lookup p := fun p =>
      lookup_foldl_erase
    by_cases hshort : ∃ rel ∈ gone, (made.lookup (entry ++ rel)).isSome
    · obtain ⟨rel, hrel, hsome⟩ := hshort
      refine Or.inr ⟨rel, fun hsame => ?_⟩
      have hnone := (hafter (entry ++ rel)).symm.trans hsame
      rw [if_pos ⟨rel, hrel, rfl⟩] at hnone
      rw [← hnone] at hsome
      cases hsome
    · -- what the removal got to was not there
      have hkept : ∀ p, ¬ home <+: p →
          (gone.foldl (fun m rel => m.erase (entry ++ rel)) copied).lookup p = made.lookup p := by
        intro p hp
        rw [hafter p, hother p hp]
        split
        · next hgot =>
          obtain ⟨rel, hrel, rfl⟩ := hgot
          by_contra hne
          exact hshort ⟨rel, hrel, Option.isSome_iff_ne_none.mpr (Ne.symm hne)⟩
        · rfl
      refine Or.inl ⟨(hafter home).trans ?_, hkept⟩
      rw [if_neg, hdir]
      rintro ⟨rel, -, rfl⟩
      exact hcopy.2 (List.prefix_append entry rel)

end Steps

/-! ## The way to the parent -/

section Way

variable {t : Disk FileData} {faults : RestoreFaults} {root name : String} {m : StashManifest}
  {entry parent : Location} {dirs : List Name} {n : Name}

theorem StashManifest.Recorded.lstat (h : m.Recorded dirs n) (fs : Fs FileData)
    (cwd : Location) : FileTree.lstat fs cwd m.origin = lstatFrom fs [] (dirs ++ [n]) := by
  unfold FileTree.lstat
  rw [h.1, parse_render (by simp)]
  rfl

/-- Where the parent is found, the origin is there when its name is taken. -/
theorem StashManifest.Recorded.absent_iff (h : m.Recorded dirs n) {fs : Fs FileData}
    (hparent : resolveDir fs [] dirs = .ok parent) (cwd : Location) :
    Absent fs cwd m.origin ↔ fs.lookup (parent ++ [n]) = none := by
  unfold Absent
  rw [h.lstat, lstatFrom_concat (h.2 n (by simp)), hparent]
  dsimp only
  cases fs.lookup (parent ++ [n]) with
  | none => simp
  | some e => simp

theorem StashManifest.Recorded.absent_of_error (h : m.Recorded dirs n) {fs : Fs FileData}
    {e : Errno} (hparent : resolveDir fs [] dirs = .error e) (cwd : Location) :
    Absent fs cwd m.origin := by
  intro r hr
  rw [h.lstat, lstatFrom_concat (h.2 n (by simp)), hparent] at hr
  cases hr

/-- The directories on the way are made, and the tree is moved. -/
theorem Homebound.stashRestore (h : Homebound t faults root name m entry parent dirs n) :
    DraconGuard.stashRestore t.fs t.cwd faults root name =
      if faults.makeParent then ((makeDirs t.fs [] dirs).1, .error faults.ioError)
      else match resolveDir (makeDirs t.fs [] dirs).1 [] dirs with
        | .error e => ((makeDirs t.fs [] dirs).1, .error e.message)
        | .ok _ => moveHome faults m entry (parent ++ [n]) (makeDirs t.fs [] dirs).1 := by
  unfold DraconGuard.stashRestore
  rw [h.resolved]
  dsimp only
  rw [h.reads, h.manifest]
  simp only [Bool.false_eq_true, if_false]
  cases hstat : FileTree.lstat t.fs t.cwd m.origin with
  | ok r => exact absurd hstat (h.absent r)
  | error e =>
    dsimp only
    rw [h.recorded.1, pathParts_render (by simp) h.recorded.2]
    dsimp only
    rw [List.dropLast_concat, List.getLast?_append_cons, List.getLast?_singleton]
    have hmade := h.made
    cases hrun : makeDirs t.fs [] dirs with
    | mk made r =>
      rw [hrun] at hmade
      obtain rfl : r = .ok parent := hmade
      dsimp only
      cases hway : resolveDir made [] dirs with
      | error e => rfl
      | ok q =>
        have hq : q = parent := by
          have hsame := @makeDirs_resolve _ t.fs [] parent q dirs maxLinks
          rw [hrun] at hsame
          exact hsame rfl (resolveDir_eq_ok.mp hway).1
        have hlast : n.text ≠ ".." := by
          have hplain := h.recorded.2 n (by simp)
          simp [Name.isPlain] at hplain
          exact hplain.2
        dsimp only [Option.elim]
        rw [hq, childAt, if_neg hlast]

/-- Refused, or stopped on the way to the parent, a restore leaves everything as it was. -/
theorem stashRestore_unbound (hentry : resolveEntryDir t.fs t.cwd root name = .ok entry)
    (hmanifest : readManifest t.fs entry = some m) (hm : m.Recorded dirs n)
    (hbound : ¬ ∃ parent, Homebound t faults root name m entry parent dirs n) :
    (DraconGuard.stashRestore t.fs t.cwd faults root name).1 = t.fs := by
  unfold DraconGuard.stashRestore
  rw [hentry]
  dsimp only
  cases hreads : faults.readManifest with
  | true => rfl
  | false =>
    simp only [Bool.false_eq_true, if_false, hmanifest]
    split
    · rfl
    next hstat =>
    rw [hm.1, pathParts_render (by simp) hm.2]
    dsimp only
    rw [List.dropLast_concat]
    cases hmade : makeDirs t.fs [] dirs with
    | mk made r =>
      cases r with
      | error e =>
        have hplain : ∀ c ∈ dirs, c.isPlain = true := fun c hc => hm.2 c (by simp [hc])
        have hroot : entryAt t.fs [] = some .dir := rfl
        rcases makeDirs_plain t.closed hplain hroot with hsame | ⟨q, hq, -⟩
        · rw [hmade] at hsame
          exact hsame
        · rw [hmade] at hq
          cases hq
      | ok parent =>
        refine absurd ⟨parent, hentry, hreads, hmanifest, hm, fun r hr => ?_, ?_⟩ hbound
        · rw [hstat] at hr
          cases hr
        · rw [hmade]

theorem Homebound.entry_dir (h : Homebound t faults root name m entry parent dirs n) :
    t.fs.lookup entry = some .dir := by
  have hmanifest := h.manifest
  unfold readManifest at hmanifest
  have hsome : (t.fs.lookup (entry ++ [manifestName])).isSome := by
    cases hlook : t.fs.lookup (entry ++ [manifestName]) with
    | none => simp [hlook] at hmanifest
    | some e => rfl
  have hne : entry ≠ [] := by
    rintro rfl
    have hresolved := h.resolved
    unfold resolveEntryDir at hresolved
    repeat' split at hresolved
    all_goals simp at hresolved
  have hdir := t.closed entry manifestName hsome
  rwa [entryAt, if_neg hne] at hdir

theorem Homebound.covers (_h : Homebound t faults root name m entry parent dirs n) :
    Covers t.fs (makeDirs t.fs [] dirs).1 := covers_makeDirs t.fs [] dirs

/-- Everything is as it was, or the parent is new and what was made is on the way to it. -/
theorem Homebound.made_or (h : Homebound t faults root name m entry parent dirs n) :
    (makeDirs t.fs [] dirs).1 = t.fs ∨ entryAt t.fs parent = none ∧
      ∀ p, (makeDirs t.fs [] dirs).1.lookup p = t.fs.lookup p ∨ p <+: parent := by
  have hplain : ∀ c ∈ dirs, c.isPlain = true := fun c hc => h.recorded.2 c (by simp [hc])
  have hroot : entryAt t.fs [] = some .dir := rfl
  rcases makeDirs_plain t.closed hplain hroot with hsame | ⟨q, hq, hnone, hlook⟩
  · exact Or.inl hsame
  · obtain rfl : parent = q := Except.ok.inj (h.made.symm.trans hq)
    exact Or.inr ⟨hnone, hlook⟩

/-- The tree is the one there was, where nothing was made in it. -/
theorem Homebound.lookup_entry (h : Homebound t faults root name m entry parent dirs n)
    (hgrows : ¬ GrowsEntry t.fs entry parent) (rel : Location) :
    (makeDirs t.fs [] dirs).1.lookup (entry ++ rel) = t.fs.lookup (entry ++ rel) := by
  rcases h.made_or with hsame | ⟨hnone, hlook⟩
  · rw [hsame]
  · rcases hlook (entry ++ rel) with hsame | hp
    · exact hsame
    · exact absurd ⟨(List.prefix_append entry rel).trans hp, hnone⟩ hgrows

/-- Once the parent is found, there is room for the origin in it. -/
theorem Homebound.homeFree (h : Homebound t faults root name m entry parent dirs n)
    (hparent : resolveDir (makeDirs t.fs [] dirs).1 [] dirs = .ok parent) :
    HomeFree (makeDirs t.fs [] dirs).1 entry (parent ++ [n]) := by
  have hclosed : Closed (makeDirs t.fs [] dirs).1 := t.closed.makeDirs rfl
  have hfree : (makeDirs t.fs [] dirs).1.lookup (parent ++ [n]) = none := by
    rcases h.made_or with hsame | ⟨hnone, hlook⟩
    · rw [hsame] at hparent ⊢
      exact (h.recorded.absent_iff hparent t.cwd).mp h.absent
    · rcases hlook (parent ++ [n]) with hsame | hin
      · rw [hsame]
        have hbelow := t.closed.none_below hnone [n]
        rwa [entryAt_concat] at hbelow
      · have hlen := hin.length_le
        rw [List.length_append, List.length_singleton] at hlen
        omega
  refine ⟨h.covers _ _ h.entry_dir, fun rel => ?_, by simp⟩
  have hbelow := hclosed.none_below (by rw [entryAt_concat, hfree]) rel
  rwa [entryAt, if_neg (by simp)] at hbelow

/-- Off the origin's place as before, the parent is where it was. -/
theorem Homebound.absent_after (h : Homebound t faults root name m entry parent dirs n)
    (hparent : resolveDir (makeDirs t.fs [] dirs).1 [] dirs = .ok parent) {after : Fs FileData}
    (hoff : ∀ p, ¬ parent ++ [n] <+: p → after.lookup p = (makeDirs t.fs [] dirs).1.lookup p) :
    Absent after t.cwd m.origin ↔ after.lookup (parent ++ [n]) = none := by
  have hhome := h.homeFree hparent
  have hcovers : Covers (makeDirs t.fs [] dirs).1 after := by
    intro q e hq
    rw [hoff q]
    · exact hq
    · rintro ⟨rel, rfl⟩
      rw [hhome.free rel] at hq
      cases hq
  exact h.recorded.absent_iff (hcovers.resolveDir hparent) t.cwd

/-- Nothing at the origin comes of making its parent. -/
theorem Homebound.absent_of_made (h : Homebound t faults root name m entry parent dirs n)
    {after : Fs FileData} (hsame : ∀ p, after.lookup p = (makeDirs t.fs [] dirs).1.lookup p) :
    Absent after t.cwd m.origin := by
  cases hafter : resolveDir after [] dirs with
  | error e => exact h.recorded.absent_of_error hafter t.cwd
  | ok q =>
    have hcovers : Covers after (makeDirs t.fs [] dirs).1 := fun q e hq => hsame q ▸ hq
    have hway := hcovers.resolveDir hafter
    obtain rfl : q = parent := makeDirs_resolve h.made (resolveDir_eq_ok.mp hway).1
    rw [h.absent_after hway fun p _ => hsame p, hsame, ← List.append_nil (q ++ [n])]
    exact (h.homeFree hway).free []

end Way

/-! ## When a restore can be tried again -/

/-- The failures, with the way home as it is, after which things are not as they were. -/
def LeavesBehind (t : Disk FileData) (faults : RestoreFaults) (m : StashManifest)
    (entry parent : Location) (dirs : List Name) (n : Name) : Prop :=
  GrowsEntry t.fs entry parent ∨
    faults.makeParent = false ∧ resolveDir (makeDirs t.fs [] dirs).1 [] dirs = .ok parent ∧
      ByCopy faults entry (parent ++ [n]) ∧ Strands faults m entry (parent ++ [n]) t.fs

section Retry

variable {t : Disk FileData} {faults : RestoreFaults} {root name : String} {m : StashManifest}
  {entry parent : Location} {dirs : List Name} {n : Name}

theorem tally_congr {fs fs' : Fs FileData}
    (h : ∀ rel, fs.lookup (entry ++ rel) = fs'.lookup (entry ++ rel)) :
    tally faults fs entry = tally faults fs' entry := by
  refine walkStats_congr fun rel data => ?_
  by_cases hrel : rel = [manifestName]
  · subst hrel
    rw [lookup_dropManifest_self, lookup_dropManifest_self, h]
  · rw [lookup_dropManifest _ hrel, lookup_dropManifest _ hrel, h]

theorem copyableHome_congr {fs fs' : Fs FileData} {home : Location}
    (h : ∀ rel, fs.lookup (entry ++ rel) = fs'.lookup (entry ++ rel)) :
    CopyableHome faults fs entry home ↔ CopyableHome faults fs' entry home := by
  unfold CopyableHome Copyable
  simp only [h]

/-- What is stranded depends on the entry's tree alone. -/
theorem Strands.congr {fs fs' : Fs FileData} {home : Location}
    (h : ∀ rel, fs.lookup (entry ++ rel) = fs'.lookup (entry ++ rel))
    (hstrands : Strands faults m entry home fs) : Strands faults m entry home fs' := by
  have hcopy : CopyableHome faults fs entry home ↔ CopyableHome faults fs' entry home :=
    copyableHome_congr h
  have htally : tally faults fs entry = tally faults fs' entry := tally_congr h
  cases hstrands with
  | uncopied hbegun hno hcleanup => exact .uncopied hbegun (fun hyes => hno (hcopy.mpr hyes)) hcleanup
  | unwalked hyes hwalk => exact .unwalked (hcopy.mp hyes) hwalk
  | miscounted hyes hwalk hcount hcleanup =>
    exact .miscounted (hcopy.mp hyes) hwalk (htally ▸ hcount) hcleanup
  | unremoved hyes hwalk hcount hremove =>
    exact .unremoved (hcopy.mp hyes) hwalk (htally ▸ hcount) hremove

/-- **With nothing left behind** all is as it was, but for directories on the way. -/
theorem Homebound.unchanged (h : Homebound t faults root name m entry parent dirs n)
    (hclean : ¬ LeavesBehind t faults m entry parent dirs n) {e : String}
    (herr : (DraconGuard.stashRestore t.fs t.cwd faults root name).2 = .error e) (p : Location) :
    (DraconGuard.stashRestore t.fs t.cwd faults root name).1.lookup p =
      (makeDirs t.fs [] dirs).1.lookup p := by
  obtain ⟨hgrows, hstrands⟩ := not_or.mp hclean
  rw [h.stashRestore] at herr ⊢
  by_cases hmake : faults.makeParent = true
  · rw [if_pos hmake]
  rw [if_neg hmake] at herr ⊢
  cases hway : resolveDir (makeDirs t.fs [] dirs).1 [] dirs with
  | error e => rfl
  | ok q =>
    obtain rfl : q = parent := makeDirs_resolve h.made (resolveDir_eq_ok.mp hway).1
    rw [hway] at herr
    dsimp only at herr ⊢
    refine moveHome_unstranded (h.homeFree hway) (fun hcopy hleft => hstrands ?_) herr p
    exact ⟨by simpa using hmake, hway, hcopy, hleft.congr (h.lookup_entry hgrows)⟩

/-- **What is left behind** is at the origin, or is missing from the entry, or is new in it. -/
theorem Homebound.changed (h : Homebound t faults root name m entry parent dirs n)
    (hremoval : faults.Removal) (hleft : LeavesBehind t faults m entry parent dirs n) :
    (∃ e, (DraconGuard.stashRestore t.fs t.cwd faults root name).2 = .error e) ∧
      (¬ Absent (DraconGuard.stashRestore t.fs t.cwd faults root name).1 t.cwd m.origin ∨
        ∃ rel, (DraconGuard.stashRestore t.fs t.cwd faults root name).1.lookup (entry ++ rel) ≠
          t.fs.lookup (entry ++ rel)) := by
  by_cases hgrows : GrowsEntry t.fs entry parent
  · -- the new parent stays, whatever fails
    obtain ⟨⟨rel, rfl⟩, hnone⟩ := hgrows
    have hdir : (makeDirs t.fs [] dirs).1.lookup (entry ++ rel) ≠
        t.fs.lookup (entry ++ rel) := by
      intro heq
      have hmade := entryAt_of_makeDirs rfl h.made
      unfold entryAt at hnone hmade
      split at hnone
      · cases hnone
      next hroot =>
      rw [if_neg hroot, heq, hnone] at hmade
      cases hmade
    have hoff : ¬ entry ++ rel ++ [n] <+: entry ++ rel := by
      intro hpre
      have hlen := hpre.length_le
      rw [List.length_append, List.length_singleton] at hlen
      omega
    have hin : entry <+: entry ++ rel ++ [n] :=
      (List.prefix_append entry rel).trans (List.prefix_append _ [n])
    rw [h.stashRestore]
    by_cases hmake : faults.makeParent = true
    · rw [if_pos hmake]
      exact ⟨⟨_, rfl⟩, Or.inr ⟨rel, hdir⟩⟩
    rw [if_neg hmake]
    cases hway : resolveDir (makeDirs t.fs [] dirs).1 [] dirs with
    | error e => exact ⟨⟨_, rfl⟩, Or.inr ⟨rel, hdir⟩⟩
    | ok q =>
      obtain ⟨e, heq⟩ := @moveHome_uncopied faults m entry (entry ++ rel ++ [n])
        (makeDirs t.fs [] dirs).1 (Or.inr hin) fun hcopy => hcopy.2 hin
      dsimp only
      rw [heq]
      refine ⟨⟨e, rfl⟩, Or.inr ⟨rel, ?_⟩⟩
      rw [lookup_removeDirAllAt_other _ _ hoff, lookup_copyTree_other _ _ _ hoff]
      exact hdir
  · obtain ⟨hmake, hway, hcopy, hstrands⟩ := hleft.resolve_left hgrows
    have hsame := h.lookup_entry hgrows
    rw [h.stashRestore, if_neg (by simp [hmake]), hway]
    dsimp only
    obtain ⟨herr, hout⟩ := moveHome_strands (h.homeFree hway) hremoval hcopy
      (hstrands.congr fun rel => (hsame rel).symm)
    refine ⟨herr, ?_⟩
    rcases hout with ⟨hdir, hoff⟩ | ⟨rel, hne⟩
    · left
      rw [h.absent_after hway hoff, hdir]
      exact fun hnone => nomatch hnone
    · exact Or.inr ⟨rel, fun heq => hne (heq.trans (hsame rel).symm)⟩

theorem resolveEntryDir_covers {fs fs' : Fs FileData} (h : Covers fs fs') {cwd : Location}
    (hentry : resolveEntryDir fs cwd root name = .ok entry) :
    resolveEntryDir fs' cwd root name = .ok entry := by
  unfold resolveEntryDir at hentry ⊢
  split at hentry
  · cases hentry
  next hname =>
  rw [if_neg hname]
  cases hn : Name.ofChars? name.toList with
  | none => simp [hn] at hentry
  | some c =>
    rw [hn] at hentry
    cases hroot : canonicalize fs cwd root with
    | error e => simp [hroot] at hentry
    | ok canonRoot =>
      rw [hroot] at hentry
      rw [h.canonicalize hroot]
      dsimp only at hentry ⊢
      split at hentry
      · next hdir => rw [h _ _ hdir, hentry]
      · cases hentry
      · cases hentry

/-- **The restore can be tried again.** With nothing left behind, and a way home, the next one
succeeds when none of its steps fails. -/
theorem Homebound.retry (h : Homebound t faults root name m entry parent dirs n)
    (hclean : ¬ LeavesBehind t faults m entry parent dirs n) {e : String}
    (herr : (DraconGuard.stashRestore t.fs t.cwd faults root name).2 = .error e)
    (hway : resolveDir (makeDirs t.fs [] dirs).1 [] dirs = .ok parent)
    (hout : ¬ entry <+: parent ++ [n]) :
    (DraconGuard.stashRestore (DraconGuard.stashRestore t.fs t.cwd faults root name).1 t.cwd {}
      root name).2 = .ok m.origin := by
  have hall := h.unchanged hclean herr
  have habsent := h.absent_of_made hall
  have hentry := fun rel => h.lookup_entry (fun hgrows => hclean (Or.inl hgrows)) rel
  generalize (DraconGuard.stashRestore t.fs t.cwd faults root name).1 = after at hall habsent ⊢
  have hcovers : Covers (makeDirs t.fs [] dirs).1 after := fun q e hq => (hall q).trans hq
  have hclosed : Closed after := by
    intro q c hsome
    rw [hall] at hsome
    have hmade : Closed (makeDirs t.fs [] dirs).1 := t.closed.makeDirs rfl
    exact hcovers.entryAt (hmade q c hsome)
  have hagain := makeDirs_again hcovers h.made
  have hnext : Homebound ⟨after, hclosed, t.cwd, hcovers.entryAt (h.covers.entryAt t.cwd_dir)⟩ {}
      root name m entry parent dirs n := by
    constructor
    case resolved =>
      exact resolveEntryDir_covers (fun q e hq => hcovers q e (h.covers q e hq)) h.resolved
    case reads => rfl
    case manifest =>
      have hread := h.manifest
      unfold readManifest at hread ⊢
      rw [hall, hentry]
      exact hread
    case recorded => exact h.recorded
    case absent => exact habsent
    case made => rw [hagain]
  have hparent := hcovers.resolveDir hway
  rw [hnext.stashRestore, hagain, hparent]
  have hfree := hnext.homeFree (by rw [hagain]; exact hparent)
  rw [hagain] at hfree
  dsimp only
  have hdirect : ¬ ByCopy {} entry (parent ++ [n]) := by
    rintro (hrename | hin)
    · cases hrename
    · exact hout hin
  rw [moveHome_rename hfree hdirect, if_neg Bool.false_ne_true]

end Retry

/-- **When a restore that fails can be tried again.** -/
theorem restore_retryable_iff (t : Disk FileData) (faults : RestoreFaults) (root name : String)
    (hrecorded : ∀ entry m, resolveEntryDir t.fs t.cwd root name = .ok entry →
      readManifest t.fs entry = some m → ∃ dirs n, m.Recorded dirs n)
    (hremoval : faults.Removal) :
    RestoreRetryable t faults root name ↔
      ∀ m entry parent dirs n, Homebound t faults root name m entry parent dirs n →
        ¬ LeavesBehind t faults m entry parent dirs n := by
  constructor
  · intro hretry m entry parent dirs n h hleft
    obtain ⟨⟨e, herr⟩, hchanged⟩ := h.changed hremoval hleft
    obtain ⟨habsent, hsame⟩ := hretry e herr entry m h.resolved h.manifest
    rcases hchanged with hthere | ⟨rel, hne⟩
    · exact hthere (habsent h.absent)
    · exact hne (hsame rel)
  · intro hclean e herr entry m hentry hmanifest
    obtain ⟨dirs, n, hm⟩ := hrecorded entry m hentry hmanifest
    by_cases hbound : ∃ parent, Homebound t faults root name m entry parent dirs n
    · obtain ⟨parent, h⟩ := hbound
      have hclean := hclean m entry parent dirs n h
      have hall := h.unchanged hclean herr
      refine ⟨fun _ => h.absent_of_made hall, fun rel => ?_⟩
      rw [hall, h.lookup_entry fun hgrows => hclean (Or.inl hgrows)]
    · rw [stashRestore_unbound hentry hmanifest hm hbound]
      exact ⟨id, fun _ => rfl⟩

/-! ## A copy that is not walked -/

private def keptName : Name := ⟨"kept.0", by decide⟩

private def keptManifest : StashManifest :=
  { name := "kept.0", origin := "/kept", movedAtUnix := 0, bytes := 1, files := 1, auto := false }

/-- `/stash/kept.0`, with one file and its manifest. -/
private def keptTree : Disk FileData where
  fs := ((((∅ : Fs FileData).insert [stashName] .dir).insert [stashName, keptName] .dir).insert
    [stashName, keptName, dataName] (.file (.bytes [1]))).insert
    [stashName, keptName, manifestName] (.file (.manifest keptManifest 2))
  closed := FileTree.closed_of_keys (by decide)
  cwd := []
  cwd_dir := rfl

private theorem keptTree_recorded (entry : Location) (m : StashManifest)
    (hentry : resolveEntryDir keptTree.fs keptTree.cwd "/stash" "kept.0" = .ok entry)
    (hm : readManifest keptTree.fs entry = some m) : ∃ dirs n, m.Recorded dirs n := by
  have hplace : resolveEntryDir keptTree.fs keptTree.cwd "/stash" "kept.0" =
      .ok [stashName, keptName] := by decide +kernel
  obtain rfl := Except.ok.inj (hplace.symm.trans hentry)
  have hread : readManifest keptTree.fs [stashName, keptName] = some keptManifest := by
    decide +kernel
  obtain rfl := Option.some.inj (hread.symm.trans hm)
  exact ⟨[], ⟨"kept", by decide⟩, by decide +kernel, by decide⟩

theorem restore_retryable_kept :
    RestoreRetryable keptTree { rename := true, walkOrigin := true } "/stash" "kept.0" ↔
      ∀ m entry parent dirs n,
        Homebound keptTree { rename := true, walkOrigin := true } "/stash" "kept.0" m entry parent
          dirs n →
        ¬ LeavesBehind keptTree { rename := true, walkOrigin := true } m entry parent dirs n :=
  restore_retryable_iff keptTree { rename := true, walkOrigin := true } "/stash" "kept.0"
    keptTree_recorded (fun _ hgone => nomatch hgone)

/-- The stash is on another device and the copy cannot be walked: the error leaves it, and the
next restore is refused. -/
theorem unwalked_copy_stays :
    ¬ RestoreRetryable keptTree { rename := true, walkOrigin := true } "/stash" "kept.0" ∧
      (stashRestore (stashRestore keptTree.fs [] { rename := true, walkOrigin := true } "/stash"
        "kept.0").1 [] {} "/stash" "kept.0").2 =
          .error "origin /kept already exists — refusing" := by
  refine ⟨fun hretry => ?_, by decide +kernel⟩
  have hbefore : lstat keptTree.fs [] "/kept" = .error .notFound := by decide +kernel
  have hafter : lstat (stashRestore keptTree.fs [] { rename := true, walkOrigin := true } "/stash"
      "kept.0").1 [] "/kept" = .ok ([⟨"kept", by decide⟩], .dir) := by decide +kernel
  obtain ⟨habsent, -⟩ := hretry "" (by decide +kernel) [stashName, keptName] keptManifest
    (by decide +kernel) (by decide +kernel)
  refine habsent (fun r hr => ?_) _ hafter
  rw [show lstat keptTree.fs keptTree.cwd keptManifest.origin = _ from hbefore] at hr
  cases hr

end DraconGuard
