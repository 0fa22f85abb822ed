import DraconGuard.Clean.TrashLaw

/-!
# Entries and their metadata

An entry of the trash can be restored as long as its `.trashinfo` is there. The two are removed by
different branches of `empty_trash_at` (main.rs:4939-5044):

| entries | metadata |
| --- | --- |
| one by one (`purge_aged_trash_entries`) | with each entry that went |
| all at once, when there are bytes | all at once, when there are bytes |
| not at all, when there are none | all at once, when there are bytes |

Entry by entry the two stay together whatever fails (`keeps_purgeEntries`). The wipe of the
metadata asks for the age floor and the keep set only, "whole-dir wipe would orphan the kept
entries' .trashinfo", and not whether the entries went: `trash_paired_iff` says what that leaves.
-/

namespace DraconGuard

open FileTree

variable {δ : Type} {th : TrashHome δ}

/-- An entry with its metadata, a regular file. -/
def Restorable (th : TrashHome δ) (n : Name) (data : δ) : Prop :=
  (th.fs.lookup (th.files ++ [n])).isSome ∧
    th.fs.lookup (th.info ++ [infoName n]) = some (.file data)

/-- The entry is gone, or its metadata is there. -/
def Keeps (th : TrashHome δ) (n : Name) (data : δ) (t : Disk δ) : Prop :=
  (t.fs.lookup (th.files ++ [n])).isSome → t.fs.lookup (th.info ++ [infoName n]) = some (.file data)

/-- **Pairing**: what had metadata before has it as long as it is there. -/
def TrashPaired (th : TrashHome δ) (after : Disk δ) : Prop :=
  ∀ n data, Restorable th n data → Keeps th n data after

theorem infoName_injective {m n : Name} (h : infoName m = infoName n) : m = n := by
  have htext : m.text ++ ".trashinfo" = n.text ++ ".trashinfo" := congrArg Name.text h
  have hsame : m.text = n.text := by simpa using htext
  cases m
  cases n
  cases hsame
  rfl

/-! ## Entry by entry -/

section Rounds

variable {probes : TrashProbes} {pass : TrashPass} {cutoff : Int} {userProtected : List String}
  {apply : Bool} {skipNames : List Name} {minAgeDays : Nat} {n : Name} {data : δ}

variable (probes pass cutoff userProtected apply skipNames) in
/-- What a round can do to the disk. -/
theorem purgeEntry_disk (m : Name) (t : Disk δ) :
    (purgeEntry th probes pass cutoff userProtected apply skipNames t m).1 = t ∨
      apply = true ∧ ∃ stopped, let gone := t.removeDir (th.files ++ [m]) stopped
        (purgeEntry th probes pass cutoff userProtected apply skipNames t m).1 =
          if gone.2 then dropInfo th pass m gone.1 else gone.1 := by
  unfold purgeEntry
  dsimp only
  split
  · exact Or.inl rfl
  split
  · exact Or.inl rfl
  split
  · exact Or.inl rfl
  split
  · exact Or.inl rfl
  split
  · exact Or.inl rfl
  split
  · exact Or.inl rfl
  next happly =>
  have htrue : apply = true := by simpa using happly
  split
  · refine Or.inr ⟨htrue, pass.removeDir m, ?_⟩
    split
    · next heq => simp [heq]
    · next heq => simp [heq]
  · split
    · exact Or.inr ⟨htrue, none, rfl⟩
    · exact Or.inl rfl

theorem keeps_dropInfo {m : Name} {t : Disk δ} (h : Keeps th n data t) (hne : m ≠ n) :
    Keeps th n data (dropInfo th pass m t) := by
  intro hthere
  rw [lookup_dropInfo] at hthere
  have hoff : ¬ th.info ++ [infoName m] <+: th.info ++ [infoName n] := by
    rw [List.prefix_append_right_inj]
    intro hpre
    exact hne (infoName_injective (List.cons_prefix_cons.mp hpre).1)
  unfold dropInfo
  dsimp only
  split
  · rw [lookup_without, if_neg hoff]
    exact h hthere
  · exact h hthere

theorem files_off_info (rel : Location) (suffix : Location) :
    ¬ th.files ++ suffix <+: th.info ++ rel := by
  intro hpre
  exact (files_apart_info th).not_prefix_append rel
    ((List.prefix_append th.files suffix).trans hpre)

theorem keeps_removeDir {suffix : Location} {stopped : Option (List Location)} {t : Disk δ}
    (h : Keeps th n data t) :
    Keeps th n data (t.removeDir (th.files ++ suffix) stopped).1 := by
  intro hthere
  rw [lookup_removeDir_other t stopped (files_off_info _ _)]
  refine h ?_
  by_cases hpre : th.files ++ suffix <+: th.files ++ [n]
  · obtain ⟨rel, hrel⟩ := hpre
    rw [← hrel, lookup_removeDir] at hthere
    split at hthere
    · cases hthere
    · rwa [hrel] at hthere
  · rwa [lookup_removeDir_other t stopped hpre] at hthere

/-- One round keeps the pair together. -/
theorem keeps_purgeEntry {t : Disk δ} (h : Keeps th n data t) (m : Name) :
    Keeps th n data
      (purgeEntry th probes pass cutoff userProtected apply skipNames t m).1 := by
  rcases purgeEntry_disk probes pass cutoff userProtected apply skipNames m t with
    hsame | ⟨-, stopped, hgone⟩
  · rwa [hsame]
  rw [hgone]
  have hleft : Keeps th n data (t.removeDir (th.files ++ [m]) stopped).1 := keeps_removeDir h
  split
  · next hwent =>
    by_cases heq : m = n
    · -- all of it went, and so nothing is asked of the metadata
      subst heq
      cases stopped with
      | some gone => cases hwent
      | none =>
        intro hthere
        rw [lookup_dropInfo] at hthere
        simp [Disk.removeDir] at hthere
    · exact keeps_dropInfo hleft heq
  · exact hleft

theorem keeps_purgeEntries {listing : List Name} {t : Disk δ} {sizes : List Nat}
    (h : Keeps th n data t) :
    Keeps th n data (purgeEntries th probes pass cutoff userProtected apply skipNames listing t
      sizes).1 := by
  induction listing generalizing t sizes with
  | nil => exact h
  | cons m listing ih =>
    unfold purgeEntries
    exact ih (keeps_purgeEntry h m)

end Rounds

/-! ## A wipe -/

/-- The gate lets a wipe of the directory through. -/
def Admits (t : Disk δ) (userProtected : List String) (q : Location) : Prop :=
  ∃ checked, checkSafeToDeleteGuard t (render q) userProtected = .ok checked

section Wipe

variable {m : Mount δ} {above : Location} {last : Name} {userProtected : List String}
  {stopped : Option (List Location)} {recreate : Bool}

theorem wipeDir_refused {t : Disk δ} {q : Location} (h : ¬ Admits t userProtected q) :
    (wipeDir userProtected stopped recreate q t).1 = t := by
  unfold wipeDir
  split
  · next hcheck => exact absurd ⟨_, hcheck⟩ h
  · rfl

/-- A directory that is made again is empty. -/
theorem makeDirs_without (hdir : m.fs.lookup (above ++ [last]) = some .dir) :
    ((m.without (above ++ [last])).makeDirs (above ++ [last])).fs =
      (m.without (above ++ [last])).fs.insert (above ++ [last]) .dir := by
  have hsome : (m.fs.lookup (above ++ [last])).isSome := by rw [hdir]; rfl
  refine makeDirs_concat (m.plain _ hsome) (fun k hk hkabove => ?_) ?_
  · have hoff : ¬ above ++ [last] <+: k := by
      intro hpre
      have hlength := (hpre.trans hkabove).length_le
      rw [List.length_append, List.length_singleton] at hlength
      omega
    rw [List.nil_append, lookup_without, if_neg hoff]
    exact m.closed.dirs_above (m.closed above last hsome) hk hkabove
  · rw [List.nil_append, lookup_without, if_pos (List.prefix_refl _)]

/-- What a wipe that is let through does. -/
theorem wipeDir_admitted (hdir : m.fs.lookup (above ++ [last]) = some .dir)
    (h : Admits m.toDisk userProtected (above ++ [last])) :
    (wipeDir userProtected stopped recreate (above ++ [last]) m.toDisk).1.fs =
      if stopped = none ∧ recreate = true then
        (m.without (above ++ [last])).fs.insert (above ++ [last]) .dir
      else (m.removeDir (above ++ [last]) stopped).1.fs := by
  obtain ⟨checked, hcheck⟩ := h
  have hcanon := m.canonicalize_render hdir fun _ heq => by cases heq
  obtain ⟨rfl, -⟩ := checkSafeToDeleteGuard_ok hcanon hcheck
  unfold wipeDir
  rw [hcheck]
  dsimp only
  rw [hdir, if_pos (by rfl)]
  cases stopped with
  | some gone => simp [Disk.removeDir]
  | none =>
    cases recreate with
    | false => simp [Disk.removeDir]
    | true => simpa [Disk.removeDir] using makeDirs_without hdir

theorem lookup_wipeDir_off (hdir : m.fs.lookup (above ++ [last]) = some .dir) {p : Location}
    (hoff : ¬ above ++ [last] <+: p) :
    (wipeDir userProtected stopped recreate (above ++ [last]) m.toDisk).1.fs.lookup p =
      m.fs.lookup p := by
  by_cases hgate : Admits m.toDisk userProtected (above ++ [last])
  · rw [wipeDir_admitted hdir hgate]
    split
    · have hne : p ≠ above ++ [last] := fun heq => hoff (heq ▸ List.prefix_refl _)
      rw [AList.lookup_insert_ne hne, lookup_without, if_neg hoff]
    · exact lookup_removeDir_other m.toDisk stopped hoff
  · rw [wipeDir_refused hgate]

theorem lookup_wipeDir_in (hdir : m.fs.lookup (above ++ [last]) = some .dir) {rel : Location}
    (hrel : rel ≠ []) (e : Entry δ) :
    (wipeDir userProtected stopped recreate (above ++ [last]) m.toDisk).1.fs.lookup
        (above ++ [last] ++ rel) = some e ↔
      m.fs.lookup (above ++ [last] ++ rel) = some e ∧
        ¬ (Admits m.toDisk userProtected (above ++ [last]) ∧ takes stopped rel = true) := by
  by_cases hgate : Admits m.toDisk userProtected (above ++ [last])
  · have hremoved : (wipeDir userProtected stopped recreate (above ++ [last])
        m.toDisk).1.fs.lookup (above ++ [last] ++ rel) =
          if takes stopped rel then none else m.fs.lookup (above ++ [last] ++ rel) := by
      rw [wipeDir_admitted hdir hgate]
      split
      · next hwhole =>
        have hne : above ++ [last] ++ rel ≠ above ++ [last] := by simpa using hrel
        rw [AList.lookup_insert_ne hne, lookup_without, if_pos (List.prefix_append _ rel),
          hwhole.1, takes, Option.all_none, if_pos rfl]
      · exact lookup_removeDir m.toDisk _ stopped rel
    rw [hremoved]
    by_cases htaken : takes stopped rel = true
    · simp [htaken, hgate]
    · simp [htaken]
  · rw [wipeDir_refused hgate]
    simp [hgate]

/-- A wipe adds nothing. -/
theorem isSome_of_wipeDir (hdir : m.fs.lookup (above ++ [last]) = some .dir) {p : Location}
    (h : ((wipeDir userProtected stopped recreate (above ++ [last])
      m.toDisk).1.fs.lookup p).isSome) : (m.fs.lookup p).isSome := by
  by_cases hpre : above ++ [last] <+: p
  · obtain ⟨rel, rfl⟩ := hpre
    by_cases hrel : rel = []
    · rw [hrel, List.append_nil, hdir]
      rfl
    · obtain ⟨e, he⟩ := Option.isSome_iff_exists.mp h
      rw [((lookup_wipeDir_in hdir hrel e).mp he).1]
      rfl
  · rwa [lookup_wipeDir_off hdir hpre] at h

end Wipe

/-! ## All at once -/

section Whole

variable (th : TrashHome δ) (probes : TrashProbes) (pass : TrashPass)
  (userProtected : List String)

/-- The bytes of the entries. -/
def filesSize : Nat := dirSize th.fs probes.sizing probes.len th.files

/-- The call empties the trash: no age floor, and nothing to keep. -/
def Emptying (credentialGuard : Bool) (minAgeDays : Nat) : Prop :=
  minAgeDays = 0 ∧
    (0 < filesSize th probes → credentialGuard = true → trashSkipNames th probes.guarding = [])

/-- The trash when it comes to the metadata: without what the removal of the entries got to. -/
def entriesWiped : Mount δ where
  toDisk :=
    if 0 < filesSize th probes then
      (wipeDir userProtected pass.wipeFiles pass.recreateFiles th.files th.toDisk).1
    else th.toDisk
  plain := by
    intro q hq
    split at hq
    · exact th.plain q (isSome_of_wipeDir (m := th.toMount) th.files_dir hq)
    · exact th.plain q hq

/-- The entry goes: there are bytes to wipe, the gate lets the wipe through, and it comes to the
entry. -/
def EntryWiped (n : Name) : Prop :=
  0 < filesSize th probes ∧ Admits th.toDisk userProtected th.files ∧
    takes pass.wipeFiles [n] = true

/-- Its metadata goes: the same in the other directory. -/
def InfoWiped (n : Name) : Prop :=
  let left := entriesWiped th probes pass userProtected
  0 < dirSize left.fs probes.sizing probes.len th.info ∧
    Admits left.toDisk userProtected th.info ∧ takes pass.wipeInfo [infoName n] = true

variable {th probes pass userProtected}

theorem lookup_entriesWiped_off {p : Location} (h : ¬ th.files <+: p) :
    (entriesWiped th probes pass userProtected).fs.lookup p = th.fs.lookup p := by
  unfold entriesWiped
  dsimp only
  split
  · exact lookup_wipeDir_off (m := th.toMount) th.files_dir h
  · rfl

theorem lookup_entriesWiped_entry (n : Name) :
    ((entriesWiped th probes pass userProtected).fs.lookup (th.files ++ [n])).isSome ↔
      (th.fs.lookup (th.files ++ [n])).isSome ∧ ¬ EntryWiped th probes pass userProtected n := by
  unfold entriesWiped EntryWiped
  dsimp only
  split
  · next hsize =>
    have hin : ∀ e, (wipeDir userProtected pass.wipeFiles pass.recreateFiles th.files
        th.toDisk).1.fs.lookup (th.files ++ [n]) = some e ↔
          th.fs.lookup (th.files ++ [n]) = some e ∧
            ¬ (Admits th.toDisk userProtected th.files ∧ takes pass.wipeFiles [n] = true) :=
      lookup_wipeDir_in (m := th.toMount) th.files_dir (List.cons_ne_nil n [])
    simp only [Option.isSome_iff_exists, hsize, true_and]
    exact ⟨fun ⟨e, he⟩ => ⟨⟨e, ((hin e).mp he).1⟩, ((hin e).mp he).2⟩,
      fun ⟨⟨e, he⟩, hnot⟩ => ⟨e, (hin e).mpr ⟨he, hnot⟩⟩⟩
  · next hsize => simp [hsize]

/-- A call that empties the trash, step by step. -/
theorem emptyTrashAt_emptying {credentialGuard : Bool} {minAgeDays : Nat}
    (h : Emptying th probes credentialGuard minAgeDays) :
    (emptyTrashAt th probes pass true userProtected credentialGuard minAgeDays).1 =
      (emptyTrashInfo th probes pass true userProtected [] 0
        (entriesWiped th probes pass userProtected).toDisk).1 := by
  obtain ⟨rfl, hkeep⟩ := h
  have hskip : (if (0 < filesSize th probes && credentialGuard) = true then
      trashSkipNames th probes.guarding else []) = [] := by
    split
    · next hscan =>
      simp only [Bool.and_eq_true, decide_eq_true_eq] at hscan
      exact hkeep hscan.1 hscan.2
    · rfl
  unfold emptyTrashAt
  dsimp only
  rw [show dirSize th.fs probes.sizing probes.len th.files = filesSize th probes from rfl, hskip]
  unfold entriesWiped
  dsimp only
  split
  · simp [emptyTrashFiles]
  · rfl

/-- What it leaves of an entry that could be restored. -/
theorem keeps_emptying_iff {credentialGuard : Bool} {minAgeDays : Nat} {n : Name} {data : δ}
    (h : Emptying th probes credentialGuard minAgeDays) (hpair : Restorable th n data) :
    Keeps th n data
        (emptyTrashAt th probes pass true userProtected credentialGuard minAgeDays).1 ↔
      EntryWiped th probes pass userProtected n ∨ ¬ InfoWiped th probes pass userProtected n := by
  obtain ⟨hentry, hinfo⟩ := hpair
  have hleftEntry : ((entriesWiped th probes pass userProtected).fs.lookup
      (th.files ++ [n])).isSome ↔
        (th.fs.lookup (th.files ++ [n])).isSome ∧ ¬ EntryWiped th probes pass userProtected n :=
    lookup_entriesWiped_entry n
  have hleftInfo : ∀ rel, (entriesWiped th probes pass userProtected).fs.lookup (th.info ++ rel) =
      th.fs.lookup (th.info ++ rel) := by
    intro rel
    have hoff : ¬ th.files ++ [] <+: th.info ++ rel := files_off_info rel []
    rw [List.append_nil] at hoff
    exact lookup_entriesWiped_off hoff
  have hdir : (entriesWiped th probes pass userProtected).fs.lookup th.info = some .dir := by
    have habove := th.closed th.info (infoName n) (by rw [hinfo]; rfl)
    rw [entryAt, if_neg (by simp [TrashHome.info])] at habove
    have hsame := hleftInfo []
    rwa [List.append_nil, habove] at hsame
  have hoff : ¬ th.info <+: th.files ++ [n] := (files_apart_info th).symm.not_prefix_append [n]
  rw [emptyTrashAt_emptying h]
  unfold Keeps emptyTrashInfo InfoWiped
  dsimp only
  by_cases hsize : 0 < dirSize (entriesWiped th probes pass userProtected).fs probes.sizing
      probes.len th.info
  · rw [if_pos ⟨rfl, rfl, by rw [hdir]; rfl, hsize⟩]
    have hother : (wipeDir userProtected pass.wipeInfo pass.recreateInfo th.info
        (entriesWiped th probes pass userProtected).toDisk).1.fs.lookup (th.files ++ [n]) =
          (entriesWiped th probes pass userProtected).fs.lookup (th.files ++ [n]) :=
      lookup_wipeDir_off hdir hoff
    have hin : (wipeDir userProtected pass.wipeInfo pass.recreateInfo th.info
        (entriesWiped th probes pass userProtected).toDisk).1.fs.lookup
          (th.info ++ [infoName n]) = some (.file data) ↔
            (entriesWiped th probes pass userProtected).fs.lookup (th.info ++ [infoName n]) =
              some (.file data) ∧ ¬ (Admits (entriesWiped th probes pass userProtected).toDisk
                userProtected th.info ∧ takes pass.wipeInfo [infoName n] = true) :=
      lookup_wipeDir_in hdir (List.cons_ne_nil (infoName n) []) (.file data)
    rw [hleftInfo, hinfo] at hin
    rw [if_pos rfl, hother, hleftEntry, hin]
    simp only [hentry, hsize, true_and]
    exact imp_iff_not_or.trans (or_congr_left not_not)
  · rw [if_neg fun hall => hsize hall.2.2.2]
    dsimp only
    rw [hleftInfo, hinfo]
    simp [hsize]

/-- Entry by entry, and in a dry run, the two stay together. -/
theorem paired_of_not_emptying {apply credentialGuard : Bool} {minAgeDays : Nat}
    (h : ¬ (apply = true ∧ Emptying th probes credentialGuard minAgeDays)) :
    TrashPaired th
      (emptyTrashAt th probes pass apply userProtected credentialGuard minAgeDays).1 := by
  rintro n data ⟨-, hinfo⟩
  have hstart : Keeps th n data th.toDisk := fun _ => hinfo
  have hpurge : ∀ skipNames, Keeps th n data (purgeAgedTrashEntries th probes pass minAgeDays
      userProtected apply skipNames th.toDisk).1 := by
    intro skipNames
    unfold purgeAgedTrashEntries
    split
    · exact hstart
    · exact keeps_purgeEntries hstart
  -- the metadata step, when it does nothing
  have hidle : ∀ skipNames t, ¬ (apply = true ∧ minAgeDays = 0 ∧ skipNames = []) →
      (emptyTrashInfo th probes pass apply userProtected skipNames minAgeDays t).1 = t := by
    intro skipNames t hnot
    unfold emptyTrashInfo
    dsimp only
    split
    · next hwipe =>
      cases apply with
      | false => rfl
      | true => exact absurd ⟨rfl, hwipe.1, hwipe.2.1⟩ hnot
    · rfl
  have hfiles : ∀ skipNames, ¬ (apply = true ∧ minAgeDays = 0 ∧ skipNames = []) →
      Keeps th n data (emptyTrashFiles th probes pass apply userProtected skipNames
        (filesSize th probes) minAgeDays th.toDisk).1 := by
    intro skipNames hnot
    have hkept := hpurge skipNames
    unfold emptyTrashFiles
    split
    · split
      · next heq =>
        rw [heq] at hkept
        split <;> exact hkept
      · next heq => rwa [heq] at hkept
    · next hwhole =>
      cases apply with
      | false => exact hstart
      | true =>
        have hnone : minAgeDays = 0 ∧ skipNames = [] := by
          simpa [not_or] using hwhole
        exact absurd ⟨rfl, hnone⟩ hnot
  unfold emptyTrashAt
  dsimp only
  rw [show dirSize th.fs probes.sizing probes.len th.files = filesSize th probes from rfl]
  by_cases hsize : 0 < filesSize th probes
  · have hnot : ¬ (apply = true ∧ minAgeDays = 0 ∧
        (if credentialGuard = true then trashSkipNames th probes.guarding else []) = []) := by
      rintro ⟨happly, hage, hskip⟩
      refine h ⟨happly, hage, fun _ hguard => ?_⟩
      rwa [if_pos hguard] at hskip
    simp only [hsize, decide_true, Bool.true_and, if_true]
    rw [hidle _ _ hnot]
    exact hfiles _ hnot
  · have hnot : ¬ (apply = true ∧ minAgeDays = 0 ∧ ([] : List Name) = []) := by
      rintro ⟨happly, hage, -⟩
      exact h ⟨happly, hage, fun hpos => absurd hpos hsize⟩
    simp only [hsize, decide_false, Bool.false_and, Bool.false_eq_true, if_false]
    rw [hidle _ _ hnot]
    exact hstart

/-- **When entries keep their metadata.** Unless the trash is emptied as a whole, always; and then
when no `.trashinfo` is wiped whose entry was not. -/
theorem trash_paired_iff (th : TrashHome δ) (probes : TrashProbes) (pass : TrashPass)
    (userProtected : List String) (apply credentialGuard : Bool) (minAgeDays : Nat) :
    TrashPaired th
        (emptyTrashAt th probes pass apply userProtected credentialGuard minAgeDays).1 ↔
      (apply = true → Emptying th probes credentialGuard minAgeDays → ∀ n data,
        Restorable th n data → EntryWiped th probes pass userProtected n ∨
          ¬ InfoWiped th probes pass userProtected n) := by
  by_cases h : apply = true ∧ Emptying th probes credentialGuard minAgeDays
  · obtain ⟨rfl, hempty⟩ := h
    constructor
    · intro hpaired _ _ n data hpair
      exact (keeps_emptying_iff hempty hpair).mp (hpaired n data hpair)
    · intro hwiped n data hpair
      exact (keeps_emptying_iff hempty hpair).mpr (hwiped rfl hempty n data hpair)
  · exact iff_of_true (paired_of_not_emptying h) fun happly hempty => absurd ⟨happly, hempty⟩ h

end Whole

/-! ## An empty file in the trash -/

private def noteName : Name := ⟨"note", by decide⟩

private theorem kept_valid : "files".toList ≠ [] ∧ '/' ∉ "files".toList := by decide

private theorem about_valid : "info".toList ≠ [] ∧ '/' ∉ "info".toList := by decide

private def noteFiles : Location := trashPath ++ [⟨"files", kept_valid⟩]

private def noteInfo : Location := trashPath ++ [⟨"info", about_valid⟩]

/-- The empty file `note`, with its metadata. -/
private def noteFs : Fs Unit :=
  (((((((∅ : Fs Unit).insert (trashPath.take 1) .dir).insert (trashPath.take 2) .dir).insert
    trashPath .dir).insert noteFiles .dir).insert noteInfo .dir).insert
    (noteFiles ++ [noteName]) (.file ())).insert (noteInfo ++ [infoName noteName]) (.file ())

private theorem noteFs_closed : FileTree.Closed noteFs := FileTree.closed_of_keys (by decide)

private theorem noteFs_plain (q : Location) (hq : (noteFs.lookup q).isSome) :
    ∀ n ∈ q, n.isPlain = true := FileTree.plain_of_keys (by decide) q hq

private theorem noteFs_files : noteFs.lookup noteFiles = some .dir := by decide

private theorem noteFs_info (target : FileTree.Spelled) :
    noteFs.lookup noteInfo ≠ some (.symlink target) := by
  have hdir : noteFs.lookup noteInfo = some .dir := by decide
  rw [hdir]
  intro h
  cases h

private def noteTrash : TrashHome Unit where
  fs := noteFs
  closed := noteFs_closed
  cwd := []
  cwd_dir := rfl
  plain := noteFs_plain
  home := []
  files_dir := noteFs_files
  info_own := noteFs_info

/-- `stat` of an entry of that trash: `note` has no bytes. -/
private def noteLen (q : Location) : Nat := if q = noteFiles ++ [noteName] then 0 else 64

private def notePass : TrashPass where
  now := some 0
  listing := [noteName]
  modified := fun _ => some 0

/-- The entries come to no bytes and are left alone; the metadata goes. -/
theorem empty_entry_orphaned : ¬ TrashPaired noteTrash
    (emptyTrashAt noteTrash { len := noteLen } notePass true [] true 0).1 := by
  intro hpaired
  have hkept := hpaired noteName () ⟨by decide, by decide⟩ (by decide +kernel)
  have hgone : (emptyTrashAt noteTrash { len := noteLen } notePass true [] true 0).1.fs.lookup
      (noteTrash.info ++ [infoName noteName]) = none := by decide +kernel
  rw [hgone] at hkept
  cases hkept

end DraconGuard
