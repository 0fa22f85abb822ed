import DraconGuard.Clean.Trash

/-!
# What the credential guard keeps

The keep set holds exactly the names that are UTF-8 and that the scan has something against
(`mem_trashSkipNames`), and what it holds is kept whatever else the pass meets. An entry outside it
goes with the first pass that finds it old enough. `trash_guard_iff` is the boundary: with listings
that never break off the scan has something against every entry it should
(`flagged_of_guarded`), and the guard then fails exactly for names that are not UTF-8.
-/

namespace DraconGuard

open FileTree

section Trash

variable {δ : Type} {th : TrashHome δ}

/-! ## The keep set -/

/-- What an item of the walk has against a top-level entry. -/
def Flags (n : Name) : WalkItem δ → Prop
  | .entry rel (.file _) => rel.head? = some n ∧ rel.getLast?.any Name.looksCredential = true
  | .entry rel .dir => rel.head? = some n ∧ rel.length = trashScanMaxDepth
  | .entry _ _ => False
  | .failed (some rel) => rel.head? = some n
  | .failed none => False

/-- The scan yields a credential file in the entry, a directory at the cap, or an error about a
path in it. -/
def Flagged (th : TrashHome δ) (guarding : Scan) (n : Name) : Prop :=
  ∃ item ∈ walkDir th.fs guarding (some trashScanMaxDepth) th.files, Flags n item

theorem mem_trashKeepTopLevel {skipNames : List Name} {rel : Location} {n : Name} :
    n ∈ trashKeepTopLevel skipNames rel ↔
      n ∈ skipNames ∨ n.isUtf8 = true ∧ rel.head? = some n := by
  unfold trashKeepTopLevel
  cases rel with
  | nil => simp
  | cons top rel =>
    simp only [List.head?_cons, Option.some.injEq]
    split
    · next htop =>
      rw [List.mem_insert_iff]
      constructor
      · rintro (rfl | hin)
        · exact Or.inr ⟨htop, rfl⟩
        · exact Or.inl hin
      · rintro (hin | ⟨-, rfl⟩)
        · exact Or.inr hin
        · exact Or.inl rfl
    · next htop =>
      constructor
      · exact Or.inl
      · rintro (hin | ⟨hn, rfl⟩)
        · exact hin
        · exact absurd hn htop

theorem mem_flagItem {skipNames : List Name} {item : WalkItem δ} {n : Name} :
    n ∈ flagItem skipNames item ↔ n ∈ skipNames ∨ n.isUtf8 = true ∧ Flags n item := by
  cases item with
  | entry rel e =>
    cases e with
    | file data =>
      simp only [flagItem, Flags]
      split
      · next hcred => simp [mem_trashKeepTopLevel, hcred]
      · next hcred => simp [hcred]
    | dir =>
      simp only [flagItem, Flags]
      split
      · next hcap => simp [mem_trashKeepTopLevel, hcap]
      · next hcap => simp [hcap]
    | symlink target => simp [flagItem, Flags]
    | special => simp [flagItem, Flags]
  | failed rel =>
    cases rel with
    | none => simp [flagItem, Flags]
    | some rel => simp [flagItem, Flags, mem_trashKeepTopLevel]

theorem mem_foldl_flagItem {items : List (WalkItem δ)} {skipNames : List Name} {n : Name} :
    n ∈ items.foldl flagItem skipNames ↔
      n ∈ skipNames ∨ n.isUtf8 = true ∧ ∃ item ∈ items, Flags n item := by
  induction items generalizing skipNames with
  | nil => simp
  | cons item items ih =>
    rw [List.foldl_cons, ih, mem_flagItem]
    simp only [List.mem_cons, exists_eq_or_imp]
    tauto

/-- **What is kept.** -/
theorem mem_trashSkipNames {guarding : Scan} {n : Name} :
    n ∈ trashSkipNames th guarding ↔ n.isUtf8 = true ∧ Flagged th guarding n := by
  simp [trashSkipNames, mem_foldl_flagItem, Flagged]

/-! ## What the guard is for -/

/-- A regular file in the entry, at any depth, that the credential rules match. -/
def HoldsCredential (th : TrashHome δ) (n : Name) : Prop :=
  ∃ rel data, th.fs.lookup (th.files ++ n :: rel) = some (.file data) ∧
    (n :: rel).getLast?.any Name.looksCredential = true

/-- A directory in the entry, or the entry, that the scan did not list to the end. -/
def Uninspected (th : TrashHome δ) (guarding : Scan) (n : Name) : Prop :=
  ∃ rel, th.fs.lookup (th.files ++ n :: rel) = some .dir ∧
    ¬ (guarding.reaches th.files (n :: rel) = true ∧ guarding.Whole (th.files ++ n :: rel) ∧
      (n :: rel).length < trashScanMaxDepth)

def Guarded (th : TrashHome δ) (guarding : Scan) (n : Name) : Prop :=
  HoldsCredential th n ∨ Uninspected th guarding n

/-- Nothing of the entry is gone or changed. -/
def Spared (th : TrashHome δ) (n : Name) (after : Disk δ) : Prop :=
  ∀ rel e, th.fs.lookup (th.files ++ n :: rel) = some e →
    after.fs.lookup (th.files ++ n :: rel) = some e

/-- **The trash credential guard**: whatever a pass meets, and whatever its age floor and its
protected paths, with the guard on it spares the entries it should. -/
def TrashGuard (th : TrashHome δ) (probes : TrashProbes) : Prop :=
  ∀ (pass : TrashPass) (apply : Bool) (userProtected : List String) (minAgeDays : Nat) (n : Name),
    Guarded th probes.guarding n →
      Spared th n (emptyTrashAt th probes pass apply userProtected true minAgeDays).1

/-! ## A name that is kept -/

theorem files_apart_info (th : TrashHome δ) : Apart th.files th.info := by
  constructor <;> intro h <;> exact absurd (List.prefix_append_right_inj _ |>.mp h) (by decide)

theorem files_off_path {n m : Name} (h : m ≠ n) (rel : Location) :
    ¬ th.files ++ [m] <+: th.files ++ n :: rel := by
  rw [List.prefix_append_right_inj]
  intro hpre
  exact h (List.cons_prefix_cons.mp hpre).1

theorem info_off_path (suffix : Location) (rel : Location) :
    ¬ th.info ++ suffix <+: th.files ++ rel := by
  intro hpre
  exact (files_apart_info th).symm.not_prefix_append rel
    ((List.prefix_append th.info suffix).trans hpre)

section Kept

variable {probes : TrashProbes} {pass : TrashPass} {cutoff : Int} {userProtected : List String}
  {apply : Bool} {skipNames : List Name} {minAgeDays : Nat} {n : Name}

theorem lookup_dropInfo (m : Name) (t : Disk δ) (rel : Location) :
    (dropInfo th pass m t).fs.lookup (th.files ++ rel) = t.fs.lookup (th.files ++ rel) := by
  unfold dropInfo
  dsimp only
  split
  · rw [lookup_without, if_neg (info_off_path _ rel)]
  · rfl

/-- A round for another entry. -/
theorem lookup_purgeEntry_other {m : Name} (h : m ≠ n) (t : Disk δ) (rel : Location) :
    (purgeEntry th probes pass cutoff userProtected apply skipNames t m).1.fs.lookup
      (th.files ++ n :: rel) = t.fs.lookup (th.files ++ n :: rel) := by
  have hother : ¬ th.files ++ [m] <+: th.files ++ n :: rel := files_off_path h rel
  unfold purgeEntry
  dsimp only
  split
  · rfl
  split
  · rfl
  split
  · rfl
  split
  · rfl
  split
  · rfl
  split
  · rfl
  split
  · have hremove := lookup_removeDir_other t (pass.removeDir m) hother
    split
    · next heq => rwa [heq] at hremove
    · next heq =>
      rw [heq] at hremove
      rw [lookup_dropInfo, hremove]
  · split
    · rw [lookup_dropInfo, lookup_without, if_neg hother]
    · rfl

theorem lookup_purgeEntry (hn : n ∈ skipNames) (hutf8 : n.isUtf8 = true) (m : Name) (t : Disk δ)
    (rel : Location) :
    (purgeEntry th probes pass cutoff userProtected apply skipNames t m).1.fs.lookup
      (th.files ++ n :: rel) = t.fs.lookup (th.files ++ n :: rel) := by
  by_cases heq : m = n
  · subst heq
    simp [purgeEntry, hn, hutf8]
  · exact lookup_purgeEntry_other heq t rel

theorem lookup_purgeEntries (hn : n ∈ skipNames) (hutf8 : n.isUtf8 = true) (listing : List Name)
    (t : Disk δ) (sizes : List Nat) (rel : Location) :
    (purgeEntries th probes pass cutoff userProtected apply skipNames listing t
      sizes).1.fs.lookup (th.files ++ n :: rel) = t.fs.lookup (th.files ++ n :: rel) := by
  induction listing generalizing t sizes with
  | nil => rfl
  | cons m listing ih =>
    unfold purgeEntries
    exact (ih _ _).trans (lookup_purgeEntry hn hutf8 m t rel)

theorem lookup_emptyTrashFiles (hn : n ∈ skipNames) (hutf8 : n.isUtf8 = true) (size : Nat)
    (t : Disk δ) (rel : Location) :
    (emptyTrashFiles th probes pass apply userProtected skipNames size minAgeDays t).1.fs.lookup
      (th.files ++ n :: rel) = t.fs.lookup (th.files ++ n :: rel) := by
  have hpurge : (purgeAgedTrashEntries th probes pass minAgeDays userProtected apply skipNames
      t).1.fs.lookup (th.files ++ n :: rel) = t.fs.lookup (th.files ++ n :: rel) := by
    unfold purgeAgedTrashEntries
    split
    · rfl
    · exact lookup_purgeEntries hn hutf8 _ t [] rel
  unfold emptyTrashFiles
  rw [if_pos (Or.inr (List.ne_nil_of_mem hn))]
  split
  · next heq =>
    rw [heq] at hpurge
    split <;> exact hpurge
  · next heq => rwa [heq] at hpurge

end Kept

/-! ## The metadata lies elsewhere -/

theorem canonicalize_info {e : Entry δ} (h : th.fs.lookup th.info = some e) :
    th.canonicalize (render th.info) = .ok th.info :=
  th.canonicalize_render h fun target heq => th.info_own target (heq ▸ h)

theorem spared_wipeDir_info {userProtected : List String} {stopped : Option (List Location)}
    {recreate : Bool} (h : (th.fs.lookup th.info).isSome) (n : Name) :
    Spared th n (wipeDir userProtected stopped recreate th.info th.toDisk).1 := by
  intro rel e he
  obtain ⟨info, hinfo⟩ := Option.isSome_iff_exists.mp h
  have hother : ¬ th.info <+: th.files ++ n :: rel := by
    have hnone : ¬ th.info ++ [] <+: th.files ++ n :: rel := info_off_path [] (n :: rel)
    rwa [List.append_nil] at hnone
  have hremove := lookup_removeDir_other th.toDisk stopped hother
  unfold wipeDir
  split
  · next safePath hcheck =>
    obtain ⟨hsafe, -⟩ := checkSafeToDeleteGuard_ok (canonicalize_info hinfo) hcheck
    cases hsafe
    split
    · split
      · next heq =>
        rw [heq] at hremove
        exact hremove.trans he
      · next heq =>
        rw [heq] at hremove
        split
        · rcases lookup_makeDirs _ [] th.info (th.files ++ n :: rel) with hsame | ⟨hnone, -⟩
          · exact hsame.trans (hremove.trans he)
          · cases hnone.symm.trans (hremove.trans he)
        · exact hremove.trans he
    · exact he
  · exact he

theorem spared_emptyTrashInfo {probes : TrashProbes} {pass : TrashPass} {apply : Bool}
    {userProtected : List String} {skipNames : List Name} {minAgeDays : Nat} (n : Name) :
    Spared th n (emptyTrashInfo th probes pass apply userProtected skipNames minAgeDays
      th.toDisk).1 := by
  unfold emptyTrashInfo
  dsimp only
  split
  · next hinfo =>
    cases apply with
    | false => exact fun _ _ he => he
    | true => exact spared_wipeDir_info hinfo.2.2.1 n
  · exact fun _ _ he => he

/-! ## A name that is not kept -/

/-- Nothing in the trash is a system path: those are not that deep. -/
theorem render_files_not_system (n : Name) : render (th.files ++ [n]) ∉ systemProtected := by
  intro hin
  have hdepth : ∀ text ∈ systemProtected, text.toList.count '/' ≤ 1 := by decide
  have hcount := hdepth _ hin
  have hne : th.files ++ [n] ≠ [] := by simp
  rw [render, if_neg hne, String.toList_ofList, FileTree.count_renderChars] at hcount
  simp [TrashHome.files, trashPath] at hcount

/-- Without protected paths the gate lets every entry of the trash through but the links. -/
theorem check_trash_entry {n : Name} {e : Entry δ} (h : th.fs.lookup (th.files ++ [n]) = some e)
    (hlink : ∀ target, e ≠ .symlink target) :
    checkSafeToDeleteGuard th.toDisk (render (th.files ++ [n])) [] =
      .ok (.canonical (th.files ++ [n])) := by
  have hlstat : isSymlink th.toDisk (render (th.files ++ [n])) = false := by
    unfold isSymlink
    rw [th.lstat_render h]
    cases e with
    | symlink target => exact absurd rfl (hlink target)
    | dir => rfl
    | file data => rfl
    | special => rfl
  unfold checkSafeToDeleteGuard
  rw [th.canonicalize_render h hlink]
  simp [hlstat, render_files_not_system, refuseUserProtected]

/-- A pass a day after 1970 that comes to one entry only. -/
def agedPass (n : Name) : TrashPass where
  now := some (86400 * 1000000000)
  listing := [n]
  modified := fun _ => some 0

theorem trashCutoff_agedPass : trashCutoff (86400 * 1000000000) 1 = 0 := by decide

/-- The round that takes an entry out. -/
theorem purgeEntry_removes (probes : TrashProbes) {skipNames : List Name} {n : Name} {e : Entry δ}
    (hskip : n ∉ skipNames) (h : th.fs.lookup (th.files ++ [n]) = some e)
    (hlink : ∀ target, e ≠ .symlink target) :
    (purgeEntry th probes (agedPass n) 0 [] true skipNames th.toDisk n).1.fs.lookup
      (th.files ++ [n]) = none := by
  have hgone : ∀ t : Disk δ, (dropInfo th (agedPass n) n (t.without (th.files ++ [n]))).fs.lookup
      (th.files ++ [n]) = none := by
    intro t
    rw [lookup_dropInfo, lookup_without, if_pos (List.prefix_refl _)]
  unfold purgeEntry
  simp only [List.contains_eq_mem, hskip, decide_false, Bool.and_false, Bool.false_eq_true,
    if_false, agedPass, if_true, h, Int.lt_irrefl, check_trash_entry h hlink, Bool.not_true]
  split
  · exact hgone th.toDisk
  · exact hgone th.toDisk

/-- An entry outside the keep set goes when it is old enough. -/
theorem emptyTrashAt_removes {probes : TrashProbes} {n : Name} {e : Entry δ}
    (hsize : 0 < dirSize th.fs probes.sizing probes.len th.files)
    (hskip : n ∉ trashSkipNames th probes.guarding)
    (h : th.fs.lookup (th.files ++ [n]) = some e) (hlink : ∀ target, e ≠ .symlink target) :
    (emptyTrashAt th probes (agedPass n) true [] true 1).1.fs.lookup (th.files ++ [n]) = none := by
  have hentry := purgeEntry_removes probes hskip h hlink
  have hpurge : (purgeAgedTrashEntries th probes (agedPass n) 1 [] true
      (trashSkipNames th probes.guarding) th.toDisk).1.fs.lookup (th.files ++ [n]) = none := by
    unfold purgeAgedTrashEntries
    simp only [agedPass, if_true, trashCutoff_agedPass, purgeEntries]
    exact hentry
  have hinfo : ∀ t : Disk δ, (emptyTrashInfo th probes (agedPass n) true []
      (trashSkipNames th probes.guarding) 1 t).1 = t := by
    intro t
    simp [emptyTrashInfo]
  unfold emptyTrashAt emptyTrashFiles
  simp only [hsize, decide_true, Bool.and_self, if_true, Nat.zero_lt_one, true_or, hinfo]
  split
  · next heq =>
    rw [heq] at hpurge
    split <;> exact hpurge
  · next heq => rwa [heq] at hpurge

theorem Guarded.top {guarding : Scan} {n : Name} (h : Guarded th guarding n) :
    ∃ e, th.fs.lookup (th.files ++ [n]) = some e ∧ ∀ target, e ≠ .symlink target := by
  have habove : ∀ rel e, th.fs.lookup (th.files ++ n :: rel) = some e →
      (∀ target, e ≠ .symlink target) →
      ∃ e, th.fs.lookup (th.files ++ [n]) = some e ∧ ∀ target, e ≠ .symlink target := by
    intro rel e he hlink
    by_cases hrel : rel = []
    · subst hrel
      exact ⟨e, he, hlink⟩
    · have hdir : entryAt th.fs (th.files ++ [n]) = some .dir :=
        th.closed.dir_above hrel (by rw [List.append_assoc]; exact he ▸ rfl)
      rw [entryAt_concat] at hdir
      exact ⟨.dir, hdir, fun _ => nofun⟩
  rcases h with ⟨rel, data, he, -⟩ | ⟨rel, he, -⟩
  · exact habove rel _ he fun _ => nofun
  · exact habove rel _ he fun _ => nofun

/-! ## What the scan does not miss -/

section Seen

variable {guarding : Scan} {n : Name} {rel : Location}

theorem flagged_of_item {item : WalkItem δ} {k : Location} {e : Entry δ}
    (he : th.fs.lookup (th.files ++ k) = some e)
    (hitem : item ∈ itemsAt guarding (some trashScanMaxDepth) th.files (k, e))
    (hflags : Flags n item) :
    Flagged th guarding n :=
  ⟨item, mem_walkDir.mpr ⟨k, e, he, hitem⟩, hflags⟩

/-- A directory the walk comes to and does not list. -/
theorem flagged_of_dir (hcut : ∀ q shown, guarding.listing q ≠ .cut shown)
    (hreach : guarding.reaches th.files (n :: rel) = true)
    (hdir : th.fs.lookup (th.files ++ n :: rel) = some .dir)
    (hdepth : (n :: rel).length ≤ trashScanMaxDepth)
    (hstop : ¬ (guarding.Whole (th.files ++ n :: rel) ∧ (n :: rel).length < trashScanMaxDepth)) :
    Flagged th guarding n := by
  by_cases huntyped : guarding.untyped (th.files ++ n :: rel) = true
  · exact flagged_of_item hdir (failed_mem_itemsAt hreach (decide_eq_true hdepth) huntyped) rfl
  have htyped : guarding.untyped (th.files ++ n :: rel) = false := by simpa using huntyped
  by_cases hcap : (n :: rel).length = trashScanMaxDepth
  · exact flagged_of_item hdir (entry_mem_itemsAt hreach (decide_eq_true hdepth) htyped) ⟨rfl, hcap⟩
  · have hshort : (n :: rel).length < trashScanMaxDepth := lt_of_le_of_ne hdepth hcap
    have hlisting : guarding.listing (th.files ++ n :: rel) = .closed := by
      cases hl : guarding.listing (th.files ++ n :: rel) with
      | whole => exact absurd ⟨⟨htyped, hl⟩, hshort⟩ hstop
      | closed => rfl
      | cut shown => exact absurd hl (hcut _ shown)
    have herror : (.failed (some (n :: rel)) : WalkItem δ) ∈
        listingErrors (n :: rel) (guarding.listing (th.files ++ n :: rel)) := by
      rw [hlisting]
      exact List.mem_singleton_self _
    exact flagged_of_item hdir
      (error_mem_itemsAt hreach (decide_eq_true hshort) htyped herror) rfl

/-- Below the cap the directory at the cap is enough. -/
theorem flagged_of_deep (hcut : ∀ q shown, guarding.listing q ≠ .cut shown)
    (hreach : guarding.reaches th.files (n :: rel) = true)
    (hsome : (th.fs.lookup (th.files ++ n :: rel)).isSome)
    (hdeep : trashScanMaxDepth < (n :: rel).length) : Flagged th guarding n := by
  obtain ⟨m, hm⟩ : ∃ m, trashScanMaxDepth = m + 1 := ⟨15, rfl⟩
  rw [hm, List.length_cons, Nat.add_lt_add_iff_right] at hdeep
  have hsplit : n :: rel = (n :: rel.take m) ++ rel.drop m := by simp
  have hlength : (n :: rel.take m).length = trashScanMaxDepth := by
    rw [List.length_cons, List.length_take_of_le hdeep.le, hm]
  rw [hsplit] at hreach hsome
  rw [Scan.reaches_append, Bool.and_eq_true] at hreach
  have hdir : entryAt th.fs (th.files ++ n :: rel.take m) = some .dir := by
    have hrest : rel.drop m ≠ [] := by simpa [List.drop_eq_nil_iff] using hdeep
    exact th.closed.dir_above hrest (by rwa [List.append_assoc])
  rw [entryAt, if_neg (by simp)] at hdir
  exact flagged_of_dir hcut hreach.1 hdir hlength.le fun hstop => hstop.2.ne hlength

/-- **The scan misses nothing** as long as the trash itself is listed and no listing breaks
off. -/
theorem flagged_of_guarded (hroot : guarding.Whole th.files)
    (hcut : ∀ q shown, guarding.listing q ≠ .cut shown) (h : Guarded th guarding n) :
    Flagged th guarding n := by
  -- a directory that is not listed, at whatever depth
  have hstopped : ∀ rel, guarding.reaches th.files (n :: rel) = true →
      th.fs.lookup (th.files ++ n :: rel) = some .dir →
      ¬ (guarding.Whole (th.files ++ n :: rel) ∧ (n :: rel).length < trashScanMaxDepth) →
      Flagged th guarding n := by
    intro rel hreach hdir hstop
    by_cases hdepth : (n :: rel).length ≤ trashScanMaxDepth
    · exact flagged_of_dir hcut hreach hdir hdepth hstop
    · exact flagged_of_deep hcut hreach (by rw [hdir]; rfl) (not_le.mp hdepth)
  -- what is not reached lies below one
  have hmissed : ∀ rel, (th.fs.lookup (th.files ++ n :: rel)).isSome →
      guarding.reaches th.files (n :: rel) = true ∨ Flagged th guarding n := by
    intro rel hsome
    rcases th.closed.reaches_or_stops guarding hsome with hreach | ⟨k, m, hk, hreach, hdir, hstop⟩
    · exact Or.inl hreach
    · right
      cases k with
      | nil => exact absurd (by rwa [List.append_nil]) hstop
      | cons top k =>
        obtain rfl : top = n := (List.cons_prefix_cons.mp hk).1
        rw [entryAt, if_neg (by simp)] at hdir
        exact hstopped k hreach hdir fun hwhole => hstop hwhole.1
  rcases h with ⟨rel, data, he, hcred⟩ | ⟨rel, he, hstop⟩
  · rcases hmissed rel (by rw [he]; rfl) with hreach | hflagged
    · by_cases hdepth : (n :: rel).length ≤ trashScanMaxDepth
      · by_cases huntyped : guarding.untyped (th.files ++ n :: rel) = true
        · exact flagged_of_item he (failed_mem_itemsAt hreach (decide_eq_true hdepth) huntyped) rfl
        · exact flagged_of_item he
            (entry_mem_itemsAt hreach (decide_eq_true hdepth) (by simpa using huntyped)) ⟨rfl, hcred⟩
      · exact flagged_of_deep hcut hreach (by rw [he]; rfl) (not_le.mp hdepth)
    · exact hflagged
  · rcases hmissed rel (by rw [he]; rfl) with hreach | hflagged
    · exact hstopped rel hreach he fun hwhole => hstop ⟨hreach, hwhole⟩
    · exact hflagged

end Seen

/-! ## The boundary -/

/-- **When the guard holds.** Of an empty trash, and of one in which every entry that should be
spared has a name that is UTF-8 and something the scan sees. -/
theorem trash_guard_iff (th : TrashHome δ) (probes : TrashProbes) :
    TrashGuard th probes ↔ dirSize th.fs probes.sizing probes.len th.files = 0 ∨
      ∀ n, Guarded th probes.guarding n → n.isUtf8 = true ∧ Flagged th probes.guarding n := by
  constructor
  · intro hguard
    by_contra hnot
    simp only [not_or, not_forall] at hnot
    obtain ⟨hsize, n, hn, hmissed⟩ := hnot
    obtain ⟨e, he, hlink⟩ := hn.top
    have hskip : n ∉ trashSkipNames th probes.guarding := fun hin =>
      hmissed (mem_trashSkipNames.mp hin)
    have hgone := emptyTrashAt_removes (Nat.pos_of_ne_zero hsize) hskip he hlink
    rw [hguard (agedPass n) true [] 1 n hn [] e he] at hgone
    cases hgone
  · rintro (hsize | hkept) pass apply userProtected minAgeDays n hn
    · unfold emptyTrashAt
      simp only [hsize, lt_irrefl, if_false, decide_false, Bool.false_and, Bool.false_eq_true]
      exact spared_emptyTrashInfo n
    · by_cases hsize : 0 < dirSize th.fs probes.sizing probes.len th.files
      · have hskip := mem_trashSkipNames.mpr (hkept n hn)
        intro rel e he
        have hfiles : (emptyTrashFiles th probes pass apply userProtected
            (trashSkipNames th probes.guarding)
            (dirSize th.fs probes.sizing probes.len th.files) minAgeDays th.toDisk).1.fs.lookup
              (th.files ++ n :: rel) = th.fs.lookup (th.files ++ n :: rel) :=
          lookup_emptyTrashFiles hskip (hkept n hn).1 _ th.toDisk rel
        have hinfo : ∀ t : Disk δ, (emptyTrashInfo th probes pass apply userProtected
            (trashSkipNames th probes.guarding) minAgeDays t).1 = t := by
          intro t
          simp [emptyTrashInfo, List.ne_nil_of_mem hskip]
        unfold emptyTrashAt
        simp only [hsize, decide_true, Bool.and_self, if_true, hinfo]
        exact hfiles.trans he
      · unfold emptyTrashAt
        simp only [hsize, if_false, decide_false, Bool.false_and, Bool.false_eq_true]
        exact spared_emptyTrashInfo n

end Trash

/-! ## A directory whose name is no text -/

private def latinName : Name := ⟨"caf\xe9", by decide⟩

private def keyName : Name := ⟨"id_rsa", by decide⟩

private theorem files_valid : "files".toList ≠ [] ∧ '/' ∉ "files".toList := by decide

private def trashFiles : Location := trashPath ++ [⟨"files", files_valid⟩]

/-- The directory `caf\xe9`, with a key in it, in the trash. -/
private def latinFs : Fs Unit :=
  ((((((∅ : Fs Unit).insert (trashPath.take 1) .dir).insert (trashPath.take 2) .dir).insert
    trashPath .dir).insert trashFiles .dir).insert (trashFiles ++ [latinName]) .dir).insert
    (trashFiles ++ [latinName, keyName]) (.file ())

private theorem latinFs_info (target : FileTree.Spelled) :
    latinFs.lookup (trashPath ++ [⟨"info", by decide⟩]) ≠ some (.symlink target) := by
  have hnone : latinFs.lookup (trashPath ++ [⟨"info", by decide⟩]) = none := by decide
  rw [hnone]
  exact fun h => nomatch h

private theorem latinFs_closed : FileTree.Closed latinFs := FileTree.closed_of_keys (by decide)

private theorem latinFs_plain (q : Location) (hq : (latinFs.lookup q).isSome) :
    ∀ n ∈ q, n.isPlain = true := FileTree.plain_of_keys (by decide) q hq

private theorem latinFs_files : latinFs.lookup trashFiles = some .dir := by decide

private def latinTrash : TrashHome Unit where
  fs := latinFs
  closed := latinFs_closed
  cwd := []
  cwd_dir := rfl
  plain := latinFs_plain
  home := []
  files_dir := latinFs_files
  info_own := latinFs_info

/-- The key is found, and its entry cannot be kept by name. -/
theorem latin_key_purged : ¬ TrashGuard latinTrash { len := fun _ => 1 } := by
  intro hguard
  have hkey : Guarded latinTrash {} latinName :=
    Or.inl ⟨[keyName], (), by decide, by decide⟩
  have hspared := hguard (agedPass latinName) true [] 1 latinName hkey [keyName] (.file ())
    (by decide)
  have hgone : (emptyTrashAt latinTrash { len := fun _ => 1 } (agedPass latinName) true [] true
      1).1.fs.lookup (latinTrash.files ++ [latinName, keyName]) = none := by decide +kernel
  rw [hgone] at hspared
  cases hspared

end DraconGuard
