import DraconGuard.Clean.Links
import DraconGuard.Clean.StashLaw

/-!
# A failed link entry leaves what was there

`apply_one_link` (links.rs:249-314) has one call that may fail after something was taken out of
its way, and puts back what it renamed. A batch goes on after every failure.

* A directory or a file comes back, or is whole in the backup the message names.
* **A link that was unlinked does not come back** (`LinkLoses`, `drifted_link_lost`), whatever made
  the call fail.
* Nor does anything come back by a path that led through what was renamed (the second half of
  `LinkLoses`): neither the link path nor the backup's leads anywhere.

`applyOneLink_cases` is what one turn comes to, `linkBatch_atomic` the batch. What it leaves open,
`LinkMisleads`, takes a backup name that was not free or a working directory that is moved away
(`LinkMisleads.carried`).
-/

namespace DraconGuard

open FileTree

/-! ## The parent of a path that is there -/

theorem trimmedParts_concat {dir : List Name} {last : Name} (h : last.isPlain = true) :
    trimmedParts (dir ++ [last]) = dir ++ [last] := by
  have hne : last ≠ Name.current := by
    rintro rfl
    cases h
  exact List.rdropWhile_concat_neg _ _ _ (by simpa using hne)

theorem trimmedParts_slash {dir : List Name} {last : Name} (h : last.isPlain = true) :
    trimmedParts (dir ++ [last] ++ [Name.current]) = dir ++ [last] := by
  have hdrop := List.rdropWhile_concat_pos (fun n => decide (n = Name.current)) (dir ++ [last])
    Name.current (by simp)
  exact hdrop.trans (trimmedParts_concat h)

theorem trimmedParts_spelled (p : EntryPath) : trimmedParts p.spelled.parts = p.dir ++ [p.last] := by
  unfold EntryPath.spelled
  cases p.slash with
  | true => exact trimmedParts_slash p.plain
  | false =>
    dsimp only
    rw [if_neg (by decide), List.append_nil]
    exact trimmedParts_concat p.plain

theorem spelled_of_parse {text : String} {p : Spelled} (h : Spelled.parse text = some p) :
    spelled text = p := by
  rw [spelled, h]
  rfl

/-- The directory of an entry path is the path's parent. -/
theorem parentOfPath_of_entry {link : String} {p : EntryPath} (h : EntryPath.parse link = some p) :
    parentOfPath (spelled link) = { absolute := p.absolute, parts := p.dir } := by
  rw [spelled_of_parse (EntryPath.parse_spelled h), parentOfPath, trimmedParts_spelled,
    List.dropLast_concat]
  rfl

theorem parentOf_eq {link : String} {p : EntryPath} (h : EntryPath.parse link = some p)
    (t : Disk FileData) : t.parentOf p =
      resolveDir t.fs ((parentOfPath (spelled link)).start t.cwd)
        (parentOfPath (spelled link)).parts := by
  rw [parentOfPath_of_entry h]
  rfl

section Parent

variable {t : Disk FileData} {link : String} {q : Location} {e : Entry FileData}

theorem lstat_spelled (h : t.lstat link = .ok (q, e)) :
    lstatFrom t.fs ((spelled link).start t.cwd) (spelled link).parts = .ok (q, e) := by
  unfold Disk.lstat FileTree.lstat at h
  split at h
  · cases h
  · next p hp => rwa [spelled_of_parse hp]

theorem parentOfPath_prefix (p : Spelled) : (parentOfPath p).parts <+: p.parts :=
  (List.dropLast_prefix _).trans (List.rdropWhile_prefix _ _)

theorem parentOfPath_start (p : Spelled) (cwd : Location) :
    (parentOfPath p).start cwd = p.start cwd := rfl

/-- **What is there is in a directory**: the parent of a path that names something leads to one. -/
theorem resolveDir_parent (h : t.lstat link = .ok (q, e)) :
    ∃ parent, resolveDir t.fs ((parentOfPath (spelled link)).start t.cwd)
      (parentOfPath (spelled link)).parts = .ok parent := by
  have hl := lstat_spelled h
  rw [parentOfPath_start]
  generalize hp : spelled link = p at hl
  have hstart := t.start_dir p
  cases hlast : p.parts.getLast? with
  | none =>
    have hnil : p.parts = [] := by simpa using hlast
    refine ⟨p.start t.cwd, resolveDir_eq_ok.mpr ⟨?_, hstart⟩⟩
    have hparent : (parentOfPath p).parts = [] := List.prefix_nil.mp (hnil ▸ parentOfPath_prefix p)
    rw [hparent, resolve_nil]
  | some last =>
    have hparts : p.parts = p.parts.dropLast ++ [last] :=
      (List.dropLast_append_getLast? last hlast).symm
    unfold lstatFrom at hl
    rw [hlast] at hl
    dsimp only at hl
    split at hl
    · next hplain =>
      have hparent : (parentOfPath p).parts = p.parts.dropLast := by
        rw [parentOfPath, hparts, trimmedParts_concat hplain, List.dropLast_concat]
      rw [hparent]
      split at hl
      · cases hl
      next parent hwalk =>
      split at hl
      · next hdir _ => exact ⟨parent, resolveDir_eq_ok.mpr ⟨hwalk, hdir⟩⟩
      · cases hl
      · cases hl
    · next hplain =>
      split at hl
      · cases hl
      next r hwalk =>
      have hr : entryAt t.fs r = some .dir :=
        t.dir_of_resolve_dots hwalk hstart hparts (by simpa using hplain)
      obtain ⟨ys, hys⟩ := parentOfPath_prefix p
      rw [← hys] at hwalk
      obtain ⟨parent, hparent⟩ := resolve_prefix hwalk
      exact ⟨parent, resolveDir_eq_ok.mpr
        ⟨hparent, t.dir_of_resolve_append hparent hstart hwalk hr⟩⟩

theorem createDirAll_eq {p : Spelled} (hfs : (makeDirs t.fs (p.start t.cwd) p.parts).1 = t.fs) :
    (t.createDirAll p).1 = t := Disk.eq_of hfs rfl

/-- Nothing is made for a path that names something. -/
theorem createParent_of_lstat (h : t.lstat link = .ok (q, e)) (calls : LinkCalls) :
    (createParent t calls link).1 = t ∧
      (calls.createDirs = none → (createParent t calls link).2 = .ok ()) := by
  obtain ⟨parent, hparent⟩ := resolveDir_parent h
  obtain ⟨hwalk, hdir⟩ := resolveDir_eq_ok.mp hparent
  unfold createParent
  cases hcalls : calls.createDirs with
  | some k =>
    rw [← List.take_append_drop k (parentOfPath (spelled link)).parts] at hwalk
    exact ⟨createDirAll_eq (makeDirs_of_resolve (Nat.le_refl maxLinks) hwalk),
      fun hnone => nomatch hnone⟩
  | none =>
    have hmade := t.makeDirs_of_resolve (Nat.le_refl maxLinks) (t.start_dir _) hwalk hdir
    have hdisk : (t.createDirAll (parentOfPath (spelled link))).1 = t :=
      createDirAll_eq (congrArg Prod.fst hmade)
    have hok : (t.createDirAll (parentOfPath (spelled link))).2 = .ok parent :=
      congrArg Prod.snd hmade
    dsimp only
    split
    · next heq =>
      rw [heq] at hdisk
      exact ⟨hdisk, fun _ => rfl⟩
    · next heq =>
      rw [heq] at hok
      cases hok

end Parent

/-! ## The steps before the call -/

/-- The target is there, and nothing fails before the link path is looked at. -/
structure Arrives (t : Disk FileData) (home : Option String) (calls : LinkCalls)
    (entry : LinkEntry) : Prop where
  statTarget : calls.statTarget = false
  target : pathExists t (expandTilde home entry.target) = true
  createDirs : calls.createDirs = none
  inspect : calls.inspect = false

/-- A link that is not in sync, unlinked. -/
def Unlinks (t : Disk FileData) (home : Option String) (calls : LinkCalls) (entry : LinkEntry)
    (t₁ : Disk FileData) : Prop :=
  ∃ q target, t.lstat (expandTilde home entry.link) = .ok (q, .symlink target) ∧
    (evaluateLink t home calls.evaluate entry).inSync = false ∧ calls.removeFile = false ∧
    t.unlinkAt q = .ok t₁

/-- A force replace that has renamed `e`, which the link path names, to the backup. -/
structure Aside (t : Disk FileData) (calls : LinkCalls) (link : String)
    (protectedPaths : List String) (q : Location) (e : Entry FileData) (b : BackupPath)
    (dst : Location) (t₁ : Disk FileData) : Prop where
  named : t.lstat link = .ok (q, e)
  noLink : entryIsSymlink e = false
  guardCheck : calls.guardCheck = false
  safe : ∃ safeLink, checkSafeToDeleteGuard t link protectedPaths = .ok safeLink
  backup : b = backupPathFor t calls link
  rename : calls.rename = false
  place : b.place t = .ok dst
  renamed : t.renameAt q dst = .ok t₁

/-- `symlink(2)` fails. -/
def LinkFails (t : Disk FileData) (calls : LinkCalls) (link target : String) : Prop :=
  calls.symlink = true ∨ ∃ e, t.symlinkAt (spelled target) link = .error e

theorem createLink_fails {t : Disk FileData} {calls : LinkCalls} {link target : String}
    (h : LinkFails t calls link target) (backup : Option BackupPath) :
    ∃ error, createLink t calls link target backup = undoLink t calls link backup error := by
  unfold createLink
  by_cases hcalls : calls.symlink = true
  · exact ⟨calls.ioError, by rw [if_pos hcalls]⟩
  · obtain ⟨e, he⟩ := h.resolve_left hcalls
    exact ⟨e.message, by rw [if_neg hcalls, he]⟩

theorem createLink_made {t : Disk FileData} {calls : LinkCalls} {link target : String}
    (h : ¬ LinkFails t calls link target) (backup : Option BackupPath) :
    ∃ t', t.symlinkAt (spelled target) link = .ok t' ∧
      createLink t calls link target backup = { disk := t', result := .ok (), created := true } := by
  obtain ⟨hcalls, hok⟩ := not_or.mp h
  unfold createLink
  rw [if_neg hcalls]
  cases hlink : t.symlinkAt (spelled target) link with
  | error e => exact absurd ⟨e, hlink⟩ hok
  | ok t' => exact ⟨t', rfl, rfl⟩

theorem undoLink_result (t : Disk FileData) (calls : LinkCalls) (link : String)
    (backup : Option BackupPath) (error : String) :
    (undoLink t calls link backup error).result = .error error := by
  unfold undoLink
  split
  · rfl
  · split
    · rfl
    · split <;> rfl

section Steps

variable {t t₁ : Disk FileData} {home : Option String} {calls : LinkCalls} {force : Bool}
  {protectedPaths : List String} {entry : LinkEntry} {q dst : Location} {e : Entry FileData}
  {b : BackupPath} {link : String}

theorem noLink_iff : entryIsSymlink e = false ↔ ∀ target, e ≠ .symlink target := by
  cases e <;> simp [entryIsSymlink]

/-- The gate hands back what the path names. -/
theorem location_of_lstat (h : t.lstat link = .ok (q, e)) (hlink : entryIsSymlink e = false)
    {safeLink : CheckedPath} (hsafe : checkSafeToDeleteGuard t link protectedPaths = .ok safeLink) :
    safeLink.location q = q := by
  have hq := Disk.canonicalize_of_lstat h (noLink_iff.mp hlink)
  rw [(checkSafeToDeleteGuard_ok hq hsafe).1]
  rfl

theorem moveAside_ready (h : Aside t calls link protectedPaths q e b dst t₁) :
    moveAside t calls link protectedPaths q = .ready t₁ (some b) := by
  obtain ⟨safeLink, hsafe⟩ := h.safe
  have hloc := location_of_lstat h.named h.noLink hsafe
  have hb := h.backup
  subst hb
  unfold moveAside
  rw [if_neg (by simp [h.guardCheck]), hsafe]
  dsimp only
  rw [if_neg (by simp [h.rename]), h.place]
  dsimp only
  rw [hloc, h.renamed]

/-- A force replace stops with the disk as it was, or has renamed something aside. -/
theorem moveAside_cases (h : t.lstat link = .ok (q, e)) (hlink : entryIsSymlink e = false) :
    (∃ result, moveAside t calls link protectedPaths q = .finished t result) ∨
      ∃ b dst t₁, Aside t calls link protectedPaths q e b dst t₁ := by
  unfold moveAside
  by_cases hguard : calls.guardCheck = true
  · exact Or.inl ⟨_, by rw [if_pos hguard]⟩
  rw [if_neg hguard]
  cases hsafe : checkSafeToDeleteGuard t link protectedPaths with
  | error e => exact Or.inl ⟨_, rfl⟩
  | ok safeLink =>
    dsimp only
    by_cases hrename : calls.rename = true
    · exact Or.inl ⟨_, by rw [if_pos hrename]⟩
    rw [if_neg hrename]
    cases hplace : (backupPathFor t calls link).place t with
    | error e => exact Or.inl ⟨_, rfl⟩
    | ok dst =>
      dsimp only
      rw [location_of_lstat h hlink hsafe]
      cases hrenamed : t.renameAt q dst with
      | error e => exact Or.inl ⟨_, rfl⟩
      | ok t₁ =>
        exact Or.inr ⟨_, dst, t₁, h, hlink, by simpa using hguard, ⟨safeLink, hsafe⟩, rfl,
          by simpa using hrename, hplace, hrenamed⟩

theorem prepareLink_of_arrives (h : Arrives t home calls entry)
    (hnamed : t.lstat (expandTilde home entry.link) = .ok (q, e)) :
    prepareLink t home calls force protectedPaths entry =
      clearLinkPath t home calls force protectedPaths entry := by
  obtain ⟨hdisk, hok⟩ := createParent_of_lstat hnamed calls
  have hmade : createParent t calls (expandTilde home entry.link) = (t, .ok ()) :=
    Prod.ext hdisk (hok h.createDirs)
  unfold prepareLink
  rw [if_neg (by simp [h.statTarget, h.target]), hmade]

theorem clearLinkPath_link (hinspect : calls.inspect = false) {target : Spelled}
    (hnamed : t.lstat (expandTilde home entry.link) = .ok (q, .symlink target)) :
    clearLinkPath t home calls force protectedPaths entry =
      if (evaluateLink t home calls.evaluate entry).inSync then .finished t (.ok ())
      else if calls.removeFile then .finished t (.error calls.ioError)
      else match t.unlinkAt q with
        | .error e => .finished t (.error e.message)
        | .ok t' => .ready t' none := by
  unfold clearLinkPath
  dsimp only
  rw [hnamed, hinspect]
  rfl

theorem clearLinkPath_noLink (hinspect : calls.inspect = false)
    (hnamed : t.lstat (expandTilde home entry.link) = .ok (q, e))
    (hlink : entryIsSymlink e = false) :
    clearLinkPath t home calls force protectedPaths entry =
      if force then moveAside t calls (expandTilde home entry.link) protectedPaths q
      else .finished t (.ok ()) := by
  unfold clearLinkPath
  dsimp only
  rw [hnamed, hinspect]
  cases e with
  | symlink target => cases hlink
  | dir => rfl
  | file data => rfl
  | special => rfl

theorem clearLinkPath_unlinks (hinspect : calls.inspect = false)
    (h : Unlinks t home calls entry t₁) :
    clearLinkPath t home calls force protectedPaths entry = .ready t₁ none := by
  obtain ⟨q, target, hnamed, hsync, hremove, hunlink⟩ := h
  rw [clearLinkPath_link hinspect hnamed, if_neg (by simp [hsync]), if_neg (by simp [hremove]),
    hunlink]

theorem clearLinkPath_aside (hinspect : calls.inspect = false) (hforce : force = true)
    (h : Aside t calls (expandTilde home entry.link) protectedPaths q e b dst t₁) :
    clearLinkPath t home calls force protectedPaths entry = .ready t₁ (some b) := by
  rw [clearLinkPath_noLink hinspect h.named h.noLink, if_pos hforce, moveAside_ready h]

/-- **What is in the way** of a link: nothing has changed, or a link is gone, or something is in
the backup. -/
theorem clearLinkPath_cases (hnamed : t.lstat (expandTilde home entry.link) = .ok (q, e)) :
    (∃ result, clearLinkPath t home calls force protectedPaths entry = .finished t result) ∨
    clearLinkPath t home calls force protectedPaths entry = .ready t none ∨
    (calls.inspect = false ∧ ∃ t₁, Unlinks t home calls entry t₁) ∨
    (calls.inspect = false ∧ force = true ∧ ∃ b dst t₁,
      Aside t calls (expandTilde home entry.link) protectedPaths q e b dst t₁) := by
  by_cases hinspect : calls.inspect = true
  · refine Or.inr (Or.inl ?_)
    unfold clearLinkPath
    dsimp only
    rw [if_pos hinspect]
  have hinspect' : calls.inspect = false := by simpa using hinspect
  cases hlink : entryIsSymlink e with
  | false =>
    rw [clearLinkPath_noLink hinspect' hnamed hlink]
    by_cases hforce : force = true
    · rw [if_pos hforce]
      rcases @moveAside_cases _ _ _ _ _ _ hnamed hlink with ⟨result, hstop⟩ | haside
      · exact Or.inl ⟨result, hstop⟩
      · exact Or.inr (Or.inr (Or.inr ⟨hinspect', hforce, haside⟩))
    · rw [if_neg hforce]
      exact Or.inl ⟨_, rfl⟩
  | true =>
    cases e with
    | dir => cases hlink
    | file data => cases hlink
    | special => cases hlink
    | symlink target =>
      rw [clearLinkPath_link hinspect' hnamed]
      by_cases hsync : (evaluateLink t home calls.evaluate entry).inSync = true
      · exact Or.inl ⟨_, by rw [if_pos hsync]⟩
      rw [if_neg hsync]
      by_cases hremove : calls.removeFile = true
      · exact Or.inl ⟨_, by rw [if_pos hremove]⟩
      rw [if_neg hremove]
      cases hunlink : t.unlinkAt q with
      | error err => exact Or.inl ⟨_, rfl⟩
      | ok t₁ =>
        exact Or.inr (Or.inr (Or.inl ⟨hinspect', t₁, q, target, hnamed, by simpa using hsync,
          by simpa using hremove, hunlink⟩))

/-- **What one turn comes to** when the link path names something: it has failed with nothing
changed, or it has succeeded, or the call is made with a link gone or something in the backup. -/
theorem applyOneLink_cases (hnamed : t.lstat (expandTilde home entry.link) = .ok (q, e)) :
    (applyOneLink t home calls force protectedPaths entry).disk = t ∨
    (applyOneLink t home calls force protectedPaths entry).result = .ok () ∨
    (Arrives t home calls entry ∧ ∃ t₁, Unlinks t home calls entry t₁) ∨
    (Arrives t home calls entry ∧ force = true ∧ ∃ b dst t₁,
      Aside t calls (expandTilde home entry.link) protectedPaths q e b dst t₁) := by
  obtain ⟨hdisk, -⟩ := createParent_of_lstat hnamed calls
  by_cases hstat : (calls.statTarget || !pathExists t (expandTilde home entry.target)) = true
  · left
    unfold applyOneLink prepareLink
    rw [if_pos hstat]
  obtain ⟨hstat', htarget⟩ : calls.statTarget = false ∧
      pathExists t (expandTilde home entry.target) = true := by simpa using hstat
  cases hmade : createParent t calls (expandTilde home entry.link) with
  | mk t' result =>
  rw [hmade] at hdisk
  obtain rfl : t' = t := hdisk
  cases result with
  | error err =>
    left
    unfold applyOneLink prepareLink
    rw [if_neg hstat, hmade]
  | ok u =>
    have hdirs : calls.createDirs = none := by
      cases hcalls : calls.createDirs with
      | none => rfl
      | some k =>
        unfold createParent at hmade
        rw [hcalls] at hmade
        have hresult := congrArg Prod.snd hmade
        cases hresult
    have hprepare : prepareLink t' home calls force protectedPaths entry =
        clearLinkPath t' home calls force protectedPaths entry := by
      unfold prepareLink
      rw [if_neg hstat, hmade]
    rcases clearLinkPath_cases hnamed with ⟨result, hstop⟩ | hready | ⟨hinspect, hgone⟩ |
      ⟨hinspect, haside⟩
    · left
      unfold applyOneLink
      rw [hprepare, hstop]
    · unfold applyOneLink
      rw [hprepare, hready]
      dsimp only
      by_cases hfails : LinkFails t' calls (expandTilde home entry.link)
          (expandTilde home entry.target)
      · left
        obtain ⟨error, herror⟩ := createLink_fails hfails none
        rw [herror]
        rfl
      · right
        left
        obtain ⟨made, -, hmade'⟩ := createLink_made hfails none
        rw [hmade']
    · exact Or.inr (Or.inr (Or.inl ⟨⟨hstat', htarget, hdirs, hinspect⟩, hgone⟩))
    · exact Or.inr (Or.inr (Or.inr ⟨⟨hstat', htarget, hdirs, hinspect⟩, haside⟩))

theorem applyOneLink_unlinks (h : Arrives t home calls entry)
    (hgone : Unlinks t home calls entry t₁) :
    applyOneLink t home calls force protectedPaths entry =
      createLink t₁ calls (expandTilde home entry.link) (expandTilde home entry.target) none := by
  have ⟨_, _, hnamed, _⟩ := hgone
  unfold applyOneLink
  rw [prepareLink_of_arrives h hnamed, clearLinkPath_unlinks h.inspect hgone]

theorem applyOneLink_aside (h : Arrives t home calls entry) (hforce : force = true)
    (haside : Aside t calls (expandTilde home entry.link) protectedPaths q e b dst t₁) :
    applyOneLink t home calls force protectedPaths entry =
      createLink t₁ calls (expandTilde home entry.link) (expandTilde home entry.target)
        (some b) := by
  unfold applyOneLink
  rw [prepareLink_of_arrives h haside.named, clearLinkPath_aside h.inspect hforce haside]

/-! ## Where the backup is -/

theorem BackupPath.place_eq_ok {r : Location} : b.place t = .ok r ↔
    ∃ parent, resolveDir t.fs (b.dir.start t.cwd) b.dir.parts = .ok parent ∧
      r = parent ++ [b.name] := by
  unfold BackupPath.place
  cases resolveDir t.fs (b.dir.start t.cwd) b.dir.parts with
  | error err => simp
  | ok parent => simp [eq_comm]

theorem backupPathFor_dir (t : Disk FileData) (calls : LinkCalls) (link : String) :
    (backupPathFor t calls link).dir = parentOfPath (spelled link) := by
  unfold backupPathFor
  dsimp only
  split <;> rfl

theorem Aside.dir (h : Aside t calls link protectedPaths q e b dst t₁) :
    b.dir = parentOfPath (spelled link) := by
  rw [h.backup, backupPathFor_dir]

/-- A path that names something leads there by its parent. -/
theorem Aside.fails_with (h : Aside t calls link protectedPaths q e b dst t₁)
    (hlost : ∀ r, b.place t₁ ≠ .ok r) : ∀ r, t₁.lstat link ≠ .ok r := by
  rintro ⟨r, e'⟩ hnamed
  obtain ⟨parent, hparent⟩ := resolveDir_parent hnamed
  rw [← h.dir] at hparent
  exact hlost _ (BackupPath.place_eq_ok.mpr ⟨parent, hparent, rfl⟩)

/-- Nor is anything put back where no path leads. -/
theorem restore_fails_with (hlost : ∀ r, b.place t₁ ≠ .ok r) (link : String) :
    ∃ err, restoreAfterFailedSymlink t₁ b link = .error err := by
  unfold restoreAfterFailedSymlink
  cases hplace : b.place t₁ with
  | error err => exact ⟨_, rfl⟩
  | ok r => exact absurd hplace (hlost r)

/-- A directory is not renamed over a link. -/
theorem renameAt_over_link {t t' : Disk FileData} {src dst : Location} {target : Spelled}
    (hsrc : t.fs.lookup src = some .dir) (hdst : t.fs.lookup dst = some (.symlink target)) :
    t.renameAt src dst ≠ .ok t' := by
  intro h
  unfold Disk.renameAt at h
  rw [hsrc] at h
  dsimp only at h
  split at h
  · next heq =>
    rw [← heq, hsrc] at hdst
    cases hdst
  split at h
  · cases h
  unfold inTheWay at h
  rw [hdst] at h
  simp [Entry.isDir] at h

/-- **A path with a separator after its name** names the directory there, or the one that a link
there leads to. -/
theorem lstat_slash {p : EntryPath} {parent : Location} (hp : EntryPath.parse link = some p)
    (hslash : p.slash = true) (hparent : t.parentOf p = .ok parent)
    (hnamed : t.lstat link = .ok (q, e)) :
    e = .dir ∧ (q = parent ++ [p.last] ∨
      ∃ target, t.fs.lookup (parent ++ [p.last]) = some (.symlink target)) := by
  have hparts : p.spelled.parts = p.dir ++ [p.last] ++ [Name.current] := by
    simp [EntryPath.spelled, hslash]
  have hl := lstat_spelled hnamed
  rw [spelled_of_parse (EntryPath.parse_spelled hp), hparts] at hl
  unfold lstatFrom at hl
  rw [List.getLast?_append_cons, List.getLast?_singleton] at hl
  dsimp only at hl
  rw [if_neg (by decide)] at hl
  split at hl
  · cases hl
  next r hwalk =>
  have hstart := t.start_dir p.spelled
  have hr : entryAt t.fs r = some .dir := t.dir_of_resolve_dots hwalk hstart rfl rfl
  rw [hr] at hl
  cases hl
  refine ⟨rfl, ?_⟩
  obtain ⟨hdirwalk, hdir⟩ := resolveDir_eq_ok.mp hparent
  obtain ⟨used, hle, hgo⟩ := resolve_onward hdirwalk hdir
  have hrest := hgo t.fs (Covers.refl t.fs) (maxLinks - used) [p.last, Name.current]
  rw [Nat.add_sub_cancel' hle] at hrest
  rw [List.append_assoc] at hwalk
  have hlast := hrest.symm.trans hwalk
  cases hlook : t.fs.lookup (parent ++ [p.last]) with
  | none =>
    rw [resolve_absent _ p.plain hlook] at hlast
    cases hlast
  | some old =>
    cases hleaf : old.isLeaf with
    | true =>
      rw [resolve_leaf _ p.plain hlook hleaf] at hlast
      cases hlast
    | false =>
      cases old with
      | dir =>
        rw [resolve_into _ p.plain hlook, resolve_dot _ rfl, resolve_nil] at hlast
        exact Or.inl (Except.ok.inj hlast).symm
      | symlink target => exact Or.inr ⟨target, rfl⟩
      | file data => cases hleaf
      | special => cases hleaf

/-- **Back where it was**: when the backup has a name of its own, and its path still leads to it,
what the restore puts back is at the link path again. -/
theorem Aside.restored (h : Aside t calls link protectedPaths q e b dst t₁)
    (hfree : t.fs.lookup dst = none) (hplace : b.place t₁ = .ok dst) {t₂ : Disk FileData}
    (hback : restoreAfterFailedSymlink t₁ b link = .ok t₂) :
    t₂.lstat link = .ok (q, e) ∧ ∀ rel, t₂.fs.lookup (q ++ rel) = t.fs.lookup (q ++ rel) := by
  obtain ⟨parent, hparent, hdst⟩ := BackupPath.place_eq_ok.mp h.place
  obtain ⟨parent₁, hparent₁, hdst₁⟩ := BackupPath.place_eq_ok.mp hplace
  obtain ⟨rfl, -⟩ := List.append_inj' (hdst.symm.trans hdst₁) rfl
  unfold restoreAfterFailedSymlink at hback
  rw [hplace] at hback
  dsimp only at hback
  split at hback
  · cases hback
  next p hp =>
  have hdir₁ : t₁.parentOf p = .ok parent := by rw [parentOf_eq hp, ← h.dir, hparent₁]
  have hdir : t.parentOf p = .ok parent := by rw [parentOf_eq hp, ← h.dir, hparent]
  rw [hdir₁] at hback
  dsimp only at hback
  split at hback
  · cases hback
  -- the name in the parent is what the link path named
  have hq : q = parent ++ [p.last] := by
    cases hslash : p.slash with
    | false =>
      have hnamed := h.named
      rw [t.lstat_of_entry hp hslash, hdir] at hnamed
      dsimp only at hnamed
      split at hnamed
      · cases hnamed
        rfl
      · cases hnamed
    | true =>
      obtain ⟨rfl, hq | ⟨target, hlook⟩⟩ := lstat_slash hp hslash hdir h.named
      · exact hq
      · -- a link led to it, and is in the way of the restore
        exfalso
        have hqdir : t.fs.lookup q = some .dir := by
          have hentry := t.entryAt_of_lstat h.named
          rcases Disk.renameAt_ok h.renamed with ⟨rfl, -⟩ | ⟨hapart, -⟩
          · rw [entryAt] at hentry
            split at hentry
            · next hroot =>
              rw [hroot] at hdst
              simp at hdst
            · exact hentry
          · rw [entryAt, if_neg] at hentry
            · exact hentry
            · rintro rfl
              exact hapart.2 List.nil_prefix
        have hout : ¬ q <+: dst := by
          rcases Disk.renameAt_ok h.renamed with ⟨rfl, -⟩ | ⟨hapart, -⟩
          · rw [hfree] at hqdir
            cases hqdir
          · exact hapart.2
        have hsrc : ¬ q <+: parent ++ [p.last] := by
          intro hpre
          rcases List.prefix_concat_iff.mp hpre with heq | hin
          · rw [← heq, hqdir] at hlook
            cases hlook
          · exact hout (hin.trans (hdst ▸ List.prefix_append parent [b.name]))
        have hother : ¬ dst <+: parent ++ [p.last] := by
          intro hpre
          have heq : dst = parent ++ [p.last] := hpre.eq_of_length (by simp [hdst])
          rw [← heq, hfree] at hlook
          cases hlook
        have hthere : t₁.fs.lookup dst = some .dir := by
          have hmoved := Disk.lookup_renameAt_dst h.renamed []
          rwa [List.append_nil, List.append_nil, hqdir] at hmoved
        have hlink := Disk.lookup_renameAt_other h.renamed hsrc hother
        exact renameAt_over_link hthere (hlink.trans hlook) hback
  rw [← hq] at hback
  obtain ⟨hcovers, hcwd⟩ := Disk.renameAt_back hfree h.renamed hback
  constructor
  · have hnamed := h.named
    unfold Disk.lstat FileTree.lstat at hnamed ⊢
    rw [hcwd]
    split at hnamed
    · cases hnamed
    · exact hcovers.lstatFrom hnamed
  · intro rel
    rw [Disk.lookup_renameAt_dst hback, Disk.lookup_renameAt_dst h.renamed]

end Steps

/-! ## One turn -/

/-- What was at the link path is there again, or whole at the backup that the message of a failed
restore names. -/
def LinkAtomic (before : Disk FileData) (link : String) (run : LinkRun) : Prop :=
  ∀ q e, before.lstat link = .ok (q, e) →
    (∃ q', run.disk.lstat link = .ok (q', e) ∧
      ∀ rel, run.disk.fs.lookup (q' ++ rel) = before.fs.lookup (q ++ rel)) ∨
    (entryIsSymlink e = false ∧ ∃ b q', run.keptAt = some b ∧ b.place run.disk = .ok q' ∧
      ∀ rel, run.disk.fs.lookup (q' ++ rel) = before.fs.lookup (q ++ rel))

/-- The call fails after a link was unlinked, or after something was renamed to a backup whose
path does not lead anywhere any more. -/
def LinkLoses (t : Disk FileData) (home : Option String) (calls : LinkCalls) (force : Bool)
    (protectedPaths : List String) (entry : LinkEntry) : Prop :=
  Arrives t home calls entry ∧ ∃ t₁,
    LinkFails t₁ calls (expandTilde home entry.link) (expandTilde home entry.target) ∧
    (Unlinks t home calls entry t₁ ∨ force = true ∧ ∃ q e b dst,
      Aside t calls (expandTilde home entry.link) protectedPaths q e b dst t₁ ∧
        ∀ r, b.place t₁ ≠ .ok r)

/-- The call fails after something was renamed to a backup that was not free, or whose path now
leads elsewhere. -/
def LinkMisleads (t : Disk FileData) (home : Option String) (calls : LinkCalls) (force : Bool)
    (protectedPaths : List String) (entry : LinkEntry) : Prop :=
  Arrives t home calls entry ∧ force = true ∧ ∃ q e b dst t₁,
    Aside t calls (expandTilde home entry.link) protectedPaths q e b dst t₁ ∧
    LinkFails t₁ calls (expandTilde home entry.link) (expandTilde home entry.target) ∧
    ((t.fs.lookup dst).isSome ∨ ∃ r, b.place t₁ = .ok r ∧ r ≠ dst)

section Turn

variable {t t₁ : Disk FileData} {home : Option String} {calls : LinkCalls} {force : Bool}
  {protectedPaths : List String} {entry : LinkEntry}

theorem linkAtomic_of_same {link : String} {run : LinkRun} (h : run.disk = t) :
    LinkAtomic t link run := by
  intro q e hnamed
  rw [h]
  exact Or.inl ⟨q, hnamed, fun rel => rfl⟩

/-- With the backup where its path says, a failed call loses nothing. -/
theorem Aside.atomic {link : String} {q dst : Location} {e : Entry FileData} {b : BackupPath}
    (h : Aside t calls link protectedPaths q e b dst t₁) (hfree : t.fs.lookup dst = none)
    (hplace : b.place t₁ = .ok dst) (error : String) :
    LinkAtomic t link (undoLink t₁ calls link (some b) error) := by
  intro q' e' hnamed
  obtain ⟨rfl, rfl⟩ := Prod.mk.inj (Except.ok.inj (h.named.symm.trans hnamed))
  have hkept : ∀ rel, t₁.fs.lookup (dst ++ rel) = t.fs.lookup (q ++ rel) :=
    Disk.lookup_renameAt_dst h.renamed
  unfold undoLink
  dsimp only
  by_cases hrestore : calls.restore = true
  · rw [if_pos hrestore]
    exact Or.inr ⟨h.noLink, b, dst, rfl, hplace, hkept⟩
  · rw [if_neg hrestore]
    cases hback : restoreAfterFailedSymlink t₁ b link with
    | error err => exact Or.inr ⟨h.noLink, b, dst, rfl, hplace, hkept⟩
    | ok t₂ =>
      obtain ⟨hthere, hwhole⟩ := h.restored hfree hplace hback
      exact Or.inl ⟨q, hthere, hwhole⟩

/-- **A turn that fails is atomic** but for the two kinds. -/
theorem applyOneLink_atomic
    (hloses : ¬ LinkLoses t home calls force protectedPaths entry)
    (hmisleads : ¬ LinkMisleads t home calls force protectedPaths entry)
    (hfailed : (applyOneLink t home calls force protectedPaths entry).result ≠ .ok ()) :
    LinkAtomic t (expandTilde home entry.link)
      (applyOneLink t home calls force protectedPaths entry) := by
  intro q e hnamed
  rcases applyOneLink_cases hnamed with hsame | hok | ⟨harrives, t₁, hgone⟩ |
    ⟨harrives, hforce, b, dst, t₁, haside⟩
  · exact linkAtomic_of_same hsame q e hnamed
  · exact absurd hok hfailed
  · -- the link is gone: the call cannot have failed
    exfalso
    rw [applyOneLink_unlinks harrives hgone] at hfailed
    by_cases hfails : LinkFails t₁ calls (expandTilde home entry.link)
        (expandTilde home entry.target)
    · exact hloses ⟨harrives, t₁, hfails, Or.inl hgone⟩
    · obtain ⟨made, -, hmade⟩ := createLink_made hfails none
      rw [hmade] at hfailed
      exact hfailed rfl
  · rw [applyOneLink_aside harrives hforce haside] at hfailed ⊢
    by_cases hfails : LinkFails t₁ calls (expandTilde home entry.link)
        (expandTilde home entry.target)
    · obtain ⟨error, herror⟩ := createLink_fails hfails (some b)
      rw [herror]
      have hfree : t.fs.lookup dst = none := by
        by_contra hsome
        exact hmisleads ⟨harrives, hforce, q, e, b, dst, t₁, haside, hfails,
          Or.inl (Option.isSome_iff_ne_none.mpr hsome)⟩
      have hplace : b.place t₁ = .ok dst := by
        cases hr : b.place t₁ with
        | error err =>
          refine absurd ⟨harrives, t₁, hfails, Or.inr ⟨hforce, q, e, b, dst, haside, ?_⟩⟩ hloses
          rw [hr]
          intro r hr'
          cases hr'
        | ok r =>
          by_contra hne
          exact hmisleads ⟨harrives, hforce, q, e, b, dst, t₁, haside, hfails,
            Or.inr ⟨r, hr, fun heq => hne (heq ▸ rfl)⟩⟩
      exact haside.atomic hfree hplace error q e hnamed
    · obtain ⟨made, -, hmade⟩ := createLink_made hfails (some b)
      rw [hmade] at hfailed
      exact absurd rfl hfailed

/-- Where a link was unlinked nothing is. -/
theorem Unlinks.gone (h : Unlinks t home calls entry t₁) :
    ∀ r, t₁.lstat (expandTilde home entry.link) ≠ .ok r := by
  rintro ⟨r, e'⟩ hthere
  obtain ⟨q, target, hnamed, -, -, hunlink⟩ := h
  obtain ⟨p, parent, hp, hslash, hparent, rfl, -⟩ := t.entry_of_lstat_link hnamed
  obtain ⟨-, hfs, hcwd⟩ := Disk.unlinkAt_ok hunlink
  rw [t₁.lstat_of_entry hp hslash] at hthere
  have hcovers : Covers t₁.fs t.fs := by
    intro p' e hp'
    rw [hfs] at hp'
    by_cases heq : p' = parent ++ [p.last]
    · rw [heq, AList.lookup_erase] at hp'
      cases hp'
    · rwa [AList.lookup_erase_ne heq] at hp'
  cases hparent₁ : t₁.parentOf p with
  | error err =>
    rw [hparent₁] at hthere
    cases hthere
  | ok parent₁ =>
    have hsame : t.parentOf p = .ok parent₁ := by
      unfold Disk.parentOf at hparent₁ ⊢
      rw [hcwd] at hparent₁
      exact hcovers.resolveDir hparent₁
    obtain rfl : parent = parent₁ := Except.ok.inj (hparent.symm.trans hsame)
    rw [hparent₁] at hthere
    dsimp only at hthere
    rw [hfs, AList.lookup_erase] at hthere
    cases hthere

/-- **The first kind is a loss**: the turn fails, and what was there is not. -/
theorem applyOneLink_loses (h : LinkLoses t home calls force protectedPaths entry) :
    (applyOneLink t home calls force protectedPaths entry).result ≠ .ok () ∧
      ¬ LinkAtomic t (expandTilde home entry.link)
        (applyOneLink t home calls force protectedPaths entry) := by
  obtain ⟨harrives, t₁, hfails, hgone | ⟨hforce, q, e, b, dst, haside, hlost⟩⟩ := h
  · rw [applyOneLink_unlinks harrives hgone]
    obtain ⟨error, herror⟩ := createLink_fails hfails none
    rw [herror, undoLink_result]
    refine ⟨(fun h => nomatch h), fun hatomic => ?_⟩
    have ⟨q, target, hnamed, _⟩ := hgone
    rcases hatomic q _ hnamed with ⟨q', hthere, -⟩ | ⟨hlink, -⟩
    · exact hgone.gone _ hthere
    · cases hlink
  · rw [applyOneLink_aside harrives hforce haside]
    obtain ⟨error, herror⟩ := createLink_fails hfails (some b)
    rw [herror, undoLink_result]
    refine ⟨(fun h => nomatch h), fun hatomic => ?_⟩
    -- nothing was put back, and neither path leads anywhere
    have hdisk : (undoLink t₁ calls (expandTilde home entry.link) (some b) error).disk = t₁ ∧
        (undoLink t₁ calls (expandTilde home entry.link) (some b) error).keptAt = some b := by
      obtain ⟨err, hback⟩ := restore_fails_with hlost (expandTilde home entry.link)
      unfold undoLink
      dsimp only
      rw [hback]
      split
      · exact ⟨rfl, rfl⟩
      · exact ⟨rfl, rfl⟩
    rcases hatomic q e haside.named with ⟨q', hthere, -⟩ | ⟨-, b', q', hkept, hplace, -⟩
    · rw [hdisk.1] at hthere
      exact haside.fails_with hlost _ hthere
    · rw [hdisk.2] at hkept
      obtain rfl := Option.some.inj hkept
      rw [hdisk.1] at hplace
      exact hlost _ hplace

/-- Candidates that can all be inspected: the one taken is free. -/
theorem uniqueBackupPathWith_free {probe : Nat → Bool} (hprobe : ∀ k, probe k = false)
    (fs : Fs FileData) (dir : Location) (base : Name) :
    fs.lookup (dir ++ [uniqueBackupPathWith probe fs dir base]) = none := by
  have heq : uniqueBackupPathWith probe fs dir base = uniqueBackupPath fs dir base := by
    unfold uniqueBackupPathWith uniqueBackupPath
    dsimp only
    rw [List.find?_map]
    congr 2
    refine congrArg (fun f => List.find? f _) (funext fun k => ?_)
    rw [hprobe, Bool.false_or]
    rfl
  rw [heq, uniqueBackupPath_free]

theorem Aside.free {link : String} {q dst : Location} {e : Entry FileData} {b : BackupPath}
    (h : Aside t calls link protectedPaths q e b dst t₁) (hprobe : ∀ k, calls.probe k = false) :
    t.fs.lookup dst = none := by
  obtain ⟨parent, hparent, rfl⟩ := BackupPath.place_eq_ok.mp h.place
  rw [h.dir] at hparent
  rw [h.backup]
  unfold backupPathFor
  dsimp only
  rw [hparent]
  exact uniqueBackupPathWith_free hprobe t.fs parent _

/-- A path that does not start in what is renamed leads where it did, or nowhere. -/
theorem Aside.place_eq {link : String} {q dst r : Location} {e : Entry FileData} {b : BackupPath}
    (h : Aside t calls link protectedPaths q e b dst t₁) (hfree : t.fs.lookup dst = none)
    (hstart : (spelled link).absolute = true ∨ ¬ q <+: t.cwd) (hr : b.place t₁ = .ok r) :
    r = dst := by
  obtain ⟨parent, hparent, rfl⟩ := BackupPath.place_eq_ok.mp h.place
  obtain ⟨parent₁, hparent₁, rfl⟩ := BackupPath.place_eq_ok.mp hr
  have hne : parent ++ [b.name] ≠ [] := by simp
  have hnone := t.closed.none_below_lookup hne hfree
  have hagree : Agree t.fs t₁.fs := by
    intro p old new hold hnew
    rw [Disk.lookup_renameAt h.renamed] at hnew
    split at hnew
    · next hpre =>
      obtain ⟨rel, rfl⟩ := hpre
      rw [hnone] at hold
      cases hold
    · split at hnew
      · cases hnew
      · exact Option.some.inj (hold.symm.trans hnew)
  have hsame : b.dir.start t₁.cwd = b.dir.start t.cwd := by
    rw [h.dir, parentOfPath_start, parentOfPath_start]
    unfold Spelled.start
    rcases hstart with habsolute | hout
    · rw [if_pos habsolute, if_pos habsolute]
    · rcases Disk.renameAt_ok h.renamed with ⟨rfl, rfl⟩ | ⟨-, -, -, -, hcwd⟩
      · rfl
      · rw [hcwd, cwd_without (t.cwd_not_below hne hnone), carriedTo, if_neg hout]
  rw [hsame] at hparent₁
  rw [hagree.resolve (resolveDir_eq_ok.mp hparent).1 (resolveDir_eq_ok.mp hparent₁).1]

/-- **Who is misled**: only a batch whose inspection of a backup name fails, or whose working
directory is moved away with what a relative link path names. -/
theorem LinkMisleads.carried (h : LinkMisleads t home calls force protectedPaths entry) :
    (∃ k, calls.probe k = true) ∨ ((spelled (expandTilde home entry.link)).absolute = false ∧
      ∃ q e, t.lstat (expandTilde home entry.link) = .ok (q, e) ∧ q <+: t.cwd) := by
  obtain ⟨-, -, q, e, b, dst, t₁, haside, -, hwhy⟩ := h
  by_cases hprobe : ∀ k, calls.probe k = false
  · have hfree := haside.free hprobe
    right
    rcases hwhy with htaken | ⟨r, hr, hne⟩
    · rw [hfree] at htaken
      cases htaken
    · by_contra hnot
      refine hne (haside.place_eq hfree ?_ hr)
      by_contra hneither
      obtain ⟨hrelative, hinside⟩ := not_or.mp hneither
      exact hnot ⟨by simpa using hrelative, q, e, haside.named, by simpa using hinside⟩
  · left
    simpa using hprobe

end Turn

/-! ## The batch -/

section Batch

variable {home : Option String} {force : Bool} {protectedPaths : List String}
  {calls : Nat → LinkCalls}

/-- Every entry has its turn, whatever became of those before. -/
theorem applyEntries_entries (i : Nat) (t : Disk FileData) (entries : List LinkEntry) :
    (applyEntries home force protectedPaths calls i t entries).2.map LinkTurn.entry =
      entries := by
  induction entries generalizing i t with
  | nil => rfl
  | cons entry rest ih => exact congrArg (entry :: ·) (ih (i + 1) _)

theorem run_of_mem_applyEntries {i : Nat} {t : Disk FileData} {entries : List LinkEntry}
    {turn : LinkTurn} (h : turn ∈ (applyEntries home force protectedPaths calls i t entries).2) :
    turn.run = applyOneLink turn.before home turn.calls force protectedPaths turn.entry := by
  induction entries generalizing i t with
  | nil => cases h
  | cons entry rest ih =>
    rcases List.mem_cons.mp h with rfl | hin
    · rfl
    · exact ih hin

end Batch

def LinkTurn.Loses (home : Option String) (force : Bool) (protectedPaths : List String)
    (turn : LinkTurn) : Prop :=
  LinkLoses turn.before home turn.calls force protectedPaths turn.entry

def LinkTurn.Misleads (home : Option String) (force : Bool) (protectedPaths : List String)
    (turn : LinkTurn) : Prop :=
  LinkMisleads turn.before home turn.calls force protectedPaths turn.entry

/-- A turn that fails leaves what was at its link path. -/
def LinkTurn.Atomic (home : Option String) (turn : LinkTurn) : Prop :=
  turn.run.result ≠ .ok () → LinkAtomic turn.before (expandTilde home turn.entry.link) turn.run

/-- **Link apply is atomic per entry** but for two kinds of turns. Whatever fails in a batch,
every entry has its turn; a turn that is neither a loss nor misled leaves what was at its link
path there, or in the backup it names; a loss never does. -/
theorem linkBatch_atomic (t : Disk FileData) (home : Option String) (force : Bool)
    (protectedPaths : List String) (calls : Nat → LinkCalls)
    (faults : LinkEntry → EvaluateFaults) (entries : List LinkEntry) :
    let batch := applyLinkPolicy t home force protectedPaths calls faults entries
    batch.turns.map LinkTurn.entry = entries ∧
      ∀ turn ∈ batch.turns,
        (¬ turn.Loses home force protectedPaths → ¬ turn.Misleads home force protectedPaths →
          turn.Atomic home) ∧
        (turn.Loses home force protectedPaths → ¬ turn.Atomic home) := by
  refine ⟨applyEntries_entries 0 t entries, fun turn hturn => ?_⟩
  have hrun := run_of_mem_applyEntries hturn
  constructor
  · intro hloses hmisleads
    unfold LinkTurn.Atomic
    rw [hrun]
    exact applyOneLink_atomic hloses hmisleads
  · intro hloses hatomic
    unfold LinkTurn.Atomic at hatomic
    rw [hrun] at hatomic
    obtain ⟨hfailed, hnot⟩ := applyOneLink_loses hloses
    exact hnot (hatomic hfailed)

/-! ## A link that drifted -/

def appName : Name := ⟨"app", by decide⟩

def formerName : Name := ⟨"old", by decide⟩

def currentName : Name := ⟨"new", by decide⟩

/-- `/app` points to `/old`, and should point to `/new`. -/
def driftedTree : Disk FileData where
  fs := (((∅ : Fs FileData).insert [formerName] .dir).insert [currentName] .dir).insert [appName]
    (.symlink { absolute := true, parts := [formerName] })
  closed := closed_of_keys (by decide)
  cwd := []
  cwd_dir := rfl

def appEntry : LinkEntry := ⟨"/app", "/new"⟩

/-- A drifted link is unlinked, the call that makes the new one fails, and nothing is at the link
path. -/
theorem drifted_link_lost : ¬ ∀ turn ∈ (applyLinkPolicy driftedTree none false []
    (fun _ => { symlink := true }) (fun _ => {}) [appEntry]).turns, turn.Atomic none := by
  intro hatomic
  have hturn := hatomic _ List.mem_cons_self
  have hfailed : (applyOneLink driftedTree none { symlink := true } false [] appEntry).result =
      .error "" := by rfl
  have hgone : (applyOneLink driftedTree none { symlink := true } false [] appEntry).disk.lstat
      "/app" = .error .notFound := by rfl
  rcases hturn (fun hok => nomatch hfailed.symm.trans hok) [appName] _ (by rfl) with
    ⟨q', hthere, -⟩ | ⟨hlink, -⟩
  · exact nomatch hgone.symm.trans hthere
  · cases hlink

end DraconGuard
