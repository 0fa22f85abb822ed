import DraconGuard.Disk.TmpCruft
import DraconGuard.Disk.ApplyLaw

/-!
# When the one-shot cleaner is the weaker road

"The one-shot audit must not be a weaker path to deletion" than the daemon (disk.rs:717). On ages
it is not: what its walk lets through lies behind the daemon's cutoff, whole hours and the root's
own time included (`content_before_cutoff`, `treeHasFreshContent_iff`). It is weaker wherever it
does not look: at sockets, at protected paths, at a process that holds a directory above the entry
or a file of which `strip_deleted` makes another path, at a listing that broke off.
**`daemonAllows_iff`** says that there is nothing else.
-/

namespace DraconGuard

open FileTree (Disk Mount Location Fs Name Entry Scan WalkItem Listing render entryAt walkDir
  itemsAt mem_walkDir)

/-! ## Ages and cutoffs -/

/-- Whole hours round an age down, so an age of at least the floor lies behind the cutoff. -/
theorem le_tmpAgeCutoff {modified now : SystemTime} {age floor : Nat}
    (hage : ageHours modified now = some age) (hfloor : floor ≤ age) :
    modified.nanos ≤ tmpAgeCutoff now floor := by
  unfold ageHours at hage
  split at hage
  · next hle =>
    obtain rfl := Option.some.inj hage
    have hm := modified.inRange
    have hn := now.inRange
    have hbound : (now.nanos - modified.nanos).toNat / 10 ^ 9 ≤ 2 ^ 64 - 1 := by omega
    have hsecs : floor * 3600 ≤ (now.nanos - modified.nanos).toNat / 10 ^ 9 := by omega
    have hmin : min (floor * 3600) (2 ^ 64 - 1) = floor * 3600 := by omega
    have hcut : tmpAgeCutoff now floor = max 0 (now.nanos - (floor * 3600 : Nat) * 10 ^ 9) := by
      rw [tmpAgeCutoff, hmin]
    omega
  · cases hage

/-! ## What the one-shot walk knows -/

section Walk

variable {δ : Type} {host : TmpHost δ} {root : Location}

/-- Nothing has gone wrong so far. -/
def TreeWalk.Clean (w : TreeWalk) : Prop := w.truncated = false ∧ w.unreadable = false

/-- The newest time is no older than `modified`. -/
def TreeWalk.Covers (w : TreeWalk) (modified : SystemTime) : Prop :=
  ∃ newest, w.newest = some newest ∧ modified.nanos ≤ newest.nanos

@[simp] theorem TreeWalk.count_newest (w : TreeWalk) : w.count.newest = w.newest := by
  unfold TreeWalk.count
  split <;> rfl

@[simp] theorem TreeWalk.count_unreadable (w : TreeWalk) : w.count.unreadable = w.unreadable := by
  unfold TreeWalk.count
  split <;> rfl

theorem TreeWalk.count_truncated {w : TreeWalk} (h : w.count.truncated = false) :
    w.truncated = false := by
  unfold TreeWalk.count at h
  split at h
  · cases h
  · exact h

@[simp] theorem TreeWalk.touch_truncated (w : TreeWalk) (modified : Option SystemTime) :
    (w.touch modified).truncated = w.truncated := by
  unfold TreeWalk.touch
  split
  · rfl
  · split
    · rfl
    · split <;> rfl

theorem TreeWalk.Covers.touch {w : TreeWalk} {m : SystemTime} (h : w.Covers m)
    (modified : Option SystemTime) : (w.touch modified).Covers m := by
  obtain ⟨newest, hnewest, hle⟩ := h
  cases modified with
  | none => exact ⟨newest, hnewest, hle⟩
  | some modified =>
    unfold TreeWalk.touch
    rw [hnewest]
    dsimp only
    split
    · next hlt => exact ⟨modified, rfl, hle.trans hlt.le⟩
    · exact ⟨newest, hnewest, hle⟩

/-- A time that could be read is covered. -/
theorem TreeWalk.touch_readable {w : TreeWalk} {modified : Option SystemTime}
    (h : (w.touch modified).unreadable = false) :
    w.unreadable = false ∧ ∃ m, modified = some m ∧ (w.touch modified).Covers m := by
  cases modified with
  | none => cases h
  | some m =>
    unfold TreeWalk.touch at h ⊢
    cases hnewest : w.newest with
    | none =>
      rw [hnewest] at h
      exact ⟨h, m, rfl, m, rfl, le_rfl⟩
    | some current =>
      rw [hnewest] at h
      dsimp only at h ⊢
      split at h
      · next hlt => exact ⟨h, m, rfl, by rw [if_pos hlt]; exact ⟨m, rfl, le_rfl⟩⟩
      · next hge =>
        refine ⟨h, m, rfl, ?_⟩
        rw [if_neg hge]
        exact ⟨current, hnewest, by omega⟩

/-- What one entry of the tree leaves behind it. -/
theorem TreeWalk.entry_spec {rel : Location} {e : Entry δ} {w : TreeWalk}
    (h : (w.entry host root rel e).Clean) :
    w.Clean ∧ (∀ m, w.Covers m → (w.entry host root rel e).Covers m) ∧
      ((∀ target, e ≠ .symlink target) →
        ∃ m, host.mtime (root ++ rel) = some m ∧ (w.entry host root rel e).Covers m) := by
  have hcovers : ∀ m, w.Covers m → w.count.Covers m := by
    rintro m ⟨newest, hnewest, hle⟩
    exact ⟨newest, by rw [count_newest, hnewest], hle⟩
  unfold TreeWalk.entry at h ⊢
  by_cases htrunc : w.count.truncated
  · rw [if_pos htrunc] at h
    exact absurd h.1 (by simp [htrunc])
  · have htrunc' : w.count.truncated = false := by simpa using htrunc
    rw [if_neg htrunc] at h ⊢
    cases e with
    | symlink target =>
      refine ⟨⟨count_truncated htrunc', by simpa using h.2⟩, hcovers, fun hno => ?_⟩
      exact absurd rfl (hno target)
    | dir =>
      obtain ⟨hclean, m, hm, hcov⟩ := touch_readable h.2
      exact ⟨⟨count_truncated htrunc', by simpa using hclean⟩,
        fun m hc => (hcovers m hc).touch _, fun _ => ⟨m, hm, hcov⟩⟩
    | file data =>
      obtain ⟨hclean, m, hm, hcov⟩ := touch_readable h.2
      exact ⟨⟨count_truncated htrunc', by simpa using hclean⟩,
        fun m hc => (hcovers m hc).touch _, fun _ => ⟨m, hm, hcov⟩⟩
    | special =>
      obtain ⟨hclean, m, hm, hcov⟩ := touch_readable h.2
      exact ⟨⟨count_truncated htrunc', by simpa using hclean⟩,
        fun m hc => (hcovers m hc).touch _, fun _ => ⟨m, hm, hcov⟩⟩

/-- An item the walk has come past, or one without consequence. -/
def Accounted (host : TmpHost δ) (root : Location) (w : TreeWalk) : WalkItem δ → Prop
  | .failed (some _) => False
  | .failed none => True
  | .entry rel e => rel = [] ∨ (∃ target, e = .symlink target) ∨
      ∃ m, host.mtime (root ++ rel) = some m ∧ w.Covers m

/-- One item: what was accounted for stays so, and the item is. -/
theorem TreeWalk.visit_spec {w : TreeWalk} {item : WalkItem δ}
    (h : (w.visit host root item).Clean) :
    w.Clean ∧ (∀ m, w.Covers m → (w.visit host root item).Covers m) ∧
      Accounted host root (w.visit host root item) item := by
  unfold TreeWalk.visit at h ⊢
  by_cases htrunc : w.truncated
  · rw [if_pos htrunc] at h
    exact absurd h.1 (by simp [htrunc])
  · rw [if_neg htrunc] at h ⊢
    cases item with
    | entry rel e =>
      dsimp only at h ⊢
      by_cases hrel : rel = []
      · rw [if_pos hrel] at h ⊢
        exact ⟨h, fun m hm => hm, Or.inl hrel⟩
      · rw [if_neg hrel] at h ⊢
        obtain ⟨hclean, hkeeps, hcovers⟩ := entry_spec h
        refine ⟨hclean, hkeeps, Or.inr ?_⟩
        by_cases hlink : ∃ target, e = .symlink target
        · exact Or.inl hlink
        · exact Or.inr (hcovers fun target heq => hlink ⟨target, heq⟩)
    | failed rel =>
      cases rel with
      | none => exact ⟨h, fun m hm => hm, trivial⟩
      | some rel =>
        dsimp only at h
        generalize (if host.scan.untyped (root ++ rel) then w.count else w) = counted at h
        split at h
        · next htrunc => exact absurd h.1 (by simp [htrunc])
        · exact absurd h.2 (by simp)

theorem Accounted.mono {w w' : TreeWalk} {item : WalkItem δ}
    (hkeeps : ∀ m, w.Covers m → w'.Covers m) (h : Accounted host root w item) :
    Accounted host root w' item := by
  cases item with
  | entry rel e =>
    exact h.imp_right fun h => h.imp_right fun ⟨m, hm, hcov⟩ => ⟨m, hm, hkeeps m hcov⟩
  | failed rel =>
    cases rel with
    | none => trivial
    | some rel => exact h.elim

/-- The whole walk: if it ends clean, everything it came past is accounted for. -/
theorem TreeWalk.foldl_visit_spec {items : List (WalkItem δ)} {w : TreeWalk}
    (h : (items.foldl (TreeWalk.visit host root) w).Clean) :
    w.Clean ∧ (∀ m, w.Covers m → (items.foldl (TreeWalk.visit host root) w).Covers m) ∧
      ∀ item ∈ items, Accounted host root (items.foldl (TreeWalk.visit host root) w) item := by
  induction items generalizing w with
  | nil => exact ⟨h, fun m hm => hm, by simp⟩
  | cons item rest ih =>
    rw [List.foldl_cons] at h ⊢
    obtain ⟨hclean, hkeeps, hrest⟩ := ih h
    obtain ⟨hw, hstep, hitem⟩ := visit_spec hclean
    refine ⟨hw, fun m hm => hkeeps m (hstep m hm), ?_⟩
    rintro other hother
    rcases List.mem_cons.mp hother with rfl | hin
    · exact hitem.mono hkeeps
    · exact hrest other hin

/-- **A content age at or above a floor**: every item of the tree but its root lies behind the
cutoff of the floor, and only listings that broke off have failed. -/
theorem content_before_cutoff {age floor : Nat}
    (hage : (directoryBytesAndAge host root).2 = some age) (hfloor : floor ≤ age) :
    (∀ rel, .failed (some rel) ∉ walkDir host.fs host.scan none root) ∧
      ∀ rel e, .entry rel e ∈ walkDir host.fs host.scan none root → rel ≠ [] →
        (∀ target, e ≠ .symlink target) →
          ∃ m, host.mtime (root ++ rel) = some m ∧ m.nanos ≤ tmpAgeCutoff host.now floor := by
  unfold directoryBytesAndAge at hage
  dsimp only at hage
  split at hage
  · cases hage
  · next hclean =>
    rw [Bool.not_eq_true, Bool.or_eq_false_iff] at hclean
    have haccounted : ∀ item ∈ walkDir host.fs host.scan none root, Accounted host root
        ((walkDir host.fs host.scan none root).foldl (TreeWalk.visit host root) {}) item :=
      (TreeWalk.foldl_visit_spec hclean).2.2
    refine ⟨fun rel hin => haccounted _ hin, fun rel e hin hrel hlink => ?_⟩
    rcases haccounted _ hin with h | ⟨target, h⟩ | ⟨m, hm, newest, hnewest, hle⟩
    · exact absurd h hrel
    · exact absurd h (hlink target)
    · rw [hnewest] at hage
      exact ⟨m, hm, hle.trans (le_tmpAgeCutoff hage hfloor)⟩

/-- A directory whose root and content lie behind the cutoff is fresh only through a listing that
broke off. -/
theorem treeHasFreshContent_iff {age floor : Nat} {modified : SystemTime}
    (hage : (directoryBytesAndAge host root).2 = some age) (hfloor : floor ≤ age)
    (hroot : host.mtime root = some modified)
    (hold : modified.nanos ≤ tmpAgeCutoff host.now floor) :
    treeHasFreshContent host root (tmpAgeCutoff host.now floor) = true ↔
      .failed none ∈ walkDir host.fs host.scan none root := by
  obtain ⟨hfailed, hcontent⟩ := content_before_cutoff hage hfloor
  unfold treeHasFreshContent
  rw [List.any_eq_true]
  constructor
  · rintro ⟨item, hin, hfresh⟩
    cases item with
    | failed rel =>
      cases rel with
      | none => exact hin
      | some rel => exact absurd hin (hfailed rel)
    | entry rel e =>
      exfalso
      have hbehind : (∀ target, e ≠ .symlink target) →
          ∃ m, host.mtime (root ++ rel) = some m ∧ m.nanos ≤ tmpAgeCutoff host.now floor := by
        by_cases hrel : rel = []
        · rw [hrel, List.append_nil]
          exact fun _ => ⟨modified, hroot, hold⟩
        · exact hcontent rel e hin hrel
      cases e with
      | symlink target => cases hfresh
      | dir =>
        obtain ⟨m, hm, hle⟩ := hbehind (by simp)
        simp only [freshItem, hm, decide_eq_true_eq] at hfresh
        omega
      | file data =>
        obtain ⟨m, hm, hle⟩ := hbehind (by simp)
        simp only [freshItem, hm, decide_eq_true_eq] at hfresh
        omega
      | special =>
        obtain ⟨m, hm, hle⟩ := hbehind (by simp)
        simp only [freshItem, hm, decide_eq_true_eq] at hfresh
        omega
  · intro hin
    exact ⟨_, hin, rfl⟩

end Walk

/-! ## Links the one-shot run sees -/

/-- A process holds the path. -/
def TmpHost.Holds {δ : Type} (host : TmpHost δ) (o : Location) : Prop :=
  ∃ entries, host.procs = some entries ∧ ∃ entry ∈ entries, o ∈ entry.links

/-- The one-shot run takes the link for a use of `path`: it files it under the path or below, and
does not find it elsewhere when it looks again. -/
def SeenAt (path o : Location) : Prop := path <+: stripDeleted o ∧ path <+: o

/-- The rows of a process agree on all but the descriptors. -/
theorem mem_procRefRows {entry : ProcDir} {row : Location × ProcessRef}
    (h : row ∈ procRefRows entry) :
    row.2.pid = entry.pid ∧ row.2.exe = entry.exe ∧ row.2.cwd = entry.cwd := by
  simp only [procRefRows, List.mem_append, List.mem_map] at h
  rcases h with (⟨_, -, rfl⟩ | ⟨_, -, rfl⟩) | ⟨_, -, rfl⟩ <;> exact ⟨rfl, rfl, rfl⟩

/-- Each link has a row, and the row says by what it holds the path. -/
theorem ProcDir.row_of_link {entry : ProcDir} {o : Location} (h : o ∈ entry.links) :
    ∃ fds, (stripDeleted o, ⟨entry.pid, entry.exe, entry.cwd, fds⟩) ∈ procRefRows entry ∧
      (fds ≠ [] ∨ entry.exe = some o ∨ entry.cwd = some o) := by
  simp only [ProcDir.links, List.mem_append, List.mem_map, Option.mem_toList] at h
  simp only [procRefRows, List.mem_append, List.mem_map, Option.mem_toList]
  rcases h with (⟨fd, hfd, rfl⟩ | hcwd) | hexe
  · exact ⟨[fd.1], Or.inr ⟨fd, hfd, rfl⟩, Or.inl (by simp)⟩
  · exact ⟨[], Or.inl (Or.inr ⟨o, hcwd, rfl⟩), Or.inr (Or.inr hcwd)⟩
  · exact ⟨[], Or.inl (Or.inl ⟨o, hexe, rfl⟩), Or.inr (Or.inl hexe)⟩

/-- With one directory a process, the rows of a process id are rows of that process. -/
theorem row_of_pid {entries : List ProcDir} (hpids : (entries.map (·.pid)).Nodup)
    {entry : ProcDir} (hentry : entry ∈ entries) {row : Location × ProcessRef}
    (hrow : row ∈ entries.flatMap procRefRows) (hpid : row.2.pid = entry.pid) :
    row.2.exe = entry.exe ∧ row.2.cwd = entry.cwd := by
  obtain ⟨other, hother, hin⟩ := List.mem_flatMap.mp hrow
  obtain ⟨hpid', hexe, hcwd⟩ := mem_procRefRows hin
  have heq : other = entry :=
    List.inj_on_of_nodup_map hpids hother hentry (hpid'.symm.trans hpid)
  subst heq
  exact ⟨hexe, hcwd⟩

/-- A row that blocks does so once it is merged with rows of the same process. -/
theorem merged_blocks {path o : Location} {refs : List ProcessRef} {row : ProcessRef}
    (hin : row ∈ refs)
    (hagree : ∀ r ∈ refs, r.pid = row.pid → r.exe = row.exe ∧ r.cwd = row.cwd)
    (hbelow : path <+: o) (hby : row.fds ≠ [] ∨ row.exe = some o ∨ row.cwd = some o) :
    ∃ m ∈ mergedByPid refs, m.blocksDeletion path = true := by
  set mine := refs.filter fun r => r.pid = row.pid with hmine
  have hinMine : row ∈ mine := List.mem_filter.mpr ⟨hin, by simp⟩
  have hmineAgree : ∀ r ∈ mine, r.exe = row.exe ∧ r.cwd = row.cwd := by
    intro r hr
    obtain ⟨hr, hpid⟩ := List.mem_filter.mp hr
    exact hagree r hr (by simpa using hpid)
  refine ⟨_, List.mem_map.mpr ⟨row.pid, ?_, rfl⟩, ?_⟩
  · rw [List.mem_insertionSort, List.mem_dedup]
    exact List.mem_map.mpr ⟨row, hin, rfl⟩
  · unfold ProcessRef.blocksDeletion
    dsimp only
    rw [← hmine]
    rcases hby with hfds | hexe | hcwd
    · obtain ⟨fd, hfd⟩ := List.exists_mem_of_ne_nil row.fds hfds
      have hmem : fd ∈ ((mine.flatMap (·.fds)).dedup).insertionSort (· ≤ ·) := by
        rw [List.mem_insertionSort, List.mem_dedup]
        exact List.mem_flatMap.mpr ⟨row, hinMine, hfd⟩
      have hne := List.ne_nil_of_mem hmem
      simp [hne]
    · have hfirst : mine.findSome? (·.exe) = some o :=
        findSome?_of_const hinMine fun r hr => (hmineAgree r hr).1.trans hexe
      simp [hfirst, hbelow]
    · have hfirst : mine.findSome? (·.cwd) = some o :=
        findSome?_of_const hinMine fun r hr => (hmineAgree r hr).2.trans hcwd
      simp [hfirst, hbelow]

theorem blockingReason_of_merged {path : Location} {refs : List ProcessRef}
    (h : ∃ m ∈ mergedByPid refs, m.blocksDeletion path = true) :
    ({ refs := refs } : ReferenceCapture).blockingReason path ≠ none := by
  obtain ⟨m, hm, hblocks⟩ := h
  have hne : (mergedByPid refs).filter (·.blocksDeletion path) ≠ [] :=
    List.ne_nil_of_mem (List.mem_filter.mpr ⟨hm, hblocks⟩)
  unfold ReferenceCapture.blockingReason
  dsimp only
  rw [if_neg Bool.false_ne_true, if_neg (by simpa using hne)]
  split <;> simp

/-- **A link that is seen blocks**, whichever row of its process comes first. -/
theorem blockingReason_of_seenAt {entries : List ProcDir}
    (hpids : (entries.map (·.pid)).Nodup) {entry : ProcDir} (hentry : entry ∈ entries)
    {path o : Location} (hlink : o ∈ entry.links) (hseen : SeenAt path o) :
    ((ProcSnapshot.read (some entries)).capture path).blockingReason path ≠ none := by
  obtain ⟨fds, hrow, hby⟩ := ProcDir.row_of_link hlink
  have hfiled : (stripDeleted o, ⟨entry.pid, entry.exe, entry.cwd, fds⟩) ∈
      (entries.flatMap procRefRows).filter fun row => path.isPrefixOf row.1 := by
    refine List.mem_filter.mpr ⟨List.mem_flatMap.mpr ⟨entry, hentry, hrow⟩, ?_⟩
    simpa using hseen.1
  refine blockingReason_of_merged (merged_blocks (List.mem_map_of_mem hfiled) ?_ hseen.2 hby)
  intro r hr hpid
  obtain ⟨full, hfull, rfl⟩ := List.mem_map.mp hr
  exact row_of_pid hpids hentry (List.mem_of_mem_filter hfull) hpid

/-! ## The gate on protected paths -/

/-- Every protected path resolves, if at all, outside the paths above `q`, or to the root of the
file system; and what does not resolve does not exist. -/
def ShieldsApart {δ : Type} (t : Disk δ) (q : Location) (protectedPaths : List String) : Prop :=
  ∀ shieldText ∈ protectedPaths,
    (∀ shield, t.canonicalize shieldText = .ok shield → shield ≠ [] → ¬ shield <+: q) ∧
      ∀ e, t.canonicalize shieldText = .error e → e = .notFound

section Gate

variable {δ : Type} {t : Disk δ} {q root : Location} {protectedPaths : List String}

theorem isProtectedAncestor_eq_false {shield : Location} (hq : q ≠ []) :
    isProtectedAncestor (render q) (render shield) = false ↔ (shield ≠ [] → ¬ shield <+: q) := by
  rw [← Bool.not_eq_true, isProtectedAncestor_render, not_or, not_and]
  refine ⟨And.right, fun h => ⟨?_, h⟩⟩
  rintro rfl
  exact h hq (List.prefix_refl q)

theorem refuseUserProtected_ok_iff (hq : q ≠ []) :
    refuseUserProtected t q protectedPaths = .ok () ↔ ShieldsApart t q protectedPaths := by
  induction protectedPaths with
  | nil => simp [refuseUserProtected, ShieldsApart]
  | cons userProt rest ih =>
    have hcons : ShieldsApart t q (userProt :: rest) ↔
        ((∀ shield, t.canonicalize userProt = .ok shield → shield ≠ [] → ¬ shield <+: q) ∧
          ∀ e, t.canonicalize userProt = .error e → e = .notFound) ∧
        ShieldsApart t q rest := by
      simp [ShieldsApart]
    rw [hcons, refuseUserProtected]
    cases hcanon : t.canonicalize userProt with
    | ok shield =>
      dsimp only
      by_cases hbelow : isProtectedAncestor (render q) (render shield)
      · have hnot : ¬ (shield ≠ [] → ¬ shield <+: q) := fun h => by
          rw [(isProtectedAncestor_eq_false hq).mpr h] at hbelow
          cases hbelow
        rw [if_pos hbelow]
        refine ⟨fun h => absurd h (by simp), fun h => absurd (h.1.1 shield rfl) hnot⟩
      · have hfree := (isProtectedAncestor_eq_false hq).mp (by simpa using hbelow)
        rw [if_neg hbelow, ih]
        refine ⟨fun h => ⟨⟨fun other hother => ?_, by simp⟩, h⟩, And.right⟩
        obtain rfl := Except.ok.inj hother
        exact hfree
    | error e =>
      cases e with
      | notFound => simp [ih]
      | notADirectory => simp
      | tooManyLinks => simp

/-- The system paths are the root and directories in it. -/
theorem not_systemProtected (hlength : 2 ≤ q.length) : render q ∉ systemProtected := by
  intro hin
  have hfew : (render q).toList.count '/' ≤ 1 := by
    revert hin
    generalize render q = text
    revert text
    decide
  have hq : q ≠ [] := by
    rintro rfl
    simp at hlength
  rw [render, if_neg hq, String.toList_ofList, FileTree.count_renderChars] at hfew
  omega

/-- **What the gate asks of an entry of a temporary root** that is no link. -/
theorem checkSafeToDeleteTmpEntry_isOk_iff (hcanon : t.canonicalize (render q) = .ok q)
    (hlink : isSymlink t (render q) = false) (hlength : 2 ≤ q.length) (hbelow : root <+: q) :
    (∃ checked, checkSafeToDeleteTmpEntry t (render q) root protectedPaths = .ok checked) ↔
      ShieldsApart t q protectedPaths := by
  have hq : q ≠ [] := by
    rintro rfl
    simp at hlength
  rw [← refuseUserProtected_ok_iff hq]
  unfold checkSafeToDeleteTmpEntry checkSafeToDeleteGuard
  rw [hcanon]
  dsimp only
  rw [hlink, if_neg Bool.false_ne_true, if_neg (not_systemProtected hlength)]
  cases refuseUserProtected t q protectedPaths with
  | error e => simp
  | ok done =>
    have hunder : (CheckedPath.canonical q).startsWith root = true := by
      simpa [CheckedPath.startsWith] using hbelow
    simp [hunder]

end Gate

/-- A run of the delete pass removes what one of its two loops came to. -/
theorem seen_of_removes {report : List Seen} {ownerScan snapshotScan : ProcScan}
    {gitTempMinAgeHours : Nat} {e : DiskEvent} {path place : Location}
    (he : e ∈ (applyWithFloors report ownerScan snapshotScan gitTempMinAgeHours).events)
    (hremoves : e.Removes path place) :
    ∃ s ∈ report, s.finding.path = path ∧
      (s.finding.disposition = .apply ∧ s.finding.cls = .gitTemp ∨
        s.os.place = place ∧ removes (ProcSnapshot.read snapshotScan) s = true) := by
  rw [applyWithFloors_events, List.mem_append] at he
  rcases he with he | he
  · obtain ⟨c, hc, rfl⟩ := List.mem_map.mp he
    obtain ⟨s, hs, hcandidate⟩ := List.mem_filterMap.mp hc
    unfold gitCandidate at hcandidate
    split at hcandidate
    · next hgit =>
      obtain rfl := Option.some.inj hcandidate
      refine ⟨s, hs, ?_, Or.inl hgit⟩
      unfold GitTempFile.event GitTempFile.refusal at hremoves
      split at hremoves
      · exact hremoves.1
      · exact hremoves.elim
    · cases hcandidate
  · obtain ⟨s, hs, hin⟩ := List.mem_flatMap.mp he
    obtain ⟨hs, hremoved⟩ := List.mem_filter.mp hs
    have hnames : s.finding.path = path ∧ s.os.place = place := by
      unfold removalEvents at hin
      split at hin <;> simp only [List.mem_singleton, List.not_mem_nil] at hin
      · subst hin; exact hremoves
      · subst hin; exact hremoves
      · subst hin; exact ⟨hremoves.1, Option.some.inj hremoves.2⟩
    exact ⟨s, List.mem_of_mem_filter hs, hnames.1, Or.inr ⟨hnames.2, hremoved⟩⟩

/-! ## What is up for deletion -/

section Entry

variable {δ : Type} (host : TmpHost δ) (options : DiskOptions)

/-- The age of what a path names. -/
def TmpHost.ageOf (path : Location) : Option Nat :=
  (host.symlinkMetadata path).bind fun found =>
    (host.mtime found.1).bind fun modified => ageHours modified host.now

/-- The floor that qualifies an entry. -/
def qualifyingFloor (path : Location) : Option Nat :=
  (host.ageOf path).bind (options.floorOf path)

/-- What the audit has read of an entry it makes a finding about. -/
structure Qualified (path : Location) (floor : Nat) (q : Location) (e : Entry δ)
    (modified : SystemTime) : Prop where
  found : host.symlinkMetadata path = some (q, e)
  noLink : ∀ target, e ≠ .symlink target
  dated : host.mtime q = some modified
  old : modified.nanos ≤ tmpAgeCutoff host.now floor
  floorOf : qualifyingFloor host options path = some floor

variable {host options}

theorem tempEntry_eq_some {minAgeHours : Nat} {path : Location} {entry : TempEntry}
    (h : tempEntry host minAgeHours path = some entry) :
    entry.path = path ∧ host.ageOf path = some entry.ageHours ∧
      ∃ q e modified, host.symlinkMetadata path = some (q, e) ∧ (∀ target, e ≠ .symlink target) ∧
        host.mtime q = some modified ∧ ageHours modified host.now = some entry.ageHours := by
  unfold tempEntry at h
  split at h
  · cases h
  · cases h
  · next q e hlink hfound =>
    split at h
    · cases h
    · next hours hhours =>
      obtain ⟨modified, hdated, hage⟩ := Option.bind_eq_some_iff.mp hhours
      split at h
      · cases h
      · have hage' : host.ageOf path = some hours := by
          rw [TmpHost.ageOf, hfound]
          exact hhours
        have hnoLink : ∀ target, e ≠ .symlink target := by
          rintro target rfl
          exact hlink target rfl
        split at h
        · obtain rfl := Option.some.inj h
          exact ⟨rfl, hage', q, e, modified, hfound, hnoLink, hdated, hage⟩
        · obtain rfl := Option.some.inj h
          exact ⟨rfl, hage', q, e, modified, hfound, hnoLink, hdated, hage⟩

theorem tmpCruftFloor_le {fileName : List Char} {age general e2e floor : Nat}
    {patterns : List (List Char)}
    (h : tmpCruftFloor fileName age patterns general e2e = some floor) : floor ≤ age := by
  unfold tmpCruftFloor at h
  dsimp only at h
  generalize (if patterns.isEmpty then general
    else if tmpE2eMatch fileName patterns then e2e else general) = chosen at h
  split at h
  · next hle => exact Option.some.inj h ▸ hle
  · cases h

theorem tmpFinding_eq_some {snapshot : ProcSnapshot} {entry : TempEntry} {f : Finding}
    (h : tmpFinding options snapshot entry = some f) :
    f.path = entry.path ∧ f.cls = .tempAndLogs ∧
      f.qualifyingFloorHours = options.floorOf entry.path entry.ageHours ∧
        f.qualifyingFloorHours.isSome := by
  unfold tmpFinding at h
  split at h
  · cases h
  · split at h
    · cases h
    · next floor hfloor =>
      obtain rfl := Option.some.inj h
      rw [hfloor]
      dsimp only
      split <;> exact ⟨rfl, rfl, rfl, rfl⟩

/-- Every finding about a temporary root. -/
theorem qualified_of_mem_auditTmp {f : Finding} (hf : f ∈ auditTmp host options) :
    f.cls = .tempAndLogs ∧ ∃ floor q e modified, f.qualifyingFloorHours = some floor ∧
      Qualified host options f.path floor q e modified := by
  obtain ⟨entry, hentry, hfinding⟩ := List.mem_filterMap.mp hf
  obtain ⟨hpath, hcls, hfloor, hsome⟩ := tmpFinding_eq_some hfinding
  obtain ⟨floor, hfloor'⟩ := Option.isSome_iff_exists.mp hsome
  unfold findTempCruft at hentry
  rw [List.mem_insertionSort] at hentry
  obtain ⟨root, -, hin⟩ := List.mem_flatMap.mp hentry
  obtain ⟨n, -, hmeasured⟩ := List.mem_filterMap.mp hin
  obtain ⟨hentryPath, hageOf, q, e, modified, hfound, hnoLink, hdated, hage⟩ :=
    tempEntry_eq_some hmeasured
  have hclears : options.floorOf entry.path entry.ageHours = some floor := hfloor ▸ hfloor'
  refine ⟨hcls, floor, q, e, modified, hfloor', ?_⟩
  rw [hpath]
  rw [← hentryPath] at hfound hageOf
  exact {
    found := hfound
    noLink := hnoLink
    dated := hdated
    old := le_tmpAgeCutoff hage (tmpCruftFloor_le hclears)
    floorOf := by rw [qualifyingFloor, hageOf]; exact hclears }

/-- **What a deletion rests on**: a finding of the class that the delete pass came to remove. -/
theorem finding_of_deletes {earlier later : List OtherFinding} {path place : Location}
    (h : DeletesTmpEntry host options earlier later path place) :
    ∃ f ∈ auditTmp host options, f.path = path ∧ (host.answers path).place = place ∧
      removes (ProcSnapshot.read host.procs) { finding := f, os := host.answers path } = true := by
  obtain ⟨⟨root, hroot, n, htop⟩, e, he, hremoves⟩ := h
  have hother : ∀ s ∈ earlier.map (·.seen) ++ later.map (·.seen), s.finding.path ≠ path := by
    intro s hs
    rw [← List.map_append] at hs
    obtain ⟨other, -, rfl⟩ := List.mem_map.mp hs
    rw [htop]
    exact other.elsewhere root hroot n
  set tmp : List Seen :=
    (auditTmp host options).map fun f => { finding := f, os := host.answers f.path } with htmp
  have hreport : ∀ s ∈ earlier.map (·.seen) ++ tmp ++ later.map (·.seen),
      s.finding.path = path → s ∈ tmp := by
    intro s hs hpath
    rw [List.mem_append, List.mem_append] at hs
    rcases hs with (hs | hs) | hs
    · exact absurd hpath (hother s (List.mem_append_left _ hs))
    · exact hs
    · exact absurd hpath (hother s (List.mem_append_right _ hs))
  obtain ⟨s, hs, hpath, hway⟩ := seen_of_removes he hremoves
  obtain ⟨f, hf, rfl⟩ := List.mem_map.mp (hreport s hs hpath)
  rcases hway with ⟨-, hgit⟩ | ⟨hplace, hremoved⟩
  · -- the git cleaner has no candidate of that path
    rw [(qualified_of_mem_auditTmp hf).1] at hgit
    cases hgit
  · obtain rfl : f.path = path := hpath
    exact ⟨f, hf, rfl, hplace, hremoved⟩

end Entry

/-! ## The daemon's gates -/

section Daemon

variable {δ : Type} {host : TmpHost δ}

theorem resolveSafeTmpRoots_below {configured : List String} {resolved roots : List Location}
    (h : resolveSafeTmpRoots host configured resolved = .ok roots)
    (hresolved : ∀ root ∈ resolved, [tmpDirName] <+: root) :
    ∀ root ∈ roots, [tmpDirName] <+: root := by
  induction configured generalizing resolved with
  | nil =>
    obtain rfl := Except.ok.inj h
    exact hresolved
  | cons requested rest ih =>
    rw [resolveSafeTmpRoots] at h
    split at h
    · cases h
    · next root hroot =>
      have hbelow : [tmpDirName] <+: root := by
        unfold checkSafeTmpRoot at hroot
        split at hroot
        · cases hroot
        · cases hroot
        · split at hroot
          · cases hroot
          · split at hroot
            · next hunder =>
              obtain rfl := Except.ok.inj hroot
              simpa using hunder
            · cases hroot
        · cases hroot
      refine ih h fun r hr => ?_
      split at hr
      · exact hresolved r hr
      · rcases List.mem_append.mp hr with hr | hr
        · exact hresolved r hr
        · exact (List.mem_singleton.mp hr).symm ▸ hbelow

theorem tmpEntryBlock_eq_none {t : Disk δ} {path root : Location} {protectedPaths : List String}
    {openPaths liveSockets : List Location} :
    tmpEntryBlock t path root protectedPaths openPaths liveSockets = none ↔
      (∀ o ∈ openPaths, ¬ path <+: o ∧ ¬ o <+: path) ∧ (∀ sock ∈ liveSockets, ¬ path <+: sock) ∧
        ∃ checked, checkSafeToDeleteTmpEntry t (render path) root protectedPaths = .ok checked := by
  unfold tmpEntryBlock pathHasOpenAncestor pathHoldsLiveUnixSocket
  by_cases hopen : openPaths.any fun o => path.isPrefixOf o || o.isPrefixOf path
  · rw [if_pos hopen]
    refine ⟨fun h => absurd h (by simp), fun h => ?_⟩
    obtain ⟨o, ho, htouch⟩ := List.any_eq_true.mp hopen
    have := h.1 o ho
    simp [this.1, this.2] at htouch
  · rw [if_neg hopen]
    have hclear : ∀ o ∈ openPaths, ¬ path <+: o ∧ ¬ o <+: path := by simpa using hopen
    by_cases hsock : liveSockets.any fun sock => path.isPrefixOf sock
    · rw [if_pos hsock]
      refine ⟨fun h => absurd h (by simp), fun h => ?_⟩
      obtain ⟨sock, hin, hbelow⟩ := List.any_eq_true.mp hsock
      exact absurd (List.isPrefixOf_iff_prefix.mp hbelow) (h.2.1 sock hin)
    · rw [if_neg hsock]
      have hfree : ∀ sock ∈ liveSockets, ¬ path <+: sock := by simpa using hsock
      cases checkSafeToDeleteTmpEntry t (render path) root protectedPaths with
      | error e => simp
      | ok checked => simpa using ⟨hclear, hfree⟩

theorem mem_collectOpenPaths {roots openPaths : List Location}
    (h : collectOpenPaths host roots = some openPaths) {o : Location} :
    o ∈ openPaths ↔ host.Holds o ∧ ∃ root ∈ roots, root <+: o := by
  unfold collectOpenPaths at h
  split at h
  · cases h
  · next entries hentries =>
    split at h
    · cases h
    · obtain rfl := Option.some.inj h
      simp [List.mem_filter, TmpHost.Holds, hentries]

end Daemon

/-! ## The two roads compared -/

section Compared

variable {δ : Type} (host : TmpHost δ) (options : DiskOptions) (roots : List Location)
  (root : Location) (protectedPaths : List String) (path place : Location)

/-- The daemon's gates let the entry at `place` go, below its root `root`: `tmp_entry_block`
returns `None`, and a directory has no content fresher than the cutoff of the floor that qualified
it. -/
def DaemonAllows : Prop :=
  ∃ openPaths, collectOpenPaths host roots = some openPaths ∧
    tmpEntryBlock host.toDisk place root protectedPaths openPaths host.sockets = none ∧
      ∀ floor, qualifyingFloor host options path = some floor →
        entryAt host.fs place = some .dir →
          treeHasFreshContent host place (tmpAgeCutoff host.now floor) = false

/-- What the one-shot run would have to look at and does not. -/
structure NothingMissed : Prop where
  /-- `/proc` is listed to its end. -/
  procs : host.procsCut = false
  /-- Each link at, above or below the entry is seen under the name the run has for it: none is
  strictly above, none is filed elsewhere by `strip_deleted`. -/
  links : ∀ o, host.Holds o → (∃ r ∈ roots, r <+: o) → (place <+: o ∨ o <+: place) → SeenAt path o
  sockets : ∀ sock ∈ host.sockets, ¬ place <+: sock
  shields : ShieldsApart host.toDisk place protectedPaths
  /-- No listing in the tree breaks off. -/
  listings : entryAt host.fs place = some .dir →
    .failed none ∉ walkDir host.fs host.scan none place

variable {host options roots root protectedPaths path place}

/-- What has been removed had been read and was not held. -/
theorem exists_procs_of_removes {s : Seen} (h : removes (ProcSnapshot.read host.procs) s = true) :
    ∃ entries, host.procs = some entries := by
  cases hprocs : host.procs with
  | some entries => exact ⟨entries, rfl⟩
  | none =>
    rw [hprocs] at h
    simp [removes, ProcSnapshot.read, ProcSnapshot.capture, ReferenceCapture.blockingReason] at h

/-- A directory that has been removed had old content when the delete pass came to it. -/
theorem content_age_of_removes {f : Finding} {floor : Nat}
    (hfloor : f.qualifyingFloorHours = some floor)
    (hfound : host.symlinkMetadata path = some (place, .dir))
    (h : removes (ProcSnapshot.read host.procs) { finding := f, os := host.answers path } = true) :
    ∃ age, (directoryBytesAndAge host place).2 = some age ∧ floor ≤ age := by
  have hchurn : becameChurn { finding := f, os := host.answers path } = false := by
    unfold removes at h
    rw [Bool.and_eq_true, Bool.not_eq_true'] at h
    exact h.2
  unfold becameChurn TmpHost.answers at hchurn
  rw [hfound, hfloor] at hchurn
  simp only [Entry.isDir, Bool.true_and, if_true] at hchurn
  cases hage : (directoryBytesAndAge host place).2 with
  | none => simp [hage, treeIsLiveChurn] at hchurn
  | some age =>
    refine ⟨age, rfl, ?_⟩
    simpa [hage, treeIsLiveChurn] using hchurn

/-- What is found below a daemon root, and is no link, is where its rendering leads. -/
theorem canonical_of_found {e : Entry δ} (hfound : host.symlinkMetadata path = some (place, e))
    (hlink : ∀ target, e ≠ .symlink target) (hne : place ≠ []) :
    entryAt host.fs place = some e ∧ host.canonicalize (render place) = .ok place ∧
      isSymlink host.toDisk (render place) = false := by
  have hlstat : host.lstat (render path) = .ok (place, e) := by
    unfold TmpHost.symlinkMetadata at hfound
    split at hfound
    · next hlstat =>
      split at hfound
      · cases hfound
      · rw [hlstat, Option.some.inj hfound]
    · cases hfound
  have hentry : entryAt host.fs place = some e := host.entryAt_of_lstat hlstat
  obtain ⟨parent, n, rfl⟩ : ∃ parent n, place = parent ++ [n] := by
    rcases List.eq_nil_or_concat place with h | ⟨parent, n, h⟩
    · exact absurd h hne
    · exact ⟨parent, n, by rw [h, List.concat_eq_append]⟩
  have hlook : host.fs.lookup (parent ++ [n]) = some e := by simpa using hentry
  refine ⟨hentry, host.canonicalize_render hlook hlink, ?_⟩
  unfold isSymlink
  rw [host.lstat_render hlook]
  cases e with
  | symlink target => exact absurd rfl (hlink target)
  | dir => rfl
  | file data => rfl
  | special => rfl

/-- **When the one-shot run is no weaker.** An entry it deletes below a root of the daemon is one
the daemon would have deleted exactly when there is nothing it failed to look at. -/
theorem daemonAllows_iff {configured : List String} {earlier later : List OtherFinding}
    (hroots : resolveSafeTmpRoots host configured [] = .ok roots) (hroot : root ∈ roots)
    (hbelow : root <+: place) (hstrict : root ≠ place)
    (hdeletes : DeletesTmpEntry host options earlier later path place) :
    DaemonAllows host options roots root protectedPaths path place ↔
      NothingMissed host roots protectedPaths path place := by
  obtain ⟨f, hf, rfl, hplace, hremoves⟩ := finding_of_deletes hdeletes
  obtain ⟨-, floor, q, e, modified, hfloor, hq⟩ := qualified_of_mem_auditTmp hf
  obtain rfl : q = place := by
    rw [← hplace, TmpHost.answers, hq.found]
  have htmp : [tmpDirName] <+: root :=
    resolveSafeTmpRoots_below hroots (by simp) root hroot
  have hlength : 2 ≤ q.length := by
    have hlt : root.length < q.length :=
      lt_of_le_of_ne hbelow.length_le fun h => hstrict (hbelow.eq_of_length h)
    have := htmp.length_le
    rw [List.length_singleton] at this
    omega
  have hne : q ≠ [] := by
    rintro rfl
    simp at hlength
  obtain ⟨hentry, hcanon, hnoLink⟩ := canonical_of_found hq.found hq.noLink hne
  have hgate : (∃ checked,
      checkSafeToDeleteTmpEntry host.toDisk (render q) root protectedPaths = .ok checked) ↔
        ShieldsApart host.toDisk q protectedPaths :=
    checkSafeToDeleteTmpEntry_isOk_iff hcanon hnoLink hlength hbelow
  obtain ⟨entries, hentries⟩ := exists_procs_of_removes hremoves
  have hfree : ∀ o, host.Holds o → ¬ SeenAt f.path o := by
    rintro o ⟨entries', hentries', entry, hentry, hlink⟩ hseen
    refine blockingReason_of_seenAt (host.pids entries' hentries') hentry hlink hseen ?_
    rw [← hentries']
    unfold removes at hremoves
    rw [Bool.and_eq_true, Bool.and_eq_true, Option.isNone_iff_eq_none] at hremoves
    exact hremoves.1.2
  have hfresh : entryAt host.fs q = some .dir →
      (treeHasFreshContent host q (tmpAgeCutoff host.now floor) = true ↔
        .failed none ∈ walkDir host.fs host.scan none q) := by
    intro hdir
    obtain rfl : e = .dir := Option.some.inj (hentry.symm.trans hdir)
    obtain ⟨age, hage, hle⟩ := content_age_of_removes hfloor hq.found hremoves
    exact treeHasFreshContent_iff hage hle hq.dated hq.old
  constructor
  · rintro ⟨openPaths, hopen, hblock, htree⟩
    obtain ⟨hheld, hsockets, hchecked⟩ := tmpEntryBlock_eq_none.mp hblock
    refine ⟨?_, ?_, hsockets, hgate.mp hchecked, ?_⟩
    · unfold collectOpenPaths at hopen
      rw [hentries] at hopen
      dsimp only at hopen
      split at hopen
      · cases hopen
      · next hcut => simpa using hcut
    · intro o ho hunder htouch
      have hclear := hheld o ((mem_collectOpenPaths hopen).mpr ⟨ho, hunder⟩)
      exact absurd htouch (by simp [hclear.1, hclear.2])
    · intro hdir hcut
      have := (hfresh hdir).mpr hcut
      rw [htree floor hq.floorOf hdir] at this
      cases this
  · intro h
    obtain ⟨openPaths, hopen⟩ : ∃ openPaths, collectOpenPaths host roots = some openPaths := by
      unfold collectOpenPaths
      rw [hentries, h.procs]
      exact ⟨_, rfl⟩
    refine ⟨openPaths, hopen, tmpEntryBlock_eq_none.mpr ⟨?_, h.sockets, hgate.mpr h.shields⟩, ?_⟩
    · intro o ho
      obtain ⟨hholds, hunder⟩ := (mem_collectOpenPaths hopen).mp ho
      rw [← not_or]
      exact fun htouch => hfree o hholds (h.links o hholds hunder htouch)
    · intro floor' hfloor' hdir
      obtain rfl : floor' = floor := Option.some.inj (hfloor'.symm.trans hq.floorOf)
      rw [← Bool.not_eq_true, hfresh hdir]
      exact h.listings hdir

end Compared

/-! ## A file, and a socket -/

section Compare

private def oldName : Name := ⟨"old.txt", by decide⟩

private def agentName : Name := ⟨"agent.sock", by decide⟩

/-- `/tmp` with one entry in it, untouched since 1970. -/
private def oneEntryFs (n : Name) (e : Entry Unit) : Fs Unit :=
  ((∅ : Fs Unit).insert [tmpDirName] .dir).insert [tmpDirName, n] e

private theorem zero_inRange : -(2 ^ 63 * 10 ^ 9) ≤ (0 : Int) ∧ (0 : Int) < 2 ^ 63 * 10 ^ 9 := by
  decide

private theorem days_inRange :
    -(2 ^ 63 * 10 ^ 9) ≤ (200000 * 10 ^ 9 : Int) ∧ (200000 * 10 ^ 9 : Int) < 2 ^ 63 * 10 ^ 9 := by
  decide

private def oldFileHost : TmpHost Unit where
  fs := oneEntryFs oldName (.file ())
  closed := FileTree.closed_of_keys (by decide)
  cwd := []
  cwd_dir := rfl
  plain := FileTree.plain_of_keys (by decide)
  mtime := fun _ => some ⟨0, zero_inRange⟩
  now := ⟨200000 * 10 ^ 9, days_inRange⟩
  procs := some []
  pids := nodup_noProcs

/-- A daemon listens on the socket. -/
private def agentHost : TmpHost Unit where
  fs := oneEntryFs agentName .special
  closed := FileTree.closed_of_keys (by decide)
  cwd := []
  cwd_dir := rfl
  plain := FileTree.plain_of_keys (by decide)
  mtime := fun _ => some ⟨0, zero_inRange⟩
  now := ⟨200000 * 10 ^ 9, days_inRange⟩
  procs := some []
  pids := nodup_noProcs
  sockets := [[tmpDirName, agentName]]

private def dayOptions : DiskOptions where
  gitTempMinAgeHours := 24
  tmpMinAgeHours := 24
  tmpE2ePatterns := []
  tmpE2eMinAgeHours := 6

private theorem oldFile_deleted : DeletesTmpEntry oldFileHost dayOptions [] []
    [tmpDirName, oldName] [tmpDirName, oldName] :=
  ⟨⟨[tmpDirName], by decide, oldName, rfl⟩,
    .unlinked [tmpDirName, oldName] (some [tmpDirName, oldName]), by decide +kernel, rfl, rfl⟩

/-- Both roads delete an old file. -/
theorem old_file_allowed : DaemonAllows oldFileHost dayOptions [[tmpDirName]] [tmpDirName] []
    [tmpDirName, oldName] [tmpDirName, oldName] := by
  have hroots : resolveSafeTmpRoots oldFileHost ["/tmp"] [] = .ok [[tmpDirName]] := by
    decide +kernel
  refine (daemonAllows_iff hroots (by simp) (by decide) (by decide) oldFile_deleted).mpr ?_
  refine ⟨rfl, ?_, by decide, fun _ hin => absurd hin (by simp), ?_⟩
  · rintro o ⟨entries, hentries, entry, hentry, -⟩
    obtain rfl : [] = entries := Option.some.inj hentries
    cases hentry
  · exact fun hdir => absurd hdir (by decide)

/-- The one-shot run deletes the socket a daemon listens on; the guard would have kept it. -/
theorem bound_socket_deleted :
    resolveSafeTmpRoots agentHost ["/tmp"] [] = .ok [[tmpDirName]] ∧
      DeletesTmpEntry agentHost dayOptions [] [] [tmpDirName, agentName]
        [tmpDirName, agentName] ∧
      ¬ DaemonAllows agentHost dayOptions [[tmpDirName]] [tmpDirName] []
        [tmpDirName, agentName] [tmpDirName, agentName] := by
  refine ⟨by decide +kernel, ⟨⟨[tmpDirName], by decide, agentName, rfl⟩,
    .unlinked [tmpDirName, agentName] (some [tmpDirName, agentName]), by decide +kernel, rfl, rfl⟩,
    ?_⟩
  rintro ⟨openPaths, -, hblock, -⟩
  exact (tmpEntryBlock_eq_none.mp hblock).2.1 [tmpDirName, agentName] (by decide)
    (List.prefix_refl _)

end Compare

end DraconGuard
