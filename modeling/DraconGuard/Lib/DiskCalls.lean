import DraconGuard.Lib.Walks

/-!
# Calls that change a disk

`unlink`, `rename`, `symlink` and `create_dir_all`, each from a disk to a disk, so that what a
program leaves behind is well formed by construction. `rename` replaces what the system lets it
replace, and a working directory inside what is renamed goes along.

`lookup_renameAt` says of every location what is there after a rename;
`lookup_renameAt_dst` and `lookup_renameAt_other` are what a program that renames something
aside relies on.
-/

namespace FileTree

variable {δ : Type}

/-- Why a call fails. -/
inductive CallError where
  | walk (e : Errno)
  | fileExists
  | isADirectory
  | invalidArgument
  | notEmpty
  | busy
deriving DecidableEq, Repr

/-- How the operating system words it. -/
def CallError.message : CallError → String
  | .walk e => e.message
  | .fileExists => "File exists (os error 17)"
  | .isADirectory => "Is a directory (os error 21)"
  | .invalidArgument => "Invalid argument (os error 22)"
  | .notEmpty => "Directory not empty (os error 39)"
  | .busy => "Device or resource busy (os error 16)"

/-! ## Paths of new entries -/

/-- A path whose last component is a name: where a call that makes an entry puts it. `slash` says
that a separator follows the name. -/
structure EntryPath where
  absolute : Bool
  dir : List Name
  last : Name
  plain : last.isPlain = true
  slash : Bool

def EntryPath.parse (text : String) : Option EntryPath :=
  let comps := (text.toList.splitOn '/').filterMap Name.ofChars?
  match comps.getLast? with
  | none => none
  | some last =>
    if h : last.isPlain = true then
      some { absolute := text.toList.head? = some '/', dir := comps.dropLast, last := last,
             plain := h, slash := text.toList.getLast? = some '/' }
    else none

/-- The path as a walk takes it. -/
def EntryPath.spelled (p : EntryPath) : Spelled where
  absolute := p.absolute
  parts := p.dir ++ [p.last] ++ if p.slash then [Name.current] else []

theorem EntryPath.parse_spelled {text : String} {p : EntryPath} (h : EntryPath.parse text = some p) :
    Spelled.parse text = some p.spelled := by
  unfold EntryPath.parse at h
  dsimp only at h
  split at h
  · cases h
  next last hlast =>
  split at h
  · cases h
    have hne : text.toList ≠ [] := by
      intro hnil
      rw [hnil] at hlast
      cases hlast
    unfold Spelled.parse EntryPath.spelled
    dsimp only
    rw [if_neg hne, List.dropLast_append_getLast? last hlast]
    by_cases hslash : text.toList.getLast? = some '/'
    · simp [hslash]
    · simp [hslash]
  · cases h

/-- A path whose walk ends in a name is one. -/
theorem EntryPath.parse_of_getLast {text : String} {sp : Spelled} {last : Name}
    (h : Spelled.parse text = some sp) (hlast : sp.parts.getLast? = some last)
    (hplain : last.isPlain = true) :
    ∃ p, EntryPath.parse text = some p ∧ p.slash = false ∧ p.last = last := by
  unfold Spelled.parse at h
  dsimp only at h
  split at h
  · cases h
  obtain rfl := Option.some.inj h
  by_cases hslash : text.toList.getLast? = some '/'
  · -- after a separator the last component is a dot
    rw [if_pos hslash] at hlast
    dsimp only at hlast
    rw [List.getLast?_append_cons, List.getLast?_singleton] at hlast
    obtain rfl := Option.some.inj hlast
    cases hplain
  · rw [if_neg hslash] at hlast
    dsimp only at hlast
    rw [List.append_nil] at hlast
    unfold EntryPath.parse
    dsimp only
    rw [hlast]
    dsimp only
    rw [dif_pos hplain]
    exact ⟨_, rfl, by simpa using hslash, rfl⟩

/-- The directory a new entry at the path goes to. -/
def Disk.parentOf (t : Disk δ) (p : EntryPath) : Except Errno Location :=
  resolveDir t.fs (if p.absolute then [] else t.cwd) p.dir

/-- `lstat` of a name looks it up where a new entry would go. -/
theorem Disk.lstat_of_entry (t : Disk δ) {text : String} {p : EntryPath}
    (hp : EntryPath.parse text = some p) (hslash : p.slash = false) : t.lstat text =
      match t.parentOf p with
      | .error e => .error e
      | .ok q => match t.fs.lookup (q ++ [p.last]) with
        | some entry => .ok (q ++ [p.last], entry)
        | none => .error .notFound := by
  have hparts : p.spelled.parts = p.dir ++ [p.last] := by
    simp [EntryPath.spelled, hslash]
  unfold Disk.lstat FileTree.lstat
  rw [EntryPath.parse_spelled hp]
  dsimp only
  rw [hparts, lstatFrom_concat p.plain]
  rfl

/-- Only a name is a link. -/
theorem Disk.entry_of_lstat_link (t : Disk δ) {text : String} {q : Location} {target : Spelled}
    (h : t.lstat text = .ok (q, .symlink target)) :
    ∃ p parent, EntryPath.parse text = some p ∧ p.slash = false ∧ t.parentOf p = .ok parent ∧
      q = parent ++ [p.last] ∧ t.fs.lookup q = some (.symlink target) := by
  have hl := h
  unfold Disk.lstat FileTree.lstat at hl
  split at hl
  · cases hl
  next sp hsp =>
  unfold lstatFrom at hl
  split at hl
  · next last hlast =>
    by_cases hplain : last.isPlain = true
    · obtain ⟨p, hp, hslash, -⟩ := EntryPath.parse_of_getLast hsp hlast hplain
      rw [t.lstat_of_entry hp hslash] at h
      split at h
      · cases h
      next parent hparent =>
      split at h
      · next entry hlook =>
        cases h
        exact ⟨p, parent, hp, hslash, hparent, rfl, hlook⟩
      · cases h
    · rw [if_neg hplain] at hl
      split at hl
      · cases hl
      next r hr =>
      split at hl
      · next hentry =>
        cases hl
        exact absurd hentry (t.resolve_not_link (t.start_dir sp) hr target)
      · cases hl
  · cases hl

/-! ## Links -/

theorem Closed.insert_link {fs : Fs δ} (h : Closed fs) {q : Location} {n : Name}
    {target : Spelled} (hdir : entryAt fs q = some .dir) (hfree : fs.lookup (q ++ [n]) = none) :
    Closed (fs.insert (q ++ [n]) (.symlink target)) := by
  have hcovers := @covers_insert _ _ _ (.symlink target) hfree
  intro p m hsome
  by_cases heq : p ++ [m] = q ++ [n]
  · obtain ⟨rfl, -⟩ := List.append_inj' heq rfl
    exact hcovers.entryAt hdir
  · rw [AList.lookup_insert_ne heq] at hsome
    exact hcovers.entryAt (h p m hsome)

/-- The disk with a new link. -/
def Disk.withLink (t : Disk δ) (q : Location) (n : Name) (target : Spelled)
    (hdir : entryAt t.fs q = some .dir) (hfree : t.fs.lookup (q ++ [n]) = none) : Disk δ where
  fs := t.fs.insert (q ++ [n]) (.symlink target)
  closed := t.closed.insert_link hdir hfree
  cwd := t.cwd
  cwd_dir := (covers_insert hfree).entryAt t.cwd_dir

/-- `symlink(2)`, at the path `text`. -/
def Disk.symlinkAt (t : Disk δ) (target : Spelled) (text : String) : Except CallError (Disk δ) :=
  match EntryPath.parse text with
  -- the root, `.` and `..` are there, when anything is
  | none => match t.canonicalize text with
    | .ok _ => .error .fileExists
    | .error e => .error (.walk e)
  | some p => match hparent : t.parentOf p with
    | .error e => .error (.walk e)
    | .ok q =>
      if hfree : t.fs.lookup (q ++ [p.last]) = none then
        if p.slash then .error (.walk .notFound)
        else .ok (t.withLink q p.last target (resolveDir_eq_ok.mp hparent).2 hfree)
      else .error .fileExists

/-! ## Unlinking -/

instance (priority := low) decidableIsDirAt (fs : Fs δ) (q : Location) : Decidable (entryAt fs q = some .dir) :=
  decidable_of_iff ((entryAt fs q).any Entry.isDir = true) any_isDir_iff

/-- `unlink(2)`, at a location. -/
def Disk.unlinkAt (t : Disk δ) (q : Location) : Except CallError (Disk δ) :=
  if h : entryAt t.fs q = some .dir then .error .isADirectory
  else .ok
    { fs := t.fs.erase q
      closed := by
        intro p n hsome
        have hne : p ++ [n] ≠ q := by
          rintro rfl
          rw [AList.lookup_erase] at hsome
          cases hsome
        rw [AList.lookup_erase_ne hne] at hsome
        have hdir := t.closed p n hsome
        have hpq : p ≠ q := fun heq => h (heq ▸ hdir)
        unfold entryAt at hdir ⊢
        split
        · rfl
        · next hroot =>
          rw [if_neg hroot] at hdir
          rw [AList.lookup_erase_ne hpq, hdir]
      cwd := t.cwd
      cwd_dir := by
        have hdir := t.cwd_dir
        have hcq : t.cwd ≠ q := fun heq => h (heq ▸ hdir)
        unfold entryAt at hdir ⊢
        split
        · rfl
        · next hroot =>
          rw [if_neg hroot] at hdir
          rw [AList.lookup_erase_ne hcq, hdir] }

/-! ## Renaming -/

/-- What is at every location after a rename to a free place. -/
theorem lookup_rename {src dst : Location} {fs : Fs δ}
    (hfree : ∀ rel, fs.lookup (dst ++ rel) = none) (p : Location) :
    (rename src dst fs).lookup p =
      if dst <+: p then fs.lookup (src ++ p.drop dst.length)
      else if src <+: p then none else fs.lookup p := by
  by_cases hdst : dst <+: p
  · obtain ⟨rel, rfl⟩ := hdst
    rw [if_pos (List.prefix_append dst rel), List.drop_left, lookup_rename_dst rel hfree]
  · rw [if_neg hdst]
    by_cases hsrc : src <+: p
    · rw [if_pos hsrc, rename, lookup_graft_other, lookup_removeSubtree, if_pos hsrc]
      rintro i - rfl
      exact hdst (List.prefix_append dst i.1)
    · rw [if_neg hsrc, lookup_rename_other hsrc hdst]

theorem entryAt_rename_other {src dst p : Location} {fs : Fs δ} (hsrc : ¬ src <+: p)
    (hdst : ¬ dst <+: p) : entryAt (rename src dst fs) p = entryAt fs p := by
  unfold entryAt
  split
  · rfl
  · exact lookup_rename_other hsrc hdst

section Moved

variable {fs : Fs δ} {src dst : Location}

/-- Where something may be renamed to: a free name in a directory outside it. -/
structure Landing (fs : Fs δ) (src dst : Location) : Prop where
  free : ∀ rel, fs.lookup (dst ++ rel) = none
  dir : entryAt fs dst.dropLast = some .dir
  named : dst ≠ []
  outside : ¬ src <+: dst

theorem Landing.not_prefix_dropLast (h : Landing fs src dst) : ¬ dst <+: dst.dropLast := by
  intro hpre
  have hlen := hpre.length_le
  have hpos := List.length_pos_of_ne_nil h.named
  rw [List.length_dropLast] at hlen
  omega

theorem Landing.src_ne_nil (h : Landing fs src dst) : src ≠ [] := by
  rintro rfl
  exact h.outside List.nil_prefix

theorem Landing.entryAt_dst (h : Landing fs src dst) (rel : Location) :
    entryAt (rename src dst fs) (dst ++ rel) = entryAt fs (src ++ rel) := by
  have hdst : dst ++ rel ≠ [] := by simp [h.named]
  have hsrc : src ++ rel ≠ [] := by simp [h.src_ne_nil]
  rw [entryAt, if_neg hdst, entryAt, if_neg hsrc, lookup_rename_dst rel h.free]

theorem Closed.rename (hfs : Closed fs) (h : Landing fs src dst) :
    Closed (FileTree.rename src dst fs) := by
  intro q n hsome
  by_cases hdst : dst <+: q ++ [n]
  · rcases List.prefix_concat_iff.mp hdst with heq | hpre
    · -- the new name itself, in the directory it was put in
      obtain rfl : dst.dropLast = q := by rw [heq, List.dropLast_concat]
      rw [entryAt_rename_other (fun hpre => h.outside (hpre.trans (List.dropLast_prefix dst)))
        h.not_prefix_dropLast, h.dir]
    · obtain ⟨rel, rfl⟩ := hpre
      rw [List.append_assoc, lookup_rename_dst _ h.free, ← List.append_assoc] at hsome
      rw [h.entryAt_dst, hfs _ n hsome]
  · rw [lookup_rename h.free, if_neg hdst] at hsome
    split at hsome
    · cases hsome
    next hsrc =>
    rw [entryAt_rename_other (fun hpre => hsrc (hpre.trans (List.prefix_append q [n])))
      (fun hpre => hdst (hpre.trans (List.prefix_append q [n])))]
    exact hfs q n hsome

end Moved

/-- Where a location has gone. -/
def carriedTo (src dst p : Location) : Location :=
  if src <+: p then dst ++ p.drop src.length else p

/-- The disk with something renamed. -/
def Disk.moved (t : Disk δ) (src dst : Location) (h : Landing t.fs src dst) : Disk δ where
  fs := rename src dst t.fs
  closed := t.closed.rename h
  cwd := carriedTo src dst t.cwd
  cwd_dir := by
    unfold carriedTo
    split
    · next hpre =>
      obtain ⟨rel, hrel⟩ := hpre
      rw [← hrel, List.drop_left, h.entryAt_dst, hrel, t.cwd_dir]
    · next hsrc =>
      rw [entryAt_rename_other hsrc, t.cwd_dir]
      rintro ⟨rel, hrel⟩
      -- nothing is below a free name
      have hdir := t.cwd_dir
      have hne : t.cwd ≠ [] := by
        rw [← hrel]
        simp [h.named]
      rw [entryAt, if_neg hne, ← hrel, h.free] at hdir
      cases hdir

/-- What stands in the way of an entry that is put at `dst`. -/
def inTheWay (fs : Fs δ) (e : Entry δ) (dst : Location) : Option CallError :=
  match fs.lookup dst with
  | none => none
  | some old =>
    if e.isDir then
      if !old.isDir then some (.walk .notADirectory)
      else if (walk fs dst).all fun i => i.1.isEmpty then none else some .notEmpty
    else if old.isDir then some .isADirectory else none

theorem landing_without {t : Disk δ} {src dst : Location}
    (hdir : entryAt t.fs dst.dropLast = some .dir) (hne : dst ≠ []) (hout : ¬ src <+: dst) :
    Landing (t.without dst).fs src dst where
  free rel := by
    rw [lookup_without, if_pos (List.prefix_append dst rel)]
  dir := by
    have hnot : ¬ dst <+: dst.dropLast := by
      intro hpre
      have hlen := hpre.length_le
      have hpos := List.length_pos_of_ne_nil hne
      rw [List.length_dropLast] at hlen
      omega
    exact (entryAt_removeSubtree hnot).trans hdir
  named := hne
  outside := hout

/-- `rename(2)`, between locations of one file system. -/
def Disk.renameAt (t : Disk δ) (src dst : Location) : Except CallError (Disk δ) :=
  match t.fs.lookup src with
  | none => .error (.walk .notFound)
  | some e =>
    if src = dst then .ok t
    else if hout : src <+: dst then .error .invalidArgument
    else match inTheWay t.fs e dst with
    | some err => .error err
    | none =>
      if h : entryAt t.fs dst.dropLast = some .dir ∧ dst ≠ [] then
        .ok ((t.without dst).moved src dst (landing_without h.1 h.2 hout))
      else .error (.walk .notFound)

/-- Nothing is put over what it lies in: a directory with something in it stays. -/
theorem not_prefix_of_inTheWay {t : Disk δ} {src dst : Location} {e : Entry δ}
    (hsrc : t.fs.lookup src = some e) (hne : src ≠ dst) (hdst : dst ≠ [])
    (hway : inTheWay t.fs e dst = none) : ¬ dst <+: src := by
  rintro ⟨rel, rfl⟩
  have hrel : rel ≠ [] := by
    rintro rfl
    exact hne (List.append_nil dst)
  have hdir : entryAt t.fs dst = some .dir := t.closed.dir_above hrel (by rw [hsrc]; rfl)
  rw [entryAt, if_neg hdst] at hdir
  have hfull : ¬ ((walk t.fs dst).all fun i => i.1.isEmpty) = true := by
    intro hall
    have hin : (rel, e) ∈ walk t.fs dst := mem_walk.mpr hsrc
    exact hrel (List.isEmpty_iff.mp (List.all_eq_true.mp hall (rel, e) hin))
  have hold : (Entry.dir : Entry δ).isDir = true := rfl
  unfold inTheWay at hway
  rw [hdir] at hway
  dsimp only at hway
  rw [hold, if_neg hfull, if_pos rfl] at hway
  cases hkind : e.isDir with
  | false =>
    rw [hkind] at hway
    cases hway
  | true =>
    rw [hkind] at hway
    cases hway

/-- **What a rename comes to**: nothing but the move. -/
theorem Disk.renameAt_ok {t t' : Disk δ} {src dst : Location} (h : t.renameAt src dst = .ok t') :
    (src = dst ∧ t' = t) ∨ (Apart dst src ∧ dst ≠ [] ∧ entryAt t.fs dst.dropLast = some .dir ∧
      t'.fs = rename src dst (removeSubtree t.fs dst) ∧
      t'.cwd = carriedTo src dst (t.without dst).cwd) := by
  unfold Disk.renameAt at h
  split at h
  · cases h
  next e hsrc =>
  split at h
  · next heq => exact Or.inl ⟨heq, (Except.ok.inj h).symm⟩
  next hne =>
  split at h
  · cases h
  next hout =>
  split at h
  · cases h
  next hway =>
  split at h
  · next hdst =>
    obtain rfl := Except.ok.inj h
    exact Or.inr ⟨⟨not_prefix_of_inTheWay hsrc hne hdst.2 hway, hout⟩, hdst.2, hdst.1, rfl, rfl⟩
  · cases h

/-- **Every location after a rename.** -/
theorem Disk.lookup_renameAt {t t' : Disk δ} {src dst : Location}
    (h : t.renameAt src dst = .ok t') (p : Location) : t'.fs.lookup p =
      if dst <+: p then t.fs.lookup (src ++ p.drop dst.length)
      else if src <+: p then none else t.fs.lookup p := by
  rcases Disk.renameAt_ok h with ⟨rfl, rfl⟩ | ⟨hapart, -, -, hfs, -⟩
  · by_cases hpre : src <+: p
    · obtain ⟨rel, rfl⟩ := hpre
      rw [if_pos (List.prefix_append src rel), List.drop_left]
    · rw [if_neg hpre, if_neg hpre]
  · rw [hfs, lookup_rename fun rel => by
      rw [lookup_removeSubtree, if_pos (List.prefix_append dst rel)]]
    by_cases hdst : dst <+: p
    · rw [if_pos hdst, if_pos hdst, lookup_removeSubtree, if_neg (hapart.not_prefix_append _)]
    · rw [if_neg hdst, if_neg hdst, lookup_removeSubtree, if_neg hdst]

/-- What was renamed is there, whole. -/
theorem Disk.lookup_renameAt_dst {t t' : Disk δ} {src dst : Location}
    (h : t.renameAt src dst = .ok t') (rel : Location) :
    t'.fs.lookup (dst ++ rel) = t.fs.lookup (src ++ rel) := by
  rw [Disk.lookup_renameAt h, if_pos (List.prefix_append dst rel), List.drop_left]

/-- What has nothing to do with it stays. -/
theorem Disk.lookup_renameAt_other {t t' : Disk δ} {src dst p : Location}
    (h : t.renameAt src dst = .ok t') (hsrc : ¬ src <+: p) (hdst : ¬ dst <+: p) :
    t'.fs.lookup p = t.fs.lookup p := by
  rw [Disk.lookup_renameAt h, if_neg hdst, if_neg hsrc]

/-- The working directory is not where nothing is. -/
theorem Disk.cwd_not_below (t : Disk δ) {q : Location} (hq : q ≠ [])
    (hnone : ∀ rel, t.fs.lookup (q ++ rel) = none) : ¬ q <+: t.cwd := by
  rintro ⟨rel, hrel⟩
  have hdir := t.cwd_dir
  have hne : t.cwd ≠ [] := by
    rw [← hrel]
    simp [hq]
  rw [entryAt, if_neg hne, ← hrel, hnone] at hdir
  cases hdir

theorem cwd_without {t : Disk δ} {q : Location} (h : ¬ q <+: t.cwd) :
    (t.without q).cwd = t.cwd := if_neg h

theorem carriedTo_back {src dst p : Location} (h : ¬ dst <+: p) :
    carriedTo dst src (carriedTo src dst p) = p := by
  unfold carriedTo
  by_cases hpre : src <+: p
  · obtain ⟨rel, rfl⟩ := hpre
    rw [if_pos (List.prefix_append src rel), List.drop_left,
      if_pos (List.prefix_append dst rel), List.drop_left]
  · rw [if_neg hpre, if_neg h]

theorem Closed.none_below_lookup {fs : Fs δ} (h : Closed fs) {q : Location} (hq : q ≠ [])
    (hnone : fs.lookup q = none) (rel : Location) : fs.lookup (q ++ rel) = none := by
  have hbelow := h.none_below (q := q) (by rw [entryAt, if_neg hq, hnone]) rel
  rwa [entryAt, if_neg (by simp [hq])] at hbelow

/-- **A rename is undone by renaming back**, when it was to a free name. -/
theorem Disk.renameAt_back {t t₁ t₂ : Disk δ} {src dst : Location}
    (hfree : t.fs.lookup dst = none) (h : t.renameAt src dst = .ok t₁)
    (hback : t₁.renameAt dst src = .ok t₂) : Covers t.fs t₂.fs ∧ t₂.cwd = t.cwd := by
  rcases Disk.renameAt_ok h with ⟨rfl, rfl⟩ | ⟨hapart, hdst, -, -, hcwd⟩
  · -- nothing is renamed to itself when the name is free
    unfold Disk.renameAt at h
    rw [hfree] at h
    cases h
  rcases Disk.renameAt_ok hback with ⟨rfl, rfl⟩ | ⟨-, hsrc, -, -, hcwd'⟩
  · exact absurd (List.prefix_refl dst) hapart.1
  have hnone : ∀ rel, t.fs.lookup (dst ++ rel) = none := t.closed.none_below_lookup hdst hfree
  have hgone : ∀ rel, t₁.fs.lookup (src ++ rel) = none := by
    intro rel
    rw [Disk.lookup_renameAt h, if_neg (hapart.not_prefix_append rel),
      if_pos (List.prefix_append src rel)]
  constructor
  · intro p e hp
    by_cases hpre : src <+: p
    · obtain ⟨rel, rfl⟩ := hpre
      rw [Disk.lookup_renameAt_dst hback, Disk.lookup_renameAt_dst h, hp]
    · have hout : ¬ dst <+: p := by
        rintro ⟨rel, rfl⟩
        rw [hnone rel] at hp
        cases hp
      rw [Disk.lookup_renameAt_other hback hout hpre, Disk.lookup_renameAt_other h hpre hout, hp]
  · -- the working directory is in neither free place
    have hout : ¬ dst <+: t.cwd := t.cwd_not_below hdst hnone
    rw [hcwd', cwd_without (t₁.cwd_not_below hsrc hgone), hcwd, cwd_without hout,
      carriedTo_back hout]

section Siblings

variable {d : Location} {m n : Name}

theorem carriedTo_dropLast (d : Location) (m n : Name) (x : Location) :
    carriedTo (d ++ [m]) (d ++ [n]) x.dropLast = (carriedTo (d ++ [m]) (d ++ [n]) x).dropLast := by
  unfold carriedTo
  by_cases hpre : d ++ [m] <+: x
  · obtain ⟨rel, rfl⟩ := hpre
    rw [if_pos (List.prefix_append (d ++ [m]) rel), List.drop_left]
    rcases List.eq_nil_or_concat rel with rfl | ⟨rel, c, rfl⟩
    · -- out of what was renamed, into the directory that both names are in
      rw [List.append_nil, List.append_nil, List.dropLast_concat, List.dropLast_concat, if_neg]
      intro hin
      have hlen := hin.length_le
      rw [List.length_append, List.length_singleton] at hlen
      exact Nat.not_succ_le_self _ hlen
    · rw [List.concat_eq_append, ← List.append_assoc, List.dropLast_concat,
        if_pos (List.prefix_append (d ++ [m]) rel), List.drop_left, ← List.append_assoc,
        List.dropLast_concat]
  · rw [if_neg hpre, if_neg fun hin => hpre (hin.trans (List.dropLast_prefix x))]

/-- Passing one component on both sides of a rename. -/
theorem lookup_carried {fs fs' : Fs δ}
    (hlook : ∀ p, fs'.lookup p =
      if d ++ [n] <+: p then fs.lookup (d ++ [m] ++ p.drop (d ++ [n]).length)
      else if d ++ [m] <+: p then none else fs.lookup p)
    (hfree : ∀ rel, fs.lookup (d ++ [n] ++ rel) = none) {x : Location} {c : Name} {e e' : Entry δ}
    (he : fs.lookup (x ++ [c]) = some e)
    (he' : fs'.lookup (carriedTo (d ++ [m]) (d ++ [n]) x ++ [c]) = some e') :
    e' = e ∧ carriedTo (d ++ [m]) (d ++ [n]) (x ++ [c]) =
      carriedTo (d ++ [m]) (d ++ [n]) x ++ [c] := by
  by_cases hpre : d ++ [m] <+: x
  · obtain ⟨rel, rfl⟩ := hpre
    have hx : carriedTo (d ++ [m]) (d ++ [n]) (d ++ [m] ++ rel) = d ++ [n] ++ rel := by
      rw [carriedTo, if_pos (List.prefix_append _ rel), List.drop_left]
    have hxc : carriedTo (d ++ [m]) (d ++ [n]) (d ++ [m] ++ rel ++ [c]) =
        d ++ [n] ++ rel ++ [c] := by
      rw [List.append_assoc _ rel, carriedTo, if_pos (List.prefix_append _ _), List.drop_left,
        List.append_assoc _ rel]
    rw [hx] at he' ⊢
    refine ⟨?_, hxc⟩
    rw [List.append_assoc, hlook, if_pos (List.prefix_append _ _), List.drop_left,
      ← List.append_assoc, he] at he'
    exact (Option.some.inj he').symm
  · have hx : carriedTo (d ++ [m]) (d ++ [n]) x = x := if_neg hpre
    rw [hx] at he' ⊢
    have hdst : ¬ d ++ [n] <+: x ++ [c] := by
      rintro ⟨rel, hrel⟩
      rw [← hrel, hfree] at he
      cases he
    rw [hlook, if_neg hdst] at he'
    split at he'
    · cases he'
    next hsrc =>
    rw [he] at he'
    exact ⟨(Option.some.inj he').symm, if_neg hsrc⟩

/-- **A walk goes along with a rename** to another name in the same directory: where it leads on
both sides, it leads to the same, or to where that has gone. -/
theorem resolve_carried {fs fs' : Fs δ}
    (hlook : ∀ p, fs'.lookup p =
      if d ++ [n] <+: p then fs.lookup (d ++ [m] ++ p.drop (d ++ [n]).length)
      else if d ++ [m] <+: p then none else fs.lookup p)
    (hfree : ∀ rel, fs.lookup (d ++ [n] ++ rel) = none) {links links' : Nat}
    {start q q' : Location} {parts : List Name} (h : resolve fs links start parts = .ok q)
    (h' : resolve fs' links' (carriedTo (d ++ [m]) (d ++ [n]) start) parts = .ok q') :
    q' = carriedTo (d ++ [m]) (d ++ [n]) q := by
  induction h using resolve_induction generalizing links' with
  | here links =>
    rw [resolve_nil] at h'
    exact (Except.ok.inj h').symm
  | dot links cur c rest hc _ ih => exact ih ((resolve_dot rest hc).symm.trans h')
  | up links cur c rest hc _ ih =>
    rw [resolve_up rest hc, ← carriedTo_dropLast] at h'
    exact ih h'
  | into links cur c rest hc hentry _ ih =>
    cases hentry' : fs'.lookup (carriedTo (d ++ [m]) (d ++ [n]) cur ++ [c]) with
    | none =>
      rw [resolve_absent rest hc hentry'] at h'
      cases h'
    | some e' =>
      obtain ⟨rfl, hcarried⟩ := lookup_carried hlook hfree hentry hentry'
      rw [resolve_into rest hc hentry', ← hcarried] at h'
      exact ih h'
  | through links cur c rest target hc hentry _ ih =>
    cases hentry' : fs'.lookup (carriedTo (d ++ [m]) (d ++ [n]) cur ++ [c]) with
    | none =>
      rw [resolve_absent rest hc hentry'] at h'
      cases h'
    | some e' =>
      obtain ⟨rfl, -⟩ := lookup_carried hlook hfree hentry hentry'
      cases links' with
      | zero =>
        rw [resolve_exhausted rest hc hentry'] at h'
        cases h'
      | succ links' =>
        rw [resolve_through rest hc hentry'] at h'
        have hstart : target.start (carriedTo (d ++ [m]) (d ++ [n]) cur) =
            carriedTo (d ++ [m]) (d ++ [n]) (target.start cur) := by
          unfold Spelled.start
          by_cases habsolute : target.absolute = true
          · rw [if_pos habsolute, if_pos habsolute, carriedTo, if_neg (by simp)]
          · rw [if_neg habsolute, if_neg habsolute]
        rw [hstart] at h'
        exact ih h'
  | leaf links cur c e hc hentry hleaf hq _ =>
    cases hentry' : fs'.lookup (carriedTo (d ++ [m]) (d ++ [n]) cur ++ [c]) with
    | none =>
      rw [resolve_absent [] hc hentry'] at h'
      cases h'
    | some e' =>
      obtain ⟨rfl, hcarried⟩ := lookup_carried hlook hfree hentry hentry'
      rw [resolve_leaf [] hc hentry' hleaf, if_pos rfl, ← hcarried] at h'
      rw [← hq]
      exact (Except.ok.inj h').symm

end Siblings

/-- **What a link call comes to.** -/
theorem Disk.symlinkAt_ok {t t' : Disk δ} {target : Spelled} {text : String}
    (h : t.symlinkAt target text = .ok t') :
    ∃ p q, EntryPath.parse text = some p ∧ p.slash = false ∧ t.parentOf p = .ok q ∧
      t.fs.lookup (q ++ [p.last]) = none ∧
      t'.fs = t.fs.insert (q ++ [p.last]) (.symlink target) ∧ t'.cwd = t.cwd := by
  unfold Disk.symlinkAt at h
  split at h
  · split at h <;> cases h
  next p hp =>
  split at h
  · cases h
  next q hq =>
  split at h
  · next hfree =>
    split at h
    · cases h
    next hslash =>
    obtain rfl := Except.ok.inj h
    exact ⟨p, q, hp, by simpa using hslash, hq, hfree, rfl, rfl⟩
  · cases h

/-- A link is made wherever the path leads to a free name. -/
theorem Disk.symlinkAt_of_free {t : Disk δ} {text : String} {p : EntryPath} {q : Location}
    (hp : EntryPath.parse text = some p) (hslash : p.slash = false) (hq : t.parentOf p = .ok q)
    (hfree : t.fs.lookup (q ++ [p.last]) = none) (target : Spelled) :
    ∃ t', t.symlinkAt target text = .ok t' := by
  unfold Disk.symlinkAt
  split
  · next hnone => simp [hp] at hnone
  next p' hp' =>
  obtain rfl : p = p' := Option.some.inj (hp.symm.trans hp')
  split
  · next hq' => simp [hq] at hq'
  next q' hq' =>
  obtain rfl : q = q' := Except.ok.inj (hq.symm.trans hq')
  rw [dif_pos hfree, hslash]
  exact ⟨_, rfl⟩

/-- Unlinking takes one entry. -/
theorem Disk.unlinkAt_ok {t t' : Disk δ} {q : Location} (h : t.unlinkAt q = .ok t') :
    entryAt t.fs q ≠ some .dir ∧ t'.fs = t.fs.erase q ∧ t'.cwd = t.cwd := by
  unfold Disk.unlinkAt at h
  split at h
  · cases h
  next hdir =>
  obtain rfl := Except.ok.inj h
  exact ⟨hdir, rfl, rfl⟩

theorem Disk.eq_of {t t' : Disk δ} (hfs : t.fs = t'.fs) (hcwd : t.cwd = t'.cwd) : t = t' := by
  cases t
  cases t'
  simp_all

/-! ## Making directories -/

/-- `create_dir_all`: the disk it leaves, and where it stopped or arrived. -/
def Disk.createDirAll (t : Disk δ) (p : Spelled) : Disk δ × Except Errno Location :=
  let made := FileTree.makeDirs t.fs (p.start t.cwd) p.parts
  ({ fs := made.1
     closed := t.closed.makeDirs (t.start_dir p)
     cwd := t.cwd
     cwd_dir := entryAt_makeDirs t.cwd_dir }, made.2)

end FileTree
