import DraconGuard.Disk.GitScan
import DraconGuard.Disk.ApplyLaw

/-!
# Which git scratch files are deleted

The walk does not follow links down to a `.git`, "so a repo cannot lure the walk outside a
configured root" (git_temp.rs:75-80), but `objects` and `objects/pack` are read by joined paths,
and there it follows them. The owner check compares the repository as the path spells it with the
working directory as the kernel reports it, which has no links in it. **`mem_findGitTempFiles`**
says what the walk finds, and **`git_scratch_idle_iff`** when what is deleted lay below the root
and in an idle repository.
-/

namespace DraconGuard

open FileTree (Name Location Mount Fs Entry Errno resolve maxLinks walk resolve_append resolve_dir
  mem_walk entryAt)

/-! ## What is listed -/

theorem mem_childrenOf {δ : Type} {fs : Fs δ} {dir : Location} {n : Name} {e : Entry δ} :
    (n, e) ∈ childrenOf fs dir ↔ fs.lookup (dir ++ [n]) = some e := by
  rw [← mem_walk]
  unfold childrenOf
  rw [List.mem_filterMap]
  constructor
  · rintro ⟨⟨rel, e'⟩, hmem, hitem⟩
    match rel, hitem with
    | [m], hitem =>
      obtain ⟨rfl, rfl⟩ := Prod.mk.inj (Option.some.inj hitem)
      exact hmem
  · intro hmem
    exact ⟨([n], e), hmem, rfl⟩

namespace GitHost

variable {host : GitHost} {p q : Location} {n : Name}

theorem mem_readDir {e : Entry FileMeta} :
    (n, e) ∈ host.readDir p ↔
      ∃ q, host.resolved p = .ok q ∧ host.fs.lookup (q ++ [n]) = some e := by
  unfold readDir
  cases hq : host.resolved p with
  | error err => simp
  | ok q => simp [mem_childrenOf]

theorem plain_of_lookup {e : Entry FileMeta} (h : host.fs.lookup (q ++ [n]) = some e) :
    n.isPlain = true :=
  host.plain (q ++ [n]) (Option.isSome_iff_exists.mpr ⟨e, h⟩) n (by simp)

theorem dir_of_lookup {e : Entry FileMeta} (h : host.fs.lookup (q ++ [n]) = some e) :
    entryAt host.fs q = some .dir :=
  host.closed q n (Option.isSome_iff_exists.mpr ⟨e, h⟩)

theorem start_concat (hn : n.isPlain = true) : host.start (p ++ [n]) = host.start p := by
  cases p with
  | nil =>
    have hdot : n ≠ Name.current := by
      rintro rfl
      exact absurd hn (by decide)
    simp [start, hdot]
  | cons m p => rfl

/-- The path to an entry that is no link leads to it. -/
theorem resolved_concat {e : Entry FileMeta} (hq : host.resolved p = .ok q)
    (hlook : host.fs.lookup (q ++ [n]) = some e) (hlink : ∀ target, e ≠ .symlink target) :
    host.resolved (p ++ [n]) = .ok (q ++ [n]) := by
  have hplain := plain_of_lookup hlook
  obtain ⟨left, hleft⟩ := resolve_append hq (dir_of_lookup hlook) [n]
  rw [resolved, start_concat hplain, hleft]
  cases e with
  | dir => exact resolve_dir hplain hlook
  | symlink target => exact absurd rfl (hlink target)
  | file data | special =>
    obtain ⟨hdot, hup⟩ : n.text ≠ "." ∧ n.text ≠ ".." := by simpa [Name.isPlain] using hplain
    cases left <;> simp [resolve, FileTree.resolveWith, hdot, hup, hlook]

end GitHost

/-! ## What is found -/

/-- Directories all the way down, with text for names and none called `.git`. -/
def WalksDown (fs : Fs FileMeta) (base : Location) : List Name → Prop
  | [] => True
  | n :: rest => n.isUtf8 = true ∧ n ≠ gitDirName ∧ fs.lookup (base ++ [n]) = some .dir ∧
      WalksDown fs (base ++ [n]) rest

theorem WalksDown.resolved {host : GitHost} {p base rel : Location}
    (hp : host.resolved p = .ok base) (h : WalksDown host.fs base rel) :
    host.resolved (p ++ rel) = .ok (base ++ rel) := by
  induction rel generalizing p base with
  | nil => rwa [List.append_nil, List.append_nil]
  | cons n rest ih =>
    obtain ⟨-, -, hlook, hrest⟩ := h
    rw [List.append_cons p, List.append_cons base]
    exact ih (GitHost.resolved_concat hp hlook nofun) hrest

/-- The directory of the object store the walk looks into: `pack`, or a fanout directory where
`objects` leads. -/
def LooksInto (host : GitHost) (gitDir : Location) (sub : Name) : Prop :=
  sub = packName ∨ sub.isUtf8 = true ∧ isFanoutName sub = true ∧
    ∃ o, host.resolved (gitDir ++ [objectsName]) = .ok o ∧ host.fs.lookup (o ++ [sub]) = some .dir

/-- A scratch file of the repository at `rel` below the root: the root leads to `base`, the
object directory `sub` to `place`. -/
structure Scratch (host : GitHost) (root : Location) (maxDepth : Nat) (base rel : Location)
    (sub n : Name) (place : Location) (data : FileMeta) : Prop where
  leads : host.resolved root = .ok base
  depth : rel.length ≤ maxDepth
  walks : WalksDown host.fs base rel
  git : host.fs.lookup (base ++ rel ++ [gitDirName]) = some .dir
  looks : LooksInto host (root ++ rel ++ [gitDirName]) sub
  storage : host.resolved (root ++ rel ++ [gitDirName, objectsName, sub]) = .ok place
  file : host.fs.lookup (place ++ [n]) = some (.file data)
  name : takesName n = true

/-- The path under which it is found. -/
def scratchPath (root rel : Location) (sub n : Name) : Location :=
  root ++ rel ++ [gitDirName, objectsName, sub, n]

theorem scratchPath_eq (root rel : Location) (sub n : Name) :
    scratchPath root rel sub n = root ++ rel ++ [gitDirName, objectsName, sub] ++ [n] := by
  simp [scratchPath]

theorem mem_scanFlatDir {host : GitHost} {dir : Location} {c : GitTempFile} :
    c ∈ scanFlatDir host dir ↔ ∃ place n data, host.resolved dir = .ok place ∧
      host.fs.lookup (place ++ [n]) = some (.file data) ∧ takesName n = true ∧
      c = scratchFile host (dir ++ [n]) data := by
  unfold scanFlatDir
  rw [List.mem_filterMap]
  constructor
  · rintro ⟨⟨n, e⟩, hmem, hitem⟩
    obtain ⟨place, hplace, hlook⟩ := GitHost.mem_readDir.mp hmem
    split at hitem
    · next hname =>
      cases e with
      | file data => exact ⟨place, n, data, hplace, hlook, hname, (Option.some.inj hitem).symm⟩
      | dir | symlink | special => cases hitem
    · cases hitem
  · rintro ⟨place, n, data, hplace, hlook, hname, rfl⟩
    exact ⟨(n, .file data), GitHost.mem_readDir.mpr ⟨place, hplace, hlook⟩, if_pos hname⟩

theorem mem_scanGitDir {host : GitHost} {gitDir : Location} {c : GitTempFile} :
    c ∈ scanGitDir host gitDir ↔ ∃ sub, LooksInto host gitDir sub ∧
      c ∈ scanFlatDir host (gitDir ++ [objectsName, sub]) := by
  unfold scanGitDir
  rw [List.mem_append, List.mem_flatMap]
  constructor
  · rintro (hpack | ⟨⟨sub, e⟩, hmem, hc⟩)
    · exact ⟨packName, Or.inl rfl, hpack⟩
    · split at hc
      · next hfanout =>
        simp only [Bool.and_eq_true] at hfanout
        obtain ⟨o, ho, hlook⟩ := GitHost.mem_readDir.mp hmem
        cases e with
        | dir => exact ⟨sub, Or.inr ⟨hfanout.1.2, hfanout.2, o, ho, hlook⟩, hc⟩
        | file | symlink | special => exact absurd hfanout.1.1 Bool.false_ne_true
      · cases hc
  · rintro ⟨sub, rfl | ⟨htext, hfanout, o, ho, hlook⟩, hc⟩
    · exact Or.inl hc
    · refine Or.inr ⟨(sub, .dir), GitHost.mem_readDir.mpr ⟨o, ho, hlook⟩, ?_⟩
      rw [if_pos (by simp [htext, hfanout, Entry.isDir])]
      exact hc

theorem mem_gitDirs {host : GitHost} {p : Location} {n : Name} {e : Entry FileMeta} :
    (n, e) ∈ (host.readDir p).filter (fun entry => entry.2.isDir && entry.1.isUtf8) ↔
      ∃ q, host.resolved p = .ok q ∧ host.fs.lookup (q ++ [n]) = some e ∧ e = .dir ∧
        n.isUtf8 = true := by
  rw [List.mem_filter, GitHost.mem_readDir, Bool.and_eq_true]
  constructor
  · rintro ⟨⟨q, hq, hlook⟩, hdir, htext⟩
    cases e with
    | dir => exact ⟨q, hq, hlook, rfl, htext⟩
    | file | symlink | special => exact absurd hdir Bool.false_ne_true
  · rintro ⟨q, hq, hlook, rfl, htext⟩
    exact ⟨⟨q, hq, hlook⟩, rfl, htext⟩

/-- **The walk**, from a directory that leads somewhere. -/
theorem mem_collectGitTempFiles {host : GitHost} {deeper : Nat} {dir base : Location}
    {c : GitTempFile} (hdir : host.resolved dir = .ok base) :
    c ∈ collectGitTempFiles host deeper dir ↔ ∃ rel : List Name, rel.length ≤ deeper ∧
      WalksDown host.fs base rel ∧ host.fs.lookup (base ++ rel ++ [gitDirName]) = some .dir ∧
      c ∈ scanGitDir host (dir ++ rel ++ [gitDirName]) := by
  have hhere : ∀ {dir base : Location}, host.resolved dir = .ok base →
      ((c ∈ (((host.readDir dir).filter fun entry => entry.2.isDir && entry.1.isUtf8).filter
          fun entry => entry.1 = gitDirName).flatMap fun entry =>
            scanGitDir host (dir ++ [entry.1])) ↔
        host.fs.lookup (base ++ [gitDirName]) = some .dir ∧
          c ∈ scanGitDir host (dir ++ [gitDirName])) := by
    intro dir base hdir
    rw [List.mem_flatMap]
    constructor
    · rintro ⟨⟨n, e⟩, hmem, hc⟩
      obtain ⟨hmem, hgit⟩ := List.mem_filter.mp hmem
      obtain ⟨q, hq, hlook, rfl, -⟩ := mem_gitDirs.mp hmem
      obtain rfl : n = gitDirName := of_decide_eq_true hgit
      obtain rfl := Except.ok.inj (hdir.symm.trans hq)
      exact ⟨hlook, hc⟩
    · rintro ⟨hlook, hc⟩
      refine ⟨(gitDirName, .dir), List.mem_filter.mpr ⟨?_, decide_eq_true rfl⟩, hc⟩
      exact mem_gitDirs.mpr ⟨base, hdir, hlook, rfl, by decide⟩
  induction deeper generalizing dir base with
  | zero =>
    rw [collectGitTempFiles, hhere hdir]
    constructor
    · rintro ⟨hlook, hc⟩
      exact ⟨[], Nat.le_refl 0, trivial, by rwa [List.append_nil], by rwa [List.append_nil]⟩
    · rintro ⟨rel, hlength, -, hlook, hc⟩
      obtain rfl := List.length_eq_zero_iff.mp (Nat.le_zero.mp hlength)
      rw [List.append_nil] at hlook hc
      exact ⟨hlook, hc⟩
  | succ deeper ih =>
    rw [collectGitTempFiles, List.mem_append, hhere hdir, List.mem_flatMap]
    constructor
    · rintro (⟨hlook, hc⟩ | ⟨⟨n, e⟩, hmem, hc⟩)
      · exact ⟨[], Nat.zero_le _, trivial, by rwa [List.append_nil], by rwa [List.append_nil]⟩
      · obtain ⟨hmem, hgit⟩ := List.mem_filter.mp hmem
        obtain ⟨q, hq, hlook, rfl, htext⟩ := mem_gitDirs.mp hmem
        obtain rfl := Except.ok.inj (hdir.symm.trans hq)
        have hnext := GitHost.resolved_concat hdir hlook nofun
        obtain ⟨rel, hlength, hwalks, hgitDir, hc⟩ := (ih hnext).mp hc
        refine ⟨n :: rel, Nat.succ_le_succ hlength, ⟨htext, of_decide_eq_true hgit, hlook, hwalks⟩,
          ?_, ?_⟩
        · rwa [List.append_cons base n rel]
        · rwa [List.append_cons dir n rel]
    · rintro ⟨rel, hlength, hwalks, hgitDir, hc⟩
      cases rel with
      | nil =>
        rw [List.append_nil] at hgitDir hc
        exact Or.inl ⟨hgitDir, hc⟩
      | cons n rel =>
        obtain ⟨htext, hgit, hlook, hwalks⟩ := hwalks
        have hnext := GitHost.resolved_concat hdir hlook nofun
        rw [List.append_cons base n rel] at hgitDir
        rw [List.append_cons dir n rel] at hc
        refine Or.inr ⟨(n, .dir), List.mem_filter.mpr ⟨?_, decide_eq_true hgit⟩, ?_⟩
        · exact mem_gitDirs.mpr ⟨base, hdir, hlook, rfl, htext⟩
        · exact (ih hnext).mpr ⟨rel, Nat.le_of_succ_le_succ hlength, hwalks, hgitDir, hc⟩

/-- A root that leads nowhere has nothing below it. -/
theorem resolved_of_mem_collect {host : GitHost} {deeper : Nat} {dir : Location}
    {c : GitTempFile} (h : c ∈ collectGitTempFiles host deeper dir) :
    ∃ base, host.resolved dir = .ok base := by
  cases hdir : host.resolved dir with
  | ok base => exact ⟨base, rfl⟩
  | error err =>
    have hempty : host.readDir dir = [] := by rw [GitHost.readDir, hdir]
    cases deeper <;> simp [collectGitTempFiles, hempty] at h

/-- **What the walk finds**: the scratch files, each under its path. -/
theorem mem_findGitTempFiles {host : GitHost} {root : Location} {maxDepth : Nat}
    {c : GitTempFile} :
    c ∈ findGitTempFiles host root maxDepth ↔ ∃ base rel sub n place data,
      Scratch host root maxDepth base rel sub n place data ∧
        c = scratchFile host (scratchPath root rel sub n) data := by
  constructor
  · intro hc
    obtain ⟨base, hbase⟩ := resolved_of_mem_collect hc
    obtain ⟨rel, hdepth, hwalks, hgit, hc⟩ := (mem_collectGitTempFiles hbase).mp hc
    obtain ⟨sub, hlooks, hc⟩ := mem_scanGitDir.mp hc
    rw [List.append_assoc, List.singleton_append] at hc
    obtain ⟨place, n, data, hplace, hfile, hname, rfl⟩ := mem_scanFlatDir.mp hc
    refine ⟨base, rel, sub, n, place, data,
      ⟨hbase, hdepth, hwalks, hgit, hlooks, ?_, hfile, hname⟩, ?_⟩
    · simpa using hplace
    · rw [scratchPath_eq]
  · rintro ⟨base, rel, sub, n, place, data, h, rfl⟩
    refine (mem_collectGitTempFiles h.leads).mpr ⟨rel, h.depth, h.walks, h.git, ?_⟩
    refine mem_scanGitDir.mpr ⟨sub, h.looks, ?_⟩
    rw [List.append_assoc, List.singleton_append]
    refine mem_scanFlatDir.mpr ⟨place, n, data, h.storage, h.file, h.name, ?_⟩
    rw [scratchPath_eq]

/-- The path of a scratch file leads into the place of its directory. -/
theorem Scratch.resolved {host : GitHost} {root base rel place : Location} {maxDepth : Nat}
    {sub n : Name} {data : FileMeta} (h : Scratch host root maxDepth base rel sub n place data) :
    host.resolved (scratchPath root rel sub n) = .ok (place ++ [n]) := by
  rw [scratchPath_eq]
  exact GitHost.resolved_concat h.storage h.file nofun

/-! ## Inside the root -/

/-- `objects` and `objects/pack` of the repository at `repo` are directories, not links. -/
def OwnStorage (fs : Fs FileMeta) (repo : Location) (sub : Name) : Prop :=
  fs.lookup (repo ++ [gitDirName] ++ [objectsName]) = some .dir ∧
    (sub = packName → fs.lookup (repo ++ [gitDirName] ++ [objectsName] ++ [packName]) = some .dir)

/-- A repository that stores its objects itself has its scratch files inside. -/
theorem Scratch.place_of_ownStorage {host : GitHost} {root base rel place : Location}
    {maxDepth : Nat} {sub n : Name} {data : FileMeta}
    (h : Scratch host root maxDepth base rel sub n place data)
    (hown : OwnStorage host.fs (base ++ rel) sub) :
    place = base ++ rel ++ [gitDirName, objectsName, sub] := by
  have hgit : host.resolved (root ++ rel ++ [gitDirName]) = .ok (base ++ rel ++ [gitDirName]) :=
    GitHost.resolved_concat (h.walks.resolved h.leads) h.git nofun
  have hobjects : host.resolved (root ++ rel ++ [gitDirName] ++ [objectsName]) =
      .ok (base ++ rel ++ [gitDirName] ++ [objectsName]) :=
    GitHost.resolved_concat hgit hown.1 nofun
  have hsub : host.fs.lookup (base ++ rel ++ [gitDirName] ++ [objectsName] ++ [sub]) =
      some .dir := by
    rcases h.looks with hpack | ⟨-, -, o, ho, hlook⟩
    · exact hpack ▸ hown.2 hpack
    · obtain rfl := Except.ok.inj (hobjects.symm.trans ho)
      exact hlook
  have hplace := GitHost.resolved_concat hobjects hsub nofun
  have hstorage := h.storage
  simp only [List.append_assoc, List.cons_append, List.nil_append] at hplace hstorage ⊢
  exact Except.ok.inj (hstorage.symm.trans hplace)

/-- Every path that is found leads to a file inside the root. -/
def FoundInside (host : GitHost) (root : Location) (maxDepth : Nat) : Prop :=
  ∀ c ∈ findGitTempFiles host root maxDepth, ∃ base q data,
    host.resolved root = .ok base ∧ host.resolved c.path = .ok q ∧
      host.fs.lookup q = some (.file data) ∧ base <+: q

/-- Where `objects` or `objects/pack` of a repository the walk comes to is a link to scratch
files, it stays below the root. -/
def LinksInside (host : GitHost) (root : Location) (maxDepth : Nat) : Prop :=
  ∀ base rel sub n place data, Scratch host root maxDepth base rel sub n place data →
    ¬ OwnStorage host.fs (base ++ rel) sub → base <+: place

theorem foundInside_iff (host : GitHost) (root : Location) (maxDepth : Nat) :
    FoundInside host root maxDepth ↔ LinksInside host root maxDepth := by
  constructor
  · intro hinside base rel sub n place data h _
    obtain ⟨base', q, data', hbase, hq, hfile, hprefix⟩ := hinside _
      (mem_findGitTempFiles.mpr ⟨base, rel, sub, n, place, data, h, rfl⟩)
    obtain rfl := Except.ok.inj (h.leads.symm.trans hbase)
    obtain rfl := Except.ok.inj (h.resolved.symm.trans hq)
    rcases List.prefix_concat_iff.mp hprefix with heq | hplace
    · -- the root is listed, the file is not a directory
      have hdir : entryAt host.fs base = some .dir := by
        cases rel with
        | nil =>
          have hgit := h.git
          rw [List.append_nil] at hgit
          exact GitHost.dir_of_lookup hgit
        | cons m rel => exact GitHost.dir_of_lookup h.walks.2.2.1
      rw [heq, FileTree.entryAt_concat, h.file] at hdir
      cases hdir
    · exact hplace
  · intro hlinks c hc
    obtain ⟨base, rel, sub, n, place, data, h, rfl⟩ := mem_findGitTempFiles.mp hc
    refine ⟨base, place ++ [n], data, h.leads, h.resolved, h.file, ?_⟩
    refine List.IsPrefix.trans ?_ (List.prefix_append place [n])
    by_cases hown : OwnStorage host.fs (base ++ rel) sub
    · rw [h.place_of_ownStorage hown, List.append_assoc]
      exact List.prefix_append _ _
    · exact hlinks _ _ _ _ _ _ h hown

/-! ## Idle repositories -/

/-- No live pack-writing git works in the repository, as `/proc` reports it. -/
def Idle (scan : ProcScan) (repo : Location) : Prop :=
  ∀ o ∈ liveGitOwners scan, o.writesPacks = true → ∀ d, o.cwd = some d → ¬ repo <+: d

theorem idle_iff {scan : ProcScan} {repo : Location} :
    Idle scan repo ↔ gitOwnerFor (liveGitOwners scan) repo = none := by
  unfold Idle gitOwnerFor
  rw [List.find?_eq_none]
  refine forall₂_congr fun o _ => ?_
  cases o.cwd with
  | none => simp
  | some d => simp

theorem ne_git_of_takesName {n : Name} (h : takesName n = true) : n ≠ gitDirName := by
  rintro rfl
  exact absurd h (by decide)

theorem looksInto_ne_git {host : GitHost} {gitDir : Location} {sub : Name}
    (h : LooksInto host gitDir sub) : sub ≠ gitDirName := by
  rintro rfl
  rcases h with hpack | ⟨-, hfanout, -⟩
  · exact absurd hpack (by decide)
  · exact absurd hfanout (by decide)

/-- The repository as the path spells it. -/
theorem repoRoot_scratchPath {root rel : Location} {sub n : Name} (hsub : sub ≠ gitDirName)
    (hn : n ≠ gitDirName) :
    repoRootForGitPath (scratchPath root rel sub n) = some (root ++ rel) := by
  have hobjects : objectsName ≠ gitDirName := by decide
  simp [repoRootForGitPath, scratchPath, hsub, hn, hobjects]

theorem Scratch.ownerOf_eq_none {host : GitHost} {root base rel place : Location} {maxDepth : Nat}
    {sub n : Name} {data : FileMeta} (h : Scratch host root maxDepth base rel sub n place data)
    (scan : ProcScan) :
    ownerOf (liveGitOwners scan) (scratchPath root rel sub n) = none ↔ Idle scan (root ++ rel) := by
  rw [ownerOf, repoRoot_scratchPath (looksInto_ne_git h.looks) (ne_git_of_takesName h.name),
    idle_iff]
  exact Option.map_eq_none_iff

/-- The path leads into an idle repository, or into none. -/
def LeadsToIdle (host : GitHost) (scan : ProcScan) (path : Location) : Prop :=
  ∀ q repo, host.resolved path = .ok q → repoRootForGitPath q = some repo → Idle scan repo

/-- The repository is idle as it is, where it is as the path spells it. -/
def SpelledAlike (scan : ProcScan) (root rel place : Location) (n : Name) : Prop :=
  ∀ repo, repoRootForGitPath (place ++ [n]) = some repo → repo ≠ root ++ rel →
    Idle scan (root ++ rel) → Idle scan repo

theorem Scratch.leadsToIdle_iff {host : GitHost} {root base rel place : Location} {maxDepth : Nat}
    {sub n : Name} {data : FileMeta} (h : Scratch host root maxDepth base rel sub n place data)
    {scan : ProcScan} (hidle : Idle scan (root ++ rel)) :
    LeadsToIdle host scan (scratchPath root rel sub n) ↔ SpelledAlike scan root rel place n := by
  constructor
  · intro hleads repo hrepo _ _
    exact hleads _ repo h.resolved hrepo
  · intro halike q repo hq hrepo
    obtain rfl := Except.ok.inj (h.resolved.symm.trans hq)
    by_cases hsame : repo = root ++ rel
    · exact hsame ▸ hidle
    · exact halike repo hrepo hsame hidle

/-! ## The clean command -/

theorem mem_gitTempCandidates {host : GitHost} {roots : List Location} {c : GitTempFile} :
    c ∈ gitTempCandidates host roots ↔ ∃ root ∈ roots, ∃ base rel sub n place data,
      Scratch host root 4 base rel sub n place data ∧
        c = scratchFile host (scratchPath root rel sub n) data := by
  rw [gitTempCandidates, List.mem_flatMap]
  exact exists_congr fun root => and_congr_right fun _ => mem_findGitTempFiles

theorem mem_cleanGitTemp {host : GitHost} {roots : List Location} {scan : ProcScan}
    {minAgeHours : Nat} {unlinks : Location → Bool} {p : Location} :
    p ∈ cleanGitTemp host roots scan minAgeHours unlinks ↔ ∃ c ∈ gitTempCandidates host roots,
      (ownerOf (liveGitOwners scan) c.path = none ∧ c.isExpired minAgeHours = true ∧
        unlinks c.path = true) ∧ c.path = p := by
  simp only [cleanGitTemp, cleanGitTempFiles_cleaned, List.mem_map, List.mem_filter,
    GitTempFile.accepted, Bool.and_eq_true, Option.isNone_iff_eq_none]
  constructor
  · rintro ⟨_, ⟨⟨c, hc, rfl⟩, ⟨howner, hexpired⟩, hunlinks⟩, rfl⟩
    exact ⟨c, hc, ⟨howner, hexpired, hunlinks⟩, rfl⟩
  · rintro ⟨c, hc, ⟨howner, hexpired, hunlinks⟩, rfl⟩
    exact ⟨_, ⟨⟨c, hc, rfl⟩, ⟨howner, hexpired⟩, hunlinks⟩, rfl⟩

/-- **Deletions by path**: a road that deletes the candidates without an owner and with some
property of their own deletes from idle repositories exactly when those are spelled alike. -/
theorem deletesIdle_iff {host : GitHost} {roots : List Location} {scan : ProcScan}
    {deleted : Location → Prop} (Free : GitTempFile → Prop)
    (hdeleted : ∀ p, deleted p ↔ ∃ c ∈ gitTempCandidates host roots,
      (ownerOf (liveGitOwners scan) c.path = none ∧ Free c) ∧ c.path = p) :
    (∀ p, deleted p → LeadsToIdle host scan p) ↔
      ∀ root ∈ roots, ∀ base rel sub n place data,
        Scratch host root 4 base rel sub n place data →
          Free (scratchFile host (scratchPath root rel sub n) data) →
            SpelledAlike scan root rel place n := by
  constructor
  · intro hidles root hroot base rel sub n place data h hfree repo hrepo hne hidle
    have hmem : deleted (scratchPath root rel sub n) :=
      (hdeleted _).mpr ⟨_, mem_gitTempCandidates.mpr ⟨root, hroot, base, rel, sub, n, place,
        data, h, rfl⟩, ⟨(h.ownerOf_eq_none scan).mpr hidle, hfree⟩, rfl⟩
    exact (h.leadsToIdle_iff hidle).mp (hidles _ hmem) repo hrepo hne hidle
  · intro halike p hp
    obtain ⟨c, hc, ⟨howner, hfree⟩, rfl⟩ := (hdeleted p).mp hp
    obtain ⟨root, hroot, base, rel, sub, n, place, data, h, rfl⟩ := mem_gitTempCandidates.mp hc
    have hidle := (h.ownerOf_eq_none scan).mp howner
    exact (h.leadsToIdle_iff hidle).mpr (halike root hroot _ _ _ _ _ _ h hfree)

/-- Whatever the command deletes lay in no busy repository. -/
def CleanedIdle (host : GitHost) (roots : List Location) (scan : ProcScan) (minAgeHours : Nat)
    (unlinks : Location → Bool) : Prop :=
  ∀ p ∈ cleanGitTemp host roots scan minAgeHours unlinks, LeadsToIdle host scan p

/-- The condition on the clean command: every file it can delete, where its path spells the
repository otherwise than the place it leads to does. -/
def CleanAlike (host : GitHost) (roots : List Location) (scan : ProcScan) (minAgeHours : Nat)
    (unlinks : Location → Bool) : Prop :=
  ∀ root ∈ roots, ∀ base rel sub n place data, Scratch host root 4 base rel sub n place data →
    (scratchFile host (scratchPath root rel sub n) data).isExpired minAgeHours = true ∧
        unlinks (scratchPath root rel sub n) = true →
      SpelledAlike scan root rel place n

theorem cleanedIdle_iff (host : GitHost) (roots : List Location) (scan : ProcScan)
    (minAgeHours : Nat) (unlinks : Location → Bool) :
    CleanedIdle host roots scan minAgeHours unlinks ↔
      CleanAlike host roots scan minAgeHours unlinks :=
  deletesIdle_iff (fun c => c.isExpired minAgeHours = true ∧ unlinks c.path = true)
    fun _ => mem_cleanGitTemp

/-! ## The disk sweep -/

/-- The audit marks the candidate for deletion. -/
def Marked (snapshot : ProcSnapshot) (owners : List GitOwner) (minAgeHours : Nat)
    (c : GitTempFile) : Prop :=
  (snapshot.capture c.path).blockingReason c.path = none ∧ ownerOf owners c.path = none ∧
    c.isExpired minAgeHours = true

theorem auditGitFinding_apply_iff {snapshot : ProcSnapshot} {owners : List GitOwner}
    {minAgeHours : Nat} {c : GitTempFile} :
    (auditGitFinding snapshot owners minAgeHours c).disposition = .apply ↔
      Marked snapshot owners minAgeHours c := by
  have hverdict : (auditGitFinding snapshot owners minAgeHours c).disposition =
      (auditGitVerdict snapshot owners minAgeHours c).1 := rfl
  rw [hverdict, auditGitVerdict, Marked]
  cases (snapshot.capture c.path).blockingReason c.path with
  | some reason => simp
  | none =>
    cases ownerOf owners c.path with
    | some owner => simp
    | none => cases c.isExpired minAgeHours <;> simp

/-- The git cleaner's unlink succeeds, on an age read again; or the second loop's does. -/
def OsAnswers.LetsGo (os : OsAnswers) (minAgeHours : Nat) : Prop :=
  (∃ secs, os.secondsOld = some secs ∧ minAgeHours ≤ secs / 3600) ∧ os.gitUnlinks = true ∨
    os.dirAtCheck = false ∧ os.dirAtRemoval = false ∧ os.removal = .done

/-- A path is unlinked in the run. -/
def ApplyRun.Unlinks (run : ApplyRun) (p : Location) : Prop := ∃ l, DiskEvent.unlinked p l ∈ run.events

theorem unlinked_mem_removalEvents {s : Seen} {p : Location} {l : Option Location} :
    .unlinked p l ∈ removalEvents s ↔ (s.os.dirAtRemoval = false ∧ s.os.removal = .done) ∧
      s.finding.path = p ∧ some s.os.place = l := by
  unfold removalEvents
  cases s.os.dirAtRemoval <;> cases s.os.removal <;> simp [eq_comm]

theorem event_eq_unlinked {minAgeHours : Nat} {owner : Location → Option String} {c : GitTempFile}
    {p : Location} {l : Option Location} :
    c.event minAgeHours owner = .unlinked p l ↔
      c.accepted minAgeHours owner = true ∧ c.path = p ∧ c.os.gitPlace = l := by
  unfold GitTempFile.event
  by_cases ha : c.accepted minAgeHours owner = true <;> simp [ha, GitTempFile.refusal]

section Sweep

variable {snapshot : ProcSnapshot} {owners : List GitOwner} {minAgeHours : Nat}
  {answers : Location → OsAnswers} {candidates : List GitTempFile} {c d : GitTempFile}
  {p : Location}

/-- A candidate as the delete pass comes to it. -/
def auditSeen (snapshot : ProcSnapshot) (owners : List GitOwner) (minAgeHours : Nat)
    (answers : Location → OsAnswers) (c : GitTempFile) : Seen :=
  { finding := auditGitFinding snapshot owners minAgeHours c, os := answers c.path }

theorem gitCandidate_auditSeen :
    gitCandidate (auditSeen snapshot owners minAgeHours answers c) = some d ↔
      Marked snapshot owners minAgeHours c ∧
        d = { path := c.path, bytes := c.bytes,
              ageHours := (answers c.path).secondsOld.map (· / 3600), os := answers c.path } := by
  have hclass : (auditSeen snapshot owners minAgeHours answers c).finding.cls = .gitTemp := rfl
  unfold gitCandidate
  simp only [hclass, and_true]
  split
  · next happly =>
    rw [Option.some.injEq]
    exact ⟨fun h => ⟨auditGitFinding_apply_iff.mp happly, h.symm⟩, fun h => h.2.symm⟩
  · next hkeep =>
    refine iff_of_false nofun fun h => hkeep (auditGitFinding_apply_iff.mpr h.1)

/-- The cleaner takes a marked candidate whose age, read again, is old enough. -/
theorem accepted_auditSeen (hmarked : Marked snapshot owners minAgeHours c) :
    GitTempFile.accepted minAgeHours (ownerOf owners)
        { path := c.path, bytes := c.bytes,
          ageHours := (answers c.path).secondsOld.map (· / 3600), os := answers c.path } = true ↔
      (∃ secs, (answers c.path).secondsOld = some secs ∧ minAgeHours ≤ secs / 3600) ∧
        (answers c.path).gitUnlinks = true := by
  unfold GitTempFile.accepted GitTempFile.isExpired
  cases (answers c.path).secondsOld <;> simp [hmarked.2.1]

theorem removes_auditSeen :
    removes snapshot (auditSeen snapshot owners minAgeHours answers c) = true ↔
      Marked snapshot owners minAgeHours c ∧ (answers c.path).dirAtCheck = false := by
  have hchurn : becameChurn (auditSeen snapshot owners minAgeHours answers c) =
      (answers c.path).dirAtCheck := Bool.and_true _
  unfold removes
  rw [hchurn]
  simp only [Bool.and_eq_true, decide_eq_true_eq, Bool.not_eq_true', Option.isNone_iff_eq_none]
  constructor
  · rintro ⟨⟨happly, -⟩, hfile⟩
    exact ⟨auditGitFinding_apply_iff.mp happly, hfile⟩
  · rintro ⟨hmarked, hfile⟩
    exact ⟨⟨auditGitFinding_apply_iff.mpr hmarked, hmarked.1⟩, hfile⟩

/-- **What the run unlinks**: the marked candidates that let go. -/
theorem unlinks_auditSeen {ownerScan snapshotScan : ProcScan}
    (howners : liveGitOwners ownerScan = owners)
    (hsnapshot : ProcSnapshot.read snapshotScan = snapshot) :
    (applyWithFloors (candidates.map (auditSeen snapshot owners minAgeHours answers)) ownerScan
        snapshotScan minAgeHours).Unlinks p ↔
      ∃ c ∈ candidates, (Marked snapshot owners minAgeHours c ∧
        (answers c.path).LetsGo minAgeHours) ∧ c.path = p := by
  unfold ApplyRun.Unlinks
  rw [applyWithFloors_events, howners, hsnapshot]
  constructor
  · rintro ⟨l, hmem⟩
    rcases List.mem_append.mp hmem with hclean | hswept
    · obtain ⟨d, hd, hevent⟩ := List.mem_map.mp hclean
      obtain ⟨haccepted, hpath, -⟩ := event_eq_unlinked.mp hevent
      obtain ⟨s, hs, hd⟩ := List.mem_filterMap.mp hd
      obtain ⟨c, hc, rfl⟩ := List.mem_map.mp hs
      obtain ⟨hmarked, rfl⟩ := gitCandidate_auditSeen.mp hd
      exact ⟨c, hc, ⟨hmarked, Or.inl ((accepted_auditSeen hmarked).mp haccepted)⟩, hpath⟩
    · obtain ⟨s, hs, hevent⟩ := List.mem_flatMap.mp hswept
      obtain ⟨hs, hremoves⟩ := List.mem_filter.mp hs
      obtain ⟨c, hc, rfl⟩ := List.mem_map.mp (List.mem_filter.mp hs).1
      obtain ⟨hmarked, hfile⟩ := removes_auditSeen.mp hremoves
      obtain ⟨⟨hdir, hdone⟩, hpath, -⟩ := unlinked_mem_removalEvents.mp hevent
      exact ⟨c, hc, ⟨hmarked, Or.inr ⟨hfile, hdir, hdone⟩⟩, hpath⟩
  · rintro ⟨c, hc, ⟨hmarked, hgo⟩, rfl⟩
    have hseen : auditSeen snapshot owners minAgeHours answers c ∈
        candidates.map (auditSeen snapshot owners minAgeHours answers) := List.mem_map_of_mem hc
    by_cases hany : ∃ d ∈ (candidates.map (auditSeen snapshot owners minAgeHours answers)).filterMap
        gitCandidate, d.accepted minAgeHours (ownerOf owners) = true ∧ d.path = c.path
    · -- the cleaner takes the file, for this finding or for another with its path
      obtain ⟨d, hd, haccepted, hpath⟩ := hany
      refine ⟨d.os.gitPlace, List.mem_append_left _ (List.mem_map.mpr ⟨d, hd, ?_⟩)⟩
      exact event_eq_unlinked.mpr ⟨haccepted, hpath, rfl⟩
    · have hnone : ¬ ((∃ secs, (answers c.path).secondsOld = some secs ∧
          minAgeHours ≤ secs / 3600) ∧ (answers c.path).gitUnlinks = true) := fun htaken =>
        hany ⟨_, List.mem_filterMap.mpr ⟨_, hseen, gitCandidate_auditSeen.mpr ⟨hmarked, rfl⟩⟩,
          (accepted_auditSeen hmarked).mpr htaken, rfl⟩
      obtain ⟨hfile, hdir, hdone⟩ := hgo.resolve_left hnone
      refine ⟨some (answers c.path).place, List.mem_append_right _ (List.mem_flatMap.mpr
        ⟨auditSeen snapshot owners minAgeHours answers c, ?_, ?_⟩)⟩
      · refine List.mem_filter.mpr ⟨List.mem_filter.mpr ⟨hseen, ?_⟩, ?_⟩
        · refine List.all_eq_true.mpr fun d hd => decide_eq_true fun heq => hany ?_
          obtain ⟨hd, haccepted⟩ := List.mem_filter.mp hd
          exact ⟨d, hd, haccepted, heq.symm⟩
        · exact removes_auditSeen.mpr ⟨hmarked, hfile⟩
      · exact unlinked_mem_removalEvents.mpr ⟨⟨hdir, hdone⟩, rfl, rfl⟩

end Sweep

theorem sweepGitTemp_unlinks {host : GitHost} {roots : List Location} {scan : ProcScan}
    {minAgeHours : Nat} {answers : Location → OsAnswers} {p : Location} :
    (sweepGitTemp host roots scan minAgeHours answers).Unlinks p ↔
      ∃ c ∈ gitTempCandidates host roots,
        (Marked (ProcSnapshot.read scan) (liveGitOwners scan) minAgeHours c ∧
          (answers c.path).LetsGo minAgeHours) ∧ c.path = p := by
  unfold sweepGitTemp auditGit
  rw [List.map_map]
  exact unlinks_auditSeen rfl rfl

/-- Whatever the sweep unlinks lay in no busy repository. -/
def SweptIdle (host : GitHost) (roots : List Location) (scan : ProcScan) (minAgeHours : Nat)
    (answers : Location → OsAnswers) : Prop :=
  ∀ p, (sweepGitTemp host roots scan minAgeHours answers).Unlinks p → LeadsToIdle host scan p

/-- The condition on the sweep. -/
def SweepAlike (host : GitHost) (roots : List Location) (scan : ProcScan) (minAgeHours : Nat)
    (answers : Location → OsAnswers) : Prop :=
  ∀ root ∈ roots, ∀ base rel sub n place data, Scratch host root 4 base rel sub n place data →
    (scratchFile host (scratchPath root rel sub n) data).isExpired minAgeHours = true ∧
        ((ProcSnapshot.read scan).capture (scratchPath root rel sub n)).blockingReason
          (scratchPath root rel sub n) = none ∧
        (answers (scratchPath root rel sub n)).LetsGo minAgeHours →
      SpelledAlike scan root rel place n

theorem sweptIdle_iff (host : GitHost) (roots : List Location) (scan : ProcScan)
    (minAgeHours : Nat) (answers : Location → OsAnswers) :
    SweptIdle host roots scan minAgeHours answers ↔
      SweepAlike host roots scan minAgeHours answers := by
  refine deletesIdle_iff (fun c => c.isExpired minAgeHours = true ∧
    ((ProcSnapshot.read scan).capture c.path).blockingReason c.path = none ∧
      (answers c.path).LetsGo minAgeHours) fun p => sweepGitTemp_unlinks.trans ?_
  refine exists_congr fun c => and_congr_right fun _ => and_congr_left fun _ => ?_
  -- the owner is asked between the references and the age
  constructor
  · rintro ⟨⟨hfree, howner, hexpired⟩, hgo⟩
    exact ⟨howner, hexpired, hfree, hgo⟩
  · rintro ⟨howner, hexpired, hfree, hgo⟩
    exact ⟨⟨hfree, howner, hexpired⟩, hgo⟩

/-! ## The law -/

/-- A root that is configured by the place it leads to spells every repository that stores its own
objects as it is. -/
theorem Scratch.spelledAlike {host : GitHost} {root rel place : Location} {maxDepth : Nat}
    {sub n : Name} {data : FileMeta} (h : Scratch host root maxDepth root rel sub n place data)
    (hown : OwnStorage host.fs (root ++ rel) sub) (scan : ProcScan) :
    SpelledAlike scan root rel place n := by
  intro repo hrepo hne _
  have hpath : place ++ [n] = scratchPath root rel sub n := by
    rw [h.place_of_ownStorage hown, scratchPath_eq]
  rw [hpath, repoRoot_scratchPath (looksInto_ne_git h.looks) (ne_git_of_takesName h.name)]
    at hrepo
  exact absurd (Option.some.inj hrepo).symm hne

section Linked

private theorem data_valid : "data".toList ≠ [] ∧ '/' ∉ "data".toList := by decide
private theorem repo_valid : "repo".toList ≠ [] ∧ '/' ∉ "repo".toList := by decide
private theorem scratch_valid : "tmp_pack_x".toList ≠ [] ∧ '/' ∉ "tmp_pack_x".toList := by decide

private def diskDataName : Name := ⟨"data", data_valid⟩
private def devName : Name := ⟨"dev", by decide⟩
private def lentName : Name := ⟨"lent", by decide⟩
private def repoName : Name := ⟨"repo", repo_valid⟩
private def scratchName : Name := ⟨"tmp_pack_x", scratch_valid⟩

private def storePath : Location := [diskDataName, repoName, gitDirName, objectsName]

private theorem oldTime_inRange :
    -(2 ^ 63 * 10 ^ 9) ≤ (0 : Int) ∧ (0 : Int) < 2 ^ 63 * 10 ^ 9 := by decide

private theorem sweepTime_inRange :
    -(2 ^ 63 * 10 ^ 9) ≤ (10 ^ 18 : Int) ∧ (10 ^ 18 : Int) < 2 ^ 63 * 10 ^ 9 := by decide

private def oldScratch : FileMeta := { len := 10, modified := some ⟨0, oldTime_inRange⟩ }

/-- `/data/repo` with a scratch file; `/dev`, a link to `/data`; `/lent`, a repository that
borrows the object store. -/
private def linkedFs : Fs FileMeta :=
  ((((((((((∅ : Fs FileMeta).insert [diskDataName] .dir).insert [diskDataName, repoName] .dir).insert
    [diskDataName, repoName, gitDirName] .dir).insert storePath .dir).insert
    (storePath ++ [packName]) .dir).insert (storePath ++ [packName, scratchName])
    (.file oldScratch)).insert [devName] (.symlink ⟨true, [diskDataName]⟩)).insert
    [lentName] .dir).insert [lentName, gitDirName] .dir).insert
    [lentName, gitDirName, objectsName] (.symlink ⟨true, storePath⟩)

private theorem linkedFs_closed : FileTree.Closed linkedFs := FileTree.closed_of_keys (by decide)

private theorem linkedFs_plain :
    ∀ q, (linkedFs.lookup q).isSome → ∀ n ∈ q, n.isPlain = true :=
  FileTree.plain_of_keys (by decide)

private def linkedHost : GitHost where
  fs := linkedFs
  closed := linkedFs_closed
  cwd := []
  cwd_dir := rfl
  plain := linkedFs_plain
  now := ⟨10 ^ 18, sweepTime_inRange⟩

/-- `git gc` works in `/data/repo`. -/
private def packingScan : ProcScan :=
  some [{ pid := 40, comm := some "git", cwd := some [diskDataName, repoName],
          cmdline := some ["git", "gc"], fds := some [] }]

private def devPath : Location := scratchPath [devName] [repoName] packName scratchName

private def lentPath : Location := scratchPath [lentName] [] packName scratchName

private def linkedAnswers : Location → OsAnswers := fun _ =>
  { secondsOld := some 360000, gitUnlinks := true }

/-- The working directory of the live git lies in the repository the path leads to. -/
private theorem devPath_busy : ¬ LeadsToIdle linkedHost packingScan devPath := by
  intro h
  have hidle := h (storePath ++ [packName, scratchName]) [diskDataName, repoName] rfl (by decide)
  exact hidle { pid := 40, name := "git", cwd := some [diskDataName, repoName], writesPacks := true }
    (by decide) rfl [diskDataName, repoName] rfl (List.prefix_refl _)

end Linked

end DraconGuard
