import DraconGuard.Clean.ColdScan

/-!
# When a cold candidate is cold

A directory is judged by the files that the walk comes to, and git is asked about it twice: in the
directory itself and in its parent. `Qualifies` is what that settles. The rest is `KeptInSight`: no
fresh file below the eighth level, below a pruned name or behind what cannot be read, and no index
but the one the parent's repository answers from.
-/

namespace DraconGuard

open FileTree

/-! ## What is counted -/

section Counting

variable {δ : Type} {host : ColdHost δ} {root p f : Location}

theorem coldFiles_eq (host : ColdHost δ) (root : Location) : coldFiles host root =
    (walk host.fs root).filterMap fun i =>
      if host.scan.yields (some scanMaxDepth) root i.1 then seenAt host root (.entry i.1 i.2)
      else none :=
  filterMap_walkDir host.fs host.scan (some scanMaxDepth) root fun _ => rfl

theorem seenAt_eq_some {i : Location × Entry δ} (h : seenAt host root (.entry i.1 i.2) = some f) :
    f = root ++ i.1 ∧ ∃ data, i.2 = .file data := by
  obtain ⟨rel, e⟩ := i
  unfold seenAt at h
  cases e with
  | file data =>
    dsimp only at h
    split at h
    · cases h
    · split at h
      · cases h
      · exact ⟨(Option.some.inj h).symm, data, rfl⟩
  | _ => cases h

/-- What is counted is a regular file below the root. -/
theorem mem_coldFiles (h : f ∈ coldFiles host root) :
    root <+: f ∧ ∃ data, host.fs.lookup f = some (.file data) := by
  rw [coldFiles_eq, List.mem_filterMap] at h
  obtain ⟨i, hi, hseen⟩ := h
  split at hseen
  · obtain ⟨rfl, data, hdata⟩ := seenAt_eq_some hseen
    refine ⟨List.prefix_append root i.1, data, ?_⟩
    rw [mem_walk.mp hi, hdata]
  · cases hseen

theorem nodup_coldFiles (host : ColdHost δ) (root : Location) : (coldFiles host root).Nodup := by
  have hkeys : (walk host.fs root).Pairwise fun i j => i.1 ≠ j.1 := by
    refine (nodup_walk host.fs root).imp_of_mem fun {i j} hi hj hne heq => hne (Prod.ext heq ?_)
    have hlook := mem_walk.mp hj
    rw [← heq, mem_walk.mp hi] at hlook
    exact Option.some.inj hlook
  have hplace : ∀ {k : Location × Entry δ} {f}, f ∈ (if host.scan.yields (some scanMaxDepth) root
      k.1 then seenAt host root (.entry k.1 k.2) else none) → f = root ++ k.1 := by
    intro k f hk
    split at hk
    · exact (seenAt_eq_some hk).1
    · cases hk
  rw [coldFiles_eq]
  refine List.Pairwise.filterMap _ (fun i j hne f hf f' hf' heq => hne ?_) hkeys
  rw [hplace hf, hplace hf'] at heq
  exact List.append_cancel_left heq

theorem ancestorsTo_concat (root f : Location) (n : Name) : ancestorsTo root (f ++ [n]) =
    if root.isPrefixOf (f ++ [n]) then (f ++ [n]) :: ancestorsTo root f else [] := by
  unfold ancestorsTo
  rw [List.inits_append]
  simp [List.takeWhile_cons]

/-- The slots a file is counted in. -/
theorem mem_ancestorsTo : p ∈ ancestorsTo root f ↔ root <+: p ∧ p <+: f := by
  induction f using List.reverseRecOn with
  | nil =>
    have hnil : ancestorsTo root [] = if root.isPrefixOf [] then [[]] else [] := by
      unfold ancestorsTo
      simp [List.takeWhile_cons]
    rw [hnil]
    split
    · next hroot =>
      rw [List.mem_singleton, List.prefix_nil]
      constructor
      · rintro rfl
        exact ⟨List.isPrefixOf_iff_prefix.mp hroot, rfl⟩
      · exact fun h => h.2
    · next hroot =>
      refine iff_of_false List.not_mem_nil ?_
      rintro ⟨hpre, hp⟩
      exact hroot (List.isPrefixOf_iff_prefix.mpr (hpre.trans hp))
  | append_singleton f n ih =>
    rw [ancestorsTo_concat]
    split
    · next hroot =>
      rw [List.mem_cons, ih, List.prefix_concat_iff, and_or_left]
      refine or_congr ?_ Iff.rfl
      constructor
      · rintro rfl
        exact ⟨List.isPrefixOf_iff_prefix.mp hroot, rfl⟩
      · exact fun h => h.2
    · next hroot =>
      refine iff_of_false List.not_mem_nil ?_
      rintro ⟨hpre, hp⟩
      exact hroot (List.isPrefixOf_iff_prefix.mpr (hpre.trans hp))

theorem nodup_ancestorsTo (root f : Location) : (ancestorsTo root f).Nodup := by
  induction f using List.reverseRecOn with
  | nil => exact (List.nodup_singleton _).sublist (List.takeWhile_sublist _)
  | append_singleton f n ih =>
    rw [ancestorsTo_concat]
    split
    · refine List.nodup_cons.mpr ⟨fun hin => ?_, ih⟩
      have hlen := (mem_ancestorsTo.mp hin).2.length_le
      rw [List.length_append, List.length_singleton] at hlen
      omega
    · exact List.nodup_nil

/-- One file more. -/
theorem lookup_accumulate (sizes : FinMap Location SizeSlot) :
    (accumulate host root sizes f).lookup p =
      if root <+: p ∧ p <+: f then some (((sizes.lookup p).getD {}).adding host f)
      else sizes.lookup p := by
  have hfold : ∀ (places : List Location) (sizes : FinMap Location SizeSlot), places.Nodup →
      (places.foldl (fun sizes p => sizes.insert p (((sizes.lookup p).getD {}).adding host f))
        sizes).lookup p = if p ∈ places then some (((sizes.lookup p).getD {}).adding host f)
          else sizes.lookup p := by
    intro places
    induction places with
    | nil => exact fun sizes _ => rfl
    | cons q places ih =>
      intro sizes hnodup
      obtain ⟨hq, hplaces⟩ := List.nodup_cons.mp hnodup
      rw [List.foldl_cons, ih _ hplaces, FinMap.lookup_insert_eq]
      by_cases hpq : p = q
      · subst hpq
        rw [if_neg hq, if_pos rfl, if_pos List.mem_cons_self]
      · rw [if_neg hpq]
        simp [hpq]
  unfold accumulate
  rw [hfold _ _ (nodup_ancestorsTo root f)]
  simp only [mem_ancestorsTo]

/-- What a list of files comes to, none where there are none. -/
def slotOf (host : ColdHost δ) (files : List Location) : Option SizeSlot :=
  files.foldl (fun slot f => some ((slot.getD {}).adding host f)) none

/-- **A slot holds the files below its place.** -/
theorem lookup_dirSizes : (dirSizes host root).lookup p =
    if root <+: p then slotOf host ((coldFiles host root).filter (p.isPrefixOf ·)) else none := by
  unfold dirSizes
  generalize coldFiles host root = files
  induction files using List.reverseRecOn with
  | nil => simp [slotOf]
  | append_singleton files f ih =>
    rw [List.foldl_append, List.foldl_cons, List.foldl_nil, lookup_accumulate, ih]
    by_cases hroot : root <+: p
    · rw [if_pos hroot, if_pos hroot, List.filter_append]
      by_cases hf : p <+: f
      · have hf' : p.isPrefixOf f = true := List.isPrefixOf_iff_prefix.mpr hf
        rw [if_pos ⟨hroot, hf⟩, List.filter_cons_of_pos (by simpa using hf')]
        unfold slotOf
        rw [List.filter_nil, List.foldl_append, List.foldl_cons, List.foldl_nil]
      · have hf' : ¬ p.isPrefixOf f = true := fun h => hf (List.isPrefixOf_iff_prefix.mp h)
        rw [if_neg fun h => hf h.2, List.filter_cons_of_neg (by simpa using hf'), List.filter_nil,
          List.append_nil]
    · rw [if_neg hroot, if_neg hroot, if_neg fun h => hroot h.1]

/-- What a slot tells of its files. -/
theorem slotOf_bounds (files : List Location) :
    (∀ f ∈ files, host.mtimeSecs f ≤ ((slotOf host files).getD {}).newest) ∧
      ((slotOf host files).getD {}).bytes ≤ (files.map host.len).sum := by
  induction files using List.reverseRecOn with
  | nil => exact ⟨fun f hf => absurd hf List.not_mem_nil, Nat.le_refl 0⟩
  | append_singleton files f ih =>
    obtain ⟨hnewest, hbytes⟩ := ih
    have hstep : slotOf host (files ++ [f]) = some (((slotOf host files).getD {}).adding host f) := by
      unfold slotOf
      rw [List.foldl_append, List.foldl_cons, List.foldl_nil]
    rw [hstep, Option.getD_some]
    unfold SizeSlot.adding
    constructor
    · intro g hg
      rcases List.mem_append.mp hg with hg | hg
      · exact (hnewest g hg).trans (Nat.le_max_left _ _)
      · obtain rfl := List.mem_singleton.mp hg
        exact Nat.le_max_right _ _
    · refine (Nat.mod_le _ _).trans ?_
      rw [List.map_append, List.sum_append, List.map_singleton, List.sum_singleton]
      exact Nat.add_le_add_right hbytes _

/-- The regular files at and below a place. -/
def ColdHost.filesBelow (host : ColdHost δ) (q : Location) : List Location :=
  (walk host.fs q).filterMap fun i => match i.2 with
    | .file _ => some (q ++ i.1)
    | _ => none

/-- The bytes that move with a place. -/
def ColdHost.totalBytes (host : ColdHost δ) (q : Location) : Nat :=
  ((host.filesBelow q).map host.len).sum

theorem mem_filesBelow {q : Location} :
    f ∈ host.filesBelow q ↔ q <+: f ∧ ∃ data, host.fs.lookup f = some (.file data) := by
  unfold ColdHost.filesBelow
  rw [List.mem_filterMap]
  constructor
  · rintro ⟨⟨rel, e⟩, hi, hf⟩
    cases e with
    | file data =>
      obtain rfl := Option.some.inj hf
      exact ⟨List.prefix_append q rel, data, mem_walk.mp hi⟩
    | _ => cases hf
  · rintro ⟨⟨rel, rfl⟩, data, hdata⟩
    exact ⟨(rel, .file data), mem_walk.mpr hdata, rfl⟩

/-- What is counted is part of what is there. -/
theorem counted_le_total : (((coldFiles host root).filter (p.isPrefixOf ·)).map host.len).sum ≤
    host.totalBytes p := by
  have hsubset : (coldFiles host root).filter (p.isPrefixOf ·) ⊆ host.filesBelow p := by
    intro f hf
    obtain ⟨hf, hp⟩ := List.mem_filter.mp hf
    exact mem_filesBelow.mpr ⟨List.isPrefixOf_iff_prefix.mp hp, (mem_coldFiles hf).2⟩
  obtain ⟨part, hperm, hsub⟩ := ((nodup_coldFiles host root).filter _).subperm hsubset
  obtain ⟨rest, hrest⟩ := hsub.exists_perm_append
  unfold ColdHost.totalBytes
  rw [← (hperm.map host.len).sum_nat, (hrest.map host.len).sum_nat, List.map_append,
    List.sum_append_nat]
  exact Nat.le_add_right _ _

end Counting

/-! ## What a candidate has shown -/

section Candidates

variable {δ : Type} {host : ColdHost δ} {minBytes minAgeDays : Nat} {root p : Location}
  {c : ColdItem}

/-- What the scan settles about a directory. -/
structure Qualifies (host : ColdHost δ) (minBytes minAgeDays : Nat) (c : ColdItem) : Prop where
  counted : ∃ f ∈ coldFiles host c.root, c.path <+: f
  under : c.root <+: c.path
  below : c.path ≠ c.root
  aged : ∀ f ∈ coldFiles host c.root, c.path <+: f →
    minAgeDays ≤ ageDays host.now (host.mtimeSecs f)
  big : minBytes ≤ host.totalBytes c.path
  untracked : isGitTracked host.toDisk host.git c.path = .ok false

theorem coldItem_eq_some (h : coldItem host minBytes minAgeDays root p = some c) :
    Qualifies host minBytes minAgeDays c := by
  unfold coldItem at h
  cases hslot : (dirSizes host root).lookup p with
  | none => simp [hslot] at h
  | some slot =>
    rw [hslot] at h
    dsimp only at h
    split at h
    · cases h
    next hbig =>
    split at h
    · cases h
    next hage =>
    split at h
    · next huntracked =>
      obtain rfl := Option.some.inj h
      rw [lookup_dirSizes] at hslot
      split at hslot
      · next hunder =>
        obtain ⟨hnewest, hbytes⟩ := @slotOf_bounds _ host
          ((coldFiles host root).filter (p.isPrefixOf ·))
        rw [hslot, Option.getD_some] at hnewest hbytes
        have hin : ∀ f ∈ coldFiles host root, p <+: f →
            f ∈ (coldFiles host root).filter (p.isPrefixOf ·) := fun f hf hp =>
          List.mem_filter.mpr ⟨hf, List.isPrefixOf_iff_prefix.mpr hp⟩
        constructor
        case counted =>
          cases hfiles : (coldFiles host root).filter (p.isPrefixOf ·) with
          | nil =>
            rw [hfiles] at hslot
            cases hslot
          | cons f rest =>
            have hf : f ∈ (coldFiles host root).filter (p.isPrefixOf ·) := by
              rw [hfiles]
              exact List.mem_cons_self
            obtain ⟨hf, hp⟩ := List.mem_filter.mp hf
            exact ⟨f, hf, List.isPrefixOf_iff_prefix.mp hp⟩
        case under => exact hunder
        case below => exact fun heq => hbig (by simp [show p = root from heq])
        case aged =>
          intro f hf hp
          have hle := hnewest f (hin f hf hp)
          have hdays : ageDays host.now slot.newest ≤ ageDays host.now (host.mtimeSecs f) :=
            Nat.div_le_div_right (Nat.sub_le_sub_left hle _)
          omega
        case big =>
          have hmin : minBytes ≤ slot.bytes := by
            by_contra hno
            exact hbig (by simp [Nat.lt_of_not_le hno])
          exact hmin.trans (hbytes.trans counted_le_total)
        case untracked => exact huntracked
      · cases hslot
    · cases h

theorem mem_qualified {roots : List String} (h : c ∈ qualified host roots minBytes minAgeDays) :
    Qualifies host minBytes minAgeDays c := by
  unfold qualified at h
  obtain ⟨r, -, h⟩ := List.mem_flatMap.mp h
  unfold qualifiedOf at h
  split at h
  · cases h
  · split at h
    · cases h
    · obtain ⟨p, -, h⟩ := List.mem_filterMap.mp h
      exact coldItem_eq_some h

theorem Qualifies.path_ne (h : Qualifies host minBytes minAgeDays c) : c.path ≠ [] := by
  intro hnil
  have hroot := h.under
  rw [hnil, List.prefix_nil] at hroot
  exact h.below (by rw [hnil, hroot])

/-- A directory that qualifies, or a file that does, is where its path says. -/
theorem Qualifies.exists_entry (h : Qualifies host minBytes minAgeDays c) :
    ∃ e, host.fs.lookup c.path = some e ∧ ∀ target, e ≠ .symlink target := by
  obtain ⟨f, hf, k, rfl⟩ := h.counted
  obtain ⟨-, data, hdata⟩ := mem_coldFiles hf
  by_cases hk : k = []
  · rw [hk, List.append_nil] at hdata
    exact ⟨_, hdata, fun _ hno => by cases hno⟩
  · have hdir := host.closed.dir_above hk (by rw [hdata]; rfl)
    rw [entryAt, if_neg h.path_ne] at hdir
    exact ⟨_, hdir, fun _ hno => by cases hno⟩

/-- Is every name a text? -/
def ColdItem.isText (c : ColdItem) : Bool := c.path.all Name.isUtf8

theorem Qualifies.canonicalize (h : Qualifies host minBytes minAgeDays c)
    (htext : c.isText = true) : host.canonicalize (display c.path) = .ok c.path := by
  obtain ⟨e, he, hlink⟩ := h.exists_entry
  unfold display
  rw [displayed_eq_self fun n hn => List.all_eq_true.mp htext n hn]
  rw [← List.dropLast_append_getLast h.path_ne] at he ⊢
  exact host.toMount.canonicalize_render he hlink

end Candidates

/-! ## When a candidate is cold and untracked -/

/-- A repository: the files git tracks in it. -/
structure GitRepo where
  index : List Location
deriving DecidableEq

/-- A name that a pathspec spells: a colon in front is magic, and a line of blanks is no answer. -/
def Spellable (n : Name) : Bool :=
  n.isUtf8 && n.text.toList.head? ≠ some ':' && n.text.toList.any fun c => !isBlank c

/-- The repositories there are, and the one git takes for a directory. -/
structure GitWorld (git : GitAnswers) where
  repos : List GitRepo
  discovered : Location → Option GitRepo
  undiscovered : ∀ dir, git.showToplevel dir = .failed → discovered dir = none
  /-- `ls-files` names what is tracked below the name. -/
  lists : ∀ dir n repo stdout, discovered dir = some repo → Spellable n = true →
    git.lsFiles dir n.text = .printed stdout → stdout.toList.all isBlank = true →
      ∀ f ∈ repo.index, ¬ dir ++ [n] <+: f

section Law

variable {δ : Type} (host : ColdHost δ) (world : GitWorld host.git) (minBytes minAgeDays : Nat)

/-- Newer than the minimum age. -/
def IsFresh (f : Location) : Prop := ageDays host.now (host.mtimeSecs f) < minAgeDays

instance (f : Location) : Decidable (IsFresh host minAgeDays f) := Nat.decLt _ _

/-- A place that may move: nothing fresh at any depth, nothing tracked, big enough. -/
structure ColdPlace (q : Location) : Prop where
  aged : ∀ f ∈ host.filesBelow q, ¬ IsFresh host minAgeDays f
  untracked : ∀ repo ∈ world.repos, ∀ f ∈ repo.index, ¬ q <+: f
  big : minBytes ≤ host.totalBytes q

/-- One path is at or above the other. -/
def PathAbove (a b : String) : Prop :=
  ∃ p q, Spelled.parse a = some p ∧ Spelled.parse b = some q ∧ p.parts <+: q.parts

/-- What is asked of the candidates. -/
structure ColdCandidates (candidates : List ColdCandidate) : Prop where
  cold : ∀ c ∈ candidates, ∃ q, host.canonicalize c.path = .ok q ∧
    ColdPlace host world minBytes minAgeDays q
  apart : candidates.Pairwise fun a b => ¬ PathAbove a.path b.path ∧ ¬ PathAbove b.path a.path

/-- Nothing of the place escapes the scan: a fresh file in it is counted, and what is tracked in it
is tracked by the repository that is asked. A place whose name is no text is judged by what its
displayed name leads to. -/
def KeptInSight (c : ColdItem) : Prop :=
  if c.isText then
    (∀ f ∈ host.filesBelow c.path, IsFresh host minAgeDays f → f ∈ coldFiles host c.root) ∧
      ∀ repo ∈ world.repos, ∀ f ∈ repo.index, c.path <+: f →
        world.discovered c.path.dropLast = some repo ∧ ∀ n ∈ c.path.getLast?, Spellable n = true
  else ∃ q, host.canonicalize (display c.path) = .ok q ∧
    ColdPlace host world minBytes minAgeDays q

variable {host world minBytes minAgeDays}

/-- What git is asked about is what the parent's repository tracks. -/
theorem Qualifies.unlisted {c : ColdItem} (h : Qualifies host minBytes minAgeDays c)
    {repo : GitRepo} (hrepo : world.discovered c.path.dropLast = some repo)
    (hname : ∀ n ∈ c.path.getLast?, Spellable n = true) : ∀ f ∈ repo.index, ¬ c.path <+: f := by
  have huntracked := h.untracked
  obtain ⟨n, hn⟩ : ∃ n, c.path.getLast? = some n :=
    ⟨_, List.getLast?_eq_some_getLast h.path_ne⟩
  have hspell := hname n hn
  have hutf8 : n.isUtf8 = true := by
    simp only [Spellable, Bool.and_eq_true] at hspell
    exact hspell.1.1
  have hpath : c.path.dropLast ++ [n] = c.path := List.dropLast_append_getLast? n hn
  unfold isGitTracked at huntracked
  split at huntracked
  · cases huntracked
  unfold isTrackedByParent at huntracked
  dsimp only at huntracked
  rw [hn, Option.map_some, Option.getD_some, Name.lossy_eq_self hutf8] at huntracked
  split at huntracked
  · cases huntracked
  · next hfailed =>
    rw [world.undiscovered _ hfailed] at hrepo
    cases hrepo
  · split at huntracked
    · cases huntracked
    · cases huntracked
    · next stdout hlisted =>
      have hblank : stdout.toList.all isBlank = true := by
        simpa using Except.ok.inj huntracked
      intro f hf
      rw [← hpath]
      exact world.lists _ n repo stdout hrepo hspell hlisted hblank f hf

/-- **A candidate with a text for a path is cold** exactly if nothing of it escapes the scan. -/
theorem Qualifies.coldPlace_iff {c : ColdItem} (h : Qualifies host minBytes minAgeDays c)
    (htext : c.isText = true) : ColdPlace host world minBytes minAgeDays c.path ↔
      KeptInSight host world minBytes minAgeDays c := by
  unfold KeptInSight
  rw [if_pos htext]
  constructor
  · intro hcold
    exact ⟨fun f hf hfresh => absurd hfresh (hcold.aged f hf), fun repo hrepo f hf hp =>
      absurd hp (hcold.untracked repo hrepo f hf)⟩
  · rintro ⟨hseen, hasked⟩
    constructor
    case aged =>
      intro f hf hfresh
      have hage := h.aged f (hseen f hf hfresh) (mem_filesBelow.mp hf).1
      exact absurd hfresh (Nat.not_lt.mpr hage)
    case untracked =>
      intro repo hrepo f hf hp
      obtain ⟨hdiscovered, hname⟩ := hasked repo hrepo f hf hp
      exact h.unlisted hdiscovered hname f hf hp
    case big => exact h.big

theorem Qualifies.cold_iff {c : ColdItem} (h : Qualifies host minBytes minAgeDays c) :
    (∃ q, host.canonicalize c.candidate.path = .ok q ∧
      ColdPlace host world minBytes minAgeDays q) ↔ KeptInSight host world minBytes minAgeDays c := by
  by_cases htext : c.isText = true
  · have hplace := h.canonicalize htext
    rw [← h.coldPlace_iff htext]
    constructor
    · rintro ⟨q, hq, hcold⟩
      obtain rfl := Except.ok.inj (hplace.symm.trans hq)
      exact hcold
    · exact fun hcold => ⟨c.path, hplace, hcold⟩
  · unfold KeptInSight
    rw [if_neg htext]
    rfl

theorem pathAbove_iff {a b : ColdItem} (ha : a.path ≠ []) (hb : b.path ≠ []) :
    PathAbove a.candidate.path b.candidate.path ↔ displayed a.path <+: displayed b.path := by
  have hparse : ∀ {c : ColdItem}, c.path ≠ [] → Spelled.parse c.candidate.path =
      some { absolute := true, parts := displayed c.path } := fun hc =>
    parse_render (by simpa [displayed] using hc)
  unfold PathAbove
  rw [hparse ha, hparse hb]
  simp

end Law

section Every

variable {δ : Type} (host : ColdHost δ) (world : GitWorld host.git) (roots : List String)
  (minBytes minAgeDays : Nat)

/-- On the list of candidates: in no other one that qualifies, and among the largest. -/
def IsCandidate (x : ColdItem × Nat) : Prop :=
  Nesting.Listed ColdItem.path ColdItem.bytes scanMaxCandidates
    (qualified host roots minBytes minAgeDays) x

variable {host roots minBytes minAgeDays}

theorem IsCandidate.qualifies {x : ColdItem × Nat}
    (h : IsCandidate host roots minBytes minAgeDays x) : Qualifies host minBytes minAgeDays x.1 :=
  mem_qualified (List.fst_mem_of_mem_zipIdx h.1)

theorem IsCandidate.displayed_apart {x y : ColdItem × Nat}
    (hx : IsCandidate host roots minBytes minAgeDays x)
    (hy : IsCandidate host roots minBytes minAgeDays y) (hne : x ≠ y)
    (htext : x.1.isText = true ∧ y.1.isText = true) :
    ¬ displayed x.1.path <+: displayed y.1.path := by
  rw [displayed_eq_self fun n hn => List.all_eq_true.mp htext.1 n hn,
    displayed_eq_self fun n hn => List.all_eq_true.mp htext.2 n hn]
  exact Nesting.Listed.apart hx hy hne

variable (host roots minBytes minAgeDays)

/-- **When the cold candidates are cold and untracked**: nothing of a candidate escapes the scan,
and names that are no text do not put one candidate at or above another. -/
theorem cold_candidates_iff :
    ColdCandidates host world minBytes minAgeDays
        (findColdCandidates host roots minBytes minAgeDays) ↔
      (∀ x, IsCandidate host roots minBytes minAgeDays x →
        KeptInSight host world minBytes minAgeDays x.1) ∧
      ∀ x y, IsCandidate host roots minBytes minAgeDays x →
        IsCandidate host roots minBytes minAgeDays y → x ≠ y →
          ¬ (x.1.isText = true ∧ y.1.isText = true) →
            ¬ displayed x.1.path <+: displayed y.1.path := by
  have hcold : (∀ c ∈ findColdCandidates host roots minBytes minAgeDays,
      ∃ q, host.canonicalize c.path = .ok q ∧ ColdPlace host world minBytes minAgeDays q) ↔
        ∀ x, IsCandidate host roots minBytes minAgeDays x →
          KeptInSight host world minBytes minAgeDays x.1 := by
    rw [findColdCandidates_eq, List.forall_mem_map]
    constructor
    · intro hall x hx
      exact hx.qualifies.cold_iff.mp (hall x.1 (Nesting.mem_shortlist.mpr ⟨x.2, hx⟩))
    · intro hall c hc
      obtain ⟨n, hx⟩ := Nesting.mem_shortlist.mp hc
      have hx : IsCandidate host roots minBytes minAgeDays (c, n) := hx
      exact hx.qualifies.cold_iff.mpr (hall _ hx)
  have hapart : (findColdCandidates host roots minBytes minAgeDays).Pairwise (fun a b =>
      ¬ PathAbove a.path b.path ∧ ¬ PathAbove b.path a.path) ↔
        ∀ x y, IsCandidate host roots minBytes minAgeDays x →
          IsCandidate host roots minBytes minAgeDays y → x ≠ y →
            ¬ (x.1.isText = true ∧ y.1.isText = true) →
              ¬ displayed x.1.path <+: displayed y.1.path := by
    rw [findColdCandidates_eq, List.pairwise_map,
      Nesting.pairwise_shortlist fun a b h => ⟨h.2, h.1⟩]
    have habove : ∀ {x y : ColdItem × Nat}, IsCandidate host roots minBytes minAgeDays x →
        IsCandidate host roots minBytes minAgeDays y →
          (PathAbove x.1.candidate.path y.1.candidate.path ↔
            displayed x.1.path <+: displayed y.1.path) := fun hx hy =>
      pathAbove_iff hx.qualifies.path_ne hy.qualifies.path_ne
    constructor
    · intro hall x y hx hy hne _
      exact fun hp => (hall x y hx hy hne).1 ((habove hx hy).mpr hp)
    · intro hall x y hx hy hne
      have hone : ∀ {x y : ColdItem × Nat}, IsCandidate host roots minBytes minAgeDays x →
          IsCandidate host roots minBytes minAgeDays y → x ≠ y →
            ¬ PathAbove x.1.candidate.path y.1.candidate.path := by
        intro x y hx hy hne
        rw [habove hx hy]
        by_cases htext : x.1.isText = true ∧ y.1.isText = true
        · exact hx.displayed_apart hy hne htext
        · exact hall x y hx hy hne htext
      exact ⟨hone hx hy hne, hone hy hx hne.symm⟩
  constructor
  · exact fun h => ⟨hcold.mp h.cold, hapart.mp h.apart⟩
  · exact fun h => ⟨hcold.mpr h.1, hapart.mpr h.2⟩

end Every

/-! ## A repository inside a candidate -/

section Nested

private def scanName : Name := ⟨"s", by decide⟩

private theorem bundleName_valid : "d".toList ≠ [] ∧ '/' ∉ "d".toList := by decide

private def bundleName : Name := ⟨"d", bundleName_valid⟩

private def payloadName : Name := ⟨"a", by decide⟩

private def checkoutName : Name := ⟨"r", by decide⟩

private def trackedName : Name := ⟨"t", by decide⟩

private def modulesName : Name := ⟨"node_modules", by decide⟩

/-- Old data, a checkout with one tracked file, and what was installed a moment ago. -/
private def bundleFs : Fs Unit :=
  ((((((((∅ : Fs Unit).insert [scanName] .dir).insert [scanName, bundleName] .dir).insert
    [scanName, bundleName, payloadName] (.file ())).insert
    [scanName, bundleName, checkoutName] .dir).insert
    [scanName, bundleName, checkoutName, trackedName] (.file ())).insert
    [scanName, bundleName, modulesName] .dir).insert
    [scanName, bundleName, modulesName, payloadName] (.file ()))

private def bundleGit : GitAnswers where
  showToplevel dir :=
    if dir = [scanName, bundleName, checkoutName] then .printed "/s/d/r\n" else .failed
  lsFiles _ name := .printed (if name = "t" then "t\n" else "")

/-- A hundred days after everything but the installed files. -/
private def bundleHost : ColdHost Unit where
  fs := bundleFs
  closed := FileTree.closed_of_keys (by decide)
  cwd := []
  cwd_dir := rfl
  plain := FileTree.plain_of_keys (by decide)
  len := fun _ => 1
  modified := fun f => if f = [scanName, bundleName, modulesName, payloadName] then some 8640000
    else some 0
  now := 8640000
  git := bundleGit

private def checkoutRepo : GitRepo := ⟨[[scanName, bundleName, checkoutName, trackedName]]⟩

private def bundleWorld : GitWorld bundleHost.git where
  repos := [checkoutRepo]
  discovered dir := if dir = [scanName, bundleName, checkoutName] then some checkoutRepo else none
  undiscovered dir h := by
    by_cases hdir : dir = [scanName, bundleName, checkoutName]
    · have hprinted : bundleHost.git.showToplevel dir = .printed "/s/d/r\n" := if_pos hdir
      rw [hprinted] at h
      cases h
    · exact if_neg hdir
  lists dir n repo stdout hrepo _ hlisted hblank f hf := by
    by_cases hdir : dir = [scanName, bundleName, checkoutName]
    · rw [if_pos hdir] at hrepo
      obtain rfl := Option.some.inj hrepo
      obtain rfl := List.mem_singleton.mp hf
      have hprinted : bundleHost.git.lsFiles dir n.text =
          .printed (if n.text = "t" then "t\n" else "") := rfl
      rw [hprinted] at hlisted
      obtain rfl := GitRun.printed.inj hlisted
      by_cases hn : n.text = "t"
      · rw [if_pos hn] at hblank
        exact absurd hblank (by decide)
      · rw [hdir]
        intro hp
        have htracked : n = trackedName := by simpa using hp
        exact hn (by rw [htracked]; rfl)
    · rw [if_neg hdir] at hrepo
      cases hrepo

/-- The directory around the checkout is returned, with a fresh file and a tracked one in it. -/
theorem nested_repository_listed :
    (findColdCandidates bundleHost ["/s"] 1 14).map (·.path) = ["/s/d"] ∧
      IsFresh bundleHost 14 [scanName, bundleName, modulesName, payloadName] ∧
      ¬ ColdCandidates bundleHost bundleWorld 1 14 (findColdCandidates bundleHost ["/s"] 1 14) := by
  have hpaths : (findColdCandidates bundleHost ["/s"] 1 14).map (·.path) = ["/s/d"] := by
    decide +kernel
  refine ⟨hpaths, by decide +kernel, fun h => ?_⟩
  obtain ⟨c, hc, hpath⟩ : ∃ c ∈ findColdCandidates bundleHost ["/s"] 1 14, c.path = "/s/d" :=
    List.mem_map.mp (by rw [hpaths]; exact List.mem_singleton_self _)
  obtain ⟨q, hq, hcold⟩ := h.cold c hc
  have hplace : bundleHost.canonicalize "/s/d" = .ok [scanName, bundleName] := by decide +kernel
  rw [hpath, hplace] at hq
  obtain rfl := Except.ok.inj hq
  exact hcold.untracked checkoutRepo (List.mem_singleton_self _)
    [scanName, bundleName, checkoutName, trackedName] (List.mem_singleton_self _)
    (List.prefix_append [scanName, bundleName] [checkoutName, trackedName])

end Nested

end DraconGuard
