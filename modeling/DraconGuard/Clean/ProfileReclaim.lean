import DraconGuard.Clean.TmpDryRun
import DraconGuard.Lib.Walks

/-!
# Reclaiming the profiles of reaped browsers

A tree of processes that has been ended names a profile directory on its command line, and
`reclaim_reaped_browser_profiles` (main.rs:8511-8613) removes it. The text is whatever the process
had there: it may go through links and `..`, and lead anywhere.

| here | there |
| --- | --- |
| `lexicalParts` | what `Path::starts_with` compares |
| `reclaimRootFor` | `reclaim_root_for` (main.rs:8617) |
| `pathNamedByLiveCmdline` | `path_named_by_live_cmdline` (main.rs:8629) |
| `reclaimTurn` | one turn of the loop (main.rs:8544-8611) |
| `reclaimProfiles` | what comes before it |

The gate of the removal goes by where the path leads, so that nothing outside a validated root is
ever lost (`ReclaimLaw.inside`). The other checks compare the path as it is written: they say what
they mean of a directory that is given by its own place (`unopened`, `named`).
-/

namespace DraconGuard

open FileTree (Disk Location Name Spelled Entry Covers render)

/-! ## The code -/

/-- What the policy has about it. -/
structure ReclaimPolicy where
  reclaimReapedBrowserProfiles : Bool
  /-- `tmp_search_paths`: split, trimmed, none empty. -/
  searchPaths : List String
  protectedPaths : List String

/-- A profile, and what its turn meets. -/
structure ProfileTurn where
  dir : String
  /-- The command lines that can be read, as far as the listing of `/proc` goes; none where `/proc`
  does not open. -/
  cmdlines : Option (List String)

/-- The components of an absolute path. -/
def lexicalParts (text : String) : Option Location :=
  match Spelled.parse text with
  | none => none
  | some p => if p.absolute then some (p.parts.filter (· ≠ Name.current)) else none

def reclaimRootFor (parts : Location) (roots : List Location) : Option Location :=
  roots.find? fun root => root.isPrefixOf parts && decide (parts ≠ root)

def pathNamedByLiveCmdline (turn : ProfileTurn) : Bool :=
  if turn.dir.isEmpty then false
  else match turn.cmdlines with
    | none => true
    | some texts => texts.any fun text => Text.contains text turn.dir

/-- What the loop goes by: the policy, and what is read once. -/
structure ReclaimPass where
  protectedPaths : List String
  roots : List Location
  openPaths : List Location
  liveSockets : List Location
  /-- When a directory loses an entry. -/
  stamp : Location → SystemTime

structure ReclaimState (δ : Type) where
  host : TmpHost δ
  reclaimed : List (String × Nat) := []

section Code

variable {δ : Type}

/-- The checks of a turn, in their order: the place that may be removed. -/
def reclaimable (pass : ReclaimPass) (host : TmpHost δ) (turn : ProfileTurn) : Option Location :=
  match host.lstat turn.dir, lexicalParts turn.dir with
  | .ok (place, .dir), some parts =>
    if host.scan.untyped place then none
    else match reclaimRootFor parts pass.roots with
    | none => none
    | some root =>
      if pathHasOpenAncestor parts pass.openPaths then none
      else if pathHoldsLiveUnixSocket parts pass.liveSockets then none
      else if pathNamedByLiveCmdline turn then none
      else match checkSafeToDeleteTmpEntry host.toDisk turn.dir root pass.protectedPaths with
      | .error _ => none
      | .ok _ => some place
  | _, _ => none

def reclaimTurn (pass : ReclaimPass) (s : ReclaimState δ) (turn : ProfileTurn) : ReclaimState δ :=
  match reclaimable pass s.host turn with
  | none => s
  | some place =>
    let size := s.host.entrySize place .dir
    match s.host.remove pass.stamp place with
    | (host, true) => { host := host, reclaimed := s.reclaimed ++ [(turn.dir, size)] }
    | (host, false) => { s with host := host }

/-- What comes before the loop; none where it is not entered. -/
def reclaimPass (policy : ReclaimPolicy) (stamp : Location → SystemTime) (host : TmpHost δ) :
    Option ReclaimPass :=
  if !policy.reclaimReapedBrowserProfiles then none
  else match resolveSafeTmpRoots host policy.searchPaths [] with
    | .error _ => none
    | .ok roots =>
      if roots.isEmpty then none
      else match collectOpenPaths host roots with
        | none => none
        | some openPaths => some ⟨policy.protectedPaths, roots, openPaths, host.sockets, stamp⟩

def reclaimProfiles (policy : ReclaimPolicy) (stamp : Location → SystemTime) (host : TmpHost δ)
    (turns : List ProfileTurn) : ReclaimState δ :=
  match reclaimPass policy stamp host with
  | none => { host := host }
  | some pass => turns.foldl (reclaimTurn pass) { host := host }

end Code

/-! ## One turn -/

section Turn

variable {δ : Type} {pass : ReclaimPass} {host : TmpHost δ} {turn : ProfileTurn}
  {place q : Location}

/-- What the checks establish. -/
structure Reclaimable (pass : ReclaimPass) (host : TmpHost δ) (turn : ProfileTurn)
    (place parts root : Location) : Prop where
  leads : host.lstat turn.dir = .ok (place, .dir)
  spelled : lexicalParts turn.dir = some parts
  validated : root ∈ pass.roots
  within : root <+: place
  unopened : ∀ o ∈ pass.openPaths, ¬ parts <+: o ∧ ¬ o <+: parts
  noSocket : ∀ s ∈ pass.liveSockets, ¬ parts <+: s
  unnamed : pathNamedByLiveCmdline turn = false

theorem reclaimable_eq_some (h : reclaimable pass host turn = some place) :
    ∃ parts root, Reclaimable pass host turn place parts root := by
  unfold reclaimable at h
  split at h
  · next place' parts hlstat hparts =>
    split at h
    · cases h
    split at h
    · cases h
    next root hroot =>
    split at h
    · cases h
    next hopen =>
    split at h
    · cases h
    next hsocket =>
    split at h
    · cases h
    next hnamed =>
    split at h
    · cases h
    next checked hsafe =>
    obtain rfl := Option.some.inj h
    have hcanon := Disk.canonicalize_of_lstat hlstat (by simp)
    refine ⟨parts, root, hlstat, hparts, List.mem_of_find?_eq_some hroot, ?_, ?_, ?_,
      Bool.eq_false_iff.mpr hnamed⟩
    · unfold checkSafeToDeleteTmpEntry at hsafe
      split at hsafe
      · cases hsafe
      next canon hguard =>
      obtain ⟨rfl, -⟩ := checkSafeToDeleteGuard_ok hcanon hguard
      split at hsafe
      · next hstarts => exact List.isPrefixOf_iff_prefix.mp hstarts
      · cases hsafe
    · intro o ho
      simp only [pathHasOpenAncestor, List.any_eq_true, not_exists, not_and, Bool.or_eq_true,
        not_or, List.isPrefixOf_iff_prefix] at hopen
      exact hopen o ho
    · intro s hs
      simp only [pathHoldsLiveUnixSocket, List.any_eq_true, not_exists, not_and,
        List.isPrefixOf_iff_prefix] at hsocket
      exact hsocket s hs
  · cases h

/-- A removal puts nothing, and takes nothing from elsewhere. -/
theorem lookup_remove (host : TmpHost δ) (stamp : Location → SystemTime) (place q : Location) :
    (host.remove stamp place).1.fs.lookup q = host.fs.lookup q ∨
      place <+: q ∧ (host.remove stamp place).1.fs.lookup q = none := by
  have hdrop : ∀ stopped, (host.drop stamp place stopped).fs.lookup q = host.fs.lookup q ∨
      place <+: q ∧ (host.drop stamp place stopped).fs.lookup q = none := by
    intro stopped
    have hfs : (host.drop stamp place stopped).fs = (host.toDisk.removeDir place stopped).1.fs :=
      rfl
    rw [hfs]
    by_cases hpre : place <+: q
    · obtain ⟨rel, rfl⟩ := hpre
      rw [FileTree.lookup_removeDir]
      split
      · exact Or.inr ⟨List.prefix_append place rel, rfl⟩
      · exact Or.inl rfl
    · exact Or.inl (FileTree.lookup_removeDir_other _ stopped hpre)
  unfold TmpHost.remove
  split
  · exact hdrop none
  · dsimp only
    split
    · exact hdrop _
    · exact Or.inl rfl

theorem lookup_remove_done {stamp : Location → SystemTime}
    (h : (host.remove stamp place).2 = true) (rel : Location) :
    (host.remove stamp place).1.fs.lookup (place ++ rel) = none := by
  unfold TmpHost.remove at h ⊢
  split at h
  · have hfs : (host.drop stamp place none).fs = (host.toDisk.removeDir place none).1.fs := rfl
    rw [hfs, FileTree.lookup_removeDir]
    rfl
  · cases h

/-- A turn that does nothing, or removes what the checks let through. -/
theorem reclaimTurn_cases (pass : ReclaimPass) (s : ReclaimState δ) (turn : ProfileTurn) :
    reclaimTurn pass s turn = s ∨
      ∃ place parts root, Reclaimable pass s.host turn place parts root ∧
        (reclaimTurn pass s turn).host = (s.host.remove pass.stamp place).1 ∧
        ((reclaimTurn pass s turn).reclaimed = s.reclaimed ∨
          (s.host.remove pass.stamp place).2 = true ∧
          (reclaimTurn pass s turn).reclaimed =
            s.reclaimed ++ [(turn.dir, s.host.entrySize place .dir)]) := by
  unfold reclaimTurn
  cases hplace : reclaimable pass s.host turn with
  | none => exact Or.inl rfl
  | some place =>
    right
    obtain ⟨parts, root, hchecks⟩ := reclaimable_eq_some hplace
    refine ⟨place, parts, root, hchecks, ?_⟩
    dsimp only
    cases hremove : s.host.remove pass.stamp place with
    | mk host removed =>
      cases removed with
      | true => exact ⟨rfl, Or.inr ⟨rfl, rfl⟩⟩
      | false => exact ⟨rfl, Or.inl rfl⟩

theorem reclaimTurn_covers (pass : ReclaimPass) (s : ReclaimState δ) (turn : ProfileTurn) :
    Covers (reclaimTurn pass s turn).host.fs s.host.fs := by
  intro q e hq
  rcases reclaimTurn_cases pass s turn with hsame | ⟨place, parts, root, -, hhost, -⟩
  · rwa [hsame] at hq
  · rw [hhost] at hq
    rcases lookup_remove s.host pass.stamp place q with hsame | ⟨-, hnone⟩
    · rwa [hsame] at hq
    · rw [hnone] at hq
      cases hq

end Turn

/-! ## What the roots and the paths are -/

section Places

variable {δ : Type} {host : TmpHost δ}

theorem checkSafeTmpRoot_under {path : String} {root : Location}
    (h : checkSafeTmpRoot host path = .ok root) : [tmpDirName] <+: root := by
  unfold checkSafeTmpRoot at h
  split at h
  · cases h
  · cases h
  · split at h
    · cases h
    · split at h
      · next hunder =>
        obtain rfl := Except.ok.inj h
        exact List.isPrefixOf_iff_prefix.mp hunder
      · cases h
  · cases h

/-- Every validated root is `/tmp`, or below it. -/
theorem resolveSafeTmpRoots_under {configured : List String} {resolved roots : List Location}
    (h : resolveSafeTmpRoots host configured resolved = .ok roots)
    (hresolved : ∀ root ∈ resolved, [tmpDirName] <+: root) :
    ∀ root ∈ roots, [tmpDirName] <+: root := by
  induction configured generalizing resolved with
  | nil =>
    obtain rfl := Except.ok.inj h
    exact hresolved
  | cons requested rest ih =>
    rw [resolveSafeTmpRoots] at h
    split at h
    · cases h
    · next root hroot =>
      refine ih h fun r hr => ?_
      by_cases hin : root ∈ resolved
      · rw [if_pos hin] at hr
        exact hresolved r hr
      · rw [if_neg hin] at hr
        rcases List.mem_append.mp hr with hr | hr
        · exact hresolved r hr
        · obtain rfl := List.mem_singleton.mp hr
          exact checkSafeTmpRoot_under hroot

theorem reclaimPass_eq_some {policy : ReclaimPolicy} {stamp : Location → SystemTime}
    {pass : ReclaimPass} (h : reclaimPass policy stamp host = some pass) :
    resolveSafeTmpRoots host policy.searchPaths [] = .ok pass.roots ∧
      collectOpenPaths host pass.roots = some pass.openPaths ∧
      pass.liveSockets = host.sockets := by
  unfold reclaimPass at h
  split at h
  · cases h
  split at h
  · cases h
  next roots hroots =>
  split at h
  · cases h
  split at h
  · cases h
  next openPaths hopen =>
  obtain rfl := Option.some.inj h
  exact ⟨hroots, hopen, rfl⟩

/-- An absolute path that leads somewhere leads there when there is more around. -/
theorem lstat_covers {t t' : Disk δ} (h : Covers t.fs t'.fs) {text : String} {parts : Location}
    (hparts : lexicalParts text = some parts) {x : Location × Entry δ} (hx : t.lstat text = .ok x) :
    t'.lstat text = .ok x := by
  unfold lexicalParts at hparts
  unfold Disk.lstat FileTree.lstat at hx ⊢
  cases hparse : Spelled.parse text with
  | none => simp [hparse] at hparts
  | some p =>
    rw [hparse] at hparts hx
    dsimp only at hparts hx ⊢
    have habs : p.absolute = true := by
      by_contra hrel
      simp [hrel] at hparts
    rw [Spelled.start, if_pos habs] at hx ⊢
    obtain ⟨q, e⟩ := x
    exact h.lstatFrom hx

/-- The text spells the place of a directory, with no link on the way. -/
structure OwnPlace (host : TmpHost δ) (text : String) (d : Location) : Prop where
  ne : d ≠ []
  spelled : text = render d
  dir : host.fs.lookup d = some .dir

theorem OwnPlace.leads {text : String} {d : Location} (h : OwnPlace host text d) :
    host.lstat text = .ok (d, .dir) := by
  have hdir := h.dir
  rw [← List.dropLast_append_getLast h.ne] at hdir
  have hlstat := host.lstat_render hdir
  rwa [List.dropLast_append_getLast, ← h.spelled] at hlstat

theorem OwnPlace.lexical {text : String} {d : Location} (h : OwnPlace host text d) :
    lexicalParts text = some d := by
  unfold lexicalParts
  rw [h.spelled, FileTree.parse_render h.ne]
  have hplain : ∀ n ∈ d, n ≠ Name.current := by
    intro n hn heq
    have := host.plain d (by rw [h.dir]; rfl) n hn
    rw [heq] at this
    cases this
  simpa using hplain

theorem pathNamedByLiveCmdline_of {turn : ProfileTurn} (hdir : turn.dir.isEmpty = false)
    (h : ∀ texts, turn.cmdlines = some texts →
      ∃ text ∈ texts, Text.contains text turn.dir = true) :
    pathNamedByLiveCmdline turn = true := by
  unfold pathNamedByLiveCmdline
  rw [hdir, if_neg Bool.false_ne_true]
  cases hcmdlines : turn.cmdlines with
  | none => rfl
  | some texts =>
    obtain ⟨text, htext, hin⟩ := h texts hcmdlines
    exact List.any_eq_true.mpr ⟨text, htext, hin⟩

theorem render_ne_empty (d : Location) : (render d).isEmpty = false := by
  have hchars : (render d).toList ≠ [] := by
    unfold render
    split
    · simp
    · next hne =>
      obtain ⟨n, rest, rfl⟩ := List.exists_cons_of_ne_nil hne
      simp
  rw [Bool.eq_false_iff]
  intro hempty
  rw [String.isEmpty_iff] at hempty
  exact hchars (by rw [hempty]; rfl)

theorem contains_of_prefix {text part part' : List Char} (hpre : part' <+: part)
    (h : Text.containsChars text part = true) : Text.containsChars text part' = true := by
  unfold Text.containsChars at h ⊢
  obtain ⟨tail, htail, hpart⟩ := List.any_eq_true.mp h
  refine List.any_eq_true.mpr ⟨tail, htail, ?_⟩
  rw [List.isPrefixOf_iff_prefix] at hpart ⊢
  exact hpre.trans hpart

theorem render_under {p q : Location} (hp : p ≠ []) (h : p <+: q) :
    (render p).toList <+: (render q).toList := by
  obtain ⟨rel, rfl⟩ := h
  rw [render, if_neg hp, render, if_neg (by simp [hp]), String.toList_ofList, String.toList_ofList,
    FileTree.renderChars_append]
  exact List.prefix_append _ _

end Places

/-! ## The whole pass -/

section Run

variable {δ : Type} {pass : ReclaimPass}

theorem reclaim_covers (turns : List ProfileTurn) (s : ReclaimState δ) :
    Covers (turns.foldl (reclaimTurn pass) s).host.fs s.host.fs := by
  induction turns generalizing s with
  | nil => exact Covers.refl _
  | cons turn turns ih =>
    exact fun q e hq => reclaimTurn_covers pass s turn q e (ih (reclaimTurn pass s turn) q e hq)

/-- What a pass takes, one of its turns takes: from a place that the checks have let through. -/
theorem reclaim_lost {turns : List ProfileTurn} {s : ReclaimState δ} {q : Location}
    (h : (turns.foldl (reclaimTurn pass) s).host.fs.lookup q ≠ s.host.fs.lookup q) :
    ∃ turn ∈ turns, ∃ mid : TmpHost δ, Covers mid.fs s.host.fs ∧
      ∃ place parts root, Reclaimable pass mid turn place parts root ∧ place <+: q := by
  induction turns generalizing s with
  | nil => exact absurd rfl h
  | cons turn turns ih =>
    by_cases hfirst : (reclaimTurn pass s turn).host.fs.lookup q = s.host.fs.lookup q
    · rw [List.foldl_cons, ← hfirst] at h
      obtain ⟨later, hlater, mid, hcovers, hplace⟩ := ih h
      exact ⟨later, List.mem_cons_of_mem turn hlater, mid,
        fun p e hp => reclaimTurn_covers pass s turn p e (hcovers p e hp), hplace⟩
    · rcases reclaimTurn_cases pass s turn with hsame | ⟨place, parts, root, hchecks, hhost, -⟩
      · rw [hsame] at hfirst
        exact absurd rfl hfirst
      · rw [hhost] at hfirst
        have hpre := ((lookup_remove s.host pass.stamp place q).resolve_left hfirst).1
        exact ⟨turn, List.mem_cons_self, s.host, Covers.refl _, place, parts, root, hchecks, hpre⟩

/-- What is reported leads nowhere any more. -/
theorem reclaim_reported (hroots : ∀ root ∈ pass.roots, root ≠ []) (turns : List ProfileTurn)
    (s : ReclaimState δ) : ∀ r ∈ (turns.foldl (reclaimTurn pass) s).reclaimed, r ∈ s.reclaimed ∨
      ∀ x, (turns.foldl (reclaimTurn pass) s).host.lstat r.1 ≠ .ok x := by
  induction turns generalizing s with
  | nil => exact fun r hr => Or.inl hr
  | cons turn turns ih =>
    intro r hr
    rcases ih (reclaimTurn pass s turn) r hr with hin | hgone
    · rcases reclaimTurn_cases pass s turn with hsame | ⟨place, parts, root, hchecks, hhost, hrep⟩
      · exact Or.inl (by rwa [hsame] at hin)
      rcases hrep with hsame | ⟨hdone, hadded⟩
      · exact Or.inl (by rwa [hsame] at hin)
      rw [hadded] at hin
      rcases List.mem_append.mp hin with hin | hin
      · exact Or.inl hin
      obtain rfl := List.mem_singleton.mp hin
      refine Or.inr fun x hx => ?_
      -- it would have led there before the removal, and after it
      have hmid := lstat_covers (reclaim_covers turns (reclaimTurn pass s turn)) hchecks.spelled hx
      have hbefore := lstat_covers (reclaimTurn_covers pass s turn) hchecks.spelled hmid
      rw [hchecks.leads] at hbefore
      obtain rfl := Except.ok.inj hbefore
      have hthere := Disk.entryAt_of_lstat _ hmid
      have hne : place ≠ [] := by
        rintro rfl
        exact hroots root hchecks.validated (List.prefix_nil.mp hchecks.within)
      have hnone := lookup_remove_done hdone []
      rw [FileTree.entryAt, if_neg hne, hhost] at hthere
      rw [List.append_nil, hthere] at hnone
      cases hnone
    · exact Or.inr hgone

end Run

/-- What a pass may take, and what it may not. -/
structure ReclaimLaw {δ : Type} (policy : ReclaimPolicy) (host : TmpHost δ)
    (turns : List ProfileTurn) (after : ReclaimState δ) : Prop where
  kept : Covers after.host.fs host.fs
  /-- Wherever the paths lead, what is lost lies in a root below `/tmp`. -/
  inside : ∀ q, after.host.fs.lookup q ≠ host.fs.lookup q → ∃ roots root,
    resolveSafeTmpRoots host policy.searchPaths [] = .ok roots ∧ root ∈ roots ∧
      [tmpDirName] <+: root ∧ root <+: q
  reported : ∀ r ∈ after.reclaimed, ∀ x, after.host.lstat r.1 ≠ .ok x
  unopened : (∀ turn ∈ turns, ∃ d, OwnPlace host turn.dir d) →
    ∀ q, after.host.fs.lookup q ≠ host.fs.lookup q → host.procsCut = false ∧
      (∃ entries, host.procs = some entries ∧
        ∀ entry ∈ entries, ∀ o ∈ entry.links, ¬ q <+: o) ∧ ∀ s ∈ host.sockets, ¬ q <+: s
  named : (∀ turn ∈ turns, ∃ d, OwnPlace host turn.dir d) →
    ∀ d, host.fs.lookup d = some .dir → (∀ turn ∈ turns, ∀ texts, turn.cmdlines = some texts →
      ∃ text ∈ texts, Text.contains text (render d) = true) → after.host.fs.lookup d = some .dir

/-- **A pass over the profiles of reaped browsers**, whatever stood on their command lines. It only
takes, and only in validated roots below `/tmp`; a profile it reports is gone. Of profiles given by
their own places, it takes nothing in which a process has anything open or a socket listens, and no
directory that the command lines name while it runs. -/
theorem reclaimProfiles_law {δ : Type} (policy : ReclaimPolicy) (stamp : Location → SystemTime)
    (host : TmpHost δ) (turns : List ProfileTurn) :
    ReclaimLaw policy host turns (reclaimProfiles policy stamp host turns) := by
  unfold reclaimProfiles
  cases hpass : reclaimPass policy stamp host with
  | none =>
    exact ⟨Covers.refl _, fun q hq => absurd rfl hq, fun r hr => absurd hr List.not_mem_nil,
      fun _ q hq => absurd rfl hq, fun _ d hd _ => hd⟩
  | some pass =>
    obtain ⟨hroots, hopen, hsockets⟩ := reclaimPass_eq_some hpass
    have hunder : ∀ root ∈ pass.roots, [tmpDirName] <+: root :=
      resolveSafeTmpRoots_under hroots (by simp)
    -- a place taken is that of its own turn
    have hown : ∀ {turn : ProfileTurn} {d place parts root : Location} {mid : TmpHost δ},
        OwnPlace host turn.dir d → Covers mid.fs host.fs →
          Reclaimable pass mid turn place parts root → place = d ∧ parts = d := by
      intro turn d place parts root mid hd hcovers hchecks
      have hleads := lstat_covers hcovers hchecks.spelled hchecks.leads
      rw [hd.leads] at hleads
      have hparts := hchecks.spelled
      rw [hd.lexical] at hparts
      exact ⟨(Prod.mk.inj (Except.ok.inj hleads)).1.symm, (Option.some.inj hparts).symm⟩
    refine ⟨reclaim_covers turns _, fun q hq => ?_, fun r hr => ?_, fun hplaces q hq => ?_,
      fun hplaces d hd hlive => ?_⟩
    · obtain ⟨turn, -, mid, -, place, parts, root, hchecks, hpre⟩ := reclaim_lost hq
      exact ⟨pass.roots, root, hroots, hchecks.validated, hunder root hchecks.validated,
        hchecks.within.trans hpre⟩
    · have hne : ∀ root ∈ pass.roots, root ≠ [] := by
        rintro root hroot rfl
        exact absurd (hunder [] hroot) (by simp)
      rcases reclaim_reported hne turns _ r hr with hin | hgone
      · cases hin
      · exact hgone
    · obtain ⟨turn, hturn, mid, hcovers, place, parts, root, hchecks, hpre⟩ := reclaim_lost hq
      obtain ⟨d, hd⟩ := hplaces turn hturn
      obtain ⟨rfl, rfl⟩ := hown hd hcovers hchecks
      unfold collectOpenPaths at hopen
      split at hopen
      · cases hopen
      next entries hprocs =>
      split at hopen
      · cases hopen
      next hcut =>
      obtain hfilter := Option.some.inj hopen
      refine ⟨Bool.eq_false_iff.mpr hcut, ⟨entries, hprocs, fun entry hentry o ho hqo => ?_⟩,
        fun s hs hqs => ?_⟩
      · refine (hchecks.unopened o ?_).1 (hpre.trans hqo)
        rw [← hfilter, List.mem_filter]
        refine ⟨List.mem_flatMap.mpr ⟨entry, hentry, ho⟩, ?_⟩
        exact List.any_eq_true.mpr ⟨root, hchecks.validated,
          List.isPrefixOf_iff_prefix.mpr (hchecks.within.trans (hpre.trans hqo))⟩
      · exact hchecks.noSocket s (hsockets ▸ hs) (hpre.trans hqs)
    · by_contra hlost
      have hq : (turns.foldl (reclaimTurn pass) { host := host }).host.fs.lookup d ≠
          host.fs.lookup d := by rwa [hd]
      obtain ⟨turn, hturn, mid, hcovers, place, parts, root, hchecks, hpre⟩ := reclaim_lost hq
      obtain ⟨d', hd'⟩ := hplaces turn hturn
      obtain ⟨rfl, rfl⟩ := hown hd' hcovers hchecks
      refine Bool.false_ne_true (hchecks.unnamed.symm.trans (pathNamedByLiveCmdline_of ?_ ?_))
      · rw [hd'.spelled]
        exact render_ne_empty _
      · intro texts htexts
        obtain ⟨text, htext, hin⟩ := hlive turn hturn texts htexts
        refine ⟨text, htext, ?_⟩
        rw [hd'.spelled]
        exact contains_of_prefix (render_under hd'.ne hpre) hin

end DraconGuard
