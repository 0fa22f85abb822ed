import DraconGuard.Clean.TmpTaken
import DraconGuard.Disk.TmpCruftLaw

/-!
# A dry run of both sweeps

"The fast path owns ONLY the age window the general pass skips ... so dry-run accounting can never
double-count an entry" (main.rs:7802). The window is exclusive of the general floor, and of that
only: the size-aware floor reaches into it, and the roots may lie in one another.

`tmp_dry_run` has both directions. What is counted once is counted by sweeps that do not take the
same entry, in roots that are not nested where something is taken. And then an applied run removes
what was counted, as long as nothing it removes changes what a later turn reads (`OutOfTheWay`).
-/

namespace DraconGuard

open FileTree (Disk Location Name Entry Errno entryAt render)

variable {δ : Type}

/-! ## The roots -/

theorem checkSafeTmpRoot_ok {host : TmpHost δ} {path : String} {root : Location}
    (h : checkSafeTmpRoot host path = .ok root) : root ≠ [] ∧ host.fs.lookup root = some .dir := by
  unfold checkSafeTmpRoot at h
  split at h
  · cases h
  · cases h
  · next q hlstat =>
    have hcanon : host.canonicalize path = .ok q := FileTree.canonicalize_of_lstat_dir hlstat
    rw [hcanon] at h
    dsimp only at h
    split at h
    · next hunder =>
      obtain rfl := Except.ok.inj h
      have hne : q ≠ [] := by
        rintro rfl
        cases hunder
      have hdir := host.entryAt_of_lstat hlstat
      rw [entryAt, if_neg hne] at hdir
      exact ⟨hne, hdir⟩
    · cases h
  · cases h

/-- The roots are directories, each there once. -/
theorem resolveSafeTmpRoots_dirs {host : TmpHost δ} {configured : List String}
    {resolved roots : List Location} (h : resolveSafeTmpRoots host configured resolved = .ok roots)
    (hnodup : resolved.Nodup)
    (hdirs : ∀ root ∈ resolved, root ≠ [] ∧ host.fs.lookup root = some .dir) :
    roots.Nodup ∧ ∀ root ∈ roots, root ≠ [] ∧ host.fs.lookup root = some .dir := by
  induction configured generalizing resolved with
  | nil =>
    obtain rfl := Except.ok.inj h
    exact ⟨hnodup, hdirs⟩
  | cons requested rest ih =>
    rw [resolveSafeTmpRoots] at h
    split at h
    · cases h
    · next root hroot =>
      by_cases hin : root ∈ resolved
      · rw [if_pos hin] at h
        exact ih h hnodup hdirs
      · rw [if_neg hin] at h
        refine ih h (hnodup.append (List.nodup_singleton root) ?_) fun r hr => ?_
        · simpa [List.disjoint_singleton] using hin
        · rcases List.mem_append.mp hr with hr | hr
          · exact hdirs r hr
          · obtain rfl := List.mem_singleton.mp hr
            exact checkSafeTmpRoot_ok hroot

/-- What a directory lists is there. -/
theorem lookup_of_listed {t : TmpHost δ} {root : Location} {n : Name} (hroot : root ≠ [])
    (hdir : t.fs.lookup root = some .dir) (h : n ∈ t.readDirNames root) :
    ∃ e, t.fs.lookup (root ++ [n]) = some e := by
  unfold TmpHost.readDirNames at h
  rw [canonicalize_dir hroot hdir] at h
  obtain ⟨q, hq, hname⟩ := List.mem_filterMap.mp h
  split at hname
  · next m hbelow =>
    split at hname
    · obtain rfl := Option.some.inj hname
      obtain rfl := FileTree.below_eq_some.mp hbelow
      exact Option.isSome_iff_exists.mp (AList.lookup_isSome.mpr hq)
    · cases hname
  · cases hname

/-! ## The property -/

/-- The same cleanup as a dry run, and for real. -/
def TmpCleanup.dry (call : TmpCleanup) : TmpCleanup := { call with apply := false }

def TmpCleanup.applied (call : TmpCleanup) : TmpCleanup := { call with apply := true }

section Property

variable (policy : TmpPolicy) (call : TmpCleanup) (host : TmpHost δ)

/-- The entries a dry run reports, with their sizes: those of the fast path, and those of the
general pass, the size-aware floor included. -/
def dryReported : List (Location × Nat) :=
  (cleanTmp policy call.dry host).1.cleaned ++ (cleanTmp policy call.dry host).2.cleaned

/-- **A dry run counts once**: the total is that of the entries reported, no object lies in two of
them, and the total is what an applied run on the same state removes when every removal
succeeds. -/
structure DryRunOnce : Prop where
  total : tmpReclaimed policy call.dry host = ((dryReported policy call host).map Prod.snd).sum
  once : (dryReported policy call host).Pairwise fun x y =>
    ∀ p, (host.fs.lookup p).isSome → ¬ (x.1 <+: p ∧ y.1 <+: p)
  equal : (∀ q, host.removal q = .done) →
    tmpReclaimed policy call.dry host = tmpReclaimed policy call.applied host

/-! ## The condition -/

/-- What the fast path would take. -/
def E2eTakes (path : Location) : Prop :=
  path ∈ ((e2ePass policy call.dry host).taken host).map Prod.fst

/-- What the general pass would take of the same state. -/
def GeneralTakes (path : Location) : Prop :=
  path ∈ ((generalPass policy call.dry host).taken (host.reading call.later)).map Prod.fst

def SweepTakes (path : Location) : Prop :=
  E2eTakes policy call host path ∨ GeneralTakes policy call host path

/-- No entry is in both windows, and none that is taken lies in another. -/
structure Windowed : Prop where
  exclusive : ∀ path, E2eTakes policy call host path → ¬ GeneralTakes policy call host path
  unnested : ∀ p q, SweepTakes policy call host p → SweepTakes policy call host q → p <+: q → p = q

/-- A result that decides a gate, once the entries `gone` are gone: a protected place that is still
there, or an error that is not about absence. -/
def Weighs (gone : List Location) : Except Errno Location → Prop
  | .ok shield => inside gone shield = false
  | .error e => e ≠ .notFound

/-- Later than every cutoff. -/
def Late (stamp : SystemTime) : Prop :=
  fastCutoff policy call host.now < stamp.nanos ∧
    (generalFloors policy call).cutoff < stamp.nanos ∧
      (generalFloors policy call).largeCutoff < stamp.nanos

/-- What is removed is not on the way of a configured root or a protected path to somewhere else,
and a nested root that loses an entry is younger than the cutoffs. -/
structure OutOfTheWay : Prop where
  roots : resolveSafeTmpRoots
      (host.dropAll call.stamp (((e2ePass policy call.dry host).taken host).map Prod.fst))
      policy.searchPaths [] = resolveSafeTmpRoots host policy.searchPaths []
  shields : ∀ gone, (∀ q ∈ gone, SweepTakes policy call host q) →
    ∀ text ∈ policy.protectedPaths, ∀ r, Weighs gone r →
      ((host.dropAll call.stamp gone).canonicalize text = r ↔ host.canonicalize text = r)
  stamps : ∀ roots, resolveSafeTmpRoots host policy.searchPaths [] = .ok roots →
    ∀ root ∈ roots, ∀ q, SweepTakes policy call host q → root <+: q.dropLast → root ≠ q.dropLast →
      Late policy call host (call.stamp q.dropLast)

end Property

/-! ## What a later turn reads -/

section Later

variable {policy : TmpPolicy} {call : TmpCleanup} {host : TmpHost δ}

/-- Nothing outside what is gone is protected less, or more. -/
theorem shieldsApart_dropAll {t : TmpHost δ} {stamp : Location → SystemTime} {gone : List Location}
    {path : Location} {protectedPaths : List String}
    (hshields : ∀ text ∈ protectedPaths, ∀ r, Weighs gone r →
      ((t.dropAll stamp gone).canonicalize text = r ↔ t.canonicalize text = r))
    (hthere : inside gone path = false) :
    ShieldsApart (t.dropAll stamp gone).toDisk path protectedPaths ↔
      ShieldsApart t.toDisk path protectedPaths := by
  have hweighs : ∀ shield, shield <+: path → Weighs gone (.ok shield) := by
    intro shield hpre
    change inside gone shield = false
    rw [Bool.eq_false_iff, Ne, inside_iff]
    rintro ⟨q, hq, hqs⟩
    have hin : inside gone path = true := inside_iff.mpr ⟨q, hq, hqs.trans hpre⟩
    rw [hthere] at hin
    cases hin
  refine forall₂_congr fun text htext => and_congr ?_ ?_
  · constructor
    · intro h shield hshield hne hpre
      exact h shield ((hshields text htext _ (hweighs shield hpre)).mpr hshield) hne hpre
    · intro h shield hshield hne hpre
      exact h shield ((hshields text htext _ (hweighs shield hpre)).mp hshield) hne hpre
  · constructor
    · intro h e he
      by_contra hne
      exact hne (h e ((hshields text htext (.error e) hne).mpr he))
    · intro h e he
      by_contra hne
      exact hne (h e ((hshields text htext (.error e) hne).mp he))

/-- The gates answer for an entry that is there as they would have at the beginning. -/
theorem block_dropAll {t : TmpHost δ} {stamp : Location → SystemTime} {gone : List Location}
    {root : Location} {n : Name} {e : Entry δ} {openPaths : List Location}
    {protectedPaths : List String} (hroot : root ≠ [])
    (hentry : t.fs.lookup (root ++ [n]) = some e) (hlink : ∀ target, e ≠ .symlink target)
    (hthere : inside gone (root ++ [n]) = false)
    (hshields : ∀ text ∈ protectedPaths, ∀ r, Weighs gone r →
      ((t.dropAll stamp gone).canonicalize text = r ↔ t.canonicalize text = r)) :
    (t.dropAll stamp gone).block protectedPaths openPaths root (root ++ [n]) = none ↔
      t.block protectedPaths openPaths root (root ++ [n]) = none := by
  have hlook : (t.dropAll stamp gone).fs.lookup (root ++ [n]) = some e := by
    rw [lookup_dropAll, hthere, hentry]
    rfl
  have hlength : 2 ≤ (root ++ [n]).length := by
    have hpos := List.length_pos_iff.mpr hroot
    rw [List.length_append, List.length_singleton]
    omega
  have hcheck : ∀ u : TmpHost δ, u.fs.lookup (root ++ [n]) = some e →
      ((∃ checked, checkSafeToDeleteTmpEntry u.toDisk (render (root ++ [n])) root
          protectedPaths = .ok checked) ↔ ShieldsApart u.toDisk (root ++ [n]) protectedPaths) := by
    intro u hu
    refine checkSafeToDeleteTmpEntry_isOk_iff (u.canonicalize_render hu hlink) ?_ hlength
      (List.prefix_append root [n])
    unfold isSymlink
    rw [u.lstat_render hu]
    cases e with
    | symlink target => exact absurd rfl (hlink target)
    | dir => rfl
    | file data => rfl
    | special => rfl
  unfold TmpHost.block
  rw [tmpEntryBlock_eq_none, tmpEntryBlock_eq_none, hcheck _ hlook, hcheck _ hentry,
    shieldsApart_dropAll hshields hthere, (dropAll_rest _ _ gone).2.2.1]

/-- What is taken is an entry that is there, and no link. -/
theorem takesOf_eq_some {t : TmpHost δ} {root : Location} {n : Name} {size : Nat}
    {protectedPaths : List String} {openPaths : List Location} {window : Entry δ → Bool}
    {e : Entry δ} (hentry : t.fs.lookup (root ++ [n]) = some e)
    (h : takesOf t protectedPaths openPaths root (root ++ [n]) window = some size) :
    (∀ target, e ≠ .symlink target) ∧ window e = true := by
  unfold takesOf at h
  obtain ⟨e', he', hsome⟩ := Option.bind_eq_some_iff.mp h
  unfold TmpHost.unlinked TmpHost.symlinkMetadata at he'
  rw [t.lstat_render hentry] at he'
  dsimp only at he'
  split at hsome
  · next hwindow =>
    rw [Bool.and_eq_true] at hwindow
    by_cases huntyped : t.scan.untyped (root ++ [n]) = true
    · simp [huntyped] at he'
    · rw [if_neg huntyped] at he'
      cases e with
      | symlink target => cases he'
      | dir =>
        obtain rfl := Option.some.inj he'
        exact ⟨by simp, hwindow.1⟩
      | file data =>
        obtain rfl := Option.some.inj he'
        exact ⟨by simp, hwindow.1⟩
      | special =>
        obtain rfl := Option.some.inj he'
        exact ⟨by simp, hwindow.1⟩
  · cases hsome

theorem e2eWindow_congr {t t' : TmpHost δ} {path : Location} (h : SameAt t t' path)
    (floors : E2eFloors) : e2eWindow t' floors path = e2eWindow t floors path := by
  funext e
  unfold e2eWindow
  rw [h.fresh, h.fresh, h.mtime]

theorem generalWindow_congr {t t' : TmpHost δ} {path : Location} (h : SameAt t t' path)
    (floors : GeneralFloors) : generalWindow t' floors path = generalWindow t floors path := by
  funext e
  unfold generalWindow TmpHost.isFresh
  simp only [h.fresh, h.mtime, h.size]

theorem takesOf_congr {t t' : TmpHost δ} {root path : Location} {openPaths : List Location}
    {protectedPaths : List String} {window window' : Entry δ → Bool} (h : SameAt t t' path)
    (hwindow : window' = window)
    (hblock : ∀ e, t.unlinked path = some e → (t'.block protectedPaths openPaths root path = none ↔
      t.block protectedPaths openPaths root path = none)) :
    takesOf t' protectedPaths openPaths root path window' =
      takesOf t protectedPaths openPaths root path window := by
  have hunlinked : t'.unlinked path = t.unlinked path := by
    unfold TmpHost.unlinked
    rw [h.data]
  unfold takesOf
  rw [hunlinked, hwindow]
  refine Option.bind_congr fun e he => ?_
  have hnone : (t'.block protectedPaths openPaths root path).isNone =
      (t.block protectedPaths openPaths root path).isNone := by
    rw [Bool.eq_iff_iff, Option.isNone_iff_eq_none, Option.isNone_iff_eq_none]
    exact hblock e he
  rw [hnone, h.size]

/-- An entry that has lost nothing. -/
theorem takesOf_dropAll {t : TmpHost δ} {stamp : Location → SystemTime} {gone : List Location}
    {root : Location} {n : Name} {e : Entry δ} {openPaths : List Location}
    {protectedPaths : List String} (window : TmpHost δ → Entry δ → Bool) (hroot : root ≠ [])
    (hentry : t.fs.lookup (root ++ [n]) = some e) (hthere : inside gone (root ++ [n]) = false)
    (hbelow : ∀ q ∈ gone, ¬ root ++ [n] <+: q)
    (hshields : ∀ text ∈ protectedPaths, ∀ r, Weighs gone r →
      ((t.dropAll stamp gone).canonicalize text = r ↔ t.canonicalize text = r))
    (hwindow : ∀ t' : TmpHost δ, SameAt t t' (root ++ [n]) → window t' = window t) :
    takesOf (t.dropAll stamp gone) protectedPaths openPaths root (root ++ [n])
        (window (t.dropAll stamp gone)) =
      takesOf t protectedPaths openPaths root (root ++ [n]) (window t) := by
  have hsame : SameAt t (t.dropAll stamp gone) (root ++ [n]) :=
    sameAt_dropAll hentry hthere hbelow
  refine takesOf_congr hsame (hwindow _ hsame) fun e' he' => ?_
  refine block_dropAll hroot hentry (fun target heq => ?_) hthere hshields
  -- a link has no gates to pass
  subst heq
  unfold TmpHost.unlinked at he'
  rcases symlinkMetadata_link hentry with h | h
  · rw [h] at he'
    cases he'
  · rw [h] at he'
    cases he'

/-- An entry that has lost something: a directory, fresh at every cutoff before `stamp`. -/
theorem takesOf_lost {t : TmpHost δ} {root : Location} {n : Name}
    {openPaths : List Location} {protectedPaths : List String} {window : Entry δ → Bool}
    (hentry : t.fs.lookup (root ++ [n]) = some .dir) (hwindow : window .dir = false) :
    takesOf t protectedPaths openPaths root (root ++ [n]) window = none := by
  cases h : takesOf t protectedPaths openPaths root (root ++ [n]) window with
  | none => rfl
  | some size =>
    have hin := (takesOf_eq_some hentry h).2
    rw [hwindow] at hin
    cases hin

theorem e2eWindow_fresh {t : TmpHost δ} {floors : E2eFloors} {path : Location}
    (h : treeHasFreshContent t path floors.fastCutoff = true) :
    e2eWindow t floors path .dir = false := by
  simp [e2eWindow, Entry.isDir, h]

theorem generalWindow_fresh {t : TmpHost δ} {floors : GeneralFloors} {path : Location}
    (h : treeHasFreshContent t path floors.cutoff = true)
    (hlarge : treeHasFreshContent t path floors.largeCutoff = true) :
    generalWindow t floors path .dir = false := by
  unfold generalWindow TmpHost.isFresh
  cases t.mtime path with
  | none => rfl
  | some modified => simp [Entry.isDir, h, hlarge]

/-! ## The two passes -/

/-- The fast path begins alike in a dry run and for real. -/
theorem e2ePass_applied : e2ePass policy call.applied host =
    { e2ePass policy call.dry host with apply := true } := by
  obtain ⟨used, apply, before, later, stamp⟩ := call
  unfold e2ePass e2eSweep TmpCleanup.dry TmpCleanup.applied
  dsimp only
  by_cases hoff : policy.minAgeHours = 0 ∨ policy.e2eMinAgeHours = 0
  · simp only [if_pos hoff]
    rfl
  simp only [if_neg hoff]
  by_cases hclock : before.nanos < 0
  · simp only [if_pos hclock]
    rfl
  simp only [if_neg hclock]
  by_cases hidle : policy.searchPaths.isEmpty = true ∨ policy.e2ePatterns.isEmpty = true
  · simp only [if_pos hidle]
    rfl
  simp only [if_neg hidle]
  cases resolveSafeTmpRoots host policy.searchPaths [] with
  | error e => rfl
  | ok roots =>
    dsimp only
    cases collectOpenPaths host roots with
    | none => rfl
    | some openPaths =>
      dsimp only
      split <;> rfl

theorem resolveSafeTmpRoots_reading (r : TmpReading) (configured : List String)
    (resolved : List Location) :
    resolveSafeTmpRoots (host.reading r) configured resolved =
      resolveSafeTmpRoots host configured resolved := by
  induction configured generalizing resolved with
  | nil => rfl
  | cons requested rest ih =>
    have hcheck : checkSafeTmpRoot (host.reading r) requested = checkSafeTmpRoot host requested :=
      rfl
    rw [resolveSafeTmpRoots, resolveSafeTmpRoots, hcheck]
    cases checkSafeTmpRoot host requested with
    | error e => rfl
    | ok root => exact ih _

theorem apply_e2ePass : (e2ePass policy call host).apply = call.apply := by
  rcases e2ePass_cases policy call host with h | ⟨-, roots, openPaths, -, -, h⟩ <;> rw [h]

theorem apply_generalPass : (generalPass policy call host).apply = call.apply := by
  rcases generalPass_cases policy call host with h | ⟨-, roots, openPaths, -, -, h⟩ <;> rw [h]

theorem stamp_e2ePass : (e2ePass policy call host).stamp = call.stamp := by
  rcases e2ePass_cases policy call host with h | ⟨-, roots, openPaths, -, -, h⟩ <;> rw [h]

theorem stamp_generalPass : (generalPass policy call host).stamp = call.stamp := by
  rcases generalPass_cases policy call host with h | ⟨-, roots, openPaths, -, -, h⟩ <;> rw [h]

/-- After a dry fast path the machine is as it was. -/
theorem betweenPasses_dry : betweenPasses policy call.dry host = host.reading call.later := by
  have happly : (e2ePass policy call.dry host).apply = false := apply_e2ePass
  unfold betweenPasses
  rw [(run_dry happly { host := host }).1]
  rfl

/-- What a dry run reports is what the sweeps take. -/
theorem cleaned_dry :
    (cleanTmp policy call.dry host).1.cleaned = (e2ePass policy call.dry host).taken host ∧
      (cleanTmp policy call.dry host).2.cleaned =
        (generalPass policy call.dry host).taken (host.reading call.later) := by
  have he2e : (e2ePass policy call.dry host).apply = false := apply_e2ePass
  have hgeneral : (generalPass policy call.dry host).apply = false := apply_generalPass
  constructor
  · exact (run_dry he2e { host := host }).2
  · unfold cleanTmp
    rw [betweenPasses_dry]
    exact (run_dry hgeneral { host := host.reading call.later }).2

/-- The general pass for real begins like the one of the dry run, where the roots resolve alike. -/
theorem generalPass_applied
    (h : resolveSafeTmpRoots (betweenPasses policy call.applied host) policy.searchPaths [] =
      resolveSafeTmpRoots host policy.searchPaths []) :
    generalPass policy call.applied host =
      { generalPass policy call.dry host with apply := true } := by
  unfold generalPass generalSweep
  rw [h, betweenPasses_dry, resolveSafeTmpRoots_reading]
  by_cases hoff : policy.searchPaths.isEmpty = true ∨ policy.minAgeHours = 0
  · simp only [if_pos hoff]
    rfl
  simp only [if_neg hoff]
  cases resolveSafeTmpRoots host policy.searchPaths [] with
  | error e => rfl
  | ok roots =>
    have hopen : collectOpenPaths (betweenPasses policy call.applied host) roots =
        collectOpenPaths (host.reading call.later) roots := rfl
    have hnow : (betweenPasses policy call.applied host).now = (host.reading call.later).now := rfl
    dsimp only
    rw [hopen, hnow]
    cases collectOpenPaths (host.reading call.later) roots with
    | none => rfl
    | some openPaths =>
      dsimp only
      split <;> rfl

/-- What is taken is an entry of a root. -/
theorem sweepTakes_spec {path : Location} (h : SweepTakes policy call host path) :
    ∃ roots, resolveSafeTmpRoots host policy.searchPaths [] = .ok roots ∧
      ∃ root ∈ roots, ∃ n e, path = root ++ [n] ∧ host.fs.lookup path = some e := by
  have hspec : ∀ roots, resolveSafeTmpRoots host policy.searchPaths [] = .ok roots →
      ∀ root ∈ roots, ∀ n ∈ host.readDirNames root, path = root ++ [n] →
        ∃ n e, path = root ++ [n] ∧ host.fs.lookup path = some e := by
    rintro roots hroots root hroot n hn rfl
    obtain ⟨hne, hdir⟩ := (resolveSafeTmpRoots_dirs hroots List.nodup_nil (by simp)).2 root hroot
    obtain ⟨e, he⟩ := lookup_of_listed hne hdir hn
    exact ⟨n, e, rfl, he⟩
  rcases h with h | h
  · obtain ⟨x, hx, rfl⟩ := List.mem_map.mp h
    obtain ⟨root, hroot, n, hn, -, hpath⟩ := TmpSweep.mem_takenFrom.mp hx
    rcases e2ePass_cases policy call.dry host with hidle | ⟨-, roots, openPaths, hroots, -, heq⟩
    · rw [hidle] at hroot
      cases hroot
    · rw [heq] at hroot
      exact ⟨roots, hroots, root, hroot, hspec roots hroots root hroot n hn hpath⟩
  · obtain ⟨x, hx, rfl⟩ := List.mem_map.mp h
    obtain ⟨root, hroot, n, hn, -, hpath⟩ := TmpSweep.mem_takenFrom.mp hx
    rcases generalPass_cases policy call.dry host with hidle |
      ⟨-, roots, openPaths, hroots, -, heq⟩
    · rw [hidle] at hroot
      cases hroot
    · rw [heq] at hroot
      rw [betweenPasses_dry, resolveSafeTmpRoots_reading] at hroots
      exact ⟨roots, hroots, root, hroot, hspec roots hroots root hroot n hn hpath⟩

/-! ## Steadiness -/

/-- An entry of a root that has lost something of it: what it lost was taken from a root inside
it, which is still there. -/
structure Lost (policy : TmpPolicy) (call : TmpCleanup) (host : TmpHost δ) (gone : List Location)
    (path q : Location) : Prop where
  below : path <+: q.dropLast
  dir : host.fs.lookup path = some .dir
  nested : host.fs.lookup q.dropLast = some .dir
  there : inside gone q.dropLast = false
  late : Late policy call host (call.stamp q.dropLast)
  spared : ¬ SweepTakes policy call host path

theorem lost_of_below (hwindowed : Windowed policy call host)
    (hway : OutOfTheWay policy call host) {roots gone : List Location}
    (hgone : ∀ q ∈ gone, SweepTakes policy call host q)
    (hroots : resolveSafeTmpRoots host policy.searchPaths [] = .ok roots) {root : Location}
    (hroot : root ∈ roots) {n : Name} (hthere : inside gone (root ++ [n]) = false) {q : Location}
    (hq : q ∈ gone) (hpre : root ++ [n] <+: q) : Lost policy call host gone (root ++ [n]) q := by
  obtain ⟨roots', hroots', root', hroot', m, e, rfl, he⟩ := sweepTakes_spec (hgone q hq)
  obtain rfl := Except.ok.inj (hroots'.symm.trans hroots)
  have hne : root ++ [n] ≠ root' ++ [m] := by
    intro heq
    have hin : inside gone (root ++ [n]) = true :=
      inside_iff.mpr ⟨root' ++ [m], hq, heq ▸ List.prefix_refl _⟩
    rw [hthere] at hin
    cases hin
  have hbelow : root ++ [n] <+: root' := (List.prefix_concat_iff.mp hpre).resolve_left hne
  obtain ⟨hrootne, hdir⟩ :=
    (resolveSafeTmpRoots_dirs hroots List.nodup_nil (by simp)).2 root' hroot'
  have hentry : entryAt host.fs root' = some .dir := by rwa [entryAt, if_neg hrootne]
  have hstrict : root ≠ root' := by
    rintro rfl
    have hlength := hbelow.length_le
    rw [List.length_append, List.length_singleton] at hlength
    omega
  refine ⟨?_, host.closed.dirs_above hentry (by simp) hbelow, ?_, ?_, ?_, fun htaken => hne
    (hwindowed.unnested _ _ htaken (hgone _ hq) hpre)⟩
  · rwa [List.dropLast_concat]
  · rwa [List.dropLast_concat]
  · rw [List.dropLast_concat, Bool.eq_false_iff, Ne, inside_iff]
    rintro ⟨r, hr, hrpre⟩
    obtain rfl := hwindowed.unnested r (root' ++ [m]) (hgone r hr) (hgone _ hq)
      (hrpre.trans (List.prefix_append root' [m]))
    have hlength := hrpre.length_le
    rw [List.length_append, List.length_singleton] at hlength
    omega
  · refine hway.stamps roots' hroots root hroot (root' ++ [m]) (hgone _ hq) ?_ ?_
    · rw [List.dropLast_concat]
      exact (List.prefix_append root [n]).trans hbelow
    · rwa [List.dropLast_concat]

theorem Lost.fresh {gone : List Location} {path q : Location}
    (h : Lost policy call host gone path q) (hpath : path ≠ []) (hq : q ∈ gone) (r : TmpReading)
    {cutoff : Int} (hlate : cutoff < (call.stamp q.dropLast).nanos) :
    treeHasFreshContent (host.dropAll call.stamp gone) path cutoff = true ∧
      treeHasFreshContent ((host.reading r).dropAll call.stamp gone) path cutoff = true :=
  ⟨fresh_of_lost hpath hq h.below h.nested h.there hlate,
    fresh_of_lost hpath hq h.below h.nested h.there hlate⟩

theorem Lost.lookup {gone : List Location} {path q : Location} {t : TmpHost δ}
    (h : Lost policy call host gone path q) (ht : t.fs = host.fs)
    (hthere : inside gone path = false) :
    (t.dropAll call.stamp gone).fs.lookup path = some .dir := by
  rw [lookup_dropAll, hthere, ht, h.dir]
  rfl

/-- **The fast path is steady.** -/
theorem steady_e2e (hwindowed : Windowed policy call host)
    (hway : OutOfTheWay policy call host) (hdone : ∀ q, host.removal q = .done) :
    Steady (e2ePass policy call.applied host) host (SweepTakes policy call host) := by
  rcases e2ePass_cases policy call.dry host with hidle | ⟨-, roots, openPaths, hroots, -, heq⟩
  · rw [e2ePass_applied, hidle]
    exact ⟨hdone, List.nodup_nil, by simp, by simp, hwindowed.unnested, by simp⟩
  obtain ⟨hnodup, hdirs⟩ := resolveSafeTmpRoots_dirs hroots List.nodup_nil (by simp)
  have htakes : ∀ root ∈ roots, ∀ n ∈ host.readDirNames root, ∀ size,
      (judgeE2e host (e2eFloors policy call.dry host) policy.protectedPaths openPaths root n).freed =
        some size → SweepTakes policy call host (root ++ [n]) := by
    intro root hroot n hn size hsize
    refine Or.inl (List.mem_map.mpr ⟨(root ++ [n], size), ?_, rfl⟩)
    rw [heq]
    exact TmpSweep.mem_takenFrom.mpr ⟨root, hroot, n, hn, hsize, rfl⟩
  rw [e2ePass_applied, heq]
  refine ⟨hdone, hnodup, hdirs, htakes, hwindowed.unnested, ?_⟩
  intro gone hgone root hroot n hn hthere
  obtain ⟨hrootne, hdir⟩ := hdirs root hroot
  obtain ⟨e, he⟩ := lookup_of_listed hrootne hdir hn
  dsimp only
  by_cases hlost : ∃ q ∈ gone, root ++ [n] <+: q
  · obtain ⟨q, hq, hpre⟩ := hlost
    have hl := lost_of_below hwindowed hway hgone hroots hroot hthere hq hpre
    have hnone : (judgeE2e host (e2eFloors policy call.dry host) policy.protectedPaths openPaths
        root n).freed = none := by
      cases hsize : (judgeE2e host (e2eFloors policy call.dry host) policy.protectedPaths openPaths
          root n).freed with
      | none => rfl
      | some size => exact absurd (htakes root hroot n hn size hsize) hl.spared
    rw [hnone, freed_judgeE2e]
    exact takesOf_lost (hl.lookup rfl hthere)
      (e2eWindow_fresh (hl.fresh (by simp) hq call.later hl.late.1).1)
  · rw [freed_judgeE2e, freed_judgeE2e]
    exact takesOf_dropAll (fun t => e2eWindow t (e2eFloors policy call.dry host) (root ++ [n]))
      hrootne he hthere (fun q hq hpre => hlost ⟨q, hq, hpre⟩) (hway.shields gone hgone)
      (fun t' h => e2eWindow_congr h _)

/-- **The general pass is steady**, once it begins alike. -/
theorem steady_general (hwindowed : Windowed policy call host)
    (hway : OutOfTheWay policy call host) (hdone : ∀ q, host.removal q = .done) :
    Steady { generalPass policy call.dry host with apply := true } (host.reading call.later)
      (SweepTakes policy call host) := by
  rcases generalPass_cases policy call.dry host with hidle |
    ⟨-, roots, openPaths, hroots, -, heq⟩
  · rw [hidle]
    exact ⟨hdone, List.nodup_nil, by simp, by simp, hwindowed.unnested, by simp⟩
  rw [betweenPasses_dry, resolveSafeTmpRoots_reading] at hroots
  obtain ⟨hnodup, hdirs⟩ := resolveSafeTmpRoots_dirs hroots List.nodup_nil (by simp)
  have htakes : ∀ root ∈ roots, ∀ n ∈ host.readDirNames root, ∀ size,
      (judgeGeneral (host.reading call.later) (generalFloors policy call.dry)
        policy.protectedPaths openPaths root n).freed = some size →
          SweepTakes policy call host (root ++ [n]) := by
    intro root hroot n hn size hsize
    refine Or.inr (List.mem_map.mpr ⟨(root ++ [n], size), ?_, rfl⟩)
    rw [heq]
    exact TmpSweep.mem_takenFrom.mpr ⟨root, hroot, n, hn, hsize, rfl⟩
  rw [heq]
  refine ⟨hdone, hnodup, hdirs, htakes, hwindowed.unnested, ?_⟩
  intro gone hgone root hroot n hn hthere
  obtain ⟨hrootne, hdir⟩ := hdirs root hroot
  obtain ⟨e, he⟩ := lookup_of_listed hrootne hdir hn
  dsimp only
  by_cases hlost : ∃ q ∈ gone, root ++ [n] <+: q
  · obtain ⟨q, hq, hpre⟩ := hlost
    have hl := lost_of_below hwindowed hway hgone hroots hroot hthere hq hpre
    have hnone : (judgeGeneral (host.reading call.later) (generalFloors policy call.dry)
        policy.protectedPaths openPaths root n).freed = none := by
      cases hsize : (judgeGeneral (host.reading call.later) (generalFloors policy call.dry)
          policy.protectedPaths openPaths root n).freed with
      | none => rfl
      | some size => exact absurd (htakes root hroot n hn size hsize) hl.spared
    rw [hnone, freed_judgeGeneral]
    exact takesOf_lost (hl.lookup rfl hthere)
      (generalWindow_fresh (hl.fresh (by simp) hq call.later hl.late.2.1).2
        (hl.fresh (by simp) hq call.later hl.late.2.2).2)
  · rw [freed_judgeGeneral, freed_judgeGeneral]
    refine takesOf_dropAll (fun t => generalWindow t (generalFloors policy call.dry) (root ++ [n]))
      hrootne he hthere (fun q hq hpre => hlost ⟨q, hq, hpre⟩) ?_
      (fun t' h => generalWindow_congr h _)
    intro text htext r hweighs
    rw [← dropAll_reading]
    exact hway.shields gone hgone text htext r hweighs

/-! ## The result -/

theorem tmpReclaimed_eq (call : TmpCleanup) : tmpReclaimed policy call host =
    (((cleanTmp policy call host).1.cleaned ++ (cleanTmp policy call host).2.cleaned).map
      Prod.snd).sum := by
  have he2e : (cleanTmp policy call host).1.Tallied := tallied_run rfl
  have hgeneral : (cleanTmp policy call host).2.Tallied := tallied_run rfl
  unfold tmpReclaimed
  rw [he2e, hgeneral, List.map_append, List.sum_append]

/-- The entries a sweep takes are listed once each. -/
theorem nodup_taken {sweep : TmpSweep δ} {t : TmpHost δ} (hroots : sweep.roots.Nodup) :
    ((sweep.taken t).map Prod.fst).Nodup := by
  have hentries : (sweep.roots.flatMap (TmpSweep.entriesOf t)).Nodup := by
    rw [List.nodup_flatMap]
    refine ⟨fun root _ => ?_, hroots.imp fun hne => ?_⟩
    · exact (nodup_readDirNames t root).map fun n m heq => (Prod.mk.inj heq).2
    · intro entry hentry hentry'
      obtain ⟨n, -, rfl⟩ := List.mem_map.mp hentry
      obtain ⟨m, -, heq⟩ := List.mem_map.mp hentry'
      exact hne (Prod.mk.inj heq).1.symm
  have hpath : ∀ entry x, sweep.takes t entry = some x → x.1 = entry.1 ++ [entry.2] := by
    intro entry x hx
    obtain ⟨size, -, rfl⟩ := Option.map_eq_some_iff.mp hx
    rfl
  unfold TmpSweep.taken TmpSweep.takenFrom
  rw [List.map_filterMap]
  refine hentries.filterMap fun entry entry' path hin hin' => ?_
  obtain ⟨x, hx, rfl⟩ := Option.map_eq_some_iff.mp hin
  obtain ⟨x', hx', heq⟩ := Option.map_eq_some_iff.mp hin'
  have hsame := (hpath entry' x' hx').symm.trans (heq.trans (hpath entry x hx))
  obtain ⟨hroot, hname⟩ := List.append_inj' hsame rfl
  exact Prod.ext hroot.symm (List.cons.inj hname).1.symm

theorem nodup_e2eRoots : (e2ePass policy call host).roots.Nodup := by
  rcases e2ePass_cases policy call host with h | ⟨-, roots, openPaths, hroots, -, h⟩
  · rw [h]
    exact List.nodup_nil
  · rw [h]
    exact (resolveSafeTmpRoots_dirs hroots List.nodup_nil (by simp)).1

theorem nodup_generalRoots : (generalPass policy call host).roots.Nodup := by
  rcases generalPass_cases policy call host with h | ⟨-, roots, openPaths, hroots, -, h⟩
  · rw [h]
    exact List.nodup_nil
  · rw [h]
    exact (resolveSafeTmpRoots_dirs hroots List.nodup_nil (by simp)).1

theorem mem_dryReported {path : Location} :
    path ∈ (dryReported policy call host).map Prod.fst ↔ SweepTakes policy call host path := by
  unfold dryReported SweepTakes E2eTakes GeneralTakes
  rw [cleaned_dry.1, cleaned_dry.2, List.map_append, List.mem_append]

/-- What is counted once is in one window, and in no other entry. -/
theorem windowed_of_once (h : DryRunOnce policy call host) : Windowed policy call host := by
  have hthere : ∀ path, SweepTakes policy call host path → (host.fs.lookup path).isSome := by
    intro path hpath
    obtain ⟨-, -, -, -, n, e, -, he⟩ := sweepTakes_spec hpath
    rw [he]
    rfl
  have honce := h.once
  constructor
  · intro path he2e hgeneral
    have hsplit := honce
    unfold dryReported at hsplit
    rw [cleaned_dry.1, cleaned_dry.2] at hsplit
    obtain ⟨x, hx, rfl⟩ := List.mem_map.mp he2e
    obtain ⟨y, hy, heq⟩ := List.mem_map.mp hgeneral
    refine (List.pairwise_append.mp hsplit).2.2 x hx y hy x.1 (hthere _ (Or.inl he2e))
      ⟨List.prefix_refl _, ?_⟩
    rw [heq]
  · intro p q hp hq hpre
    by_contra hne
    obtain ⟨x, hx, rfl⟩ := List.mem_map.mp (mem_dryReported.mpr hp)
    obtain ⟨y, hy, rfl⟩ := List.mem_map.mp (mem_dryReported.mpr hq)
    have hxy : x ≠ y := fun heq => hne (congrArg Prod.fst heq)
    have hsymm : Std.Symm fun x y : Location × Nat =>
        ∀ p, (host.fs.lookup p).isSome → ¬ (x.1 <+: p ∧ y.1 <+: p) :=
      ⟨fun _ _ hab r hr hboth => hab r hr ⟨hboth.2, hboth.1⟩⟩
    exact honce.forall hx hy hxy y.1 (hthere _ hq) ⟨hpre, List.prefix_refl _⟩

/-- What is in one window, and in no other entry, is counted once. -/
theorem once_of_windowed (h : Windowed policy call host) :
    (dryReported policy call host).Pairwise fun x y =>
      ∀ p, (host.fs.lookup p).isSome → ¬ (x.1 <+: p ∧ y.1 <+: p) := by
  have hapart : ∀ x ∈ dryReported policy call host, ∀ y ∈ dryReported policy call host,
      x.1 ≠ y.1 → ∀ p, (host.fs.lookup p).isSome → ¬ (x.1 <+: p ∧ y.1 <+: p) := by
    rintro x hx y hy hne p - ⟨hxp, hyp⟩
    have hxt := mem_dryReported.mp (List.mem_map_of_mem hx)
    have hyt := mem_dryReported.mp (List.mem_map_of_mem hy)
    rcases List.prefix_or_prefix_of_prefix hxp hyp with hle | hle
    · exact hne (h.unnested _ _ hxt hyt hle)
    · exact hne (h.unnested _ _ hyt hxt hle).symm
  have hnodup : ((dryReported policy call host).map Prod.fst).Nodup := by
    unfold dryReported
    rw [cleaned_dry.1, cleaned_dry.2, List.map_append]
    refine (nodup_taken nodup_e2eRoots).append (nodup_taken nodup_generalRoots) ?_
    intro path he2e hgeneral
    exact h.exclusive path he2e hgeneral
  have hne : (dryReported policy call host).Pairwise fun x y => x.1 ≠ y.1 :=
    List.pairwise_map.mp hnodup
  exact hne.imp_of_mem fun hx hy hxy => hapart _ hx _ hy hxy

/-- The applied run removes what the dry run reports. -/
theorem cleaned_applied (hwindowed : Windowed policy call host)
    (hway : OutOfTheWay policy call host) (hdone : ∀ q, host.removal q = .done) :
    (cleanTmp policy call.applied host).1.cleaned = (cleanTmp policy call.dry host).1.cleaned ∧
      (cleanTmp policy call.applied host).2.cleaned =
        (cleanTmp policy call.dry host).2.cleaned := by
  have happly : (e2ePass policy call.applied host).apply = true := apply_e2ePass
  have hstamp : (e2ePass policy call.applied host).stamp = call.stamp := stamp_e2ePass
  have htaken : (e2ePass policy call.applied host).taken host =
      (e2ePass policy call.dry host).taken host := by
    rw [e2ePass_applied]
    rfl
  -- the fast path
  have hstart : ({ host := host } : TmpState δ).host =
      host.dropAll (e2ePass policy call.applied host).stamp [] := rfl
  have hfirst := runFrom_applied (steady_e2e hwindowed hway hdone) happly
    (fun _ hroot => hroot) nodup_e2eRoots (by simp) (by simp) hstart
  have hcleaned : (cleanTmp policy call.applied host).1.cleaned =
      (e2ePass policy call.dry host).taken host := by
    rw [← htaken]
    exact hfirst.1
  have hbetween : betweenPasses policy call.applied host =
      (host.reading call.later).dropAll call.stamp
        (((e2ePass policy call.dry host).taken host).map Prod.fst) := by
    rw [← dropAll_reading, ← htaken, ← hstamp]
    exact congrArg (TmpHost.reading · call.later) hfirst.2
  -- the general pass begins alike
  have hroots : resolveSafeTmpRoots (betweenPasses policy call.applied host) policy.searchPaths [] =
      resolveSafeTmpRoots host policy.searchPaths [] := by
    rw [hbetween, ← dropAll_reading, resolveSafeTmpRoots_reading, hway.roots]
  have hbegin := generalPass_applied hroots
  have hgone : ∀ q ∈ ((e2ePass policy call.dry host).taken host).map Prod.fst,
      SweepTakes policy call host q := fun q hq => Or.inl hq
  have hnone : ∀ root ∈ (generalPass policy call.dry host).roots,
      ∀ n ∈ (host.reading call.later).readDirNames root,
        root ++ [n] ∈ ((e2ePass policy call.dry host).taken host).map Prod.fst →
          ((generalPass policy call.dry host).judge (host.reading call.later) root n).freed =
            none := by
    intro root hroot n hn hin
    cases hsize : ((generalPass policy call.dry host).judge (host.reading call.later) root
        n).freed with
    | none => rfl
    | some size =>
      exact absurd (List.mem_map.mpr ⟨(root ++ [n], size),
        TmpSweep.mem_takenFrom.mpr ⟨root, hroot, n, hn, hsize, rfl⟩, rfl⟩)
        (hwindowed.exclusive _ hin)
  have hgstamp : (generalPass policy call.dry host).stamp = call.stamp := stamp_generalPass
  have hbegun : ({ host := betweenPasses policy call.applied host } : TmpState δ).host =
      (host.reading call.later).dropAll (generalPass policy call.dry host).stamp
        (((e2ePass policy call.dry host).taken host).map Prod.fst) := by
    rw [hgstamp]
    exact hbetween
  have hsecond := runFrom_applied (steady_general hwindowed hway hdone) rfl
    (fun _ hroot => hroot) nodup_generalRoots hgone hnone hbegun
  refine ⟨hcleaned.trans cleaned_dry.1.symm, ?_⟩
  rw [cleaned_dry.2]
  unfold cleanTmp
  rw [hbegin]
  exact hsecond.1

end Later

section Copy

private def copyName : Name := ⟨"reconcile-1", by decide⟩

/-- `/tmp` with one file in it. -/
private def copyFs : FileTree.Fs Unit :=
  ((∅ : FileTree.Fs Unit).insert [tmpDirName] .dir).insert [tmpDirName, copyName] (.file ())

private theorem copyFs_closed : FileTree.Closed copyFs := FileTree.closed_of_keys (by decide)

private theorem copyFs_plain (q : Location) (hq : (copyFs.lookup q).isSome) :
    ∀ n ∈ q, n.isPlain = true := FileTree.plain_of_keys (by decide) q hq

/-- Midnight, 55 hours after 1970. -/
private def midnight : SystemTime := ⟨198000 * 10 ^ 9, by decide⟩

/-- 20 hours earlier. -/
private def earlier : SystemTime := ⟨126000 * 10 ^ 9, by decide⟩

private def copyHost : TmpHost Unit where
  fs := copyFs
  closed := copyFs_closed
  cwd := []
  cwd_dir := rfl
  plain := copyFs_plain
  mtime := fun _ => some earlier
  len := fun _ => 2048
  now := midnight
  procs := some []
  pids := nodup_noProcs

private def copyPolicy : TmpPolicy where
  searchPaths := ["/tmp"]
  minAgeHours := 24
  e2ePatterns := ["reconcile-*".toList]
  e2eMinAgeHours := 6
  largeEntryBytes := 1024
  largeMinAgeHours := 2
  proactiveCleanupPercent := 80
  diskCriticalPercent := 95
  protectedPaths := []

private def fillingCleanup : TmpCleanup where
  used := 85
  apply := false
  before := midnight
  later := { now := midnight, procs := some [], pids := nodup_noProcs, procsCut := false, sockets := [] }
  stamp := fun _ => midnight

/-- Below the tier that asks for the size-aware floor. -/
private def quietCleanup : TmpCleanup := { fillingCleanup with used := 50 }

private theorem quiet_takes {path : Location}
    (h : SweepTakes copyPolicy quietCleanup copyHost path) : path = [tmpDirName, copyName] ∧
      ¬ GeneralTakes copyPolicy quietCleanup copyHost path := by
  have he2e : ((e2ePass copyPolicy quietCleanup.dry copyHost).taken copyHost).map Prod.fst =
      [[tmpDirName, copyName]] := by decide +kernel
  have hgeneral : ((generalPass copyPolicy quietCleanup.dry copyHost).taken
      (copyHost.reading quietCleanup.later)).map Prod.fst = [] := by decide +kernel
  have hnone : ¬ GeneralTakes copyPolicy quietCleanup copyHost path := by
    unfold GeneralTakes
    rw [hgeneral]
    simp
  refine ⟨?_, hnone⟩
  rcases h with h | h
  · unfold E2eTakes at h
    rw [he2e] at h
    exact List.mem_singleton.mp h
  · exact absurd h hnone

end Copy

end DraconGuard
