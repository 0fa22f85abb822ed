import DraconGuard.Clean.TmpDropped

/-!
# What a sweep takes

An entry is taken when it lies in the window of the sweep and the gates let it go
(`freed_judgeE2e`, `freed_judgeGeneral`). A dry run reports what is taken of the machine as it is
(`run_dry`); an applied run removes the same, as long as the sweep is `Steady`: what has gone
changes nothing for the entries that are left (`runFrom_applied`).
-/

namespace DraconGuard

open FileTree (Disk Location Name Entry Errno entryAt below render)

variable {δ : Type}

/-! ## What a turn takes -/

def TmpVerdict.freed : TmpVerdict → Option Nat
  | .taken size => some size
  | _ => none

@[simp] theorem freed_passedOver : TmpVerdict.passedOver.freed = none := rfl

@[simp] theorem freed_heldBack (size : Nat) (large : Bool) :
    (TmpVerdict.heldBack size large).freed = none := rfl

@[simp] theorem freed_unless (size : Nat) (b : Option TmpEntryBlock) :
    (TmpVerdict.unless size b).freed = if b.isNone then some size else none := by
  cases b <;> rfl

/-- Newer than the general cutoff and not newer than the fast one, by name. -/
def e2eWindow (t : TmpHost δ) (floors : E2eFloors) (path : Location) (e : Entry δ) : Bool :=
  tmpE2eMatch (baseName path) floors.patterns &&
    if e.isDir then
      treeHasFreshContent t path floors.generalCutoff &&
        !treeHasFreshContent t path floors.fastCutoff
    else (t.mtime path).any fun modified =>
      floors.generalCutoff < modified.nanos && modified.nanos ≤ floors.fastCutoff

/-- Behind the general cutoff, or large and behind the one for large entries. -/
def generalWindow (t : TmpHost δ) (floors : GeneralFloors) (path : Location) (e : Entry δ) : Bool :=
  (t.mtime path).any fun modified =>
    !t.isFresh path e modified floors.cutoff ||
      (floors.largeActive && floors.largeEntryBytes ≤ t.entrySize path e &&
        !t.isFresh path e modified floors.largeCutoff)

/-- What a path names, when that is no link. -/
def TmpHost.unlinked (t : TmpHost δ) (path : Location) : Option (Entry δ) :=
  match t.symlinkMetadata path with
  | none => none
  | some (_, .symlink _) => none
  | some (_, e) => some e

/-- What a turn takes of an entry that is no link: all of it, when it lies in the window and the
gates let it go. -/
def takesOf (t : TmpHost δ) (protectedPaths : List String) (openPaths : List Location)
    (root path : Location) (window : Entry δ → Bool) : Option Nat :=
  (t.unlinked path).bind fun e =>
    if window e && (t.block protectedPaths openPaths root path).isNone then
      some (t.entrySize path e)
    else none

section Freed

variable (t : TmpHost δ) (protectedPaths : List String) (openPaths : List Location)
  (root : Location) (n : Name)

variable {t} in
theorem unlinked_eq {path q : Location} {e : Entry δ}
    (hmeta : t.symlinkMetadata path = some (q, e)) (hlink : ∀ target, e ≠ .symlink target) :
    t.unlinked path = some e := by
  unfold TmpHost.unlinked
  rw [hmeta]
  cases e with
  | symlink target => exact absurd rfl (hlink target)
  | dir => rfl
  | file data => rfl
  | special => rfl

theorem freed_judgeE2e (floors : E2eFloors) :
    (judgeE2e t floors protectedPaths openPaths root n).freed =
      takesOf t protectedPaths openPaths root (root ++ [n])
        (e2eWindow t floors (root ++ [n])) := by
  unfold judgeE2e takesOf e2eWindow
  dsimp only
  split
  · next hmeta => simp [TmpHost.unlinked, hmeta]
  · next hmeta => simp [TmpHost.unlinked, hmeta]
  next q e hlink hmeta =>
  rw [unlinked_eq hmeta fun target heq => hlink target heq, Option.bind_some]
  cases tmpE2eMatch (baseName (root ++ [n])) floors.patterns with
  | false => rfl
  | true =>
    cases e.isDir with
    | true =>
      cases treeHasFreshContent t (root ++ [n]) floors.generalCutoff with
      | false => rfl
      | true =>
        cases treeHasFreshContent t (root ++ [n]) floors.fastCutoff with
        | true => rfl
        | false => simp
    | false =>
      cases t.mtime (root ++ [n]) with
      | none => rfl
      | some modified =>
        by_cases hgeneral : modified.nanos ≤ floors.generalCutoff
        · simp [hgeneral, not_lt.mpr hgeneral]
        · by_cases hfast : floors.fastCutoff < modified.nanos
          · simp [hgeneral, hfast, not_le.mpr hfast]
          · simp [hgeneral, hfast, not_le.mp hgeneral, not_lt.mp hfast]

theorem freed_judgeGeneral (floors : GeneralFloors) :
    (judgeGeneral t floors protectedPaths openPaths root n).freed =
      takesOf t protectedPaths openPaths root (root ++ [n])
        (generalWindow t floors (root ++ [n])) := by
  unfold judgeGeneral takesOf generalWindow
  dsimp only
  split
  · next hmeta => simp [TmpHost.unlinked, hmeta]
  · next hmeta => simp [TmpHost.unlinked, hmeta]
  next q e hlink hmeta =>
  rw [unlinked_eq hmeta fun target heq => hlink target heq, Option.bind_some]
  cases t.mtime (root ++ [n]) with
  | none => rfl
  | some modified =>
    by_cases hfresh : t.isFresh (root ++ [n]) e modified floors.cutoff = true
    · by_cases hlarge : (floors.largeActive && decide (floors.largeEntryBytes ≤
          t.entrySize (root ++ [n]) e)) = true
      · by_cases hshort : t.isFresh (root ++ [n]) e modified floors.largeCutoff = true
        · cases t.block protectedPaths openPaths root (root ++ [n]) <;>
            simp [hfresh, hlarge, hshort]
        · simp [hfresh, hlarge, hshort]
      · cases t.block protectedPaths openPaths root (root ++ [n]) <;> simp [hfresh, hlarge]
    · simp [hfresh]

end Freed

/-! ## What a sweep takes -/

namespace TmpSweep

variable (sweep : TmpSweep δ)

/-- An entry that is taken, with what it comes to. -/
def takes (t : TmpHost δ) (entry : Location × Name) : Option (Location × Nat) :=
  (sweep.judge t entry.1 entry.2).freed.map fun size => (entry.1 ++ [entry.2], size)

/-- The entries of a root on a machine. -/
def entriesOf (t : TmpHost δ) (root : Location) : List (Location × Name) :=
  (t.readDirNames root).map fun n => (root, n)

/-- What a sweep over the roots takes of a machine that stays as it is. -/
def takenFrom (t : TmpHost δ) (roots : List Location) : List (Location × Nat) :=
  (roots.flatMap (entriesOf t)).filterMap (sweep.takes t)

def taken (t : TmpHost δ) : List (Location × Nat) := sweep.takenFrom t sweep.roots

variable {sweep}

theorem takenFrom_cons (t : TmpHost δ) (root : Location) (roots : List Location) :
    sweep.takenFrom t (root :: roots) =
      (entriesOf t root).filterMap (sweep.takes t) ++ sweep.takenFrom t roots := by
  simp [takenFrom]

theorem mem_takenFrom {t : TmpHost δ} {roots : List Location} {x : Location × Nat} :
    x ∈ sweep.takenFrom t roots ↔ ∃ root ∈ roots, ∃ n ∈ t.readDirNames root,
      (sweep.judge t root n).freed = some x.2 ∧ x.1 = root ++ [n] := by
  obtain ⟨path, size⟩ := x
  constructor
  · intro hx
    obtain ⟨⟨root, n⟩, hentry, htakes⟩ := List.mem_filterMap.mp hx
    obtain ⟨root', hroot, hin⟩ := List.mem_flatMap.mp hentry
    obtain ⟨m, hm, heq⟩ := List.mem_map.mp hin
    obtain ⟨rfl, rfl⟩ := Prod.mk.inj heq
    obtain ⟨k, hk, hpath⟩ := Option.map_eq_some_iff.mp htakes
    obtain ⟨rfl, rfl⟩ := Prod.mk.inj hpath
    exact ⟨_, hroot, _, hm, hk, rfl⟩
  · rintro ⟨root, hroot, n, hn, hfreed, rfl⟩
    refine List.mem_filterMap.mpr ⟨(root, n), List.mem_flatMap.mpr ⟨root, hroot,
      List.mem_map.mpr ⟨n, hn, rfl⟩⟩, ?_⟩
    rw [takes, hfreed]
    rfl

end TmpSweep

/-- The bytes reported are those of the entries reported. -/
def TmpCleanupOutcome.Tallied (out : TmpCleanupOutcome) : Prop :=
  out.reclaimed = (out.cleaned.map Prod.snd).sum

theorem tallied_count {out : TmpCleanupOutcome} (h : out.Tallied) (path : Location) (size : Nat) :
    (out.count path size).Tallied := by
  unfold TmpCleanupOutcome.Tallied TmpCleanupOutcome.count
  rw [List.map_append, List.sum_append, ← h]
  simp

section Runs

variable {sweep : TmpSweep δ}

theorem tallied_visit {s : TmpState δ} (h : s.out.Tallied) (entry : Location × Name) :
    (sweep.visit s entry).out.Tallied := by
  unfold TmpSweep.visit TmpSweep.settle
  split
  · split
    · exact tallied_count h _ _
    · split
      · exact tallied_count h _ _
      · exact h
  · exact h
  · exact h

theorem tallied_visits {s : TmpState δ} (h : s.out.Tallied) (entries : List (Location × Name)) :
    (entries.foldl sweep.visit s).out.Tallied := by
  induction entries generalizing s with
  | nil => exact h
  | cons entry entries ih => exact ih (tallied_visit h entry)

theorem tallied_run {s : TmpState δ} (h : s.out.Tallied) : (sweep.run s).out.Tallied := by
  unfold TmpSweep.run TmpSweep.runFrom
  induction sweep.roots generalizing s with
  | nil => exact h
  | cons root roots ih => exact ih (tallied_visits h _)

/-! ### A dry run -/

/-- A turn that only counts. -/
theorem visit_dry (h : sweep.apply = false) (s : TmpState δ) (entry : Location × Name) :
    (sweep.visit s entry).host = s.host ∧
      (sweep.visit s entry).out.cleaned = s.out.cleaned ++ (sweep.takes s.host entry).toList := by
  unfold TmpSweep.visit TmpSweep.takes
  cases sweep.judge s.host entry.1 entry.2 with
  | taken size => simp [TmpSweep.settle, h, TmpCleanupOutcome.count, TmpVerdict.freed]
  | passedOver => simp [TmpSweep.settle]
  | kept block => simp [TmpSweep.settle, TmpVerdict.freed]
  | heldBack size large => simp [TmpSweep.settle, TmpCleanupOutcome.hold]

theorem visits_dry (h : sweep.apply = false) (s : TmpState δ) (entries : List (Location × Name)) :
    (entries.foldl sweep.visit s).host = s.host ∧
      (entries.foldl sweep.visit s).out.cleaned =
        s.out.cleaned ++ entries.filterMap (sweep.takes s.host) := by
  induction entries generalizing s with
  | nil => simp
  | cons entry entries ih =>
    obtain ⟨hhost, hcleaned⟩ := visit_dry h s entry
    obtain ⟨hhosts, hrest⟩ := ih (sweep.visit s entry)
    rw [hhost] at hhosts hrest
    refine ⟨hhosts, ?_⟩
    rw [List.foldl_cons, hrest, hcleaned, List.filterMap_cons, List.append_assoc]
    cases sweep.takes s.host entry <;> rfl

/-- **A dry run** reports what the sweep takes of the machine as it is, and leaves it so. -/
theorem run_dry (h : sweep.apply = false) (s : TmpState δ) :
    (sweep.run s).host = s.host ∧
      (sweep.run s).out.cleaned = s.out.cleaned ++ sweep.taken s.host := by
  unfold TmpSweep.run TmpSweep.runFrom TmpSweep.taken
  induction sweep.roots generalizing s with
  | nil => simp [TmpSweep.takenFrom]
  | cons root roots ih =>
    obtain ⟨hhost, hcleaned⟩ := visits_dry h s (TmpSweep.listed s root)
    obtain ⟨hhosts, hrest⟩ := ih ((TmpSweep.listed s root).foldl sweep.visit s)
    rw [hhost] at hhosts hrest
    refine ⟨hhosts, ?_⟩
    rw [List.foldl_cons, hrest, hcleaned, TmpSweep.takenFrom_cons, List.append_assoc]
    rfl

end Runs

/-! ### A run that removes -/

section Listings

variable {host : TmpHost δ} {stamp : Location → SystemTime} {gone : List Location}

theorem canonicalize_cwd (fs : FileTree.Fs δ) (cwd cwd' : Location) {q : Location} (hq : q ≠ []) :
    FileTree.canonicalize fs cwd (render q) = FileTree.canonicalize fs cwd' (render q) := by
  unfold FileTree.canonicalize
  rw [FileTree.parse_render hq]
  rfl

theorem canonicalize_dir {t : TmpHost δ} {root : Location} (hroot : root ≠ [])
    (hdir : t.fs.lookup root = some .dir) : t.canonicalize (render root) = .ok root := by
  obtain ⟨parent, n, rfl⟩ : ∃ parent n, root = parent ++ [n] := by
    rcases List.eq_nil_or_concat root with h | ⟨parent, n, h⟩
    · exact absurd h hroot
    · exact ⟨parent, n, by rw [h, List.concat_eq_append]⟩
  exact t.canonicalize_render hdir fun _ heq => by cases heq

/-- A directory that is there lists what is left in it, one that is gone nothing. -/
theorem readDirNames_dropAll {root : Location} (hroot : root ≠ [])
    (hdir : host.fs.lookup root = some .dir) :
    (host.dropAll stamp gone).readDirNames root =
      (host.readDirNames root).filter fun n => !inside gone (root ++ [n]) := by
  have hbase := canonicalize_dir hroot hdir
  by_cases hin : inside gone root = true
  · have hnone : (host.dropAll stamp gone).fs.lookup root = none := by
      rw [lookup_dropAll, if_pos hin]
    have herror : ∀ r, (host.dropAll stamp gone).canonicalize (render root) ≠ .ok r := by
      intro r hr
      have hagree : FileTree.Agree host.fs (host.dropAll stamp gone).fs := by
        intro q e e' he he'
        rw [lookup_dropAll] at he'
        split at he'
        · cases he'
        · exact Option.some.inj (he.symm.trans he')
      have hcwd := (canonicalize_cwd (host.dropAll stamp gone).fs host.cwd
        (host.dropAll stamp gone).cwd hroot).trans hr
      obtain rfl : root = r := hagree.canonicalize hbase hcwd
      have hexists := (host.dropAll stamp gone).canonicalize_exists hr
      rw [entryAt, if_neg hroot, hnone] at hexists
      cases hexists
    have hempty : (host.readDirNames root).filter (fun n => !inside gone (root ++ [n])) = [] := by
      refine List.filter_eq_nil_iff.mpr fun n _ => ?_
      obtain ⟨q, hq, hpre⟩ := inside_iff.mp hin
      have hbelow : inside gone (root ++ [n]) = true :=
        inside_iff.mpr ⟨q, hq, hpre.trans (List.prefix_append root [n])⟩
      simp [hbelow]
    rw [hempty]
    unfold TmpHost.readDirNames
    cases hcanon : (host.dropAll stamp gone).canonicalize (render root) with
    | error e => rfl
    | ok r => exact absurd hcanon (herror r)
  · have hlook : (host.dropAll stamp gone).fs.lookup root = some .dir := by
      rw [lookup_dropAll, if_neg hin, hdir]
    have hkeys : (host.dropAll stamp gone).fs.keys =
        host.fs.keys.filter fun q => !inside gone q := by
      change (host.dropAll stamp gone).fs.entries.map Sigma.fst = _
      rw [entries_dropAll]
      exact (List.filter_map (p := fun q => !inside gone q) (f := Sigma.fst)
        (l := host.fs.entries)).symm
    unfold TmpHost.readDirNames
    rw [canonicalize_dir hroot hlook, hbase]
    dsimp only
    rw [hkeys, (dropAll_rest _ _ gone).1, List.filterMap_filter, List.filter_filterMap]
    refine List.filterMap_congr fun q _ => ?_
    cases hbelow : below root q with
    | none => simp
    | some rel =>
      obtain rfl := FileTree.below_eq_some.mp hbelow
      cases rel with
      | nil => simp
      | cons n rest =>
        cases rest with
        | nil =>
          by_cases hshown : (host.scan.listing root).shows n = true
          · simp [hshown, Option.filter]
          · simp [hshown]
        | cons m rest => simp

theorem nodup_readDirNames (t : TmpHost δ) (root : Location) : (t.readDirNames root).Nodup := by
  unfold TmpHost.readDirNames
  split
  · exact List.nodup_nil
  next r _ =>
  have hkeys : t.fs.keys.Nodup := t.fs.nodupKeys
  refine hkeys.filterMap fun q q' n hq hq' => ?_
  simp only [Option.mem_def] at hq hq'
  split at hq
  · next m hbelow =>
    split at hq'
    · next m' hbelow' =>
      obtain ⟨-, rfl⟩ := Option.ite_none_right_eq_some.mp hq |>.imp id Option.some.inj
      obtain ⟨-, rfl⟩ := Option.ite_none_right_eq_some.mp hq' |>.imp id Option.some.inj
      rw [FileTree.below_eq_some.mp hbelow, FileTree.below_eq_some.mp hbelow']
    · cases hq'
  · cases hq

end Listings

/-- What makes a sweep that removes come to what it would have taken at once: removals succeed,
`Taken` covers what it takes and knows no two entries inside one another, and a turn for an entry
that is there finds what it would have found at the beginning. -/
structure Steady (sweep : TmpSweep δ) (base : TmpHost δ) (Taken : Location → Prop) : Prop where
  done : ∀ q, base.removal q = .done
  nodup : sweep.roots.Nodup
  dirs : ∀ root ∈ sweep.roots, root ≠ [] ∧ base.fs.lookup root = some .dir
  covers : ∀ root ∈ sweep.roots, ∀ n ∈ base.readDirNames root, ∀ size,
    (sweep.judge base root n).freed = some size → Taken (root ++ [n])
  unnested : ∀ p q, Taken p → Taken q → p <+: q → p = q
  same : ∀ gone, (∀ q ∈ gone, Taken q) → ∀ root ∈ sweep.roots, ∀ n ∈ base.readDirNames root,
    inside gone (root ++ [n]) = false →
      (sweep.judge (base.dropAll sweep.stamp gone) root n).freed =
        (sweep.judge base root n).freed

section Applied

variable {sweep : TmpSweep δ} {base : TmpHost δ} {Taken : Location → Prop}

/-- A turn that removes. -/
theorem visit_applied (happly : sweep.apply = true) (hdone : ∀ q, base.removal q = .done)
    {gone : List Location} {s : TmpState δ} (hs : s.host = base.dropAll sweep.stamp gone)
    (entry : Location × Name)
    (hsame : (sweep.judge s.host entry.1 entry.2).freed =
      (sweep.judge base entry.1 entry.2).freed) :
    (sweep.visit s entry).host =
        base.dropAll sweep.stamp (gone ++ (sweep.takes base entry).toList.map Prod.fst) ∧
      (sweep.visit s entry).out.cleaned = s.out.cleaned ++ (sweep.takes base entry).toList := by
  have hremove : ∀ q, s.host.removal q = .done := by
    intro q
    rw [hs, (dropAll_rest _ _ gone).2.2.2, hdone]
  unfold TmpSweep.takes
  rw [← hsame]
  unfold TmpSweep.visit
  cases sweep.judge s.host entry.1 entry.2 with
  | taken size =>
    have hdrop : s.host.drop sweep.stamp (entry.1 ++ [entry.2]) none =
        base.dropAll sweep.stamp (gone ++ [entry.1 ++ [entry.2]]) := by
      rw [dropAll_concat, hs]
    simp [TmpSweep.settle, happly, TmpHost.remove, hremove, TmpCleanupOutcome.count,
      TmpVerdict.freed, hdrop]
  | passedOver => simp [TmpSweep.settle, hs]
  | kept block => simp [TmpSweep.settle, TmpVerdict.freed, hs]
  | heldBack size large => simp [TmpSweep.settle, TmpCleanupOutcome.hold, hs]

/-- The entries of one root, of which none is gone yet. -/
theorem visits_applied (h : Steady sweep base Taken) (happly : sweep.apply = true)
    {root : Location} (hroot : root ∈ sweep.roots) {names : List Name} (hnodup : names.Nodup)
    {gone : List Location} (hgone : ∀ q ∈ gone, Taken q)
    (hnames : ∀ n ∈ names, n ∈ base.readDirNames root ∧ inside gone (root ++ [n]) = false)
    {s : TmpState δ} (hs : s.host = base.dropAll sweep.stamp gone) :
    ((names.map fun n => (root, n)).foldl sweep.visit s).host = base.dropAll sweep.stamp
        (gone ++ ((names.map fun n => (root, n)).filterMap (sweep.takes base)).map Prod.fst) ∧
      ((names.map fun n => (root, n)).foldl sweep.visit s).out.cleaned =
        s.out.cleaned ++ (names.map fun n => (root, n)).filterMap (sweep.takes base) := by
  induction names generalizing gone s with
  | nil => simp [hs]
  | cons n names ih =>
    obtain ⟨hlisted, hthere⟩ := hnames n List.mem_cons_self
    obtain ⟨hn, hnodup⟩ := List.nodup_cons.mp hnodup
    have hsame : (sweep.judge s.host root n).freed = (sweep.judge base root n).freed := by
      rw [hs]
      exact h.same gone hgone root hroot n hlisted hthere
    obtain ⟨hhost, hcleaned⟩ := visit_applied happly h.done hs (root, n) hsame
    -- the entry that may have gone is no other
    have hpath : ∀ x ∈ (sweep.takes base (root, n)).toList, x.1 = root ++ [n] ∧ Taken x.1 := by
      intro x hx
      obtain ⟨size, hsize, rfl⟩ := Option.map_eq_some_iff.mp (Option.mem_toList.mp hx)
      exact ⟨rfl, h.covers root hroot n hlisted size hsize⟩
    have hgone' : ∀ q ∈ gone ++ (sweep.takes base (root, n)).toList.map Prod.fst, Taken q := by
      intro q hq
      rcases List.mem_append.mp hq with hq | hq
      · exact hgone q hq
      · obtain ⟨x, hx, rfl⟩ := List.mem_map.mp hq
        exact (hpath x hx).2
    have hrest := ih hnodup hgone'
      (fun m hm => by
        obtain ⟨hmlisted, hmthere⟩ := hnames m (List.mem_cons_of_mem n hm)
        refine ⟨hmlisted, ?_⟩
        rw [inside_append, hmthere, Bool.false_or, Bool.eq_false_iff, Ne, inside_iff]
        rintro ⟨q, hq, hpre⟩
        obtain ⟨x, hx, rfl⟩ := List.mem_map.mp hq
        rw [(hpath x hx).1, List.prefix_append_right_inj] at hpre
        obtain rfl := (List.cons_prefix_cons.mp hpre).1
        exact hn hm)
      hhost
    rw [List.map_cons, List.foldl_cons, List.filterMap_cons]
    refine ⟨hrest.1.trans ?_, hrest.2.trans ?_⟩
    · cases sweep.takes base (root, n) <;> simp
    · rw [hcleaned]
      cases sweep.takes base (root, n) <;> simp

/-- **An applied run** removes what the sweep takes of the machine it begins on, though the entries
`gone`, of which it takes none, are gone from it. -/
theorem runFrom_applied (h : Steady sweep base Taken) (happly : sweep.apply = true)
    {roots : List Location} (hroots : ∀ root ∈ roots, root ∈ sweep.roots) (hnodup : roots.Nodup)
    {gone : List Location} (hgone : ∀ q ∈ gone, Taken q)
    (hnone : ∀ root ∈ roots, ∀ n ∈ base.readDirNames root, root ++ [n] ∈ gone →
      (sweep.judge base root n).freed = none)
    {s : TmpState δ} (hs : s.host = base.dropAll sweep.stamp gone) :
    (sweep.runFrom s roots).out.cleaned = s.out.cleaned ++ sweep.takenFrom base roots ∧
      (sweep.runFrom s roots).host = base.dropAll sweep.stamp
        (gone ++ (sweep.takenFrom base roots).map Prod.fst) := by
  induction roots generalizing gone s with
  | nil => exact ⟨by simp [TmpSweep.runFrom, TmpSweep.takenFrom],
      by simp [TmpSweep.runFrom, TmpSweep.takenFrom, hs]⟩
  | cons root roots ih =>
    have hroot : root ∈ sweep.roots := hroots root List.mem_cons_self
    obtain ⟨hne, hdir⟩ := h.dirs root hroot
    obtain ⟨hfirst, hnodup⟩ := List.nodup_cons.mp hnodup
    have hlisted : TmpSweep.listed s root = ((base.readDirNames root).filter
        fun n => !inside gone (root ++ [n])).map fun n => (root, n) := by
      rw [TmpSweep.listed, hs, readDirNames_dropAll hne hdir]
    obtain ⟨hhost, hcleaned⟩ := visits_applied h happly hroot
      ((nodup_readDirNames base root).filter fun n => !inside gone (root ++ [n])) hgone
      (fun n hn => by simpa using List.mem_filter.mp hn) hs
    rw [← hlisted] at hhost hcleaned
    -- of what is gone already nothing is taken
    have hsame : (TmpSweep.listed s root).filterMap (sweep.takes base) =
        (TmpSweep.entriesOf base root).filterMap (sweep.takes base) := by
      rw [hlisted, TmpSweep.entriesOf, List.filterMap_map, List.filterMap_map,
        List.filterMap_filter]
      refine List.filterMap_congr fun n hn => ?_
      by_cases hin : inside gone (root ++ [n]) = true
      · have hfreed : (sweep.judge base root n).freed = none := by
          cases hsize : (sweep.judge base root n).freed with
          | none => rfl
          | some size =>
            obtain ⟨q, hq, hpre⟩ := inside_iff.mp hin
            have htaken := h.covers root hroot n hn size hsize
            obtain rfl := h.unnested q (root ++ [n]) (hgone q hq) htaken hpre
            rw [hnone root List.mem_cons_self n hn hq] at hsize
            cases hsize
        simp [hin, TmpSweep.takes, hfreed]
      · simp [hin]
    rw [hsame] at hhost hcleaned
    have hmem : ∀ q ∈ ((TmpSweep.entriesOf base root).filterMap (sweep.takes base)).map Prod.fst,
        ∃ n ∈ base.readDirNames root, q = root ++ [n] ∧ Taken q := by
      intro q hq
      obtain ⟨x, hx, rfl⟩ := List.mem_map.mp hq
      have hx' : x ∈ sweep.takenFrom base [root] := by
        rw [TmpSweep.takenFrom_cons]
        exact List.mem_append_left _ hx
      obtain ⟨root', hroot', n, hn, hfreed, hpath⟩ := TmpSweep.mem_takenFrom.mp hx'
      obtain rfl := List.mem_singleton.mp hroot'
      exact ⟨n, hn, hpath, hpath ▸ h.covers root' hroot n hn x.2 hfreed⟩
    have hgone' : ∀ q ∈ gone ++ ((TmpSweep.entriesOf base root).filterMap
        (sweep.takes base)).map Prod.fst, Taken q := by
      intro q hq
      rcases List.mem_append.mp hq with hq | hq
      · exact hgone q hq
      · obtain ⟨n, -, -, htaken⟩ := hmem q hq
        exact htaken
    have hrest := ih (fun r hr => hroots r (List.mem_cons_of_mem root hr)) hnodup hgone'
      (fun r hr n hn hin => by
        rcases List.mem_append.mp hin with hin | hin
        · exact hnone r (List.mem_cons_of_mem root hr) n hn hin
        · obtain ⟨m, -, heq, -⟩ := hmem _ hin
          obtain ⟨rfl, -⟩ := List.append_inj' heq rfl
          exact absurd hr hfirst)
      hhost
    rw [TmpSweep.runFrom, List.foldl_cons]
    refine ⟨hrest.1.trans ?_, hrest.2.trans ?_⟩
    · rw [hcleaned, TmpSweep.takenFrom_cons, List.append_assoc]
    · rw [TmpSweep.takenFrom_cons, List.map_append, List.append_assoc]

end Applied

end DraconGuard
