import DraconGuard.Clean.LinkAtomic

/-!
# A link that was made stays in sync

`apply_one_link` followed by `evaluate_link` (links.rs:15-64, 249-314), with no call failing.

Three things are not the same, and nothing in the code brings them together.

| the target is | here |
|---|---|
| tested before anything is moved, from the working directory | `pathExists` |
| read by whoever follows the link, from the link's directory, with the link in place | `resolve` |
| compared afterwards, from the working directory | `normalizePath` |

`LinkReadsBack` says when they agree: the target still leads to the same place without the link,
from where the link will read it, within the limit on links, and a relative one from the working
directory too. `linkConverges_iff` says that this is exactly when a link that was made is in sync
for good. A relative target, a target at the link path and a target below it fail it
(`relative_and_own_target_drift`).
-/

namespace DraconGuard

open FileTree

/-- One run of a policy with a single entry, nothing failing. -/
def linkOnce (t : Disk FileData) (home : Option String) (force : Bool)
    (protectedPaths : List String) (nanos : Nat) (entry : LinkEntry) : LinkBatch :=
  applyLinkPolicy t home force protectedPaths (fun _ => { nanos := nanos }) (fun _ => {}) [entry]

/-- **Link apply converges**: when the link was made, it is in sync, it leads to what the target
was, with what it had but for what was at the link path, and another run changes nothing. -/
def LinkConverges (t : Disk FileData) (home : Option String) (force : Bool)
    (protectedPaths : List String) (nanos : Nat) (entry : LinkEntry) : Prop :=
  let batch := linkOnce t home force protectedPaths nanos entry
  (∀ turn ∈ batch.turns, turn.run.created = true) →
    ∀ q, t.canonicalize (expandTilde home entry.target) = .ok q →
      (evaluateLink batch.disk home {} entry).inSync = true ∧
      batch.disk.canonicalize (expandTilde home entry.link) = .ok q ∧
      (∀ place link, batch.disk.lstat (expandTilde home entry.link) = .ok (place, link) →
        ∀ rel e, t.fs.lookup (q ++ rel) = some e → ¬ place <+: q ++ rel →
          batch.disk.fs.lookup (q ++ rel) = some e) ∧
      ∀ later, (linkOnce batch.disk home force protectedPaths later entry).disk = batch.disk

/-- What `symlink(2)` finds: the disk, the name, and the directory it is in. -/
structure LinkCall (t : Disk FileData) (home : Option String) (force : Bool)
    (protectedPaths : List String) (nanos : Nat) (entry : LinkEntry) (ready : Disk FileData)
    (p : EntryPath) (parent : Location) : Prop where
  prepared : ∃ backup, prepareLink t home { nanos := nanos } force protectedPaths entry =
    .ready ready backup
  parsed : EntryPath.parse (expandTilde home entry.link) = some p
  slash : p.slash = false
  dir : ready.parentOf p = .ok parent
  free : ready.fs.lookup (parent ++ [p.last]) = none

/-- Where the link is made, the target leads to `q` without the link: from where the link will
read it, with links to spare for the way to the link and the link itself, and, when it is
relative, from the working directory, by way of the link or not. -/
def LinkReadsBack (t : Disk FileData) (home : Option String) (force : Bool)
    (protectedPaths : List String) (nanos : Nat) (entry : LinkEntry) : Prop :=
  let target := spelled (expandTilde home entry.target)
  ∀ ready p parent q, LinkCall t home force protectedPaths nanos entry ready p parent →
    t.canonicalize (expandTilde home entry.target) = .ok q →
    (∃ toLink beyond, toLink + beyond + 1 = maxLinks ∧
      resolve ready.fs toLink (if p.absolute then [] else ready.cwd) p.dir = .ok parent ∧
      resolve ready.fs beyond (target.start parent) target.parts = .ok q) ∧
    (target.absolute = false →
      resolve (ready.fs.insert (parent ++ [p.last]) (.symlink target)) maxLinks ready.cwd
        target.parts = .ok q)

section Made

variable {t ready : Disk FileData} {home : Option String} {force : Bool}
  {protectedPaths : List String} {nanos : Nat} {entry : LinkEntry} {p : EntryPath}
  {parent : Location}

theorem linkOnce_disk (t : Disk FileData) (home : Option String) (force : Bool)
    (protectedPaths : List String) (nanos : Nat) (entry : LinkEntry) :
    (linkOnce t home force protectedPaths nanos entry).disk =
      (applyOneLink t home { nanos := nanos } force protectedPaths entry).disk := rfl

theorem linkOnce_created : (∀ turn ∈ (linkOnce t home force protectedPaths nanos entry).turns,
    turn.run.created = true) ↔
      (applyOneLink t home { nanos := nanos } force protectedPaths entry).created = true := by
  unfold linkOnce applyLinkPolicy applyEntries applyEntries
  simp

/-- What a made link leaves. -/
theorem LinkCall.run (h : LinkCall t home force protectedPaths nanos entry ready p parent) :
    (applyOneLink t home { nanos := nanos } force protectedPaths entry).created = true ∧
      (applyOneLink t home { nanos := nanos } force protectedPaths entry).disk.fs =
        ready.fs.insert (parent ++ [p.last])
          (.symlink (spelled (expandTilde home entry.target))) ∧
      (applyOneLink t home { nanos := nanos } force protectedPaths entry).disk.cwd =
        ready.cwd := by
  obtain ⟨backup, hprepared⟩ := h.prepared
  obtain ⟨t', ht'⟩ := Disk.symlinkAt_of_free h.parsed h.slash h.dir h.free
    (spelled (expandTilde home entry.target))
  obtain ⟨p', parent', hp', -, hparent', -, hfs, hcwd⟩ := Disk.symlinkAt_ok ht'
  obtain rfl : p = p' := Option.some.inj (h.parsed.symm.trans hp')
  obtain rfl : parent = parent' := Except.ok.inj (h.dir.symm.trans hparent')
  unfold applyOneLink
  rw [hprepared]
  dsimp only
  have hcalls : ¬ ({ nanos := nanos } : LinkCalls).symlink = true := Bool.false_ne_true
  unfold createLink
  rw [if_neg hcalls, ht']
  exact ⟨rfl, hfs, hcwd⟩

theorem exists_linkCall
    (h : (applyOneLink t home { nanos := nanos } force protectedPaths entry).created = true) :
    ∃ ready p parent, LinkCall t home force protectedPaths nanos entry ready p parent := by
  unfold applyOneLink at h
  split at h
  · cases h
  next ready backup hprepared =>
  have hcalls : ¬ ({ nanos := nanos } : LinkCalls).symlink = true := Bool.false_ne_true
  unfold createLink at h
  rw [if_neg hcalls] at h
  split at h
  · unfold undoLink at h
    split at h
    · cases h
    · split at h
      · cases h
      · split at h <;> cases h
  · next t' ht' =>
    obtain ⟨p, parent, hp, hslash, hparent, hfree, -, -⟩ := Disk.symlinkAt_ok ht'
    exact ⟨ready, p, parent, ⟨backup, hprepared⟩, hp, hslash, hparent, hfree⟩

theorem createDirAll_covers (t : Disk FileData) (dir : Spelled) :
    Covers t.fs (t.createDirAll dir).1.fs ∧ (t.createDirAll dir).1.cwd = t.cwd :=
  ⟨covers_makeDirs t.fs _ _, rfl⟩

theorem createParent_covers (t : Disk FileData) (calls : LinkCalls) (link : String) :
    Covers t.fs (createParent t calls link).1.fs ∧
      (createParent t calls link).1.cwd = t.cwd := by
  have hmade := createDirAll_covers t (parentOfPath (spelled link))
  unfold createParent
  dsimp only
  split
  · exact createDirAll_covers t _
  · split
    · next heq => rwa [heq] at hmade
    · next heq => rwa [heq] at hmade

/-- What is done before the link path is looked at only adds directories. -/
theorem LinkCall.clear (h : LinkCall t home force protectedPaths nanos entry ready p parent) :
    ∃ made backup, clearLinkPath made home { nanos := nanos } force protectedPaths entry =
        .ready ready backup ∧ Covers t.fs made.fs ∧ made.cwd = t.cwd := by
  obtain ⟨backup, hprepared⟩ := h.prepared
  have hcovers := createParent_covers t { nanos := nanos } (expandTilde home entry.link)
  unfold prepareLink at hprepared
  split at hprepared
  · cases hprepared
  split at hprepared
  · cases hprepared
  next made hmade =>
  rw [hmade] at hcovers
  exact ⟨made, backup, hprepared, hcovers⟩

/-- What a force replace has moved aside was where the link will be. -/
theorem Aside.at_place {made : Disk FileData} {calls : LinkCalls} {link : String}
    {q dst : Location} {e : Entry FileData} {b : BackupPath}
    (h : Aside made calls link protectedPaths q e b dst ready) (hfree : made.fs.lookup dst = none)
    (hp : EntryPath.parse link = some p) (hslash : p.slash = false)
    (hdir : ready.parentOf p = .ok parent) : q = parent ++ [p.last] := by
  have hnamed := h.named
  rw [made.lstat_of_entry hp hslash] at hnamed
  cases hparent : made.parentOf p with
  | error err =>
    rw [hparent] at hnamed
    cases hnamed
  | ok was =>
  rw [hparent] at hnamed
  dsimp only at hnamed
  cases hthere : made.fs.lookup (was ++ [p.last]) with
  | none =>
    rw [hthere] at hnamed
    cases hnamed
  | some old =>
  rw [hthere] at hnamed
  cases hnamed
  -- the backup is another name in the same directory
  obtain ⟨dir, hplace, hdst⟩ := BackupPath.place_eq_ok.mp h.place
  rw [h.dir, ← parentOf_eq hp, hparent] at hplace
  obtain rfl : was = dir := Except.ok.inj hplace
  subst hdst
  have hnone := made.closed.none_below_lookup (by simp) hfree
  have hcwd : ready.cwd = carriedTo (was ++ [p.last]) (was ++ [b.name]) made.cwd := by
    rcases Disk.renameAt_ok h.renamed with ⟨heq, -⟩ | ⟨-, hne, -, -, hcwd⟩
    · rw [heq, hfree] at hthere
      cases hthere
    · rw [hcwd, cwd_without (made.cwd_not_below hne hnone)]
  have hstart : (if p.absolute then [] else ready.cwd) =
      carriedTo (was ++ [p.last]) (was ++ [b.name]) (if p.absolute then [] else made.cwd) := by
    split
    · rw [carriedTo, if_neg (by simp)]
    · exact hcwd
  have hwalk := (resolveDir_eq_ok.mp hdir).1
  rw [hstart] at hwalk
  have hcarried := resolve_carried (Disk.lookup_renameAt h.renamed) hnone
    (resolveDir_eq_ok.mp hparent).1 hwalk
  have hout : ¬ was ++ [p.last] <+: was := by
    intro hpre
    have hlen := hpre.length_le
    rw [List.length_append, List.length_singleton] at hlen
    exact Nat.not_succ_le_self _ hlen
  rw [hcarried, carriedTo, if_neg hout]

/-- **Only what was at the link path is touched.** -/
theorem LinkCall.kept (h : LinkCall t home force protectedPaths nanos entry ready p parent)
    {x : Location} {e : Entry FileData} (hx : t.fs.lookup x = some e)
    (hout : ¬ parent ++ [p.last] <+: x) : ready.fs.lookup x = some e := by
  obtain ⟨made, backup, hclear, hcovers, -⟩ := h.clear
  have hx' := hcovers x e hx
  have hinspect : ({ nanos := nanos } : LinkCalls).inspect = false := rfl
  cases hnamed : made.lstat (expandTilde home entry.link) with
  | error err =>
    unfold clearLinkPath at hclear
    dsimp only at hclear
    rw [hnamed, if_neg Bool.false_ne_true] at hclear
    cases hclear
    exact hx'
  | ok found =>
    obtain ⟨q, old⟩ := found
    -- where the name was, which is where the link will be
    cases hlink : entryIsSymlink old with
    | true =>
      cases old with
      | dir => cases hlink
      | file data => cases hlink
      | special => cases hlink
      | symlink target =>
        obtain ⟨p', parent', hp', -, hparent', hq, -⟩ := made.entry_of_lstat_link hnamed
        obtain rfl : p = p' := Option.some.inj (h.parsed.symm.trans hp')
        rw [clearLinkPath_link hinspect hnamed] at hclear
        split at hclear
        · cases hclear
        split at hclear
        · cases hclear
        split at hclear
        · cases hclear
        next t' hunlink =>
        cases hclear
        obtain ⟨-, hfs, hcwd⟩ := Disk.unlinkAt_ok hunlink
        have hless : Covers ready.fs made.fs := by
          intro y e' hy
          rw [hfs] at hy
          by_cases heq : y = q
          · rw [heq, AList.lookup_erase] at hy
            cases hy
          · rwa [AList.lookup_erase_ne heq] at hy
        have hsame : made.parentOf p = .ok parent := by
          have hdir := h.dir
          unfold Disk.parentOf at hdir ⊢
          rw [hcwd] at hdir
          exact hless.resolveDir hdir
        obtain rfl : parent = parent' := Except.ok.inj (hsame.symm.trans hparent')
        rw [hfs, AList.lookup_erase_ne, hx']
        rintro rfl
        exact hout (hq ▸ List.prefix_refl _)
    | false =>
      rw [clearLinkPath_noLink hinspect hnamed hlink] at hclear
      split at hclear
      · rcases @moveAside_cases made { nanos := nanos } protectedPaths q old
            (expandTilde home entry.link) hnamed hlink with ⟨result, hstop⟩ | ⟨b, dst, t₁, haside⟩
        · rw [hstop] at hclear
          cases hclear
        · rw [moveAside_ready haside] at hclear
          cases hclear
          have hfree := haside.free fun _ => rfl
          obtain ⟨_, _, hdst⟩ := BackupPath.place_eq_ok.mp haside.place
          have hnone := made.closed.none_below_lookup (by simp [hdst]) hfree
          have hq := haside.at_place hfree h.parsed h.slash h.dir
          rw [Disk.lookup_renameAt_other haside.renamed (hq ▸ hout), hx']
          rintro ⟨rel, rfl⟩
          rw [hnone] at hx'
          cases hx'
      · cases hclear

/-! ## What the evaluation sees -/

theorem resolve_of_canonicalize {text : String} {q : Location} (h : t.canonicalize text = .ok q) :
    resolve t.fs maxLinks ((spelled text).start t.cwd) (spelled text).parts = .ok q := by
  unfold Disk.canonicalize FileTree.canonicalize at h
  split at h
  · cases h
  · next sp hsp => rwa [spelled_of_parse hsp]

theorem canonicalize_of_resolve {text : String} {q : Location} {sp : Spelled}
    (hsp : Spelled.parse text = some sp)
    (h : resolve t.fs maxLinks ((spelled text).start t.cwd) (spelled text).parts = .ok q) :
    t.canonicalize text = .ok q := by
  rw [spelled_of_parse hsp] at h
  unfold Disk.canonicalize FileTree.canonicalize
  rw [hsp]
  exact h

theorem exists_parse {text : String} {q : Location} (h : t.canonicalize text = .ok q) :
    ∃ sp, Spelled.parse text = some sp := by
  unfold Disk.canonicalize FileTree.canonicalize at h
  split at h
  · cases h
  · next sp hsp => exact ⟨sp, hsp⟩

theorem normalizePath_of_resolve {sp : Spelled} {q : Location}
    (h : resolve t.fs maxLinks (sp.start t.cwd) sp.parts = .ok q) :
    normalizePath t false sp = { absolute := true, parts := q } := by
  unfold normalizePath
  rw [if_neg Bool.false_ne_true, h]

/-- **In sync**: the target is there, and the link's own text comes to the same normal form. -/
theorem evaluateLink_inSync {q : Location} {actual : Spelled}
    (hnamed : t.lstat (expandTilde home entry.link) = .ok (q, .symlink actual)) :
    (evaluateLink t home {} entry).inSync = true ↔
      ∃ r, t.canonicalize (expandTilde home entry.target) = .ok r ∧
        normalizePath t false
          (joinPath (parentOfPath (spelled (expandTilde home entry.link))) actual) =
            { absolute := true, parts := r } := by
  have hissue : (evaluateLink t home {} entry).inSync = true ↔
      evaluateIssue t {} (expandTilde home entry.link) (expandTilde home entry.target)
        (pathExists t (expandTilde home entry.target)) (some (.symlink actual)) = .ok := by
    unfold evaluateLink
    dsimp only
    rw [decide_eq_true_iff, hnamed]
    exact Iff.rfl
  rw [hissue]
  unfold evaluateIssue
  dsimp only
  rw [if_neg Bool.false_ne_true]
  cases htarget : t.canonicalize (expandTilde home entry.target) with
  | error err =>
    simp [pathExists, htarget, Except.toOption]
  | ok r =>
    rw [normalizePath_of_resolve (resolve_of_canonicalize htarget)]
    simp [pathExists, htarget, Except.toOption]

/-! ## With the link in place -/

/-- Where the link is made, seen from the disk that has it. -/
theorem LinkCall.onward (h : LinkCall t home force protectedPaths nanos entry ready p parent)
    {fs' : Fs FileData} (hcovers : Covers ready.fs fs') {toLink : Nat}
    (hwalk : resolve ready.fs toLink (if p.absolute then [] else ready.cwd) p.dir = .ok parent) :
    ∃ used, used ≤ toLink ∧
      resolve ready.fs used (if p.absolute then [] else ready.cwd) p.dir = .ok parent ∧
      ∀ extra ys, resolve fs' (used + extra) (if p.absolute then [] else ready.cwd) (p.dir ++ ys) =
        resolve fs' extra parent ys := by
  have hdir := (resolveDir_eq_ok.mp h.dir).2
  obtain ⟨used, hle, hgo⟩ := resolve_onward hwalk hdir
  refine ⟨used, hle, ?_, hgo fs' hcovers⟩
  have hself := hgo ready.fs (Covers.refl ready.fs) 0 []
  rwa [List.append_nil, resolve_nil] at hself

variable {after : Disk FileData}

/-- The disk after the link was made. -/
structure LinkDone (ready after : Disk FileData) (p : EntryPath) (parent : Location)
    (target : Spelled) : Prop where
  fs : after.fs = ready.fs.insert (parent ++ [p.last]) (.symlink target)
  cwd : after.cwd = ready.cwd

theorem LinkCall.covers (h : LinkCall t home force protectedPaths nanos entry ready p parent)
    {target : Spelled} (hdone : LinkDone ready after p parent target) :
    Covers ready.fs after.fs := by
  rw [hdone.fs]
  exact covers_insert h.free

theorem LinkCall.lstat (h : LinkCall t home force protectedPaths nanos entry ready p parent)
    {target : Spelled} (hdone : LinkDone ready after p parent target) :
    after.lstat (expandTilde home entry.link) = .ok (parent ++ [p.last], .symlink target) := by
  have hdir : after.parentOf p = .ok parent := by
    have hready := h.dir
    unfold Disk.parentOf at hready ⊢
    rw [hdone.cwd]
    exact (h.covers hdone).resolveDir hready
  rw [after.lstat_of_entry h.parsed h.slash, hdir]
  dsimp only
  rw [hdone.fs, AList.lookup_insert]

theorem spelled_entry {text : String} {p : EntryPath} (hp : EntryPath.parse text = some p)
    (hslash : p.slash = false) :
    spelled text = { absolute := p.absolute, parts := p.dir ++ [p.last] } := by
  rw [spelled_of_parse (EntryPath.parse_spelled hp), EntryPath.spelled, hslash]
  simp

/-- Following the link: the way to it, the link, and what its text says from there. -/
theorem LinkCall.canonicalize_iff
    (h : LinkCall t home force protectedPaths nanos entry ready p parent) {target : Spelled}
    (hdone : LinkDone ready after p parent target) {q : Location} :
    after.canonicalize (expandTilde home entry.link) = .ok q ↔
      ∃ toLink beyond, toLink + beyond + 1 = maxLinks ∧
        resolve ready.fs toLink (if p.absolute then [] else ready.cwd) p.dir = .ok parent ∧
        resolve ready.fs beyond (target.start parent) target.parts = .ok q := by
  have hlink : after.fs.lookup (parent ++ [p.last]) = some (.symlink target) := by
    rw [hdone.fs, AList.lookup_insert]
  have hstart : (spelled (expandTilde home entry.link)).start after.cwd =
      if p.absolute then [] else ready.cwd := by
    rw [spelled_entry h.parsed h.slash, hdone.cwd]
    rfl
  have hparts : (spelled (expandTilde home entry.link)).parts = p.dir ++ [p.last] := by
    rw [spelled_entry h.parsed h.slash]
  constructor
  · intro hq
    have hwalk := resolve_of_canonicalize hq
    rw [hstart, hparts] at hwalk
    obtain ⟨used, hle, hself, hgo⟩ := h.onward (h.covers hdone) (resolveDir_eq_ok.mp h.dir).1
    have hlast := hgo (maxLinks - used) [p.last]
    rw [Nat.add_sub_cancel' hle, hwalk] at hlast
    cases hleft : maxLinks - used with
    | zero =>
      rw [hleft, resolve_exhausted [] p.plain hlink] at hlast
      cases hlast
    | succ beyond =>
      rw [hleft, resolve_through [] p.plain hlink, List.append_nil, hdone.fs] at hlast
      exact ⟨used, beyond, by omega, hself, resolve_link_free rfl hlast.symm⟩
  · rintro ⟨toLink, beyond, hsum, hdir, htarget⟩
    obtain ⟨used, hle, -, hgo⟩ := h.onward (h.covers hdone) hdir
    obtain ⟨sp, hsp⟩ : ∃ sp, Spelled.parse (expandTilde home entry.link) = some sp :=
      ⟨_, EntryPath.parse_spelled h.parsed⟩
    refine canonicalize_of_resolve hsp ?_
    have hlast := hgo (toLink - used + beyond + 1) [p.last]
    have hall : used + (toLink - used + beyond + 1) = maxLinks := by omega
    rw [hall, resolve_through [] p.plain hlink, List.append_nil] at hlast
    rw [hstart, hparts, hlast]
    exact (h.covers hdone).resolve (Nat.le_add_left beyond _) htarget

/-- What the link's text comes to as `evaluate_link` reads it. -/
theorem LinkCall.normalize_actual
    (h : LinkCall t home force protectedPaths nanos entry ready p parent) {target : Spelled}
    (hdone : LinkDone ready after p parent target) {q : Location} {toLink beyond : Nat}
    (hsum : toLink + beyond + 1 = maxLinks)
    (hdir : resolve ready.fs toLink (if p.absolute then [] else ready.cwd) p.dir = .ok parent)
    (htarget : resolve ready.fs beyond (target.start parent) target.parts = .ok q) :
    normalizePath after false
      (joinPath (parentOfPath (spelled (expandTilde home entry.link))) target) =
        { absolute := true, parts := q } := by
  refine normalizePath_of_resolve ?_
  rw [parentOfPath_of_entry h.parsed]
  unfold joinPath
  by_cases habsolute : target.absolute = true
  · rw [if_pos habsolute]
    rw [Spelled.start, if_pos habsolute] at htarget ⊢
    exact (h.covers hdone).resolve (by omega) htarget
  · rw [if_neg habsolute]
    rw [Spelled.start, if_neg habsolute] at htarget
    obtain ⟨used, hle, -, hgo⟩ := h.onward (h.covers hdone) hdir
    have hwalk := hgo (maxLinks - used) target.parts
    have hall : used + (maxLinks - used) = maxLinks := by omega
    rw [hall] at hwalk
    unfold Spelled.start
    dsimp only
    rw [hdone.cwd, hwalk]
    exact (h.covers hdone).resolve (by omega) htarget

/-- A link that is in sync is left alone. -/
theorem applyOneLink_inSync {q : Location} {target : Spelled}
    (hnamed : t.lstat (expandTilde home entry.link) = .ok (q, .symlink target))
    (hsync : (evaluateLink t home {} entry).inSync = true) (later : Nat) :
    (applyOneLink t home { nanos := later } force protectedPaths entry).disk = t := by
  have hdirs : ({ nanos := later } : LinkCalls).createDirs = none := rfl
  have hinspect : ({ nanos := later } : LinkCalls).inspect = false := rfl
  obtain ⟨hdisk, hok⟩ := createParent_of_lstat hnamed { nanos := later }
  have hmade : createParent t { nanos := later } (expandTilde home entry.link) = (t, .ok ()) :=
    Prod.ext hdisk (hok hdirs)
  unfold applyOneLink prepareLink
  split
  · next t' result heq =>
    split at heq
    · cases heq
      rfl
    · rw [hmade] at heq
      dsimp only at heq
      rw [clearLinkPath_link hinspect hnamed, if_pos hsync] at heq
      cases heq
      rfl
  · next t' backup heq =>
    split at heq
    · cases heq
    · rw [hmade] at heq
      dsimp only at heq
      rw [clearLinkPath_link hinspect hnamed, if_pos hsync] at heq
      cases heq

end Made

/-- **When link apply converges**: exactly when the target reads the same where the link is made
as it did from the working directory. -/
theorem linkConverges_iff (t : Disk FileData) (home : Option String) (force : Bool)
    (protectedPaths : List String) (nanos : Nat) (entry : LinkEntry) :
    LinkConverges t home force protectedPaths nanos entry ↔
      LinkReadsBack t home force protectedPaths nanos entry := by
  constructor
  · intro hconverges ready p parent q hcall hq
    obtain ⟨hcreated, hfs, hcwd⟩ := hcall.run
    have hdone : LinkDone ready (linkOnce t home force protectedPaths nanos entry).disk p parent
        (spelled (expandTilde home entry.target)) := ⟨hfs, hcwd⟩
    obtain ⟨hsync, hlink, -, -⟩ := hconverges (linkOnce_created.mpr hcreated) q hq
    have hreads := (hcall.canonicalize_iff hdone).mp hlink
    refine ⟨hreads, fun hrelative => ?_⟩
    obtain ⟨toLink, beyond, hsum, hdir, htarget⟩ := hreads
    obtain ⟨r, hr, hsame⟩ := (evaluateLink_inSync (hcall.lstat hdone)).mp hsync
    rw [hcall.normalize_actual hdone hsum hdir htarget] at hsame
    obtain rfl : q = r := congrArg Spelled.parts hsame
    have hwalk := resolve_of_canonicalize hr
    rwa [Spelled.start, if_neg (by simp [hrelative]), hdone.cwd, hdone.fs] at hwalk
  · intro hreads hcreated q hq
    obtain ⟨ready, p, parent, hcall⟩ := exists_linkCall (linkOnce_created.mp hcreated)
    obtain ⟨-, hfs, hcwd⟩ := hcall.run
    have hdone : LinkDone ready (linkOnce t home force protectedPaths nanos entry).disk p parent
        (spelled (expandTilde home entry.target)) := ⟨hfs, hcwd⟩
    obtain ⟨hwhole, hrelative⟩ := hreads ready p parent q hcall hq
    have hlink := (hcall.canonicalize_iff hdone).mpr hwhole
    have hnamed := hcall.lstat hdone
    obtain ⟨toLink, beyond, hsum, hdir, htarget⟩ := hwhole
    -- the target, from the working directory
    have hthere : (linkOnce t home force protectedPaths nanos entry).disk.canonicalize
        (expandTilde home entry.target) = .ok q := by
      obtain ⟨sp, hsp⟩ := exists_parse hq
      refine canonicalize_of_resolve hsp ?_
      by_cases habsolute : (spelled (expandTilde home entry.target)).absolute = true
      · rw [Spelled.start, if_pos habsolute] at htarget ⊢
        exact (hcall.covers hdone).resolve (by omega) htarget
      · rw [Spelled.start, if_neg habsolute, hdone.cwd, hdone.fs]
        exact hrelative (by simpa using habsolute)
    have hsync := (evaluateLink_inSync hnamed).mpr
      ⟨q, hthere, hcall.normalize_actual hdone hsum hdir htarget⟩
    refine ⟨hsync, hlink, fun place link hplace rel e he hout => ?_, fun later => ?_⟩
    · obtain ⟨rfl, -⟩ := Prod.mk.inj (Except.ok.inj (hnamed.symm.trans hplace))
      exact hcall.covers hdone _ _ (hcall.kept he hout)
    · rw [linkOnce_disk]
      exact applyOneLink_inSync hnamed hsync later

/-- Every entry of a report is in sync or has drifted. -/
theorem buildLinkReport_total (t : Disk FileData) (home : Option String)
    (faults : LinkEntry → EvaluateFaults) (entries extra : List LinkEntry) :
    let report := buildLinkReportWith t home faults entries extra
    report.healthy + report.drifted = report.total ∧ report.total = (entries ++ extra).length := by
  unfold buildLinkReportWith
  dsimp only
  constructor
  · rw [List.length_eq_countP_add_countP fun s : LinkStatus => decide (s.issue = .ok)]
    simp
  · rw [List.length_map]

/-! ## A relative target, and a link to itself -/

def confName : Name := ⟨"conf", by decide⟩

def dirName : Name := ⟨"d", by decide⟩

/-- `/d` and `/conf`. -/
def confTree : Disk FileData where
  fs := ((∅ : Fs FileData).insert [confName] .dir).insert [dirName] .dir
  closed := closed_of_keys (by decide)
  cwd := []
  cwd_dir := rfl

/-- A relative target is there from the working directory, and not from the link's directory. A
target at the link path is renamed away before the link to it is made. -/
theorem relative_and_own_target_drift :
    ¬ LinkConverges confTree none false [] 0 ⟨"/d/conf", "conf"⟩ ∧
      ¬ LinkConverges confTree none true [] 0 ⟨"/conf", "/conf"⟩ := by
  constructor
  · intro h
    obtain ⟨hsync, -⟩ := h (linkOnce_created.mpr (by decide +kernel)) [confName] (by rfl)
    revert hsync
    decide +kernel
  · intro h
    obtain ⟨hsync, -⟩ := h (linkOnce_created.mpr (by decide +kernel)) [confName] (by rfl)
    revert hsync
    decide +kernel

end DraconGuard
