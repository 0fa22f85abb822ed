import DraconGuard.Clean.TmpGates

/-!
# The machine without some entries

What a sweep that removes leaves for its later turns is the machine it began on, less the entries
gone so far, with the directories that lost one modified since (`TmpHost.dropAll`). A turn for an
entry with nothing of it gone sees what it would have seen at the beginning (`sameAt_dropAll`); one
for an entry that has lost something sees a fresh tree (`fresh_of_lost`).
-/

namespace DraconGuard

open FileTree (Disk Location Name Entry entryAt walk walkDir below)

variable {δ : Type}

/-- Below one of the locations, or one of them. -/
def inside (gone : List Location) (p : Location) : Bool := gone.any (·.isPrefixOf p)

theorem inside_iff {gone : List Location} {p : Location} :
    inside gone p = true ↔ ∃ q ∈ gone, q <+: p := by
  simp [inside]

theorem inside_append {gone gone' : List Location} {p : Location} :
    inside (gone ++ gone') p = (inside gone p || inside gone' p) := List.any_append

/-- The machine without the entries, removed one after the other. -/
def TmpHost.dropAll (host : TmpHost δ) (stamp : Location → SystemTime) (gone : List Location) :
    TmpHost δ :=
  gone.foldl (fun t q => t.drop stamp q none) host

section DropAll

variable {host : TmpHost δ} {stamp : Location → SystemTime}

theorem dropAll_concat (gone : List Location) (q : Location) :
    host.dropAll stamp (gone ++ [q]) = (host.dropAll stamp gone).drop stamp q none := by
  simp [TmpHost.dropAll]

variable (host stamp) in
/-- What does not change. -/
theorem dropAll_rest (gone : List Location) :
    (host.dropAll stamp gone).scan = host.scan ∧ (host.dropAll stamp gone).len = host.len ∧
      (host.dropAll stamp gone).sockets = host.sockets ∧
      (host.dropAll stamp gone).removal = host.removal := by
  induction gone generalizing host with
  | nil => exact ⟨rfl, rfl, rfl, rfl⟩
  | cons q gone ih => exact @ih (host.drop stamp q none)

theorem dropAll_reading (gone : List Location) (r : TmpReading) :
    (host.dropAll stamp gone).reading r = (host.reading r).dropAll stamp gone := by
  induction gone generalizing host with
  | nil => rfl
  | cons q gone ih => exact @ih (host.drop stamp q none)

theorem entries_dropAll (gone : List Location) :
    (host.dropAll stamp gone).fs.entries =
      host.fs.entries.filter fun e => !inside gone e.1 := by
  induction gone generalizing host with
  | nil => simp [TmpHost.dropAll, inside]
  | cons q gone ih =>
    have hone : (host.drop stamp q none).fs.entries =
        host.fs.entries.filter fun e => !(q.isPrefixOf e.1) := rfl
    refine (@ih (host.drop stamp q none)).trans ?_
    rw [hone, List.filter_filter]
    refine List.filter_congr fun e _ => ?_
    simp [inside, Bool.and_comm]

theorem lookup_dropAll (gone : List Location) (p : Location) :
    (host.dropAll stamp gone).fs.lookup p =
      if inside gone p then none else host.fs.lookup p := by
  induction gone generalizing host with
  | nil => rfl
  | cons q gone ih =>
    have hone : (host.drop stamp q none).fs.lookup p =
        if q <+: p then none else host.fs.lookup p := FileTree.lookup_removeSubtree host.fs p q
    refine (@ih (host.drop stamp q none)).trans ?_
    rw [hone]
    by_cases hq : q <+: p
    · simp [inside, hq]
    · have hq' : q.isPrefixOf p = false := by
        rwa [Bool.eq_false_iff, Ne, List.isPrefixOf_iff_prefix]
      simp [inside, hq, hq']

theorem mtime_dropAll_other {gone : List Location} {p : Location}
    (h : ∀ q ∈ gone, q.dropLast ≠ p) : (host.dropAll stamp gone).mtime p = host.mtime p := by
  induction gone generalizing host with
  | nil => rfl
  | cons q gone ih =>
    have hone : (host.drop stamp q none).mtime p = host.mtime p := by
      have hne : q.dropLast ≠ p := h q List.mem_cons_self
      simp [TmpHost.drop, hne]
    exact (ih fun r hr => h r (List.mem_cons_of_mem q hr)).trans hone

theorem mtime_dropAll_parent {gone : List Location} {q : Location} (h : q ∈ gone) :
    (host.dropAll stamp gone).mtime q.dropLast = some (stamp q.dropLast) := by
  induction gone using List.reverseRecOn with
  | nil => cases h
  | append_singleton gone r ih =>
    rw [dropAll_concat]
    unfold TmpHost.drop
    dsimp only
    split
    · rfl
    · next hne =>
      rcases List.mem_append.mp h with hin | hin
      · exact ih hin
      · obtain rfl := List.mem_singleton.mp hin
        simp at hne

end DropAll

/-! ## An entry with nothing of it gone -/

/-- All that a turn reads of its entry. -/
structure SameAt (t t' : TmpHost δ) (path : Location) : Prop where
  data : t'.symlinkMetadata path = t.symlinkMetadata path
  mtime : t'.mtime path = t.mtime path
  fresh : ∀ cutoff, treeHasFreshContent t' path cutoff = treeHasFreshContent t path cutoff
  size : ∀ e, t'.entrySize path e = t.entrySize path e

section Whole

variable {host : TmpHost δ} {stamp : Location → SystemTime} {gone : List Location}

theorem walk_dropAll {root : Location} (h : ∀ rel, inside gone (root ++ rel) = false) :
    walk (host.dropAll stamp gone).fs root = walk host.fs root := by
  unfold walk
  rw [entries_dropAll, List.filterMap_filter]
  refine List.filterMap_congr fun e _ => ?_
  cases hbelow : below root e.1 with
  | none => simp
  | some rel => simp [FileTree.below_eq_some.mp hbelow, h rel]

theorem sameAt_dropAll {root : Location} {n : Name} {e : Entry δ}
    (hentry : host.fs.lookup (root ++ [n]) = some e) (habove : inside gone (root ++ [n]) = false)
    (hbelow : ∀ q ∈ gone, ¬ root ++ [n] <+: q) :
    SameAt host (host.dropAll stamp gone) (root ++ [n]) := by
  have hout : ∀ rel, inside gone (root ++ [n] ++ rel) = false := by
    intro rel
    rw [Bool.eq_false_iff, Ne, inside_iff]
    rintro ⟨q, hq, hpre⟩
    rcases List.prefix_or_prefix_of_prefix hpre (List.prefix_append (root ++ [n]) rel) with hle | hle
    · have hin : inside gone (root ++ [n]) = true := inside_iff.mpr ⟨q, hq, hle⟩
      rw [habove] at hin
      cases hin
    · exact hbelow q hq hle
  have hmtime : ∀ rel, (host.dropAll stamp gone).mtime (root ++ [n] ++ rel) =
      host.mtime (root ++ [n] ++ rel) := by
    refine fun rel => mtime_dropAll_other fun q hq heq => hbelow q hq ?_
    exact (heq ▸ List.prefix_append (root ++ [n]) rel).trans (List.dropLast_prefix q)
  obtain ⟨hscan, hlen, -, -⟩ := dropAll_rest host stamp gone
  have hwalk : walkDir (host.dropAll stamp gone).fs (host.dropAll stamp gone).scan none
      (root ++ [n]) = walkDir host.fs host.scan none (root ++ [n]) := by
    unfold walkDir
    rw [walk_dropAll hout, hscan]
  have hself : ∀ p : Location → Prop, (∀ rel, p (root ++ [n] ++ rel)) → p (root ++ [n]) := by
    intro p hp
    have hnil := hp []
    rwa [List.append_nil] at hnil
  refine ⟨?_, ?_, fun cutoff => ?_, fun e => ?_⟩
  · have hlook : (host.dropAll stamp gone).fs.lookup (root ++ [n]) = some e := by
      rw [lookup_dropAll, habove, hentry]
      rfl
    unfold TmpHost.symlinkMetadata
    rw [host.lstat_render hentry, (host.dropAll stamp gone).lstat_render hlook, hscan]
  · exact hself (fun p => (host.dropAll stamp gone).mtime p = host.mtime p) hmtime
  · unfold treeHasFreshContent
    rw [hwalk]
    congr 1
    funext item
    cases item with
    | failed rel => rfl
    | entry rel e => cases e <;> simp only [freshItem, hmtime]
  · unfold TmpHost.entrySize FileTree.dirSize
    rw [hwalk, hlen]

end Whole

/-! ## An entry that has lost something -/

/-- A directory in the tree that is younger than the cutoff makes the tree fresh, or is not come
to, which makes it fresh as well. -/
theorem fresh_of_young_dir {host : TmpHost δ} {dir rel : Location} {modified : SystemTime}
    {cutoff : Int} (hne : dir ≠ []) (hdir : host.fs.lookup (dir ++ rel) = some .dir)
    (hmtime : host.mtime (dir ++ rel) = some modified) (hlate : cutoff < modified.nanos) :
    treeHasFreshContent host dir cutoff = true := by
  have hfailed : ∀ k, host.fs.lookup (dir ++ k) = some .dir → ∀ about,
      .failed about ∈ FileTree.itemsAt host.scan none dir (k, Entry.dir (δ := δ)) →
        treeHasFreshContent host dir cutoff = true := by
    intro k hk about hitem
    exact List.any_eq_true.mpr
      ⟨.failed about, FileTree.mem_walkDir.mpr ⟨k, .dir, hk, hitem⟩, rfl⟩
  rcases host.closed.reaches_or_stops host.scan (by rw [hdir]; rfl : (host.fs.lookup
    (dir ++ rel)).isSome) with hreach | ⟨k, n, -, hreach, hkdir, hstop⟩
  · cases huntyped : host.scan.untyped (dir ++ rel) with
    | true => exact hfailed rel hdir (some rel) (FileTree.failed_mem_itemsAt hreach rfl huntyped)
    | false =>
      refine List.any_eq_true.mpr ⟨.entry rel .dir, FileTree.mem_walkDir.mpr
        ⟨rel, .dir, hdir, FileTree.entry_mem_itemsAt hreach rfl huntyped⟩, ?_⟩
      simp [freshItem, hmtime, hlate]
  · have hk : host.fs.lookup (dir ++ k) = some .dir := by
      rwa [entryAt, if_neg (by simp [hne])] at hkdir
    cases huntyped : host.scan.untyped (dir ++ k) with
    | true => exact hfailed k hk (some k) (FileTree.failed_mem_itemsAt hreach rfl huntyped)
    | false =>
      have herror : ∃ about, (.failed about : FileTree.WalkItem δ) ∈
          FileTree.listingErrors k (host.scan.listing (dir ++ k)) := by
        cases hl : host.scan.listing (dir ++ k) with
        | whole => exact absurd ⟨huntyped, hl⟩ hstop
        | closed => exact ⟨some k, List.mem_singleton_self _⟩
        | cut shown => exact ⟨none, List.mem_singleton_self _⟩
      obtain ⟨about, hmem⟩ := herror
      exact hfailed k hk about (FileTree.error_mem_itemsAt hreach rfl huntyped hmem)

/-- What has lost an entry is fresh, where nothing above that entry is gone. -/
theorem fresh_of_lost {host : TmpHost δ} {stamp : Location → SystemTime} {gone : List Location}
    {path q : Location} {cutoff : Int} (hpath : path ≠ []) (hgone : q ∈ gone)
    (hbelow : path <+: q.dropLast) (hdir : host.fs.lookup q.dropLast = some .dir)
    (hthere : inside gone q.dropLast = false) (hlate : cutoff < (stamp q.dropLast).nanos) :
    treeHasFreshContent (host.dropAll stamp gone) path cutoff = true := by
  have hmtime : (host.dropAll stamp gone).mtime q.dropLast = some (stamp q.dropLast) :=
    mtime_dropAll_parent hgone
  obtain ⟨rel, hrel⟩ := hbelow
  rw [← hrel] at hdir hthere hmtime hlate
  refine fresh_of_young_dir hpath ?_ hmtime hlate
  rw [lookup_dropAll, hthere, hdir]
  rfl

end DraconGuard
