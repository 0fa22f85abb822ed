import DraconGuard.Clean.Restore
import DraconGuard.Clean.StashLaw

/-!
# The stash round trip

A move that succeeds leaves the tree in the entry, with a manifest; a restore that succeeds
brings it home. `stash_roundTrip` composes the two. A transport that copies leaves special files
behind, and the manifest stays where its removal fails.
-/

namespace DraconGuard

open FileTree

/-! ## The text of an entry name -/

theorem isUtf8_toString (n : Nat) : Utf8.isUtf8 (toString n).toList = true := by
  rw [Text.toList_toString]
  refine Utf8.isUtf8_of_single fun c hc => ?_
  have hdigit := Nat.isDigit_of_mem_toDigits (b := 10) (n := n) (by decide) (by decide) hc
  simp only [Char.isDigit, Bool.and_eq_true, decide_eq_true_eq] at hdigit
  have hle : c.toNat ≤ 57 := hdigit.2
  simp only [Utf8.single, Bool.or_eq_true, decide_eq_true_eq]
  omega

theorem backupCandidate_isUtf8 {base : Name} (h : base.isUtf8 = true) (k : Nat) :
    (backupCandidate base k).isUtf8 = true := by
  cases k with
  | zero => exact h
  | succ k =>
    simp only [Name.isUtf8, backupCandidate, backupName, String.toList_append]
    exact Utf8.isUtf8_append (Utf8.isUtf8_append h (by decide)) (isUtf8_toString (k + 1))

theorem uniqueBackupPath_isUtf8 (fs : Fs FileData) (dir : Location) {base : Name}
    (h : base.isUtf8 = true) : (uniqueBackupPath fs dir base).isUtf8 = true := by
  unfold uniqueBackupPath
  dsimp only
  cases hfind : ((List.range (fs.keys.length + 1)).map (backupCandidate base)).find? fun n =>
      (fs.lookup (dir ++ [n])).isNone with
  | none => exact h
  | some n =>
    obtain ⟨k, -, rfl⟩ := List.mem_map.mp (List.mem_of_find?_eq_some hfind)
    exact backupCandidate_isUtf8 h k

/-- An entry is named by a text. -/
theorem entryNameFor_isUtf8 (fs : Fs FileData) (root origin : Location) (clock : StashClock) :
    (entryNameFor fs root origin clock).isUtf8 = true := by
  have hbase : ∀ {base : Name}, base.isUtf8 = true → (entryBase base clock.nanos).isUtf8 = true := by
    intro base hbase
    simp only [Name.isUtf8, entryBase, String.toList_append]
    exact Utf8.isUtf8_append (Utf8.isUtf8_append hbase (by decide)) (isUtf8_toString clock.nanos)
  refine uniqueBackupPath_isUtf8 fs root (hbase ?_)
  cases origin.getLast? with
  | none => decide
  | some n => exact Name.isUtf8_lossy n

/-- The checks name the entry after the origin. -/
theorem stashPreflight_entryName {t : Disk FileData} {faults : MoveFaults} {clock : StashClock}
    {origin root : String} {userProtected : List String} {fs : Fs FileData} {p : Prepared}
    (h : stashPreflight t faults clock origin root userProtected = (fs, .ok p)) :
    p.entryName = entryNameFor fs p.root p.origin clock := by
  unfold stashPreflight at h
  split at h
  · cases h
  split at h
  · cases h
  · cases h
  · split at h
    · cases h
    dsimp only at h
    split at h
    · cases h
    split at h
    · cases h
    split at h
    · cases h
    split at h
    · cases h
    split at h
    · cases h
    split at h
    · cases h
    split at h
    · cases h
    cases h
    rfl
  · cases h

/-! ## After the move -/

/-- What a move that succeeded leaves: the tree in the entry beside its manifest, nothing at the
origin, and everything else as it was. -/
structure Moved (faults : MoveFaults) (fs : Fs FileData) (p : Prepared) (m : StashManifest)
    (length : Nat) (moved : Fs FileData) : Prop where
  manifest : moved.lookup (p.entry ++ [manifestName]) = some (.file (.manifest m length))
  tree : ∀ rel, rel ≠ [manifestName] → moved.lookup (p.entry ++ rel) =
    (fs.lookup (p.origin ++ rel)).filter (carries faults)
  unreserved : fs.lookup (p.origin ++ [manifestName]) = none
  origin_gone : ∀ rel, moved.lookup (p.origin ++ rel) = none
  other : ∀ q, ¬ p.entry <+: q → ¬ p.origin <+: q → moved.lookup q = fs.lookup q

theorem completeMove_ok {t : Disk FileData} {origin : String} {fs : Fs FileData} {p : Prepared}
    (h : StashReady t origin fs p) {faults : MoveFaults} {clock : StashClock}
    {jsonLength : StashManifest → Nat} {auto : Bool} {m : StashManifest}
    (hok : (completeMove faults clock jsonLength auto p fs).result = .ok m) :
    m = { name := p.entryName.lossy.text, origin := display p.origin, movedAtUnix := clock.unix,
          bytes := p.bytes, files := p.files, auto := auto } ∧
      Moved faults fs p m (jsonLength m) (completeMove faults clock jsonLength auto p fs).fs := by
  have hnot : ∀ {after : Fs FileData} {e : String},
      moveIntoEntry faults p fs ≠ (after, .error e) := by
    intro after e hmove
    rw [completeMove_failed clock jsonLength auto hmove] at hok
    cases hok
  have hcarried : Carried faults fs p := by
    by_contra hcarried
    obtain ⟨hrename, hrest⟩ := not_or.mp hcarried
    have hrename' : faults.rename = true := by simpa using hrename
    by_cases hsound : CopySound faults fs p
    · cases hremove : faults.removeOrigin with
      | none => exact hrest ⟨hsound, hremove⟩
      | some gone =>
        obtain ⟨after, hmove, -⟩ := moveIntoEntry_stopped h hrename' hsound hremove
        exact hnot hmove
    · obtain ⟨after, e, hmove, -⟩ := moveIntoEntry_uncopied h hrename' hsound
      exact hnot hmove
  obtain ⟨after, hmove, hin, hgone⟩ := moveIntoEntry_carried h hcarried
  unfold completeMove at hok ⊢
  rw [hmove] at hok ⊢
  dsimp only at hok ⊢
  by_cases hpublish : PublishFails faults fs p
  · obtain ⟨e, herr⟩ := publishManifest_error h hin hpublish _ _
    rw [herr] at hok
    cases hok
  · rw [publishManifest_ok h hin hpublish] at hok ⊢
    obtain rfl := Except.ok.inj hok
    refine ⟨rfl, ?_⟩
    have hne : ∀ {q}, ¬ p.entry <+: q → q ≠ p.entry ++ [manifestName] := fun hq heq =>
      hq (heq ▸ List.prefix_append p.entry [manifestName])
    constructor
    case manifest => exact AList.lookup_insert _
    case tree =>
      intro rel hrel
      have hrel' : p.entry ++ rel ≠ p.entry ++ [manifestName] := by simpa using hrel
      exact (AList.lookup_insert_ne hrel').trans (hin.entry rel)
    case unreserved => simpa using (not_or.mp hpublish).2
    case origin_gone =>
      intro rel
      exact (AList.lookup_insert_ne (hne (h.entry_apart.not_prefix_append rel))).trans (hgone rel)
    case other =>
      intro q hentry horigin
      exact (AList.lookup_insert_ne (hne hentry)).trans (hin.other q hentry horigin)

/-! ## After the restore -/

section Home

variable {t : Disk FileData} {origin : String} {fs moved : Fs FileData} {p : Prepared}
  {faults : MoveFaults} {m : StashManifest} {length : Nat} {rfaults : RestoreFaults}

/-- What the two ways together carry: a copy on either leaves special files behind. -/
def carriesHome (faults : MoveFaults) (rfaults : RestoreFaults) (e : Entry FileData) : Bool :=
  !((faults.rename || rfaults.rename) && e = .special)

/-- The tree is home, and nothing is left of the entry. -/
structure Home (faults : MoveFaults) (rfaults : RestoreFaults) (fs : Fs FileData)
    (origin entry : Location) (manifest : Entry FileData) (after : Fs FileData) : Prop where
  tree : ∀ rel, rel ≠ [manifestName] → after.lookup (origin ++ rel) =
    (fs.lookup (origin ++ rel)).filter (carriesHome faults rfaults)
  manifest : after.lookup (origin ++ [manifestName]) =
    if rfaults.removeManifest then some manifest else none
  entry_gone : ∀ rel, after.lookup (entry ++ rel) = none

theorem lookup_dropManifest {rel : Location} (after : Fs FileData) (hrel : rel ≠ [manifestName])
    (q : Location) : (dropManifest rfaults q after).lookup (q ++ rel) = after.lookup (q ++ rel) := by
  unfold dropManifest
  split
  · rfl
  · exact AList.lookup_erase_ne (by simpa using hrel)

theorem lookup_dropManifest_self (after : Fs FileData) (q : Location) :
    (dropManifest rfaults q after).lookup (q ++ [manifestName]) =
      if rfaults.removeManifest then after.lookup (q ++ [manifestName]) else none := by
  unfold dropManifest
  split
  · rfl
  · exact AList.lookup_erase _ _

theorem lookup_dropManifest_other {q q' : Location} (after : Fs FileData) (h : ¬ q <+: q') :
    (dropManifest rfaults q after).lookup q' = after.lookup q' := by
  unfold dropManifest
  split
  · rfl
  · exact AList.lookup_erase_ne fun heq => h (heq ▸ List.prefix_append q [manifestName])

theorem StashReady.entry_outside (h : StashReady t origin fs p) :
    p.entry.isPrefixOf p.origin = false := by
  rw [Bool.eq_false_iff]
  exact fun hpre => h.entry_apart.1 (List.isPrefixOf_iff_prefix.mp hpre)

/-- The rename home. -/
theorem moveHome_renamed (h : StashReady t origin fs p) (hm : Moved faults fs p m length moved)
    (hrename : rfaults.rename = false) :
    ∃ after, moveHome rfaults m p.entry p.origin moved = (after, .ok m.origin) ∧
      Home faults rfaults fs p.origin p.entry (.file (.manifest m length)) after := by
  have hne : p.origin ≠ [] := fun hnil => h.apart.2 (hnil ▸ List.nil_prefix)
  have habsent : entryAt moved p.origin = none := by
    rw [entryAt, if_neg hne]
    have hgone := hm.origin_gone []
    rwa [List.append_nil] at hgone
  refine ⟨dropManifest rfaults p.origin (FileTree.rename p.entry p.origin moved), ?_, ?_, ?_, ?_⟩
  · simp [moveHome, hrename, habsent, h.entry_outside]
  · intro rel hrel
    rw [lookup_dropManifest _ hrel, lookup_rename_dst rel hm.origin_gone, hm.tree rel hrel]
    cases fs.lookup (p.origin ++ rel) <;> simp [Option.filter, carries, carriesHome, hrename]
  · rw [lookup_dropManifest_self, lookup_rename_dst [manifestName] hm.origin_gone, hm.manifest]
  · intro rel
    rw [lookup_dropManifest_other _ (h.entry_apart.symm.not_prefix_append rel),
      lookup_rename_src rel h.entry_apart.symm]

/-- A copy that is kept takes the entry's place. -/
theorem home_of_copied (h : StashReady t origin fs p) (hm : Moved faults fs p m length moved)
    (hrename : rfaults.rename = true) {copied : Fs FileData}
    (hlook : ∀ rel, copied.lookup (p.origin ++ rel) =
      (moved.lookup (p.entry ++ rel)).filter (· ≠ .special)) :
    Home faults rfaults fs p.origin p.entry (.file (.manifest m length))
      (removeSubtree (dropManifest rfaults p.origin copied) p.entry) := by
  have horigin : ∀ rel, (removeSubtree (dropManifest rfaults p.origin copied) p.entry).lookup
      (p.origin ++ rel) = (dropManifest rfaults p.origin copied).lookup (p.origin ++ rel) := by
    intro rel
    rw [lookup_removeSubtree, if_neg (h.entry_apart.not_prefix_append rel)]
  constructor
  case tree =>
    intro rel hrel
    rw [horigin, lookup_dropManifest _ hrel, hlook, hm.tree rel hrel, Option.filter_filter]
    congr 1
    funext e
    by_cases hspecial : e = .special <;> simp [carries, carriesHome, hrename, hspecial]
  case manifest =>
    rw [horigin, lookup_dropManifest_self, hlook, hm.manifest]
    rfl
  case entry_gone =>
    intro rel
    rw [lookup_removeSubtree, if_pos (List.prefix_append p.entry rel)]

/-- The copy home. -/
theorem moveHome_copied (h : StashReady t origin fs p) (hm : Moved faults fs p m length moved)
    (hrename : rfaults.rename = true) {path : String}
    (hok : (moveHome rfaults m p.entry p.origin moved).2 = .ok path) :
    Home faults rfaults fs p.origin p.entry (.file (.manifest m length))
      (moveHome rfaults m p.entry p.origin moved).1 := by
  have hentry : moved.lookup p.entry = some .dir := by
    have htree := hm.tree [] (by simp)
    rw [List.append_nil, List.append_nil, h.dir] at htree
    simpa [Option.filter, carries] using htree
  unfold moveHome at hok ⊢
  rw [hrename] at hok ⊢
  simp only [Bool.true_or, Bool.not_true, Bool.false_eq_true, if_false] at hok ⊢
  by_cases hcopy : Copyable rfaults.copying moved p.entry
  · obtain ⟨copied, k, heq, hlook⟩ := copyTree_ok hentry hm.origin_gone hcopy
    rw [heq] at hok ⊢
    dsimp only at hok ⊢
    rw [h.entry_outside] at hok ⊢
    simp only [Bool.false_eq_true, if_false] at hok ⊢
    split at hok
    · cases hok
    next hwalk =>
    rw [if_neg hwalk]
    split at hok
    · cases hok
    next hstats =>
    rw [if_neg hstats]
    cases hremove : rfaults.removeEntry with
    | some gone => simp [removeDirAllAt, hremove] at hok
    | none => exact home_of_copied h hm hrename hlook
  · obtain ⟨e, he⟩ := copyTree_error p.origin hcopy
    split at hok
    · cases hok
    next heq =>
    rw [heq] at he
    cases he

/-- A restore that goes through brings the tree home. -/
theorem moveHome_ok (h : StashReady t origin fs p) (hm : Moved faults fs p m length moved)
    {path : String} (hok : (moveHome rfaults m p.entry p.origin moved).2 = .ok path) :
    Home faults rfaults fs p.origin p.entry (.file (.manifest m length))
      (moveHome rfaults m p.entry p.origin moved).1 := by
  by_cases hrename : rfaults.rename = true
  · exact moveHome_copied h hm hrename hok
  · obtain ⟨after, heq, hhome⟩ := moveHome_renamed h hm (by simpa using hrename)
    rwa [heq]

/-! ## Finding the way back -/

/-- A move takes the origin away and adds the entry. -/
theorem Moved.agree (h : StashReady t origin fs p) (hm : Moved faults fs p m length moved) :
    Agree fs moved := by
  intro q e e' hq hq'
  by_cases hentry : p.entry <+: q
  · obtain ⟨rel, rfl⟩ := hentry
    rw [h.entry_free] at hq
    cases hq
  by_cases horigin : p.origin <+: q
  · obtain ⟨rel, rfl⟩ := horigin
    rw [hm.origin_gone] at hq'
    cases hq'
  rw [hm.other q hentry horigin, hq] at hq'
  exact Option.some.inj hq'

theorem pathParts_render {cwd q : Location} (hq : q ≠ []) (hplain : ∀ n ∈ q, n.isPlain = true) :
    pathParts cwd (render q) = ([], q) := by
  unfold pathParts
  rw [parse_render hq]
  have hall : ∀ n ∈ q, n ≠ Name.current := by
    rintro n hn rfl
    exact absurd (hplain Name.current hn) (by decide)
  simpa [Spelled.start] using hall

/-- The manifest says where the tree came from. -/
theorem pathParts_display {cwd q : Location} (hq : q ≠ []) (hutf8 : ∀ n ∈ q, n.isUtf8 = true)
    (hplain : ∀ n ∈ q, n.isPlain = true) : pathParts cwd (display q) = ([], q) := by
  unfold display
  rw [displayed_eq_self hutf8]
  exact pathParts_render hq hplain

theorem resolveEntryDir_ok {cwd root e : Location} {text : String} {n : Name}
    (hroot : ∀ q, canonicalize moved cwd text = .ok q → q = root)
    (h : resolveEntryDir moved cwd text n.text = .ok e) : e = root ++ [n] := by
  unfold resolveEntryDir at h
  split at h
  · cases h
  rw [ofChars?_toList] at h
  dsimp only at h
  split at h
  · cases h
  next q hq =>
  obtain rfl := hroot q hq
  split at h
  · exact (Except.ok.inj h).symm
  · cases h
  · cases h

/-- The directories above the origin are where they were. -/
theorem Moved.dirs_above (h : StashReady t origin fs p) (hm : Moved faults fs p m length moved)
    (hclosed : Closed fs) {k : Location} (hk : k ≠ []) (hkp : k <+: p.origin.dropLast) :
    moved.lookup k = some .dir := by
  have hne : p.origin ≠ [] := fun hnil => h.apart.2 (hnil ▸ List.nil_prefix)
  have hko : k <+: p.origin := hkp.trans p.origin.dropLast_prefix
  have hshort : ¬ p.origin <+: k := by
    intro hpre
    have hle := (hpre.trans hkp).length_le
    have hpos := List.length_pos_of_ne_nil hne
    rw [List.length_dropLast] at hle
    omega
  rw [hm.other k (fun hpre => h.entry_apart.1 (hpre.trans hko)) hshort]
  have hdir : entryAt fs p.origin = some .dir := by rw [entryAt, if_neg hne, h.dir]
  exact hclosed.dirs_above hdir hk hko

/-- Restoring the entry is moving it to where it came from. -/
theorem stashRestore_moved (h : StashReady t origin fs p) (hm : Moved faults fs p m length moved)
    (hclosed : Closed fs) (hplain : ∀ n ∈ p.origin, n.isPlain = true)
    (hutf8 : ∀ n ∈ p.origin, n.isUtf8 = true) {cwd : Location} {root path : String}
    (hroot : ∀ q, canonicalize moved cwd root = .ok q → q = p.root) (hname : m.name = p.entryName.text)
    (horigin : m.origin = display p.origin)
    (hok : (stashRestore moved cwd rfaults root m.name).2 = .ok path) :
    stashRestore moved cwd rfaults root m.name = moveHome rfaults m p.entry p.origin moved := by
  have hne : p.origin ≠ [] := fun hnil => h.apart.2 (hnil ▸ List.nil_prefix)
  unfold stashRestore at hok ⊢
  rw [hname] at hok ⊢
  cases hentry : resolveEntryDir moved cwd root p.entryName.text with
  | error e =>
    rw [hentry] at hok
    cases hok
  | ok e =>
    obtain rfl : e = p.entry := resolveEntryDir_ok hroot hentry
    rw [hentry] at hok
    dsimp only at hok ⊢
    have hread : readManifest moved p.entry = some m := by
      unfold readManifest
      rw [hm.manifest]
    cases hfault : rfaults.readManifest with
    | true =>
      rw [hfault] at hok
      cases hok
    | false =>
      rw [hfault, hread] at hok
      simp only [Bool.false_eq_true, if_false, hread] at hok ⊢
      split at hok
      · cases hok
      have hmake : makeDirs moved [] p.origin.dropLast = (moved, .ok p.origin.dropLast) :=
        makeDirs_dirs (fun n hn => hplain n (List.mem_of_mem_dropLast hn)) fun k hk hkp =>
          hm.dirs_above h hclosed hk hkp
      rw [horigin, pathParts_display hne hutf8 hplain] at hok ⊢
      dsimp only at hok ⊢
      rw [hmake] at hok ⊢
      dsimp only at hok ⊢
      split at hok
      · cases hok
      next hparent =>
      rw [if_neg hparent]
      have hway : resolveDir moved [] p.origin.dropLast = .ok p.origin.dropLast := by
        have hdirs : ∀ k, k ≠ [] → k <+: p.origin.dropLast → moved.lookup ([] ++ k) = some .dir :=
          fun k hk hkp => hm.dirs_above h hclosed hk hkp
        refine resolveDir_eq_ok.mpr ⟨resolve_dirs maxLinks
          (fun n hn => hplain n (List.mem_of_mem_dropLast hn)) hdirs, ?_⟩
        unfold entryAt
        split
        · rfl
        · next hroot => exact hdirs _ hroot (List.prefix_refl _)
      rw [hway] at hok ⊢
      dsimp only at hok ⊢
      have hlast := hplain _ (List.getLast_mem hne)
      have hplace : p.origin.getLast?.elim p.origin.dropLast (childAt p.origin.dropLast) =
          p.origin := by
        rw [List.getLast?_eq_getLast_of_ne_nil hne, Option.elim_some, childAt, if_neg,
          List.dropLast_append_getLast hne]
        simp_all [Name.isPlain]
      rw [hplace]

end Home

/-- **The stash round trip.** A move and a restore that both succeed leave the origin's tree where
it was, as it stood once the stash root was there: all of it, but for the special files where one
of the two ways was a copy. The entry is gone, and the manifest comes along only where it could not
be removed. -/
theorem stash_roundTrip (t : Mount FileData) (faults : MoveFaults) (clock : StashClock)
    (jsonLength : StashManifest → Nat) (origin root : String) (userProtected : List String)
    {m : StashManifest} {q : Location} (horigin : t.canonicalize origin = .ok q)
    (hutf8 : ∀ n ∈ q, n.isUtf8 = true)
    (hmove : (stashMove t.toDisk faults clock jsonLength origin root userProtected).result = .ok m)
    (rfaults : RestoreFaults) (path : String)
    (hrestore : (stashRestore (stashMove t.toDisk faults clock jsonLength origin root
      userProtected).fs t.cwd rfaults root m.name).2 = .ok path) :
    ∃ stash n, canonicalize (createRoot t.toDisk root).1 t.cwd root = .ok stash ∧
      n.text = m.name ∧
      Home faults rfaults (createRoot t.toDisk root).1 q (stash ++ [n])
        (.file (.manifest m (jsonLength m)))
        (stashRestore (stashMove t.toDisk faults clock jsonLength origin root userProtected).fs
          t.cwd rfaults root m.name).1 := by
  unfold stashMove stashMoveInner at hmove hrestore ⊢
  cases hpre : stashPreflight t.toDisk faults clock origin root userProtected with
  | mk fs r =>
  rw [hpre] at hmove hrestore
  cases r with
  | error e => cases hmove
  | ok p =>
    obtain ⟨rfl, hroot, hready⟩ := stashPreflight_ready hpre
    obtain rfl : p.origin = q := Except.ok.inj (hready.canonical.symm.trans horigin)
    dsimp only at hmove hrestore ⊢
    obtain ⟨hm, hmoved⟩ := completeMove_ok hready hmove
    set moved := (completeMove faults clock jsonLength false p (createRoot t.toDisk root).1).fs
    have hplain : ∀ n ∈ p.origin, n.isPlain = true :=
      t.plain p.origin (by rw [hready.origin_dir]; rfl)
    have hname : m.name = p.entryName.text := by
      have hentry : p.entryName.isUtf8 = true := by
        rw [stashPreflight_entryName hpre]
        exact entryNameFor_isUtf8 _ _ _ _
      rw [hm, Name.lossy_eq_self hentry]
    have hback := stashRestore_moved hready hmoved (createRoot_closed t.toDisk root) hplain hutf8
      (fun q' hq' => ((hmoved.agree hready).canonicalize hroot hq').symm) hname (by rw [hm]) hrestore
    refine ⟨p.root, p.entryName, hroot, hname.symm, ?_⟩
    rw [hback] at hrestore ⊢
    exact moveHome_ok hready hmoved hrestore

private def boxName : Name := ⟨"box", by decide⟩

private def fifoName : Name := ⟨"fifo", by decide⟩

/-- `/box/fifo`, `/box/data` and an empty `/stash`. -/
private def boxTree : Mount FileData where
  fs := ((((∅ : Fs FileData).insert [stashName] .dir).insert [boxName] .dir).insert
    [boxName, dataName] (.file (.bytes [1]))).insert [boxName, fifoName] .special
  closed := FileTree.closed_of_keys (by decide)
  cwd := []
  cwd_dir := rfl
  plain := FileTree.plain_of_keys (by decide)

private def boxManifest : StashManifest :=
  { name := "box.0", origin := "/box", movedAtUnix := 0, bytes := 1, files := 1, auto := false }

private def stashBox (faults : MoveFaults) : StashRun :=
  stashMove boxTree.toDisk faults ⟨0, 0⟩ (fun _ => 2) "/box" "/stash" []

theorem stash_roundTrip_box :
    ∃ stash n, canonicalize (createRoot boxTree.toDisk "/stash").1 [] "/stash" = .ok stash ∧
      n.text = "box.0" ∧
      Home { rename := true } { removeManifest := true } (createRoot boxTree.toDisk "/stash").1
        [boxName] (stash ++ [n]) (.file (.manifest boxManifest 2))
        (stashRestore (stashBox { rename := true }).fs [] { removeManifest := true } "/stash"
          "box.0").1 :=
  stash_roundTrip boxTree { rename := true } ⟨0, 0⟩ (fun _ => 2) "/box" "/stash" []
    (m := boxManifest) (q := [boxName]) (by decide +kernel) (by decide) (by decide +kernel)
    { removeManifest := true } "/box" (by decide +kernel)

/-- The stash is on another device, and so the fifo does not come back. -/
theorem stash_drops_fifo :
    (stashBox { rename := true }).result = .ok boxManifest ∧
      (stashRestore (stashBox { rename := true }).fs [] {} "/stash" "box.0").2 = .ok "/box" ∧
      (stashRestore (stashBox { rename := true }).fs [] {} "/stash" "box.0").1.lookup
        [boxName, fifoName] = none ∧
      boxTree.fs.lookup [boxName, fifoName] = some .special :=
  ⟨by decide +kernel, by decide +kernel, by decide +kernel, by decide +kernel⟩

end DraconGuard
