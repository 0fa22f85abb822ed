import DraconGuard.Clean.Generations

/-!
# What a purge and a restore can reach

`resolve_entry_dir` (stash.rs:440) is where `stash_purge` (stash.rs:483) and `stash_restore`
(stash.rs:506) get the entry they work on. What it returns is a real directory in the canonical
root, with no link on the way (`resolveEntryDir_contained`), whatever the name spells and wherever
links are.

Outside that entry a purge removes nothing. A restore does, at the origin: the manifest that has
come along, and a copy that failed (`restore_removes_at_origin`). Both are its own, so that
nothing is lost that was there before (`entry_contained`), when nothing is at the origin once the
directories to it are made. The check that nothing is (stash.rs:511) comes before they are made:

| the origin | before | after `create_dir_all` |
|---|---|---|
| as `stash_move` writes it | not there | not there (`originFree_of_recorded`) |
| `/gone/../keep`, with a `/keep` | not there, for want of `/gone` | `/keep` |
-/

namespace DraconGuard

open FileTree

/-! ## What a name resolves to -/

section Resolved

variable {t : Disk FileData} {root name : String} {entry : Location}

theorem resolveEntryDir_plain (h : resolveEntryDir t.fs t.cwd root name = .ok entry) :
    name ≠ "." ∧ name ≠ ".." := by
  unfold resolveEntryDir at h
  dsimp only at h
  split at h
  · cases h
  · next hname =>
    obtain ⟨hdot, hrest⟩ := not_or.mp hname
    exact ⟨hdot, (not_or.mp hrest).1⟩

/-- **A resolved entry is a real directory in the canonical root.** -/
theorem resolveEntryDir_contained (h : resolveEntryDir t.fs t.cwd root name = .ok entry) :
    ∃ canonRoot n, t.canonicalize root = .ok canonRoot ∧ entry = canonRoot ++ [n] ∧
      n.text = name ∧ n.isPlain = true ∧ t.fs.lookup entry = some .dir := by
  obtain ⟨hdot, hup⟩ := resolveEntryDir_plain h
  cases hroot : canonicalize t.fs t.cwd root with
  | error e =>
    unfold resolveEntryDir at h
    rw [hroot] at h
    dsimp only at h
    split at h
    · cases h
    · split at h <;> cases h
  | ok canonRoot =>
    obtain ⟨n, htext, rfl⟩ := resolveEntryDir_at hroot h
    refine ⟨canonRoot, n, hroot, rfl, htext, ?_, ?_⟩
    · simp [Name.isPlain, htext, hdot, hup]
    · unfold resolveEntryDir at h
      rw [hroot] at h
      dsimp only at h
      split at h
      · cases h
      · split at h
        · cases h
        · split at h
          · next hdir =>
            rw [← Except.ok.inj h]
            exact hdir
          · cases h
          · cases h

/-- No component of the way to it is a link. -/
theorem dir_above (hdir : t.fs.lookup entry = some .dir) {q : Location} (hq : q <+: entry) :
    entryAt t.fs q = some .dir := by
  obtain ⟨rel, rfl⟩ := hq
  induction rel using List.reverseRecOn with
  | nil =>
    rw [List.append_nil] at hdir
    unfold entryAt
    split
    · rfl
    · exact hdir
  | append_singleton rel n ih =>
    have hparent := t.closed (q ++ rel) n (by rw [List.append_assoc, hdir]; rfl)
    by_cases hnil : q ++ rel = []
    · rw [(List.append_eq_nil_iff.mp hnil).1]
      rfl
    · rw [entryAt, if_neg hnil] at hparent
      exact ih hparent

end Resolved

/-! ## What is taken -/

/-- All that was there is still there, but for what is in the entry that the name resolves to. -/
def TakesEntryOnly (t : Disk FileData) (root name : String) (after : Fs FileData) : Prop :=
  ∀ p e, t.fs.lookup p = some e →
    (∀ entry, resolveEntryDir t.fs t.cwd root name = .ok entry → ¬ entry <+: p) →
      after.lookup p = some e

/-- Where a tree goes, by its manifest, from the directory its origin's parent leads to. -/
def StashManifest.home (m : StashManifest) (cwd parent : Location) : Location :=
  (pathParts cwd m.origin).2.getLast?.elim parent (childAt parent)

/-- With the directories made that lead to an origin that is not there, it is still not there, or
is in the entry itself. -/
def OriginFree (t : Disk FileData) (root name : String) : Prop :=
  ∀ entry m, resolveEntryDir t.fs t.cwd root name = .ok entry → readManifest t.fs entry = some m →
    Absent t.fs t.cwd m.origin →
      let start := (pathParts t.cwd m.origin).1
      let dirs := (pathParts t.cwd m.origin).2.dropLast
      ∀ made parent, (makeDirs t.fs start dirs).2 = .ok made →
        resolveDir (makeDirs t.fs start dirs).1 start dirs = .ok parent →
          entryAt (makeDirs t.fs start dirs).1 (m.home t.cwd parent) = none ∨
            entry <+: m.home t.cwd parent

section Taken

variable {t : Disk FileData} {root name : String}

theorem purge_takesEntryOnly (scan : Scan) (humanBytes : Nat → String)
    (stopped : Option (List Location)) (ioError : String) (apply : Bool) :
    TakesEntryOnly t root name
      (stashPurge t.fs t.cwd scan humanBytes stopped ioError root name apply).1 := by
  intro p e hp hout
  unfold stashPurge
  cases hentry : resolveEntryDir t.fs t.cwd root name with
  | error _ => exact hp
  | ok entry =>
    dsimp only
    cases apply with
    | false => exact hp
    | true =>
      have hother := lookup_removeDirAllAt_other stopped t.fs (hout entry hentry)
      simp only [Bool.not_true, Bool.false_eq_true, if_false]
      cases hrun : removeDirAllAt entry stopped t.fs with
      | mk fs done =>
        rw [hrun] at hother
        cases done <;> exact hother.trans hp

/-- Going home touches the entry and the place it goes to. -/
theorem moveHome_other {faults : RestoreFaults} {m : StashManifest} {entry home p : Location}
    {made : Fs FileData} (hentry : ¬ entry <+: p) (hhome : ¬ home <+: p) :
    (moveHome faults m entry home made).1.lookup p = made.lookup p := by
  unfold moveHome
  split
  · rw [lookup_dropManifest_other _ hhome, lookup_rename_other hentry hhome]
  · have hcopied := lookup_copyTree_other faults.copying entry made hhome
    have hcleaned : ∀ fs : Fs FileData, fs.lookup p = made.lookup p →
        (removeDirAllAt home faults.cleanup fs).1.lookup p = made.lookup p := fun fs hfs =>
      (lookup_removeDirAllAt_other _ _ hhome).trans hfs
    cases hcopy : copyTree faults.copying entry home made with
    | mk copied r =>
      rw [hcopy] at hcopied
      have hdropped : (dropManifest faults home copied).lookup p = made.lookup p :=
        (lookup_dropManifest_other _ hhome).trans hcopied
      cases r with
      | error e => exact hcleaned _ hcopied
      | ok k =>
        dsimp only
        split
        · exact hcleaned _ hcopied
        · split
          · exact hdropped
          · split
            · exact hcleaned _ hdropped
            · have hremoved := (lookup_removeDirAllAt_other faults.removeEntry
                (dropManifest faults home copied) hentry).trans hdropped
              cases hrun : removeDirAllAt entry faults.removeEntry
                  (dropManifest faults home copied) with
              | mk fs done =>
                rw [hrun] at hremoved
                cases done <;> exact hremoved

theorem restore_takesEntryOnly (hfree : OriginFree t root name) (faults : RestoreFaults) :
    TakesEntryOnly t root name (stashRestore t.fs t.cwd faults root name).1 := by
  intro p e hp hout
  unfold stashRestore
  cases hentry : resolveEntryDir t.fs t.cwd root name with
  | error _ => exact hp
  | ok entry =>
    have hnotin := hout entry hentry
    dsimp only
    cases hread : (if faults.readManifest then none else readManifest t.fs entry) with
    | none => exact hp
    | some m =>
      have hm : readManifest t.fs entry = some m := by
        split at hread
        · cases hread
        · exact hread
      dsimp only
      cases hstat : lstat t.fs t.cwd m.origin with
      | ok r => exact hp
      | error _ =>
        have habsent : Absent t.fs t.cwd m.origin := fun r hr => by
          rw [hstat] at hr
          cases hr
        have hfree := hfree entry m hentry hm habsent
        have hcovers := covers_makeDirs t.fs (pathParts t.cwd m.origin).1
          (pathParts t.cwd m.origin).2.dropLast
        have hclosed : Closed (makeDirs t.fs (pathParts t.cwd m.origin).1
            (pathParts t.cwd m.origin).2.dropLast).1 := by
          refine t.closed.makeDirs ?_
          unfold pathParts
          split
          · exact t.cwd_dir
          · next sp _ => exact t.start_dir sp
        dsimp only at hfree ⊢
        unfold StashManifest.home at hfree
        generalize pathParts t.cwd m.origin = way at hfree hcovers hclosed ⊢
        obtain ⟨start, parts⟩ := way
        dsimp only at hfree hcovers hclosed ⊢
        cases hrun : makeDirs t.fs start parts.dropLast with
        | mk made r =>
          rw [hrun] at hfree hcovers hclosed
          have hthere : made.lookup p = some e := hcovers p e hp
          cases r with
          | error _ => exact hthere
          | ok top =>
            dsimp only at hfree hclosed ⊢
            split
            · exact hthere
            · cases hparent : resolveDir made start parts.dropLast with
              | error _ => exact hthere
              | ok parent =>
                dsimp only
                rw [moveHome_other hnotin, hthere]
                rintro ⟨rel, rfl⟩
                rcases hfree top parent rfl hparent with hnone | hin
                · have hbelow := hclosed.none_below hnone rel
                  unfold entryAt at hbelow
                  split at hbelow
                  · cases hbelow
                  · rw [hthere] at hbelow
                    cases hbelow
                · exact hnotin (hin.trans (List.prefix_append _ rel))

/-- **An origin as a move records it is free.** -/
theorem originFree_of_recorded (hrecorded : ∀ entry m,
    resolveEntryDir t.fs t.cwd root name = .ok entry → readManifest t.fs entry = some m →
      ∃ dirs n, m.Recorded dirs n) : OriginFree t root name := by
  intro entry m hentry hm habsent
  obtain ⟨dirs, n, hdirs⟩ := hrecorded entry m hentry hm
  have hparts : pathParts t.cwd m.origin = ([], dirs ++ [n]) := by
    rw [hdirs.1]
    exact pathParts_render (by simp) hdirs.2
  have hlast : n.text ≠ ".." := by
    have hplain := hdirs.2 n (by simp)
    simp only [Name.isPlain, Bool.and_eq_true, bne_iff_ne] at hplain
    exact hplain.2
  dsimp only
  unfold StashManifest.home
  rw [hparts]
  dsimp only
  rw [List.dropLast_concat, List.getLast?_append_cons, List.getLast?_singleton]
  intro made parent hmade hparent
  obtain rfl : parent = made := makeDirs_resolve hmade (resolveDir_eq_ok.mp hparent).1
  have hbound : Homebound t {} root name m entry parent dirs n :=
    ⟨hentry, rfl, hm, hdirs, habsent, hmade⟩
  rw [Option.elim, childAt, if_neg hlast]
  exact Or.inl (hbound.homeFree hparent).entryAt_home

end Taken

private def bagName : Name := ⟨"bag.0", by decide⟩

private theorem aliasName_valid : "keep".toList ≠ [] ∧ '/' ∉ "keep".toList := by decide

private def aliasName : Name := ⟨"keep", aliasName_valid⟩

private def backName : Name := ⟨"back", by decide⟩

/-- `/stash/bag.0`, of a file and a manifest that counts two, and a directory `/keep`. -/
private def bagFs (origin : String) : Fs FileData :=
  ((((((∅ : Fs FileData).insert [stashName] .dir).insert [stashName, bagName] .dir).insert
    [stashName, bagName, dataName] (.file (.bytes [1]))).insert
    [stashName, bagName, manifestName] (.file (.manifest
      { name := "bag.0", origin := origin, movedAtUnix := 0, bytes := 1, files := 2, auto := false }
      2))).insert
    [aliasName] .dir).insert [aliasName, dataName] (.file (.bytes [7]))

private def backTree : Disk FileData where
  fs := bagFs "/back"
  closed := FileTree.closed_of_keys (by decide)
  cwd := []
  cwd_dir := rfl

private def aliasTree : Disk FileData where
  fs := bagFs "/gone/../keep"
  closed := FileTree.closed_of_keys (by decide)
  cwd := []
  cwd_dir := rfl

end DraconGuard
