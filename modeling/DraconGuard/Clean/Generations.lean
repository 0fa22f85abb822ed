import Mathlib.Logic.Relation
import DraconGuard.Clean.LiveTargets
import DraconGuard.Clean.RestoreRetry
import DraconGuard.Clean.StashExpiry

/-!
# Generations of a stash entry

`replace_older_auto_generations` (stash.rs:297) deletes what the automatic move that just landed
supersedes. It goes by two texts: the name of an entry and the origin in its manifest, both as
they are displayed. Where displaying keeps names apart, only superseded automatic snapshots go,
and `generations_kept` carries that through every run of moves, restores, expiries and purges:
what is `live` is there. Where it does not, `/p\xff` and `/p\xfe` are one origin
(`displayed_origin_replaced`).
-/

namespace DraconGuard

open FileTree

/-! ## What a move changes -/

section Moves

variable {faults : MoveFaults} {p : Prepared} {fs : Fs FileData} {q : Location}

theorem lookup_moveIntoEntry_other (hentry : ¬ p.entry <+: q) (horigin : ¬ p.origin <+: q) :
    (moveIntoEntry faults p fs).1.lookup q = fs.lookup q := by
  unfold moveIntoEntry
  split
  · exact lookup_rename_other horigin hentry
  · have hcopied : (copyTree faults p.origin p.entry fs).1.lookup q = fs.lookup q :=
      lookup_copyTree_other _ _ _ hentry
    cases hcopy : copyTree faults p.origin p.entry fs with
    | mk copied r =>
      rw [hcopy] at hcopied
      have hcleaned : (removeDirAllAt p.entry faults.removeEntry copied).1.lookup q =
          fs.lookup q := (lookup_removeDirAllAt_other _ _ hentry).trans hcopied
      cases r with
      | error e => exact hcleaned
      | ok k =>
        dsimp only
        split
        · exact hcleaned
        · split
          · exact hcleaned
          · have hremoved : (removeDirAllAt p.origin faults.removeOrigin copied).1.lookup q =
                fs.lookup q := (lookup_removeDirAllAt_other _ _ horigin).trans hcopied
            unfold removeOriginal
            cases hrun : removeDirAllAt p.origin faults.removeOrigin copied with
            | mk after whole =>
              rw [hrun] at hremoved
              cases whole <;> exact hremoved

/-- A move changes its origin and its entry. -/
theorem lookup_completeMove_other (clock : StashClock) (jsonLength : StashManifest → Nat)
    (auto : Bool) (hentry : ¬ p.entry <+: q) (horigin : ¬ p.origin <+: q) :
    (completeMove faults clock jsonLength auto p fs).fs.lookup q = fs.lookup q := by
  have hmoved := @lookup_moveIntoEntry_other faults p fs q hentry horigin
  unfold completeMove
  cases hmove : moveIntoEntry faults p fs with
  | mk after r =>
    rw [hmove] at hmoved
    cases r with
    | error e => exact hmoved
    | ok u =>
      dsimp only
      unfold publishManifest
      dsimp only
      split
      · split
        · exact hmoved
        · exact (lookup_rename_other hentry horigin).trans hmoved
      · rw [AList.lookup_insert_ne, hmoved]
        rintro rfl
        exact hentry (List.prefix_append _ _)

end Moves

/-! ## What a restore changes -/

section Restores

variable {faults : RestoreFaults} {m : StashManifest} {entry home : Location}
  {made : Fs FileData}

/-- A copy puts there what it copies. -/
theorem lookup_copyEntries_in {faults : MoveFaults} {dst rel : Location}
    {items : List (Location × Entry FileData)} {skipped : Nat} {fs : Fs FileData} :
    (copyEntries faults dst items skipped fs).1.lookup (dst ++ rel) = fs.lookup (dst ++ rel) ∨
      ∃ e, (rel, e) ∈ items ∧
        (copyEntries faults dst items skipped fs).1.lookup (dst ++ rel) = some e := by
  induction items generalizing skipped fs with
  | nil => exact Or.inl rfl
  | cons i items ih =>
    obtain ⟨r, entry⟩ := i
    unfold copyEntries
    split
    · exact Or.inl rfl
    · split
      · rcases @ih (skipped + 1) fs with hsame | ⟨e, he, hlook⟩
        · exact Or.inl hsame
        · exact Or.inr ⟨e, List.mem_cons_of_mem _ he, hlook⟩
      · rcases @ih skipped (fs.insert (dst ++ r) entry) with hsame | ⟨e, he, hlook⟩
        · by_cases hr : rel = r
          · subst hr
            exact Or.inr ⟨entry, List.mem_cons_self, hsame.trans (AList.lookup_insert fs)⟩
          · exact Or.inl (hsame.trans (AList.lookup_insert_ne (by simpa using hr)))
        · exact Or.inr ⟨e, List.mem_cons_of_mem _ he, hlook⟩

theorem lookup_copyTree_in {faults : MoveFaults} {src dst : Location} {fs : Fs FileData}
    (hsrc : fs.lookup src = some .dir) (hfree : ∀ rel, fs.lookup (dst ++ rel) = none)
    (rel : Location) :
    (copyTree faults src dst fs).1.lookup (dst ++ rel) = none ∨
      (copyTree faults src dst fs).1.lookup (dst ++ rel) = fs.lookup (src ++ rel) := by
  unfold copyTree
  split
  · exact Or.inl (hfree rel)
  · rcases @lookup_copyEntries_in faults dst rel ((walk fs src).filter (·.1 ≠ [])) 0
      (fs.insert dst .dir) with hsame | ⟨e, he, hlook⟩
    · rw [hsame]
      by_cases hrel : rel = []
      · subst hrel
        rw [List.append_nil, List.append_nil, AList.lookup_insert, hsrc]
        exact Or.inr rfl
      · rw [AList.lookup_insert_ne (by simpa using hrel)]
        exact Or.inl (hfree rel)
    · rw [hlook, mem_walk.mp (List.mem_of_mem_filter he)]
      exact Or.inr rfl

/-- **What a restore changes**: at home there is nothing but what the entry had, and elsewhere the
entry goes and nothing else. -/
theorem lookup_moveHome (h : HomeFree made entry home) (p : Location) :
    (∃ rel, p = home ++ rel ∧ ((moveHome faults m entry home made).1.lookup p = none ∨
        (moveHome faults m entry home made).1.lookup p = made.lookup (entry ++ rel))) ∨
      ¬ home <+: p ∧ ((moveHome faults m entry home made).1.lookup p = made.lookup p ∨
        entry <+: p ∧ (moveHome faults m entry home made).1.lookup p = none) := by
  have hsplit : ∀ {after : Fs FileData},
      (∀ rel, after.lookup (home ++ rel) = none ∨
        after.lookup (home ++ rel) = made.lookup (entry ++ rel)) →
      (∀ p, ¬ home <+: p → after.lookup p = made.lookup p ∨ entry <+: p ∧ after.lookup p = none) →
      (∃ rel, p = home ++ rel ∧ (after.lookup p = none ∨
          after.lookup p = made.lookup (entry ++ rel))) ∨
        ¬ home <+: p ∧ (after.lookup p = made.lookup p ∨
          entry <+: p ∧ after.lookup p = none) := by
    intro after hin hoff
    by_cases hp : home <+: p
    · obtain ⟨rel, rfl⟩ := hp
      exact Or.inl ⟨rel, rfl, hin rel⟩
    · exact Or.inr ⟨hp, hoff p hp⟩
  have hcleaned : ∀ {copied : Fs FileData},
      (∀ rel, copied.lookup (home ++ rel) = none ∨
        copied.lookup (home ++ rel) = made.lookup (entry ++ rel)) →
      (∀ p, ¬ home <+: p → copied.lookup p = made.lookup p) →
      (∃ rel, p = home ++ rel ∧ ((removeDirAllAt home faults.cleanup copied).1.lookup p = none ∨
          (removeDirAllAt home faults.cleanup copied).1.lookup p = made.lookup (entry ++ rel))) ∨
        ¬ home <+: p ∧
          ((removeDirAllAt home faults.cleanup copied).1.lookup p = made.lookup p ∨
            entry <+: p ∧ (removeDirAllAt home faults.cleanup copied).1.lookup p = none) := by
    intro copied hin hoff
    refine hsplit (fun rel => ?_) fun q hq => Or.inl ?_
    · rcases lookup_removeDirAllAt_or home (home ++ rel) faults.cleanup copied with hsame | hnone
      · rw [hsame]
        exact hin rel
      · exact Or.inl hnone
    · rw [lookup_removeDirAllAt_other _ _ hq, hoff q hq]
  by_cases hway : ByCopy faults entry home
  · by_cases hcopy : CopyableHome faults made entry home
    · obtain ⟨copied, hoff, hin, -, heq⟩ := moveHome_complete (m := m) h hway hcopy
      by_cases hwalk : faults.walkOrigin = true
      · rw [if_pos hwalk] at heq
        rw [heq]
        exact hsplit hin fun q hq => Or.inl (hoff q hq)
      · rw [if_neg hwalk] at heq
        by_cases hcount : tally faults made entry ≠ (m.files, m.bytes)
        · rw [if_pos hcount] at heq
          rw [heq]
          exact hcleaned hin hoff
        · rw [if_neg hcount] at heq
          rw [heq]
          have hremoved : ∀ q, (removeDirAllAt entry faults.removeEntry copied).1.lookup q =
              copied.lookup q ∨ entry <+: q ∧
                (removeDirAllAt entry faults.removeEntry copied).1.lookup q = none := by
            intro q
            by_cases hq : entry <+: q
            · exact (lookup_removeDirAllAt_or entry q faults.removeEntry copied).imp_right
                fun hnone => ⟨hq, hnone⟩
            · exact Or.inl (lookup_removeDirAllAt_other _ _ hq)
          generalize removeDirAllAt entry faults.removeEntry copied = run at hremoved ⊢
          obtain ⟨after, whole⟩ := run
          have hafter := @hsplit after (fun rel => ?_) fun q hq => ?_
          · cases whole <;> exact hafter
          · rcases hremoved (home ++ rel) with hsame | ⟨-, hnone⟩
            · rw [hsame]
              exact hin rel
            · exact Or.inl hnone
          · rcases hremoved q with hsame | hgone
            · exact Or.inl (hsame.trans (hoff q hq))
            · exact Or.inr hgone
    · obtain ⟨e, heq⟩ := moveHome_uncopied (m := m) hway hcopy
      rw [heq]
      exact hcleaned (lookup_copyTree_in h.entry_dir h.free) fun q hq =>
        lookup_copyTree_other _ _ _ hq
  · rw [moveHome_rename h hway]
    have hapart : Apart home entry := h.apart fun hin => hway (Or.inr hin)
    refine hsplit (fun rel => ?_) fun q hq => ?_
    · by_cases hrel : rel = [manifestName]
      · subst hrel
        rw [lookup_dropManifest_self]
        split
        · exact Or.inr (lookup_rename_dst _ h.free)
        · exact Or.inl rfl
      · rw [lookup_dropManifest _ hrel]
        exact Or.inr (lookup_rename_dst rel h.free)
    · rw [lookup_dropManifest_other _ hq]
      by_cases hentry : entry <+: q
      · obtain ⟨rel, rfl⟩ := hentry
        exact Or.inr ⟨List.prefix_append entry rel, lookup_rename_src rel hapart⟩
      · exact Or.inl (lookup_rename_other hentry hq)

/-- A restore that fails leaves the entry's directory. -/
theorem moveHome_error_keeps (h : HomeFree made entry home)
    (hremoval : ∀ gone, faults.removeEntry = some gone → [] ∉ gone) {e : String}
    (herr : (moveHome faults m entry home made).2 = .error e) :
    (moveHome faults m entry home made).1.lookup entry = some .dir := by
  have hcleaned : ∀ {copied : Fs FileData}, copied.lookup entry = made.lookup entry →
      (removeDirAllAt home faults.cleanup copied).1.lookup entry = some .dir := by
    intro copied hsame
    rw [lookup_removeDirAllAt_other _ _ h.not_above, hsame, h.entry_dir]
  by_cases hway : ByCopy faults entry home
  · by_cases hcopy : CopyableHome faults made entry home
    · obtain ⟨copied, hoff, -, -, heq⟩ := moveHome_complete (m := m) h hway hcopy
      have hentry := hoff entry h.not_above
      rw [heq] at herr ⊢
      split at herr
      · next hwalk =>
        rw [if_pos hwalk, hentry, h.entry_dir]
      · next hwalk =>
        rw [if_neg hwalk]
        split at herr
        · next hcount =>
          rw [if_pos hcount]
          exact hcleaned hentry
        · next hcount =>
          rw [if_neg hcount]
          cases hstop : faults.removeEntry with
          | none =>
            rw [hstop] at herr
            cases herr
          | some gone =>
            exact (lookup_removeDirAllAt_self (hremoval gone hstop) copied).trans
              (hentry.trans h.entry_dir)
    · obtain ⟨e, heq⟩ := moveHome_uncopied (m := m) hway hcopy
      rw [heq]
      exact hcleaned (lookup_copyTree_other _ _ _ h.not_above)
  · rw [moveHome_rename h hway] at herr
    cases herr

end Restores

/-! ## What replacing changes -/

section Replacing

variable {host : RustHost} {root : String} {r : Location} {new : StashManifest}
  {fs : Fs FileData} {n x : Name}

/-- The manifest says that an automatic move made the entry, from the origin given. -/
def AutoFrom (fs : Fs FileData) (entry : Location) (origin : String) : Prop :=
  ∃ m, readManifest fs entry = some m ∧ m.auto = true ∧ m.origin = origin

/-- What replacing is to delete: an automatic entry of the same origin that is not the new one. -/
def Superseded (fs : Fs FileData) (r : Location) (new : StashManifest) (n : Name) : Prop :=
  AutoFrom fs (r ++ [n]) new.origin ∧ n.lossy.text ≠ new.name

theorem replaceGeneration_kept (h : ¬ Superseded fs r new n) :
    replaceGeneration host root r new fs n = fs := by
  unfold replaceGeneration
  dsimp only
  split
  · rfl
  next hname =>
  cases hread : readManifest fs (r ++ [n]) with
  | none => rfl
  | some m =>
    dsimp only
    rw [if_pos]
    by_contra hno
    have hsame : m.auto = true ∧ m.origin = new.origin := by simpa using hno
    exact h ⟨⟨m, hread, hsame⟩, hname⟩

/-- A turn deletes under its own name. -/
theorem lookup_replaceGeneration (hroot : ∀ q, canonicalize fs host.cwd root = .ok q → q = r)
    (hshown : Superseded fs r new n → n.isUtf8 = true) {p : Location} (hp : ¬ r ++ [n] <+: p) :
    (replaceGeneration host root r new fs n).lookup p = fs.lookup p := by
  by_cases hsuper : Superseded fs r new n
  · unfold replaceGeneration
    dsimp only
    rw [Name.lossy_eq_self (hshown hsuper)]
    split
    · rfl
    · split
      · rfl
      · split
        · rfl
        · split
          · rfl
          · next dir hdir =>
            obtain rfl := resolveEntryDir_ok hroot hdir
            exact lookup_removeDirAllAt_other _ _ hp
  · rw [replaceGeneration_kept hsuper]

theorem replaceGeneration_covers (fs : Fs FileData) (n : Name) :
    Covers (replaceGeneration host root r new fs n) fs := by
  intro p e he
  by_contra hne
  cases hlook : fs.lookup p with
  | none =>
    rw [lookup_replaceGeneration_none n hlook] at he
    cases he
  | some e' =>
    have hback : (replaceGeneration host root r new fs n).lookup p = fs.lookup p ∨
        (replaceGeneration host root r new fs n).lookup p = none := by
      unfold replaceGeneration
      dsimp only
      split
      · exact Or.inl rfl
      · split
        · exact Or.inl rfl
        · split
          · exact Or.inl rfl
          · split
            · exact Or.inl rfl
            · exact lookup_removeDirAllAt_or _ _ _ _
    rcases hback with hsame | hnone
    · exact hne (hsame ▸ he)
    · rw [hnone] at he
      cases he

theorem readManifest_congr {fs' : Fs FileData} {entry entry' : Location}
    (h : fs.lookup (entry ++ [manifestName]) = fs'.lookup (entry' ++ [manifestName])) :
    readManifest fs entry = readManifest fs' entry' := by
  unfold readManifest
  rw [h]

theorem readManifest_of_none {entry : Location} (h : fs.lookup (entry ++ [manifestName]) = none) :
    readManifest fs entry = none := by
  unfold readManifest
  rw [h]

theorem readManifest_covers {fs' : Fs FileData} (h : Covers fs fs') {entry : Location}
    {m : StashManifest} (hm : readManifest fs entry = some m) :
    readManifest fs' entry = some m := by
  unfold readManifest at hm ⊢
  split at hm
  · next hlook =>
    rw [h _ _ hlook]
    exact hm
  · cases hm

/-- Replacing takes, and puts nothing. -/
theorem replaceOlder_covers (fs : Fs FileData) :
    Covers (replaceOlderAutoGenerations host root new fs) fs := by
  unfold replaceOlderAutoGenerations
  cases canonicalize fs host.cwd root with
  | error e => exact fun _ _ he => he
  | ok canonRoot =>
    exact List.foldlRecOn (motive := fun cur : Fs FileData => Covers cur fs) _
      (replaceGeneration host root canonRoot new) (b := fs) (fun _ _ he => he)
      fun cur hcovers n _ p e he => hcovers p e (replaceGeneration_covers cur n p e he)

theorem not_prefix_of_ne (hne : n ≠ x) (rel : Location) : ¬ r ++ [n] <+: r ++ [x] ++ rel := by
  intro hpre
  rw [List.append_assoc, List.prefix_append_right_inj, List.singleton_append,
    List.cons_prefix_cons] at hpre
  exact hne hpre.1

/-- Entries of one directory are apart. -/
theorem eq_of_prefix (h : r ++ [n] <+: r ++ [x]) : n = x := by
  by_contra hne
  exact not_prefix_of_ne hne [] (by rwa [List.append_nil])

/-- **Only superseded automatic entries go**, where their names are shown as they are. -/
theorem lookup_replaceOlder (hroot : ∀ q, canonicalize fs host.cwd root = .ok q → q = r)
    (hshown : ∀ n, Superseded fs r new n → n.isUtf8 = true) (hx : ¬ Superseded fs r new x)
    (rel : Location) : (replaceOlderAutoGenerations host root new fs).lookup (r ++ [x] ++ rel) =
      fs.lookup (r ++ [x] ++ rel) := by
  unfold replaceOlderAutoGenerations
  cases hcanon : canonicalize fs host.cwd root with
  | error e => rfl
  | ok canonRoot =>
    obtain rfl := hroot canonRoot hcanon
    dsimp only
    let Kept := fun cur : Fs FileData => (∀ rel, cur.lookup (canonRoot ++ [x] ++ rel) =
      fs.lookup (canonRoot ++ [x] ++ rel)) ∧ Covers cur fs
    have hstart : Kept fs := ⟨fun _ => rfl, fun _ _ he => he⟩
    refine (List.foldlRecOn (motive := Kept) _ _ hstart fun cur hcur n _ => ?_).1 rel
    obtain ⟨hsame, hcovers⟩ := hcur
    refine ⟨fun rel => ?_, fun p e he => hcovers p e (replaceGeneration_covers cur n p e he)⟩
    by_cases hne : n = x
    · subst hne
      have hmanifest := readManifest_congr (hsame [manifestName])
      rw [replaceGeneration_kept, hsame]
      rintro ⟨⟨m, hm, hauto⟩, hname⟩
      exact hx ⟨⟨m, hmanifest ▸ hm, hauto⟩, hname⟩
    · rw [lookup_replaceGeneration (fun q hq => hroot q (hcovers.canonicalize hq)) ?_
        (not_prefix_of_ne hne rel), hsame]
      rintro ⟨⟨m, hm, hauto⟩, hname⟩
      exact hshown n ⟨⟨m, readManifest_covers hcovers hm, hauto⟩, hname⟩

end Replacing

/-! ## Runs on one stash root -/

/-- `stash_purge` (stash.rs:482): what the entry holds, its bytes, and whether it was pinned. -/
def stashPurge (fs : Fs FileData) (cwd : Location) (scan : Scan) (humanBytes : Nat → String)
    (stopped : Option (List Location)) (ioError root name : String) (apply : Bool) :
    Fs FileData × Except String (String × Nat × Bool) :=
  match resolveEntryDir fs cwd root name with
  | .error e => (fs, .error e)
  | .ok entry =>
    let sizes := walkSizes fs scan entry
    let held := (toString sizes.length ++ " files, " ++ humanBytes sizes.sum, sizes.sum,
      (readManifest fs entry).isNone)
    if !apply then (fs, .ok held)
    else match removeDirAllAt entry stopped fs with
      | (fs, true) => (fs, .ok held)
      | (fs, false) => (fs, .error ioError)

/-- Who made an entry, and from which directory. -/
inductive Provenance where
  | manual (origin : Location)
  | auto (origin : Location)
  /-- Nobody can tell. -/
  | unreadable
deriving DecidableEq

structure Generation where
  name : Name
  provenance : Provenance
deriving DecidableEq

/-- The tree, and the entries that are to be in the stash: the manual snapshots, the newest
automatic generation of every origin and the unreadable entries, less what was restored, expired
or purged. -/
structure StashState where
  disk : Mount FileData
  live : List Generation

inductive StashOp where
  | move (faults : MoveFaults) (clock : StashClock) (jsonLength : StashManifest → Nat)
      (origin : String) (userProtected : List String)
  /-- `stash_first_remove`; the tree is the state's. -/
  | stashFirst (host : RustHost) (origin : String) (userProtected : List String)
  | restore (faults : RestoreFaults) (name : String)
  | expire (env : ExpiryEnv) (ttlDays : Nat)
  | purge (scan : Scan) (humanBytes : Nat → String) (stopped : Option (List Location))
      (ioError name : String)
  /-- Something else happens, and manifests may become unreadable by it. -/
  | outside
  /-- An entry is found to be unreadable. -/
  | notice (name : Name)

/-- What a move that succeeds has settled. -/
def landed (t : Disk FileData) (faults : MoveFaults) (clock : StashClock)
    (jsonLength : StashManifest → Nat) (origin root : String) (userProtected : List String)
    (auto : Bool) : Option Prepared :=
  match stashPreflight t faults clock origin root userProtected with
  | (_, .error _) => none
  | (fs, .ok p) => match (completeMove faults clock jsonLength auto p fs).result with
    | .ok _ => some p
    | .error _ => none

def Generation.manual (p : Prepared) : Generation := ⟨p.entryName, .manual p.origin⟩

def Generation.auto (p : Prepared) : Generation := ⟨p.entryName, .auto p.origin⟩

/-- The tier's disk is the state's. -/
def RustHost.on (host : RustHost) (t : Disk FileData) : RustHost := { host with toDisk := t }

/-- The tree after the move of a stash-first removal. -/
def movedFirst (host : RustHost) (t : Disk FileData) (origin root : String)
    (userProtected : List String) : StashRun :=
  stashMoveInner t host.moving host.clock host.jsonLength origin root userProtected true

/-- What an automatic move has settled. -/
def landedAuto (host : RustHost) (t : Disk FileData) (origin root : String)
    (userProtected : List String) : Option Prepared :=
  landed t host.moving host.clock host.jsonLength origin root userProtected true

/-- One step on the stash root `root`, which lies at `r` all along. -/
def StashStep (root : String) (r : Location) : StashOp → StashState → StashState → Prop
  | .move faults clock jsonLength origin prot, s, s' =>
    canonicalize (createRoot s.disk.toDisk root).1 s.disk.cwd root = .ok r ∧
      s'.disk.fs = (stashMove s.disk.toDisk faults clock jsonLength origin root prot).fs ∧
      s'.live = (match landed s.disk.toDisk faults clock jsonLength origin root prot false with
        | some p => .manual p :: s.live
        | none => s.live)
  | .stashFirst host origin prot, s, s' =>
    canonicalize (createRoot s.disk.toDisk root).1 s.disk.cwd root = .ok r ∧
      s'.disk.fs = (stashFirstRemove (host.on s.disk.toDisk) origin root prot).1 ∧
      s'.live = (match landedAuto host s.disk.toDisk origin root prot with
        | some p => .auto p :: s.live.filter (·.provenance ≠ .auto p.origin)
        | none => s.live)
  | .restore faults name, s, s' =>
    s.disk.canonicalize root = .ok r ∧
      (∀ gone, faults.removeEntry = some gone → [] ∉ gone) ∧
      s'.disk.fs = (stashRestore s.disk.fs s.disk.cwd faults root name).1 ∧
      s'.live = (match (stashRestore s.disk.fs s.disk.cwd faults root name).2 with
        | .ok _ => s.live.filter (·.name.text ≠ name)
        | .error _ => s.live)
  | .expire env ttlDays, s, s' =>
    s.disk.canonicalize root = .ok r ∧ env.Removal ∧
      s'.disk.fs = (stashExpireDetailed s.disk.toDisk env root ttlDays true).fs ∧
      s'.live = s.live.filter fun g => g.name ∉ env.vanished ∧
        r ++ [g.name] ∉ (stashExpireDetailed s.disk.toDisk env root ttlDays true).trace
  | .purge scan humanBytes stopped ioError name, s, s' =>
    s.disk.canonicalize root = .ok r ∧ (∀ gone, stopped = some gone → [] ∉ gone) ∧
      s'.disk.fs = (stashPurge s.disk.fs s.disk.cwd scan humanBytes stopped ioError root name
        true).1 ∧
      s'.live = (match (stashPurge s.disk.fs s.disk.cwd scan humanBytes stopped ioError root name
          true).2 with
        | .ok _ => s.live.filter (·.name.text ≠ name)
        | .error _ => s.live)
  | .outside, s, s' =>
    (∀ n, s.disk.fs.lookup (r ++ [n]) = some .dir → s'.disk.fs.lookup (r ++ [n]) = some .dir) ∧
      (∀ n m, readManifest s'.disk.fs (r ++ [n]) = some m →
        readManifest s.disk.fs (r ++ [n]) = some m) ∧
      s'.live = s.live
  | .notice n, s, s' =>
    s'.disk.fs = s.disk.fs ∧ s.disk.fs.lookup (r ++ [n]) = some .dir ∧
      readManifest s.disk.fs (r ++ [n]) = none ∧ s'.live = ⟨n, .unreadable⟩ :: s.live

/-- What is asked of an automatic move: no other origin with a live automatic generation is
displayed like this one. -/
def KeepsApart (root : String) : StashOp → StashState → Prop
  | .stashFirst host origin prot, s =>
    ∀ p, landedAuto host s.disk.toDisk origin root prot = some p →
      ∀ g ∈ s.live, ∀ q, g.provenance = .auto q → display q = display p.origin → q = p.origin
  | _, _ => True

/-- A step of a run in which displaying keeps names apart. -/
def StashRunStep (root : String) (r : Location) (s s' : StashState) : Prop :=
  ∃ op, KeepsApart root op s ∧ StashStep root r op s s'

/-! ## What each step leaves of an entry -/

/-- The entry is in the stash, and its manifest, where it can be read, says who made it. -/
def Truthful (fs : Fs FileData) (r : Location) (g : Generation) : Prop :=
  fs.lookup (r ++ [g.name]) = some .dir ∧ ∀ m, readManifest fs (r ++ [g.name]) = some m →
    match g.provenance with
    | .manual _ => m.auto = false
    | .auto q => m.auto = true ∧ m.origin = display q
    | .unreadable => False

theorem Truthful.after {fs after : Fs FileData} {r : Location} {g : Generation}
    (h : Truthful fs r g) (hdir : after.lookup (r ++ [g.name]) = some .dir)
    (hm : ∀ m, readManifest after (r ++ [g.name]) = some m →
      readManifest fs (r ++ [g.name]) = some m) : Truthful after r g :=
  ⟨hdir, fun m hread => h.2 m (hm m hread)⟩

section Move

variable {t : Mount FileData} {faults : MoveFaults} {clock : StashClock}
  {jsonLength : StashManifest → Nat} {origin root : String} {prot : List String} {auto : Bool}
  {r : Location} {p : Prepared} {fs : Fs FileData}

/-- The name of the manifest in the new entry holds what it held in the origin. -/
theorem lookup_moveIntoEntry_reserved (h : StashReady t.toDisk origin fs p) :
    (moveIntoEntry faults p fs).1.lookup (p.entry ++ [manifestName]) = none ∨
      (moveIntoEntry faults p fs).1.lookup (p.entry ++ [manifestName]) =
        fs.lookup (p.origin ++ [manifestName]) := by
  unfold moveIntoEntry
  split
  · exact Or.inr (lookup_rename_dst _ h.entry_free)
  · have hcopied := @lookup_copyTree_in faults p.origin p.entry fs h.dir h.entry_free [manifestName]
    have hcleaned : ∀ {copied : Fs FileData} (root : Location) (stopped : Option (List Location)),
        (copied.lookup (p.entry ++ [manifestName]) = none ∨
          copied.lookup (p.entry ++ [manifestName]) = fs.lookup (p.origin ++ [manifestName])) →
        (removeDirAllAt root stopped copied).1.lookup (p.entry ++ [manifestName]) = none ∨
          (removeDirAllAt root stopped copied).1.lookup (p.entry ++ [manifestName]) =
            fs.lookup (p.origin ++ [manifestName]) := by
      intro copied root stopped hin
      rcases lookup_removeDirAllAt_or root (p.entry ++ [manifestName]) stopped copied with
        hsame | hnone
      · rwa [hsame]
      · exact Or.inl hnone
    cases hcopy : copyTree faults p.origin p.entry fs with
    | mk copied result =>
      rw [hcopy] at hcopied
      cases result with
      | error e => exact hcleaned _ _ hcopied
      | ok k =>
        dsimp only
        split
        · exact hcleaned _ _ hcopied
        · split
          · exact hcleaned _ _ hcopied
          · have hremoved := hcleaned p.origin faults.removeOrigin hcopied
            unfold removeOriginal
            generalize removeDirAllAt p.origin faults.removeOrigin copied = run at hremoved ⊢
            obtain ⟨after, whole⟩ := run
            cases whole <;> exact hremoved

/-- A move that fails leaves no manifest. -/
theorem completeMove_unrecorded (h : StashReady t.toDisk origin fs p) {e : String}
    (herr : (completeMove faults clock jsonLength auto p fs).result = .error e) :
    readManifest (completeMove faults clock jsonLength auto p fs).fs p.entry = none := by
  have hnone : ∀ {after : Fs FileData},
      (after.lookup (p.entry ++ [manifestName]) = none ∨
        after.lookup (p.entry ++ [manifestName]) = fs.lookup (p.origin ++ [manifestName])) →
      readManifest after p.entry = none := by
    intro after hin
    unfold readManifest
    rcases hin with hlook | hlook
    · rw [hlook]
    · rw [hlook]
      rcases h.reserved with hfree | hdir
      · rw [hfree]
      · rw [hdir]
  have hmoved := @lookup_moveIntoEntry_reserved t faults origin p fs h
  unfold completeMove at herr ⊢
  generalize moveIntoEntry faults p fs = run at hmoved herr ⊢
  obtain ⟨after, result⟩ := run
  cases result with
  | error e => exact hnone hmoved
  | ok u =>
    dsimp only at herr ⊢
    unfold publishManifest at herr ⊢
    dsimp only at herr ⊢
    split at herr
    · next htaken =>
      rw [if_pos htaken]
      split
      · exact hnone hmoved
      · exact hnone (Or.inl (lookup_rename_src _ h.entry_apart.symm))
    · cases herr

/-- The directories of the stash root take nothing away, and no manifest is among them. -/
theorem createRoot_keeps (t : Disk FileData) (root : String) (q : Location) :
    (t.fs.lookup q = some .dir → (createRoot t root).1.lookup q = some .dir) ∧
      ∀ m, readManifest (createRoot t root).1 q = some m → readManifest t.fs q = some m := by
  refine ⟨fun hdir => createRoot_extends t root q .dir hdir, fun m hm => ?_⟩
  unfold readManifest at hm ⊢
  rcases lookup_createRoot t root (q ++ [manifestName]) with hsame | ⟨-, hdir⟩
  · rwa [hsame] at hm
  · simp [hdir] at hm

/-- A manifest as `stash_move_inner` writes it, in an entry named as `entry_dir_for` names it. -/
def Minted (n : Name) (m : StashManifest) : Prop :=
  n.isUtf8 = true ∧ ∃ dirs c, m.Recorded dirs c ∧ c.isUtf8 = true

/-- What a move leaves of the entries under `r`. -/
structure MoveLeaves (t : Disk FileData) (r : Location) (landed : Option Prepared)
    (run : StashRun) : Prop where
  dirs : ∀ n, t.fs.lookup (r ++ [n]) = some .dir → run.fs.lookup (r ++ [n]) = some .dir
  manifests : ∀ n m, readManifest run.fs (r ++ [n]) = some m →
    readManifest t.fs (r ++ [n]) = some m ∨
      ∃ p, landed = some p ∧ n = p.entryName ∧ run.result = .ok m
  failed : landed = none → ∃ e, run.result = .error e

/-- What an entry that landed is. -/
structure Landed (t : Disk FileData) (root : String) (r : Location) (auto : Bool) (p : Prepared)
    (run : StashRun) (m : StashManifest) : Prop where
  result : run.result = .ok m
  name : m.name = p.entryName.lossy.text
  origin : m.origin = display p.origin
  auto : m.auto = auto
  minted : Minted p.entryName m
  free : t.fs.lookup (r ++ [p.entryName]) = none
  dir : run.fs.lookup (r ++ [p.entryName]) = some .dir
  manifest : readManifest run.fs (r ++ [p.entryName]) = some m
  root_at : ∀ q, canonicalize run.fs t.cwd root = .ok q → q = r

theorem landed_eq_some {t : Disk FileData} (h : landed t faults clock jsonLength origin root prot
    auto = some p) : ∃ fs m, stashPreflight t faults clock origin root prot = (fs, .ok p) ∧
      (completeMove faults clock jsonLength auto p fs).result = .ok m := by
  unfold landed at h
  split at h
  · cases h
  · next fs p' hpre =>
    split at h
    · next m hm =>
      obtain rfl := Option.some.inj h
      exact ⟨fs, m, hpre, hm⟩
    · cases h

theorem stashMoveInner_landed (hroot : canonicalize (createRoot t.toDisk root).1 t.cwd root = .ok r)
    (h : landed t.toDisk faults clock jsonLength origin root prot auto = some p) :
    ∃ m, Landed t.toDisk root r auto p
      (stashMoveInner t.toDisk faults clock jsonLength origin root prot auto) m := by
  obtain ⟨fs, m, hpre, hm⟩ := landed_eq_some h
  obtain ⟨rfl, hrootp, hready⟩ := stashPreflight_ready hpre
  obtain rfl := Except.ok.inj (hrootp.symm.trans hroot)
  obtain ⟨hm', hmoved⟩ := completeMove_ok hready hm
  have hne : p.origin ≠ [] := fun hnil => hready.apart.2 (hnil ▸ List.nil_prefix)
  have hplain := t.plain p.origin (by rw [hready.origin_dir]; rfl)
  unfold stashMoveInner
  rw [hpre]
  refine ⟨m, ?_⟩
  constructor
  case result => exact hm
  case name => rw [hm']
  case origin => rw [hm']
  case auto => rw [hm']
  case minted =>
    refine ⟨?_, recorded_of_display hne hplain (by rw [hm'])⟩
    rw [stashPreflight_entryName hpre]
    exact entryNameFor_isUtf8 _ _ _ _
  case free =>
    have hfree := hready.entry_free []
    rw [List.append_nil] at hfree
    cases hlook : t.fs.lookup (p.root ++ [p.entryName]) with
    | none => rfl
    | some e =>
      rw [Prepared.entry, hready.grown _ _ hlook] at hfree
      cases hfree
  case dir =>
    have htree := hmoved.tree [] (by simp)
    rw [List.append_nil, List.append_nil, hready.dir] at htree
    exact htree.trans (by simp [Option.filter, carries])
  case manifest =>
    unfold readManifest
    rw [show p.root ++ [p.entryName] ++ [manifestName] = p.entry ++ [manifestName] from rfl,
      hmoved.manifest]
  case root_at => exact fun q hq => ((hmoved.agree hready).canonicalize hrootp hq).symm

theorem stashMoveInner_leaves (hroot : canonicalize (createRoot t.toDisk root).1 t.cwd root = .ok r) :
    MoveLeaves t.toDisk r (landed t.toDisk faults clock jsonLength origin root prot auto)
      (stashMoveInner t.toDisk faults clock jsonLength origin root prot auto) := by
  unfold stashMoveInner
  cases hpre : stashPreflight t.toDisk faults clock origin root prot with
  | mk fs result =>
    cases result with
    | error e =>
      have hfs := stashPreflight_fs t.toDisk faults clock origin root prot
      rw [hpre] at hfs
      dsimp only at hfs ⊢
      have hkeeps : ∀ q, (t.fs.lookup q = some .dir → fs.lookup q = some .dir) ∧
          ∀ m, readManifest fs q = some m → readManifest t.fs q = some m := by
        intro q
        rcases hfs with rfl | rfl
        · exact ⟨id, fun _ => id⟩
        · exact createRoot_keeps t.toDisk root q
      exact ⟨fun n => (hkeeps _).1, fun n m hm => Or.inl ((hkeeps _).2 m hm), fun _ => ⟨e, rfl⟩⟩
    | ok p =>
      obtain ⟨rfl, hrootp, hready⟩ := stashPreflight_ready hpre
      obtain rfl := Except.ok.inj (hrootp.symm.trans hroot)
      dsimp only
      have hoff : ∀ n, n ≠ p.entryName → ∀ rel,
          (completeMove faults clock jsonLength auto p (createRoot t.toDisk root).1).fs.lookup
            (p.root ++ [n] ++ rel) = (createRoot t.toDisk root).1.lookup (p.root ++ [n] ++ rel) := by
        intro n hne rel
        refine lookup_completeMove_other clock jsonLength auto (not_prefix_of_ne hne.symm rel) ?_
        exact (hready.apart.concat n).symm.not_prefix_append rel
      constructor
      case dirs =>
        intro n hdir
        have hkept := (createRoot_keeps t.toDisk root (p.root ++ [n])).1 hdir
        by_cases hne : n = p.entryName
        · have hfree := hready.entry_free []
          rw [List.append_nil, Prepared.entry, ← hne, hkept] at hfree
          cases hfree
        · have hsame := hoff n hne []
          rw [List.append_nil] at hsame
          rw [hsame, hkept]
      case manifests =>
        intro n m hm
        by_cases hne : n = p.entryName
        · subst hne
          cases hresult : (completeMove faults clock jsonLength auto p
              (createRoot t.toDisk root).1).result with
          | error e =>
            have hnone := completeMove_unrecorded hready hresult
            rw [Prepared.entry, hm] at hnone
            cases hnone
          | ok m' =>
            obtain ⟨-, hmoved⟩ := completeMove_ok hready hresult
            have hread : readManifest (completeMove faults clock jsonLength auto p
                (createRoot t.toDisk root).1).fs p.entry = some m' := by
              unfold readManifest
              rw [hmoved.manifest]
            obtain rfl := Option.some.inj (hread.symm.trans hm)
            exact Or.inr ⟨p, by simp [landed, hpre, hresult], rfl, rfl⟩
        · rw [readManifest_congr (hoff n hne [manifestName])] at hm
          exact Or.inl ((createRoot_keeps t.toDisk root (p.root ++ [n])).2 m hm)
      case failed =>
        intro hnone
        cases hresult : (completeMove faults clock jsonLength auto p
            (createRoot t.toDisk root).1).result with
        | error e => exact ⟨e, rfl⟩
        | ok m => simp [landed, hpre, hresult] at hnone

end Move

/-! ## The invariant -/

/-- What is live is there, and manifests are as moves write them. -/
structure StashInv (r : Location) (s : StashState) : Prop where
  live : ∀ g ∈ s.live, Truthful s.disk.fs r g
  minted : ∀ n m, readManifest s.disk.fs (r ++ [n]) = some m → Minted n m

section Steps

variable {root : String} {r : Location} {s s' : StashState}

/-- What is left of the entries by the move itself. -/
theorem stashMoveInner_inv {faults : MoveFaults} {clock : StashClock}
    {jsonLength : StashManifest → Nat} {origin : String} {prot : List String} {auto : Bool}
    (hinv : StashInv r s)
    (hroot : canonicalize (createRoot s.disk.toDisk root).1 s.disk.cwd root = .ok r) :
    (∀ g ∈ s.live, Truthful (stashMoveInner s.disk.toDisk faults clock jsonLength origin root prot
        auto).fs r g ∧ ∀ p, landed s.disk.toDisk faults clock jsonLength origin root prot auto =
          some p → g.name ≠ p.entryName) ∧
      ∀ n m, readManifest (stashMoveInner s.disk.toDisk faults clock jsonLength origin root prot
        auto).fs (r ++ [n]) = some m → Minted n m := by
  have hleaves := @stashMoveInner_leaves s.disk faults clock jsonLength origin root prot auto r hroot
  have hlanded := fun p => @stashMoveInner_landed s.disk faults clock jsonLength origin root prot
    auto r p hroot
  constructor
  · intro g hg
    obtain ⟨hdir, hsays⟩ := hinv.live g hg
    have hother : ∀ p, landed s.disk.toDisk faults clock jsonLength origin root prot auto = some p →
        g.name ≠ p.entryName := by
      intro p hp hname
      obtain ⟨m, h⟩ := hlanded p hp
      rw [hname, h.free] at hdir
      cases hdir
    refine ⟨⟨hleaves.dirs g.name hdir, fun m hm => ?_⟩, hother⟩
    rcases hleaves.manifests g.name m hm with hsame | ⟨p, hp, hname, -⟩
    · exact hsays m hsame
    · exact absurd hname (hother p hp)
  · intro n m hm
    rcases hleaves.manifests n m hm with hsame | ⟨p, hp, rfl, hresult⟩
    · exact hinv.minted n m hsame
    · obtain ⟨m', h⟩ := hlanded p hp
      obtain rfl := Except.ok.inj (hresult.symm.trans h.result)
      exact h.minted

theorem Landed.manual {t : Disk FileData} {p : Prepared} {run : StashRun} {m : StashManifest}
    (h : Landed t root r false p run m) : Truthful run.fs r (.manual p) := by
  refine ⟨h.dir, fun m' hm' => ?_⟩
  obtain rfl := Option.some.inj (h.manifest.symm.trans hm')
  exact h.auto

theorem Landed.automatic {t : Disk FileData} {p : Prepared} {run : StashRun} {m : StashManifest}
    (h : Landed t root r true p run m) : Truthful run.fs r (.auto p) := by
  refine ⟨h.dir, fun m' hm' => ?_⟩
  obtain rfl := Option.some.inj (h.manifest.symm.trans hm')
  exact ⟨h.auto, h.origin⟩

/-- A manual move adds its entry. -/
theorem move_inv {faults : MoveFaults} {clock : StashClock} {jsonLength : StashManifest → Nat}
    {origin : String} {prot : List String} (hinv : StashInv r s)
    (hstep : StashStep root r (.move faults clock jsonLength origin prot) s s') :
    StashInv r s' := by
  obtain ⟨hroot, hfs, hlive⟩ := hstep
  obtain ⟨hkept, hminted⟩ :=
    @stashMoveInner_inv root r s faults clock jsonLength origin prot false hinv hroot
  have hfs' : s'.disk.fs =
      (stashMoveInner s.disk.toDisk faults clock jsonLength origin root prot false).fs := hfs
  rw [← hfs'] at hkept hminted
  refine ⟨?_, hminted⟩
  rw [hlive]
  cases hresult : landed s.disk.toDisk faults clock jsonLength origin root prot false with
  | none => exact fun g hg => (hkept g hg).1
  | some p =>
    obtain ⟨m, h⟩ := stashMoveInner_landed hroot hresult
    intro g hg
    rcases List.mem_cons.mp hg with rfl | hg
    · exact hfs' ▸ h.manual
    · exact (hkept g hg).1

section StashFirst

variable {host : RustHost} {origin : String} {prot : List String} {m : StashManifest}

theorem stashFirstRemove_error {t : Disk FileData} {e : String}
    (h : (movedFirst host t origin root prot).result = .error e) :
    (stashFirstRemove (host.on t) origin root prot).1 = (movedFirst host t origin root prot).fs := by
  unfold stashFirstRemove
  rw [show stashMoveInner (host.on t).toDisk (host.on t).moving (host.on t).clock
    (host.on t).jsonLength origin root prot true = movedFirst host t origin root prot from rfl]
  dsimp only
  rw [h]

theorem stashFirstRemove_ok {t : Disk FileData}
    (h : (movedFirst host t origin root prot).result = .ok m) :
    (stashFirstRemove (host.on t) origin root prot).1 =
      replaceOlderAutoGenerations (host.on t) root m (movedFirst host t origin root prot).fs := by
  unfold stashFirstRemove
  rw [show stashMoveInner (host.on t).toDisk (host.on t).moving (host.on t).clock
    (host.on t).jsonLength origin root prot true = movedFirst host t origin root prot from rfl]
  dsimp only
  rw [h]

/-- A move that succeeds has landed. -/
theorem landedAuto_of_ok
    (hroot : canonicalize (createRoot s.disk.toDisk root).1 s.disk.cwd root = .ok r)
    (hm : (movedFirst host s.disk.toDisk origin root prot).result = .ok m) :
    ∃ p, landedAuto host s.disk.toDisk origin root prot = some p := by
  cases hp : landedAuto host s.disk.toDisk origin root prot with
  | some p => exact ⟨p, rfl⟩
  | none =>
    obtain ⟨e, he⟩ := (stashMoveInner_leaves hroot).failed hp
    cases hm.symm.trans he

/-- **Only superseded automatic snapshots are replaced.** -/
theorem stashFirst_replaces (hinv : StashInv r s)
    (hroot : canonicalize (createRoot s.disk.toDisk root).1 s.disk.cwd root = .ok r)
    (hm : (movedFirst host s.disk.toDisk origin root prot).result = .ok m) {x : Name}
    (hx : ¬ Superseded (movedFirst host s.disk.toDisk origin root prot).fs r m x)
    (rel : Location) :
    (stashFirstRemove (host.on s.disk.toDisk) origin root prot).1.lookup (r ++ [x] ++ rel) =
      (movedFirst host s.disk.toDisk origin root prot).fs.lookup (r ++ [x] ++ rel) := by
  rw [stashFirstRemove_ok hm]
  have hminted := (@stashMoveInner_inv root r s host.moving host.clock host.jsonLength origin prot
    true hinv hroot).2
  obtain ⟨p, hp⟩ := landedAuto_of_ok hroot hm
  obtain ⟨m', h⟩ := stashMoveInner_landed hroot hp
  refine lookup_replaceOlder h.root_at (fun n hn => ?_) hx rel
  obtain ⟨⟨m₁, hm₁, -⟩, -⟩ := hn
  exact (hminted n m₁ hm₁).1

/-- An automatic move adds its entry, and takes none that is live. -/
theorem stashFirst_inv (hinv : StashInv r s) (hkeeps : KeepsApart root (.stashFirst host origin prot) s)
    (hstep : StashStep root r (.stashFirst host origin prot) s s') : StashInv r s' := by
  obtain ⟨hroot, hfs, hlive⟩ := hstep
  obtain ⟨hkept, hminted⟩ := @stashMoveInner_inv root r s host.moving host.clock host.jsonLength
    origin prot true hinv hroot
  cases hm : (movedFirst host s.disk.toDisk origin root prot).result with
  | error e =>
    rw [stashFirstRemove_error hm] at hfs
    have hnone : landedAuto host s.disk.toDisk origin root prot = none := by
      cases hp : landedAuto host s.disk.toDisk origin root prot with
      | none => rfl
      | some p =>
        obtain ⟨m, h⟩ := stashMoveInner_landed hroot hp
        cases hm.symm.trans h.result
    rw [hnone] at hlive
    refine ⟨fun g hg => ?_, fun n m hread => hminted n m (hfs ▸ hread)⟩
    rw [hlive] at hg
    exact hfs ▸ (hkept g hg).1
  | ok m =>
    obtain ⟨p, hp⟩ := landedAuto_of_ok hroot hm
    obtain ⟨m', h⟩ := stashMoveInner_landed hroot hp
    obtain rfl : m = m' := Except.ok.inj (hm.symm.trans h.result)
    have hcovers : Covers s'.disk.fs (movedFirst host s.disk.toDisk origin root prot).fs := by
      rw [hfs, stashFirstRemove_ok hm]
      exact replaceOlder_covers _
    -- what is not superseded is what it was after the move
    have hspared : ∀ g, Truthful (movedFirst host s.disk.toDisk origin root prot).fs r g →
        ¬ Superseded (movedFirst host s.disk.toDisk origin root prot).fs r m g.name →
          Truthful s'.disk.fs r g := by
      intro g hg hspare
      refine hg.after ?_ fun m hread => readManifest_covers hcovers hread
      have hsame := stashFirst_replaces hinv hroot hm hspare []
      rw [List.append_nil] at hsame
      rw [hfs, hsame, hg.1]
    refine ⟨?_, fun n m hread => hminted n m (readManifest_covers hcovers hread)⟩
    rw [hlive, hp]
    intro g hg
    rcases List.mem_cons.mp hg with rfl | hg
    · exact hspared _ h.automatic fun hsuper => hsuper.2 h.name.symm
    · obtain ⟨hg, hother⟩ := List.mem_filter.mp hg
      refine hspared g (hkept g hg).1 ?_
      rintro ⟨⟨m₁, hread, hauto, horigin⟩, -⟩
      have hsays := (hkept g hg).1.2 m₁ hread
      cases hwho : g.provenance with
      | manual q =>
        rw [hwho] at hsays
        exact absurd hauto (by rw [ hsays]; decide)
      | auto q =>
        rw [hwho] at hsays
        obtain rfl := hkeeps p hp g hg q hwho (by rw [← hsays.2, horigin, h.origin])
        simp [hwho] at hother
      | unreadable =>
        rw [hwho] at hsays
        exact hsays

end StashFirst

/-- The entry a name resolves to. -/
theorem resolveEntryDir_at {fs : Fs FileData} {cwd entry : Location} {name : String}
    (hroot : canonicalize fs cwd root = .ok r) (h : resolveEntryDir fs cwd root name = .ok entry) :
    ∃ n : Name, n.text = name ∧ entry = r ++ [n] := by
  unfold resolveEntryDir at h
  dsimp only at h
  split at h
  · cases h
  · cases hname : Name.ofChars? name.toList with
    | none => simp [hname] at h
    | some n =>
      rw [hname, hroot] at h
      dsimp only at h
      have htext : n.text = name := by
        unfold Name.ofChars? at hname
        split at hname
        · obtain rfl := Option.some.inj hname
          exact String.ofList_toList
        · cases hname
      refine ⟨n, htext, ?_⟩
      split at h
      · exact (Except.ok.inj h).symm
      · cases h
      · cases h

/-- The directories that are made are no manifests. -/
theorem readManifest_makeDirs {fs : Fs FileData} {cur q : Location} {parts : List Name}
    {m : StashManifest} (h : readManifest (makeDirs fs cur parts).1 q = some m) :
    readManifest fs q = some m := by
  unfold readManifest at h ⊢
  rcases lookup_makeDirs fs cur parts (q ++ [manifestName]) with hsame | ⟨-, hdir⟩
  · rwa [hsame] at h
  · simp [hdir] at h

/-- A manifest that is read after a restore was there before it, or is the entry's at home. -/
theorem readManifest_moveHome {faults : RestoreFaults} {m m' : StashManifest} {home : Location}
    {made : Fs FileData} {x n : Name} (h : HomeFree made (r ++ [x]) home)
    (hread : readManifest (moveHome faults m (r ++ [x]) home made).1 (r ++ [n]) = some m') :
    readManifest made (r ++ [n]) = some m' ∨
      r ++ [n] = home ∧ readManifest made (r ++ [x]) = some m' := by
  rcases @lookup_moveHome _ _ _ _ _ h (r ++ [n] ++ [manifestName]) with
    ⟨rel, heq, hnone | hsame⟩ | ⟨-, hsame | ⟨-, hnone⟩⟩
  · rw [readManifest_of_none hnone] at hread
    cases hread
  · rcases List.eq_nil_or_concat rel with rfl | ⟨rel, last, rfl⟩
    · rw [List.append_nil, h.entry_dir] at hsame
      simp [readManifest, hsame] at hread
    · rw [List.concat_eq_append, ← List.append_assoc] at heq
      obtain ⟨hplace, hlast⟩ := List.append_inj' heq rfl
      obtain rfl : manifestName = last := List.singleton_inj.mp hlast
      rcases List.eq_nil_or_concat rel with rfl | ⟨rel, last, rfl⟩
      · rw [List.append_nil] at hplace
        exact Or.inr ⟨hplace, (readManifest_congr hsame) ▸ hread⟩
      · -- the home would be above the stash root
        rw [List.concat_eq_append, ← List.append_assoc] at hplace
        obtain ⟨rfl, -⟩ := List.append_inj' hplace rfl
        exact absurd ((List.prefix_append home rel).trans (List.prefix_append _ _)) h.not_above
  · exact Or.inl ((readManifest_congr hsame) ▸ hread)
  · rw [readManifest_of_none hnone] at hread
    cases hread

/-- **A restore takes its entry alone.** -/
theorem restore_inv {faults : RestoreFaults} {name : String} (hinv : StashInv r s)
    (hstep : StashStep root r (.restore faults name) s s') : StashInv r s' := by
  obtain ⟨hroot, hremoval, hfs, hlive⟩ := hstep
  have hsub : ∀ g ∈ s'.live, g ∈ s.live ∧ ((∃ e, (stashRestore s.disk.fs s.disk.cwd faults root
      name).2 = .error e) ∨ g.name.text ≠ name) := by
    intro g hg
    rw [hlive] at hg
    cases hresult : (stashRestore s.disk.fs s.disk.cwd faults root name).2 with
    | error e =>
      rw [hresult] at hg
      exact ⟨hg, Or.inl ⟨e, rfl⟩⟩
    | ok path =>
      rw [hresult] at hg
      obtain ⟨hg, hother⟩ := List.mem_filter.mp hg
      exact ⟨hg, Or.inr (by simpa using hother)⟩
  -- where nothing but directories is new, everything live is as it was
  have hgrown : (∀ q e, s.disk.fs.lookup q = some e → s'.disk.fs.lookup q = some e) →
      (∀ q m, readManifest s'.disk.fs q = some m → readManifest s.disk.fs q = some m) →
        StashInv r s' := by
    intro hdirs hreads
    refine ⟨fun g hg => ?_, fun n m hm => hinv.minted n m (hreads _ m hm)⟩
    have h := hinv.live g (hsub g hg).1
    exact h.after (hdirs _ _ h.1) fun m => hreads _ m
  have hsame : (stashRestore s.disk.fs s.disk.cwd faults root name).1 = s.disk.fs →
      StashInv r s' := by
    intro heq
    rw [heq] at hfs
    exact hgrown (fun q e he => hfs ▸ he) fun q m hm => hfs ▸ hm
  cases hentry : resolveEntryDir s.disk.fs s.disk.cwd root name with
  | error e => exact hsame (by unfold stashRestore; rw [hentry])
  | ok entry =>
    obtain ⟨x, hx, rfl⟩ := resolveEntryDir_at hroot hentry
    cases hm : readManifest s.disk.fs (r ++ [x]) with
    | none => exact hsame (by unfold stashRestore; rw [hentry]; simp [hm])
    | some m =>
      obtain ⟨hutf8, dirs, c, hrecorded, hc⟩ := hinv.minted x m hm
      by_cases hbound : ∃ parent, Homebound s.disk.toDisk faults root name m (r ++ [x]) parent dirs c
      · obtain ⟨parent, hbound⟩ := hbound
        have hmade := hbound.covers
        have hreads := fun q m' => @readManifest_makeDirs s.disk.fs [] q dirs m'
        rw [hbound.stashRestore] at hfs hsub
        split at hfs
        · exact hgrown (fun q e he => hfs ▸ hmade q e he) fun q m' hm' => hreads q m' (hfs ▸ hm')
        next hmake =>
        rw [if_neg hmake] at hsub
        cases hway : resolveDir (makeDirs s.disk.fs [] dirs).1 [] dirs with
        | error e =>
          rw [hway] at hfs
          exact hgrown (fun q e he => hfs ▸ hmade q e he) fun q m' hm' => hreads q m' (hfs ▸ hm')
        | ok q =>
          rw [hway] at hfs hsub
          dsimp only at hfs hsub
          obtain rfl : q = parent := makeDirs_resolve hbound.made (resolveDir_eq_ok.mp hway).1
          have hhome := hbound.homeFree hway
          have hmoved := @lookup_moveHome faults m _ _ _ hhome
          rw [← hfs] at hmoved
          have hfrom := fun n m' => @readManifest_moveHome r faults m m' _ _ x n hhome
          rw [← hfs] at hfrom
          constructor
          case live =>
            intro g hg
            obtain ⟨hg, hleft⟩ := hsub g hg
            have h := hinv.live g hg
            have hdir := hmade _ _ h.1
            refine h.after ?_ fun m' hm' => ?_
            · rcases hmoved (r ++ [g.name]) with ⟨rel, heq, -⟩ | ⟨-, hsame | ⟨hpre, hnone⟩⟩
              · rw [heq, hhome.free rel] at hdir
                cases hdir
              · rw [hsame, hdir]
              · obtain rfl : x = g.name := by
                  by_contra hne
                  exact not_prefix_of_ne hne [] (by rwa [List.append_nil])
                rcases hleft with ⟨e, he⟩ | hother
                · rw [hfs]
                  exact moveHome_error_keeps hhome hremoval he
                · exact absurd hx hother
            · rcases hfrom g.name m' hm' with hold | ⟨hplace, -⟩
              · exact hreads _ m' hold
              · have hfree := hhome.free []
                rw [List.append_nil, ← hplace, hdir] at hfree
                cases hfree
          case minted =>
            intro n m' hm'
            rcases hfrom n m' hm' with hold | ⟨hplace, hold⟩
            · exact hinv.minted n m' (hreads _ m' hold)
            · obtain ⟨-, rfl⟩ : r = q ∧ n = c := by simpa using hplace
              exact ⟨hc, (hinv.minted x m' (hreads _ m' hold)).2⟩
      · exact hsame (stashRestore_unbound hentry hm hrecorded hbound)

/-- What only takes keeps the invariant, where the directories of what stays live stay. -/
theorem StashInv.covered (hinv : StashInv r s) (hcovers : Covers s'.disk.fs s.disk.fs)
    (hlive : ∀ g ∈ s'.live, g ∈ s.live ∧ s'.disk.fs.lookup (r ++ [g.name]) = some .dir) :
    StashInv r s' := by
  constructor
  case live =>
    intro g hg
    obtain ⟨hg, hdir⟩ := hlive g hg
    exact (hinv.live g hg).after hdir fun m hm => readManifest_covers hcovers hm
  case minted => exact fun n m hm => hinv.minted n m (readManifest_covers hcovers hm)

theorem covers_of_or {fs after : Fs FileData}
    (h : ∀ p, after.lookup p = fs.lookup p ∨ after.lookup p = none) : Covers after fs := by
  intro p e he
  rcases h p with hsame | hnone
  · rw [← hsame, he]
  · rw [hnone] at he
    cases he

theorem lookup_expiryStart (t : Disk FileData) (env : ExpiryEnv) (r p : Location) :
    (expiryStart t env r).lookup p =
      if ∃ n ∈ env.vanished, r ++ [n] <+: p then none else t.fs.lookup p := by
  unfold expiryStart
  generalize t.fs = fs
  induction env.vanished generalizing fs with
  | nil => simp
  | cons n rest ih =>
    rw [List.foldl_cons, ih, lookup_removeSubtree]
    by_cases hrest : ∃ n ∈ rest, r ++ [n] <+: p
    · rw [if_pos hrest, if_pos]
      obtain ⟨k, hk, hp⟩ := hrest
      exact ⟨k, List.mem_cons_of_mem n hk, hp⟩
    · rw [if_neg hrest]
      simp only [List.mem_cons, exists_eq_or_imp, hrest, or_false]

/-- **An expiry takes what it removes, and what vanishes.** -/
theorem expire_inv {env : ExpiryEnv} {ttlDays : Nat} (hinv : StashInv r s)
    (hstep : StashStep root r (.expire env ttlDays) s s') : StashInv r s' := by
  obtain ⟨hroot, hremoval, hfs, hlive⟩ := hstep
  have hstays : ∀ g ∈ s'.live, g ∈ s.live ∧ g.name ∉ env.vanished ∧
      r ++ [g.name] ∉ (stashExpireDetailed s.disk.toDisk env root ttlDays true).trace := by
    intro g hg
    rw [hlive, List.mem_filter, decide_eq_true_eq] at hg
    exact hg
  unfold stashExpireDetailed at hfs hstays
  cases hlist : stashList s.disk.toDisk env root ttlDays with
  | error e =>
    rw [hlist] at hfs
    dsimp only at hfs
    refine hinv.covered (fun q e he => hfs ▸ he) fun g hg => ⟨(hstays g hg).1, ?_⟩
    rw [hfs]
    exact (hinv.live g (hstays g hg).1).1
  | ok list =>
    rw [hlist, hroot] at hfs hstays
    dsimp only [Except.toOption, Option.getD_some] at hfs hstays
    have hstart := lookup_expiryStart s.disk.toDisk env r
    have hloop := fun p => @lookup_expireLoop_or env r ⟨[], list.pinned, list.pinnedBytes⟩ p
      (list.entries.filter (·.expired)) (expiryStart s.disk.toDisk env r)
    have hgone := fun n => @gone_iff_traced env r (expiryStart s.disk.toDisk env r)
      ⟨[], list.pinned, list.pinnedBytes⟩ hremoval (list.entries.filter (·.expired)) n
    rw [← hfs] at hloop hgone
    refine hinv.covered (covers_of_or fun p => ?_) fun g hg => ?_
    · rcases hloop p with hsame | hnone
      · rw [hsame, hstart]
        split
        · exact Or.inr rfl
        · exact Or.inl rfl
      · exact Or.inr hnone
    · obtain ⟨hg, hleft, huntraced⟩ := hstays g hg
      refine ⟨hg, ?_⟩
      have hdir := (hinv.live g hg).1
      have hthere : (expiryStart s.disk.toDisk env r).lookup (r ++ [g.name]) = some .dir := by
        rw [hstart, if_neg, hdir]
        rintro ⟨n, hn, hpre⟩
        exact hleft ( eq_of_prefix hpre ▸ hn)
      rcases hloop (r ++ [g.name]) with hsame | hnone
      · rw [hsame, hthere]
      · exact absurd ((hgone g.name (by rw [hthere]; rfl)).mp hnone) huntraced

/-- **A purge takes its entry alone.** -/
theorem purge_inv {scan : Scan} {humanBytes : Nat → String} {stopped : Option (List Location)}
    {ioError name : String} (hinv : StashInv r s)
    (hstep : StashStep root r (.purge scan humanBytes stopped ioError name) s s') :
    StashInv r s' := by
  obtain ⟨hroot, hremoval, hfs, hlive⟩ := hstep
  unfold stashPurge at hfs hlive
  cases hentry : resolveEntryDir s.disk.fs s.disk.cwd root name with
  | error e =>
    rw [hentry] at hfs hlive
    dsimp only at hfs hlive
    refine hinv.covered (fun q e he => hfs ▸ he) fun g hg => ?_
    rw [hlive] at hg
    exact ⟨hg, by rw [hfs]; exact (hinv.live g hg).1⟩
  | ok entry =>
    obtain ⟨x, hx, rfl⟩ := resolveEntryDir_at hroot hentry
    rw [hentry] at hfs hlive
    simp only [Bool.not_true, Bool.false_eq_true, if_false] at hfs hlive
    have hor := fun p => lookup_removeDirAllAt_or (r ++ [x]) p stopped s.disk.fs
    have hother := fun p => @lookup_removeDirAllAt_other _ (r ++ [x]) p stopped s.disk.fs
    have hself := fun gone h => @lookup_removeDirAllAt_self _ (r ++ [x]) gone h s.disk.fs
    cases stopped with
    | none =>
      refine hinv.covered (covers_of_or fun p => ?_) fun g hg => ?_
      · rw [hfs]
        exact hor p
      · rw [hlive] at hg
        obtain ⟨hg, hleft⟩ := List.mem_filter.mp hg
        refine ⟨hg, ?_⟩
        rw [hfs]
        refine (hother (r ++ [g.name]) fun hpre => ?_).trans (hinv.live g hg).1
        obtain rfl := eq_of_prefix hpre
        simp [hx] at hleft
    | some gone =>
      refine hinv.covered (covers_of_or fun p => ?_) fun g hg => ?_
      · rw [hfs]
        exact hor p
      · rw [hlive] at hg
        refine ⟨hg, ?_⟩
        rw [hfs]
        have hdir := (hinv.live g hg).1
        by_cases hne : x = g.name
        · subst hne
          exact (hself gone (hremoval gone rfl)).trans hdir
        · exact (hother (r ++ [g.name]) fun hpre => not_prefix_of_ne hne [] (by
            rwa [List.append_nil])).trans hdir

theorem outside_inv (hinv : StashInv r s) (hstep : StashStep root r .outside s s') :
    StashInv r s' := by
  obtain ⟨hdirs, hreads, hlive⟩ := hstep
  refine ⟨fun g hg => ?_, fun n m hm => hinv.minted n m (hreads n m hm)⟩
  rw [hlive] at hg
  have h := hinv.live g hg
  exact h.after (hdirs _ h.1) fun m => hreads _ m

theorem notice_inv {n : Name} (hinv : StashInv r s) (hstep : StashStep root r (.notice n) s s') :
    StashInv r s' := by
  obtain ⟨hfs, hdir, hread, hlive⟩ := hstep
  refine ⟨fun g hg => ?_, fun n m hm => hinv.minted n m (hfs ▸ hm)⟩
  rw [hlive] at hg
  rw [hfs]
  rcases List.mem_cons.mp hg with rfl | hg
  · refine ⟨hdir, fun m hm => ?_⟩
    rw [hread] at hm
    cases hm
  · exact hinv.live g hg

/-- **The invariant is kept** by every step that keeps apart what displaying tells apart. -/
theorem step_stashInv {op : StashOp} (hinv : StashInv r s) (hkeeps : KeepsApart root op s)
    (hstep : StashStep root r op s s') : StashInv r s' := by
  cases op with
  | move => exact move_inv hinv hstep
  | stashFirst => exact stashFirst_inv hinv hkeeps hstep
  | restore => exact restore_inv hinv hstep
  | expire => exact expire_inv hinv hstep
  | purge => exact purge_inv hinv hstep
  | outside => exact outside_inv hinv hstep
  | notice => exact notice_inv hinv hstep

theorem run_stashInv (hinv : StashInv r s)
    (hrun : Relation.ReflTransGen (StashRunStep root r) s s') : StashInv r s' := by
  induction hrun with
  | refl => exact hinv
  | tail _ hstep ih =>
    obtain ⟨op, hkeeps, hstep⟩ := hstep
    exact step_stashInv ih hkeeps hstep

end Steps

/-! ## Every run -/

/-- **Only superseded automatic snapshots are replaced**, over every run: what is live is there,
and the next automatic move takes nothing that is not superseded. -/
theorem generations_kept {root : String} {r : Location} {s s' : StashState} (hstart : StashInv r s)
    (hrun : Relation.ReflTransGen (StashRunStep root r) s s') :
    (∀ g ∈ s'.live, s'.disk.fs.lookup (r ++ [g.name]) = some .dir) ∧
      ∀ (host : RustHost) (origin : String) (prot : List String) (m : StashManifest),
        canonicalize (createRoot s'.disk.toDisk root).1 s'.disk.cwd root = .ok r →
        (movedFirst host s'.disk.toDisk origin root prot).result = .ok m →
          ∀ x, ¬ Superseded (movedFirst host s'.disk.toDisk origin root prot).fs r m x → ∀ rel,
            (stashFirstRemove (host.on s'.disk.toDisk) origin root prot).1.lookup
                (r ++ [x] ++ rel) =
              (movedFirst host s'.disk.toDisk origin root prot).fs.lookup (r ++ [x] ++ rel) := by
  have hinv := run_stashInv hstart hrun
  exact ⟨fun g hg => (hinv.live g hg).1, fun host origin prot m hroot hm x hx rel =>
    stashFirst_replaces hinv hroot hm hx rel⟩

private def rawParent : Name := ⟨"w", by decide⟩

private def rawFirst : Name := ⟨"p\xff", by decide⟩

private def rawSecond : Name := ⟨"p\xfe", by decide⟩

private def rawThird : Name := ⟨"q", by decide⟩

/-- A stash, and directories beside it. -/
private def rawTree : Fs FileData :=
  (((((∅ : Fs FileData).insert [stashName] .dir).insert [rawParent] .dir).insert
    [rawParent, rawFirst] .dir).insert [rawParent, rawSecond] .dir).insert [rawParent, rawThird] .dir

private def rawStart : StashState where
  disk :=
    { fs := rawTree, closed := FileTree.closed_of_keys (by decide), cwd := [], cwd_dir := rfl,
      plain := FileTree.plain_of_keys (by decide) }
  live := []

private theorem rawTime_inRange :
    -(2 ^ 63 * 10 ^ 9) ≤ (0 : Int) ∧ (0 : Int) < 2 ^ 63 * 10 ^ 9 := by decide

private def rawHost : RustHost where
  toDisk := rawStart.disk.toDisk
  mtime := fun _ => none
  now := ⟨0, rawTime_inRange⟩
  ps := .printed none
  procs := some []

private def rawMoved (t : Disk FileData) (origin : String) : Fs FileData :=
  (stashFirstRemove (rawHost.on t) origin "/stash" []).1

/-- What an automatic move leaves. -/
private def rawAfter (s : StashState) (origin : String)
    (hclosed : ∀ p ∈ (rawMoved s.disk.toDisk origin).keys,
      entryAt (rawMoved s.disk.toDisk origin) p.dropLast = some .dir)
    (hplain : ∀ p ∈ (rawMoved s.disk.toDisk origin).keys, ∀ n ∈ p, n.isPlain = true) :
    StashState where
  disk :=
    { fs := rawMoved s.disk.toDisk origin, closed := FileTree.closed_of_keys hclosed, cwd := [],
      cwd_dir := rfl, plain := FileTree.plain_of_keys hplain }
  live := match landedAuto rawHost s.disk.toDisk origin "/stash" [] with
    | some p => .auto p :: s.live.filter (·.provenance ≠ .auto p.origin)
    | none => s.live

private theorem rawAfter_step {s : StashState} {origin : String}
    (hroot : canonicalize (createRoot s.disk.toDisk "/stash").1 s.disk.cwd "/stash" =
      .ok [stashName]) {hclosed hplain} :
    StashStep "/stash" [stashName] (.stashFirst rawHost origin []) s
      (rawAfter s origin hclosed hplain) := ⟨hroot, rfl, rfl⟩

private def rawMiddle : StashState :=
  rawAfter rawStart "/w/p\xff" (by decide +kernel) (by decide +kernel)

private theorem rawMoved_sound : ∀ origin ∈ ["/w/p\xfe", "/w/q"],
    (∀ p ∈ (rawMoved rawMiddle.disk.toDisk origin).keys,
      entryAt (rawMoved rawMiddle.disk.toDisk origin) p.dropLast = some .dir) ∧
    ∀ p ∈ (rawMoved rawMiddle.disk.toDisk origin).keys, ∀ n ∈ p, n.isPlain = true := by
  decide +kernel

private def rawEnd (origin : String) (h : origin ∈ ["/w/p\xfe", "/w/q"]) : StashState :=
  rawAfter rawMiddle origin (rawMoved_sound origin h).1 (rawMoved_sound origin h).2

private theorem rawStart_inv : StashInv [stashName] rawStart := by
  refine ⟨fun g hg => absurd hg List.not_mem_nil, fun n m hm => ?_⟩
  have hnone : rawStart.disk.fs.lookup ([stashName] ++ [n] ++ [manifestName]) = none := by
    cases hlook : rawStart.disk.fs.lookup ([stashName] ++ [n] ++ [manifestName]) with
    | none => rfl
    | some e =>
      have hshort : ∀ p ∈ rawStart.disk.fs.keys, p.length ≤ 2 := by decide
      have hlong := hshort _ (AList.lookup_isSome.mp (by rw [hlook]; rfl))
      simp at hlong
  rw [readManifest_of_none hnone] at hm
  cases hm

private theorem raw_first : StashStep "/stash" [stashName] (.stashFirst rawHost "/w/p\xff" [])
    rawStart rawMiddle := rawAfter_step (by decide +kernel)

private theorem raw_second (origin : String) (h : origin ∈ ["/w/p\xfe", "/w/q"]) :
    StashStep "/stash" [stashName] (.stashFirst rawHost origin []) rawMiddle (rawEnd origin h) :=
  rawAfter_step (by decide +kernel)

/-- `/w/q` is displayed as itself: both generations are kept. -/
theorem generations_kept_apart :
    (rawEnd "/w/q" (by decide)).live.length = 2 ∧
      ∀ g ∈ (rawEnd "/w/q" (by decide)).live,
        (rawEnd "/w/q" (by decide)).disk.fs.lookup ([stashName] ++ [g.name]) = some .dir := by
  have halone : KeepsApart "/stash" (.stashFirst rawHost "/w/p\xff" []) rawStart :=
    fun _ _ g hg => absurd hg List.not_mem_nil
  have hfirst : StashRunStep "/stash" [stashName] rawStart rawMiddle := ⟨_, halone, raw_first⟩
  have hapart : KeepsApart "/stash" (.stashFirst rawHost "/w/q" []) rawMiddle := by
    intro p hp g hg q hq hsame
    have horigin : (landedAuto rawHost rawMiddle.disk.toDisk "/w/q" "/stash" []).map (·.origin) =
        some [rawParent, rawThird] := by decide +kernel
    have hwho : ∀ g ∈ rawMiddle.live, g.provenance = .auto [rawParent, rawFirst] := by
      decide +kernel
    rw [hp] at horigin
    obtain rfl : [rawParent, rawFirst] = q := by simpa [hwho g hg] using hq
    rw [show p.origin = [rawParent, rawThird] from Option.some.inj horigin] at hsame
    exact absurd hsame (by decide)
  have hsecond : StashRunStep "/stash" [stashName] rawMiddle (rawEnd "/w/q" (by decide)) :=
    ⟨_, hapart, raw_second "/w/q" (by decide)⟩
  exact ⟨by decide +kernel,
    (generations_kept rawStart_inv (.tail (.single hfirst) hsecond)).1⟩

/-- `/w/p\xff` and `/w/p\xfe` are displayed alike: the second takes the first's generation. -/
theorem displayed_origin_replaced :
    ¬ ∀ (root : String) (r : Location) (s s' : StashState), StashInv r s →
      Relation.ReflTransGen (fun s s' => ∃ op, StashStep root r op s s') s s' →
        ∀ g ∈ s'.live, s'.disk.fs.lookup (r ++ [g.name]) = some .dir := by
  intro hall
  have hgone : ∃ g ∈ (rawEnd "/w/p\xfe" (by decide)).live,
      (rawEnd "/w/p\xfe" (by decide)).disk.fs.lookup ([stashName] ++ [g.name]) = none := by
    decide +kernel
  obtain ⟨g, hg, hnone⟩ := hgone
  have hdir := hall "/stash" [stashName] rawStart _ rawStart_inv
    (.tail (.single ⟨_, raw_first⟩) ⟨_, raw_second "/w/p\xfe" (by decide)⟩) g hg
  rw [hnone] at hdir
  cases hdir

end DraconGuard
