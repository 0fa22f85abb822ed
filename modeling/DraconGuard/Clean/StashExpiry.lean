import DraconGuard.Proc
import DraconGuard.Clean.RestoreLaw
import DraconGuard.Lib.DirWalk

/-!
# The expiry of stash entries

`stash_list` dates every entry before anything is removed, and the loop of
`stash_expire_detailed` goes over the expired ones in the order of their names.

| here | there |
| --- | --- |
| `stashEntry`, `stashList` | `stash_list` (stash.rs:359-429) |
| `expiryTarget` | `canonicalize` and the containment check of the loop (stash.rs:592-611) |
| `expireLoop` | the loop (stash.rs:590-620) |
| `stashExpireDetailed` | `stash_expire_detailed` (stash.rs:575-626) |
| `ExpireRun.logged` | what the pass of the guard logs (main.rs:9550-9588) |

An entry that has vanished, or leads out of the root, is skipped so that the removals already
collected are not lost (stash.rs:593-595). An entry whose removal fails is not: its error is the
result. `expiry_accounts_iff` says when every removal is accounted for all the same.
-/

namespace DraconGuard

open FileTree

/-! ## The listing -/

/-- What a pass meets. -/
structure ExpiryEnv where
  scan : Scan := {}
  /-- The clock, read for each entry. -/
  now : Name → Nat
  /-- Manifests that cannot be read. -/
  unreadable : Name → Bool := fun _ => false
  /-- Removals that fail, and what they got to. -/
  stopped : Location → Option (List Location) := fun _ => none
  /-- Entries that somebody else takes away after the listing. -/
  vanished : List Name := []
  ioError : String := ""

/-- `StashEntry` (stash.rs:42-55). -/
structure StashEntry where
  name : Name
  origin : String
  movedAtUnix : Option Nat
  ageDays : Option Nat
  bytes : Nat
  expired : Bool
  pinned : Bool
  pinReason : Option String

/-- `PIN_REASON`. -/
def pinReason : String :=
  "manifest unreadable — cannot age out or restore; clear with `stash purge <name> --apply`"

/-- `walk_stats` (relocate.rs:50): the sizes of the regular files that are come to. -/
def walkSizes (fs : Fs FileData) (scan : Scan) (root : Location) : List Nat :=
  (walkDir fs scan none root).filterMap fun
    | .entry _ (.file data) => some data.length
    | _ => none

/-- Is an entry of this age expired? -/
def isExpired (ttlDays ageSecs : Nat) : Bool :=
  0 < ttlDays && min (ttlDays * 86400) u64Max < ageSecs

/-- One turn of the loop of `stash_list`; none for what leads to no directory. -/
def stashEntry (t : Disk FileData) (env : ExpiryEnv) (root : Location) (ttlDays : Nat) (n : Name) :
    Option StashEntry :=
  match resolveDir t.fs [] (root ++ [n]) with
  | .error _ => none
  | .ok dir =>
    let bytes := (walkSizes t.fs env.scan dir).sum
    match if env.unreadable n then none else readManifest t.fs dir with
    | some m =>
      let ageSecs := env.now n - m.movedAtUnix
      some
        { name := n.lossy, origin := m.origin, movedAtUnix := some m.movedAtUnix,
          ageDays := some (ageSecs / 86400), bytes := bytes, expired := isExpired ttlDays ageSecs,
          pinned := false, pinReason := none }
    | none => some
        { name := n.lossy, origin := "unknown", movedAtUnix := none, ageDays := none,
          bytes := bytes, expired := false, pinned := true, pinReason := some pinReason }

/-- `StashList` (stash.rs:57-66). -/
structure StashList where
  root : String
  ttlDays : Nat
  entries : List StashEntry
  totalBytes : Nat
  expiredBytes : Nat
  pinned : List Name
  pinnedBytes : Nat

/-- What `read_dir` of the root shows. -/
def stashNames (t : Disk FileData) (env : ExpiryEnv) (root : Location) : List Name :=
  t.fs.keys.filterMap fun q => match below root q with
    | some [n] => if (env.scan.listing root).shows n then some n else none
    | _ => none

def StashList.of (root : String) (ttlDays : Nat) (entries : List StashEntry) : StashList :=
  let pinned := entries.filter (·.pinned)
  { root := root, ttlDays := ttlDays,
    entries := entries.insertionSort fun a b => a.name.text ≤ b.name.text,
    totalBytes := (entries.map (·.bytes)).sum,
    expiredBytes := ((entries.filter (·.expired)).map (·.bytes)).sum,
    pinned := (pinned.map (·.name)).insertionSort fun a b => a.text ≤ b.text,
    pinnedBytes := (pinned.map (·.bytes)).sum }

/-- `stash_list` (stash.rs:359). -/
def stashList (t : Disk FileData) (env : ExpiryEnv) (root : String) (ttlDays : Nat) :
    Except String StashList :=
  match t.lstat root with
  | .error _ => .ok (.of root ttlDays [])
  | .ok _ => match t.canonicalize root with
    | .error e => .error e.message
    | .ok canonRoot =>
      if entryAt t.fs canonRoot ≠ some .dir then .error Errno.notADirectory.message
      else match env.scan.listing canonRoot with
        | .closed => .error env.ioError
        | _ => .ok (.of root ttlDays
            ((stashNames t env canonRoot).filterMap (stashEntry t env canonRoot ttlDays)))

/-! ## The removals -/

/-- `ExpiredEntry`. -/
structure ExpiredEntry where
  name : Name
  origin : String
  bytes : Nat

/-- `ExpireOutcome`. -/
structure ExpireOutcome where
  removed : List ExpiredEntry
  pinned : List Name
  pinnedBytes : Nat

/-- How a pass goes. -/
structure ExpireRun where
  fs : Fs FileData
  /-- What `remove_dir_all` took away, in order. -/
  trace : List Location
  /-- The expired entries that had their turn. -/
  turns : List StashEntry
  result : Except String ExpireOutcome

/-- What the pass of the guard logs: one line for each entry of the outcome. -/
def ExpireRun.logged (run : ExpireRun) : List Name :=
  match run.result with
  | .ok outcome => outcome.removed.map (·.name)
  | .error _ => []

/-- The directory that is removed for an entry: what its name leads to, where that is right under
the root. -/
def expiryTarget (fs : Fs FileData) (root : Location) (name : Name) : Option Location :=
  match resolve fs maxLinks [] (root ++ [name]) with
  | .error _ => none
  | .ok canon => if canon ≠ [] ∧ canon.dropLast = root then some canon else none

/-- `fs::remove_dir_all(&canon)`; what is no directory is refused. -/
def removeExpired (env : ExpiryEnv) (canon : Location) (fs : Fs FileData) : Fs FileData × Bool :=
  if fs.lookup canon = some .dir then removeDirAllAt canon (env.stopped canon) fs else (fs, false)

def StashEntry.record (e : StashEntry) : ExpiredEntry := ⟨e.name, e.origin, e.bytes⟩

/-- One more record in front. -/
def ExpireOutcome.adding (e : StashEntry) (outcome : ExpireOutcome) : ExpireOutcome :=
  { outcome with removed := e.record :: outcome.removed }

/-- The loop over the expired entries. -/
def expireLoop (env : ExpiryEnv) (root : Location) (apply : Bool) (empty : ExpireOutcome) :
    List StashEntry → Fs FileData → ExpireRun
  | [], fs => ⟨fs, [], [], .ok empty⟩
  | e :: rest, fs =>
    match expiryTarget fs root e.name with
    -- vanished, or escaped
    | none =>
      let run := expireLoop env root apply empty rest fs
      { run with turns := e :: run.turns }
    | some canon =>
      if !apply then
        let run := expireLoop env root apply empty rest fs
        { run with turns := e :: run.turns, result := run.result.map (·.adding e) }
      else match removeExpired env canon fs with
        | (fs, false) => ⟨fs, [], [e], .error env.ioError⟩
        | (fs, true) =>
          let run := expireLoop env root apply empty rest fs
          { fs := run.fs, trace := canon :: run.trace, turns := e :: run.turns,
            result := run.result.map (·.adding e) }

/-- What the loop starts from. -/
def expiryStart (t : Disk FileData) (env : ExpiryEnv) (root : Location) : Fs FileData :=
  env.vanished.foldl (fun fs n => removeSubtree fs (root ++ [n])) t.fs

/-- `stash_expire_detailed` (stash.rs:575). A root that cannot be resolved has no entries. -/
def stashExpireDetailed (t : Disk FileData) (env : ExpiryEnv) (root : String) (ttlDays : Nat)
    (apply : Bool) : ExpireRun :=
  match stashList t env root ttlDays with
  | .error e => ⟨t.fs, [], [], .error e⟩
  | .ok list =>
    let canonRoot := (t.canonicalize root).toOption.getD []
    expireLoop env canonRoot apply ⟨[], list.pinned, list.pinnedBytes⟩
      (list.entries.filter (·.expired)) (expiryStart t env canonRoot)

/-! ## What a pass accounts for -/

/-- The entry is under the root, and was listed as expired. -/
def ListedExpired (t : Disk FileData) (env : ExpiryEnv) (root : Location) (ttlDays : Nat)
    (n : Name) : Prop :=
  n ∈ stashNames t env root ∧ ∃ e, stashEntry t env root ttlDays n = some e ∧ e.expired = true

/-- The name a directory under the root is listed by. -/
def listedName (q : Location) : Option Name := q.getLast?.map Name.lossy

/-- What is removed is logged by its name, in the order it is removed; every expired entry has its
turn; and nothing else under the root is touched. -/
structure AccountsForDeletions (root : Location) (Expired : Name → Prop)
    (expired : List StashEntry) (start : Fs FileData) (run : ExpireRun) : Prop where
  recorded : run.logged.map some = run.trace.map listedName
  processed : run.turns = expired
  spared : ∀ n, ¬ Expired n → ∀ rel,
    run.fs.lookup (root ++ [n] ++ rel) = start.lookup (root ++ [n] ++ rel)

/-! ## The turns -/

/-- The tree without what the entries lead to. -/
def cleared (root : Location) (entries : List StashEntry) (fs : Fs FileData) : Fs FileData :=
  entries.foldl (fun fs e => match expiryTarget fs root e.name with
    | some canon => removeSubtree fs canon
    | none => fs) fs

/-- The removal goes through. -/
def Removable (env : ExpiryEnv) (fs : Fs FileData) (canon : Location) : Prop :=
  fs.lookup canon = some .dir ∧ env.stopped canon = none

/-- What is removed for an entry is an expired entry, listed by that name. -/
def TakesItself (root : Location) (Expired : Name → Prop) (e : StashEntry)
    (canon : Location) : Prop :=
  ∃ n, canon = root ++ [n] ∧ n.lossy = e.name ∧ Expired n

/-- What a failing removal gets to is an expired entry's, or was not there. -/
def FailsHarmlessly (env : ExpiryEnv) (root : Location) (Expired : Name → Prop)
    (fs : Fs FileData) (canon : Location) : Prop :=
  (∃ n, canon = root ++ [n] ∧ Expired n) ∨ (fs.lookup canon = some .dir →
    ∀ gone, env.stopped canon = some gone → ∀ rel ∈ gone, fs.lookup (canon ++ rel) = none)

section Turns

variable {env : ExpiryEnv} {root : Location} {Expired : Name → Prop}

theorem expiryTarget_under {fs : Fs FileData} {name : Name} {canon : Location}
    (h : expiryTarget fs root name = some canon) : ∃ n, canon = root ++ [n] := by
  unfold expiryTarget at h
  split at h
  · cases h
  · split at h
    · next hin =>
      obtain rfl := Option.some.inj h
      obtain ⟨hne, hroot⟩ := hin
      exact ⟨_, hroot ▸ (List.dropLast_append_getLast hne).symm⟩
    · cases h

theorem removeExpired_ok {fs : Fs FileData} {canon : Location} (h : Removable env fs canon) :
    removeExpired env canon fs = (removeSubtree fs canon, true) := by
  rw [removeExpired, if_pos h.1, h.2, removeDirAllAt]

theorem removeExpired_error {fs : Fs FileData} {canon : Location}
    (h : ¬ Removable env fs canon) :
    removeExpired env canon fs = ((removeExpired env canon fs).1, false) := by
  unfold removeExpired
  split
  · next hdir =>
    cases hstop : env.stopped canon with
    | none => exact absurd ⟨hdir, hstop⟩ h
    | some gone => rfl
  · rfl

theorem lookup_cleared_none {fs : Fs FileData} {p : Location} (entries : List StashEntry)
    (h : fs.lookup p = none) : (cleared root entries fs).lookup p = none := by
  refine List.foldlRecOn (motive := fun fs : Fs FileData => fs.lookup p = none) entries _ h ?_
  intro fs hnone e _
  split
  · simp [hnone]
  · exact hnone

/-- The failing removal touches no other entry, exactly when it is harmless. -/
theorem failing_spares_iff {fs : Fs FileData} {x : Name}
    (hfail : ¬ Removable env fs (root ++ [x])) :
    (∀ n, ¬ Expired n → ∀ rel, (removeExpired env (root ++ [x]) fs).1.lookup (root ++ [n] ++ rel) =
        fs.lookup (root ++ [n] ++ rel)) ↔ FailsHarmlessly env root Expired fs (root ++ [x]) := by
  have hother : ∀ n, n ≠ x → ∀ rel,
      (removeExpired env (root ++ [x]) fs).1.lookup (root ++ [n] ++ rel) =
        fs.lookup (root ++ [n] ++ rel) := by
    intro n hne rel
    unfold removeExpired
    split
    · refine lookup_removeDirAllAt_other _ _ fun hpre => hne ?_
      rw [List.append_assoc, List.prefix_append_right_inj, List.singleton_append,
        List.cons_prefix_cons] at hpre
      exact hpre.1.symm
    · rfl
  constructor
  · intro hsame
    by_cases hx : Expired x
    · exact Or.inl ⟨x, rfl, hx⟩
    · refine Or.inr fun hdir gone hstop rel hrel => ?_
      have hgone := hsame x hx rel
      rw [removeExpired, if_pos hdir, hstop, removeDirAllAt, lookup_foldl_erase,
        if_pos ⟨rel, hrel, rfl⟩] at hgone
      exact hgone.symm
  · rintro hharmless n hn rel
    by_cases hne : n = x
    · subst hne
      rcases hharmless with ⟨m, hm, hexpired⟩ | hnone
      · obtain rfl : n = m := by simpa using hm
        exact absurd hexpired hn
      · unfold removeExpired
        split
        · next hdir =>
          cases hstop : env.stopped (root ++ [n]) with
          | none => exact absurd ⟨hdir, hstop⟩ hfail
          | some gone =>
            rw [removeDirAllAt, lookup_foldl_erase]
            split
            · next hgot =>
              obtain ⟨r, hr, heq⟩ := hgot
              rw [heq, hnone hdir gone hstop r hr]
            · rfl
        · rfl
    · exact hother n hne rel

/-- What the turns from here on have to be, `before` saying whether anything has been removed. -/
def TurnsFrom (env : ExpiryEnv) (root : Location) (Expired : Name → Prop) (before : Prop)
    (entries : List StashEntry) (fs : Fs FileData) : Prop :=
  ∀ pre e post canon, entries = pre ++ e :: post →
    expiryTarget (cleared root pre fs) root e.name = some canon →
      (Removable env (cleared root pre fs) canon → TakesItself root Expired e canon) ∧
        (¬ Removable env (cleared root pre fs) canon → post = [] ∧ ¬ before ∧
          (∀ p, (cleared root pre fs).lookup p = fs.lookup p) ∧
            FailsHarmlessly env root Expired (cleared root pre fs) canon)

/-- What the run from here on accounts for. -/
def RunFrom (root : Location) (Expired : Name → Prop) (before : Prop)
    (entries : List StashEntry) (fs : Fs FileData) (run : ExpireRun) : Prop :=
  (match run.result with
    | .ok outcome => outcome.removed.map (fun r => some r.name) = run.trace.map listedName
    | .error _ => run.trace = [] ∧ ¬ before) ∧
    run.turns = entries ∧
      ∀ n, ¬ Expired n → ∀ rel, run.fs.lookup (root ++ [n] ++ rel) = fs.lookup (root ++ [n] ++ rel)

variable {before : Prop} {e : StashEntry} {rest : List StashEntry} {fs : Fs FileData}
  {canon : Location}

theorem cleared_cons (h : expiryTarget fs root e.name = some canon) (entries : List StashEntry) :
    cleared root (e :: entries) fs = cleared root entries (removeSubtree fs canon) := by
  unfold cleared
  rw [List.foldl_cons, h]

theorem cleared_skip (h : expiryTarget fs root e.name = none) (entries : List StashEntry) :
    cleared root (e :: entries) fs = cleared root entries fs := by
  unfold cleared
  rw [List.foldl_cons, h]

theorem turnsFrom_skip (h : expiryTarget fs root e.name = none) :
    TurnsFrom env root Expired before (e :: rest) fs ↔
      TurnsFrom env root Expired before rest fs := by
  constructor
  · intro hturns pre e' post canon hsplit htarget
    have hturn := hturns (e :: pre) e' post canon (by rw [hsplit]; rfl)
    rw [cleared_skip h] at hturn
    exact hturn htarget
  · intro hturns pre e' post canon hsplit htarget
    cases pre with
    | nil =>
      obtain ⟨rfl, rfl⟩ := List.cons.inj hsplit
      exact absurd htarget (by simp [cleared, h])
    | cons d pre =>
      obtain ⟨rfl, hrest⟩ := List.cons.inj hsplit
      rw [cleared_skip h] at htarget ⊢
      exact hturns pre e' post canon hrest htarget

theorem turnsFrom_take (h : expiryTarget fs root e.name = some canon)
    (hgo : Removable env fs canon) :
    TurnsFrom env root Expired before (e :: rest) fs ↔
      TakesItself root Expired e canon ∧
        TurnsFrom env root Expired True rest (removeSubtree fs canon) := by
  constructor
  · intro hturns
    refine ⟨(hturns [] e rest canon rfl h).1 hgo, fun pre e' post canon' hsplit htarget => ?_⟩
    have hturn := hturns (e :: pre) e' post canon' (by rw [hsplit]; rfl)
    rw [cleared_cons h] at hturn
    obtain ⟨htakes, hfails⟩ := hturn htarget
    refine ⟨htakes, fun hfail => ?_⟩
    -- what was taken is no longer there
    have hsame := (hfails hfail).2.2.1 canon
    have hgone : (removeSubtree fs canon).lookup canon = none := by simp
    rw [lookup_cleared_none pre hgone, hgo.1] at hsame
    cases hsame
  · rintro ⟨htakes, hturns⟩ pre e' post canon' hsplit htarget
    cases pre with
    | nil =>
      obtain ⟨rfl, rfl⟩ := List.cons.inj hsplit
      obtain rfl := Option.some.inj (h.symm.trans htarget)
      exact ⟨fun _ => htakes, fun hfail => absurd hgo hfail⟩
    | cons d pre =>
      obtain ⟨rfl, hrest⟩ := List.cons.inj hsplit
      rw [cleared_cons h] at htarget ⊢
      obtain ⟨htakes', hfails⟩ := hturns pre e' post canon' hrest htarget
      exact ⟨htakes', fun hfail => absurd trivial (hfails hfail).2.1⟩

theorem turnsFrom_fail (h : expiryTarget fs root e.name = some canon)
    (hfail : ¬ Removable env fs canon) :
    TurnsFrom env root Expired before (e :: rest) fs ↔
      rest = [] ∧ ¬ before ∧ FailsHarmlessly env root Expired fs canon := by
  constructor
  · intro hturns
    obtain ⟨hlast, hfirst, -, hharmless⟩ := (hturns [] e rest canon rfl h).2 hfail
    exact ⟨hlast, hfirst, hharmless⟩
  · rintro ⟨rfl, hfirst, hharmless⟩ pre e' post canon' hsplit htarget
    cases pre with
    | nil =>
      obtain ⟨rfl, rfl⟩ := List.cons.inj hsplit
      obtain rfl := Option.some.inj (h.symm.trans htarget)
      exact ⟨fun hgo => absurd hgo hfail, fun _ => ⟨rfl, hfirst, fun _ => rfl, hharmless⟩⟩
    | cons d pre => simp at hsplit

/-- A removed entry is expired, or is missed. -/
theorem spared_take {after : Fs FileData} (hgo : Removable env fs canon)
    (hunder : ∃ n, canon = root ++ [n])
    (hgone : ∀ p, (removeSubtree fs canon).lookup p = none → after.lookup p = none) :
    (∀ n, ¬ Expired n → ∀ rel,
        after.lookup (root ++ [n] ++ rel) = fs.lookup (root ++ [n] ++ rel)) ↔
      (∃ n, canon = root ++ [n] ∧ Expired n) ∧ ∀ n, ¬ Expired n → ∀ rel,
        after.lookup (root ++ [n] ++ rel) = (removeSubtree fs canon).lookup (root ++ [n] ++ rel) := by
  obtain ⟨x, rfl⟩ := hunder
  have hother : ∀ n, n ≠ x → ∀ rel, (removeSubtree fs (root ++ [x])).lookup (root ++ [n] ++ rel) =
      fs.lookup (root ++ [n] ++ rel) := by
    intro n hne rel
    rw [lookup_removeSubtree, if_neg]
    intro hpre
    rw [List.append_assoc, List.prefix_append_right_inj, List.singleton_append,
      List.cons_prefix_cons] at hpre
    exact hne hpre.1.symm
  constructor
  · intro hsame
    have hx : Expired x := by
      by_contra hno
      have hlost := hsame x hno []
      rw [List.append_nil, hgo.1, hgone _ (by simp)] at hlost
      cases hlost
    refine ⟨⟨x, rfl, hx⟩, fun n hn rel => ?_⟩
    rw [hsame n hn rel, hother n (fun heq => hn (heq ▸ hx)) rel]
  · rintro ⟨⟨n', heq, hx⟩, hsame⟩ n hn rel
    obtain rfl : x = n' := by simpa using heq
    rw [hsame n hn rel, hother n (fun heq => hn (heq ▸ hx)) rel]

theorem takesItself_iff {x : Name} (hx : canon = root ++ [x]) :
    TakesItself root Expired e canon ↔
      listedName canon = some e.name ∧ ∃ n, canon = root ++ [n] ∧ Expired n := by
  have hlisted : listedName canon = some x.lossy := by simp [listedName, hx]
  rw [hlisted]
  constructor
  · rintro ⟨n, hn, hname, hexpired⟩
    obtain rfl : x = n := by simpa using hx.symm.trans hn
    exact ⟨congrArg some hname, x, hn, hexpired⟩
  · rintro ⟨hname, n, hn, hexpired⟩
    obtain rfl : x = n := by simpa using hx.symm.trans hn
    exact ⟨x, hn, Option.some.inj hname, hexpired⟩

/-! ## The loop -/

variable {empty : ExpireOutcome}

theorem expireLoop_skip (h : expiryTarget fs root e.name = none) :
    expireLoop env root true empty (e :: rest) fs =
      { expireLoop env root true empty rest fs with
        turns := e :: (expireLoop env root true empty rest fs).turns } := by
  rw [expireLoop, h]

theorem expireLoop_take (h : expiryTarget fs root e.name = some canon)
    (hgo : Removable env fs canon) :
    expireLoop env root true empty (e :: rest) fs =
      { fs := (expireLoop env root true empty rest (removeSubtree fs canon)).fs
        trace := canon :: (expireLoop env root true empty rest (removeSubtree fs canon)).trace
        turns := e :: (expireLoop env root true empty rest (removeSubtree fs canon)).turns
        result := (expireLoop env root true empty rest (removeSubtree fs canon)).result.map
          (·.adding e) } := by
  rw [expireLoop, h]
  dsimp only
  rw [removeExpired_ok hgo]
  rfl

theorem expireLoop_fail (h : expiryTarget fs root e.name = some canon)
    (hfail : ¬ Removable env fs canon) :
    expireLoop env root true empty (e :: rest) fs =
      ⟨(removeExpired env canon fs).1, [], [e], .error env.ioError⟩ := by
  rw [expireLoop, h]
  dsimp only
  rw [removeExpired_error hfail]
  rfl

/-- The loop takes, and puts nothing. -/
theorem lookup_expireLoop_or (p : Location) (entries : List StashEntry) (fs : Fs FileData) :
    (expireLoop env root true empty entries fs).fs.lookup p = fs.lookup p ∨
      (expireLoop env root true empty entries fs).fs.lookup p = none := by
  induction entries generalizing fs with
  | nil => exact Or.inl rfl
  | cons e rest ih =>
    cases htarget : expiryTarget fs root e.name with
    | none =>
      rw [expireLoop_skip htarget]
      exact ih fs
    | some canon =>
      by_cases hgo : Removable env fs canon
      · rw [expireLoop_take htarget hgo]
        dsimp only
        rcases ih (removeSubtree fs canon) with hsame | hnone
        · rw [hsame, lookup_removeSubtree]
          split
          · exact Or.inr rfl
          · exact Or.inl rfl
        · exact Or.inr hnone
      · rw [expireLoop_fail htarget hgo]
        unfold removeExpired
        dsimp only
        split
        · exact lookup_removeDirAllAt_or _ _ _ _
        · exact Or.inl rfl

theorem lookup_expireLoop_none {p : Location} (entries : List StashEntry)
    (h : fs.lookup p = none) : (expireLoop env root true empty entries fs).fs.lookup p = none := by
  rcases @lookup_expireLoop_or env root empty p entries fs with hsame | hnone
  · rw [hsame, h]
  · exact hnone

/-- **The loop accounts for its removals** when its turns are as they should be. -/
theorem runFrom_iff (hempty : empty.removed = []) (entries : List StashEntry) :
    RunFrom root Expired before entries fs (expireLoop env root true empty entries fs) ↔
      TurnsFrom env root Expired before entries fs := by
  induction entries generalizing before fs with
  | nil =>
    refine iff_of_true ⟨?_, rfl, fun _ _ _ => rfl⟩ fun pre e post canon hsplit => ?_
    · simp [expireLoop, hempty]
    · simp at hsplit
  | cons e rest ih =>
    cases htarget : expiryTarget fs root e.name with
    | none =>
      rw [turnsFrom_skip htarget, expireLoop_skip htarget, ← ih]
      simp [RunFrom]
    | some canon =>
      by_cases hgo : Removable env fs canon
      · rw [turnsFrom_take htarget hgo, expireLoop_take htarget hgo, ← ih]
        have hgone := fun p hp => @lookup_expireLoop_none env root
          (removeSubtree fs canon) empty p rest hp
        obtain ⟨x, hx⟩ := expiryTarget_under htarget
        generalize expireLoop env root true empty rest (removeSubtree fs canon) = run at hgone ⊢
        unfold RunFrom
        rw [spared_take hgo ⟨x, hx⟩ hgone]
        rw [takesItself_iff hx]
        cases run.result with
        | error error => simp [Except.map]
        | ok outcome =>
          simp only [Except.map, ExpireOutcome.adding, StashEntry.record, List.map_cons,
            List.cons.injEq, true_and]
          constructor
          · rintro ⟨⟨hname, hnames⟩, hturns, hexpired, hspared⟩
            exact ⟨⟨hname.symm, hexpired⟩, hnames, hturns, hspared⟩
          · rintro ⟨⟨hname, hexpired⟩, hnames, hturns, hspared⟩
            exact ⟨⟨hname.symm, hnames⟩, hturns, hexpired, hspared⟩
      · rw [turnsFrom_fail htarget hgo, expireLoop_fail htarget hgo]
        obtain ⟨x, rfl⟩ := expiryTarget_under htarget
        unfold RunFrom
        rw [failing_spares_iff hgo]
        simp only [List.cons.injEq, true_and]
        constructor
        · rintro ⟨hbefore, hlast, hharmless⟩
          exact ⟨hlast.symm, hbefore, hharmless⟩
        · rintro ⟨hlast, hbefore, hharmless⟩
          exact ⟨hbefore, hlast.symm, hharmless⟩

/-- A removal that fails leaves the directory itself: `rmdir` is its last step. -/
def ExpiryEnv.Removal (env : ExpiryEnv) : Prop :=
  ∀ canon gone, env.stopped canon = some gone → [] ∉ gone

/-- **What is gone from under the root** is what was removed. -/
theorem gone_iff_traced (hremoval : env.Removal) (entries : List StashEntry) {n : Name}
    (hthere : (fs.lookup (root ++ [n])).isSome) :
    (expireLoop env root true empty entries fs).fs.lookup (root ++ [n]) = none ↔
      root ++ [n] ∈ (expireLoop env root true empty entries fs).trace := by
  induction entries generalizing fs with
  | nil =>
    refine iff_of_false (fun hnone => ?_) List.not_mem_nil
    rw [show fs.lookup (root ++ [n]) = none from hnone] at hthere
    cases hthere
  | cons e rest ih =>
    cases htarget : expiryTarget fs root e.name with
    | none =>
      rw [expireLoop_skip htarget]
      exact ih hthere
    | some canon =>
      obtain ⟨x, rfl⟩ := expiryTarget_under htarget
      have hunder : ∀ {k : Location}, root ++ [x] ++ k = root ++ [n] → n = x ∧ k = [] := by
        intro k heq
        simpa [and_comm, eq_comm] using heq
      by_cases hgo : Removable env fs (root ++ [x])
      · rw [expireLoop_take htarget hgo, List.mem_cons]
        by_cases hx : n = x
        · subst hx
          exact iff_of_true (lookup_expireLoop_none rest (by simp)) (Or.inl rfl)
        · have hleft : ¬ root ++ [x] <+: root ++ [n] := fun ⟨k, hk⟩ => hx (hunder hk).1
          have hother : root ++ [n] ≠ root ++ [x] := fun heq => hx (by simpa using heq)
          rw [ih (by rwa [lookup_removeSubtree, if_neg hleft])]
          simp [hother]
      · rw [expireLoop_fail htarget hgo]
        refine iff_of_false (fun hnone => ?_) List.not_mem_nil
        unfold removeExpired at hnone
        dsimp only at hnone
        split at hnone
        · next hdir =>
          cases hstop : env.stopped (root ++ [x]) with
          | none => exact hgo ⟨hdir, hstop⟩
          | some gone =>
            rw [hstop, removeDirAllAt, lookup_foldl_erase, if_neg] at hnone
            · rw [hnone] at hthere
              cases hthere
            · rintro ⟨rel, hrel, heq⟩
              exact hremoval _ gone hstop ((hunder heq.symm).2 ▸ hrel)
        · rw [hnone] at hthere
          cases hthere

end Turns

/-! ## When a pass accounts for what it deletes -/

/-- What an applying pass has to account for, where the root can be listed. -/
def ExpiryAccounts (t : Disk FileData) (env : ExpiryEnv) (root : String) (ttlDays : Nat) : Prop :=
  ∀ list canonRoot, stashList t env root ttlDays = .ok list → t.canonicalize root = .ok canonRoot →
    AccountsForDeletions canonRoot (ListedExpired t env canonRoot ttlDays)
      (list.entries.filter (·.expired)) (expiryStart t env canonRoot)
      (stashExpireDetailed t env root ttlDays true)

theorem accountsForDeletions_iff {root : Location} {Expired : Name → Prop}
    {expired : List StashEntry} {start : Fs FileData} {run : ExpireRun} :
    AccountsForDeletions root Expired expired start run ↔
      RunFrom root Expired False expired start run := by
  have hrecorded : run.logged.map some = run.trace.map listedName ↔
      match run.result with
        | .ok outcome => outcome.removed.map (fun r => some r.name) = run.trace.map listedName
        | .error _ => run.trace = [] ∧ ¬ False := by
    unfold ExpireRun.logged
    cases run.result with
    | ok outcome => simp [Function.comp_def]
    | error e => simp [eq_comm]
  constructor
  · exact fun h => ⟨hrecorded.mp h.recorded, h.processed, h.spared⟩
  · exact fun h => ⟨hrecorded.mpr h.1, h.2.1, h.2.2⟩

/-- **When an expiry pass accounts for what it deletes.** -/
theorem expiry_accounts_iff (t : Disk FileData) (env : ExpiryEnv) (root : String)
    (ttlDays : Nat) :
    ExpiryAccounts t env root ttlDays ↔
      ∀ list canonRoot, stashList t env root ttlDays = .ok list →
        t.canonicalize root = .ok canonRoot →
          TurnsFrom env canonRoot (ListedExpired t env canonRoot ttlDays) False
            (list.entries.filter (·.expired)) (expiryStart t env canonRoot) := by
  have hpass : ∀ list canonRoot, stashList t env root ttlDays = .ok list →
      t.canonicalize root = .ok canonRoot →
        stashExpireDetailed t env root ttlDays true =
          expireLoop env canonRoot true ⟨[], list.pinned, list.pinnedBytes⟩
            (list.entries.filter (·.expired)) (expiryStart t env canonRoot) := by
    intro list canonRoot hlist hroot
    unfold stashExpireDetailed
    rw [hlist, hroot]
    rfl
  constructor
  · intro haccounts list canonRoot hlist hroot
    have h := haccounts list canonRoot hlist hroot
    rw [hpass list canonRoot hlist hroot, accountsForDeletions_iff] at h
    exact (runFrom_iff rfl _).mp h
  · intro hturns list canonRoot hlist hroot
    rw [hpass list canonRoot hlist hroot, accountsForDeletions_iff]
    exact (runFrom_iff rfl _).mpr (hturns list canonRoot hlist hroot)

/-! ## A removal that fails -/

private def weekA : Name := ⟨"a.0", by decide⟩

private def weekB : Name := ⟨"b.0", by decide⟩

private def weekManifest : StashManifest :=
  { name := "a.0", origin := "/a", movedAtUnix := 0, bytes := 0, files := 0, auto := false }

/-- `/stash/a.0` and `/stash/b.0`, each with a manifest. -/
private def weekTree : Disk FileData where
  fs := (((((∅ : Fs FileData).insert [stashName] .dir).insert [stashName, weekA] .dir).insert
    [stashName, weekA, manifestName] (.file (.manifest weekManifest 2))).insert
    [stashName, weekB] .dir).insert
    [stashName, weekB, manifestName] (.file (.manifest weekManifest 2))
  closed := FileTree.closed_of_keys (by decide)
  cwd := []
  cwd_dir := rfl

/-- A week and a second later, where one entry cannot be removed. -/
private def weekEnv (kept : Name) : ExpiryEnv where
  now _ := 604801
  stopped q := if q = [stashName, kept] then some [] else none

private theorem week_listed (kept : Name)
    (h : (stashList weekTree (weekEnv kept) "/stash" 7).toOption.isSome = true) :
    ∃ list, stashList weekTree (weekEnv kept) "/stash" 7 = .ok list := by
  cases hlist : stashList weekTree (weekEnv kept) "/stash" 7 with
  | error e => simp [hlist, Except.toOption] at h
  | ok list => exact ⟨list, rfl⟩

/-- The second entry cannot be removed: the first is gone and nothing is logged. The first cannot
be removed: the second does not have its turn. -/
theorem failed_removal_unaccounted :
    (¬ ExpiryAccounts weekTree (weekEnv weekB) "/stash" 7 ∧
      (stashExpireDetailed weekTree (weekEnv weekB) "/stash" 7 true).fs.lookup
        [stashName, weekA] = none ∧
      (stashExpireDetailed weekTree (weekEnv weekB) "/stash" 7 true).logged = []) ∧
    ¬ ExpiryAccounts weekTree (weekEnv weekA) "/stash" 7 := by
  have hroot : weekTree.canonicalize "/stash" = .ok [stashName] := by decide +kernel
  refine ⟨⟨fun haccounts => ?_, by decide +kernel, by decide +kernel⟩, fun haccounts => ?_⟩
  · obtain ⟨list, hlist⟩ := week_listed weekB (by decide +kernel)
    have hrecorded := (haccounts list [stashName] hlist hroot).recorded
    revert hrecorded
    decide +kernel
  · obtain ⟨list, hlist⟩ := week_listed weekA (by decide +kernel)
    have hturns := (haccounts list [stashName] hlist hroot).processed
    have hone : (stashExpireDetailed weekTree (weekEnv weekA) "/stash" 7 true).turns.length = 1 := by
      decide +kernel
    have htwo : (stashList weekTree (weekEnv weekA) "/stash" 7).toOption.map
        (fun list => (list.entries.filter (·.expired)).length) = some 2 := by decide +kernel
    rw [hlist] at htwo
    have hlength := Option.some.inj htwo
    rw [hturns] at hone
    dsimp only at hlength
    omega

end DraconGuard
