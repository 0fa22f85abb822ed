import DraconGuard.Clean.TmpSweep

/-!
# Gates and accounts of the sweep

Three ways lead to the removal of an entry of a temporary root, and all of them ask
`tmp_entry_block` first (`judgeE2e_taken`, `judgeGeneral_taken`). The accounts are another matter.
`age_blocked_bytes` is documented as what is held back "ONLY by the age floor", "too young for the
floor that applies"; the general pass has it for whatever is fresh to it and passes the gates, and

* a tree that cannot be read to its end is fresh at every age (`treeHasFreshContent_eq`),
* an entry the fast path lets go, and may have counted, is fresh to the general pass.

`tmp_gated_iff` says that the accounts are right exactly when the sweep meets neither.
-/

namespace DraconGuard

open FileTree (Disk Location Name Entry WalkItem walkDir)

variable {δ : Type}

/-! ## What an age floor can say -/

/-- An item of the walk whose time is known, or does not matter. -/
def datedItem (host : TmpHost δ) (dir : Location) : WalkItem δ → Bool
  | .failed _ => false
  | .entry _ (.symlink _) => true
  | .entry rel _ => (host.mtime (dir ++ rel)).isSome

/-- An item that is younger than the cutoff. -/
def youngItem (host : TmpHost δ) (dir : Location) (cutoff : Int) : WalkItem δ → Bool
  | .failed _ => false
  | .entry _ (.symlink _) => false
  | .entry rel _ => (host.mtime (dir ++ rel)).any (cutoff < ·.nanos)

/-- The content can be read to its end. -/
def TmpHost.readable (host : TmpHost δ) (path : Location) (e : Entry δ) : Bool :=
  !e.isDir || (walkDir host.fs host.scan none path).all (datedItem host path)

/-- Something in it is younger than the cutoff. -/
def TmpHost.tooYoung (host : TmpHost δ) (path : Location) (e : Entry δ) (cutoff : Int) : Bool :=
  if e.isDir then (walkDir host.fs host.scan none path).any (youngItem host path cutoff)
  else (host.mtime path).any (cutoff < ·.nanos)

theorem freshItem_eq (host : TmpHost δ) (dir : Location) (cutoff : Int) (item : WalkItem δ) :
    freshItem host dir cutoff item = (youngItem host dir cutoff item || !datedItem host dir item) := by
  cases item with
  | failed rel => rfl
  | entry rel e =>
    cases hmtime : host.mtime (dir ++ rel) with
    | none => cases e <;> simp [freshItem, youngItem, datedItem, hmtime]
    | some modified => cases e <;> simp [freshItem, youngItem, datedItem, hmtime]

/-- A tree is fresh when it is young, or not to be read. -/
theorem treeHasFreshContent_eq (host : TmpHost δ) (dir : Location) (cutoff : Int) :
    treeHasFreshContent host dir cutoff =
      ((walkDir host.fs host.scan none dir).any (youngItem host dir cutoff) ||
        !(walkDir host.fs host.scan none dir).all (datedItem host dir)) := by
  unfold treeHasFreshContent
  induction walkDir host.fs host.scan none dir with
  | nil => rfl
  | cons item items ih =>
    rw [List.any_cons, ih, freshItem_eq, List.any_cons, List.all_cons]
    cases youngItem host dir cutoff item <;> cases datedItem host dir item <;> simp

theorem isFresh_eq {host : TmpHost δ} {path : Location} {e : Entry δ} {modified : SystemTime}
    (h : host.mtime path = some modified) (cutoff : Int) :
    host.isFresh path e modified cutoff = (host.tooYoung path e cutoff || !host.readable path e) := by
  unfold TmpHost.isFresh TmpHost.tooYoung TmpHost.readable
  cases e.isDir with
  | true => simpa using treeHasFreshContent_eq host path cutoff
  | false => simp [h]

/-! ## Every removal passes every gate -/

/-- A turn leaves the entry alone: nothing is removed, nothing is counted as reclaimable. -/
def LeftAlone (s s' : TmpState δ) : Prop :=
  s'.host = s.host ∧ s'.out.reclaimed = s.out.reclaimed ∧ s'.out.cleaned = s.out.cleaned

theorem unless_eq_taken {size k : Nat} {b : Option TmpEntryBlock} :
    TmpVerdict.unless size b = .taken k ↔ b = none ∧ k = size := by
  cases b with
  | none => simp [TmpVerdict.unless, eq_comm]
  | some block => simp [TmpVerdict.unless]

/-- A link is passed over by both sweeps. -/
theorem symlinkMetadata_link {host : TmpHost δ} {root : Location} {n : Name}
    {target : FileTree.Spelled} (h : host.fs.lookup (root ++ [n]) = some (.symlink target)) :
    host.symlinkMetadata (root ++ [n]) = none ∨
      host.symlinkMetadata (root ++ [n]) = some (root ++ [n], .symlink target) := by
  unfold TmpHost.symlinkMetadata
  rw [host.lstat_render h]
  dsimp only
  split
  · exact Or.inl rfl
  · exact Or.inr rfl

section Judged

variable {host : TmpHost δ} {protectedPaths : List String} {openPaths : List Location}
  {root : Location} {n : Name} {size : Nat}

theorem judgeE2e_taken {floors : E2eFloors}
    (h : judgeE2e host floors protectedPaths openPaths root n = .taken size) :
    host.block protectedPaths openPaths root (root ++ [n]) = none ∧
      ∀ target, host.fs.lookup (root ++ [n]) ≠ some (.symlink target) := by
  constructor
  · unfold judgeE2e at h
    dsimp only at h
    split at h
    · cases h
    · cases h
    split at h
    · cases h
    split at h
    · split at h
      · cases h
      split at h
      · cases h
      exact (unless_eq_taken.mp h).1
    split at h
    · cases h
    split at h
    · cases h
    split at h
    · cases h
    exact (unless_eq_taken.mp h).1
  · intro target hlink
    unfold judgeE2e at h
    dsimp only at h
    rcases symlinkMetadata_link hlink with hmeta | hmeta
    · rw [hmeta] at h
      cases h
    · rw [hmeta] at h
      cases h

theorem judgeGeneral_taken {floors : GeneralFloors}
    (h : judgeGeneral host floors protectedPaths openPaths root n = .taken size) :
    host.block protectedPaths openPaths root (root ++ [n]) = none ∧
      ∀ target, host.fs.lookup (root ++ [n]) ≠ some (.symlink target) := by
  constructor
  · unfold judgeGeneral at h
    dsimp only at h
    split at h
    · cases h
    · cases h
    split at h
    · cases h
    split at h
    · split at h
      · split at h
        · exact (unless_eq_taken.mp h).1
        split at h <;> cases h
      split at h <;> cases h
    · exact (unless_eq_taken.mp h).1
  · intro target hlink
    unfold judgeGeneral at h
    dsimp only at h
    rcases symlinkMetadata_link hlink with hmeta | hmeta
    · rw [hmeta] at h
      cases h
    · rw [hmeta] at h
      cases h

end Judged

theorem leftAlone_settle {sweep : TmpSweep δ} {s : TmpState δ} {path : Location}
    {verdict : TmpVerdict} (h : ∀ size, verdict ≠ .taken size) :
    LeftAlone s (sweep.settle s path verdict) := by
  cases verdict with
  | taken size => exact absurd rfl (h size)
  | passedOver => exact ⟨rfl, rfl, rfl⟩
  | kept block => exact ⟨rfl, rfl, rfl⟩
  | heldBack size large => exact ⟨rfl, rfl, rfl⟩

/-- What no turn may touch: a link, and an entry that `tmp_entry_block` stops, asked with what the
sweep read before its loop. -/
def Barred (policy : TmpPolicy) (openPaths : List Location) (turn : TmpState δ × Location × Name) :
    Prop :=
  (∃ target, turn.1.host.fs.lookup (turn.2.1 ++ [turn.2.2]) = some (.symlink target)) ∨
    turn.1.host.block policy.protectedPaths openPaths turn.2.1 (turn.2.1 ++ [turn.2.2]) ≠ none

/-- **Every removal path passes every gate**: a sweep that begins on `host` leaves alone what is
barred. -/
def SweepGated (policy : TmpPolicy) (sweep : TmpSweep δ) (host : TmpHost δ) : Prop :=
  ∀ openPaths, collectOpenPaths host sweep.roots = some openPaths →
    ∀ turn ∈ sweep.allTurns { host := host }, Barred policy openPaths turn →
      LeftAlone turn.1 (sweep.visit turn.1 turn.2)

theorem turns_nil_of_no_roots {sweep : TmpSweep δ} (h : sweep.roots = []) (s : TmpState δ) :
    sweep.allTurns s = [] := by
  rw [TmpSweep.allTurns, h, TmpSweep.turnsFrom]

section Begun

variable (policy : TmpPolicy) (call : TmpCleanup) (host : TmpHost δ)

/-- The cutoffs of the fast path. -/
def e2eFloors : E2eFloors where
  patterns := policy.e2ePatterns
  generalCutoff := tmpAgeCutoff call.before policy.minAgeHours
  fastCutoff := fastCutoff policy call host.now

/-- The cutoffs of the general pass. -/
def generalFloors : GeneralFloors where
  cutoff := tmpAgeCutoff call.later.now policy.minAgeHours
  largeActive := largeFloorActive policy call
  largeEntryBytes := policy.largeEntryBytes
  largeCutoff := tmpAgeCutoff call.later.now policy.largeMinAgeHours

/-- The fast path that does nothing, or what it goes by. -/
theorem e2ePass_cases :
    e2ePass policy call host = { apply := call.apply, stamp := call.stamp } ∨
      (policy.minAgeHours ≠ 0 ∧ policy.e2eMinAgeHours ≠ 0) ∧ ∃ roots openPaths,
        resolveSafeTmpRoots host policy.searchPaths [] = .ok roots ∧
          collectOpenPaths host roots = some openPaths ∧
            e2ePass policy call host = {
              roots := roots
              judge := fun now => judgeE2e now (e2eFloors policy call host)
                policy.protectedPaths openPaths
              apply := call.apply
              stamp := call.stamp } := by
  unfold e2ePass e2eSweep
  dsimp only
  by_cases hoff : policy.minAgeHours = 0 ∨ policy.e2eMinAgeHours = 0
  · rw [if_pos hoff]
    exact Or.inl rfl
  rw [if_neg hoff]
  split
  · exact Or.inl rfl
  split
  · exact Or.inl rfl
  split
  · exact Or.inl rfl
  next roots hroots =>
  split
  · exact Or.inl rfl
  next openPaths hopen =>
  split
  · exact Or.inl rfl
  · exact Or.inr ⟨not_or.mp hoff, roots, openPaths, hroots, hopen, rfl⟩

/-- The general pass likewise, on the machine it begins on. -/
theorem generalPass_cases :
    generalPass policy call host = { apply := call.apply, stamp := call.stamp } ∨
      policy.minAgeHours ≠ 0 ∧ ∃ roots openPaths,
        resolveSafeTmpRoots (betweenPasses policy call host) policy.searchPaths [] = .ok roots ∧
          collectOpenPaths (betweenPasses policy call host) roots = some openPaths ∧
            generalPass policy call host = {
              roots := roots
              judge := fun now => judgeGeneral now (generalFloors policy call)
                policy.protectedPaths openPaths
              apply := call.apply
              stamp := call.stamp } := by
  unfold generalPass generalSweep
  dsimp only
  split
  · exact Or.inl rfl
  next hoff =>
  split
  · exact Or.inl rfl
  next roots hroots =>
  split
  · exact Or.inl rfl
  next openPaths hopen =>
  split
  · exact Or.inl rfl
  · exact Or.inr ⟨(not_or.mp hoff).2, roots, openPaths, hroots, hopen, rfl⟩

theorem e2ePass_gated : SweepGated policy (e2ePass policy call host) host := by
  intro openPaths hopen turn hturn hbarred
  refine leftAlone_settle fun size htaken => ?_
  rcases e2ePass_cases policy call host with hidle | ⟨-, roots, read, -, hread, heq⟩
  · rw [hidle] at htaken
    cases htaken
  · rw [heq] at hopen htaken
    obtain rfl := Option.some.inj (hread.symm.trans hopen)
    obtain ⟨hblock, hlink⟩ := judgeE2e_taken htaken
    rcases hbarred with ⟨target, htarget⟩ | hbarred
    · exact hlink target htarget
    · exact hbarred hblock

theorem generalPass_gated :
    SweepGated policy (generalPass policy call host) (betweenPasses policy call host) := by
  intro openPaths hopen turn hturn hbarred
  refine leftAlone_settle fun size htaken => ?_
  rcases generalPass_cases policy call host with hidle | ⟨-, roots, read, -, hread, heq⟩
  · rw [hidle] at htaken
    cases htaken
  · rw [heq] at hopen htaken
    obtain rfl := Option.some.inj (hread.symm.trans hopen)
    obtain ⟨hblock, hlink⟩ := judgeGeneral_taken htaken
    rcases hbarred with ⟨target, htarget⟩ | hbarred
    · exact hlink target htarget
    · exact hbarred hblock

end Begun

/-! ## What the age floors hold back -/

def TmpVerdict.held : TmpVerdict → Option Nat
  | .heldBack size _ => some size
  | _ => none

/-- The bytes a turn adds to the held-back account. -/
def heldBytes (sweep : TmpSweep δ) (turn : TmpState δ × Location × Name) : Nat :=
  (sweep.judge turn.1.host turn.2.1 turn.2.2).held.getD 0

def isHeld (sweep : TmpSweep δ) (turn : TmpState δ × Location × Name) : Bool :=
  (sweep.judge turn.1.host turn.2.1 turn.2.2).held.isSome

section Accounts

variable {sweep : TmpSweep δ}

variable (sweep) in
theorem visit_held (s : TmpState δ) (entry : Location × Name) :
    (sweep.visit s entry).out.ageBlockedBytes =
        s.out.ageBlockedBytes + heldBytes sweep (s, entry) ∧
      (sweep.visit s entry).out.ageBlockedEntries =
        s.out.ageBlockedEntries + (isHeld sweep (s, entry)).toNat := by
  unfold TmpSweep.visit heldBytes isHeld
  dsimp only
  cases sweep.judge s.host entry.1 entry.2 with
  | passedOver => exact ⟨rfl, rfl⟩
  | kept block => exact ⟨rfl, rfl⟩
  | heldBack size large => exact ⟨rfl, rfl⟩
  | taken size =>
    unfold TmpSweep.settle
    dsimp only
    split
    · exact ⟨rfl, rfl⟩
    · split <;> exact ⟨rfl, rfl⟩

/-- What the account grows by over some turns. -/
def Grown (sweep : TmpSweep δ) (s s' : TmpState δ) (turns : List (TmpState δ × Location × Name)) :
    Prop :=
  s'.out.ageBlockedBytes = s.out.ageBlockedBytes + (turns.map (heldBytes sweep)).sum ∧
    s'.out.ageBlockedEntries = s.out.ageBlockedEntries + turns.countP (isHeld sweep)

theorem Grown.append {s s' s'' : TmpState δ} {turns turns' : List (TmpState δ × Location × Name)}
    (h : Grown sweep s s' turns) (h' : Grown sweep s' s'' turns') :
    Grown sweep s s'' (turns ++ turns') := by
  obtain ⟨hbytes, hentries⟩ := h
  obtain ⟨hbytes', hentries'⟩ := h'
  constructor
  · rw [hbytes', hbytes, List.map_append, List.sum_append, Nat.add_assoc]
  · rw [hentries', hentries, List.countP_append, Nat.add_assoc]

theorem grown_visit (s : TmpState δ) (entry : Location × Name) :
    Grown sweep s (sweep.visit s entry) [(s, entry)] := by
  obtain ⟨hbytes, hentries⟩ := visit_held sweep s entry
  refine ⟨by simpa using hbytes, ?_⟩
  rw [hentries]
  cases hheld : isHeld sweep (s, entry) <;> simp [hheld]

theorem grown_turns (s : TmpState δ) (entries : List (Location × Name)) :
    Grown sweep s (entries.foldl sweep.visit s) (sweep.turns s entries) := by
  induction entries generalizing s with
  | nil => exact ⟨rfl, rfl⟩
  | cons entry rest ih => exact (grown_visit s entry).append (ih (sweep.visit s entry))

variable (sweep) in
theorem grown_run (s : TmpState δ) : Grown sweep s (sweep.run s) (sweep.allTurns s) := by
  unfold TmpSweep.run TmpSweep.allTurns TmpSweep.runFrom
  induction sweep.roots generalizing s with
  | nil => exact ⟨rfl, rfl⟩
  | cons root rest ih =>
    exact (grown_turns s (TmpSweep.listed s root)).append (ih _)

end Accounts

/-! ## Held back by age alone -/

/-- What a path names, when that is no link and has a time. -/
def TmpHost.candidate (host : TmpHost δ) (path : Location) : Option (Entry δ) :=
  match host.symlinkMetadata path with
  | none => none
  | some (_, .symlink _) => none
  | some (_, e) => if (host.mtime path).isSome then some e else none

section Alone

variable (policy : TmpPolicy) (call : TmpCleanup) (host : TmpHost δ)

/-- The size-aware floor applies to an entry of that size. -/
def largeApplies (size : Nat) : Bool :=
  largeFloorActive policy call && policy.largeEntryBytes ≤ size

/-- The floor of the fast path applies to an entry of that name. -/
def e2eApplies (path : Location) : Bool :=
  policy.e2eMinAgeHours ≠ 0 && tmpE2eMatch (baseName path) policy.e2ePatterns

/-- Too young for the floors of the general pass. -/
def underGeneral (t : TmpHost δ) (path : Location) (e : Entry δ) : Bool :=
  t.tooYoung path e (generalFloors policy call).cutoff &&
    (!largeApplies policy call (t.entrySize path e) ||
      t.tooYoung path e (generalFloors policy call).largeCutoff)

/-- Too young for the floor of the fast path, where that applies. -/
def underE2e (t : TmpHost δ) (path : Location) (e : Entry δ) : Bool :=
  !e2eApplies policy path || t.tooYoung path e (fastCutoff policy call host.now)

/-- What the general pass read of the processes. -/
def generalOpen : List Location :=
  (collectOpenPaths (betweenPasses policy call host) (generalPass policy call host).roots).getD []

/-- The gates let the entry of a turn go. -/
def gatesOpen (turn : TmpState δ × Location × Name) : Bool :=
  (turn.1.host.block policy.protectedPaths (generalOpen policy call host) turn.2.1
    (turn.2.1 ++ [turn.2.2])).isNone

/-- Only an age floor holds the entry of a turn back: the gates let it go, its content can be read,
and it is too young for every floor that applies. -/
def onlyAge (turn : TmpState δ × Location × Name) : Bool :=
  let path := turn.2.1 ++ [turn.2.2]
  (turn.1.host.candidate path).any fun e =>
    gatesOpen policy call host turn && turn.1.host.readable path e &&
      underGeneral policy call turn.1.host path e && underE2e policy call host turn.1.host path e

def turnSize (turn : TmpState δ × Location × Name) : Nat :=
  let path := turn.2.1 ++ [turn.2.2]
  (turn.1.host.candidate path).elim 0 (turn.1.host.entrySize path)

/-- The turns of the general pass. -/
def generalTurns : List (TmpState δ × Location × Name) :=
  (generalPass policy call host).allTurns { host := betweenPasses policy call host }

/-- **Gates and accounts**: no sweep touches what is barred, and the general pass reports as held
back by age what only an age floor holds back. -/
structure TmpGated : Prop where
  e2e : SweepGated policy (e2ePass policy call host) host
  general : SweepGated policy (generalPass policy call host) (betweenPasses policy call host)
  bytes : (cleanTmp policy call host).2.ageBlockedBytes =
    (((generalTurns policy call host).filter (onlyAge policy call host)).map turnSize).sum
  entries : (cleanTmp policy call host).2.ageBlockedEntries =
    (generalTurns policy call host).countP (onlyAge policy call host)

/-- What the account takes for granted of an entry that the gates let go: its content can be read,
and where the fast path has a floor for it, that one is not behind it either. -/
def AgeDecides (turn : TmpState δ × Location × Name) : Prop :=
  let path := turn.2.1 ++ [turn.2.2]
  ∀ e, turn.1.host.candidate path = some e → gatesOpen policy call host turn = true →
    turn.1.host.readable path e = true ∧
      (underGeneral policy call turn.1.host path e = true →
        underE2e policy call host turn.1.host path e = true)

variable {policy call host}

theorem candidate_eq {t : TmpHost δ} {path q : Location} {e : Entry δ}
    (hmeta : t.symlinkMetadata path = some (q, e)) (hlink : ∀ target, e ≠ .symlink target) :
    t.candidate path = if (t.mtime path).isSome then some e else none := by
  unfold TmpHost.candidate
  rw [hmeta]
  cases e with
  | symlink target => exact absurd rfl (hlink target)
  | dir => rfl
  | file data => rfl
  | special => rfl

/-- What the general pass holds back: what the gates let go, and is young or unreadable. -/
theorem held_judgeGeneral (t : TmpHost δ) (openPaths : List Location) (root : Location) (n : Name) :
    (judgeGeneral t (generalFloors policy call) policy.protectedPaths openPaths root n).held =
      (t.candidate (root ++ [n])).bind fun e =>
        if (t.block policy.protectedPaths openPaths root (root ++ [n])).isNone &&
            (underGeneral policy call t (root ++ [n]) e || !t.readable (root ++ [n]) e) then
          some (t.entrySize (root ++ [n]) e)
        else none := by
  unfold judgeGeneral
  dsimp only
  split
  · next hmeta => simp [TmpHost.candidate, hmeta, TmpVerdict.held]
  · next hmeta => simp [TmpHost.candidate, hmeta, TmpVerdict.held]
  next q e hlink hmeta =>
  rw [candidate_eq hmeta fun target heq => hlink target heq]
  cases hmtime : t.mtime (root ++ [n]) with
  | none => rfl
  | some modified =>
    simp only [Option.isSome_some, if_true, Option.bind_some, isFresh_eq hmtime]
    have hfloors : underGeneral policy call t (root ++ [n]) e =
        (t.tooYoung (root ++ [n]) e (generalFloors policy call).cutoff &&
          (!((generalFloors policy call).largeActive &&
            decide ((generalFloors policy call).largeEntryBytes ≤ t.entrySize (root ++ [n]) e)) ||
              t.tooYoung (root ++ [n]) e (generalFloors policy call).largeCutoff)) := rfl
    rw [hfloors]
    generalize t.tooYoung (root ++ [n]) e (generalFloors policy call).cutoff = young
    generalize t.tooYoung (root ++ [n]) e (generalFloors policy call).largeCutoff = youngLarge
    generalize ((generalFloors policy call).largeActive && decide
      ((generalFloors policy call).largeEntryBytes ≤ t.entrySize (root ++ [n]) e)) = large
    generalize t.readable (root ++ [n]) e = readable
    cases hblock : t.block policy.protectedPaths openPaths root (root ++ [n]) with
    | none =>
      cases young <;> cases readable <;> cases large <;> cases youngLarge <;>
        simp [TmpVerdict.held, TmpVerdict.unless]
    | some block =>
      cases young <;> cases readable <;> cases large <;> cases youngLarge <;>
        simp [TmpVerdict.held, TmpVerdict.unless]

/-- A turn of the general pass, by the entry it comes to. -/
theorem held_turn {turn : TmpState δ × Location × Name} (h : turn ∈ generalTurns policy call host) :
    ((generalPass policy call host).judge turn.1.host turn.2.1 turn.2.2).held =
      (turn.1.host.candidate (turn.2.1 ++ [turn.2.2])).bind fun e =>
        if gatesOpen policy call host turn &&
            (underGeneral policy call turn.1.host (turn.2.1 ++ [turn.2.2]) e ||
              !turn.1.host.readable (turn.2.1 ++ [turn.2.2]) e) then
          some (turn.1.host.entrySize (turn.2.1 ++ [turn.2.2]) e)
        else none := by
  unfold gatesOpen generalOpen
  rcases generalPass_cases policy call host with hidle | ⟨-, roots, openPaths, -, hopen, heq⟩
  · unfold generalTurns at h
    rw [hidle] at h
    rw [turns_nil_of_no_roots rfl] at h
    cases h
  · rw [heq]
    dsimp only
    rw [hopen]
    exact held_judgeGeneral turn.1.host openPaths turn.2.1 turn.2.2

/-- The account has every entry that only an age floor holds back. -/
theorem isHeld_of_onlyAge {turn : TmpState δ × Location × Name}
    (h : turn ∈ generalTurns policy call host) (honly : onlyAge policy call host turn = true) :
    isHeld (generalPass policy call host) turn = true := by
  unfold isHeld
  rw [held_turn h]
  unfold onlyAge at honly
  dsimp only at honly
  cases hcand : turn.1.host.candidate (turn.2.1 ++ [turn.2.2]) with
  | none =>
    rw [hcand] at honly
    cases honly
  | some e =>
    rw [hcand, Option.any_some] at honly
    simp only [Bool.and_eq_true] at honly
    simp [honly.1.1.1, honly.1.2]

/-- It has no other, where age decides. -/
theorem onlyAge_of_isHeld_iff {turn : TmpState δ × Location × Name}
    (h : turn ∈ generalTurns policy call host) :
    (isHeld (generalPass policy call host) turn = true → onlyAge policy call host turn = true) ↔
      AgeDecides policy call host turn := by
  unfold isHeld AgeDecides onlyAge
  rw [held_turn h]
  dsimp only
  cases hcand : turn.1.host.candidate (turn.2.1 ++ [turn.2.2]) with
  | none => simp
  | some e =>
    simp only [Option.bind_some, Option.any_some, Option.some.injEq, forall_eq']
    generalize gatesOpen policy call host turn = gates
    generalize underGeneral policy call turn.1.host (turn.2.1 ++ [turn.2.2]) e = general
    generalize underE2e policy call host turn.1.host (turn.2.1 ++ [turn.2.2]) e = e2e
    generalize turn.1.host.readable (turn.2.1 ++ [turn.2.2]) e = readable
    cases gates <;> cases general <;> cases e2e <;> cases readable <;> simp

theorem heldBytes_eq {turn : TmpState δ × Location × Name}
    (h : turn ∈ generalTurns policy call host) :
    heldBytes (generalPass policy call host) turn =
      if isHeld (generalPass policy call host) turn then turnSize turn else 0 := by
  unfold heldBytes isHeld turnSize
  rw [held_turn h]
  dsimp only
  cases turn.1.host.candidate (turn.2.1 ++ [turn.2.2]) with
  | none => rfl
  | some e =>
    rw [Option.bind_some]
    split <;> rfl

/-! ## The boundary -/

theorem countP_eq_iff {α : Type} {p q : α → Bool} {l : List α}
    (h : ∀ a ∈ l, p a = true → q a = true) :
    l.countP q = l.countP p ↔ ∀ a ∈ l, q a = true → p a = true := by
  induction l with
  | nil => simp
  | cons a l ih =>
    have htail := ih fun b hb => h b (List.mem_cons_of_mem a hb)
    have hle : l.countP p ≤ l.countP q :=
      List.countP_mono_left fun b hb => h b (List.mem_cons_of_mem a hb)
    have hhead := h a List.mem_cons_self
    rw [List.countP_cons, List.countP_cons, List.forall_mem_cons, ← htail]
    cases hp : p a <;> cases hq : q a <;> simp_all
    omega

theorem sum_map_filter {α : Type} {p : α → Bool} {f g : α → Nat} {l : List α}
    (h : ∀ a ∈ l, f a = if p a then g a else 0) : (l.map f).sum = ((l.filter p).map g).sum := by
  induction l with
  | nil => rfl
  | cons a l ih =>
    rw [List.map_cons, List.sum_cons, h a List.mem_cons_self,
      ih fun b hb => h b (List.mem_cons_of_mem a hb)]
    cases hp : p a <;> simp [hp]

/-- **When the accounts are right.** The gates always hold; what is reported as held back by age is
that exactly when age decides in every turn of the general pass. -/
theorem tmp_gated_iff (policy : TmpPolicy) (call : TmpCleanup) (host : TmpHost δ) :
    TmpGated policy call host ↔
      ∀ turn ∈ generalTurns policy call host, AgeDecides policy call host turn := by
  obtain ⟨hbytes, hentries⟩ := grown_run (generalPass policy call host)
    { host := betweenPasses policy call host }
  have hsub : ∀ turn ∈ generalTurns policy call host, onlyAge policy call host turn = true →
      isHeld (generalPass policy call host) turn = true := fun _ hturn => isHeld_of_onlyAge hturn
  have hcount : (cleanTmp policy call host).2.ageBlockedEntries =
      (generalTurns policy call host).countP (isHeld (generalPass policy call host)) := by
    exact hentries.trans (Nat.zero_add _)
  constructor
  · intro hgated turn hturn
    have heq := hcount.symm.trans hgated.entries
    exact (onlyAge_of_isHeld_iff hturn).mp ((countP_eq_iff hsub).mp heq turn hturn)
  · intro hage
    have hsame : ∀ turn ∈ generalTurns policy call host,
        isHeld (generalPass policy call host) turn = true →
          onlyAge policy call host turn = true :=
      fun turn hturn => (onlyAge_of_isHeld_iff hturn).mpr (hage turn hturn)
    refine ⟨e2ePass_gated policy call host, generalPass_gated policy call host, ?_, ?_⟩
    · have hsum : (cleanTmp policy call host).2.ageBlockedBytes = ((generalTurns policy call
          host).map (heldBytes (generalPass policy call host))).sum :=
        hbytes.trans (Nat.zero_add _)
      rw [hsum]
      refine sum_map_filter fun turn hturn => ?_
      rw [heldBytes_eq hturn]
      have hiff : isHeld (generalPass policy call host) turn = onlyAge policy call host turn :=
        Bool.eq_iff_iff.mpr ⟨hsame turn hturn, hsub turn hturn⟩
      rw [hiff]
    · rw [hcount]
      exact (countP_eq_iff hsub).mpr hsame

end Alone

/-! ## A directory of somebody else -/

section Private

private def privateName : Name := ⟨"systemd-private", by decide⟩

/-- `/tmp` with a directory in it that cannot be listed, untouched since 1970. -/
private def privateFs : FileTree.Fs Unit :=
  ((∅ : FileTree.Fs Unit).insert [tmpDirName] .dir).insert [tmpDirName, privateName] .dir

private theorem privateFs_closed : FileTree.Closed privateFs := FileTree.closed_of_keys (by decide)

private theorem privateFs_plain (q : Location) (hq : (privateFs.lookup q).isSome) :
    ∀ n ∈ q, n.isPlain = true := FileTree.plain_of_keys (by decide) q hq

private def epoch : SystemTime := ⟨0, by decide⟩

private def today : SystemTime := ⟨200000 * 10 ^ 9, by decide⟩

private def privateHost : TmpHost Unit where
  fs := privateFs
  closed := privateFs_closed
  cwd := []
  cwd_dir := rfl
  plain := privateFs_plain
  scan := { listing := fun q => if q = [tmpDirName, privateName] then .closed else .whole }
  mtime := fun _ => some epoch
  now := today
  procs := some []
  pids := nodup_noProcs

private def dayPolicy : TmpPolicy where
  searchPaths := ["/tmp"]
  minAgeHours := 24
  e2ePatterns := []
  e2eMinAgeHours := 6
  largeEntryBytes := 0
  largeMinAgeHours := 0
  proactiveCleanupPercent := 80
  diskCriticalPercent := 95
  protectedPaths := []

private def dayCleanup : TmpCleanup where
  used := 50
  apply := true
  before := today
  later := { now := today, procs := some [], pids := nodup_noProcs, procsCut := false, sockets := [] }
  stamp := fun _ => today

/-- Two days old and reported as held back by a floor of one: lowering the floor frees nothing. -/
theorem unreadable_tree_reported : ¬ TmpGated dayPolicy dayCleanup privateHost := by
  intro hgated
  have hreported : (cleanTmp dayPolicy dayCleanup privateHost).2.ageBlockedEntries = 1 := by
    decide +kernel
  have hnone : (generalTurns dayPolicy dayCleanup privateHost).countP
      (onlyAge dayPolicy dayCleanup privateHost) = 0 := by decide +kernel
  have hcount := hgated.entries
  rw [hreported, hnone] at hcount
  cases hcount

end Private

end DraconGuard
