import DraconGuard.Lib.TextSlice
import DraconGuard.Reap.ProcFiles

/-!
# The readers of `/proc/<pid>/stat`

Four readers take a line `pid (comm) state ppid ..` apart by hand, all at the last `)`:

| here | there | behind the last `)` |
|------|-------|---------------------|
| `parseStat` | reap.rs:153 | words of the whole rest; the state is the first character of the first |
| `parseProcStatZombie` | main.rs:1647 | words from two bytes on; the state is the first word |
| `readProcIdentity` | main.rs:2062 | words of the whole rest |
| `processIsZombie` | main.rs:2091 | the first word of the whole rest |

The two bytes are the `)` and the blank the kernel writes behind it. A command name is chosen
by the process, but the last `)` is the kernel's own, so nothing goes wrong on what the kernel
writes. On any other text the second byte can be missing or be half a character, and then the
slice aborts; or it can be a part of the state (`stat_readers_agree_iff`).
-/

namespace DraconGuard

open TextSlice (find rfind slice sliceFrom sliceTo size)

/-- An index past the end of a text or inside a character. -/
inductive SlicePanic
  | slice
deriving DecidableEq, Repr

/-- What `parse_proc_stat_zombie` returns of a zombie. -/
structure ZombieStat where
  pid : Pid
  comm : List Char
  ppid : Pid
  starttime : Nat
deriving DecidableEq, Repr

/-- The words behind the command (main.rs:1655-1663). -/
def zombieFields (pid : Pid) (comm after : List Char) : Option ZombieStat := do
  let rest := Text.splitWhitespace after
  if (← rest[0]?) ≠ ['Z'] then none
  else
    let ppid ← Text.parseI32 (← rest[1]?)
    let starttime ← Text.parseU64 (← rest[19]?)
    pure { pid := pid, comm := comm, ppid := ppid, starttime := starttime }

/-- `parse_proc_stat_zombie` (main.rs:1647-1664). -/
def parseProcStatZombie (line : String) : Except SlicePanic (Option ZombieStat) :=
  match find '(' line.toList, rfind ')' line.toList with
  | some opening, some close =>
    if close ≤ opening then .ok none
    else
      match sliceTo opening line.toList with
      | none => .error .slice
      | some before =>
        match Text.parseI32 (Text.trim (String.ofList before)) with
        | none => .ok none
        | some pid =>
          match slice (opening + 1) close line.toList, sliceFrom (close + 2) line.toList with
          | some comm, some after => .ok (zombieFields pid comm after)
          | _, _ => .error .slice
  | _, _ => .ok none

inductive IdentityError
  | unreadable
  | invalidData (message : String)
deriving DecidableEq, Repr

/-- `read_proc_identity` (main.rs:2062-2083) of the two files. -/
def readProcIdentity (files : PidFiles) : Except IdentityError ProcessIdentity := do
  let comm ← files.comm.elim (.error .unreadable) .ok
  let stat ← files.stat.elim (.error .unreadable) .ok
  let afterComm ← (Text.afterLast stat.toList ')').elim
    (.error (.invalidData "malformed /proc stat")) .ok
  let field ← (Text.splitWhitespace afterComm)[19]?.elim
    (.error (.invalidData "missing starttime")) .ok
  let starttime ← (Text.parseU64 field).elim (.error (.invalidData "invalid starttime")) .ok
  pure { comm := String.ofList (Text.trim comm), starttime := starttime }

/-- `process_is_zombie` (main.rs:2091-2100). -/
def processIsZombie (files : PidFiles) : Bool :=
  match files.stat with
  | none => false
  | some stat =>
    match Text.afterLast stat.toList ')' with
    | none => false
    | some afterComm => (Text.splitWhitespace afterComm)[0]? == some ['Z']

/-- A text that begins like a line of the kernel: a pid, a command in brackets, then `tail`. -/
structure NamesProcess (line : String) (pid : Pid) (comm tail : List Char) : Prop where
  split : ∃ before, line.toList = before ++ '(' :: comm ++ ')' :: tail ∧ '(' ∉ before ∧
    Text.parseI32 (Text.trim (String.ofList before)) = some pid
  last : ')' ∉ tail

/-- The readers agree on a text: none aborts, and where `parse_stat` reads something, the
others see the same state, parent and start time. -/
structure StatReadersAgree (line : String) : Prop where
  total : ∃ seen, parseProcStatZombie line = .ok seen
  zombie : ∀ fields, parseStat line = some fields → ∀ pid comm tail,
    NamesProcess line pid comm tail →
      parseProcStatZombie line = .ok (if fields.state = 'Z' then
        some { pid := pid, comm := comm, ppid := fields.ppid, starttime := fields.starttime }
      else none)
  identity : ∀ fields, parseStat line = some fields → ∀ comm,
    readProcIdentity { comm := some comm, stat := some line } =
      .ok { comm := String.ofList (Text.trim comm), starttime := fields.starttime }
  check : ∀ fields, parseStat line = some fields →
    (processIsZombie { stat := some line } = true ↔ fields.state = 'Z')

/-- Where the readers agree. A text that begins with a pid and a command goes on with a
character of one byte. If `parse_stat` reads it, the first word behind the last `)` is `Z` or
does not begin with `Z`; and if that word follows the `)` directly, it is not `Z`, nor any
one character and a `Z`. -/
structure StatWellSpaced (line : String) : Prop where
  spaced : ∀ pid comm tail, NamesProcess line pid comm tail →
    ∃ c rest, tail = c :: rest ∧ c.utf8Size = 1
  state : ∀ fields tail word, parseStat line = some fields →
    Text.afterLast line.toList ')' = some tail →
    (Text.splitWhitespace tail)[0]? = some word →
      (word.head? = some 'Z' → word = ['Z']) ∧
      ∀ pid comm, NamesProcess line pid comm tail →
        (∃ c rest, tail = c :: rest ∧ Text.isWhitespace c = true) ∨
          (word ≠ ['Z'] ∧ word.drop 1 ≠ ['Z'])

/-! ## What each reader sees -/

/-- The fields `parse_stat` shares with the other readers, word by word. -/
structure ReadFrom (words : List (List Char)) (fields : StatFields) : Prop where
  state : ∃ word, words[0]? = some word ∧ word.head? = some fields.state
  ppid : words[1]?.bind Text.parseI32 = some fields.ppid
  starttime : words[19]?.bind Text.parseU64 = some fields.starttime

theorem parseStat_readFrom {line : String} {fields : StatFields}
    (h : parseStat line = some fields) :
    ∃ tail, Text.afterLast line.toList ')' = some tail ∧
      ReadFrom (Text.splitWhitespace tail) fields := by
  simp only [parseStat, bind, Option.bind_eq_some_iff, pure, Option.some.injEq] at h
  obtain ⟨tail, htail, word, hword, state, hstate, w1, hw1, ppid, hppid, w4, hw4, tty, htty,
    w11, hw11, user, huser, w12, hw12, system, hsystem, ticks, hticks, w19, hw19, start, hstart,
    rfl⟩ := h
  refine ⟨tail, htail, ⟨word, hword, hstate⟩, ?_, ?_⟩
  · rw [hw1]
    exact hppid
  · rw [hw19]
    exact hstart

theorem zombieFields_of_zombie {pid : Pid} {comm after : List Char} {ppid : Pid}
    {starttime : Nat} (hstate : (Text.splitWhitespace after)[0]? = some ['Z'])
    (hppid : (Text.splitWhitespace after)[1]?.bind Text.parseI32 = some ppid)
    (hstart : (Text.splitWhitespace after)[19]?.bind Text.parseU64 = some starttime) :
    zombieFields pid comm after =
      some { pid := pid, comm := comm, ppid := ppid, starttime := starttime } := by
  obtain ⟨w1, hw1, hppid⟩ := Option.bind_eq_some_iff.mp hppid
  obtain ⟨w19, hw19, hstart⟩ := Option.bind_eq_some_iff.mp hstart
  simp [zombieFields, hstate, hw1, hppid, hw19, hstart]

theorem zombieFields_of_other {pid : Pid} {comm after : List Char}
    (hstate : (Text.splitWhitespace after)[0]? ≠ some ['Z']) :
    zombieFields pid comm after = none := by
  cases hword : (Text.splitWhitespace after)[0]? with
  | none => simp [zombieFields, hword]
  | some word =>
    rw [hword] at hstate
    have hne : word ≠ ['Z'] := fun heq => hstate (heq ▸ rfl)
    simp [zombieFields, hword, hne]

theorem NamesProcess.afterLast {line : String} {pid : Pid} {comm tail : List Char}
    (h : NamesProcess line pid comm tail) : Text.afterLast line.toList ')' = some tail := by
  obtain ⟨before, hline, -, -⟩ := h.split
  rw [hline]
  exact Text.afterLast_append_cons h.last _

/-- The first `(` and the last `)` of a line, and what stands before the first. -/
theorem brackets_found {line : String} {before behind front tail : List Char}
    (hfirst : line.toList = before ++ '(' :: behind) (hbefore : '(' ∉ before)
    (hlast : line.toList = front ++ ')' :: tail) (htail : ')' ∉ tail) :
    find '(' line.toList = some (size before) ∧ rfind ')' line.toList = some (size front) ∧
      sliceTo (size before) line.toList = some before := by
  refine ⟨?_, ?_, ?_⟩
  · rw [hfirst]
    exact TextSlice.find_append_cons hbefore
  · rw [hlast]
    exact TextSlice.rfind_append_cons htail
  · rw [hfirst]
    exact TextSlice.sliceTo_size

/-- Behind the head of a line, the zombie reader skips one byte. -/
theorem parseProcStatZombie_of_namesProcess {line : String} {pid : Pid} {comm tail : List Char}
    (h : NamesProcess line pid comm tail) :
    parseProcStatZombie line =
      (sliceFrom 1 tail).elim (.error .slice) fun after => .ok (zombieFields pid comm after) := by
  obtain ⟨before, hline, hbefore, hpid⟩ := h.split
  have hfirst : line.toList = before ++ '(' :: (comm ++ ')' :: tail) := by simp [hline]
  have hlast : line.toList = (before ++ '(' :: comm) ++ ')' :: tail := hline
  obtain ⟨hfind, hrfind, hto⟩ := brackets_found hfirst hbefore hlast h.last
  have hbrackets : ¬ size (before ++ '(' :: comm) ≤ size before := by
    have := Char.utf8Size_pos '('
    rw [TextSlice.size_append, TextSlice.size_cons]
    omega
  have hcomm : slice (size before + 1) (size (before ++ '(' :: comm)) line.toList = some comm := by
    rw [hlast]
    have hslice := TextSlice.slice_size '(' before comm (')' :: tail)
    rwa [TextSlice.size_append] at hslice
  have hfrom : sliceFrom (size (before ++ '(' :: comm) + 2) line.toList = sliceFrom 1 tail := by
    rw [hlast, TextSlice.sliceFrom_size_add]
    rfl
  unfold parseProcStatZombie
  rw [hfind, hrfind]
  dsimp only
  rw [if_neg hbrackets, hto]
  dsimp only
  rw [hpid]
  dsimp only
  rw [hcomm, hfrom]
  cases sliceFrom 1 tail <;> rfl

/-- Without such a head it sees nothing. -/
theorem parseProcStatZombie_of_not_namesProcess {line : String}
    (h : ∀ pid comm tail, ¬ NamesProcess line pid comm tail) :
    parseProcStatZombie line = .ok none := by
  unfold parseProcStatZombie
  by_cases hopen : '(' ∈ line.toList
  · by_cases hclose : ')' ∈ line.toList
    · obtain ⟨before, behind, hfirst, hbefore⟩ := List.eq_append_cons_of_mem hopen
      obtain ⟨front, tail, hlast, htail⟩ := Text.exists_last_occurrence hclose
      obtain ⟨hfind, hrfind, hto⟩ := brackets_found hfirst hbefore hlast htail
      rw [hfind, hrfind]
      dsimp only
      split
      · rfl
      · next hbrackets =>
        -- the first bracket stands before the last one
        obtain ⟨comm, hfront⟩ : ∃ comm, front = before ++ '(' :: comm := by
          have hpre : before <+: line.toList := ⟨'(' :: behind, hfirst.symm⟩
          have hpre' : front <+: line.toList := ⟨')' :: tail, hlast.symm⟩
          rcases List.prefix_or_prefix_of_prefix hpre hpre' with ⟨rest, rfl⟩ | ⟨rest, rfl⟩
          · rw [hfirst, List.append_assoc] at hlast
            cases rest with
            | nil => simp at hbrackets
            | cons d comm =>
              obtain ⟨rfl, -⟩ := List.cons.inj (List.append_cancel_left hlast)
              exact ⟨comm, rfl⟩
          · rw [TextSlice.size_append] at hbrackets
            omega
        rw [hto]
        dsimp only
        cases hpid : Text.parseI32 (Text.trim (String.ofList before)) with
        | none => rfl
        | some pid =>
          exact absurd ⟨⟨before, by rw [hlast, hfront], hbefore, hpid⟩, htail⟩ (h pid comm tail)
    · rw [TextSlice.rfind_eq_none hclose]
      cases find '(' line.toList <;> rfl
  · rw [TextSlice.find_eq_none hopen]

theorem readProcIdentity_eq {line : String} {tail : List Char} {fields : StatFields}
    (htail : Text.afterLast line.toList ')' = some tail)
    (hread : ReadFrom (Text.splitWhitespace tail) fields) (comm : String) :
    readProcIdentity { comm := some comm, stat := some line } =
      .ok { comm := String.ofList (Text.trim comm), starttime := fields.starttime } := by
  obtain ⟨w19, hw19, hstart⟩ := Option.bind_eq_some_iff.mp hread.starttime
  simp [readProcIdentity, htail, hw19, hstart, bind, Except.bind, pure, Except.pure]

theorem processIsZombie_iff {line : String} {tail : List Char}
    (htail : Text.afterLast line.toList ')' = some tail) :
    processIsZombie { stat := some line } = true ↔
      (Text.splitWhitespace tail)[0]? = some ['Z'] := by
  simp [processIsZombie, htail]

/-! ## Agreement -/

/-- A number is not a state. -/
theorem parseI32_ne_state {word : List Char} {n : Int} (h : Text.parseI32 word = some n) :
    word ≠ ['Z'] := by
  rintro rfl
  have hnone : Text.parseI32 ['Z'] = none := by decide
  rw [hnone] at h
  cases h

/-- A first word that starts at once: the zombie reader sees it without its first character,
or the word behind it. -/
theorem zombieFields_letter {fields : StatFields} {c : Char} {rest : List Char}
    (hc : Text.isWhitespace c = false)
    (hread : ReadFrom (Text.splitWhitespace (c :: rest)) fields) (pid : Pid) (comm : List Char) :
    ∃ word, (Text.splitWhitespace (c :: rest))[0]? = some (c :: word) ∧ fields.state = c ∧
      zombieFields pid comm rest = if word = ['Z'] then
        some { pid := pid, comm := comm, ppid := fields.ppid, starttime := fields.starttime }
      else none := by
  obtain ⟨word, words, hwords, hrest⟩ := Text.splitWhitespace_cons_letter hc rest
  obtain ⟨⟨first, hfirst, hstate⟩, hppid, hstart⟩ := hread
  rw [hwords] at hfirst hppid hstart
  obtain rfl : c :: word = first := Option.some.inj hfirst
  have hc' : fields.state = c := (Option.some.inj hstate).symm
  refine ⟨word, by rw [hwords]; rfl, hc', ?_⟩
  by_cases hnil : word = []
  · -- the next word is the parent
    subst hnil
    rw [if_pos rfl] at hrest
    obtain ⟨w1, hw1, hnumber⟩ := Option.bind_eq_some_iff.mp hppid
    rw [if_neg (by simp), zombieFields_of_other]
    rw [hrest, show words[0]? = some w1 from hw1]
    intro heq
    exact parseI32_ne_state hnumber (Option.some.inj heq)
  · rw [if_neg hnil] at hrest
    split
    · next hz =>
      apply zombieFields_of_zombie
      · rw [hrest, hz]
        rfl
      · rw [hrest]
        exact hppid
      · rw [hrest]
        exact hstart
    · next hz =>
      apply zombieFields_of_other
      rw [hrest]
      exact fun heq => hz (Option.some.inj heq)

/-- A first word behind a blank: the zombie reader sees the same words. -/
theorem zombieFields_blank {fields : StatFields} {c : Char} {rest : List Char}
    (hc : Text.isWhitespace c = true)
    (hread : ReadFrom (Text.splitWhitespace (c :: rest)) fields) (pid : Pid) (comm : List Char) :
    zombieFields pid comm rest =
      if (Text.splitWhitespace (c :: rest))[0]? = some ['Z'] then
        some { pid := pid, comm := comm, ppid := fields.ppid, starttime := fields.starttime }
      else none := by
  rw [Text.splitWhitespace_cons_blank hc] at hread ⊢
  split
  · next hz => exact zombieFields_of_zombie hz hread.ppid hread.starttime
  · next hz => exact zombieFields_of_other hz

/-- One byte behind the `)`. -/
theorem sliceFrom_one_cons {c : Char} {rest : List Char} (hc : c.utf8Size = 1) :
    sliceFrom 1 (c :: rest) = some rest := by
  simp [sliceFrom, hc]

/-- The zombie reader aborts exactly on a head with no one-byte character behind it. -/
theorem parseProcStatZombie_total_iff {line : String} :
    (∃ seen, parseProcStatZombie line = .ok seen) ↔
      ∀ pid comm tail, NamesProcess line pid comm tail →
        ∃ c rest, tail = c :: rest ∧ c.utf8Size = 1 := by
  constructor
  · rintro ⟨seen, hseen⟩ pid comm tail hnames
    rw [parseProcStatZombie_of_namesProcess hnames] at hseen
    rw [← TextSlice.sliceFrom_one_isSome]
    cases hslice : sliceFrom 1 tail with
    | none => simp [hslice] at hseen
    | some after => rfl
  · intro hspaced
    by_cases hnames : ∃ pid comm tail, NamesProcess line pid comm tail
    · obtain ⟨pid, comm, tail, hnames⟩ := hnames
      obtain ⟨c, rest, rfl, hc⟩ := hspaced pid comm tail hnames
      rw [parseProcStatZombie_of_namesProcess hnames, sliceFrom_one_cons hc]
      exact ⟨_, rfl⟩
    · refine ⟨none, parseProcStatZombie_of_not_namesProcess fun pid comm tail h => ?_⟩
      exact hnames ⟨pid, comm, tail, h⟩

/-- The zombie check sees the state of `parse_stat` exactly when the first word is `Z` or does
not begin with it. -/
theorem check_agrees_iff {line : String} {tail word : List Char} {fields : StatFields}
    (htail : Text.afterLast line.toList ')' = some tail)
    (hword : (Text.splitWhitespace tail)[0]? = some word)
    (hstate : word.head? = some fields.state) :
    (processIsZombie { stat := some line } = true ↔ fields.state = 'Z') ↔
      (word.head? = some 'Z' → word = ['Z']) := by
  rw [processIsZombie_iff htail, hword, hstate, Option.some.injEq, Option.some.injEq]
  constructor
  · intro hiff hz
    exact hiff.mpr hz
  · intro himp
    refine ⟨?_, himp⟩
    rintro rfl
    exact (Option.some.inj hstate).symm

/-- **The readers agree** exactly on the texts that are spaced as the kernel spaces them, as
far as it matters. -/
theorem stat_readers_agree_iff (line : String) : StatReadersAgree line ↔ StatWellSpaced line := by
  constructor
  · intro hagree
    have hspaced := parseProcStatZombie_total_iff.mp hagree.total
    refine ⟨hspaced, fun fields tail word hfields htail hword => ?_⟩
    obtain ⟨tail', htail', hread⟩ := parseStat_readFrom hfields
    obtain rfl : tail = tail' := Option.some.inj (htail.symm.trans htail')
    obtain ⟨word', hword', hstate⟩ := hread.state
    obtain rfl : word = word' := Option.some.inj (hword.symm.trans hword')
    have hcheck := (check_agrees_iff htail hword hstate).mp (hagree.check fields hfields)
    refine ⟨hcheck, fun pid comm hnames => ?_⟩
    obtain ⟨c, rest, rfl, hc⟩ := hspaced pid comm tail hnames
    by_cases hblank : Text.isWhitespace c = true
    · exact Or.inl ⟨c, rest, rfl, hblank⟩
    · right
      have hseen := hagree.zombie fields hfields pid comm _ hnames
      rw [parseProcStatZombie_of_namesProcess hnames, sliceFrom_one_cons hc, Option.elim_some,
        Except.ok.injEq] at hseen
      obtain ⟨rest', hfirst, hfirststate, hzombie⟩ :=
        zombieFields_letter (Bool.eq_false_iff.mpr hblank) hread pid comm
      obtain rfl : word = c :: rest' := Option.some.inj (hword.symm.trans hfirst)
      rw [hzombie, hfirststate] at hseen
      constructor
      · rintro heq
        obtain ⟨rfl, rfl⟩ := List.cons.inj heq
        simp at hseen
      · rintro (heq : rest' = ['Z'])
        subst heq
        by_cases hcz : c = 'Z'
        · exact absurd (hcheck (by simp [hcz])) (by simp)
        · simp [hcz] at hseen
  · intro hspaced
    refine ⟨parseProcStatZombie_total_iff.mpr hspaced.spaced, ?_, ?_, ?_⟩
    · intro fields hfields pid comm tail hnames
      obtain ⟨tail', htail', hread⟩ := parseStat_readFrom hfields
      obtain rfl : tail = tail' := Option.some.inj (hnames.afterLast.symm.trans htail')
      obtain ⟨word, hword, hstate⟩ := hread.state
      obtain ⟨hcheck, hspacing⟩ := hspaced.state fields tail word hfields htail' hword
      obtain ⟨c, rest, rfl, hc⟩ := hspaced.spaced pid comm tail hnames
      rw [parseProcStatZombie_of_namesProcess hnames, sliceFrom_one_cons hc, Option.elim_some]
      congr 1
      by_cases hblank : Text.isWhitespace c = true
      · have hiff : (Text.splitWhitespace (c :: rest))[0]? = some ['Z'] ↔ fields.state = 'Z' := by
          rw [← processIsZombie_iff htail']
          exact (check_agrees_iff htail' hword hstate).mpr hcheck
        rw [zombieFields_blank hblank hread]
        simp only [hiff]
      · obtain ⟨rest', hfirst, hfirststate, hzombie⟩ :=
          zombieFields_letter (Bool.eq_false_iff.mpr hblank) hread pid comm
        obtain rfl : word = c :: rest' := Option.some.inj (hword.symm.trans hfirst)
        have hdirect := (hspacing pid comm hnames).resolve_left (by
          rintro ⟨d, _, heq, hd⟩
          exact hblank ((List.cons.inj heq).1 ▸ hd))
        have hcz : c ≠ 'Z' := by
          rintro rfl
          exact hdirect.1 (hcheck rfl)
        have hrest : rest' ≠ ['Z'] := hdirect.2
        rw [hzombie, hfirststate, if_neg hrest, if_neg hcz]
    · intro fields hfields comm
      obtain ⟨tail, htail, hread⟩ := parseStat_readFrom hfields
      exact readProcIdentity_eq htail hread comm
    · intro fields hfields
      obtain ⟨tail, htail, hread⟩ := parseStat_readFrom hfields
      obtain ⟨word, hword, hstate⟩ := hread.state
      exact (check_agrees_iff htail hword hstate).mpr
        (hspaced.state fields tail word hfields htail hword).1

/-- A line cut behind the bracket aborts the reader, and so does a letter of two bytes there;
a state that follows the bracket at once is a zombie to one reader and none to the other. -/
theorem cut_line_aborts :
    ¬ (∀ line, StatReadersAgree line) ∧
      parseProcStatZombie "1 (sh)" = .error .slice ∧
      parseProcStatZombie "1 (sh)é Z 1" = .error .slice ∧
      (parseStat "7 (sh)Z 1 1 1 0 1 1 1 1 1 1 1 1 1 1 1 1 1 1 5").map (·.state) = some 'Z' ∧
      parseProcStatZombie "7 (sh)Z 1 1 1 0 1 1 1 1 1 1 1 1 1 1 1 1 1 1 5" = .ok none := by
  have hcut : parseProcStatZombie "1 (sh)" = .error .slice := by decide +kernel
  refine ⟨fun hall => ?_, hcut, by decide +kernel, by decide +kernel, by decide +kernel⟩
  obtain ⟨seen, hseen⟩ := (hall "1 (sh)").total
  rw [hcut] at hseen
  cases hseen

end DraconGuard
