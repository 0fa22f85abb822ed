import Mathlib.Data.List.Induction
import DraconGuard.Lib.FinMap
import DraconGuard.Lib.Utf8

/-!
# File trees with symbolic links

A file system is a finite map from locations (the component lists of resolved absolute paths)
to entries. A path as it is spelled may go through symbolic links, `.` and `..`; `resolve` is
the kernel's walk over it and `lstat` the walk that does not follow the last component.

Main results: a rendered location is a textual prefix of another up to a separator exactly
when it is one by components (`renderChars_prefix_iff`), and a path that `lstat` finds to be a
directory resolves to the very location `lstat` reports (`resolve_of_lstat_dir`).
-/

namespace FileTree

/-! ## Names, locations, spelled paths -/

/-- One component of a path, a character for each byte. -/
structure Name where
  text : String
  valid : text.toList ≠ [] ∧ '/' ∉ text.toList
deriving DecidableEq

def Name.ofChars? (cs : List Char) : Option Name :=
  if h : cs ≠ [] ∧ '/' ∉ cs then some ⟨String.ofList cs, by simpa using h⟩ else none

/-- Neither `.` nor `..`. -/
def Name.isPlain (n : Name) : Bool := n.text != "." && n.text != ".."

def Name.current : Name := ⟨".", by decide⟩

/-- A resolved absolute path; `[]` is the root. -/
abbrev Location := List Name

instance Location.lawfulBEq : LawfulBEq Location := inferInstance

/-- A path as it is written. A trailing separator is a final `.`. -/
structure Spelled where
  absolute : Bool
  parts : List Name
deriving DecidableEq

/-- The empty text names nothing. -/
def Spelled.parse (text : String) : Option Spelled :=
  let chars := text.toList
  if chars = [] then none
  else
    let parts := (chars.splitOn '/').filterMap Name.ofChars?
    let trailing := if chars.getLast? = some '/' then [Name.current] else []
    some { absolute := chars.head? = some '/', parts := parts ++ trailing }

/-! ## Rendering -/

def renderChars (q : Location) : List Char := q.flatMap fun n => '/' :: n.text.toList

def render (q : Location) : String :=
  String.ofList (if q = [] then ['/'] else renderChars q)

@[simp] theorem renderChars_nil : renderChars [] = [] := rfl

@[simp] theorem renderChars_cons (n : Name) (q : Location) :
    renderChars (n :: q) = '/' :: (n.text.toList ++ renderChars q) := rfl

/-- What follows a component is nothing or a separator. -/
theorem renderChars_head (q : Location) : renderChars q = [] ∨ ∃ cs, renderChars q = '/' :: cs := by
  cases q with
  | nil => exact Or.inl rfl
  | cons n q => exact Or.inr ⟨_, rfl⟩

/-- Two components followed by separators agree when one text is a prefix of the other. -/
theorem component_prefix {a b x y : List Char} (ha : '/' ∉ a) (hb : '/' ∉ b)
    (hy : y = [] ∨ ∃ cs, y = '/' :: cs) (h : a ++ '/' :: x <+: b ++ y) :
    a = b ∧ '/' :: x <+: y := by
  induction a generalizing b with
  | nil =>
    cases b with
    | nil => exact ⟨rfl, by simpa using h⟩
    | cons d b =>
      obtain ⟨rfl, -⟩ := List.cons_prefix_cons.mp (by simpa using h)
      simp at hb
  | cons c a ih =>
    cases b with
    | nil =>
      rcases hy with rfl | ⟨cs, rfl⟩
      · simp at h
      · obtain ⟨rfl, -⟩ := List.cons_prefix_cons.mp (by simpa using h)
        simp at ha
    | cons d b =>
      obtain ⟨rfl, htail⟩ := List.cons_prefix_cons.mp (by simpa using h)
      obtain ⟨rfl, hrest⟩ := ih (fun hin => ha (List.mem_cons_of_mem _ hin))
        (fun hin => hb (List.mem_cons_of_mem _ hin)) htail
      exact ⟨rfl, hrest⟩

/-- **Text against components**: with the separator appended, a rendered location is a textual
prefix exactly of what lies strictly below it. -/
theorem renderChars_prefix_iff {p q : Location} :
    renderChars p ++ ['/'] <+: renderChars q ↔ p <+: q ∧ p ≠ q := by
  induction p generalizing q with
  | nil =>
    cases q with
    | nil => simp
    | cons m q => simp
  | cons n p ih =>
    cases q with
    | nil => simp
    | cons m q =>
      simp only [renderChars_cons, List.cons_append, List.cons_prefix_cons, true_and, ne_eq,
        List.cons.injEq, not_and]
      constructor
      · intro h
        -- the text after `n` starts with a separator on both sides
        obtain ⟨x, hx⟩ : ∃ x, renderChars p ++ ['/'] = '/' :: x := by
          rcases renderChars_head p with hnil | ⟨cs, hcs⟩
          · exact ⟨[], by rw [hnil]; rfl⟩
          · exact ⟨cs ++ ['/'], by rw [hcs]; rfl⟩
        rw [List.append_assoc, hx] at h
        obtain ⟨hname, hrest⟩ :=
          component_prefix n.valid.2 m.valid.2 (renderChars_head q) h
        rw [← hx] at hrest
        obtain ⟨hpre, hne⟩ := ih.mp hrest
        have hnm : n = m := by
          cases n
          cases m
          simpa using String.toList_inj.mp hname
        exact ⟨⟨hnm, hpre⟩, fun _ => hne⟩
      · rintro ⟨⟨rfl, hpre⟩, hne⟩
        rw [List.append_assoc]
        exact (List.prefix_append_right_inj _).mpr (ih.mpr ⟨hpre, hne rfl⟩)

theorem renderChars_append (p q : Location) :
    renderChars (p ++ q) = renderChars p ++ renderChars q := by
  simp [renderChars]

/-- As many separators as components. -/
theorem count_renderChars (q : Location) : (renderChars q).count '/' = q.length := by
  induction q with
  | nil => rfl
  | cons n q ih =>
    rw [renderChars_cons, List.count_cons_self, List.count_append, ih,
      List.count_eq_zero_of_not_mem n.valid.2, List.length_cons, Nat.zero_add]

/-- No rendered location but the root ends in a separator. -/
theorem renderChars_getLast {q : Location} : (renderChars q).getLast? ≠ some '/' := by
  rcases List.eq_nil_or_concat q with rfl | ⟨parent, n, rfl⟩
  · simp
  · intro hlast
    rw [List.concat_eq_append, renderChars_append, renderChars_cons, renderChars_nil,
      List.append_nil, List.getLast?_append_cons, List.getLast?_cons_of_ne_nil n.valid.1] at hlast
    exact n.valid.2 (List.mem_of_getLast? hlast)

/-- A rendering determines its location. -/
theorem renderChars_injective {p q : Location} (h : renderChars p = renderChars q) : p = q := by
  have hbelow : ∀ {p q : Location}, renderChars p = renderChars q → p <+: q := by
    intro p q h
    have hp : renderChars p ++ ['/'] <+: renderChars (q ++ [Name.current]) := by
      rw [renderChars_append, h]
      exact (List.prefix_append_right_inj _).mpr (by simp)
    obtain ⟨hpre, hne⟩ := renderChars_prefix_iff.mp hp
    rcases List.prefix_concat_iff.mp hpre with heq | hpq
    · exact absurd heq hne
    · exact hpq
  exact (hbelow h).eq_of_length_le (hbelow h.symm).length_le

theorem render_injective {p q : Location} (h : render p = render q) : p = q := by
  have hroot : ∀ {q : Location}, renderChars q ≠ ['/'] := by
    intro q
    cases q with
    | nil => simp
    | cons n q => simp [n.valid.1]
  have hchars := String.ofList_inj.mp h
  by_cases hp : p = [] <;> by_cases hq : q = []
  · rw [hp, hq]
  · rw [if_pos hp, if_neg hq] at hchars
    exact absurd hchars.symm hroot
  · rw [if_neg hp, if_pos hq] at hchars
    exact absurd hchars hroot
  · rw [if_neg hp, if_neg hq] at hchars
    exact renderChars_injective hchars

/-! ## Reading a rendering -/

/-- A rendering splits into its components, and nothing before the first separator. -/
theorem splitOn_append_renderChars {front : List Char} (hfront : '/' ∉ front) (q : Location) :
    (front ++ renderChars q).splitOn '/' = front :: q.map fun n => n.text.toList := by
  induction q generalizing front with
  | nil => rw [renderChars_nil, List.append_nil, List.splitOn_eq_singleton hfront]; rfl
  | cons n q ih =>
    rw [renderChars_cons, List.splitOn_append_cons_self_of_not_mem hfront, ih n.valid.2]
    rfl

theorem ofChars?_toList (n : Name) : Name.ofChars? n.text.toList = some n := by
  unfold Name.ofChars?
  rw [dif_pos n.valid]
  simp

/-- **Round trip**: a rendered location below the root reads as an absolute path with the same
components. -/
theorem parse_render {q : Location} (hq : q ≠ []) :
    Spelled.parse (render q) = some { absolute := true, parts := q } := by
  obtain ⟨n, rest, rfl⟩ := List.exists_cons_of_ne_nil hq
  have hchars : (render (n :: rest)).toList = renderChars (n :: rest) := by
    rw [render, if_neg hq, String.toList_ofList]
  have hne : renderChars (n :: rest) ≠ [] := by simp
  have hsplit : (renderChars (n :: rest)).splitOn '/' =
      [] :: (n :: rest).map fun n => n.text.toList :=
    splitOn_append_renderChars List.not_mem_nil (n :: rest)
  have hparts : ((n :: rest).map fun n => n.text.toList).filterMap Name.ofChars? = n :: rest := by
    rw [List.filterMap_map]
    exact (List.filterMap_congr fun m _ => ofChars?_toList m).trans List.filterMap_some
  have hempty : Name.ofChars? [] = none := rfl
  unfold Spelled.parse
  rw [hchars, if_neg hne, if_neg renderChars_getLast, hsplit, List.filterMap_cons_none hempty,
    hparts]
  simp

/-! ## How a path is displayed -/

/-- `to_string_lossy`. -/
def Name.lossy (n : Name) : Name where
  text := String.ofList (Utf8.lossy n.text.toList)
  valid := by
    rw [String.toList_ofList]
    refine ⟨Utf8.lossy_ne_nil n.valid.1, fun hin => ?_⟩
    rcases Utf8.mem_lossy hin with h | h
    · exact n.valid.2 h
    · revert h
      decide

def Name.isUtf8 (n : Name) : Bool := Utf8.isUtf8 n.text.toList

/-- `Path::display`, component by component: a separator is no part of a longer character. -/
def displayed (q : Location) : Location := q.map Name.lossy

/-- A path as it is displayed. -/
def display (q : Location) : String := render (displayed q)

theorem Name.lossy_eq_self {n : Name} (h : n.isUtf8 = true) : n.lossy = n := by
  cases n with
  | mk text valid =>
    simp only [Name.lossy, Name.mk.injEq]
    rw [Utf8.lossy_eq_self h, String.ofList_toList]

/-- A name is not displayed as `.` or `..` unless it is that. -/
theorem Name.isUtf8_lossy (n : Name) : n.lossy.isUtf8 = true := by
  rw [Name.isUtf8, Name.lossy, String.toList_ofList]
  exact Utf8.isUtf8_lossy n.text.toList

theorem Name.isPlain_lossy {n : Name} (h : n.isPlain = true) : n.lossy.isPlain = true := by
  cases hutf8 : n.isUtf8 with
  | true => rwa [Name.lossy_eq_self hutf8]
  | false =>
    have hin : '\xEF' ∈ n.lossy.text.toList := by
      rw [Name.lossy, String.toList_ofList]
      exact Utf8.mem_repair_of_not_reads hutf8
    have hne : ∀ text : String, '\xEF' ∉ text.toList → n.lossy.text ≠ text := by
      rintro text hnot rfl
      exact hnot hin
    simp only [Name.isPlain, Bool.and_eq_true, bne_iff_ne]
    exact ⟨hne "." (by decide), hne ".." (by decide)⟩

theorem displayed_eq_self {q : Location} (h : ∀ n ∈ q, n.isUtf8 = true) : displayed q = q :=
  (List.map_congr_left fun n hn => Name.lossy_eq_self (h n hn)).trans (List.map_id q)

/-! ## Entries and the walk over a path -/

inductive Entry (δ : Type) where
  | dir
  | file (data : δ)
  | symlink (target : Spelled)
  /-- A socket, a fifo or a device. -/
  | special
deriving DecidableEq

def Entry.isDir {δ : Type} : Entry δ → Bool
  | .dir => true
  | _ => false

inductive Errno where
  | notFound
  | notADirectory
  | tooManyLinks
deriving DecidableEq, Repr

/-- How the operating system words it. -/
def Errno.message : Errno → String
  | .notFound => "No such file or directory (os error 2)"
  | .notADirectory => "Not a directory (os error 20)"
  | .tooManyLinks => "Too many levels of symbolic links (os error 40)"

abbrev Fs (δ : Type) := FinMap Location (Entry δ)

section Walk

variable {δ : Type}

/-- The root is always there, and a directory. -/
def entryAt (fs : Fs δ) (q : Location) : Option (Entry δ) :=
  if q = [] then some .dir else fs.lookup q

@[simp] theorem entryAt_root (fs : Fs δ) : entryAt fs [] = some .dir := rfl

@[simp] theorem entryAt_concat (fs : Fs δ) (q : Location) (n : Name) :
    entryAt fs (q ++ [n]) = fs.lookup (q ++ [n]) := by simp [entryAt]

/-- The walk from directory `cur` over the components left; `next` carries on where a link
points. -/
def resolveWith (fs : Fs δ) (next : Location → List Name → Except Errno Location) :
    Location → List Name → Except Errno Location
  | cur, [] => .ok cur
  | cur, c :: rest =>
    if c.text = "." then resolveWith fs next cur rest
    else if c.text = ".." then resolveWith fs next cur.dropLast rest
    else match fs.lookup (cur ++ [c]) with
      | none => .error .notFound
      | some (.symlink target) =>
        next (if target.absolute then [] else cur) (target.parts ++ rest)
      | some .dir => resolveWith fs next (cur ++ [c]) rest
      | some _ => if rest = [] then .ok (cur ++ [c]) else .error .notADirectory

/-- Resolution through at most `links` symbolic links. -/
def resolve (fs : Fs δ) : Nat → Location → List Name → Except Errno Location
  | 0 => resolveWith fs fun _ _ => .error .tooManyLinks
  | links + 1 => resolveWith fs (resolve fs links)

def maxLinks : Nat := 40

/-- Where a spelled path starts from. -/
def Spelled.start (p : Spelled) (cwd : Location) : Location :=
  if p.absolute then [] else cwd

/-- `realpath`. -/
def canonicalize (fs : Fs δ) (cwd : Location) (text : String) : Except Errno Location :=
  match Spelled.parse text with
  | none => .error .notFound
  | some p => resolve fs maxLinks (p.start cwd) p.parts

/-- The walk that stops short of following a last component which is a name. -/
def lstatFrom (fs : Fs δ) (start : Location) (parts : List Name) :
    Except Errno (Location × Entry δ) :=
  match parts.getLast? with
  | some last =>
    if last.isPlain then
      match resolve fs maxLinks start parts.dropLast with
      | .error e => .error e
      | .ok parent =>
        match entryAt fs parent, fs.lookup (parent ++ [last]) with
        | some .dir, some entry => .ok (parent ++ [last], entry)
        | some .dir, none => .error .notFound
        | _, _ => .error .notADirectory
    else
      match resolve fs maxLinks start parts with
      | .error e => .error e
      | .ok q => match entryAt fs q with
        | some entry => .ok (q, entry)
        | none => .error .notFound
  | none => .ok (start, .dir)

/-- `lstat`: the location a path names, not following a final link, and its entry. -/
def lstat (fs : Fs δ) (cwd : Location) (text : String) : Except Errno (Location × Entry δ) :=
  match Spelled.parse text with
  | none => .error .notFound
  | some p => lstatFrom fs (p.start cwd) p.parts

/-- The directory a new entry at a path goes to: where the components before its last lead. -/
def resolveDir (fs : Fs δ) (start : Location) (parts : List Name) : Except Errno Location :=
  match resolve fs maxLinks start parts with
  | .error e => .error e
  | .ok q => if (entryAt fs q).any Entry.isDir then .ok q else .error .notADirectory

/-! ## Two walks over one path -/

variable {fs : Fs δ}

theorem any_isDir_iff {o : Option (Entry δ)} : o.any Entry.isDir = true ↔ o = some .dir := by
  cases o with
  | none => simp
  | some e => cases e <;> simp [Entry.isDir]

theorem resolveDir_eq_ok {start q : Location} {parts : List Name} :
    resolveDir fs start parts = .ok q ↔
      resolve fs maxLinks start parts = .ok q ∧ entryAt fs q = some .dir := by
  unfold resolveDir
  cases resolve fs maxLinks start parts with
  | error e => simp
  | ok r =>
    dsimp only
    by_cases hdir : entryAt fs r = some .dir
    · rw [if_pos (any_isDir_iff.mpr hdir)]
      constructor
      · intro h
        obtain rfl := Except.ok.inj h
        exact ⟨rfl, hdir⟩
      · exact fun h => h.1
    · rw [if_neg fun hany => hdir (any_isDir_iff.mp hany)]
      constructor
      · intro h
        cases h
      · rintro ⟨h, hq⟩
        obtain rfl := Except.ok.inj h
        exact absurd hq hdir

/-- `lstat` of a name looks it up in the directory it is in. -/
theorem lstatFrom_concat {start : Location} {parts : List Name} {n : Name}
    (hn : n.isPlain = true) : lstatFrom fs start (parts ++ [n]) =
      match resolveDir fs start parts with
      | .error e => .error e
      | .ok q => match fs.lookup (q ++ [n]) with
        | some entry => .ok (q ++ [n], entry)
        | none => .error .notFound := by
  unfold lstatFrom resolveDir
  rw [List.getLast?_append_cons, List.getLast?_singleton, List.dropLast_concat]
  dsimp only
  rw [if_pos hn]
  cases resolve fs maxLinks start parts with
  | error e => rfl
  | ok q =>
    dsimp only
    by_cases hdir : entryAt fs q = some .dir
    · rw [if_pos (any_isDir_iff.mpr hdir), hdir]
      dsimp only
      cases fs.lookup (q ++ [n]) <;> rfl
    · rw [if_neg fun hany => hdir (any_isDir_iff.mp hany)]
      split
      · next h _ => exact absurd h hdir
      · next h _ => exact absurd h hdir
      · rfl

/-- One level of `resolve_append`: `next` is what is left of the walk behind a link. -/
theorem resolveWith_append {next : Location → List Name → Except Errno Location} (links : Nat)
    {start q : Location} {xs : List Name} (ys : List Name)
    (hself : resolve fs links = resolveWith fs next)
    (hnext : ∀ start xs, next start xs = .ok q →
      ∃ left, next start (xs ++ ys) = resolve fs left q ys)
    (hdir : entryAt fs q = some .dir) (h : resolveWith fs next start xs = .ok q) :
    ∃ left, resolveWith fs next start (xs ++ ys) = resolve fs left q ys := by
  induction xs generalizing start with
  | nil =>
    obtain rfl : start = q := by simpa [resolveWith] using h
    exact ⟨links, by rw [hself]; rfl⟩
  | cons c xs ih =>
    rw [List.cons_append]
    unfold resolveWith at h ⊢
    by_cases hdot : c.text = "."
    · rw [if_pos hdot] at h ⊢
      exact ih h
    · rw [if_neg hdot] at h ⊢
      by_cases hup : c.text = ".."
      · rw [if_pos hup] at h ⊢
        exact ih h
      · rw [if_neg hup] at h ⊢
        cases hlook : fs.lookup (start ++ [c]) with
        | none => simp [hlook] at h
        | some entry =>
          rw [hlook] at h
          cases entry with
          | dir => exact ih h
          | symlink target =>
            dsimp only at h ⊢
            rw [← List.append_assoc]
            exact hnext _ _ h
          -- a walk that ends in a file does not end in a directory
          | file data =>
            dsimp only at h
            split at h
            · obtain rfl := Except.ok.inj h
              simp [hlook] at hdir
            · simp at h
          | special =>
            dsimp only at h
            split at h
            · obtain rfl := Except.ok.inj h
              simp [hlook] at hdir
            · simp at h

/-- A walk over `xs ++ ys` goes on from where the walk over `xs` ended, with the links it has
left, provided it ended in a directory. -/
theorem resolve_append {links : Nat} {start q : Location} {xs : List Name}
    (h : resolve fs links start xs = .ok q) (hdir : entryAt fs q = some .dir) (ys : List Name) :
    ∃ left, resolve fs links start (xs ++ ys) = resolve fs left q ys := by
  induction links generalizing start xs with
  | zero => exact resolveWith_append 0 ys rfl (by simp) hdir h
  | succ links ih =>
    exact resolveWith_append (links + 1) ys rfl (fun _ _ hnext => ih hnext) hdir h

/-- Two file systems that differ in what is there, not in what it is. -/
def Agree (fs fs' : Fs δ) : Prop :=
  ∀ q e e', fs.lookup q = some e → fs'.lookup q = some e' → e = e'

theorem Agree.resolveWith {fs fs' : Fs δ} (h : Agree fs fs')
    {next next' : Location → List Name → Except Errno Location} {q q' : Location}
    (hnext : ∀ start parts, next start parts = .ok q → next' start parts = .ok q' → q = q')
    {start : Location} {parts : List Name} (hq : resolveWith fs next start parts = .ok q)
    (hq' : FileTree.resolveWith fs' next' start parts = .ok q') : q = q' := by
  induction parts generalizing start with
  | nil =>
    obtain rfl : start = q := by simpa [FileTree.resolveWith] using hq
    simpa [FileTree.resolveWith] using hq'
  | cons c parts ih =>
    unfold FileTree.resolveWith at hq hq'
    by_cases hdot : c.text = "."
    · rw [if_pos hdot] at hq hq'
      exact ih hq hq'
    · rw [if_neg hdot] at hq hq'
      by_cases hup : c.text = ".."
      · rw [if_pos hup] at hq hq'
        exact ih hq hq'
      · rw [if_neg hup] at hq hq'
        cases hlook : fs.lookup (start ++ [c]) with
        | none => simp [hlook] at hq
        | some entry =>
          cases hlook' : fs'.lookup (start ++ [c]) with
          | none => simp [hlook'] at hq'
          | some entry' =>
            obtain rfl := h _ _ _ hlook hlook'
            rw [hlook] at hq
            rw [hlook'] at hq'
            cases entry with
            | dir => exact ih hq hq'
            | symlink target => exact hnext _ _ hq hq'
            | file data =>
              dsimp only at hq hq'
              split at hq
              · next hlast =>
                rw [if_pos hlast] at hq'
                exact (Except.ok.inj hq).symm.trans (Except.ok.inj hq')
              · cases hq
            | special =>
              dsimp only at hq hq'
              split at hq
              · next hlast =>
                rw [if_pos hlast] at hq'
                exact (Except.ok.inj hq).symm.trans (Except.ok.inj hq')
              · cases hq

/-- What a path leads to on both is one place, whatever links each walk may pass. -/
theorem Agree.resolve {fs fs' : Fs δ} (h : Agree fs fs') {links links' : Nat}
    {start q q' : Location} {parts : List Name} (hq : resolve fs links start parts = .ok q)
    (hq' : FileTree.resolve fs' links' start parts = .ok q') : q = q' := by
  induction links generalizing start parts links' with
  | zero => cases links' <;> exact h.resolveWith (fun _ _ hnext => by cases hnext) hq hq'
  | succ links ih =>
    cases links' with
    | zero => exact h.resolveWith (fun _ _ _ hnext' => by cases hnext') hq hq'
    | succ links' => exact h.resolveWith (fun _ _ hnext hnext' => ih hnext hnext') hq hq'

theorem Agree.canonicalize {fs fs' : Fs δ} (h : Agree fs fs') {cwd q q' : Location}
    {text : String} (hq : canonicalize fs cwd text = .ok q)
    (hq' : FileTree.canonicalize fs' cwd text = .ok q') : q = q' := by
  unfold FileTree.canonicalize at hq hq'
  split at hq
  · cases hq
  · next hparse =>
    rw [hparse] at hq'
    exact h.resolve hq hq'

/-- One has everything the other has. -/
def Covers (fs fs' : Fs δ) : Prop := ∀ q e, fs.lookup q = some e → fs'.lookup q = some e

theorem Covers.agree {fs fs' : Fs δ} (h : Covers fs fs') : Agree fs fs' := by
  intro q e e' hq hq'
  exact Option.some.inj ((h q e hq).symm.trans hq')

theorem Covers.resolveWith {fs fs' : Fs δ} (h : Covers fs fs')
    {next next' : Location → List Name → Except Errno Location} {q : Location}
    (hnext : ∀ start parts, next start parts = .ok q → next' start parts = .ok q)
    {start : Location} {parts : List Name} (hq : resolveWith fs next start parts = .ok q) :
    FileTree.resolveWith fs' next' start parts = .ok q := by
  induction parts generalizing start with
  | nil => exact hq
  | cons c parts ih =>
    unfold FileTree.resolveWith at hq ⊢
    by_cases hdot : c.text = "."
    · rw [if_pos hdot] at hq ⊢
      exact ih hq
    rw [if_neg hdot] at hq ⊢
    by_cases hup : c.text = ".."
    · rw [if_pos hup] at hq ⊢
      exact ih hq
    rw [if_neg hup] at hq ⊢
    cases hlook : fs.lookup (start ++ [c]) with
    | none => simp [hlook] at hq
    | some entry =>
      rw [hlook] at hq
      rw [h _ _ hlook]
      cases entry with
      | dir => exact ih hq
      | symlink target => exact hnext _ _ hq
      | file data => exact hq
      | special => exact hq

/-- A walk that arrives arrives with more around, and more links to spare. -/
theorem Covers.resolve {fs fs' : Fs δ} (h : Covers fs fs') {links links' : Nat}
    (hle : links ≤ links') {start q : Location} {parts : List Name}
    (hq : resolve fs links start parts = .ok q) :
    FileTree.resolve fs' links' start parts = .ok q := by
  induction links generalizing start parts links' with
  | zero => cases links' <;> exact h.resolveWith (fun _ _ hnext => by cases hnext) hq
  | succ links ih =>
    cases links' with
    | zero => omega
    | succ links' => exact h.resolveWith (fun _ _ hnext => ih (by omega) hnext) hq

theorem Covers.entryAt {fs fs' : Fs δ} (h : Covers fs fs') {q : Location} {e : Entry δ}
    (hq : entryAt fs q = some e) : FileTree.entryAt fs' q = some e := by
  unfold FileTree.entryAt at hq ⊢
  split
  · next hroot => rwa [if_pos hroot] at hq
  · next hroot =>
    rw [if_neg hroot] at hq
    exact h q e hq

theorem Covers.resolveDir {fs fs' : Fs δ} (h : Covers fs fs') {start q : Location}
    {parts : List Name} (hq : resolveDir fs start parts = .ok q) :
    FileTree.resolveDir fs' start parts = .ok q := by
  obtain ⟨hresolve, hdir⟩ := resolveDir_eq_ok.mp hq
  exact resolveDir_eq_ok.mpr ⟨h.resolve (Nat.le_refl _) hresolve, h.entryAt hdir⟩

theorem Covers.canonicalize {fs fs' : Fs δ} (h : Covers fs fs') {cwd q : Location} {text : String}
    (hq : canonicalize fs cwd text = .ok q) : FileTree.canonicalize fs' cwd text = .ok q := by
  unfold FileTree.canonicalize at hq ⊢
  split at hq
  · cases hq
  · exact h.resolve (Nat.le_refl _) hq

/-- A walk that arrives has come by every part of its way. -/
theorem resolveWith_prefix {next : Location → List Name → Except Errno Location} {q : Location}
    {xs ys : List Name} {start : Location}
    (hnext : ∀ start xs, next start (xs ++ ys) = .ok q → ∃ p, next start xs = .ok p)
    (h : resolveWith fs next start (xs ++ ys) = .ok q) :
    ∃ p, resolveWith fs next start xs = .ok p := by
  induction xs generalizing start with
  | nil => exact ⟨start, rfl⟩
  | cons c xs ih =>
    rw [List.cons_append] at h
    unfold resolveWith at h ⊢
    by_cases hdot : c.text = "."
    · rw [if_pos hdot] at h ⊢
      exact ih h
    rw [if_neg hdot] at h ⊢
    by_cases hup : c.text = ".."
    · rw [if_pos hup] at h ⊢
      exact ih h
    rw [if_neg hup] at h ⊢
    cases hlook : fs.lookup (start ++ [c]) with
    | none => simp [hlook] at h
    | some entry =>
      rw [hlook] at h
      cases entry with
      | dir => exact ih h
      | symlink target =>
        dsimp only at h ⊢
        rw [← List.append_assoc] at h
        exact hnext _ _ h
      | file data =>
        have hlast : xs = [] := by
          by_contra hne
          simp [hne] at h
        exact ⟨start ++ [c], if_pos hlast⟩
      | special =>
        have hlast : xs = [] := by
          by_contra hne
          simp [hne] at h
        exact ⟨start ++ [c], if_pos hlast⟩

theorem resolve_prefix {links : Nat} {start q : Location} {xs ys : List Name}
    (h : resolve fs links start (xs ++ ys) = .ok q) : ∃ p, resolve fs links start xs = .ok p := by
  induction links generalizing start xs with
  | zero => exact resolveWith_prefix (fun _ _ hnext => nomatch hnext) h
  | succ links ih => exact resolveWith_prefix (fun _ _ hnext => ih hnext) h

/-- One component that is a directory. -/
theorem resolve_dir {links : Nat} {q : Location} {c : Name} (hc : c.isPlain = true)
    (hlook : fs.lookup (q ++ [c]) = some .dir) : resolve fs links q [c] = .ok (q ++ [c]) := by
  obtain ⟨hdot, hup⟩ : c.text ≠ "." ∧ c.text ≠ ".." := by simpa [Name.isPlain] using hc
  cases links <;> simp [resolve, resolveWith, hdot, hup, hlook]

/-- **The two walks agree on directories**: a path whose last component is no link resolves to
the location it names. -/
theorem resolve_of_lstat_dir {start q : Location} {parts : List Name}
    (h : lstatFrom fs start parts = .ok (q, .dir)) : resolve fs maxLinks start parts = .ok q := by
  unfold lstatFrom at h
  split at h
  · next last hlast =>
    split at h
    · next hplain =>
      cases hparent : resolve fs maxLinks start parts.dropLast with
      | error e => simp [hparent] at h
      | ok parent =>
        rw [hparent] at h
        dsimp only at h
        split at h
        · next entry hdir hlook =>
          obtain ⟨rfl, rfl⟩ : parent ++ [last] = q ∧ entry = .dir := by simpa using h
          obtain ⟨left, hleft⟩ := resolve_append hparent hdir [last]
          rw [List.dropLast_append_getLast? last hlast] at hleft
          rw [hleft]
          exact resolve_dir hplain hlook
        · simp at h
        · simp at h
    · cases hq : resolve fs maxLinks start parts with
      | error e => simp [hq] at h
      | ok r =>
        rw [hq] at h
        dsimp only at h
        split at h
        · obtain ⟨rfl, -⟩ : r = q ∧ _ := by simpa using h
          rfl
        · simp at h
  · next hlast =>
    obtain rfl : parts = [] := by simpa using hlast
    obtain rfl : start = q := by simpa using h
    rfl

/-- What `lstat` reports is there. -/
theorem entryAt_of_lstatFrom {start q : Location} {parts : List Name} {entry : Entry δ}
    (hstart : entryAt fs start = some .dir) (h : lstatFrom fs start parts = .ok (q, entry)) :
    entryAt fs q = some entry := by
  unfold lstatFrom at h
  split at h
  · split at h
    · split at h
      · simp at h
      · split at h
        · next hlook =>
          obtain ⟨rfl, rfl⟩ := Prod.mk.inj (Except.ok.inj h)
          rw [entryAt_concat, hlook]
        · simp at h
        · simp at h
    · split at h
      · simp at h
      · split at h
        · next hlook =>
          obtain ⟨rfl, rfl⟩ := Prod.mk.inj (Except.ok.inj h)
          exact hlook
        · simp at h
  · obtain ⟨rfl, rfl⟩ := Prod.mk.inj (Except.ok.inj h)
    exact hstart

theorem canonicalize_of_lstat_dir {cwd q : Location} {text : String}
    (h : lstat fs cwd text = .ok (q, .dir)) : canonicalize fs cwd text = .ok q := by
  unfold lstat at h
  unfold canonicalize
  cases hparse : Spelled.parse text with
  | none => simp [hparse] at h
  | some p =>
    rw [hparse] at h
    exact resolve_of_lstat_dir h

end Walk

/-! ## Well-formed trees -/

/-- Every entry lies in a directory. -/
def Closed {δ : Type} (fs : Fs δ) : Prop :=
  ∀ q n, (fs.lookup (q ++ [n])).isSome → entryAt fs q = some .dir

/-- What `Closed` asks, entry by entry. -/
theorem closed_of_keys {δ : Type} {fs : Fs δ}
    (h : ∀ p ∈ fs.keys, entryAt fs p.dropLast = some .dir) : Closed fs := by
  intro q n hsome
  have := h (q ++ [n]) (AList.lookup_isSome.mp hsome)
  rwa [List.dropLast_concat] at this

/-- Nothing lies below what is not there. -/
theorem Closed.none_below {δ : Type} {fs : Fs δ} (h : Closed fs) {q : Location}
    (hq : entryAt fs q = none) (rel : Location) : entryAt fs (q ++ rel) = none := by
  induction rel generalizing q with
  | nil => simpa using hq
  | cons n rel ih =>
    have hnone : entryAt fs (q ++ [n]) = none := by
      rw [entryAt_concat]
      by_contra hsome
      have := h q n (Option.isSome_iff_ne_none.mpr hsome)
      simp [hq] at this
    simpa using ih hnone

/-- What lies below is below a directory. -/
theorem Closed.dir_above {δ : Type} {fs : Fs δ} (h : Closed fs) {q rel : Location}
    (hrel : rel ≠ []) (hsome : (fs.lookup (q ++ rel)).isSome) : entryAt fs q = some .dir := by
  induction rel using List.reverseRecOn with
  | nil => exact absurd rfl hrel
  | append_singleton rel n ih =>
    rw [← List.append_assoc] at hsome
    have hdir := h (q ++ rel) n hsome
    by_cases hempty : rel = []
    · rwa [hempty, List.append_nil] at hdir
    · have hne : q ++ rel ≠ [] := by simp [hempty]
      rw [entryAt, if_neg hne] at hdir
      exact ih hempty (by rw [hdir]; rfl)

/-- A walk passes through directories by their names. -/
theorem resolveWith_dirs {δ : Type} {fs : Fs δ}
    {next : Location → List Name → Except Errno Location} {cur rel : Location}
    (hplain : ∀ n ∈ rel, n.isPlain = true)
    (hdirs : ∀ k, k ≠ [] → k <+: rel → fs.lookup (cur ++ k) = some .dir) (rest : List Name) :
    resolveWith fs next cur (rel ++ rest) = resolveWith fs next (cur ++ rel) rest := by
  induction rel generalizing cur with
  | nil => rw [List.append_nil]; rfl
  | cons c rel ih =>
    obtain ⟨hdot, hup⟩ : c.text ≠ "." ∧ c.text ≠ ".." := by
      simpa [Name.isPlain] using hplain c List.mem_cons_self
    have hlook : fs.lookup (cur ++ [c]) = some .dir :=
      hdirs [c] (by simp) (List.prefix_append [c] rel)
    have hrest : resolveWith fs next (cur ++ [c]) (rel ++ rest) =
        resolveWith fs next (cur ++ [c] ++ rel) rest := by
      refine ih (fun n hn => hplain n (List.mem_cons_of_mem c hn)) fun k _ hk => ?_
      rw [← List.append_cons]
      exact hdirs (c :: k) (by simp) (List.cons_prefix_cons.mpr ⟨rfl, hk⟩)
    rw [List.cons_append, resolveWith, if_neg hdot, if_neg hup, hlook]
    exact hrest.trans (by rw [List.append_cons cur c rel])

theorem resolve_dirs {δ : Type} {fs : Fs δ} (links : Nat) {cur rel : Location}
    (hplain : ∀ n ∈ rel, n.isPlain = true)
    (hdirs : ∀ k, k ≠ [] → k <+: rel → fs.lookup (cur ++ k) = some .dir) :
    resolve fs links cur rel = .ok (cur ++ rel) := by
  have hwalk : ∀ next, resolveWith fs next cur rel = .ok (cur ++ rel) := by
    intro next
    have h : resolveWith fs next cur (rel ++ []) = _ := resolveWith_dirs hplain hdirs []
    rwa [List.append_nil] at h
  cases links <;> exact hwalk _

/-- A path to a link into the root goes on where the link points. -/
theorem resolve_link {δ : Type} {fs : Fs δ} (links : Nat) {q parts : List Name} {n : Name}
    (hplain : ∀ m ∈ q ++ [n], m.isPlain = true)
    (hdirs : ∀ k, k ≠ [] → k <+: q → fs.lookup k = some .dir)
    (hlink : fs.lookup (q ++ [n]) = some (.symlink { absolute := true, parts := parts })) :
    resolve fs (links + 1) [] (q ++ [n]) = resolve fs links [] parts := by
  obtain ⟨hdot, hup⟩ : n.text ≠ "." ∧ n.text ≠ ".." := by
    simpa [Name.isPlain] using hplain n (by simp)
  have hwalk : resolveWith fs (resolve fs links) [] (q ++ [n]) =
      resolveWith fs (resolve fs links) ([] ++ q) [n] :=
    resolveWith_dirs (fun m hm => hplain m (by simp [hm])) hdirs [n]
  rw [List.nil_append, resolveWith, if_neg hdot, if_neg hup, hlink] at hwalk
  simpa [resolve] using hwalk

theorem Closed.dirs_above {δ : Type} {fs : Fs δ} (h : Closed fs) {q : Location}
    (hdir : entryAt fs q = some .dir) {k : Location} (hk : k ≠ []) (hkq : k <+: q) :
    fs.lookup k = some .dir := by
  obtain ⟨rel, rfl⟩ := hkq
  have hkdir : entryAt fs k = some .dir := by
    by_cases hrel : rel = []
    · rwa [hrel, List.append_nil] at hdir
    · refine h.dir_above hrel ?_
      have hne : k ++ rel ≠ [] := by simp [hk]
      rw [entryAt, if_neg hne] at hdir
      rw [hdir]
      rfl
  rwa [entryAt, if_neg hk] at hkdir

/-- `lstat` of a name in a directory looks the name up. -/
theorem Closed.lstatFrom_self {δ : Type} {fs : Fs δ} (h : Closed fs) {q : Location} {n : Name}
    (hplain : ∀ m ∈ q ++ [n], m.isPlain = true) (hdir : entryAt fs q = some .dir) :
    lstatFrom fs [] (q ++ [n]) = match fs.lookup (q ++ [n]) with
      | some entry => .ok (q ++ [n], entry)
      | none => .error .notFound := by
  have hparent : resolve fs maxLinks [] q = .ok ([] ++ q) :=
    resolve_dirs maxLinks (fun m hm => hplain m (by simp [hm])) fun k hk hkq =>
      h.dirs_above hdir hk hkq
  unfold lstatFrom
  rw [List.getLast?_append_cons, List.getLast?_singleton, List.dropLast_concat]
  dsimp only
  rw [if_pos (hplain n (by simp)), hparent]
  dsimp only
  rw [List.nil_append, hdir]
  cases fs.lookup (q ++ [n]) <;> rfl

/-- A file system whose entries all lie in directories, and a working directory in it. -/
structure Disk (δ : Type) where
  fs : Fs δ
  closed : Closed fs
  cwd : Location
  cwd_dir : entryAt fs cwd = some .dir

namespace Disk

variable {δ : Type} (t : Disk δ)

def canonicalize (text : String) : Except Errno Location := FileTree.canonicalize t.fs t.cwd text

def lstat (text : String) : Except Errno (Location × Entry δ) := FileTree.lstat t.fs t.cwd text

theorem start_dir (p : Spelled) : entryAt t.fs (p.start t.cwd) = some .dir := by
  unfold Spelled.start
  split
  · rfl
  · exact t.cwd_dir

theorem entryAt_of_lstat {q : Location} {entry : Entry δ} {text : String}
    (h : t.lstat text = .ok (q, entry)) : entryAt t.fs q = some entry := by
  unfold lstat FileTree.lstat at h
  split at h
  · simp at h
  · next p _ => exact entryAt_of_lstatFrom (t.start_dir p) h

theorem entryAt_dropLast {q : Location} (h : entryAt t.fs q = some .dir) :
    entryAt t.fs q.dropLast = some .dir := by
  rcases List.eq_nil_or_concat q with rfl | ⟨parent, n, rfl⟩
  · rfl
  · rw [List.concat_eq_append] at h ⊢
    rw [List.dropLast_concat]
    exact t.closed parent n (by simp_all)

theorem resolveWith_exists {next : Location → List Name → Except Errno Location}
    {start q : Location} {parts : List Name}
    (hnext : ∀ start parts, entryAt t.fs start = some .dir → next start parts = .ok q →
      (entryAt t.fs q).isSome)
    (hstart : entryAt t.fs start = some .dir) (h : resolveWith t.fs next start parts = .ok q) :
    (entryAt t.fs q).isSome := by
  induction parts generalizing start with
  | nil =>
    obtain rfl : start = q := by simpa [resolveWith] using h
    simp [hstart]
  | cons c rest ih =>
    unfold resolveWith at h
    split at h
    · exact ih hstart h
    · split at h
      · exact ih (t.entryAt_dropLast hstart) h
      · split at h
        · simp at h
        · next target _ =>
          refine hnext _ _ ?_ h
          split
          · rfl
          · exact hstart
        · next hlook => exact ih (by simp [hlook]) h
        · next hlook =>
          split at h
          · obtain rfl := Except.ok.inj h
            simp [hlook]
          · simp at h

theorem resolve_exists {links : Nat} {start q : Location} {parts : List Name}
    (hstart : entryAt t.fs start = some .dir) (h : resolve t.fs links start parts = .ok q) :
    (entryAt t.fs q).isSome := by
  induction links generalizing start parts with
  | zero => exact t.resolveWith_exists (by simp) hstart h
  | succ links ih => exact t.resolveWith_exists (fun _ _ hs hn => ih hs hn) hstart h

/-- What a path resolves to exists. -/
theorem canonicalize_exists {q : Location} {text : String} (h : t.canonicalize text = .ok q) :
    (entryAt t.fs q).isSome := by
  unfold canonicalize FileTree.canonicalize at h
  split at h
  · simp at h
  · next p _ => exact t.resolve_exists (t.start_dir p) h

end Disk

/-- A disk on which nothing is called `.` or `..`. -/
structure Mount (δ : Type) extends Disk δ where
  plain : ∀ q, (fs.lookup q).isSome → ∀ n ∈ q, n.isPlain = true

/-- What `Mount` asks, entry by entry. -/
theorem plain_of_keys {δ : Type} {fs : Fs δ} (h : ∀ p ∈ fs.keys, ∀ n ∈ p, n.isPlain = true)
    (q : Location) (hq : (fs.lookup q).isSome) : ∀ n ∈ q, n.isPlain = true :=
  h q (AList.lookup_isSome.mp hq)

namespace Mount

variable {δ : Type} (t : Mount δ)

/-- The location of an entry that is no link is where its rendering leads. -/
theorem canonicalize_render {q : Location} {n : Name} {e : Entry δ}
    (h : t.fs.lookup (q ++ [n]) = some e) (hlink : ∀ target, e ≠ .symlink target) :
    t.canonicalize (render (q ++ [n])) = .ok (q ++ [n]) := by
  have hplain := t.plain (q ++ [n]) (by rw [h]; rfl)
  have hdir : entryAt t.fs q = some .dir := t.closed q n (by rw [h]; rfl)
  obtain ⟨hdot, hup⟩ : n.text ≠ "." ∧ n.text ≠ ".." := by
    simpa [Name.isPlain] using hplain n (by simp)
  have hwalk : ∀ next, resolveWith t.fs next [] (q ++ [n]) = .ok (q ++ [n]) := by
    intro next
    have hdirs : resolveWith t.fs next [] (q ++ [n]) = resolveWith t.fs next ([] ++ q) [n] := by
      refine resolveWith_dirs (fun m hm => hplain m (by simp [hm])) (fun k hk hkq => ?_) [n]
      exact t.closed.dirs_above hdir hk hkq
    rw [hdirs, List.nil_append, resolveWith, if_neg hdot, if_neg hup, h]
    cases e with
    | symlink target => exact absurd rfl (hlink target)
    | dir => rfl
    | file data => rfl
    | special => rfl
  unfold Disk.canonicalize FileTree.canonicalize
  rw [parse_render (by simp)]
  exact hwalk _

theorem lstat_render {q : Location} {n : Name} {e : Entry δ}
    (h : t.fs.lookup (q ++ [n]) = some e) : t.lstat (render (q ++ [n])) = .ok (q ++ [n], e) := by
  have hplain := t.plain (q ++ [n]) (by rw [h]; rfl)
  have hdir : entryAt t.fs q = some .dir := t.closed q n (by rw [h]; rfl)
  unfold Disk.lstat FileTree.lstat
  rw [parse_render (by simp)]
  have hself := t.closed.lstatFrom_self hplain hdir
  rwa [h] at hself

end Mount

/-! ## Taking subtrees out -/

section Removal

variable {δ : Type}

/-- `rm -r` at a location. -/
def removeSubtree (fs : Fs δ) (q : Location) : Fs δ := fs.retain fun p _ => !(q.isPrefixOf p)

@[simp] theorem lookup_removeSubtree (fs : Fs δ) (p q : Location) :
    (removeSubtree fs q).lookup p = if q <+: p then none else fs.lookup p := by
  rw [removeSubtree, FinMap.lookup_retain]
  by_cases h : q <+: p
  · have hb : q.isPrefixOf p = true := List.isPrefixOf_iff_prefix.mpr h
    cases fs.lookup p <;> simp [h, hb]
  · have hb : ¬ q.isPrefixOf p = true := fun hin => h (List.isPrefixOf_iff_prefix.mp hin)
    cases fs.lookup p <;> simp [h, hb]

end Removal

end FileTree
