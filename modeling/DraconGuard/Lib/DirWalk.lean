import Mathlib.Algebra.GroupWithZero.Nat
import DraconGuard.Lib.Subtree

/-!
# Walking a directory that does not answer everything

A recursive listing meets directories that cannot be opened, listings that break off, and entries
whose kind cannot be told. `Scan` says which; `walkDir` is what the walk yields, entries and
errors, and `Closed.reaches_or_stops` that what it does not come to lies below an error.
-/

namespace FileTree

/-- How a directory answers a listing. -/
inductive Listing where
  | whole
  /-- It cannot be opened. -/
  | closed
  /-- An error in the middle, after the names shown. -/
  | cut (shown : Name → Bool)

def Listing.shows : Listing → Name → Bool
  | .whole, _ => true
  | .closed, _ => false
  | .cut shown, n => shown n

/-- What a walk meets, by location. -/
structure Scan where
  listing : Location → Listing := fun _ => .whole
  /-- Entries whose kind cannot be told. -/
  untyped : Location → Bool := fun _ => false

namespace Scan

/-- A directory the walk lists to the end. -/
def Whole (scan : Scan) (q : Location) : Prop :=
  scan.untyped q = false ∧ scan.listing q = .whole

/-- The walk from `dir` comes to `dir ++ rel`. -/
def reaches (scan : Scan) (dir : Location) : List Name → Bool
  | [] => true
  | n :: rel => !scan.untyped dir && (scan.listing dir).shows n && scan.reaches (dir ++ [n]) rel

theorem reaches_append {scan : Scan} {dir : Location} {rel rest : List Name} :
    scan.reaches dir (rel ++ rest) = (scan.reaches dir rel && scan.reaches (dir ++ rel) rest) := by
  induction rel generalizing dir with
  | nil => simp [reaches]
  | cons n rel ih =>
    rw [List.cons_append, reaches, reaches, ih, ← List.append_cons]
    simp only [Bool.and_assoc]

theorem reaches_concat {scan : Scan} {dir : Location} {rel : List Name} {n : Name}
    (h : scan.reaches dir rel = true) (hwhole : scan.Whole (dir ++ rel)) :
    scan.reaches dir (rel ++ [n]) = true := by
  simp [reaches_append, h, reaches, hwhole.1, hwhole.2, Listing.shows]

end Scan

variable {δ : Type}

/-- Whatever is not reached lies below a directory that is, and is not listed to the end. -/
theorem Closed.reaches_or_stops {fs : Fs δ} (h : Closed fs) (scan : Scan) {dir : Location}
    {rel : List Name} (hsome : (fs.lookup (dir ++ rel)).isSome) :
    scan.reaches dir rel = true ∨ ∃ k n, k ++ [n] <+: rel ∧ scan.reaches dir k = true ∧
      entryAt fs (dir ++ k) = some .dir ∧ ¬ scan.Whole (dir ++ k) := by
  induction rel using List.reverseRecOn with
  | nil => exact Or.inl rfl
  | append_singleton rel n ih =>
    rw [← List.append_assoc] at hsome
    have hdir := h (dir ++ rel) n hsome
    have hrel : scan.reaches dir rel = true ∨ ∃ k m, k ++ [m] <+: rel ∧
        scan.reaches dir k = true ∧ entryAt fs (dir ++ k) = some .dir ∧
          ¬ scan.Whole (dir ++ k) := by
      by_cases hempty : rel = []
      · subst hempty
        exact Or.inl rfl
      · refine ih ?_
        rw [entryAt, if_neg (by simp [hempty])] at hdir
        rw [hdir]
        rfl
    rcases hrel with hreach | ⟨k, m, hk, hstop⟩
    · by_cases hwhole : scan.Whole (dir ++ rel)
      · exact Or.inl (Scan.reaches_concat hreach hwhole)
      · exact Or.inr ⟨rel, n, List.prefix_refl _, hreach, hdir, hwhole⟩
    · exact Or.inr ⟨k, m, hk.trans (List.prefix_append rel [n]), hstop⟩

/-! ## What the walk yields -/

/-- An entry, or an error with the place it is about, where it has one. -/
inductive WalkItem (δ : Type) where
  | entry (rel : Location) (e : Entry δ)
  | failed (rel : Option Location)

/-- What listing a directory adds: its own failure to open is about it, a listing that breaks off
is about no path. -/
def listingErrors (rel : Location) : Listing → List (WalkItem δ)
  | .whole => []
  | .closed => [.failed (some rel)]
  | .cut _ => [.failed none]

/-- What a walk yields at one entry. Directories at the depth limit are not opened. -/
def itemsAt (scan : Scan) (maxDepth : Option Nat) (root : Location) (i : Location × Entry δ) :
    List (WalkItem δ) :=
  if scan.reaches root i.1 && maxDepth.all (i.1.length ≤ ·) then
    if scan.untyped (root ++ i.1) then [.failed (some i.1)]
    else
      .entry i.1 i.2 :: if i.2.isDir && maxDepth.all (i.1.length < ·) then
        listingErrors i.1 (scan.listing (root ++ i.1)) else []
  else []

section Items

variable {scan : Scan} {depth : Option Nat} {root rel : Location} {e : Entry δ}

theorem failed_mem_itemsAt (hreach : scan.reaches root rel = true)
    (hdepth : depth.all (rel.length ≤ ·) = true) (huntyped : scan.untyped (root ++ rel) = true) :
    .failed (some rel) ∈ itemsAt scan depth root (rel, e) := by
  simp [itemsAt, hreach, hdepth, huntyped]

theorem entry_mem_itemsAt (hreach : scan.reaches root rel = true)
    (hdepth : depth.all (rel.length ≤ ·) = true) (htyped : scan.untyped (root ++ rel) = false) :
    .entry rel e ∈ itemsAt scan depth root (rel, e) := by
  simp [itemsAt, hreach, hdepth, htyped]

/-- Where a directory is opened, the errors of its listing. -/
theorem error_mem_itemsAt {item : WalkItem δ} (hreach : scan.reaches root rel = true)
    (hdepth : depth.all (rel.length < ·) = true) (htyped : scan.untyped (root ++ rel) = false)
    (herror : item ∈ listingErrors rel (scan.listing (root ++ rel))) :
    item ∈ itemsAt scan depth root (rel, .dir) := by
  have hopened : depth.all (rel.length ≤ ·) = true := by
    cases depth with
    | none => rfl
    | some d =>
      have hlt : rel.length < d := of_decide_eq_true hdepth
      exact decide_eq_true (Nat.le_of_lt hlt)
  simp [itemsAt, hreach, hopened, hdepth, htyped, herror, Entry.isDir]

end Items

/-- A walk from `root`, links not followed, in no particular order. -/
def walkDir (fs : Fs δ) (scan : Scan) (maxDepth : Option Nat) (root : Location) :
    List (WalkItem δ) :=
  (walk fs root).flatMap (itemsAt scan maxDepth root)

theorem mem_walkDir {fs : Fs δ} {scan : Scan} {maxDepth : Option Nat} {root : Location}
    {item : WalkItem δ} : item ∈ walkDir fs scan maxDepth root ↔
      ∃ rel e, fs.lookup (root ++ rel) = some e ∧ item ∈ itemsAt scan maxDepth root (rel, e) := by
  simp [walkDir, mem_walk]

/-- The walk comes to an entry and can tell what it is. -/
def Scan.yields (scan : Scan) (maxDepth : Option Nat) (root : Location) (rel : List Name) : Bool :=
  scan.reaches root rel && maxDepth.all (rel.length ≤ ·) && !scan.untyped (root ++ rel)

/-- With its errors passed over, a walk is a selection of entries. -/
theorem filterMap_walkDir {γ : Type} (fs : Fs δ) (scan : Scan) (maxDepth : Option Nat)
    (root : Location) {select : WalkItem δ → Option γ}
    (hfailed : ∀ rel, select (.failed rel) = none) :
    (walkDir fs scan maxDepth root).filterMap select = (walk fs root).filterMap fun i =>
      if scan.yields maxDepth root i.1 then select (.entry i.1 i.2) else none := by
  have herrors : ∀ rel listing, (listingErrors rel listing).filterMap select = [] := by
    intro rel listing
    cases listing <;> simp [listingErrors, hfailed]
  unfold walkDir
  rw [List.filterMap_flatMap, List.filterMap_eq_flatMap_toList]
  refine List.flatMap_congr fun i _ => ?_
  unfold itemsAt Scan.yields
  cases scan.reaches root i.1 && maxDepth.all (i.1.length ≤ ·) with
  | false => rfl
  | true =>
    cases scan.untyped (root ++ i.1) with
    | true => simp [hfailed]
    | false =>
      have hrest : ∀ opened : Bool, (if opened then
          listingErrors i.1 (scan.listing (root ++ i.1)) else []).filterMap select = [] := by
        intro opened
        cases opened
        · rfl
        · exact herrors _ _
      simp only [Bool.not_false, Bool.and_self, Bool.false_eq_true, if_true, if_false,
        List.filterMap_cons, hrest]
      cases select (.entry i.1 i.2) <;> rfl

/-- The lengths of whatever is no directory, errors passed over. -/
def dirSize (fs : Fs δ) (scan : Scan) (len : Location → Nat) (root : Location) : Nat :=
  ((walkDir fs scan none root).map fun
    | .entry rel e => if e.isDir then 0 else len (root ++ rel)
    | .failed _ => 0).sum

end FileTree
