import DraconGuard.Clean.Links
import DraconGuard.Lib.DotDot
import DraconGuard.Lib.Walks

/-!
# What `lexical_normalize` says of a path

The fallback for a path that cannot be resolved (src/links.rs:71-97) is a stack machine. Its stack
is always some `..`s below plain names, the normal form of `Lib/DotDot.lean`, so two paths have
one normal form exactly when they lead to one place from everywhere.

**At the root it keeps what the file system forgets**: `..` from the root is the root, but a
leading `..` is never dropped, so `/../a` and `/a` are two normal forms of one location
(`root_parent_is_kept`).
-/

namespace DraconGuard

open FileTree DotDot

/-- The component above. -/
def Name.up : Name := ⟨"..", by decide⟩

/-- What a component does to a walk. -/
def stepOf (c : Name) : Step Name :=
  if c.text = "." then .stay else if c.text = ".." then .up else .into c

/-- Where the components lead in a tree without links, the root being its own parent. -/
def lexicalWalk (base : Location) (parts : List Name) : Location :=
  walk base (parts.map stepOf)

/-- How often the components ask for the parent of the root. -/
def rootClimbs (parts : List Name) : Nat := climbs [] (parts.map stepOf)

/-- The normal form of the components. -/
def normalParts (parts : List Name) : Nat × List Name := normal (parts.map stepOf)

/-! ## The walk of a tree -/

theorem stepOf_dot {c : Name} (hc : c.text = ".") : stepOf c = .stay := if_pos hc

theorem stepOf_up {c : Name} (hc : c.text = "..") : stepOf c = .up := by
  have hdot : c.text ≠ "." := by rw [hc]; decide
  rw [stepOf, if_neg hdot, if_pos hc]

theorem stepOf_plain {c : Name} (hc : c.isPlain = true) : stepOf c = .into c := by
  obtain ⟨hdot, hup⟩ := Name.isPlain_iff.mp hc
  rw [stepOf, if_neg hdot, if_neg hup]

theorem lexicalWalk_cons (base : Location) (c : Name) (rest : List Name) :
    lexicalWalk base (c :: rest) = lexicalWalk (move base (stepOf c)) rest := rfl

/-- **A walk that arrives in a tree without links** arrives where its components lead. -/
theorem resolve_eq_lexicalWalk {δ : Type} {fs : Fs δ}
    (hfree : ∀ q target, fs.lookup q ≠ some (.symlink target)) {links : Nat} {start q : Location}
    {parts : List Name} (h : resolve fs links start parts = .ok q) :
    q = lexicalWalk start parts := by
  induction h using resolve_induction with
  | here links => rfl
  | dot links cur c rest hc _ ih =>
    rw [lexicalWalk_cons, stepOf_dot hc]
    exact ih
  | up links cur c rest hc _ ih =>
    rw [lexicalWalk_cons, stepOf_up hc]
    exact ih
  | into links cur c rest hc hlook _ ih =>
    rw [lexicalWalk_cons, stepOf_plain hc]
    exact ih
  | through links cur c rest target hc hlook _ _ => exact absurd hlook (hfree _ _)
  | leaf links cur c e hc hlook hleaf hq _ =>
    rw [lexicalWalk_cons, stepOf_plain hc]
    exact hq.symm

/-! ## The stack -/

/-- The components a normal form stands for. -/
def partsOf (form : Nat × List Name) : List Name := List.replicate form.1 Name.up ++ form.2

def PlainNames (names : List Name) : Prop := ∀ c ∈ names, c.isPlain = true

theorem getLast?_partsOf {form : Nat × List Name} (hplain : PlainNames form.2) :
    (partsOf form).getLast?.any Name.isPlain = !form.2.isEmpty := by
  obtain ⟨ups, names⟩ := form
  unfold partsOf
  cases names using List.reverseRecOn with
  | append_singleton names a _ =>
    have ha : a.isPlain = true := hplain a (by simp)
    simp [← List.append_assoc, ha]
  | nil =>
    cases ups with
    | zero => rfl
    | succ ups =>
      have hup : Name.up.isPlain = false := by decide
      simp [List.replicate_succ', hup]

/-- One component, on a stack of that shape. -/
theorem lexicalStep_partsOf {form : Nat × List Name} (hplain : PlainNames form.2) (c : Name) :
    lexicalStep (partsOf form) c = partsOf (push form (stepOf c)) ∧
      PlainNames (push form (stepOf c)).2 := by
  obtain ⟨ups, names⟩ := form
  unfold lexicalStep
  by_cases hdot : c.text = "."
  · rw [if_pos hdot, stepOf_dot hdot]
    exact ⟨rfl, hplain⟩
  by_cases hup : c.text = ".."
  · have hc : c = Name.up := by
      obtain ⟨text, valid⟩ := c
      cases hup
      rfl
    rw [if_neg hdot, if_pos hup, stepOf_up hup, push_up, getLast?_partsOf hplain]
    cases names using List.reverseRecOn with
    | nil =>
      refine ⟨?_, fun d hd => nomatch hd⟩
      simp [partsOf, List.replicate_succ', hc]
    | append_singleton names a _ =>
      refine ⟨by simp [partsOf, ← List.append_assoc], fun d hd => hplain d ?_⟩
      have hmem : d ∈ names := by simpa using hd
      exact List.mem_append_left [a] hmem
  · have hc : c.isPlain = true := Name.isPlain_iff.mpr ⟨hdot, hup⟩
    rw [if_neg hdot, if_neg hup, stepOf_plain hc]
    refine ⟨by simp [partsOf, push], fun d hd => ?_⟩
    rcases List.mem_append.mp hd with hd | hd
    · exact hplain d hd
    · rw [List.mem_singleton.mp hd]
      exact hc

/-- **The stack is `..`s below plain names**, those of the normal form. -/
theorem lexicalNormalize_parts (p : Spelled) :
    (lexicalNormalize p).parts = partsOf (normalParts p.parts) ∧
      PlainNames (normalParts p.parts).2 := by
  have hrun : ∀ (parts : List Name) (form : Nat × List Name), PlainNames form.2 →
      parts.foldl lexicalStep (partsOf form) = partsOf ((parts.map stepOf).foldl push form) ∧
        PlainNames ((parts.map stepOf).foldl push form).2 := by
    intro parts
    induction parts with
    | nil => exact fun form hplain => ⟨rfl, hplain⟩
    | cons c rest ih =>
      intro form hplain
      obtain ⟨hstep, hnext⟩ := lexicalStep_partsOf hplain c
      rw [List.foldl_cons, hstep, List.map_cons, List.foldl_cons]
      exact ih _ hnext
  exact hrun p.parts (0, []) fun c hc => nomatch hc

theorem map_stepOf_partsOf {form : Nat × List Name} (hplain : PlainNames form.2) :
    (partsOf form).map stepOf = List.replicate form.1 .up ++ form.2.map .into := by
  have hnames : form.2.map stepOf = form.2.map .into :=
    List.map_congr_left fun c hc => stepOf_plain (hplain c hc)
  have hup : stepOf Name.up = .up := stepOf_up rfl
  rw [partsOf, List.map_append, List.map_replicate, hnames, hup]

/-- A normal form is read back from its components. -/
theorem normalParts_partsOf {form : Nat × List Name} (hplain : PlainNames form.2) :
    normalParts (partsOf form) = form := by
  rw [normalParts, map_stepOf_partsOf hplain, normal_ups_into]

theorem lexicalNormalize_eq_iff {absolute : Bool} {xs ys : List Name} :
    lexicalNormalize { absolute := absolute, parts := xs } =
        lexicalNormalize { absolute := absolute, parts := ys } ↔ normalParts xs = normalParts ys := by
  obtain ⟨hxs, hplainXs⟩ := lexicalNormalize_parts { absolute := absolute, parts := xs }
  obtain ⟨hys, hplainYs⟩ := lexicalNormalize_parts { absolute := absolute, parts := ys }
  constructor
  · intro h
    have hparts := congrArg Spelled.parts h
    rw [hxs, hys] at hparts
    rw [← normalParts_partsOf hplainXs, hparts, normalParts_partsOf hplainYs]
  · intro h
    have hparts := hxs.trans ((congrArg partsOf h).trans hys.symm)
    exact congrArg (Spelled.mk absolute) hparts

theorem lexicalNormalize_idem (p : Spelled) :
    lexicalNormalize (lexicalNormalize p) = lexicalNormalize p := by
  obtain ⟨hparts, hplain⟩ := lexicalNormalize_parts p
  have hform : normalParts (lexicalNormalize p).parts = normalParts p.parts := by
    rw [hparts, normalParts_partsOf hplain]
  exact lexicalNormalize_eq_iff.mpr hform

theorem lexicalNormalize_ups (k : Nat) (xs : List Name) :
    (lexicalNormalize { absolute := false, parts := List.replicate k Name.up ++ xs }).parts =
      List.replicate k Name.up ++ (lexicalNormalize { absolute := false, parts := xs }).parts := by
  have hup : stepOf Name.up = .up := stepOf_up rfl
  rw [(lexicalNormalize_parts _).1, (lexicalNormalize_parts _).1]
  unfold normalParts partsOf
  rw [List.map_append, List.map_replicate, hup, normal_ups_append, List.replicate_add,
    List.append_assoc]

/-! ## Main result -/

theorem two_plain_names : ∃ a b : Name, a.isPlain = true ∧ b.isPlain = true ∧ a ≠ b :=
  ⟨⟨"a", by decide⟩, ⟨"b", by decide⟩, by decide, by decide, by decide⟩

/-- **`lexical_normalize` is a normal form**: of two absolute paths, exactly when they lead to one
place and ask for the parent of the root equally often; of two relative paths, exactly when they
lead to one place from every directory. It is a path of `..`s and plain names after them, the
leading `..`s of a relative path among them, that it leaves as it is. -/
theorem lexicalNormalize_normal_form (xs ys : List Name) :
    (lexicalNormalize { absolute := true, parts := xs } =
        lexicalNormalize { absolute := true, parts := ys } ↔
      lexicalWalk [] xs = lexicalWalk [] ys ∧ rootClimbs xs = rootClimbs ys) ∧
    (lexicalNormalize { absolute := false, parts := xs } =
        lexicalNormalize { absolute := false, parts := ys } ↔
      ∀ base, PlainNames base → lexicalWalk base xs = lexicalWalk base ys) ∧
    (∀ p, lexicalNormalize (lexicalNormalize p) = lexicalNormalize p) ∧
    (∀ p, ∃ ups names, (lexicalNormalize p).parts = List.replicate ups Name.up ++ names ∧
      PlainNames names) ∧
    ∀ k, (lexicalNormalize { absolute := false, parts := List.replicate k Name.up ++ xs }).parts =
      List.replicate k Name.up ++ (lexicalNormalize { absolute := false, parts := xs }).parts := by
  refine ⟨lexicalNormalize_eq_iff.trans normal_eq_iff_root,
    lexicalNormalize_eq_iff.trans (normal_eq_iff two_plain_names), lexicalNormalize_idem,
    fun p => ?_, fun k => lexicalNormalize_ups k xs⟩
  obtain ⟨hparts, hplain⟩ := lexicalNormalize_parts p
  exact ⟨_, _, hparts, hplain⟩

/-- **`/../a` and `/a`** are one location, and two normal forms. -/
theorem root_parent_is_kept :
    lexicalWalk [] [Name.up, ⟨"a", by decide⟩] = lexicalWalk [] [⟨"a", by decide⟩] ∧
      lexicalNormalize { absolute := true, parts := [Name.up, ⟨"a", by decide⟩] } ≠
        lexicalNormalize { absolute := true, parts := [⟨"a", by decide⟩] } := by
  refine ⟨by decide, fun h => ?_⟩
  have hparts := congrArg Spelled.parts h
  revert hparts
  decide

/-- Two paths of one normal form that arrive in a tree without links arrive at one place. -/
theorem resolve_of_lexicalNormalize {δ : Type} {fs : Fs δ}
    (hfree : ∀ q target, fs.lookup q ≠ some (.symlink target)) {links : Nat} {cwd a b : Location}
    (hcwd : PlainNames cwd) {p q : Spelled} (h : lexicalNormalize p = lexicalNormalize q)
    (ha : resolve fs links (p.start cwd) p.parts = .ok a)
    (hb : resolve fs links (q.start cwd) q.parts = .ok b) : a = b := by
  obtain ⟨absP, xs⟩ := p
  obtain ⟨absQ, ys⟩ := q
  have habs : absP = absQ := congrArg Spelled.absolute h
  subst habs
  rw [resolve_eq_lexicalWalk hfree ha, resolve_eq_lexicalWalk hfree hb]
  have hplain : PlainNames (Spelled.start { absolute := absP, parts := xs } cwd) := by
    cases absP with
    | true => exact fun c hc => nomatch hc
    | false => exact hcwd
  exact (normal_eq_iff two_plain_names).mp (lexicalNormalize_eq_iff.mp h) _ hplain

end DraconGuard
