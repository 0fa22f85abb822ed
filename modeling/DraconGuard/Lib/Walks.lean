import DraconGuard.Lib.Subtree

/-!
# Walks that arrive

`resolve` one component at a time, and an induction over the walks that arrive
(`resolve_induction`). From it:

* a walk that has come to a directory goes on from there with the links it did not use
  (`resolve_onward`);
* a walk in a tree with one more link either does without it, or comes to it with links to spare
  and goes on where it points (`resolve_insert_link`), so what the link itself says to a walk
  that arrives is what it says without the link (`resolve_link_free`);
* no directory of a path that arrives has to be made (`makeDirs_of_resolve`).
-/

namespace FileTree

variable {δ : Type} {fs : Fs δ}

/-! ## One component -/

theorem Name.isPlain_iff {c : Name} : c.isPlain = true ↔ c.text ≠ "." ∧ c.text ≠ ".." := by
  simp [Name.isPlain]

@[simp] theorem resolve_nil (fs : Fs δ) (links : Nat) (cur : Location) :
    resolve fs links cur [] = .ok cur := by
  cases links <;> rfl

theorem resolve_dot {links : Nat} {cur : Location} {c : Name} (rest : List Name)
    (hc : c.text = ".") : resolve fs links cur (c :: rest) = resolve fs links cur rest := by
  cases links <;> simp [resolve, resolveWith, hc]

theorem resolve_up {links : Nat} {cur : Location} {c : Name} (rest : List Name)
    (hc : c.text = "..") :
    resolve fs links cur (c :: rest) = resolve fs links cur.dropLast rest := by
  cases links <;> simp [resolve, resolveWith, hc]

theorem resolve_into {links : Nat} {cur : Location} {c : Name} (rest : List Name)
    (hc : c.isPlain = true) (hlook : fs.lookup (cur ++ [c]) = some .dir) :
    resolve fs links cur (c :: rest) = resolve fs links (cur ++ [c]) rest := by
  obtain ⟨hdot, hup⟩ := Name.isPlain_iff.mp hc
  cases links <;> simp [resolve, resolveWith, hdot, hup, hlook]

theorem resolve_absent {links : Nat} {cur : Location} {c : Name} (rest : List Name)
    (hc : c.isPlain = true) (hlook : fs.lookup (cur ++ [c]) = none) :
    resolve fs links cur (c :: rest) = .error .notFound := by
  obtain ⟨hdot, hup⟩ := Name.isPlain_iff.mp hc
  cases links <;> simp [resolve, resolveWith, hdot, hup, hlook]

theorem resolve_through {links : Nat} {cur : Location} {c : Name} (rest : List Name)
    {target : Spelled} (hc : c.isPlain = true)
    (hlook : fs.lookup (cur ++ [c]) = some (.symlink target)) :
    resolve fs (links + 1) cur (c :: rest) =
      resolve fs links (target.start cur) (target.parts ++ rest) := by
  obtain ⟨hdot, hup⟩ := Name.isPlain_iff.mp hc
  simp [resolve, resolveWith, hdot, hup, hlook, Spelled.start]

theorem resolve_exhausted {cur : Location} {c : Name} (rest : List Name) {target : Spelled}
    (hc : c.isPlain = true) (hlook : fs.lookup (cur ++ [c]) = some (.symlink target)) :
    resolve fs 0 cur (c :: rest) = .error .tooManyLinks := by
  obtain ⟨hdot, hup⟩ := Name.isPlain_iff.mp hc
  simp [resolve, resolveWith, hdot, hup, hlook]

/-- An entry that is neither a directory nor a link ends a walk. -/
def Entry.isLeaf : Entry δ → Bool
  | .dir => false
  | .symlink _ => false
  | _ => true

theorem resolve_leaf {links : Nat} {cur : Location} {c : Name} (rest : List Name) {e : Entry δ}
    (hc : c.isPlain = true) (hlook : fs.lookup (cur ++ [c]) = some e) (hleaf : e.isLeaf = true) :
    resolve fs links cur (c :: rest) =
      if rest = [] then .ok (cur ++ [c]) else .error .notADirectory := by
  obtain ⟨hdot, hup⟩ := Name.isPlain_iff.mp hc
  cases e with
  | dir => cases hleaf
  | symlink target => cases hleaf
  | file data => cases links <;> simp [resolve, resolveWith, hdot, hup, hlook]
  | special => cases links <;> simp [resolve, resolveWith, hdot, hup, hlook]

/-- **Induction over a walk that arrives**, a case for each way a component is passed. -/
theorem resolve_induction {q : Location}
    {motive : ∀ links start parts, resolve fs links start parts = .ok q → Prop}
    (here : ∀ links, motive links q [] (resolve_nil fs links q))
    (dot : ∀ links cur c rest (hc : c.text = ".")
      (hwalk : resolve fs links cur rest = .ok q), motive links cur rest hwalk →
      motive links cur (c :: rest) ((resolve_dot rest hc).trans hwalk))
    (up : ∀ links cur c rest (hc : c.text = "..")
      (hwalk : resolve fs links cur.dropLast rest = .ok q),
      motive links cur.dropLast rest hwalk →
      motive links cur (c :: rest) ((resolve_up rest hc).trans hwalk))
    (into : ∀ links cur c rest (hc : c.isPlain = true)
      (hlook : fs.lookup (cur ++ [c]) = some .dir)
      (hwalk : resolve fs links (cur ++ [c]) rest = .ok q), motive links (cur ++ [c]) rest hwalk →
      motive links cur (c :: rest) ((resolve_into rest hc hlook).trans hwalk))
    (through : ∀ links cur c rest target (hc : c.isPlain = true)
      (hlook : fs.lookup (cur ++ [c]) = some (.symlink target))
      (hwalk : resolve fs links (target.start cur) (target.parts ++ rest) = .ok q),
      motive links (target.start cur) (target.parts ++ rest) hwalk →
      motive (links + 1) cur (c :: rest) ((resolve_through rest hc hlook).trans hwalk))
    (leaf : ∀ links cur c e (_hc : c.isPlain = true) (_hlook : fs.lookup (cur ++ [c]) = some e)
      (_hleaf : e.isLeaf = true) (_hq : cur ++ [c] = q)
      (hwalk : resolve fs links cur [c] = .ok q), motive links cur [c] hwalk)
    {links : Nat} {start : Location} {parts : List Name}
    (h : resolve fs links start parts = .ok q) : motive links start parts h := by
  induction links using Nat.strongRecOn generalizing start parts with
  | _ links ih =>
    induction parts generalizing start with
    | nil =>
      obtain rfl : start = q := by simpa using h
      exact here links
    | cons c rest ihrest =>
      by_cases hdot : c.text = "."
      · have hwalk := (resolve_dot rest hdot).symm.trans h
        exact dot links start c rest hdot hwalk (ihrest hwalk)
      by_cases hup : c.text = ".."
      · have hwalk := (resolve_up rest hup).symm.trans h
        exact up links start c rest hup hwalk (ihrest hwalk)
      have hc : c.isPlain = true := Name.isPlain_iff.mpr ⟨hdot, hup⟩
      cases hlook : fs.lookup (start ++ [c]) with
      | none =>
        have habsent := (resolve_absent rest hc hlook).symm.trans h
        cases habsent
      | some e =>
        cases hleaf : e.isLeaf with
        | true =>
          have hend := (resolve_leaf rest hc hlook hleaf).symm.trans h
          split at hend
          · next hrest =>
            subst hrest
            exact leaf links start c e hc hlook hleaf (Except.ok.inj hend) h
          · cases hend
        | false =>
          cases e with
          | dir =>
            have hwalk := (resolve_into rest hc hlook).symm.trans h
            exact into links start c rest hc hlook hwalk (ihrest hwalk)
          | symlink target =>
            cases links with
            | zero =>
              have hout := (resolve_exhausted rest hc hlook).symm.trans h
              cases hout
            | succ links =>
              have hwalk := (resolve_through rest hc hlook).symm.trans h
              exact through links start c rest target hc hlook hwalk
                (ih links (Nat.lt_succ_self links) hwalk)
          | file data => cases hleaf
          | special => cases hleaf

/-! ## Going on from a directory -/

/-- **A walk goes on** from the directory it came to, wherever there is as much around, with the
links it did not use. -/
theorem resolve_onward {links : Nat} {start q : Location} {xs : List Name}
    (h : resolve fs links start xs = .ok q) (hdir : entryAt fs q = some .dir) :
    ∃ used, used ≤ links ∧ ∀ fs', Covers fs fs' → ∀ extra ys,
      resolve fs' (used + extra) start (xs ++ ys) = resolve fs' extra q ys := by
  induction h using resolve_induction with
  | here links => exact ⟨0, Nat.zero_le _, fun fs' _ extra ys => by rw [Nat.zero_add]; rfl⟩
  | dot links cur c rest hc _ ih =>
    obtain ⟨used, hle, hgo⟩ := ih
    refine ⟨used, hle, fun fs' hfs' extra ys => ?_⟩
    rw [List.cons_append, resolve_dot (rest ++ ys) hc]
    exact hgo fs' hfs' extra ys
  | up links cur c rest hc _ ih =>
    obtain ⟨used, hle, hgo⟩ := ih
    refine ⟨used, hle, fun fs' hfs' extra ys => ?_⟩
    rw [List.cons_append, resolve_up (rest ++ ys) hc]
    exact hgo fs' hfs' extra ys
  | into links cur c rest hc hlook _ ih =>
    obtain ⟨used, hle, hgo⟩ := ih
    refine ⟨used, hle, fun fs' hfs' extra ys => ?_⟩
    rw [List.cons_append, resolve_into (rest ++ ys) hc (hfs' _ _ hlook)]
    exact hgo fs' hfs' extra ys
  | through links cur c rest target hc hlook _ ih =>
    obtain ⟨used, hle, hgo⟩ := ih
    refine ⟨used + 1, by omega, fun fs' hfs' extra ys => ?_⟩
    rw [List.cons_append, Nat.add_right_comm, resolve_through (rest ++ ys) hc (hfs' _ _ hlook),
      ← List.append_assoc]
    exact hgo fs' hfs' extra ys
  | leaf links cur c e hc hlook hleaf hq _ =>
    -- a walk that ends in a file does not end in a directory
    rw [← hq, entryAt_concat, hlook] at hdir
    cases hdir
    cases hleaf

theorem Covers.refl (fs : Fs δ) : Covers fs fs := fun _ _ h => h

theorem Agree.refl (fs : Fs δ) : Agree fs fs := (Covers.refl fs).agree

theorem resolve_mono {links links' : Nat} (hle : links ≤ links') {start q : Location}
    {parts : List Name} (h : resolve fs links start parts = .ok q) :
    resolve fs links' start parts = .ok q := (Covers.refl fs).resolve hle h

/-- What a walk comes to by way of a link is no link. -/
theorem Disk.resolve_not_link (t : Disk δ) {links : Nat} {start q : Location} {parts : List Name}
    (hstart : entryAt t.fs start = some .dir) (h : resolve t.fs links start parts = .ok q)
    (target : Spelled) : entryAt t.fs q ≠ some (.symlink target) := by
  induction h using resolve_induction with
  | here links => simp [hstart]
  | dot links cur c rest hc _ ih => exact ih hstart
  | up links cur c rest hc _ ih => exact ih (t.entryAt_dropLast hstart)
  | into links cur c rest hc hlook _ ih => exact ih (by rw [entryAt_concat, hlook])
  | through links cur c rest link hc hlook _ ih =>
    refine ih ?_
    unfold Spelled.start
    split
    · rfl
    · exact hstart
  | leaf links cur c e hc hlook hleaf hq _ =>
    rw [← hq, entryAt_concat, hlook]
    rintro ⟨⟩
    cases hleaf

/-! ## One more link -/

theorem covers_insert {L : Location} {e : Entry δ} (hfree : fs.lookup L = none) :
    Covers fs (fs.insert L e) := by
  intro q e' hq
  rw [AList.lookup_insert_ne, hq]
  rintro rfl
  rw [hfree] at hq
  cases hq

/-- A walk in a tree with one more link at `L` does without it, or comes to it with links to
spare. -/
theorem resolve_insert_link {L parent : Location} {n : Name} {target : Spelled}
    (hL : L = parent ++ [n]) {links : Nat} {start q : Location} {parts : List Name}
    (h : resolve (fs.insert L (.symlink target)) links start parts = .ok q) :
    resolve fs links start parts = .ok q ∨
      ∃ left rest, left < links ∧ resolve (fs.insert L (.symlink target)) left
        (target.start parent) (target.parts ++ rest) = .ok q := by
  have hother : ∀ {p : Location} {e : Entry δ}, p ≠ L →
      (fs.insert L (.symlink target)).lookup p = some e → fs.lookup p = some e := by
    intro p e hne hlook
    rwa [AList.lookup_insert_ne hne] at hlook
  have hself : ∀ {cur : Location} {c : Name} {e : Entry δ}, cur ++ [c] = L →
      (fs.insert L (.symlink target)).lookup (cur ++ [c]) = some e → e = .symlink target := by
    intro cur c e heq hlook
    rw [heq, AList.lookup_insert] at hlook
    exact (Option.some.inj hlook).symm
  induction h using resolve_induction with
  | here links => exact Or.inl (resolve_nil fs links q)
  | dot links cur c rest hc _ ih => rwa [resolve_dot rest hc]
  | up links cur c rest hc _ ih => rwa [resolve_up rest hc]
  | into links cur c rest hc hlook _ ih =>
    have hne : cur ++ [c] ≠ L := fun heq => nomatch hself heq hlook
    rwa [resolve_into rest hc (hother hne hlook)]
  | through links cur c rest link hc hlook hwalk ih =>
    by_cases heq : cur ++ [c] = L
    · -- this is the new link
      obtain ⟨rfl, -⟩ := List.append_inj' (heq.trans hL) rfl
      have hlink := hself heq hlook
      cases hlink
      exact Or.inr ⟨links, rest, Nat.lt_succ_self links, hwalk⟩
    · rcases ih with hfs | ⟨left, rest', hlt, hin⟩
      · left
        rwa [resolve_through rest hc (hother heq hlook)]
      · exact Or.inr ⟨left, rest', Nat.lt_succ_of_lt hlt, hin⟩
  | leaf links cur c e hc hlook hleaf hq _ =>
    have hne : cur ++ [c] ≠ L := by
      intro heq
      rw [hself heq hlook] at hleaf
      cases hleaf
    left
    rw [resolve_leaf [] hc (hother hne hlook) hleaf, if_pos rfl, hq]

/-- **A link that leads somewhere leads there without itself**: following a new link, a walk
that arrives never needs to pass it again. -/
theorem resolve_link_free {L parent : Location} {n : Name} {target : Spelled}
    (hL : L = parent ++ [n]) {links : Nat} {q : Location}
    (h : resolve (fs.insert L (.symlink target)) links (target.start parent) target.parts =
      .ok q) : resolve fs links (target.start parent) target.parts = .ok q := by
  induction links using Nat.strongRecOn with
  | _ links ih =>
    rcases resolve_insert_link hL h with hfs | ⟨left, rest, hlt, hin⟩
    · exact hfs
    · -- it went by the link with fewer links left, and came to the same place
      obtain ⟨p, hp⟩ := resolve_prefix hin
      obtain rfl : p = q := (Agree.refl _).resolve hp h
      exact resolve_mono (Nat.le_of_lt hlt) (ih left hlt hp)

/-! ## Directories that need not be made -/

/-- On a path that arrives nothing has to be made. -/
theorem makeDirs_of_resolve {links : Nat} (hlinks : links ≤ maxLinks) {start q : Location}
    {xs ys : List Name} (h : resolve fs links start (xs ++ ys) = .ok q) :
    (makeDirs fs start xs).1 = fs := by
  induction xs generalizing start links with
  | nil => rfl
  | cons c rest ih =>
    obtain ⟨p, hp⟩ := @ resolve_prefix _ _ _ _ _ [c] (rest ++ ys) h
    rw [makeDirs, resolve_mono hlinks hp]
    dsimp only
    by_cases hdir : entryAt fs p = some .dir
    · rw [if_pos (any_isDir_iff.mpr hdir)]
      obtain ⟨used, hle, hgo⟩ := resolve_onward hp hdir
      have hrest := hgo fs (Covers.refl fs) (links - used) (rest ++ ys)
      rw [Nat.add_sub_cancel' hle] at hrest
      exact ih (Nat.le_trans (Nat.sub_le links used) hlinks) (hrest.symm.trans h)
    · rw [if_neg fun hany => hdir (any_isDir_iff.mp hany)]

/-- A walk that arrives at a directory has come by directories. -/
theorem Disk.dir_of_resolve_append (t : Disk δ) {links : Nat} {start p q : Location}
    {xs ys : List Name} (hp : resolve t.fs links start xs = .ok p)
    (hstart : entryAt t.fs start = some .dir) (h : resolve t.fs links start (xs ++ ys) = .ok q)
    (hq : entryAt t.fs q = some .dir) : entryAt t.fs p = some .dir := by
  induction hp using resolve_induction with
  | here links => exact hstart
  | dot links cur c rest hc _ ih =>
    rw [List.cons_append, resolve_dot (rest ++ ys) hc] at h
    exact ih hstart h
  | up links cur c rest hc _ ih =>
    rw [List.cons_append, resolve_up (rest ++ ys) hc] at h
    exact ih (t.entryAt_dropLast hstart) h
  | into links cur c rest hc hlook _ ih =>
    rw [List.cons_append, resolve_into (rest ++ ys) hc hlook] at h
    exact ih (by rw [entryAt_concat, hlook]) h
  | through links cur c rest link hc hlook _ ih =>
    rw [List.cons_append, resolve_through (rest ++ ys) hc hlook, ← List.append_assoc] at h
    refine ih ?_ h
    unfold Spelled.start
    split
    · rfl
    · exact hstart
  | leaf links cur c e hc hlook hleaf hp _ =>
    rw [List.cons_append, resolve_leaf ([] ++ ys) hc hlook hleaf] at h
    split at h
    · obtain rfl : p = q := hp.symm.trans (Except.ok.inj h)
      exact hq
    · cases h

/-- Nor is it an error to make them, when it is a directory that it arrives at. -/
theorem Disk.makeDirs_of_resolve (t : Disk δ) {links : Nat} (hlinks : links ≤ maxLinks)
    {start q : Location} {parts : List Name} (hstart : entryAt t.fs start = some .dir)
    (h : resolve t.fs links start parts = .ok q) (hq : entryAt t.fs q = some .dir) :
    FileTree.makeDirs t.fs start parts = (t.fs, .ok q) := by
  induction parts generalizing start links with
  | nil =>
    obtain rfl : start = q := by simpa using h
    rfl
  | cons c rest ih =>
    obtain ⟨p, hp⟩ := @ resolve_prefix _ _ _ _ _ [c] rest h
    have hdir : entryAt t.fs p = some .dir := t.dir_of_resolve_append hp hstart h hq
    obtain ⟨used, hle, hgo⟩ := resolve_onward hp hdir
    have hrest := hgo t.fs (Covers.refl t.fs) (links - used) rest
    rw [Nat.add_sub_cancel' hle] at hrest
    rw [FileTree.makeDirs, resolve_mono hlinks hp]
    dsimp only
    rw [if_pos (any_isDir_iff.mpr hdir)]
    exact ih (Nat.le_trans (Nat.sub_le links used) hlinks) hdir (hrest.symm.trans h)

/-! ## What `lstat` says -/

theorem Covers.lstatFrom {fs fs' : Fs δ} (h : Covers fs fs') {start q : Location}
    {parts : List Name} {e : Entry δ} (hq : lstatFrom fs start parts = .ok (q, e)) :
    FileTree.lstatFrom fs' start parts = .ok (q, e) := by
  unfold FileTree.lstatFrom at hq ⊢
  split at hq
  · next last hlast =>
    by_cases hplain : last.isPlain = true
    · rw [if_pos hplain] at hq ⊢
      split at hq
      · cases hq
      next parent hparent =>
      rw [h.resolve (Nat.le_refl _) hparent]
      split at hq
      · next entry hdir hlook =>
        cases hq
        dsimp only
        rw [h.entryAt hdir, h _ _ hlook]
      · cases hq
      · cases hq
    · rw [if_neg hplain] at hq ⊢
      split at hq
      · cases hq
      next r hr =>
      rw [h.resolve (Nat.le_refl _) hr]
      split at hq
      · next entry hentry =>
        cases hq
        dsimp only
        rw [h.entryAt hentry]
      · cases hq
  · exact hq

/-- A path that ends in a dot leads to a directory. -/
theorem Disk.dir_of_resolve_dots (t : Disk δ) {links : Nat} {start q : Location}
    {parts : List Name} (h : resolve t.fs links start parts = .ok q)
    (hstart : entryAt t.fs start = some .dir) {xs : List Name} {c : Name}
    (hparts : parts = xs ++ [c]) (hc : c.isPlain = false) : entryAt t.fs q = some .dir := by
  induction h using resolve_induction generalizing xs with
  | here links => exact hstart
  | dot links cur d rest hd hwalk ih =>
    cases xs with
    | nil =>
      obtain ⟨rfl, rfl⟩ := List.cons_eq_cons.mp hparts
      obtain rfl : cur = q := by simpa using hwalk
      exact hstart
    | cons x xs => exact ih hstart (List.cons_eq_cons.mp hparts).2
  | up links cur d rest hd hwalk ih =>
    cases xs with
    | nil =>
      obtain ⟨rfl, rfl⟩ := List.cons_eq_cons.mp hparts
      obtain rfl : cur.dropLast = q := by simpa using hwalk
      exact t.entryAt_dropLast hstart
    | cons x xs => exact ih (t.entryAt_dropLast hstart) (List.cons_eq_cons.mp hparts).2
  | into links cur d rest hd hlook hwalk ih =>
    cases xs with
    | nil =>
      obtain ⟨rfl, -⟩ := List.cons_eq_cons.mp hparts
      rw [hd] at hc
      cases hc
    | cons x xs =>
      exact ih (by rw [entryAt_concat, hlook]) (List.cons_eq_cons.mp hparts).2
  | through links cur d rest target hd hlook hwalk ih =>
    cases xs with
    | nil =>
      obtain ⟨rfl, -⟩ := List.cons_eq_cons.mp hparts
      rw [hd] at hc
      cases hc
    | cons x xs =>
      obtain ⟨-, rfl⟩ := List.cons_eq_cons.mp hparts
      refine ih ?_ (List.append_assoc target.parts xs [c]).symm
      unfold Spelled.start
      split
      · rfl
      · exact hstart
  | leaf links cur d e hd hlook hleaf hq _ =>
    cases xs with
    | nil =>
      obtain ⟨rfl, -⟩ := List.cons_eq_cons.mp hparts
      rw [hd] at hc
      cases hc
    | cons x xs => simp at hparts

/-- What is no link resolves to where it is. -/
theorem Disk.resolve_of_lstatFrom (t : Disk δ) {start q : Location} {parts : List Name}
    {e : Entry δ} (h : lstatFrom t.fs start parts = .ok (q, e))
    (hlink : ∀ target, e ≠ .symlink target) : resolve t.fs maxLinks start parts = .ok q := by
  unfold lstatFrom at h
  split at h
  · next last hlast =>
    split at h
    · next hplain =>
      split at h
      · cases h
      next parent hparent =>
      split at h
      · next entry hdir hlook =>
        cases h
        obtain ⟨used, hle, hgo⟩ := resolve_onward hparent hdir
        have hwalk := hgo t.fs (Covers.refl t.fs) (maxLinks - used) [last]
        rw [Nat.add_sub_cancel' hle, List.dropLast_append_getLast? last hlast] at hwalk
        rw [hwalk]
        cases e with
        | dir => rw [resolve_into [] hplain hlook, resolve_nil]
        | symlink target => exact absurd rfl (hlink target)
        | file data => rw [resolve_leaf [] hplain hlook rfl, if_pos rfl]
        | special => rw [resolve_leaf [] hplain hlook rfl, if_pos rfl]
      · cases h
      · cases h
    · split at h
      · cases h
      next r hr =>
      split at h
      · cases h
        exact hr
      · cases h
  · next hlast =>
    cases h
    have hnil : parts = [] := by simpa using hlast
    rw [hnil, resolve_nil]

theorem Disk.canonicalize_of_lstat {t : Disk δ} {text : String} {q : Location} {e : Entry δ}
    (h : t.lstat text = .ok (q, e)) (hlink : ∀ target, e ≠ .symlink target) :
    t.canonicalize text = .ok q := by
  unfold Disk.lstat FileTree.lstat at h
  unfold Disk.canonicalize FileTree.canonicalize
  split at h
  · cases h
  · exact t.resolve_of_lstatFrom h hlink

end FileTree
