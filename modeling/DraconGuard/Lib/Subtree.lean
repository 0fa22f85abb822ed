import DraconGuard.Lib.FileTree

/-!
# Subtrees: walking, grafting, moving

A subtree is the list of its entries by relative location (`walk`). Copying and renaming are
both a `graft` of such a list at another location, so one pair of lookup lemmas serves them.
`lookup_rename_dst` and `lookup_rename_src` say what a rename to a free location leaves behind.
-/

namespace FileTree

/-! ## Locations apart -/

/-- Neither contains the other. -/
def Apart (p q : Location) : Prop := ¬ p <+: q ∧ ¬ q <+: p

theorem Apart.symm {p q : Location} (h : Apart p q) : Apart q p := ⟨h.2, h.1⟩

theorem Apart.not_prefix_append {p q : Location} (h : Apart p q) (rel : Location) :
    ¬ p <+: q ++ rel := by
  intro hp
  rcases List.prefix_or_prefix_of_prefix hp (List.prefix_append q rel) with hpq | hqp
  · exact h.1 hpq
  · exact h.2 hqp

theorem Apart.append_ne {p q : Location} (h : Apart p q) (r s : Location) : p ++ r ≠ q ++ s := by
  intro heq
  exact h.not_prefix_append s (heq ▸ List.prefix_append p r)

theorem Apart.concat {p q : Location} (h : Apart p q) (n : Name) : Apart (p ++ [n]) q := by
  refine ⟨fun hp => h.1 ((List.prefix_append p [n]).trans hp), fun hq => ?_⟩
  rcases List.prefix_concat_iff.mp hq with rfl | hqp
  · exact h.1 (List.prefix_append p [n])
  · exact h.2 hqp

/-! ## Walking -/

variable {δ : Type}

/-- `p` relative to `root`, when it is at or below it. -/
def below (root p : Location) : Option Location :=
  if root.isPrefixOf p then some (p.drop root.length) else none

theorem below_eq_some {root p rel : Location} : below root p = some rel ↔ p = root ++ rel := by
  unfold below
  split
  · next h =>
    obtain ⟨k, rfl⟩ := List.isPrefixOf_iff_prefix.mp h
    simp
  · next h =>
    constructor
    · simp
    · rintro rfl
      exact absurd (List.isPrefixOf_iff_prefix.mpr (List.prefix_append root rel)) h

/-- The entries at and below `root`, by relative location. -/
def walk (fs : Fs δ) (root : Location) : List (Location × Entry δ) :=
  fs.entries.filterMap fun e => (below root e.1).map fun rel => (rel, e.2)

theorem mem_walk {fs : Fs δ} {root rel : Location} {e : Entry δ} :
    (rel, e) ∈ walk fs root ↔ fs.lookup (root ++ rel) = some e := by
  rw [← FinMap.mem_entries_iff]
  simp only [walk, List.mem_filterMap, Option.map_eq_some_iff, Prod.mk.injEq]
  constructor
  · rintro ⟨⟨p, e'⟩, hin, rel', hrel, rfl, rfl⟩
    rw [← below_eq_some.mp hrel]
    exact hin
  · intro hin
    exact ⟨⟨root ++ rel, e⟩, hin, rel, below_eq_some.mpr rfl, rfl, rfl⟩

theorem nodup_walk (fs : Fs δ) (root : Location) : (walk fs root).Nodup := by
  have hentries : fs.entries.Nodup := fs.nodupKeys.nodup
  refine hentries.filterMap ?_
  rintro ⟨p, e⟩ ⟨p', e'⟩ ⟨rel, x⟩ h h'
  obtain ⟨r, hr, hx⟩ := Option.map_eq_some_iff.mp h
  obtain ⟨r', hr', hx'⟩ := Option.map_eq_some_iff.mp h'
  obtain ⟨rfl, rfl⟩ := Prod.mk.inj hx
  obtain ⟨rfl, he⟩ := Prod.mk.inj hx'
  have hp : p = p' := (below_eq_some.mp hr).trans (below_eq_some.mp hr').symm
  obtain rfl : e' = e := he
  rw [hp]

/-! ## Grafting -/

/-- Put entries below `dst`. -/
def graft (dst : Location) (items : List (Location × Entry δ)) (fs : Fs δ) : Fs δ :=
  items.foldl (fun m i => m.insert (dst ++ i.1) i.2) fs

theorem lookup_graft_other {dst p : Location} {items : List (Location × Entry δ)} (fs : Fs δ)
    (h : ∀ i ∈ items, dst ++ i.1 ≠ p) : (graft dst items fs).lookup p = fs.lookup p := by
  induction items generalizing fs with
  | nil => rfl
  | cons i items ih =>
    have htail := ih (fs.insert (dst ++ i.1) i.2)
      (fun j hj => h j (List.mem_cons_of_mem _ hj))
    exact htail.trans (AList.lookup_insert_ne (h i List.mem_cons_self).symm)

/-- When no location has two entries in `items`, each lands where it belongs. -/
theorem lookup_graft_mem {dst rel : Location} {e : Entry δ} {items : List (Location × Entry δ)}
    {fs : Fs δ} (huniq : ∀ i ∈ items, i.1 = rel → i.2 = e) (hin : (rel, e) ∈ items) :
    (graft dst items fs).lookup (dst ++ rel) = some e := by
  induction items generalizing fs with
  | nil => simp at hin
  | cons i items ih =>
    by_cases htail : (rel, e) ∈ items
    · exact ih (fun j hj => huniq j (List.mem_cons_of_mem _ hj)) htail
    · obtain rfl : (rel, e) = i := (List.mem_cons.mp hin).resolve_right htail
      have hother : ∀ j ∈ items, dst ++ j.1 ≠ dst ++ rel := by
        intro j hj heq
        have hrel : j.1 = rel := List.append_cancel_left heq
        have he := huniq j (List.mem_cons_of_mem _ hj) hrel
        obtain ⟨jr, je⟩ := j
        subst hrel he
        exact htail hj
      exact (lookup_graft_other _ hother).trans (AList.lookup_insert fs)

/-- Entries of a walk are unique by location. -/
theorem walk_uniq {fs : Fs δ} {root rel : Location} {e : Entry δ}
    (h : fs.lookup (root ++ rel) = some e) : ∀ i ∈ walk fs root, i.1 = rel → i.2 = e := by
  rintro ⟨r, x⟩ hi rfl
  exact Option.some.inj ((mem_walk.mp hi).symm.trans h)

/-! ## Renaming -/

/-- `rename` of a subtree to a location that is free. -/
def rename (src dst : Location) (fs : Fs δ) : Fs δ :=
  graft dst (walk fs src) (removeSubtree fs src)

/-- What was below the source is below the destination. -/
theorem lookup_rename_dst {src dst : Location} {fs : Fs δ} (rel : Location)
    (hfree : ∀ rel, fs.lookup (dst ++ rel) = none) :
    (rename src dst fs).lookup (dst ++ rel) = fs.lookup (src ++ rel) := by
  unfold rename
  cases h : fs.lookup (src ++ rel) with
  | some e => exact lookup_graft_mem (walk_uniq h) (mem_walk.mpr h)
  | none =>
    rw [lookup_graft_other, lookup_removeSubtree]
    · simp [hfree rel]
    · rintro ⟨r, e⟩ hi heq
      obtain rfl : r = rel := List.append_cancel_left heq
      rw [mem_walk, h] at hi
      simp at hi

/-- Nothing is left below the source. -/
theorem lookup_rename_src {src dst : Location} {fs : Fs δ} (rel : Location)
    (hapart : Apart dst src) : (rename src dst fs).lookup (src ++ rel) = none := by
  unfold rename
  rw [lookup_graft_other _ (fun i _ => hapart.append_ne _ _), lookup_removeSubtree]
  simp

/-- Everything else stays. -/
theorem lookup_rename_other {src dst p : Location} {fs : Fs δ} (hsrc : ¬ src <+: p)
    (hdst : ¬ dst <+: p) : (rename src dst fs).lookup p = fs.lookup p := by
  unfold rename
  rw [lookup_graft_other, lookup_removeSubtree]
  · simp [hsrc]
  · rintro i - rfl
    exact hdst (List.prefix_append dst i.1)

/-! ## Removals that stop half way -/

/-- `remove_dir_all`: everything, or an error after the entries `gone`, in whatever order, had
been removed. -/
def removeDirAllAt (root : Location) (stopped : Option (List Location)) (fs : Fs δ) :
    Fs δ × Bool :=
  match stopped with
  | none => (removeSubtree fs root, true)
  | some gone => (gone.foldl (fun m rel => m.erase (root ++ rel)) fs, false)

theorem lookup_foldl_erase {root p : Location} {gone : List Location} {fs : Fs δ} :
    (gone.foldl (fun m rel => m.erase (root ++ rel)) fs).lookup p =
      if ∃ rel ∈ gone, p = root ++ rel then none else fs.lookup p := by
  induction gone generalizing fs with
  | nil => simp
  | cons rel gone ih =>
    rw [List.foldl_cons, ih]
    by_cases heq : p = root ++ rel
    · subst heq
      simp
    · have hne : p ≠ root ++ rel := heq
      simp [AList.lookup_erase_ne hne, heq]

theorem lookup_removeDirAllAt_other {root p : Location} (stopped : Option (List Location))
    (fs : Fs δ) (h : ¬ root <+: p) : (removeDirAllAt root stopped fs).1.lookup p = fs.lookup p := by
  cases stopped with
  | none => simp [removeDirAllAt, h]
  | some gone =>
    unfold removeDirAllAt
    rw [lookup_foldl_erase, if_neg]
    rintro ⟨rel, -, rfl⟩
    exact h (List.prefix_append root rel)

/-- A removal whose last step fails leaves the directory itself. -/
theorem lookup_removeDirAllAt_self {root : Location} {gone : List Location} (h : [] ∉ gone)
    (fs : Fs δ) : (removeDirAllAt root (some gone) fs).1.lookup root = fs.lookup root := by
  unfold removeDirAllAt
  rw [lookup_foldl_erase, if_neg]
  rintro ⟨rel, hrel, heq⟩
  exact h (List.self_eq_append_right.mp heq ▸ hrel)

/-- A removal takes, and puts nothing. -/
theorem lookup_removeDirAllAt_or (root p : Location) (stopped : Option (List Location))
    (fs : Fs δ) : (removeDirAllAt root stopped fs).1.lookup p = fs.lookup p ∨
      (removeDirAllAt root stopped fs).1.lookup p = none := by
  cases stopped with
  | none =>
    unfold removeDirAllAt
    rw [lookup_removeSubtree]
    split
    · exact Or.inr rfl
    · exact Or.inl rfl
  | some gone =>
    unfold removeDirAllAt
    rw [lookup_foldl_erase]
    split
    · exact Or.inr rfl
    · exact Or.inl rfl

theorem entryAt_removeSubtree {fs : Fs δ} {q p : Location} (h : ¬ q <+: p) :
    entryAt (removeSubtree fs q) p = entryAt fs p := by
  unfold entryAt
  split
  · rfl
  · rw [lookup_removeSubtree, if_neg h]

theorem Closed.removeSubtree {fs : Fs δ} (h : Closed fs) (q : Location) :
    Closed (removeSubtree fs q) := by
  intro p n hsome
  rw [lookup_removeSubtree] at hsome
  split at hsome
  · cases hsome
  next hnot =>
  rw [entryAt_removeSubtree fun hqp => hnot (hqp.trans (List.prefix_append p [n]))]
  exact h p n hsome

/-- The disk without what is at and below `q`. A working directory that goes with it is left for
the root. -/
def Disk.without (t : Disk δ) (q : Location) : Disk δ where
  fs := removeSubtree t.fs q
  closed := t.closed.removeSubtree q
  cwd := if q <+: t.cwd then [] else t.cwd
  cwd_dir := by
    split
    · rfl
    · next hnot => rw [entryAt_removeSubtree hnot, t.cwd_dir]

@[simp] theorem lookup_without (t : Disk δ) (q p : Location) :
    (t.without q).fs.lookup p = if q <+: p then none else t.fs.lookup p :=
  lookup_removeSubtree t.fs p q

/-- `remove_dir_all`, `stopped` after it had removed the parts given. -/
def Disk.removeDir (t : Disk δ) (q : Location) (stopped : Option (List Location)) :
    Disk δ × Bool :=
  match stopped with
  | none => (t.without q, true)
  | some gone => (gone.foldl (fun t rel => t.without (q ++ rel)) t, false)

theorem lookup_removeDir_other {q p : Location} (t : Disk δ) (stopped : Option (List Location))
    (h : ¬ q <+: p) : (t.removeDir q stopped).1.fs.lookup p = t.fs.lookup p := by
  cases stopped with
  | none => simp [Disk.removeDir, h]
  | some gone =>
    have hfold : (gone.foldl (fun t rel => t.without (q ++ rel)) t).fs.lookup p =
        t.fs.lookup p := by
      induction gone generalizing t with
      | nil => rfl
      | cons rel gone ih =>
        have hrel : ¬ q ++ rel <+: p := fun hpre => h ((List.prefix_append q rel).trans hpre)
        rw [List.foldl_cons, ih, lookup_without, if_neg hrel]
    exact hfold

/-- Whether a removal of a directory comes to what lies at `rel` in it. -/
def takes (stopped : Option (List Location)) (rel : Location) : Bool :=
  stopped.all fun gone => gone.any fun q => q.isPrefixOf rel

theorem lookup_removeDir (t : Disk δ) (q : Location) (stopped : Option (List Location))
    (rel : Location) : (t.removeDir q stopped).1.fs.lookup (q ++ rel) =
      if takes stopped rel then none else t.fs.lookup (q ++ rel) := by
  cases stopped with
  | none => simp [Disk.removeDir, takes]
  | some gone =>
    have hfold : (gone.foldl (fun t k => t.without (q ++ k)) t).fs.lookup (q ++ rel) =
        if gone.any fun k => k.isPrefixOf rel then none else t.fs.lookup (q ++ rel) := by
      induction gone generalizing t with
      | nil => rfl
      | cons k gone ih =>
        rw [List.foldl_cons, ih, lookup_without, List.any_cons]
        by_cases hk : k <+: rel
        · simp [hk]
        · have hk' : k.isPrefixOf rel = false := by
            rwa [Bool.eq_false_iff, Ne, List.isPrefixOf_iff_prefix]
          have hoff : ¬ q ++ k <+: q ++ rel := by rwa [List.prefix_append_right_inj]
          rw [if_neg hoff, hk', Bool.false_or]
    exact hfold

theorem isSome_of_removeDir {t : Disk δ} {q p : Location} {stopped : Option (List Location)}
    (h : ((t.removeDir q stopped).1.fs.lookup p).isSome) : (t.fs.lookup p).isSome := by
  by_cases hpre : q <+: p
  · obtain ⟨rel, rfl⟩ := hpre
    rw [lookup_removeDir] at h
    split at h
    · cases h
    · exact h
  · rwa [lookup_removeDir_other t stopped hpre] at h

/-- The same on a mount: nothing gets a new name. -/
def Mount.dropDir (m : Mount δ) (q : Location) (stopped : Option (List Location)) : Mount δ where
  toDisk := (m.toDisk.removeDir q stopped).1
  plain p hp := m.plain p (isSome_of_removeDir hp)

/-! ## Making directories -/

/-- `create_dir_all`: the components that are missing become directories. -/
def makeDirs (fs : Fs δ) (cur : Location) : List Name → Fs δ × Except Errno Location
  | [] => (fs, .ok cur)
  | c :: rest =>
    match resolve fs maxLinks cur [c] with
    | .ok q =>
      if (entryAt fs q).any Entry.isDir then makeDirs fs q rest else (fs, .error .notADirectory)
    | .error .notFound =>
      -- a link that leads nowhere is in the way
      if (fs.lookup (cur ++ [c])).isSome then (fs, .error .notFound)
      else makeDirs (fs.insert (cur ++ [c]) .dir) (cur ++ [c]) rest
    | .error e => (fs, .error e)

/-- Nothing is made where the directories are there. -/
theorem makeDirs_dirs {fs : Fs δ} {cur rel : Location} (hplain : ∀ n ∈ rel, n.isPlain = true)
    (hdirs : ∀ k, k ≠ [] → k <+: rel → fs.lookup (cur ++ k) = some .dir) :
    makeDirs fs cur rel = (fs, .ok (cur ++ rel)) := by
  induction rel generalizing cur with
  | nil => rw [List.append_nil]; rfl
  | cons c rel ih =>
    have hlook : fs.lookup (cur ++ [c]) = some .dir :=
      hdirs [c] (by simp) (List.prefix_append [c] rel)
    have hrest : makeDirs fs (cur ++ [c]) rel = (fs, .ok (cur ++ [c] ++ rel)) := by
      refine ih (fun n hn => hplain n (List.mem_cons_of_mem c hn)) fun k _ hk => ?_
      rw [← List.append_cons]
      exact hdirs (c :: k) (by simp) (List.cons_prefix_cons.mpr ⟨rfl, hk⟩)
    unfold makeDirs
    rw [resolve_dir (hplain c List.mem_cons_self) hlook]
    dsimp only
    rw [entryAt_concat, hlook]
    simpa [Entry.isDir] using hrest

/-- In a directory that is there, one directory is made. -/
theorem makeDirs_concat {fs : Fs δ} {cur rel : Location} {n : Name}
    (hplain : ∀ m ∈ rel ++ [n], m.isPlain = true)
    (hdirs : ∀ k, k ≠ [] → k <+: rel → fs.lookup (cur ++ k) = some .dir)
    (hnone : fs.lookup (cur ++ rel ++ [n]) = none) :
    (makeDirs fs cur (rel ++ [n])).1 = fs.insert (cur ++ rel ++ [n]) .dir := by
  induction rel generalizing cur with
  | nil =>
    obtain ⟨hdot, hup⟩ : n.text ≠ "." ∧ n.text ≠ ".." := by
      simpa [Name.isPlain] using hplain n (by simp)
    rw [List.append_nil] at hnone
    have hresolve : resolve fs maxLinks cur [n] = .error .notFound := by
      simp [resolve, resolveWith, maxLinks, hdot, hup, hnone]
    rw [List.nil_append, List.append_nil]
    unfold makeDirs
    rw [hresolve]
    simp [hnone, makeDirs]
  | cons c rel ih =>
    have hlook : fs.lookup (cur ++ [c]) = some .dir :=
      hdirs [c] (by simp) (List.cons_prefix_cons.mpr ⟨rfl, List.nil_prefix⟩)
    have hrest := @ih (cur ++ [c])
      (fun m hm => hplain m (List.mem_cons_of_mem c hm))
      (fun k _ hk => by
        rw [← List.append_cons]
        exact hdirs (c :: k) (by simp) (List.cons_prefix_cons.mpr ⟨rfl, hk⟩))
      (by rw [← List.append_cons]; exact hnone)
    rw [← List.append_cons] at hrest
    rw [List.cons_append]
    unfold makeDirs
    rw [resolve_dir (hplain c List.mem_cons_self) hlook]
    dsimp only
    rw [entryAt_concat, hlook]
    simpa [Entry.isDir] using hrest

/-- A new directory in a directory. -/
theorem Closed.insert_dir {fs : Fs δ} (h : Closed fs) {cur : Location} {c : Name}
    (hcur : entryAt fs cur = some .dir) : Closed (fs.insert (cur ++ [c]) .dir) := by
  have hkeep : ∀ q, entryAt fs q = some .dir →
      entryAt (fs.insert (cur ++ [c]) .dir) q = some .dir := by
    intro q hq
    unfold entryAt at hq ⊢
    split
    · rfl
    · next hne =>
      rw [if_neg hne] at hq
      by_cases heq : q = cur ++ [c]
      · rw [heq, AList.lookup_insert]
      · rw [AList.lookup_insert_ne heq, hq]
  intro q n hsome
  by_cases heq : q ++ [n] = cur ++ [c]
  · obtain ⟨rfl, -⟩ := List.append_inj' heq rfl
    exact hkeep q hcur
  · rw [AList.lookup_insert_ne heq] at hsome
    exact hkeep q (h q n hsome)

theorem Closed.makeDirs {fs : Fs δ} {cur : Location} {parts : List Name} (h : Closed fs)
    (hcur : entryAt fs cur = some .dir) : Closed (makeDirs fs cur parts).1 := by
  induction parts generalizing fs cur with
  | nil => exact h
  | cons c rest ih =>
    unfold FileTree.makeDirs
    split
    · split
      · next hdir =>
        exact ih h (any_isDir_iff.mp hdir)
      · exact h
    · split
      · exact h
      · exact ih (h.insert_dir hcur) (by simp)
    · exact h

/-- It only adds directories. -/
theorem lookup_makeDirs (fs : Fs δ) (cur : Location) (parts : List Name) (p : Location) :
    (makeDirs fs cur parts).1.lookup p = fs.lookup p ∨
      fs.lookup p = none ∧ (makeDirs fs cur parts).1.lookup p = some .dir := by
  induction parts generalizing fs cur with
  | nil => exact Or.inl rfl
  | cons c rest ih =>
    unfold makeDirs
    split
    · split
      · exact ih _ _
      · exact Or.inl rfl
    · split
      · exact Or.inl rfl
      · next hfree =>
        have hnone : fs.lookup (cur ++ [c]) = none := by simpa using hfree
        by_cases heq : p = cur ++ [c]
        · subst heq
          right
          refine ⟨hnone, ?_⟩
          rcases ih (fs.insert (cur ++ [c]) .dir) (cur ++ [c]) with h | ⟨h, -⟩
          · rw [h, AList.lookup_insert]
          · simp at h
        · have hsame : (fs.insert (cur ++ [c]) .dir).lookup p = fs.lookup p :=
            AList.lookup_insert_ne heq
          rw [← hsame]
          exact ih _ _
    · exact Or.inl rfl

theorem covers_makeDirs (fs : Fs δ) (cur : Location) (parts : List Name) :
    Covers fs (makeDirs fs cur parts).1 := by
  intro q e hq
  rcases lookup_makeDirs fs cur parts q with hsame | ⟨hnone, -⟩
  · rw [hsame, hq]
  · simp [hq] at hnone

/-- In a directory with nothing in it everything is made. -/
theorem makeDirs_new {fs : Fs δ} (h : Closed fs) {cur : Location} {rest : List Name}
    (hplain : ∀ n ∈ rest, n.isPlain = true) (hcur : entryAt fs cur = some .dir)
    (hfree : ∀ n, fs.lookup (cur ++ [n]) = none) :
    (makeDirs fs cur rest).2 = .ok (cur ++ rest) ∧
      ∀ p, (makeDirs fs cur rest).1.lookup p = fs.lookup p ∨ p <+: cur ++ rest := by
  induction rest generalizing fs cur with
  | nil => exact ⟨by rw [List.append_nil]; rfl, fun _ => Or.inl rfl⟩
  | cons c rest ih =>
    obtain ⟨hdot, hup⟩ : c.text ≠ "." ∧ c.text ≠ ".." := by
      simpa [Name.isPlain] using hplain c List.mem_cons_self
    have hresolve : resolve fs maxLinks cur [c] = .error .notFound := by
      simp [resolve, resolveWith, maxLinks, hdot, hup, hfree c]
    have hbelow : ∀ n, (fs.insert (cur ++ [c]) .dir).lookup (cur ++ [c] ++ [n]) = none := by
      intro n
      rw [AList.lookup_insert_ne (by simp)]
      have hnone := h.none_below (by rw [entryAt_concat, hfree c]) [n]
      rwa [entryAt_concat] at hnone
    obtain ⟨hok, hlook⟩ := ih (h.insert_dir hcur)
      (fun n hn => hplain n (List.mem_cons_of_mem c hn)) (by simp) hbelow
    unfold makeDirs
    rw [hresolve]
    dsimp only
    rw [if_neg (by simp [hfree c]), List.append_cons cur c rest]
    refine ⟨hok, fun p => ?_⟩
    by_cases hp : p = cur ++ [c]
    · exact Or.inr (hp ▸ List.prefix_append _ _)
    · rcases hlook p with hsame | hin
      · exact Or.inl (hsame.trans (AList.lookup_insert_ne hp))
      · exact Or.inr hin

/-- **What a directory path comes to.** Where the names are plain, everything is as it was, or
the way leads to a new directory and only directories on it were made. -/
theorem makeDirs_plain {fs : Fs δ} (h : Closed fs) {cur : Location} {parts : List Name}
    (hplain : ∀ n ∈ parts, n.isPlain = true) (hcur : entryAt fs cur = some .dir) :
    (makeDirs fs cur parts).1 = fs ∨
      ∃ q, (makeDirs fs cur parts).2 = .ok q ∧ entryAt fs q = none ∧
        ∀ p, (makeDirs fs cur parts).1.lookup p = fs.lookup p ∨ p <+: q := by
  induction parts generalizing cur with
  | nil => exact Or.inl rfl
  | cons c rest ih =>
    have hplain' : ∀ n ∈ rest, n.isPlain = true := fun n hn =>
      hplain n (List.mem_cons_of_mem c hn)
    unfold makeDirs
    split
    · split
      · next hdir => exact ih hplain' (any_isDir_iff.mp hdir)
      · exact Or.inl rfl
    · split
      · exact Or.inl rfl
      next hfree =>
      -- the first component that is missing
      have hnone : entryAt fs (cur ++ [c]) = none := by simpa using hfree
      have hbelow : ∀ n, (fs.insert (cur ++ [c]) .dir).lookup (cur ++ [c] ++ [n]) = none := by
        intro n
        rw [AList.lookup_insert_ne (by simp)]
        have hnone' := h.none_below hnone [n]
        rwa [entryAt_concat] at hnone'
      obtain ⟨hok, hlook⟩ := makeDirs_new (h.insert_dir hcur) hplain' (by simp) hbelow
      refine Or.inr ⟨_, hok, h.none_below hnone rest, fun p => ?_⟩
      by_cases hp : p = cur ++ [c]
      · exact Or.inr (hp ▸ List.prefix_append _ _)
      · rcases hlook p with hsame | hin
        · exact Or.inl (hsame.trans (AList.lookup_insert_ne hp))
        · exact Or.inr hin
    · exact Or.inl rfl

theorem entryAt_makeDirs {fs : Fs δ} {cur q : Location} {parts : List Name}
    (h : entryAt fs q = some .dir) : entryAt (makeDirs fs cur parts).1 q = some .dir := by
  unfold entryAt at h ⊢
  split
  · rfl
  · next hne =>
    rw [if_neg hne] at h
    rcases lookup_makeDirs fs cur parts q with hsame | ⟨-, hdir⟩
    · rw [hsame, h]
    · exact hdir

/-- A name that is not there is a name. -/
theorem isPlain_of_resolve_notFound {fs : Fs δ} {cur : Location} {c : Name}
    (h : resolve fs maxLinks cur [c] = .error .notFound) : c.isPlain = true := by
  by_contra hplain
  have hspecial : c.text = "." ∨ c.text = ".." := by
    by_contra hno
    exact hplain (by simpa [Name.isPlain] using hno)
  rcases hspecial with hdot | hup
  · simp [resolve, resolveWith, maxLinks, hdot] at h
  · simp [resolve, resolveWith, maxLinks, hup] at h

/-- One component of a path that is made: the directory it leads to is there or is made, and the
rest goes on from it. -/
theorem makeDirs_step {fs : Fs δ} {cur q : Location} {c : Name} {rest : List Name}
    (h : (makeDirs fs cur (c :: rest)).2 = .ok q) :
    ∃ next loc, makeDirs fs cur (c :: rest) = makeDirs next loc rest ∧
      entryAt next loc = some .dir ∧ resolve next maxLinks cur [c] = .ok loc := by
  unfold makeDirs at h
  split at h
  · next loc hloc =>
    split at h
    · next hdir =>
      refine ⟨fs, loc, ?_, any_isDir_iff.mp hdir, hloc⟩
      rw [makeDirs, hloc]
      dsimp only
      rw [if_pos hdir]
    · cases h
  · next hnone =>
    split at h
    · cases h
    next hfree =>
    refine ⟨fs.insert (cur ++ [c]) .dir, cur ++ [c], ?_, by simp,
      resolve_dir (isPlain_of_resolve_notFound hnone) (AList.lookup_insert fs)⟩
    rw [makeDirs, hnone]
    dsimp only
    rw [if_neg hfree]
  · cases h

/-- What a path was made to is a directory. -/
theorem entryAt_of_makeDirs {fs : Fs δ} {cur q : Location} {parts : List Name}
    (hcur : entryAt fs cur = some .dir) (h : (makeDirs fs cur parts).2 = .ok q) :
    entryAt (makeDirs fs cur parts).1 q = some .dir := by
  induction parts generalizing fs cur with
  | nil =>
    obtain rfl : cur = q := Except.ok.inj h
    exact hcur
  | cons c rest ih =>
    obtain ⟨next, loc, heq, hdir, -⟩ := makeDirs_step h
    rw [heq] at h ⊢
    exact ih hdir h

/-- The directory a path was made to is the one it leads to. -/
theorem makeDirs_resolve {fs : Fs δ} {cur q q' : Location} {parts : List Name} {links : Nat}
    (hmade : (makeDirs fs cur parts).2 = .ok q)
    (hq : resolve (makeDirs fs cur parts).1 links cur parts = .ok q') : q' = q := by
  induction parts generalizing fs cur links with
  | nil =>
    obtain rfl : cur = q := Except.ok.inj hmade
    cases links <;> exact (Except.ok.inj hq).symm
  | cons c rest ih =>
    obtain ⟨next, loc, heq, hdir, hloc⟩ := makeDirs_step hmade
    rw [heq] at hmade hq
    obtain ⟨p, hp⟩ := @ resolve_prefix _ _ _ _ _ [c] rest hq
    obtain rfl := (covers_makeDirs next loc rest).agree.resolve hloc hp
    obtain ⟨left, hleft⟩ := resolve_append hp (entryAt_makeDirs hdir) rest
    exact ih hmade (hleft ▸ hq)

/-- What was made need not be made again. -/
theorem makeDirs_again {fs fs' : Fs δ} {cur q : Location} {parts : List Name}
    (h : Covers (makeDirs fs cur parts).1 fs') (hmade : (makeDirs fs cur parts).2 = .ok q) :
    makeDirs fs' cur parts = (fs', .ok q) := by
  induction parts generalizing fs cur with
  | nil =>
    obtain rfl : cur = q := Except.ok.inj hmade
    rfl
  | cons c rest ih =>
    obtain ⟨next, loc, heq, hdir, hloc⟩ := makeDirs_step hmade
    rw [heq] at h hmade
    have hthere : entryAt fs' loc = some .dir := h.entryAt (entryAt_makeDirs hdir)
    have hloc' : resolve fs' maxLinks cur [c] = .ok loc :=
      h.resolve (Nat.le_refl _) ((covers_makeDirs next loc rest).resolve (Nat.le_refl _) hloc)
    rw [makeDirs, hloc']
    dsimp only
    rw [if_pos (any_isDir_iff.mpr hthere)]
    exact ih h hmade

/-- The disk with the directories of an absolute path. -/
def Disk.makeDirs (t : Disk δ) (q : Location) : Disk δ where
  fs := (FileTree.makeDirs t.fs [] q).1
  closed := t.closed.makeDirs rfl
  cwd := t.cwd
  cwd_dir := entryAt_makeDirs t.cwd_dir

end FileTree
