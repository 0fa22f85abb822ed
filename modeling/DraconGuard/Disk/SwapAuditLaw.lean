import DraconGuard.Disk.SwapAudit

/-!
# What the audit offers to remove

A finding with a removal command is always one of the dead swapfiles (`path_of_command`): what the
reference check adds is active swap, which it never offers, or a dead swapfile, which is reported
already. So active swap is offered exactly when a candidate that exists is active and **no line of
`/proc/swaps` reads back as its path** (`activeSwap_offered_iff`), which a path with a blank or a
backslash in it never does of its own (`readSwapPath_iff`).
-/

namespace DraconGuard

open FileTree Text

/-! ## Reading `/proc/swaps` -/

/-- What is read of the path in the line of a swap. -/
def readSwapPath (s : ActiveSwap) : Option String := (swapEntry s.line).map SwapEntry.path

theorem mem_octalEscape {c d : Char} (h : d ∈ octalEscape c) :
    isWhitespace d = true → d = c ∧ c ≠ ' ' ∧ c ≠ '\t' ∧ c ≠ '\n' := by
  intro hd
  unfold octalEscape at h
  split at h
  · have hall := List.all_eq_true.mp (by decide : "\\040".toList.all (!isWhitespace ·) = true) d h
    rw [hd] at hall
    cases hall
  split at h
  · have hall := List.all_eq_true.mp (by decide : "\\011".toList.all (!isWhitespace ·) = true) d h
    rw [hd] at hall
    cases hall
  split at h
  · have hall := List.all_eq_true.mp (by decide : "\\012".toList.all (!isWhitespace ·) = true) d h
    rw [hd] at hall
    cases hall
  split at h
  · have hall := List.all_eq_true.mp (by decide : "\\134".toList.all (!isWhitespace ·) = true) d h
    rw [hd] at hall
    cases hall
  · next hspace htab hline _ => exact ⟨List.mem_singleton.mp h, hspace, htab, hline⟩

theorem newline_not_mem_escapedPath (path : String) : '\n' ∉ escapedPath path := by
  intro h
  obtain ⟨c, -, hc⟩ := List.mem_flatMap.mp h
  obtain ⟨rfl, -, -, hline⟩ := mem_octalEscape hc (by decide)
  exact hline rfl

/-- Rows that are each closed by a line feed, and end in no carriage return, are the lines. -/
theorem lines_of_rows {rows : List (List Char)}
    (h : ∀ row ∈ rows, '\n' ∉ row ∧ row.getLast? ≠ some '\r') :
    Text.lines (String.ofList ((rows.map (· ++ ['\n'])).flatten)) = rows := by
  have hsplit : ((rows.map (· ++ ['\n'])).flatten).splitOn '\n' = rows ++ [[]] := by
    induction rows with
    | nil => rfl
    | cons row rows ih =>
      have hrow : ∀ c ∈ row, (c == '\n') = false := by
        intro c hc
        have hne : c ≠ '\n' := fun heq => (h row (List.mem_cons_self ..)).1 (heq ▸ hc)
        simpa using hne
      rw [List.map_cons, List.flatten_cons, List.append_assoc, List.singleton_append,
        List.splitOn_eq_splitOnP, List.splitOnP_append_cons_of_forall_mem hrow '\n' (by simp),
        ← List.splitOn_eq_splitOnP, ih fun r hr => h r (List.mem_cons_of_mem row hr)]
      rfl
  unfold Text.lines
  rw [String.toList_ofList, hsplit, List.reverse_append]
  have hstrip : rows.map stripCarriage = rows := by
    refine (List.map_congr_left fun row hrow => ?_).trans (List.map_id rows)
    exact if_neg (h row hrow).2
  simp [hstrip]

theorem ActiveSwap.line_closed (s : ActiveSwap) :
    '\n' ∉ s.line ∧ s.line.getLast? ≠ some '\r' := by
  obtain ⟨c, hc, -⟩ := s.apart
  have hne : s.columns ≠ [] := by
    intro hnil
    rw [hnil] at hc
    cases hc
  constructor
  · intro h
    rcases List.mem_append.mp h with h | h
    · exact newline_not_mem_escapedPath s.path h
    · exact (s.oneLine _ h).1 rfl
  · intro h
    rw [ActiveSwap.line, List.getLast?_append_of_ne_nil _ hne] at h
    exact (s.oneLine _ (List.mem_of_getLast? h)).2 rfl

/-- **The paths that are read** are those of the lines. -/
theorem activeSwapPaths_procSwaps (active : List ActiveSwap) :
    activeSwapPaths (procSwaps active) = active.filterMap readSwapPath := by
  have hrows : ∀ row ∈ swapsHeader :: active.map ActiveSwap.line,
      '\n' ∉ row ∧ row.getLast? ≠ some '\r' := by
    intro row hrow
    rcases List.mem_cons.mp hrow with rfl | hrow
    · exact ⟨by decide, by decide⟩
    · obtain ⟨s, -, rfl⟩ := List.mem_map.mp hrow
      exact s.line_closed
  unfold activeSwapPaths activeSwapTable procSwaps
  rw [lines_of_rows hrows, List.drop_succ_cons, List.drop_zero, List.filterMap_map,
    List.map_filterMap]
  rfl

/-! ## A path that reads back -/

theorem escapedPath_eq_self {path : String} (h : ∀ c ∈ path.toList, isWhitespace c = false ∧ c ≠ '\\') :
    escapedPath path = path.toList := by
  have hone : ∀ c ∈ path.toList, octalEscape c = [c] := by
    intro c hc
    obtain ⟨hblank, hback⟩ := h c hc
    have hne : ∀ d, isWhitespace d = true → c ≠ d := by
      rintro d hd rfl
      rw [hblank] at hd
      cases hd
    rw [octalEscape, if_neg (hne ' ' (by decide)), if_neg (hne '\t' (by decide)),
      if_neg (hne '\n' (by decide)), if_neg hback]
  unfold escapedPath
  rw [List.flatMap_congr hone]
  simp

theorem length_le_escapedPath (cs : List Char) : cs.length ≤ (cs.flatMap octalEscape).length ∧
    ('\\' ∈ cs → cs.length < (cs.flatMap octalEscape).length) := by
  have hone : ∀ c, 1 ≤ (octalEscape c).length := by
    intro c
    unfold octalEscape
    repeat' split
    all_goals exact Nat.le_add_left 1 _
  induction cs with
  | nil => simp
  | cons c cs ih =>
    obtain ⟨hle, hlt⟩ := ih
    have hc := hone c
    rw [List.flatMap_cons, List.length_append, List.length_cons]
    refine ⟨by omega, fun hmem => ?_⟩
    rcases List.mem_cons.mp hmem with rfl | hmem
    · have hfour : (octalEscape '\\').length = 4 := by decide
      omega
    · have := hlt hmem
      omega

theorem not_blank_of_mem_splitWhitespace {word line : List Char}
    (h : word ∈ splitWhitespace line) : ∀ c ∈ word, isWhitespace c = false := by
  induction line generalizing word with
  | nil => cases h
  | cons c line ih =>
    cases hc : isWhitespace c with
    | true =>
      rw [splitWhitespace_cons_blank hc] at h
      exact ih h
    | false =>
      obtain ⟨first, others, hcons, hline⟩ := splitWhitespace_cons_letter hc line
      rw [hcons] at h
      rcases List.mem_cons.mp h with rfl | h
      · intro d hd
        rcases List.mem_cons.mp hd with rfl | hd
        · exact hc
        · refine ih ?_ d hd
          rw [hline, if_neg (List.ne_nil_of_mem hd)]
          exact List.mem_cons_self ..
      · refine ih ?_
        rw [hline]
        split
        · exact h
        · exact List.mem_cons_of_mem first h

theorem splitWhitespace_word {word : List Char} (hne : word ≠ [])
    (hword : ∀ c ∈ word, isWhitespace c = false) {c : Char} (hc : isWhitespace c = true)
    (rest : List Char) : splitWhitespace (word ++ c :: rest) = word :: splitWhitespace rest := by
  unfold splitWhitespace
  rw [List.splitOnP_append_cons_of_forall_mem hword c hc, List.filter_cons_of_pos (by simpa)]

/-- **A path reads back** exactly when it has no blank and no backslash in it. -/
theorem readSwapPath_iff (s : ActiveSwap) (hpath : s.path.toList ≠ []) :
    readSwapPath s = some s.path ↔
      ∀ c ∈ s.path.toList, isWhitespace c = false ∧ c ≠ '\\' := by
  obtain ⟨d, hhead, hblank⟩ := s.apart
  obtain ⟨tail, hcolumns⟩ : ∃ tail, s.columns = d :: tail := by
    cases hcols : s.columns with
    | nil =>
      rw [hcols] at hhead
      cases hhead
    | cons e tail =>
      rw [hcols] at hhead
      exact ⟨tail, by rw [Option.some.inj hhead]⟩
  constructor
  · intro h
    unfold readSwapPath swapEntry at h
    cases hwords : splitWhitespace s.line with
    | nil =>
      rw [hwords] at h
      cases h
    | cons word words =>
      rw [hwords] at h
      have hword : word = s.path.toList := by
        have := congrArg String.toList (Option.some.inj h)
        simpa using this
      have hmem : word ∈ splitWhitespace s.line := by
        rw [hwords]
        exact List.mem_cons_self ..
      have hplain : ∀ c ∈ s.path.toList, isWhitespace c = false := by
        intro c hc
        rw [← hword] at hc
        exact not_blank_of_mem_splitWhitespace hmem c hc
      refine fun c hc => ⟨hplain c hc, ?_⟩
      rintro rfl
      -- no blank in the path, none in what is written of it: the whole of it is the word
      have hescaped : ∀ e ∈ escapedPath s.path, isWhitespace e = false := by
        intro e he
        obtain ⟨b, hb, hin⟩ := List.mem_flatMap.mp he
        by_contra hws
        obtain ⟨rfl, -⟩ := mem_octalEscape hin (by simpa using hws)
        exact hws (hplain _ hb)
      have hlonger := (length_le_escapedPath s.path.toList).2 hc
      have hne : escapedPath s.path ≠ [] := by
        intro hnil
        unfold escapedPath at hnil
        rw [hnil] at hlonger
        cases hlonger
      rw [ActiveSwap.line, hcolumns, splitWhitespace_word hne hescaped hblank] at hwords
      have hsame := (List.cons.inj hwords).1.trans hword
      unfold escapedPath at hsame
      rw [hsame] at hlonger
      exact absurd hlonger (lt_irrefl _)
  · intro h
    unfold readSwapPath swapEntry
    rw [ActiveSwap.line, hcolumns, escapedPath_eq_self h,
      splitWhitespace_word hpath (fun c hc => (h c hc).1) hblank]
    simp

/-! ## Findings with a command -/

section
variable {metadata : String → Option SwapStat} {candidates : List String}
  {table : List SwapEntry}

/-- What is on disk for the check is a candidate, or active. -/
theorem mem_onDiskSwap : ∀ p ∈ onDiskSwap metadata candidates table,
    p.1 ∈ candidates ∨ ∃ entry ∈ table, entry.path = p.1 := by
  unfold onDiskSwap
  refine List.foldlRecOn (motive := fun onDisk : List (String × Nat) =>
    ∀ p ∈ onDisk, p.1 ∈ candidates ∨ ∃ entry ∈ table, entry.path = p.1) table _ ?_ ?_
  · refine List.foldlRecOn (motive := fun onDisk : List (String × Nat) =>
      ∀ p ∈ onDisk, p.1 ∈ candidates ∨ ∃ entry ∈ table, entry.path = p.1) candidates _
      (fun p hp => nomatch hp) ?_
    intro onDisk hon candidate hcandidate p hp
    cases hstat : metadata candidate with
    | none =>
      simp only [hstat] at hp
      exact hon p hp
    | some stat =>
      simp only [hstat] at hp
      split at hp
      · rcases List.mem_append.mp hp with hp | hp
        · exact hon p hp
        · rw [List.mem_singleton.mp hp]
          exact Or.inl hcandidate
      · exact hon p hp
  · intro onDisk hon entry hentry p hp
    split at hp
    · rcases List.mem_append.mp hp with hp | hp
      · exact hon p hp
      · rw [List.mem_singleton.mp hp]
        exact Or.inr ⟨entry, hentry, rfl⟩
    · exact hon p hp

end

section
variable {alphanumeric : Char → Bool} {world : SwapWorld} {options : SwapOptions}
  {report : List SwapFinding × Option String}

/-- An unreferenced swapfile is a candidate of the check, or active. -/
theorem unreferenced_cases {swaps config : Option String} {metadata : String → Option SwapStat}
    {expected candidates : List String} {outcome : SwapCheckOutcome}
    (h : checkSwapHealth alphanumeric swaps config metadata expected candidates = some outcome)
    {unref : UnreferencedSwap} (hunref : unref ∈ outcome.unreferenced) :
    unref.path ∈ candidates ∨ unref.isActive = true := by
  unfold checkSwapHealth evaluateSwapHealth at h
  cases swaps with
  | none =>
    obtain rfl := Option.some.inj h
    cases hunref
  | some text =>
    simp only [Option.map_some, Option.getD_some] at h
    cases config with
    | none =>
      obtain rfl := Option.some.inj h
      cases hunref
    | some config =>
      simp only at h
      split at h
      · obtain rfl := Option.some.inj h
        cases hunref
      · obtain ⟨devices, -, rfl⟩ := Option.map_eq_some_iff.mp h
        obtain ⟨p, hp, rfl⟩ := List.mem_map.mp hunref
        rcases mem_onDiskSwap p (List.mem_filter.mp hp).1 with hmem | ⟨entry, hentry, hpath⟩
        · exact Or.inl hmem
        · refine Or.inr (List.any_eq_true.mpr ⟨entry.path, List.mem_map_of_mem hentry, ?_⟩)
          rw [hpath]
          exact samePath_refl p.1

/-- **Only a dead swapfile comes with a command.** -/
theorem path_of_command (hreport : auditSwap alphanumeric world options = some report)
    {f : SwapFinding} (hf : f ∈ report.1) (hcommand : f.humanCommand.isSome = true) :
    ∃ dead ∈ deadSwapfiles world options, deadSwapfileFinding dead = f := by
  obtain ⟨outcome, hcheck, rfl⟩ := Option.map_eq_some_iff.mp hreport
  rcases List.mem_append.mp hf with hf | hf
  · rcases List.mem_append.mp hf with hf | hf
    · exact List.mem_map.mp hf
    · obtain ⟨wrong, -, rfl⟩ := List.mem_map.mp hf
      cases hcommand
  · obtain ⟨unref, hunref, rfl⟩ := List.mem_map.mp hf
    obtain ⟨hmem, hnew⟩ := List.mem_filter.mp hunref
    rcases unreferenced_cases hcheck hmem with hdead | hactive
    · have hsame : (((deadSwapfiles world options).map DeadSwapfile.path).any fun p =>
          samePath p unref.path) = true :=
        List.any_eq_true.mpr ⟨unref.path, hdead, samePath_refl _⟩
      rw [hsame] at hnew
      cases hnew
    · unfold unreferencedSwapfileFinding at hcommand
      rw [if_pos hactive] at hcommand
      cases hcommand

theorem dead_mem_report (hreport : auditSwap alphanumeric world options = some report)
    {dead : DeadSwapfile} (hdead : dead ∈ deadSwapfiles world options) :
    deadSwapfileFinding dead ∈ report.1 := by
  obtain ⟨outcome, -, rfl⟩ := Option.map_eq_some_iff.mp hreport
  exact List.mem_append_left _ (List.mem_append_left _ (List.mem_map_of_mem hdead))

/-- Some line of `/proc/swaps` was read, and reads as the path. -/
def SwapWorld.Lists (world : SwapWorld) (path : String) : Prop :=
  world.swapsFails = false ∧ ∃ s ∈ world.active, ∃ q ∈ readSwapPath s, samePath q path = true

theorem classifySwapfile_eq_some {writable : Bool} {path : String} {bytes : Nat}
    {active : List String} {dead : DeadSwapfile} :
    classifySwapfile writable path bytes active = some dead ↔
      ¬ (active.any fun a => samePath a path) = true ∧
        dead = { path := path, bytes := bytes, needsRoot := !writable } := by
  unfold classifySwapfile
  by_cases h : (active.any fun a => samePath a path) = true
  · rw [if_pos h]
    simp [h]
  · rw [if_neg h]
    exact ⟨fun heq => ⟨h, (Option.some.inj heq).symm⟩, fun heq => by rw [heq.2]⟩

theorem mem_deadSwapfiles {path : String} :
    (∃ dead ∈ deadSwapfiles world options, dead.path = path) ↔
      path ∈ splitRoots world.home options.deadSwapfileCandidates ∧
        (world.metadata path).isSome = true ∧ ¬ world.Lists path := by
  have hlists : ((activeSwapPaths (if world.swapsFails then "" else procSwaps world.active)).any
      fun a => samePath a path) = true ↔ world.Lists path := by
    unfold SwapWorld.Lists
    cases world.swapsFails with
    | true =>
      have hempty : activeSwapPaths "" = [] := rfl
      simp [hempty]
    | false =>
      simp only [Bool.false_eq_true, if_false, activeSwapPaths_procSwaps, true_and,
        List.any_eq_true, List.mem_filterMap]
      constructor
      · rintro ⟨q, ⟨s, hs, hq⟩, hsame⟩
        exact ⟨s, hs, q, hq, hsame⟩
      · rintro ⟨s, hs, q, hq, hsame⟩
        exact ⟨q, ⟨s, hs, hq⟩, hsame⟩
  rw [← hlists]
  unfold deadSwapfiles
  simp only [List.mem_filterMap]
  constructor
  · rintro ⟨dead, ⟨candidate, hmem, hdead⟩, hpath⟩
    cases hstat : world.metadata candidate with
    | none =>
      simp only [hstat] at hdead
      cases hdead
    | some stat =>
      simp only [hstat] at hdead
      obtain ⟨hnone, rfl⟩ := classifySwapfile_eq_some.mp hdead
      subst hpath
      exact ⟨hmem, by rw [hstat]; rfl, hnone⟩
  · rintro ⟨hmem, hsome, hnone⟩
    obtain ⟨stat, hstat⟩ := Option.isSome_iff_exists.mp hsome
    refine ⟨{ path := path, bytes := stat.len, needsRoot := !world.writable path },
      ⟨path, hmem, ?_⟩, rfl⟩
    simp only [hstat]
    exact classifySwapfile_eq_some.mpr ⟨hnone, rfl⟩

/-! ## Main result -/

/-- A finding about active swap comes with a command to remove it. -/
def OffersActiveSwap (world : SwapWorld) (report : List SwapFinding × Option String) : Prop :=
  ∃ f ∈ report.1, f.humanCommand.isSome = true ∧ ∃ s ∈ world.active, samePath f.path s.path = true

/-- **Active swap is never offered for removal** exactly when every candidate that exists and is
active swap is listed: `/proc/swaps` was read, and one of its lines reads back as that path. -/
theorem activeSwap_offered_iff (hreport : auditSwap alphanumeric world options = some report) :
    ¬ OffersActiveSwap world report ↔
      ∀ path ∈ splitRoots world.home options.deadSwapfileCandidates,
        (world.metadata path).isSome = true →
          (∃ s ∈ world.active, samePath path s.path = true) → world.Lists path := by
  constructor
  · intro hnone path hmem hsome hactive
    by_contra hlists
    obtain ⟨dead, hdead, rfl⟩ := mem_deadSwapfiles.mpr ⟨hmem, hsome, hlists⟩
    exact hnone ⟨deadSwapfileFinding dead, dead_mem_report hreport hdead, rfl, hactive⟩
  · rintro hall ⟨f, hf, hcommand, hactive⟩
    obtain ⟨dead, hdead, rfl⟩ := path_of_command hreport hf hcommand
    obtain ⟨hmem, hsome, hlists⟩ := mem_deadSwapfiles.mp ⟨dead, hdead, rfl⟩
    exact hlists (hall _ hmem hsome hactive)

/-- So it never is when `/proc/swaps` is read and no active path has a blank or a backslash. -/
theorem plain_swap_never_offered (hreport : auditSwap alphanumeric world options = some report)
    (hreads : world.swapsFails = false) (hplain : ∀ s ∈ world.active, s.path.toList ≠ [] ∧
      ∀ c ∈ s.path.toList, isWhitespace c = false ∧ c ≠ '\\') : ¬ OffersActiveSwap world report := by
  rintro ⟨f, hf, hcommand, s, hs, hsame⟩
  obtain ⟨dead, hdead, rfl⟩ := path_of_command hreport hf hcommand
  obtain ⟨-, -, hlists⟩ := mem_deadSwapfiles.mp ⟨dead, hdead, rfl⟩
  obtain ⟨hne, hchars⟩ := hplain s hs
  exact hlists ⟨hreads, s, hs, s.path, (readSwapPath_iff s hne).mpr hchars,
    (samePath_comm _ _).trans hsame⟩

end

/-! ## A swapfile with a blank in its name -/

def swapOf (path : String) : ActiveSwap where
  path := path
  columns := " file 8 0 -2".toList
  apart := ⟨' ', rfl, by decide⟩
  oneLine c hc := by
    have hall := List.all_eq_true.mp
      (by decide : " file 8 0 -2".toList.all (fun c => c != '\n' && c != '\r') = true) c hc
    simpa using hall

/-- One active swapfile, which is a candidate. -/
def swapHost (path : String) : SwapWorld where
  active := [swapOf path]
  metadata := fun p => if p = path then some { isDir := false, len := 8192 } else none
  metadataAgain := fun p => if p = path then some { isDir := false, len := 8192 } else none

def swapOptions (path : String) : SwapOptions where
  deadSwapfileCandidates := path
  expectedSwapPrefixes := "/mnt/data"
  nixosSwapConfig := "/etc/nixos/configuration.nix"

theorem swapHost_report (path : String) :
    ∃ report, auditSwap Char.isAlphanum (swapHost path) (swapOptions path) = some report :=
  ⟨_, rfl⟩

/-- **`/mnt/data/my swap`** is active, and the audit says how to remove it. -/
theorem spaced_swap_offered :
    ∃ report, auditSwap Char.isAlphanum (swapHost "/mnt/data/my swap")
        (swapOptions "/mnt/data/my swap") = some report ∧
      OffersActiveSwap (swapHost "/mnt/data/my swap") report := by
  obtain ⟨report, hreport⟩ := swapHost_report "/mnt/data/my swap"
  have hread : readSwapPath (swapOf "/mnt/data/my swap") = some "/mnt/data/my\\040swap" := by rfl
  have hlists : ¬ (swapHost "/mnt/data/my swap").Lists "/mnt/data/my swap" := by
    rintro ⟨-, s, hs, q, hq, hsame⟩
    rw [List.mem_singleton.mp hs, hread] at hq
    rw [← Option.some.inj hq] at hsame
    have hother : samePath "/mnt/data/my\\040swap" "/mnt/data/my swap" = false := by decide
    rw [hother] at hsame
    cases hsame
  have hroots : "/mnt/data/my swap" ∈ splitRoots (swapHost "/mnt/data/my swap").home
      (swapOptions "/mnt/data/my swap").deadSwapfileCandidates := by decide
  have hstat : ((swapHost "/mnt/data/my swap").metadata "/mnt/data/my swap").isSome = true := rfl
  obtain ⟨dead, hdead, hpath⟩ := mem_deadSwapfiles.mpr ⟨hroots, hstat, hlists⟩
  have hsame : samePath (deadSwapfileFinding dead).path (swapOf "/mnt/data/my swap").path = true := by
    rw [deadSwapfileFinding, hpath]
    exact samePath_refl _
  exact ⟨report, hreport, deadSwapfileFinding dead, dead_mem_report hreport hdead, rfl,
    swapOf "/mnt/data/my swap", List.mem_singleton_self _, hsame⟩

theorem plain_swap_not_offered :
    ∃ report, auditSwap Char.isAlphanum (swapHost "/mnt/data/swapfile")
        (swapOptions "/mnt/data/swapfile") = some report ∧
      ¬ OffersActiveSwap (swapHost "/mnt/data/swapfile") report := by
  obtain ⟨report, hreport⟩ := swapHost_report "/mnt/data/swapfile"
  refine ⟨report, hreport, (activeSwap_offered_iff hreport).mpr fun path _ _ hactive => ?_⟩
  obtain ⟨s, hs, hsame⟩ := hactive
  have hread : readSwapPath (swapOf "/mnt/data/swapfile") = some "/mnt/data/swapfile" := by rfl
  refine ⟨rfl, swapOf "/mnt/data/swapfile", List.mem_singleton_self _, _, hread, ?_⟩
  rw [List.mem_singleton.mp hs] at hsame
  exact (samePath_comm _ _).trans hsame

end DraconGuard
