import DraconGuard.Reap.ForgottenScanLaw
import DraconGuard.Reap.Profile
import DraconGuard.Reap.Verify

/-!
# The desktop veto

"Not headless and no test profile means the process belongs to the operator's own session"
(forgotten.rs:13): the scan and the verification at kill time both ask `classify_desktop_session`,
which searches the joined command line. A browser without a `--headless` and without a
`--user-data-dir=` argument is a desktop session; but a text in any other argument, a URL it has
opened, may contain either. **`vetoHolds_iff`**: the veto holds for an argument vector exactly when
its arguments do not look like a test. `headless_search_reaped` is a desktop browser whose do.
-/

namespace DraconGuard

open Watch

/-! ## The classification, argument by argument -/

/-- An argument in lower case. -/
def Arg.lower (arg : Arg) : Arg where
  chars := arg.chars.map Char.toLower
  no_nul := by
    intro hnul
    obtain ⟨c, hc, hlower⟩ := List.mem_map.mp hnul
    by_cases hself : c.toLower = c
    · obtain rfl : c = '\x00' := hself.symm.trans hlower
      exact arg.no_nul hc
    · have hletter := (Text.toLower_letter hself).2.1
      rw [hlower] at hletter
      exact absurd hletter (by decide)

/-- The argument contains the text in some mixture of cases. -/
def Arg.mentions (arg : Arg) (text : String) : Bool :=
  Text.containsChars arg.lower.chars text.toList

/-- What stands behind the first `--user-data-dir=` in the arguments, wherever in one of them. -/
def flaggedValue (argv : List Arg) : Option (List Char) :=
  argv.findSome? fun arg => flagValue arg.lower.chars

/-- The arguments of a test browser, as far as a search can tell. -/
def LooksLikeTest (argv : List Arg) : Prop :=
  (∃ arg ∈ argv, arg.mentions "chrom") ∧
    ((∃ arg ∈ argv, ∃ marker ∈ headlessMarkers, arg.mentions marker) ∨
      ∃ value ∈ flaggedValue argv, ∃ marker ∈ testProfileMarkers,
        Text.containsChars value marker.toList)

theorem asciiLower_cmdlineArgs (argv : List Arg) :
    asciiLower (cmdlineArgs (rawCmdline argv)) = cmdlineArgs (rawCmdline (argv.map Arg.lower)) := by
  have hblank : ∀ c : Char, (if c = '\x00' then ' ' else c).toLower =
      if c.toLower = '\x00' then ' ' else c.toLower := by
    intro c
    by_cases hc : c = '\x00'
    · subst hc
      rfl
    · have hlower : c.toLower ≠ '\x00' := by
        intro hnul
        have hself : c.toLower ≠ c := fun h => hc (h.symm.trans hnul)
        have hletter := (Text.toLower_letter hself).2.1
        rw [hnul] at hletter
        exact absurd hletter (by decide)
      rw [if_neg hc, if_neg hlower]
  have hwhite : Text.isWhitespace ∘ Char.toLower = Text.isWhitespace :=
    funext Text.isWhitespace_toLower
  have htrim : ∀ l : List Char, (Text.trim (String.ofList l)).map Char.toLower =
      Text.trim (String.ofList (l.map Char.toLower)) := by
    intro l
    unfold Text.trim
    rw [String.toList_ofList, String.toList_ofList, List.dropWhile_map, hwhite, ← List.map_reverse,
      List.dropWhile_map, hwhite, List.map_reverse]
  unfold asciiLower cmdlineArgs rawCmdline
  rw [String.toList_ofList, htrim, String.toList_ofList, String.toList_ofList, List.map_map]
  congr 3
  rw [List.map_flatMap, List.map_flatMap, List.flatMap_map]
  congr 1
  funext arg
  rw [List.map_append, List.map_append, Arg.lower, List.map_map]
  congr 1
  exact List.map_congr_left fun c _ => hblank c

/-- A search for a text without blanks. -/
theorem piecewise_mention {part : List Char} (hne : part ≠ [])
    (hsolid : part.all fun c => !Text.isWhitespace c) :
    Piecewise fun text => (Text.afterFirst text part).map fun _ => () where
  nil := by rw [Text.afterFirst_nil hne]; rfl
  append_cons := by
    intro sep hsep text rest
    have hnot : sep ∉ part := by
      intro hin
      have hblank := List.all_eq_true.mp hsolid sep hin
      rw [hsep] at hblank
      cases hblank
    rw [Text.afterFirst_append_cons hne hnot]
    cases Text.afterFirst text part <;> rfl

theorem contains_cmdlineArgs (text : String) (hne : text.toList ≠ [])
    (hsolid : text.toList.all fun c => !Text.isWhitespace c) (argv : List Arg) :
    Text.contains (asciiLower (cmdlineArgs (rawCmdline argv))) text = true ↔
      ∃ arg ∈ argv, arg.mentions text := by
  have hsearch := (piecewise_mention hne hsolid).cmdlineArgs (argv.map Arg.lower)
  rw [asciiLower_cmdlineArgs, Text.contains, Text.containsChars_eq, ← Option.isSome_map, hsearch,
    List.findSome?_isSome_iff]
  simp [Arg.mentions, Text.containsChars_eq]

/-- **What `classify_desktop_session` takes for a test.** -/
theorem classify_test_iff (argv : List Arg) :
    (∃ why, classifyDesktopSession (cmdlineArgs (rawCmdline argv)) = .test why) ↔
      LooksLikeTest argv := by
  have hchrom := contains_cmdlineArgs "chrom" (by decide) (by decide) argv
  have hheadless : (headlessMarkers.any fun marker =>
      Text.contains (asciiLower (cmdlineArgs (rawCmdline argv))) marker) = true ↔
        ∃ arg ∈ argv, ∃ marker ∈ headlessMarkers, arg.mentions marker := by
    have hmarkers : ∀ marker ∈ headlessMarkers, marker.toList ≠ [] ∧
        (marker.toList.all fun c => !Text.isWhitespace c) = true := by decide
    rw [List.any_eq_true]
    constructor
    · rintro ⟨marker, hmarker, hin⟩
      obtain ⟨arg, harg, hmention⟩ := (contains_cmdlineArgs marker (hmarkers marker hmarker).1
        (hmarkers marker hmarker).2 argv).mp hin
      exact ⟨arg, harg, marker, hmarker, hmention⟩
    · rintro ⟨arg, harg, marker, hmarker, hmention⟩
      exact ⟨marker, hmarker, (contains_cmdlineArgs marker (hmarkers marker hmarker).1
        (hmarkers marker hmarker).2 argv).mpr ⟨arg, harg, hmention⟩⟩
  have hprofile : extractUserDataDir (asciiLower (cmdlineArgs (rawCmdline argv))) =
      ((flaggedValue argv).filter (· ≠ [])).map String.ofList := by
    rw [extractUserDataDir, userDataDirValue_eq, asciiLower_cmdlineArgs,
      piecewise_flagValue.cmdlineArgs, List.findSome?_map]
    rfl
  unfold classifyDesktopSession LooksLikeTest
  dsimp only
  rw [← hchrom, ← hheadless, hprofile]
  split
  · next hno => simp [show _ = false by simpa using hno]
  · next hbrowser =>
    rw [Bool.not_eq_true', Bool.not_eq_false] at hbrowser
    simp only [hbrowser, true_and]
    split
    · next hhead => simp [hhead]
    · next hhead =>
      simp only [Bool.not_eq_true] at hhead
      simp only [hhead, Bool.false_eq_true, false_or]
      cases hvalue : flaggedValue argv with
      | none => simp
      | some value =>
        by_cases hempty : value = []
        · subst hempty
          have hnone : ∀ marker ∈ testProfileMarkers,
              Text.containsChars [] marker.toList = false := by decide
          simp only [Option.filter, Option.map, ne_eq, not_true_eq_false, decide_false,
            Bool.false_eq_true, if_false, Option.mem_def, Option.some.injEq, exists_eq_left']
          constructor
          · rintro ⟨why, hwhy⟩
            cases hwhy
          · rintro ⟨marker, hmarker, hin⟩
            rw [hnone marker hmarker] at hin
            cases hin
        · have hkeep : ((some value).filter (· ≠ [])).map String.ofList =
              some (String.ofList value) := by simp [hempty]
          rw [hkeep]
          dsimp only
          split
          · next hany =>
            obtain ⟨marker, hmarker, hin⟩ := List.any_eq_true.mp hany
            rw [Text.contains, String.toList_ofList] at hin
            exact ⟨fun _ => ⟨value, rfl, marker, hmarker, hin⟩, fun _ => ⟨_, rfl⟩⟩
          · next hnone =>
            constructor
            · rintro ⟨why, hwhy⟩
              cases hwhy
            · rintro ⟨v, hv, marker, hmarker, hin⟩
              obtain rfl := Option.some.inj hv
              refine absurd (List.any_eq_true.mpr ⟨marker, hmarker, ?_⟩) hnone
              rwa [Text.contains, String.toList_ofList]

/-! ## The veto -/

/-- The command line of a pid reads as these arguments, whenever it reads. -/
def CmdlineIs (w : Nat → Host) (pid : Pid) (argv : List Arg) : Prop :=
  ∀ n raw, ((w n).files pid).cmdline = some raw → raw = rawCmdline argv

/-- A root with these arguments becomes no candidate, and its tree is not ended. -/
structure VetoHolds (argv : List Arg) : Prop where
  scanned : ∀ (call : ScanCall) (table : ReapTable), ∀ root ∈ table.entries,
    root.args = cmdlineArgs (rawCmdline argv) → root.exe ≠ "headless_shell" →
      ∀ tree ∈ (scanForgottenOrphanTrees call table).candidates, tree.rootPid ≠ root.pid
  verified : ∀ (tree : ForgottenTree) (policy : ReapPolicy) (ticksPerSec : Nat) (w : Nat → Host)
    (s : Progress ReapEvent), CmdlineIs w tree.rootPid argv →
      (verifyForgottenTreeForReap tree policy ticksPerSec w s).1 = none

/-- The root of a candidate is a test. -/
theorem test_of_mem_candidates {call : ScanCall} {table : ReapTable} {tree : ForgottenTree}
    (h : tree ∈ (scanForgottenOrphanTrees call table).candidates) :
    ∃ root ∈ table.entries, root.pid = tree.rootPid ∧
      ∃ why, classifyDesktopSession root.args = .test why := by
  obtain ⟨root, hroot, -, why, shown, htest, -, rfl⟩ := of_mem_candidates h
  exact ⟨root, hroot, rfl, why, htest⟩

theorem verifyRootCmdline_test {tree : ForgottenTree} {policy : ReapPolicy} {argv : List Arg}
    {w : Nat → Host} (hcmd : CmdlineIs w tree.rootPid argv) :
    On w (fun _ => True) (verifyRootCmdline tree policy : Prog Host ReapEvent Bool) fun ok _ =>
      ok = true → ∃ why, classifyDesktopSession (cmdlineArgs (rawCmdline argv)) = .test why := by
  have hno : ∀ {P : Progress ReapEvent → Prop}, On w P (pure false : Prog Host ReapEvent Bool)
      fun ok _ => ok = true →
        ∃ why, classifyDesktopSession (cmdlineArgs (rawCmdline argv)) = .test why :=
    On.pure fun _ _ hok => absurd hok Bool.false_ne_true
  unfold verifyRootCmdline
  refine On.bind (Q := fun found _ => ∀ raw, found = some raw → raw = rawCmdline argv)
    (On.look fun s _ => hcmd s.now) fun found => ?_
  cases found with
  | none => exact hno
  | some raw =>
    dsimp only
    refine On.ite (fun _ => hno) fun _ => ?_
    refine On.bind (Q := fun _ _ => raw = rawCmdline argv)
      (On.look fun _ hraw => hraw raw rfl) fun exe => ?_
    refine On.ite (fun _ => hno) fun _ => ?_
    cases hverdict : classifyDesktopSession (cmdlineArgs raw) with
    | test why =>
      refine On.pure fun _ hraw _ => ⟨why, ?_⟩
      rw [← hraw]
      exact hverdict
    | desktop reason => exact hno
    | notABrowser => exact hno

/-- **At kill time.** -/
theorem verify_none_of_not_test {tree : ForgottenTree} {policy : ReapPolicy} {ticksPerSec : Nat}
    {argv : List Arg} {w : Nat → Host} (hcmd : CmdlineIs w tree.rootPid argv)
    (htest : ¬ ∃ why, classifyDesktopSession (cmdlineArgs (rawCmdline argv)) = .test why) :
    On w (fun _ => True) (verifyForgottenTreeForReap tree policy ticksPerSec :
      Prog Host ReapEvent (Option VerifiedTree)) fun answer _ => answer = none := by
  have hany : ∀ {α : Type} (prog : Prog Host ReapEvent α),
      On w (fun _ => True) prog fun _ _ => True := fun _ _ _ => trivial
  refine On.bind (hany _) fun found => ?_
  cases found with
  | none => exact On.pure fun _ _ => rfl
  | some fields =>
    refine On.bind (hany _) fun usable => ?_
    refine On.ite (fun _ => On.pure fun _ _ => rfl) fun _ => ?_
    refine On.ite (fun _ => On.pure fun _ _ => rfl) fun _ => ?_
    refine On.bind (verifyRootCmdline_test hcmd) fun ok => ?_
    cases ok with
    | false => exact On.pure fun _ _ => rfl
    | true => exact fun _ hok => absurd (hok rfl) htest

/-! ### A scan that finds it -/

theorem treeUsage_systemdHost (tree : ForgottenTree) :
    On (fun _ => systemdHost) (fun _ => True) (treeUsage (ε := Empty) tree) fun usage _ =>
      usage ≠ .driven := by
  have hany : On (fun _ => systemdHost) (fun _ => True) (treeDevtoolsPort (ε := Empty) tree)
      fun _ _ => True := fun _ _ => trivial
  refine hany.bind fun port => ?_
  cases port with
  | none => exact On.pure fun _ _ => by decide
  | some port =>
    have hquiet : On (fun _ => systemdHost) (fun _ => True) (portHasLiveClient (ε := Empty) port)
        fun live _ => live = false := fun _ _ => rfl
    refine hquiet.bind fun live => ?_
    exact On.pure fun _ hlive => by simp [hlive]

/-- The orphan of init with this command line. -/
def loneRoot (args : String) : ProcEntry :=
  { pid := 100, ppid := 1, starttime := 0, args := args, exe := "chrome" }

def loneTable (args : String) : ReapTable where
  entries := [loneRoot args]
  nodup := by simp

theorem lone_candidate {args why : String} (h : classifyDesktopSession args = .test why) :
    ∃ tree ∈ (scanForgottenOrphanTrees openScan (loneTable args)).candidates,
      tree.rootPid = 100 := by
  have hroots : orphanRoots openScan (loneTable args) = [loneRoot args] := by
    have horphan : isOrphanRoot openScan (loneRoot args) = true := by
      have hexempt : matchesExempt "chrome" [] = false := rfl
      have hparent : parentCommIsSystemd systemdHost 1 = true := by decide
      have hage : elapsedSecs 0 100 0 1000 = 1000 := by decide
      simp [isOrphanRoot, loneRoot, openScan, hexempt, hparent, hage, forgottenMinTreeAgeSecs]
    simp [orphanRoots, loneTable, horphan]
  have hfate : fateByUsage openScan why (buildTree openScan (loneTable args) (loneRoot args)) =
      .candidate why := by
    have husage := treeUsage_systemdHost (buildTree openScan (loneTable args) (loneRoot args)) {}
      trivial
    have hcalm : ¬ openScan.policy.maxCpuSeconds <
        (buildTree openScan (loneTable args) (loneRoot args)).cpuSeconds := by
      simp [buildTree, loneRoot]
    unfold fateByUsage
    split
    · next hdriven => exact absurd hdriven husage
    · rfl
    · rw [if_neg hcalm]
  have hweigh : weighRoot openScan (loneTable args) (loneRoot args) =
      some ⟨loneRoot args, buildTree openScan (loneTable args) (loneRoot args),
        .candidate why⟩ := by
    have hverdict : classifyDesktopSession (loneRoot args).args = .test why := h
    unfold weighRoot
    simp only [hverdict, hfate]
    simp [openScan]
  have htrees : reportedTrees openScan (loneTable args) =
      [⟨loneRoot args, buildTree openScan (loneTable args) (loneRoot args), .candidate why⟩] := by
    rw [reportedTrees, weighedTrees, hroots, weighRoots, if_neg List.not_mem_nil, hweigh]
    simp [weighRoots, WeighedTree.reported]
  refine ⟨{ buildTree openScan (loneTable args) (loneRoot args) with why := why }, ?_, rfl⟩
  rw [scanForgottenOrphanTrees, List.mem_insertionSort, htrees]
  simp

/-- **The veto holds** for an argument vector exactly when it does not look like a test. -/
theorem vetoHolds_iff (argv : List Arg) : VetoHolds argv ↔ ¬ LooksLikeTest argv := by
  rw [← classify_test_iff]
  constructor
  · rintro hveto ⟨why, hwhy⟩
    obtain ⟨tree, hmem, hpid⟩ := lone_candidate hwhy
    have hshell : (loneRoot (cmdlineArgs (rawCmdline argv))).exe ≠ "headless_shell" := by
      simp [loneRoot]
    exact hveto.scanned openScan _ (loneRoot _) List.mem_cons_self rfl hshell tree hmem hpid
  · intro htest
    refine ⟨fun call table root hroot hargs _ tree htree hpid => htest ?_, ?_⟩
    · obtain ⟨root', hroot', hpid', hwhy⟩ := test_of_mem_candidates htree
      obtain rfl : root' = root :=
        List.inj_on_of_nodup_map table.nodup hroot' hroot (hpid'.trans hpid)
      rwa [hargs] at hwhy
    · exact fun tree policy ticksPerSec w s hcmd => verify_none_of_not_test hcmd htest s trivial

/-- The operator's browser, on the page of a search for a flag. -/
def searchArgv : List Arg :=
  [⟨"/opt/google/chrome/chrome".toList, by decide⟩,
    ⟨"https://search.example/?q=chromium+--headless+mode".toList, by decide⟩]

theorem headless_search_reaped :
    (∀ arg ∈ searchArgv, ¬ "--headless".toList <+: arg.chars ∧ ¬ profileFlag <+: arg.chars) ∧
      ¬ VetoHolds searchArgv := by
  refine ⟨by decide, fun hveto => (vetoHolds_iff searchArgv).mp hveto ⟨?_, Or.inl ?_⟩⟩
  · exact ⟨_, List.mem_cons_self, by decide⟩
  · exact ⟨_, List.mem_cons_of_mem _ List.mem_cons_self, "--headless", by decide, by decide⟩

end DraconGuard
