import DraconGuard.Reap.Forgotten

/-!
# Whose profile a tree leaves behind

`tree_user_data_dir` (forgotten.rs:278) searches a command line in which `read_proc_table`
(reap.rs:391) has put a blank in place of every NUL. An argument vector keeps its arguments
apart; the text that is searched does not.
-/

namespace DraconGuard

/-- An argument of a process: any text without a NUL. -/
structure Arg where
  chars : List Char
  no_nul : '\x00' ∉ chars

/-- `/proc/<pid>/cmdline`: every argument with a NUL behind it. -/
def rawCmdline (argv : List Arg) : String :=
  String.ofList (argv.flatMap fun arg => arg.chars ++ ['\x00'])

def profileFlag : List Char := "--user-data-dir=".toList

/-- Where `extract_user_data_dir_raw` cuts a value. -/
def endsValue (c : Char) : Bool := Text.isWhitespace c || c == '"' || c == '\''

/-- A browser: its arguments, and the `--user-data-dir=` argument that it heeds, whichever of
several that is. -/
structure BrowserArgv where
  argv : List Arg
  own : Option Arg
  own_mem : ∀ arg ∈ own, arg ∈ argv ∧ profileFlag <+: arg.chars
  own_none : own = none → ∀ arg ∈ argv, ¬ profileFlag <+: arg.chars

/-- The profile directory that the browser owns. -/
def BrowserArgv.profile (browser : BrowserArgv) : Option (List Char) :=
  browser.own.map fun arg => arg.chars.drop profileFlag.length

/-- The tree as the scan of that browser leaves it: `root_args` is the text that
`read_proc_table` made of its arguments. -/
def ForgottenTree.rootedAt (tree : ForgottenTree) (browser : BrowserArgv) : ForgottenTree :=
  { tree with rootArgs := cmdlineArgs (rawCmdline browser.argv) }

/-- A profile that is reclaimed is the browser's own. -/
def ReclaimsOwn (tree : ForgottenTree) (browser : BrowserArgv) : Prop :=
  ∀ dir, treeUserDataDir (tree.rootedAt browser) = some dir → browser.profile = some dir.toList

/-! ## The search, argument by argument -/

/-- What stands behind the first flag in a text, up to where the value is cut. -/
def flagValue (text : List Char) : Option (List Char) :=
  (Text.afterFirst text profileFlag).map (Text.upTo endsValue)

theorem profileFlag_ne_nil : profileFlag ≠ [] := by decide

theorem endsValue_of_isWhitespace {c : Char} (hc : Text.isWhitespace c = true) :
    endsValue c = true := by
  simp [endsValue, hc]

theorem not_mem_profileFlag_of_isWhitespace {c : Char} (hc : Text.isWhitespace c = true) :
    c ∉ profileFlag := by
  have hflag : (profileFlag.all fun d => !Text.isWhitespace d) = true := by decide
  intro hmem
  have hsolid := List.all_eq_true.mp hflag c hmem
  simp [hc] at hsolid

/-- A search to which a blank is a border: what is before it is searched first, and nothing is
found across it. -/
structure Piecewise {β : Type} (g : List Char → Option β) : Prop where
  nil : g [] = none
  append_cons : ∀ {sep : Char}, Text.isWhitespace sep = true → ∀ text rest,
    g (text ++ sep :: rest) = (g text).or (g rest)

namespace Piecewise

variable {β : Type} {g : List Char → Option β} (h : Piecewise g)

include h

theorem blanks_append {blanks : List Char} (hblanks : ∀ c ∈ blanks, Text.isWhitespace c = true)
    (text : List Char) : g (blanks ++ text) = g text := by
  induction blanks with
  | nil => rfl
  | cons c blanks ih =>
    have hc := h.append_cons (hblanks c List.mem_cons_self) [] (blanks ++ text)
    rw [h.nil, Option.none_or] at hc
    exact hc.trans (ih fun d hd => hblanks d (List.mem_cons_of_mem c hd))

theorem append_blanks {blanks : List Char} (hblanks : ∀ c ∈ blanks, Text.isWhitespace c = true)
    (text : List Char) : g (text ++ blanks) = g text := by
  cases blanks with
  | nil => rw [List.append_nil]
  | cons c blanks =>
    have hnone : g blanks = none := by
      have hrest := h.blanks_append (fun d hd => hblanks d (List.mem_cons_of_mem c hd)) []
      rwa [List.append_nil, h.nil] at hrest
    rw [h.append_cons (hblanks c List.mem_cons_self), hnone, Option.or_none]

theorem trim (s : String) : g (Text.trim s) = g s.toList := by
  obtain ⟨front, back, hs, hfront, hback⟩ := Text.exists_trim s
  rw [hs, h.append_blanks hback, h.blanks_append hfront]

/-- The command line is searched argument by argument, each up to its own first blank. -/
theorem cmdlineArgs (argv : List Arg) :
    g (cmdlineArgs (rawCmdline argv)).toList = argv.findSome? fun arg => g arg.chars := by
  unfold DraconGuard.cmdlineArgs rawCmdline
  rw [String.toList_ofList, h.trim, String.toList_ofList, String.toList_ofList]
  induction argv with
  | nil => exact h.nil
  | cons arg argv ih =>
    have hsame : arg.chars.map (fun c => if c = '\x00' then ' ' else c) = arg.chars := by
      refine (List.map_congr_left fun c hc => ?_).trans (List.map_id arg.chars)
      have hc' : c ≠ '\x00' := fun hnul => arg.no_nul (hnul ▸ hc)
      exact if_neg hc'
    have hjoin : ((arg :: argv).flatMap fun arg => arg.chars ++ ['\x00']).map
          (fun c => if c = '\x00' then ' ' else c) =
        arg.chars ++ ' ' :: (argv.flatMap fun arg => arg.chars ++ ['\x00']).map
          fun c => if c = '\x00' then ' ' else c := by
      rw [List.flatMap_cons, List.map_append, List.map_append, hsame, List.append_assoc]
      rfl
    rw [hjoin, h.append_cons (by decide) arg.chars, ih, List.findSome?_cons]
    cases g arg.chars <;> rfl

end Piecewise

theorem piecewise_flagValue : Piecewise flagValue where
  nil := rfl
  append_cons := by
    intro sep hsep text rest
    unfold flagValue
    rw [Text.afterFirst_append_cons profileFlag_ne_nil (not_mem_profileFlag_of_isWhitespace hsep)]
    cases Text.afterFirst text profileFlag with
    | none => rfl
    | some tail =>
      exact congrArg some (Text.upTo_append_cons (endsValue_of_isWhitespace hsep) tail rest)

/-- What stands behind the first flag in the first argument that contains one. -/
def BrowserArgv.flagged (browser : BrowserArgv) : Option (List Char) :=
  browser.argv.findSome? fun arg => Text.afterFirst arg.chars profileFlag

/-- A cut value has no blanks to trim. -/
theorem trim_upTo_endsValue (tail : List Char) :
    Text.trim (String.ofList (Text.upTo endsValue tail)) = Text.upTo endsValue tail := by
  refine Text.trim_eq_self fun c hc => ?_
  have hstop := Text.stop_of_mem_upTo hc
  rw [endsValue, Bool.or_assoc, Bool.or_eq_false_iff] at hstop
  exact hstop.1

theorem userDataDirValue_eq (args : String) :
    userDataDirValue args = ((flagValue args.toList).filter (· ≠ [])).map String.ofList := by
  unfold userDataDirValue flagValue
  change (Text.afterFirst args.toList profileFlag).bind (fun tail =>
    if Text.trim (String.ofList (Text.upTo endsValue tail)) = [] then none
    else some (String.ofList (Text.trim (String.ofList (Text.upTo endsValue tail))))) = _
  cases Text.afterFirst args.toList profileFlag with
  | none => rfl
  | some tail =>
    rw [Option.bind_some, trim_upTo_endsValue, Option.map_some]
    by_cases hempty : Text.upTo endsValue tail = []
    · simp [hempty]
    · simp [hempty]

/-- What `tree_user_data_dir` answers on a browser, in terms of its arguments. -/
theorem treeUserDataDir_rootedAt (tree : ForgottenTree) (browser : BrowserArgv) :
    treeUserDataDir (tree.rootedAt browser) =
      ((browser.flagged.map (Text.upTo endsValue)).filter (· ≠ [])).map String.ofList := by
  have hvalue : flagValue (cmdlineArgs (rawCmdline browser.argv)).toList =
      browser.flagged.map (Text.upTo endsValue) := by
    rw [piecewise_flagValue.cmdlineArgs, BrowserArgv.flagged, List.map_findSome?]
    rfl
  rw [← hvalue]
  exact userDataDirValue_eq _

/-! ## When the answer is the browser's own profile -/

/-- `tail` goes on with `value`, and then ends or has a blank or a quote. -/
def ReadsAs (tail value : List Char) : Prop :=
  (∀ c ∈ value, endsValue c = false) ∧
    ∃ rest, tail = value ++ rest ∧ ∀ c ∈ rest.head?, endsValue c = true

/-- **The profile handed to the reclaim is the browser's own** exactly when the first flag in
the command line has nothing to read behind it, or reads as the browser's own value: one
without a blank or a quote. -/
theorem reclaimsOwn_iff (tree : ForgottenTree) (browser : BrowserArgv) :
    ReclaimsOwn tree browser ↔
      ∀ tail ∈ browser.flagged,
        ReadsAs tail [] ∨ ∃ value ∈ browser.profile, ReadsAs tail value := by
  have hreads : ∀ tail value, ReadsAs tail value ↔ Text.upTo endsValue tail = value :=
    fun _ _ => Text.upTo_eq_iff.symm
  unfold ReclaimsOwn
  rw [treeUserDataDir_rootedAt]
  cases hflag : browser.flagged with
  | none => simp
  | some tail =>
    simp only [hreads, Option.mem_def, Option.some.injEq, forall_eq']
    by_cases hempty : Text.upTo endsValue tail = []
    · simp [hempty]
    · simp [hempty]

/-- So it is when no other argument contains the flag and the value has no blank or quote. -/
theorem reclaimsOwn_of_plain (tree : ForgottenTree) {browser : BrowserArgv} {own : Arg}
    (hown : browser.own = some own)
    (hplain : ∀ c ∈ own.chars.drop profileFlag.length, endsValue c = false)
    (honly : ∀ arg ∈ browser.argv, arg ≠ own → Text.afterFirst arg.chars profileFlag = none) :
    ReclaimsOwn tree browser := by
  rw [reclaimsOwn_iff]
  intro tail htail
  obtain ⟨arg, harg, hafter⟩ := List.exists_of_findSome?_eq_some htail
  have hself : arg = own := by
    by_contra hne
    rw [honly arg harg hne] at hafter
    cases hafter
  subst hself
  obtain ⟨-, hprefix⟩ := browser.own_mem arg hown
  rw [Text.afterFirst_of_prefix profileFlag_ne_nil hprefix, Option.some.injEq] at hafter
  refine Or.inr ⟨tail, ?_, ?_, [], (List.append_nil tail).symm, by simp⟩
  · rw [BrowserArgv.profile, hown, ← hafter]
    rfl
  · rwa [← hafter]

section Truncated

private def shopperTree : ForgottenTree :=
  { rootPid := 40, rootArgs := "", memberCount := 1, ageSecs := 900, members := []
    rootStarttime := 100 }

private def spacedProfile : Arg :=
  { chars := "--user-data-dir=/tmp/my profile".toList, no_nul := by decide }

/-- A browser with a blank in the name of its profile. -/
private def spacedBrowser : BrowserArgv where
  argv := [⟨"chrome".toList, by decide⟩, ⟨"--headless".toList, by decide⟩, spacedProfile]
  own := some spacedProfile
  own_mem := by
    rintro arg ⟨⟩
    exact ⟨by simp, by decide⟩
  own_none := by simp

/-- The directory that is handed over ends where the blank stands: another directory. -/
theorem truncated_profile_reclaimed :
    treeUserDataDir (shopperTree.rootedAt spacedBrowser) = some "/tmp/my" ∧
      spacedBrowser.profile = some "/tmp/my profile".toList ∧
      ¬ ReclaimsOwn shopperTree spacedBrowser := by
  have hanswer : treeUserDataDir (shopperTree.rootedAt spacedBrowser) = some "/tmp/my" := by
    decide +kernel
  have howned : spacedBrowser.profile = some "/tmp/my profile".toList := by decide
  refine ⟨hanswer, howned, fun h => ?_⟩
  have hsame := (h _ hanswer).symm.trans howned
  revert hsame
  decide

end Truncated

end DraconGuard
