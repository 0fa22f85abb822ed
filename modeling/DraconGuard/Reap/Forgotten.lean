import DraconGuard.Lib.Watch
import DraconGuard.Reap.ProcFiles

/-!
# Forgotten trees: what they are and whether anybody uses them

The classification of a command line (`classify_desktop_session`, forgotten.rs:70), the
`--user-data-dir` and DevTools readings, `tree_usage` (forgotten.rs:255), and the weight of a
tree (`measure_tree_footprint`, forgotten.rs:613).
-/

namespace DraconGuard

open Watch

/-- `TreeMember` (forgotten.rs:365). -/
structure TreeMember where
  pid : Pid
  comm : String := ""
  rssMb : Nat := 0
  swapMb : Nat := 0
  footprintMb : Nat := 0
  depth : Nat
  role : String := "descendant"
  starttime : Nat
deriving DecidableEq

/-- `ForgottenTree` (forgotten.rs:385). -/
structure ForgottenTree where
  rootPid : Pid
  rootComm : String := ""
  rootArgs : String
  aggregateFootprintMb : Nat := 0
  rootFootprintMb : Nat := 0
  memberCount : Nat
  ageSecs : Nat
  cpuSeconds : Nat := 0
  why : String := ""
  members : List TreeMember
  rootStarttime : Nat
deriving DecidableEq

/-! ## Command lines -/

/-- `DesktopVerdict` (forgotten.rs:42). -/
inductive DesktopVerdict where
  | test (why : String)
  | desktop (reason : String)
  | notABrowser
deriving DecidableEq, Repr

/-- `HEADLESS_MARKERS` (forgotten.rs:52). -/
def headlessMarkers : List String := ["--headless", "headless_shell"]

/-- `TEST_PROFILE_MARKERS` (forgotten.rs:54). -/
def testProfileMarkers : List String :=
  ["playwright", "puppeteer", "chromium-", "chrome-", "headless", ".cache", "tmp"]

/-- The `--user-data-dir` value in a command line, up to a blank or a quote. -/
def userDataDirValue (args : String) : Option String := do
  let rest ← Text.afterFirst args.toList "--user-data-dir=".toList
  let value := Text.trim (String.ofList
    (Text.upTo (fun c => Text.isWhitespace c || c == '"' || c == '\'') rest))
  if value = [] then none else some (String.ofList value)

/-- `extract_user_data_dir_raw` (forgotten.rs:107), on the command line as it is. -/
def extractUserDataDirRaw (args : String) : Option String := userDataDirValue args

/-- `extract_user_data_dir` (forgotten.rs:296), on the command line in lower case. -/
def extractUserDataDir (lowerArgs : String) : Option String := userDataDirValue lowerArgs

/-- `str::to_ascii_lowercase`. -/
def asciiLower (s : String) : String := String.ofList (s.toList.map Char.toLower)

/-- `classify_desktop_session` (forgotten.rs:70). -/
def classifyDesktopSession (args : String) : DesktopVerdict :=
  let lower := asciiLower args
  if !Text.contains lower "chrom" then .notABrowser
  else if headlessMarkers.any fun marker => Text.contains lower marker then .test "headless"
  else match extractUserDataDir lower with
    | none => .desktop "no --user-data-dir: a normal browser session"
    | some path =>
      if testProfileMarkers.any fun m => Text.contains path m then .test ("test profile " ++ path)
      else .desktop ("profile " ++ path ++ " is not a test profile")

/-- `browser_decides_by_veto` (forgotten.rs:359). -/
def browserDecidesByVeto (args : String) : Bool := Text.contains (asciiLower args) "chrom"

/-! ## Is anybody driving the tree? -/

/-- `devtools_port` (forgotten.rs:125). -/
def devtoolsPort (args : String) : Option Nat := do
  let rest ← Text.afterFirst args.toList "--remote-debugging-port=".toList
  let port ← Text.parseU16 (Text.upTo (fun c => !c.isDigit) rest)
  if port = 0 then none else some port

/-- The port in the text of a `DevToolsActivePort` file. -/
def activePort (text : String) : Option Nat := do
  let line ← (Text.lines text).head?
  Text.parseU16 (Text.trim (String.ofList line))

/-- `Usage` (forgotten.rs:175). -/
inductive Usage where
  | driven
  | undriven
  | unknown
deriving DecidableEq, Repr

/-- `proc_tcp_port` (forgotten.rs:219). -/
def procTcpPort (token : List Char) : Option Nat := do
  let port ← Text.afterLast token ':'
  if port.length = 4 ∧ port.all fun c => (Text.hexValue c).isSome then Text.parseHex port
  else none

/-- The state column, two hexadecimal digits. -/
def tcpState (token : List Char) : Option (List Char) :=
  if token.length = 2 ∧ token.all fun c => (Text.hexValue c).isSome then some token else none

/-- `parse_proc_tcp_line` (forgotten.rs:233): the first two address columns in a row that a
state follows. -/
def parseProcTcpTokens : List (List Char) → Option (Nat × Nat × List Char)
  | l :: r :: s :: rest =>
    match procTcpPort l, procTcpPort r, tcpState s with
    | some localPort, some remotePort, some state => some (localPort, remotePort, state)
    | _, _, _ => parseProcTcpTokens (r :: s :: rest)
  | _ => none

/-- `tcp_table_has_established` (forgotten.rs:195). -/
def tcpTableHasEstablished (table : Option String) (port : Nat) : Bool :=
  match table with
  | none => false
  | some text =>
    ((Text.lines text).drop 1).any fun line =>
      match parseProcTcpTokens (Text.splitWhitespace line) with
      | none => false
      | some (localPort, remotePort, state) =>
        state == "01".toList && (localPort == port || remotePort == port)

section Usage

variable {ε : Type}

/-- `devtools_port_from_profile` (forgotten.rs:146). -/
def devtoolsPortFromProfile (args : String) : Prog Host ε (Option Nat) :=
  match extractUserDataDirRaw args with
  | none => pure none
  | some profile => look fun h => (h.devToolsActivePort profile).bind activePort

/-- `tree_devtools_port` (forgotten.rs:153). -/
def treeDevtoolsPort (tree : ForgottenTree) : Prog Host ε (Option Nat) :=
  match devtoolsPort tree.rootArgs with
  | some port => pure (some port)
  | none => devtoolsPortFromProfile tree.rootArgs

/-- `port_has_live_client` (forgotten.rs:249). -/
def portHasLiveClient (port : Nat) : Prog Host ε Bool := do
  let v4 ← look fun h => tcpTableHasEstablished h.tcp port
  if v4 then pure true else look fun h => tcpTableHasEstablished h.tcp6 port

/-- `tree_usage` (forgotten.rs:255). -/
def treeUsage (tree : ForgottenTree) : Prog Host ε Usage := do
  match ← treeDevtoolsPort tree with
  | none => pure .unknown
  | some port => do
    let live ← portHasLiveClient port
    pure (if live then .driven else .undriven)

end Usage

/-! ## What a tree leaves behind and what it weighs -/

/-- `tree_user_data_dir` (forgotten.rs:278). -/
def treeUserDataDir (tree : ForgottenTree) : Option String := extractUserDataDirRaw tree.rootArgs

/-- `tree_yields_profile` (forgotten.rs:288). -/
def treeYieldsProfile (tree : ForgottenTree) (membersLeft : Nat) : Option String :=
  if 0 < membersLeft then none else treeUserDataDir tree

/-- `FORGOTTEN_MIN_TREE_AGE_SECS` (forgotten.rs:342). -/
def forgottenMinTreeAgeSecs : Nat := 300

/-- One member of `measure_tree_footprint`: (root footprint, aggregate) so far. -/
def measureMember {ε : Type} (rootPid : Pid) (acc : Nat × Nat) (member : TreeMember) :
    Prog Host ε (Nat × Nat) := do
  let rssMb ← look fun h => rssMbFromStatus (h.files member.pid).status
  let swapMb ← look fun h => swapMbFromStatus (h.files member.pid).status
  let footprint := min (rssMb + swapMb) u64Max
  pure (if member.pid = rootPid then footprint else acc.1, min (acc.2 + footprint) u64Max)

/-- `measure_tree_footprint` (forgotten.rs:613). -/
def measureTreeFootprint {ε : Type} (rootPid : Pid) (members : List TreeMember) :
    Prog Host ε (Nat × Nat) :=
  members.foldlM (measureMember rootPid) (0, 0)

end DraconGuard
