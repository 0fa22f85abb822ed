import DraconGuard.Disk.TmpCruft

/-!
# Logs in the disk audit

`find_oversized_logs` with `is_rotated_log_name` (src/disk_tmp.rs:48-108, 185-229), and what
`audit` makes of its list (src/disk.rs:788-814). Two kinds of file are listed, the rotated and the
large, and **both are marked for deletion**; the first kind is told by its name (`Marked`).
-/

namespace DraconGuard

open FileTree (Location Name Entry)

/-! ## Names -/

/-- `str::trim_end_matches`, of a part that is not empty: the text is no longer than `times`. -/
def trimEndTimes (part : List Char) : Nat → List Char → List Char
  | 0, text => text
  | times + 1, text => (Text.stripSuffix text part).elim text (trimEndTimes part times)

def trimEndMatches (part text : List Char) : List Char := trimEndTimes part text.length text

/-- `str::rsplit_once`: what is behind the last `part`. -/
def afterLastPart (part : List Char) : List Char → Option (List Char)
  | [] => none
  | c :: rest =>
    match afterLastPart part rest with
    | some behind => some behind
    | none =>
      if part.isPrefixOf (c :: rest) then some ((c :: rest).drop part.length) else none

def logMark : List Char := ".log".toList
def gzMark : List Char := ".gz".toList
def xzMark : List Char := ".xz".toList

/-- The number behind the last `.log` (disk_tmp.rs:93-98). -/
def numberedLog (lower : List Char) : Bool :=
  (afterLastPart logMark lower).any fun rest =>
    let rest := trimEndMatches xzMark (trimEndMatches gzMark rest)
    !rest.isEmpty && (rest.dropWhile (· = '.')).all Char.isDigit

/-- Eight digits between other signs (disk_tmp.rs:102-104). -/
def datedLog (lower : List Char) : Bool :=
  (lower.splitOnP fun c => !c.isAlphanum).any fun part => part.length = 8 && part.all Char.isDigit

/-- `is_rotated_log_name` (disk_tmp.rs:89). -/
def isRotatedLogName (name : List Char) : Bool :=
  let lower := name.map Char.toLower
  Text.containsChars lower logMark && (numberedLog lower || datedLog lower)

/-! ## The scan -/

/-- `OversizedLog` (disk_tmp.rs:48). -/
structure OversizedLog where
  path : Location
  bytes : Nat
  rotated : Bool
  ageHours : Nat

/-- `OVERSIZED_LOG_BYTES` (disk_tmp.rs:70). -/
def oversizedLogBytes : Nat := 256 * 1024 * 1024

/-- `human_age` (disk_tmp.rs:72). -/
def humanAge (hours : Nat) : String :=
  if 48 ≤ hours then toString (hours / 24) ++ " days" else toString hours ++ "h"

/-- `OversizedLog::reason` (disk_tmp.rs:56). -/
def OversizedLog.reason (log : OversizedLog) : String :=
  if log.rotated then "rotated log, " ++ humanAge log.ageHours ++ " old"
  else "active log over " ++ toString (oversizedLogBytes / (1024 * 1024)) ++ " MiB"

theorem varDirName_valid : "var".toList ≠ [] ∧ '/' ∉ "var".toList := by decide

def varDirName : Name := ⟨"var", varDirName_valid⟩

def logDirName : Name := ⟨"log", by decide⟩

/-- `LOG_ROOTS` (disk_tmp.rs:111). -/
def logRoots : List Location :=
  [[varDirName, logDirName],
    [⟨"home", by decide⟩, ⟨"dracon", by decide⟩, ⟨".dracon", by decide⟩, ⟨"logs", by decide⟩]]

section Scan

variable {δ : Type} (host : TmpHost δ)

/-- The age of a log; one that cannot be read is none (disk_tmp.rs:209-213). -/
def logAge (q : Location) : Nat :=
  ((host.mtime q).bind fun modified => ageHours modified host.now).getD 0

/-- One entry of a root (disk_tmp.rs:194-225). -/
def logEntry (minAgeHours : Nat) (path : Location) : Option OversizedLog :=
  match host.symlinkMetadata path with
  | some (q, .file _) =>
    let rotated := isRotatedLogName (baseName path)
    if !rotated && host.len q < oversizedLogBytes then none
    else if rotated && logAge host q < minAgeHours then none
    else some { path := path, bytes := host.len q, rotated := rotated, ageHours := logAge host q }
  | _ => none

/-- Larger logs first, then by path. -/
def logBefore (a b : OversizedLog) : Prop :=
  b.bytes < a.bytes ∨ a.bytes = b.bytes ∧ a.path.map (·.text) ≤ b.path.map (·.text)

instance : DecidableRel logBefore := fun _ _ => inferInstanceAs (Decidable (_ ∨ _))

/-- `find_oversized_logs` (disk_tmp.rs:185). -/
def findOversizedLogs (minAgeHours : Nat) : List OversizedLog :=
  (logRoots.flatMap fun root => (host.readDirNames root).filterMap fun n =>
    logEntry host minAgeHours (root ++ [n])).insertionSort logBefore

/-- One log in `audit` (disk.rs:793-813). -/
def logFinding (snapshot : ProcSnapshot) (log : OversizedLog) : Finding :=
  let references := snapshot.capture log.path
  match references.blockingReason log.path with
  | some reason =>
    { cls := .tempAndLogs, path := log.path, bytes := log.bytes, disposition := .skip,
      reason := "in use — " ++ reason, references := references }
  | none =>
    { cls := .tempAndLogs, path := log.path, bytes := log.bytes, disposition := .apply,
      reason := log.reason, references := references }

/-- The findings of `audit` about logs (disk.rs:788-814). -/
def auditLogs (options : DiskOptions) : List Finding :=
  (findOversizedLogs host options.tmpMinAgeHours).map (logFinding (ProcSnapshot.read host.procs))

end Scan

/-! ## What a rotation is called -/

/-- Decimal digits, one at least. -/
def Digits (cs : List Char) : Prop := cs ≠ [] ∧ ∀ c ∈ cs, c.isDigit = true

/-- A name that rotation gives to `<stem>.log`: numbered or dated, and compressed or not. -/
inductive RotationOf (stem : List Char) : List Char → Prop
  | numbered (digits packed : List Char) (h : Digits digits)
      (hpacked : packed ∈ [[], gzMark, xzMark]) :
      RotationOf stem (stem ++ logMark ++ '.' :: (digits ++ packed))
  | dated (date packed : List Char) (h : Digits date) (hlen : date.length = 8)
      (hpacked : packed ∈ [[], gzMark, xzMark]) :
      RotationOf stem (stem ++ '-' :: (date ++ (logMark ++ packed)))
  | datedBehind (date packed : List Char) (h : Digits date) (hlen : date.length = 8)
      (hpacked : packed ∈ [[], gzMark, xzMark]) :
      RotationOf stem (stem ++ logMark ++ '-' :: (date ++ packed))

/-- The name marks a rotation of some `<stem>.log`, in lower case or not. -/
def MarkedRotation (name : List Char) : Prop :=
  ∃ stem, stem ≠ [] ∧ RotationOf stem (name.map Char.toLower)

end DraconGuard
