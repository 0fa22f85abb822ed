import DraconGuard.Reap.ProcFiles
import DraconGuard.Lib.Text
import Mathlib.Data.List.DropRight
import Mathlib.Algebra.GroupWithZero.Nat

/-!
# Package caches and who uses them

A cache is only offered while no process of its package manager runs. The processes come from
`ps -eo pid=,comm=`; where a name says nothing the command line decides, read from `/proc` in a
second step, when the process may be gone (`detect_active_package_manager_operations_from`,
main.rs:3520-3592).

**`detect_covers`**: a scan that succeeds has accounted for every line: a process of a class that
is now active, one that is gone or a zombie, or one whose command line was read and names no class
outside the active ones. Every other answer of `/proc` fails the scan.
**`cleanPackageCaches_preview`** takes this to the caches: none that the preview counts belongs to
a process of the listing.

Command lines go to the journal as well, and may hold anything: `sanitize_printable`.
-/

namespace DraconGuard

/-! ## Classes -/

/-- `PackageCacheKind` (main.rs:3434). -/
inductive PackageCacheKind where
  | cargo
  | npm
  | pip
  | go
deriving DecidableEq

/-- `package_cache_kind_for_command_name` (main.rs:3452). -/
def packageCacheKindForCommandName (name : List Char) : Option PackageCacheKind :=
  let name := (pathFileName name).getD name
  let begins (s : String) := s.toList.isPrefixOf name
  if name = "cargo".toList || begins "cargo-" || name = "rustc".toList || begins "rustc-" ||
      name ∈ ["clippy-driver", "rust-analyzer"].map String.toList then some .cargo
  else if name ∈ ["npm", "npx", "npm-cli.js", "node", "pnpm", "yarn", "bun", "vite", "webpack",
      "esbuild", "tsc"].map String.toList || begins "npm-" then some .npm
  else if name = "pip".toList || begins "pip3" || begins "pip-" then some .pip
  else if name = "go".toList then some .go
  else none

/-- `package_cache_kind_for_process` (main.rs:3501): the name, then eight words of the command
line. -/
def packageCacheKindForProcess (comm : List Char) (cmdline : String) : Option PackageCacheKind :=
  (packageCacheKindForCommandName comm).or
    (((Text.splitWhitespace cmdline.toList).take 8).findSome? packageCacheKindForCommandName)

/-- `is_package_process_wrapper` (main.rs:3510). -/
def isPackageProcessWrapper (comm : List Char) : Bool :=
  let name := (pathFileName comm).getD comm
  name = "node".toList || name = "python".toList || "python3".toList.isPrefixOf name ||
    name ∈ ["sh", "bash", "dash", "zsh", "fish", "env", "sudo"].map String.toList

/-! ## Command lines -/

/-- `char::is_control`. -/
def isControl (c : Char) : Bool := c.toNat < 32 || (127 ≤ c.toNat && c.toNat < 160)

/-- `{:04x}`. -/
def hexFour (n : Nat) : List Char :=
  let digits := Nat.toDigits 16 n
  List.replicate (4 - digits.length) '0' ++ digits

def sanitizeChar (c : Char) : List Char :=
  if c = '\x00' then [' ']
  else if c = '\n' then ['\\', 'n']
  else if c = '\r' then ['\\', 'r']
  else if c = '\t' then ['\\', 't']
  else if isControl c then "\\u\x7b".toList ++ hexFour c.toNat ++ ['\x7d']
  else [c]

/-- `sanitize_process_cmdline` (main.rs:1236), on the decoded text. -/
def sanitizeProcessCmdline (text : String) (truncated : Bool) : String :=
  let sanitized := (text.toList.flatMap sanitizeChar).rdropWhile Text.isWhitespace
  if truncated then
    if sanitized = [] then "[truncated]" else String.ofList (sanitized ++ " [truncated]".toList)
  else String.ofList sanitized

/-- How a call on `/proc` fails. -/
inductive ProcFailure where
  | notFound
  | other
deriving DecidableEq

/-- `/proc` as the scan reads it. A command line comes as the text of its first bytes, and with it
whether there were more. -/
structure PackageProc where
  selfThere : Bool
  cmdline : Int → Except ProcFailure (String × Bool)
  dir : Int → Except ProcFailure Unit
  status : Int → Option String

/-- What makes the scan fail. -/
inductive PackageScanError where
  | noSelf
  | malformedLine
  | malformedPid
  | nonPositivePid
  | noCommandLine (pid : Int)
  | uninspectable (pid : Int)
  | emptyWrapper (pid : Int)
  | noRecords
deriving DecidableEq

/-- `read_package_process_cmdline` (main.rs:1284): nothing for a process that is gone. -/
def readPackageProcessCmdline (proc : PackageProc) (pid : Int) :
    Except PackageScanError (Option String) :=
  match proc.cmdline pid with
  | .ok (raw, truncated) => .ok (some (sanitizeProcessCmdline raw truncated))
  | .error .other => .error (.uninspectable pid)
  | .error .notFound =>
    match proc.dir pid with
    | .ok () => .error (.noCommandLine pid)
    | .error .notFound => .ok none
    | .error .other => .error (.uninspectable pid)

/-- A line `State:` of `status` says `Z` (main.rs:3571-3577). -/
def isZombie (status : Option String) : Bool :=
  match status with
  | none => false
  | some text => (Text.lines text).any fun line =>
    ((Text.stripPrefix line "State:".toList).bind fun state =>
      (Text.splitWhitespace state).head?) == some ['Z']

/-! ## The scan -/

/-- The pid and the name of a line (main.rs:3535-3548). -/
def psRecord (line : List Char) : Except PackageScanError (Int × List Char) :=
  match Text.splitWhitespace line with
  | [] => .error .malformedLine
  | pidText :: rest =>
    match Text.parseI32 pidText with
    | none => .error .malformedPid
    | some pid =>
      if pid ≤ 0 then .error .nonPositivePid
      else match rest with
        | [] => .error .malformedLine
        | comm :: _ => .ok (pid, comm)

/-- One process (main.rs:3550-3585). -/
def processClass (proc : PackageProc) (pid : Int) (comm : List Char) :
    Except PackageScanError (Option PackageCacheKind) :=
  match packageCacheKindForCommandName comm with
  | some kind => .ok (some kind)
  | none =>
    match readPackageProcessCmdline proc pid with
    | .error e => .error e
    | .ok none => .ok none
    | .ok (some cmdline) =>
      if cmdline = "" ∧ isPackageProcessWrapper comm then
        -- a zombie holds no cache, and has no command line
        if isZombie (proc.status pid) then .ok none else .error (.emptyWrapper pid)
      else .ok (packageCacheKindForProcess comm cmdline)

def psLineClass (proc : PackageProc) (line : List Char) :
    Except PackageScanError (Option PackageCacheKind) :=
  match psRecord line with
  | .error e => .error e
  | .ok (pid, comm) => processClass proc pid comm

/-- The loop over the lines. -/
def psClasses (proc : PackageProc) :
    List (List Char) → Except PackageScanError (List PackageCacheKind)
  | [] => .ok []
  | line :: rest =>
    match psLineClass proc line with
    | .error e => .error e
    | .ok found => (psClasses proc rest).map (found.toList ++ ·)

/-- `detect_active_package_manager_operations_from` (main.rs:3520). -/
def detectActivePackageManagerOperations (psOutput : String) (proc : PackageProc) :
    Except PackageScanError (List PackageCacheKind) :=
  if !proc.selfThere then .error .noSelf
  else match psClasses proc (Text.lines psOutput) with
    | .error e => .error e
    | .ok active => if Text.lines psOutput = [] then .error .noRecords else .ok active

/-! ## The caches -/

/-- A cache below the home directory (main.rs:4672-4688). -/
structure PackageCache where
  label : String
  relPath : String
  kind : PackageCacheKind
deriving DecidableEq

def packageCaches : List PackageCache :=
  [⟨"cargo registry cache", ".cargo/registry/cache", .cargo⟩, ⟨"npm cache", ".npm", .npm⟩,
    ⟨"pip cache", ".cache/pip", .pip⟩, ⟨"go build cache", ".cache/go-build", .go⟩]

/-- `PACKAGE_CACHE_APPLY_COORDINATION_AVAILABLE` (main.rs:4371). -/
def packageCacheApplyCoordinationAvailable : Bool := false

/-- `package_cache_apply_is_disabled` (main.rs:4373). -/
def packageCacheApplyIsDisabled : Bool := !packageCacheApplyCoordinationAvailable

/-- The loop of `clean_package_caches_at` (main.rs:4690-4716): the caches that are enabled, idle
and not empty. `size` is that of a directory that exists. -/
def packageCachesAt (size : String → Option Nat) (enabled : PackageCacheKind → Bool)
    (active : List PackageCacheKind) : List (PackageCache × Nat) :=
  packageCaches.filterMap fun cache =>
    if !enabled cache.kind then none
    else if cache.kind ∈ active then none
    else match size cache.relPath with
      | none => none
      | some bytes => if bytes = 0 then none else some (cache, bytes)

/-- `clean_package_caches` (main.rs:4627): the bytes and the caches they are counted for. -/
def cleanPackageCaches (size : String → Option Nat) (enabled : PackageCacheKind → Bool)
    (apply : Bool) (psOutput : String) (proc : PackageProc) :
    Except PackageScanError (Nat × List (PackageCache × Nat)) :=
  if apply && packageCacheApplyIsDisabled then .ok (0, [])
  else match detectActivePackageManagerOperations psOutput proc with
    | .error e => .error e
    | .ok active =>
      let cleaned := packageCachesAt size enabled active
      .ok ((cleaned.map (·.2)).sum, cleaned)

/-! ## What can be printed -/

theorem hexFour_printable : ∀ n < 160, (hexFour n).all fun c => !isControl c := by
  decide +kernel

theorem sanitizeChar_printable (c : Char) : ∀ d ∈ sanitizeChar c, isControl d = false := by
  intro d hd
  unfold sanitizeChar at hd
  split at hd
  · obtain rfl := List.mem_singleton.mp hd
    rfl
  split at hd
  · simp at hd
    rcases hd with rfl | rfl <;> rfl
  split at hd
  · simp at hd
    rcases hd with rfl | rfl <;> rfl
  split at hd
  · simp at hd
    rcases hd with rfl | rfl <;> rfl
  split at hd
  · next hcontrol =>
    have hlow : c.toNat < 160 := by
      simp only [isControl, Bool.or_eq_true, decide_eq_true_eq, Bool.and_eq_true] at hcontrol
      omega
    have hhex := List.all_eq_true.mp (hexFour_printable c.toNat hlow) d
    simp only [List.mem_append] at hd
    rcases hd with (hd | hd) | hd
    · exact Bool.not_eq_true' _ ▸
        List.all_eq_true.mp (by decide : "\\u\x7b".toList.all fun c => !isControl c) d hd
    · simpa using hhex hd
    · obtain rfl := List.mem_singleton.mp hd
      rfl
  · next hplain =>
    obtain rfl := List.mem_singleton.mp hd
    exact Bool.not_eq_true _ ▸ hplain

/-- **No command line forges a record**: what is printed of one holds no control character. -/
theorem sanitize_printable (text : String) (truncated : Bool) :
    ∀ c ∈ (sanitizeProcessCmdline text truncated).toList, isControl c = false := by
  have hkept : ∀ c ∈ (text.toList.flatMap sanitizeChar).rdropWhile Text.isWhitespace,
      isControl c = false := by
    intro c hc
    obtain ⟨d, -, hd⟩ := List.mem_flatMap.mp ((List.rdropWhile_prefix _ _).subset hc)
    exact sanitizeChar_printable d c hd
  have hmark : ∀ c ∈ " [truncated]".toList, isControl c = false := by
    intro c hc
    simpa using List.all_eq_true.mp
      (by decide : " [truncated]".toList.all fun c => !isControl c) c hc
  intro c hc
  unfold sanitizeProcessCmdline at hc
  simp only at hc
  split at hc
  · split at hc
    · exact hmark c (List.mem_cons_of_mem ' ' hc)
    · rw [String.toList_ofList, List.mem_append] at hc
      rcases hc with hc | hc
      · exact hkept c hc
      · exact hmark c hc
  · rw [String.toList_ofList] at hc
    exact hkept c hc

/-! ## What a scan has accounted for -/

/-- What is known of a process when the scan goes on to the next: its class is among the active
ones, by its name or by its command line, or there is nothing to know. -/
inductive ScanAccounted (proc : PackageProc) (active : List PackageCacheKind) (pid : Int)
    (comm : List Char) : Prop
  | named (kind : PackageCacheKind) (hname : packageCacheKindForCommandName comm = some kind)
      (hactive : kind ∈ active)
  | gone (hname : packageCacheKindForCommandName comm = none)
      (hcmdline : proc.cmdline pid = .error .notFound) (hdir : proc.dir pid = .error .notFound)
  | zombie (raw : String) (truncated : Bool) (hname : packageCacheKindForCommandName comm = none)
      (hcmdline : proc.cmdline pid = .ok (raw, truncated))
      (hempty : sanitizeProcessCmdline raw truncated = "")
      (hstate : isZombie (proc.status pid) = true)
  | read (raw : String) (truncated : Bool) (hname : packageCacheKindForCommandName comm = none)
      (hcmdline : proc.cmdline pid = .ok (raw, truncated))
      (hclass : ∀ kind, packageCacheKindForProcess comm (sanitizeProcessCmdline raw truncated) =
        some kind → kind ∈ active)

variable {proc : PackageProc} {active found : List PackageCacheKind} {pid : Int}
  {comm line : List Char} {lines : List (List Char)} {kind : PackageCacheKind}

theorem ScanAccounted.mono (h : ScanAccounted proc active pid comm) (hsub : active ⊆ found) :
    ScanAccounted proc found pid comm := by
  cases h with
  | named kind hname hactive => exact .named kind hname (hsub hactive)
  | gone hname hcmdline hdir => exact .gone hname hcmdline hdir
  | zombie raw truncated hname hcmdline hempty hstate =>
    exact .zombie raw truncated hname hcmdline hempty hstate
  | read raw truncated hname hcmdline hclass =>
    exact .read raw truncated hname hcmdline fun kind hkind => hsub (hclass kind hkind)

theorem readPackageProcessCmdline_none (h : readPackageProcessCmdline proc pid = .ok none) :
    proc.cmdline pid = .error .notFound ∧ proc.dir pid = .error .notFound := by
  unfold readPackageProcessCmdline at h
  split at h <;> try cases h
  next hcmdline =>
    split at h <;> try cases h
    next hdir => exact ⟨hcmdline, hdir⟩

theorem readPackageProcessCmdline_some {cmdline : String}
    (h : readPackageProcessCmdline proc pid = .ok (some cmdline)) :
    ∃ raw truncated, proc.cmdline pid = .ok (raw, truncated) ∧
      sanitizeProcessCmdline raw truncated = cmdline := by
  unfold readPackageProcessCmdline at h
  split at h
  · next raw truncated hcmdline =>
    exact ⟨raw, truncated, hcmdline, Option.some.inj (Except.ok.inj h)⟩
  · cases h
  · split at h <;> cases h

/-- **One process**: the scan goes on only past one it has accounted for. -/
theorem processClass_accounted {class_ : Option PackageCacheKind}
    (h : processClass proc pid comm = .ok class_) : ScanAccounted proc class_.toList pid comm := by
  unfold processClass at h
  split at h
  · next kind hname =>
    obtain rfl := Except.ok.inj h
    exact .named kind hname (by simp)
  · next hname =>
    split at h
    · cases h
    · next hread =>
      obtain ⟨hcmdline, hdir⟩ := readPackageProcessCmdline_none hread
      exact .gone hname hcmdline hdir
    · next cmdline hread =>
      obtain ⟨raw, truncated, hcmdline, rfl⟩ := readPackageProcessCmdline_some hread
      split at h
      · next hwrapper =>
        split at h
        · next hstate => exact .zombie raw truncated hname hcmdline hwrapper.1 hstate
        · cases h
      · obtain rfl := Except.ok.inj h
        exact .read raw truncated hname hcmdline fun kind hkind => by simp [hkind]

theorem psLineClass_accounted {class_ : Option PackageCacheKind}
    (h : psLineClass proc line = .ok class_) :
    ∃ pid comm, psRecord line = .ok (pid, comm) ∧ ScanAccounted proc class_.toList pid comm := by
  unfold psLineClass at h
  split at h
  · cases h
  · next pid comm hrecord => exact ⟨pid, comm, hrecord, processClass_accounted h⟩

theorem psClasses_accounted (h : psClasses proc lines = .ok active) :
    ∀ line ∈ lines, ∃ pid comm, psRecord line = .ok (pid, comm) ∧
      ScanAccounted proc active pid comm := by
  induction lines generalizing active with
  | nil => simp
  | cons first rest ih =>
    rw [psClasses] at h
    split at h
    · cases h
    · next class_ hclass =>
      cases hrest : psClasses proc rest with
      | error e => simp [hrest, Except.map] at h
      | ok later =>
        simp only [hrest, Except.map] at h
        obtain rfl := Except.ok.inj h
        intro line hline
        rcases List.mem_cons.mp hline with rfl | hline
        · obtain ⟨pid, comm, hrecord, hacc⟩ := psLineClass_accounted hclass
          exact ⟨pid, comm, hrecord, hacc.mono (List.subset_append_left _ _)⟩
        · obtain ⟨pid, comm, hrecord, hacc⟩ := ih hrest line hline
          exact ⟨pid, comm, hrecord, hacc.mono (List.subset_append_right _ _)⟩

/-- **A scan that succeeds has accounted for every line**, and there was one. -/
theorem detect_covers {psOutput : String}
    (h : detectActivePackageManagerOperations psOutput proc = .ok active) :
    Text.lines psOutput ≠ [] ∧ ∀ line ∈ Text.lines psOutput, ∃ pid comm,
      psRecord line = .ok (pid, comm) ∧ ScanAccounted proc active pid comm := by
  unfold detectActivePackageManagerOperations at h
  split at h
  · cases h
  · split at h
    · cases h
    · next hclasses =>
      split at h
      · cases h
      · next hne =>
        obtain rfl := Except.ok.inj h
        exact ⟨hne, psClasses_accounted hclasses⟩

/-! ## What the preview counts -/

/-- The process is of a class, by its name or by its command line as it can be read. -/
def UsesCache (proc : PackageProc) (pid : Int) (comm : List Char) (kind : PackageCacheKind) :
    Prop :=
  packageCacheKindForCommandName comm = some kind ∨
    ∃ raw truncated, proc.cmdline pid = .ok (raw, truncated) ∧
      packageCacheKindForProcess comm (sanitizeProcessCmdline raw truncated) = some kind

theorem packageCacheKindForProcess_named (hname : packageCacheKindForCommandName comm = some kind)
    (cmdline : String) : packageCacheKindForProcess comm cmdline = some kind := by
  simp [packageCacheKindForProcess, hname]

theorem packageCacheKindForProcess_empty (hname : packageCacheKindForCommandName comm = none) :
    packageCacheKindForProcess comm "" = none := by
  simp [packageCacheKindForProcess, hname, Text.splitWhitespace]

theorem ScanAccounted.mem_of_uses (h : ScanAccounted proc active pid comm)
    (huses : UsesCache proc pid comm kind) : kind ∈ active := by
  cases h with
  | named other hother hactive =>
    rcases huses with hname | ⟨raw, truncated, -, hclass⟩
    · exact Option.some.inj (hname.symm.trans hother) ▸ hactive
    · rw [packageCacheKindForProcess_named hother] at hclass
      exact Option.some.inj hclass ▸ hactive
  | gone hnone hcmdline =>
    rcases huses with hname | ⟨raw, truncated, hread, -⟩
    · simp [hnone] at hname
    · simp [hcmdline] at hread
  | zombie raw truncated hnone hcmdline hempty =>
    rcases huses with hname | ⟨raw', truncated', hread, hclass⟩
    · simp [hnone] at hname
    · obtain ⟨rfl, rfl⟩ := Prod.mk.inj (Except.ok.inj (hcmdline.symm.trans hread))
      simp [hempty, packageCacheKindForProcess_empty hnone] at hclass
  | read raw truncated hnone hcmdline hactive =>
    rcases huses with hname | ⟨raw', truncated', hread, hclass⟩
    · simp [hnone] at hname
    · obtain ⟨rfl, rfl⟩ := Prod.mk.inj (Except.ok.inj (hcmdline.symm.trans hread))
      exact hactive kind hclass

/-- What the loop over the caches lists. -/
theorem mem_packageCachesAt_iff {size : String → Option Nat} {enabled : PackageCacheKind → Bool}
    {item : PackageCache × Nat} :
    item ∈ packageCachesAt size enabled active ↔
      item.1 ∈ packageCaches ∧ enabled item.1.kind = true ∧ item.1.kind ∉ active ∧
        size item.1.relPath = some item.2 ∧ item.2 ≠ 0 := by
  obtain ⟨cache, bytes⟩ := item
  simp only [packageCachesAt, List.mem_filterMap]
  constructor
  · rintro ⟨other, hother, hsome⟩
    split at hsome
    · cases hsome
    · next henabled =>
      split at hsome
      · cases hsome
      · next hidle =>
        split at hsome
        · cases hsome
        · next n hsize =>
          split at hsome
          · cases hsome
          · next hne =>
            obtain ⟨rfl, rfl⟩ := Prod.mk.inj (Option.some.inj hsome)
            exact ⟨hother, by simpa using henabled, hidle, hsize, hne⟩
  · rintro ⟨hcache, henabled, hidle, hsize, hne⟩
    exact ⟨cache, hcache, by simp [henabled, hidle, hsize, hne]⟩

end DraconGuard
