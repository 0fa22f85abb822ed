import DraconGuard.Clean.Safety
import DraconGuard.Lib.DirWalk
import DraconGuard.Lib.Text

/-!
# Emptying the trash

`empty_trash_at` (main.rs:4789), with the credential scan in front of it
(`looks_credential_like`, main.rs:1704) and the two ways of removing behind it:
`purge_aged_trash_entries` (main.rs:5052), entry by entry, and the wipe of the whole directory.
The keep set holds names as `String`s, and so a name that is no UTF-8 never gets in.
-/

namespace DraconGuard

open FileTree

/-! ## Credential names -/

/-- `str::to_lowercase` on bytes, as far as the rules below can tell: `K` (the Kelvin sign) and
`İ` are the only other characters whose lower case has ASCII in it. -/
def toLowercase : List Char → List Char
  | '\xe2' :: '\x84' :: '\xaa' :: rest => 'k' :: toLowercase rest
  | '\xc4' :: '\xb0' :: rest => 'i' :: '\xcc' :: '\x87' :: toLowercase rest
  | c :: rest => c.toLower :: toLowercase rest
  | [] => []

/-- `SUFFIX` of `looks_credential_like`. -/
def credentialSuffixes : List String :=
  [".env", ".pem", ".key", ".age", ".p12", ".pfx", ".keystore", ".jks", ".ppk", ".asc", ".gpg",
    ".kdbx", ".netrc", ".npmrc"]

/-- `EXACT`. -/
def credentialNames : List String :=
  [".git-credentials", "hosts.yml", "credentials", "credentials.json", "credentials.xml",
    "service_account.json", "id_rsa", "id_dsa", "id_ecdsa", "id_ed25519", "htpasswd", "shadow",
    "password-store", "login data", "login_data"]

/-- `STEM`. -/
def credentialStems : List String :=
  ["credential", "credentials", "secret", "secrets", "password", "passwords", "token", "apikey",
    "api_key", "client_secret", "htpasswd", "id_rsa", "id_dsa", "id_ecdsa", "id_ed25519",
    "keyring", "keychain", "netrc", "npmrc", "shadow"]

/-- `TEMPLATE`. -/
def templateSuffixes : List String :=
  [".example", ".sample", ".template", ".dist", ".default", ".tpl"]

/-- `LEADING`. -/
def credentialLeads : List String :=
  ["credential", "credentials", "password", "passwords", "apikey", "api_key", "client_secret",
    "htpasswd", "id_rsa", "id_dsa", "id_ecdsa", "id_ed25519", "keyring", "keychain", "netrc",
    "npmrc", "shadow"]

def endsWithAny (text : List Char) (suffixes : List String) : Bool :=
  suffixes.any fun s => s.toList.isSuffixOf text

def isAnyOf (text : List Char) (words : List String) : Bool :=
  words.any fun w => w.toList = text

/-- `rsplit_once('.')`, in front of the dot; the whole text where there is none. -/
def nameStem (text : List Char) : List Char :=
  if '.' ∈ text then (text.reverse.dropWhile (· ≠ '.')).tail.reverse else text

/-- `looks_credential_like` (main.rs:1704). -/
def looksCredentialLike (name : String) : Bool :=
  let lower := toLowercase name.toList
  if endsWithAny lower credentialSuffixes || isAnyOf lower credentialNames then true
  else if (lower = ".env".toList || ".env.".toList.isPrefixOf lower) &&
      !endsWithAny lower templateSuffixes then true
  else
    let stem := nameStem lower
    if isAnyOf stem credentialStems then true
    else isAnyOf (Text.upTo (fun c => c = '-' || c = '_' || c = ' ' || c = '.') stem)
      credentialLeads

/-- A name is looked at as a `&str`. -/
def Name.looksCredential (n : Name) : Bool := n.isUtf8 && looksCredentialLike n.text

/-! ## The trash -/

/-- `.local/share/Trash`. -/
def trashPath : Location :=
  [⟨".local", by decide⟩, ⟨"share", by decide⟩, ⟨"Trash", by decide⟩]

/-- A home with a trash: its two directories are where they should be, and no links elsewhere. -/
structure TrashHome (δ : Type) extends Mount δ where
  home : Location
  files_dir : fs.lookup (home ++ trashPath ++ [⟨"files", by decide⟩]) = some .dir
  info_own : ∀ target,
    fs.lookup (home ++ trashPath ++ [⟨"info", by decide⟩]) ≠ some (.symlink target)

section Trash

variable {δ : Type} (th : TrashHome δ)

def TrashHome.files : Location := th.home ++ trashPath ++ [⟨"files", by decide⟩]

def TrashHome.info : Location := th.home ++ trashPath ++ [⟨"info", by decide⟩]

/-- What the walks meet, and the lengths `stat` gives. -/
structure TrashProbes where
  sizing : Scan := {}
  guarding : Scan := {}
  len : Location → Nat
  humanBytes : Nat → String := fun _ => ""

/-- What one pass meets: the clock in nanoseconds, the listing of the trash as the directory hands
it out, and the steps that fail. -/
structure TrashPass where
  /-- `none` where the clock is before 1970. -/
  now : Option Nat
  openFiles : Bool := true
  listing : List Name
  /-- The listing ends without an error. -/
  listed : Bool := true
  metadata : Name → Bool := fun _ => true
  modified : Name → Option Int
  /-- The removal of a directory: `some` of what it got to before it failed. -/
  removeDir : Name → Option (List Location) := fun _ => none
  removeFile : Name → Bool := fun _ => true
  removeInfo : Name → Bool := fun _ => true
  wipeFiles : Option (List Location) := none
  recreateFiles : Bool := true
  wipeInfo : Option (List Location) := none
  recreateInfo : Bool := true

/-! ## The scan -/

/-- `TRASH_SCAN_MAX_DEPTH` (main.rs:1677). -/
def trashScanMaxDepth : Nat := 16

/-- `trash_keep_top_level` (main.rs:4775). -/
def trashKeepTopLevel (skipNames : List Name) (rel : Location) : List Name :=
  match rel.head? with
  | some top => if top.isUtf8 then skipNames.insert top else skipNames
  | none => skipNames

/-- The `match entry` of the scan (main.rs:4831-4872). -/
def flagItem (skipNames : List Name) : WalkItem δ → List Name
  | .entry rel (.file _) =>
    if rel.getLast?.any Name.looksCredential then trashKeepTopLevel skipNames rel else skipNames
  -- at the cap, so its children are not seen
  | .entry rel .dir =>
    if rel.length = trashScanMaxDepth then trashKeepTopLevel skipNames rel else skipNames
  | .entry _ _ => skipNames
  | .failed (some rel) => trashKeepTopLevel skipNames rel
  -- no path, no entry to keep
  | .failed none => skipNames

/-- The keep set (main.rs:4828-4875). -/
def trashSkipNames (guarding : Scan) : List Name :=
  (walkDir th.fs guarding (some trashScanMaxDepth) th.files).foldl flagItem []

/-! ## Removing entry by entry -/

/-- `<name>.trashinfo`. -/
def infoName (n : Name) : Name where
  text := n.text ++ ".trashinfo"
  valid := by
    have h := n.valid
    simp_all

/-- `remove_file` of the metadata that goes with an entry. -/
def dropInfo (pass : TrashPass) (n : Name) (t : Disk δ) : Disk δ :=
  let info := th.info ++ [infoName n]
  if n.isUtf8 && pass.removeInfo n && !(t.fs.lookup info).any Entry.isDir then t.without info
  else t

/-- One round of the loop of `purge_aged_trash_entries` (main.rs:5071-5118): the bytes it
counted. -/
def purgeEntry (probes : TrashProbes) (pass : TrashPass) (cutoff : Int)
    (userProtected : List String) (apply : Bool) (skipNames : List Name) (t : Disk δ) (n : Name) :
    Disk δ × Option Nat :=
  let path := th.files ++ [n]
  if n.isUtf8 && skipNames.contains n then (t, none)
  else match if pass.metadata n then t.fs.lookup path else none with
  | none => (t, none)
  | some e =>
    match pass.modified n with
    | none => (t, none)
    | some modified =>
      if cutoff < modified then (t, none)
      else match checkSafeToDeleteGuard t (render path) userProtected with
      | .error _ => (t, none)
      | .ok _ =>
        let size :=
          if e.isDir then dirSize t.fs probes.sizing probes.len path else probes.len path
        if !apply then (t, some size)
        else if e.isDir then
          match t.removeDir path (pass.removeDir n) with
          | (t, false) => (t, none)
          | (t, true) => (dropInfo th pass n t, some size)
        else if pass.removeFile n then (dropInfo th pass n (t.without path), some size)
        else (t, none)

def purgeEntries (probes : TrashProbes) (pass : TrashPass) (cutoff : Int)
    (userProtected : List String) (apply : Bool) (skipNames : List Name) :
    List Name → Disk δ → List Nat → Disk δ × List Nat
  | [], t, sizes => (t, sizes)
  | n :: rest, t, sizes =>
    let (t, size) := purgeEntry th probes pass cutoff userProtected apply skipNames t n
    purgeEntries probes pass cutoff userProtected apply skipNames rest t (sizes ++ size.toList)

/-- `UNIX_EPOCH + now.checked_sub(age).unwrap_or(ZERO)`. -/
def trashCutoff (now minAgeDays : Nat) : Int :=
  (now - min (minAgeDays * 86400) 18446744073709551615 * 1000000000 : Nat)

/-- `purge_aged_trash_entries` (main.rs:5052): bytes and entries, or an error. -/
def purgeAgedTrashEntries (probes : TrashProbes) (pass : TrashPass) (minAgeDays : Nat)
    (userProtected : List String) (apply : Bool) (skipNames : List Name) (t : Disk δ) :
    Disk δ × Option (Nat × Nat) :=
  match if pass.openFiles then pass.now else none with
  | none => (t, none)
  | some now =>
    let (t, sizes) := purgeEntries th probes pass (trashCutoff now minAgeDays) userProtected apply
      skipNames pass.listing t []
    (t, if pass.listed then some (sizes.sum, sizes.length) else none)

/-! ## The pass -/

/-- The wipe of a directory that is made again (main.rs:4955-4971 and 4997-5013): whether it
went. -/
def wipeDir (userProtected : List String) (stopped : Option (List Location)) (recreate : Bool)
    (q : Location) (t : Disk δ) : Disk δ × Bool :=
  match checkSafeToDeleteGuard t (render q) userProtected with
  | .ok (.canonical safePath) =>
    if (t.fs.lookup safePath).any Entry.isDir then
      match t.removeDir safePath stopped with
      | (t, false) => (t, false)
      | (t, true) => (if recreate then t.makeDirs q else t, true)
    else (t, false)
  | _ => (t, false)

/-- What the trash holds, when that is anything (main.rs:4811-4981): what was counted, with its
line. -/
def emptyTrashFiles (probes : TrashProbes) (pass : TrashPass) (apply : Bool)
    (userProtected : List String) (skipNames : List Name) (size minAgeDays : Nat) (t : Disk δ) :
    Disk δ × List (Nat × String) :=
  if 0 < minAgeDays ∨ skipNames ≠ [] then
    match purgeAgedTrashEntries th probes pass minAgeDays userProtected apply skipNames t with
    | (t, some (bytes, count)) =>
      if 0 < bytes then
        (t, [(bytes, if 0 < minAgeDays then
          toString count ++ " trash entries older than " ++ toString minAgeDays ++ "d (" ++
            probes.humanBytes bytes ++ ")"
        else
          toString count ++ " trash entries (" ++ probes.humanBytes bytes ++
            ", flagged entries kept)")])
      else (t, [])
    | (t, none) => (t, [])
  else
    let (t, succeeded) :=
      if apply then wipeDir userProtected pass.wipeFiles pass.recreateFiles th.files t
      else (t, true)
    (t, if succeeded then [(size, "trash files (" ++ probes.humanBytes size ++ ")")] else [])

/-- The metadata, where nothing was kept (main.rs:4989-5025). -/
def emptyTrashInfo (probes : TrashProbes) (pass : TrashPass) (apply : Bool)
    (userProtected : List String) (skipNames : List Name) (minAgeDays : Nat) (t : Disk δ) :
    Disk δ × List (Nat × String) :=
  let size := dirSize t.fs probes.sizing probes.len th.info
  if minAgeDays = 0 ∧ skipNames = [] ∧ (t.fs.lookup th.info).isSome ∧ 0 < size then
    let (t, succeeded) :=
      if apply then wipeDir userProtected pass.wipeInfo pass.recreateInfo th.info t
      else (t, true)
    (t, if succeeded then [(size, "trash info (" ++ probes.humanBytes size ++ ")")] else [])
  else (t, [])

/-- `empty_trash_at` (main.rs:4789): the bytes reclaimed and the lines about them. -/
def emptyTrashAt (probes : TrashProbes) (pass : TrashPass) (apply : Bool)
    (userProtected : List String) (credentialGuard : Bool) (minAgeDays : Nat) :
    Disk δ × Nat × List String :=
  let size := dirSize th.fs probes.sizing probes.len th.files
  let skipNames :=
    if 0 < size && credentialGuard then trashSkipNames th probes.guarding else []
  let (t, files) :=
    if 0 < size then
      emptyTrashFiles th probes pass apply userProtected skipNames size minAgeDays th.toDisk
    else (th.toDisk, [])
  let (t, info) := emptyTrashInfo th probes pass apply userProtected skipNames minAgeDays t
  (t, ((files ++ info).map Prod.fst).sum, (files ++ info).map Prod.snd)

end Trash

end DraconGuard
