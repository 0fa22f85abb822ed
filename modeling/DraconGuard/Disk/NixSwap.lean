import DraconGuard.Lib.TextSlice

/-!
# Swap devices of a NixOS configuration

`code_only`, `nixos_swap_devices` and `has_swap_devices_block` (src/space_report.rs:239-475), on
the characters of the text. Structure is read from the text with comments and strings blanked,
values from the text itself, at the same byte offsets. What a slice at a bad offset does is `none`.

| here | there |
|---|---|
| `codeOnly`: `codeBare`, `codeLine`, `codeBlock`, `codeString`, `codeIndented` | lines 239-337 |
| `scanDevices` | the loop of lines 350-407, over the bytes there |
| `swapDevicesBlock`, `blockAfter` | lines 423-475 |

`alphanumeric` is `char::is_alphanumeric`.
-/

namespace DraconGuard

open TextSlice

/-- `blank_char` (space_report.rs:239). -/
def blankChar (c : Char) : List Char :=
  if c = '\n' then ['\n'] else List.replicate c.utf8Size ' '

/-! ## Blanking -/

/-- Behind `''` these stand for themselves. -/
def indentedEscape (c : Char) : Bool := c = '\'' || c = '$' || c = '\\'

mutual

def codeBare : List Char → List Char
  | [] => []
  | '#' :: rest => ' ' :: codeLine rest
  | '/' :: '*' :: rest => ' ' :: ' ' :: codeBlock rest
  | '"' :: rest => '"' :: codeString rest
  | '\'' :: '\'' :: rest => ' ' :: ' ' :: codeIndented rest
  | c :: rest => c :: codeBare rest
termination_by structural cs => cs

def codeLine : List Char → List Char
  | [] => []
  | c :: rest => if c = '\n' then c :: codeBare rest else blankChar c ++ codeLine rest
termination_by structural cs => cs

/-- An end without `*/` is two blanks as well, whatever is left of the text. -/
def codeBlock : List Char → List Char
  | [] => [' ', ' ']
  | '*' :: '/' :: rest => ' ' :: ' ' :: codeBare rest
  | [_] => [' ', ' ']
  | c :: d :: rest => blankChar c ++ codeBlock (d :: rest)
termination_by structural cs => cs

def codeString : List Char → List Char
  | [] => []
  | '"' :: rest => '"' :: codeBare rest
  | '\\' :: c :: rest => ' ' :: (blankChar c ++ codeString rest)
  | c :: rest => blankChar c ++ codeString rest
termination_by structural cs => cs

def codeIndented : List Char → List Char
  | [] => []
  | '\'' :: '\'' :: c :: rest =>
    if indentedEscape c then ' ' :: ' ' :: ' ' :: codeIndented rest
    else ' ' :: ' ' :: codeBare (c :: rest)
  | ['\'', '\''] => [' ', ' ']
  | c :: rest => blankChar c ++ codeIndented rest
termination_by structural cs => cs

end

/-- `code_only` (space_report.rs:257). -/
def codeOnly (config : List Char) : List Char := codeBare config

/-! ## The block -/

/-- The bytes of a bracketed list from its opening bracket on, the closing one not counted. -/
def matchBrackets (depth offset : Nat) : List Char → Option Nat
  | [] => none
  | c :: rest =>
    if c = '[' then matchBrackets (depth + 1) (offset + c.utf8Size) rest
    else if c = ']' then
      if depth = 1 then some offset else matchBrackets (depth - 1) (offset + c.utf8Size) rest
    else matchBrackets depth (offset + c.utf8Size) rest

/-- `block_after` (space_report.rs:454), of the text behind the key. -/
def blockAfter (keyEnd : Nat) (afterKey : List Char) : Option (Nat × Nat) :=
  match afterKey.span (· ≠ '=') with
  | (_, []) => none
  | (beforeEq, _ :: afterEq) =>
    match afterEq.span (· ≠ '[') with
    | (_, []) => none
    | (beforeOpen, list) =>
      if ';' ∈ beforeOpen then none
      else
        let first := keyEnd + size beforeEq + 1 + size beforeOpen
        (matchBrackets 0 0 list).map fun offset => (first, first + offset + 1)

def swapDevicesKey : List Char := "swapDevices".toList

section
variable (alphanumeric : Char → Bool)

/-- The character before a key or an attribute does not belong to a longer name. -/
def nameBoundary (before : Option Char) : Bool :=
  !before.any fun c => alphanumeric c || c = '_' || c = '.'

/-- The loop of `swap_devices_block`; `skip` characters of the last key are still to come. -/
def swapDevicesBlockFrom (before : Option Char) (pos skip : Nat) : List Char → Option (Nat × Nat)
  | [] => none
  | c :: rest =>
    if skip ≠ 0 then swapDevicesBlockFrom (some c) (pos + c.utf8Size) (skip - 1) rest
    else if swapDevicesKey.isPrefixOf (c :: rest) then
      let later :=
        swapDevicesBlockFrom (some c) (pos + c.utf8Size) (swapDevicesKey.length - 1) rest
      if nameBoundary alphanumeric before then
        (blockAfter (pos + swapDevicesKey.length)
          ((c :: rest).drop swapDevicesKey.length)).or later
      else later
    else swapDevicesBlockFrom (some c) (pos + c.utf8Size) 0 rest

/-- `swap_devices_block` (space_report.rs:423). -/
def swapDevicesBlock (code : List Char) : Option (Nat × Nat) :=
  swapDevicesBlockFrom alphanumeric none 0 0 code

/-- `has_swap_devices_block` (space_report.rs:415). -/
def hasSwapDevicesBlock (config : List Char) : Bool :=
  (swapDevicesBlock alphanumeric (codeOnly config)).isSome

/-! ## The devices -/

/-- The blanks passed over around `=`. -/
def deviceBlank (c : Char) : Bool := c = ' ' || c = '\t' || c = '\n'

/-- The value behind `device`, and how many characters it and what is around it are. -/
def deviceValue (text : List Char) : Option (List Char × Nat) :=
  match text.span deviceBlank with
  | (blanks, '=' :: afterEq) =>
    match afterEq.span deviceBlank with
    | (blanks', '"' :: quoted) =>
      let value := quoted.takeWhile (· ≠ '"')
      some (value, blanks.length + 1 + blanks'.length + 1 + value.length + 1)
    | _ => none
  | _ => none

def deviceKey : List Char := "device".toList

/-- Where the loop over the bytes of the block stands. -/
inductive ScanMode where
  | bare
  | string
  | escape
  | line
  | commentOpen
  | comment
  | skip (n : Nat)

/-- The loop of `nixos_swap_devices`. A character of several bytes that is passed in the open has
the loop slice the block inside it. -/
def scanDevices (mode : ScanMode) (before : Option Char) : List Char → Option (List (List Char))
  | [] => some []
  | c :: rest =>
    match mode with
    | .string =>
      if c = '"' then scanDevices .bare (some c) rest
      else if c = '\\' then scanDevices .escape (some c) rest
      else scanDevices .string (some c) rest
    | .escape => scanDevices .string (some c) rest
    | .line =>
      -- the end of the line is looked at again, and is nothing
      if c = '\n' then scanDevices .bare (some c) rest else scanDevices .line (some c) rest
    | .commentOpen => scanDevices .comment (some c) rest
    | .comment =>
      if c = '*' && rest.head? = some '/' then scanDevices (.skip 1) (some c) rest
      else scanDevices .comment (some c) rest
    | .skip (n + 1) => scanDevices (.skip n) (some c) rest
    | .skip 0 | .bare =>
      if c = '"' then scanDevices .string (some c) rest
      else if c = '#' then scanDevices .line (some c) rest
      else if c = '/' && rest.head? = some '*' then scanDevices .commentOpen (some c) rest
      else if 1 < c.utf8Size then none
      else if deviceKey.isPrefixOf (c :: rest) && nameBoundary alphanumeric before then
        match deviceValue ((c :: rest).drop deviceKey.length) with
        | some (value, n) =>
          (scanDevices (.skip (deviceKey.length - 1 + n)) (some c) rest).map (value :: ·)
        | none => scanDevices .bare (some c) rest
      else scanDevices .bare (some c) rest

/-- `nixos_swap_devices` (space_report.rs:339). -/
def nixosSwapDevices (config : List Char) : Option (List String) :=
  match swapDevicesBlock alphanumeric (codeOnly config) with
  | none => some []
  | some (first, last) =>
    match slice first last config with
    | none => none
    | some block => (scanDevices alphanumeric .bare none block).map (List.map String.ofList)

end

end DraconGuard
