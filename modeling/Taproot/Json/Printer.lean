import Taproot.Json.Basic

/-! # Writing JSON

One compact form and one indented by two blanks a level. Only the quote, the backslash and the
characters below U+0020 are escaped.
-/
namespace Taproot.Json

def hexDigit (n : Nat) : Char := Nat.digitChar n

def escape (c : Char) : List Char :=
  if c = '"' then ['\\', '"']
  else if c = '\\' then ['\\', '\\']
  else if c = '\x08' then ['\\', 'b']
  else if c = '\x0c' then ['\\', 'f']
  else if c = '\n' then ['\\', 'n']
  else if c = '\r' then ['\\', 'r']
  else if c = '\t' then ['\\', 't']
  else if c.toNat < 0x20 then
    ['\\', 'u', '0', '0', hexDigit (c.toNat / 16), hexDigit (c.toNat % 16)]
  else [c]

def writeString (s : String) : String :=
  String.ofList ('"' :: (s.toList.flatMap escape ++ ['"']))

def writeReal : Real → String
  | .decimal negative digits exponent =>
    (if negative then "-" else "") ++ s!"{digits}e{exponent}"
  | .infinite negative => if negative then "-Infinity" else "Infinity"
  | .notANumber => "NaN"

mutual

def compact : Json → String
  | null => "null"
  | bool b => if b then "true" else "false"
  | int n => toString n
  | real x => writeReal x
  | str s => writeString s
  | arr items => "[" ++ ",".intercalate (compactItems items) ++ "]"
  | obj entries => "\x7b" ++ ",".intercalate (compactEntries entries) ++ "\x7d"

def compactItems : List Json → List String
  | [] => []
  | x :: xs => compact x :: compactItems xs

def compactEntries : List (String × Json) → List String
  | [] => []
  | (k, v) :: rest => (writeString k ++ ":" ++ compact v) :: compactEntries rest

end

/-- Lines of one container, each indented, between its brackets. -/
def block (opening closing : String) (level : Nat) (lines : List String) : String :=
  if lines.isEmpty then opening ++ closing
  else
    let margin := "\n" ++ String.ofList (List.replicate (2 * level) ' ')
    opening ++ margin ++ "  " ++ ("," ++ margin ++ "  ").intercalate lines ++ margin ++ closing

mutual

def indented (level : Nat) : Json → String
  | null => "null"
  | bool b => if b then "true" else "false"
  | int n => toString n
  | real x => writeReal x
  | str s => writeString s
  | arr items => block "[" "]" level (indentedItems (level + 1) items)
  | obj entries => block "\x7b" "\x7d" level (indentedEntries (level + 1) entries)

def indentedItems (level : Nat) : List Json → List String
  | [] => []
  | x :: xs => indented level x :: indentedItems level xs

def indentedEntries (level : Nat) : List (String × Json) → List String
  | [] => []
  | (k, v) :: rest =>
    (writeString k ++ ": " ++ indented level v) :: indentedEntries level rest

end

end Taproot.Json
