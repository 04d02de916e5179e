import Taproot.Text.Blank

/-! # Files of environment variables

Each line assigns a text to a name: `NAME=text`, perhaps behind `export`. A text may be quoted and
then holds escapes and line ends; an unquoted one ends before a blank and a `#`. A text can refer to
variables. Lines that cannot be read are passed over.
-/
namespace Taproot.EnvFile

/-- The variables around the program. -/
abbrev Environment := List (String × String)

/-- What a file assigns; a name that stands alone is assigned nothing. -/
abbrev Assignments := List (String × Option String)

/-- A name that comes again keeps its place. -/
def Assignments.set (name : String) (value : Option String) : Assignments → Assignments
  | [] => [(name, value)]
  | (n, v) :: rest =>
    if n = name then (n, value) :: rest else (n, v) :: Assignments.set name value rest

/-- A blank inside a line. -/
def isGap (c : Char) : Bool := Text.isBlank c && c != '\n'

def skipGap (cs : List Char) : List Char := cs.dropWhile isGap

def skipLine (cs : List Char) : List Char := cs.dropWhile (· ≠ '\n')

/-- Drops the word `export` and the gap behind it. -/
def skipExport (cs : List Char) : List Char :=
  match cs with
  | 'e' :: 'x' :: 'p' :: 'o' :: 'r' :: 't' :: rest =>
    match rest with
    | c :: _ => if isGap c then skipGap rest else cs
    | [] => cs
  | _ => cs

/-- The text up to the closing quote, with its escapes, and what follows it. A quote behind a
backslash closes only where no other one does. -/
def quotedPart (quote : Char) : List Char → Option (List Char × List Char)
  | [] => none
  | '\\' :: c :: rest =>
    if c = quote then
      match quotedPart quote rest with
      | some (t, r) => some ('\\' :: c :: t, r)
      | none => some (['\\'], rest)
    else (quotedPart quote (c :: rest)).map fun (t, r) => ('\\' :: t, r)
  | c :: rest =>
    if c = quote then some ([], rest)
    else (quotedPart quote rest).map fun (t, r) => (c :: t, r)

def escapes : List (Char × Char) :=
  [('\\', '\\'), ('\'', '\''), ('"', '"'), ('a', '\x07'), ('b', '\x08'), ('f', '\x0c'),
   ('n', '\n'), ('r', '\r'), ('t', '\t'), ('v', '\x0b')]

/-- In single quotes only the backslash and the quote are escaped. -/
def unescape (quote : Char) : List Char → List Char
  | '\\' :: c :: rest =>
    match escapes.lookup c with
    | some d =>
      if quote = '"' ∨ c = '\\' ∨ c = '\'' then d :: unescape quote rest
      else '\\' :: c :: unescape quote rest
    | none => '\\' :: unescape quote (c :: rest)
  | c :: rest => c :: unescape quote rest
  | [] => []

/-- The name at the front, where there is one; a comment has none. -/
def name (cs : List Char) : Option (Option String × List Char) :=
  match cs with
  | '#' :: _ => some (none, cs)
  | '\'' :: rest =>
    match rest.span (· ≠ '\'') with
    | (t, _ :: after) => if t.isEmpty then none else some (some (String.ofList t), after)
    | (_, []) => none
  | _ =>
    match cs.span fun c => c ≠ '=' && c ≠ '#' && !Text.isBlank c with
    | ([], _) => none
    | (t, after) => some (some (String.ofList t), after)

/-- Cuts off a gap with a comment behind it, and the gap at the end. -/
def withoutComment : List Char → List Char
  | [] => []
  | c :: rest =>
    if Text.isBlank c then
      match rest.dropWhile Text.isBlank with
      | [] | '#' :: _ => []
      | _ => c :: withoutComment rest
    else c :: withoutComment rest

/-- The text behind an equals sign. -/
def value (cs : List Char) : Option (List Char × List Char) :=
  match skipGap cs with
  | '\'' :: rest => (quotedPart '\'' rest).map fun (t, r) => (unescape '\'' t, r)
  | '"' :: rest => (quotedPart '"' rest).map fun (t, r) => (unescape '"' t, r)
  | _ => some (skipGap (withoutComment (cs.takeWhile (· ≠ '\n'))), skipLine cs)

/-- The rest behind the end of a line, with nothing but a comment before it. -/
def lineEnd (cs : List Char) : Option (List Char) :=
  let cs := match skipGap cs with
    | '#' :: rest => skipLine rest
    | cs => cs
  match skipGap cs with
  | [] => some []
  | '\n' :: rest => some rest
  | _ => none

/-- Reads from the front of a text; a failure leaves the text where it was. -/
abbrev Reading := OptionT (StateM (List Char))

def take {α : Type} (part : List Char → Option (α × List Char)) : Reading α := do
  match part (← get) with
  | some (a, rest) =>
    set rest
    return a
  | none => failure

/-- The text that is assigned, where there is an equals sign. -/
def assigned : Reading (Option (List Char)) := do
  match skipGap (← get) with
  | '=' :: rest =>
    set rest
    return some (← take value)
  | rest =>
    set rest
    return none

def assignment : Reading (Option (String × Option (List Char))) := do
  modify skipExport
  let key ← take name
  let text ← assigned
  take fun cs => (lineEnd cs).map fun rest => ((), rest)
  return key.map fun k => (k, text)

/-- The assignments in at most so many lines. After one that cannot be read the rest of the line is
passed over. -/
def assignments : (lines : Nat) → List Char → List (String × Option (List Char))
  | 0, _ => []
  | n + 1, cs =>
    match cs.dropWhile Text.isBlank with
    | [] => []
    | cs =>
      match assignment.run cs with
      | (some (some a), rest) => a :: assignments n rest
      | (some none, rest) => assignments n rest
      | (none, rest) => assignments n (skipLine rest)

/-- What is known under a name: what the file has assigned so far comes first. -/
def find? (environment : Environment) (done : Assignments) (name : String) :
    Option (Option String) :=
  (done.lookup name).or ((environment.lookup name).map some)

/-- A reference is a name in braces behind a dollar sign, and perhaps `:-` and a text that stands
in for a missing variable. One that is assigned nothing is not missing. -/
def reference (environment : Environment) (done : Assignments) (inner : List Char) : String :=
  let (n, rest) := inner.span (· ≠ ':')
  match find? environment done (String.ofList n), rest with
  | some v, _ => v.getD ""
  | none, ':' :: '-' :: instead => String.ofList instead
  | none, _ => ""

/-- A colon in braces is followed by a dash. -/
def isReference (inner : List Char) : Bool :=
  match inner.dropWhile (· ≠ ':') with
  | [] | ':' :: '-' :: _ => true
  | _ => false

/-- Puts the values of variables in place of references, of which there are at most so many. -/
def expand (value : List Char → String) : (limit : Nat) → List Char → List Char
  | 0, cs => cs
  | _, [] => []
  | n + 1, '$' :: '\x7b' :: rest =>
    match rest.span (· ≠ '\x7d') with
    | (inner, _ :: after) =>
      if isReference inner then (value inner).toList ++ expand value n after
      else '$' :: '\x7b' :: expand value n rest
    | (_, []) => '$' :: '\x7b' :: expand value n rest
  | n + 1, c :: rest => c :: expand value n rest

/-- Assigns from the first on; references see the environment and the assignments before them. -/
def assign (environment : Environment) (done : Assignments) :
    List (String × Option (List Char)) → Assignments
  | [] => done
  | (key, text) :: rest =>
    let v := text.map fun t => String.ofList (expand (reference environment done) t.length t)
    assign environment (done.set key v) rest

/-- A mark of the byte order in front is no part of the text. -/
def withoutMark : List Char → List Char
  | '\ufeff' :: rest => rest
  | cs => cs

/-- Every line ends with a line feed; a carriage return counts as one, also together with one. -/
def unifyLineEnds : List Char → List Char
  | '\r' :: '\n' :: rest => '\n' :: unifyLineEnds rest
  | '\r' :: rest => '\n' :: unifyLineEnds rest
  | c :: rest => c :: unifyLineEnds rest
  | [] => []

/-- The variables that a file assigns. -/
def read (environment : Environment) (text : String) : Assignments :=
  let cs := unifyLineEnds (withoutMark text.toList)
  assign environment [] (assignments (cs.length + 1) cs)

end Taproot.EnvFile
