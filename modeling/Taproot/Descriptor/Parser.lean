import Taproot.Descriptor.Basic
import Taproot.Draft.Timelock
import Taproot.Key.Tweak
import Taproot.Text.Integer

/-! # Reading descriptors

A descriptor is read from its tokens against the store, which must know its keys and images. Where
an expression of another type is wanted, the wrapper that makes it so is put around it. A fault is
reported at the token at which it shows; a type error at the name of the fragment that was built.
-/
namespace Taproot.Descriptor

open Miniscript

/-- What stays the same while a descriptor is read. -/
structure Source where
  store : Store
  /-- Stands behind the last token. -/
  ending : Token

/-- Takes tokens from the front. -/
abbrev Parser := StateT (List Token) (Except DescriptorError)

namespace Parser

def failAt {α : Type} (fault : SyntaxFault) (token : Token) : Parser α :=
  throw (.syntaxAt fault token)

def peek (src : Source) : Parser Token := do
  match ← get with
  | [] => return src.ending
  | t :: _ => return t

def next (src : Source) : Parser Token := do
  match ← get with
  | [] => return src.ending
  | t :: rest =>
    set rest
    return t

def expect (src : Source) (c : Char) : Parser Unit := do
  let t ← next src
  if t.chars ≠ [c] then failAt (.expected c) t

/-- Takes a comma, if one comes next. -/
def comma (src : Source) : Parser Bool := do
  if (← peek src).chars = [','] then
    let _ ← next src
    return true
  else return false

/-- Reports a type error at a token. -/
def typedAt (token : Token) (r : Except TypeError Typed) : Parser Typed :=
  match r with
  | .ok x => return x
  | .error e => failAt (.illTyped e) token

def numeral (src : Source) : Parser Nat := do
  let t ← next src
  if !Text.isNumeral t.chars then failAt .noInteger t
  if Text.digitLimit < t.chars.length then throw (.numeralTooLong (.reading t.chars.length))
  return Text.ofDigits t.chars

def isHex32 (cs : List Char) : Bool := cs.length = 64 && cs.all fun c => (Text.hexValue? c).isSome

/-- The 32 bytes of a token of 64 hex digits. -/
def hex32 (src : Source) (fault : SyntaxFault) : Parser (Bytes × Token) := do
  let t ← next src
  if !isHex32 t.chars then failAt fault t
  return ((Text.readHex t.chars).getD [], t)

def publicKey (src : Source) : Parser Bytes := do
  let (key, t) ← hex32 src .noKeyText
  if (PublicKey.point? key).isNone then failAt .offCurve t
  if (src.store.findKey? key).isNone then throw (.unknown (.key key))
  return key

def hashImage (src : Source) : Parser Bytes := do
  let (digest, _) ← hex32 src .noImageText
  if (src.store.findImage? digest).isNone then throw (.unknown (.image digest))
  return digest

/-- An argument in parentheses. -/
def parenthesized {α : Type} (src : Source) (item : Parser α) : Parser α := do
  expect src '('
  let x ← item
  expect src ')'
  return x

/-- Items, each behind a comma, while commas come; at most `limit` of them. -/
def afterCommas {α : Type} (src : Source) (item : Parser α) : (limit : Nat) → Parser (List α)
  | 0 => return []
  | n + 1 => do
    if ← comma src then
      let x ← item
      return x :: (← afterCommas src item n)
    else return []

def twoArguments (src : Source) (expression : Parser Typed) : Parser (Typed × Typed) := do
  expect src '('
  let x ← expression
  expect src ','
  let y ← expression
  expect src ')'
  return (x, y)

def threeArguments (src : Source) (expression : Parser Typed) : Parser (Typed × Typed × Typed) := do
  expect src '('
  let x ← expression
  expect src ','
  let y ← expression
  expect src ','
  let z ← expression
  expect src ')'
  return (x, y, z)

/-- A height in parentheses, within its bounds. -/
def height (src : Source) (limit : Nat) (fault : SyntaxFault) : Parser Nat := do
  expect src '('
  let t ← peek src
  let n ← numeral src
  expect src ')'
  if ¬(1 ≤ n ∧ n < limit) then failAt fault t
  return n

/-- The first branch is added to nothing. -/
def asBranches : List Typed → List Typed
  | [] => []
  | x :: xs => x :: xs.map Typed.asSummand

/-- The fragment that a name token begins. -/
def fragment (src : Source) (expression : Parser Typed) (limit : Nat) (name : Token) :
    Parser Typed := do
  match name.text with
  | "0" => return .just false
  | "1" => return .just true
  | "pk" => return .checkedKey (← parenthesized src (publicKey src))
  | "pk_k" => return .key (← parenthesized src (publicKey src))
  | "sha256" | "sha256_preimage" => return .image (← parenthesized src (hashImage src))
  | "after" => return .after (← height src heightLimit .afterRange)
  | "older" => return .older (← height src (maxRelativeHeight + 1) .olderRange)
  | "multi_a" =>
    expect src '('
    let k ← numeral src
    let keys ← afterCommas src (publicKey src) limit
    expect src ')'
    if keys.isEmpty then failAt .noKeys name
    typedAt name (Typed.multi k keys)
  | "and_v" =>
    let (x, y) ← twoArguments src expression
    typedAt name (Typed.andV x.asVerify y)
  | "and_b" =>
    let (x, y) ← twoArguments src expression
    typedAt name (Typed.andB x y.asSummand)
  | "or_b" =>
    let (x, z) ← twoArguments src expression
    typedAt name (Typed.orB x z.asSummand)
  | "or_c" =>
    let (x, z) ← twoArguments src expression
    typedAt name (Typed.orC x z.asVerify)
  | "or_d" =>
    let (x, z) ← twoArguments src expression
    typedAt name (Typed.orD x z)
  | "or_i" =>
    let (x, z) ← twoArguments src expression
    typedAt name (Typed.orI x z)
  | "andor" =>
    let (x, y, z) ← threeArguments src expression
    typedAt name (Typed.andOr x y z)
  | "thresh" =>
    expect src '('
    let k ← numeral src
    let xs ← afterCommas src expression limit
    expect src ')'
    if xs.isEmpty then failAt .noBranches name
    typedAt name (Typed.thresh k (asBranches xs))
  | _ => failAt .unknownFragment name

/-- Three letters besides the wrappers stand for `and_v(X,1)`, `or_i(0,X)` and `or_i(X,0)`. -/
def isWrapperLetter (c : Char) : Bool := (Wrapper.ofLetter? c).isSome || c == 't' || c == 'l' || c == 'u'

def applyLetter (c : Char) (x : Typed) : Except TypeError Typed :=
  match c with
  | 't' => Typed.andV x (.just true)
  | 'l' => Typed.orI (.just false) x
  | 'u' => Typed.orI x (.just false)
  | c =>
    match Wrapper.ofLetter? c with
    | some w => Typed.wrap w x
    | none => .error (.unknownWrapper c.toString)

/-- Applies a row of wrapper letters, the last one first. -/
def applyLetters (token : Token) : List Char → Typed → Parser Typed
  | [], x => return x
  | c :: rest, x => do typedAt token (applyLetter c (← applyLetters token rest x))

def word (src : Source) : Parser Token := do
  let t ← next src
  if !t.isWord then failAt .noFragment t
  return t

/-- The wrapper letters before a colon, if there is one, and the name behind it. -/
def wrappedName (src : Source) : Parser (List Char × Token) := do
  let t ← word src
  if (← peek src).chars = [':'] then
    let _ ← next src
    match t.chars.find? fun c => !isWrapperLetter c with
    | some c => failAt (.unknownWrapper c) t
    | none => return (t.chars, ← word src)
  else return ([], t)

/-- An expression of at most the given depth; `limit` bounds its lists of arguments. -/
def expression (src : Source) (limit : Nat) : (depth : Nat) → Parser Typed
  | 0 => failAt .noFragment src.ending
  | n + 1 => do
    let (letters, name) ← wrappedName src
    let x ← fragment src (expression src limit n) limit name
    applyLetters name letters x

def leaf (src : Source) (limit : Nat) : Parser ScriptTree := do
  let start ← peek src
  let x ← expression src limit limit
  if x.type.base ≠ .B then failAt (.leafType x.type) start
  return .leaf x

/-- A script tree of at most the given depth. -/
def tree (src : Source) (limit : Nat) : (depth : Nat) → Parser ScriptTree
  | 0 => failAt .noFragment src.ending
  | n + 1 => do
    if (← peek src).chars = ['\x7b'] then
      let _ ← next src
      let l ← tree src limit n
      expect src ','
      let r ← tree src limit n
      expect src '\x7d'
      return .branch l r
    else leaf src limit

def descriptor (src : Source) (limit : Nat) : Parser Descriptor := do
  let head ← next src
  if head.text ≠ "tr" then failAt .notTaproot head
  expect src '('
  let key ← publicKey src
  let scripts ← if ← comma src then some <$> tree src limit limit else pure none
  expect src ')'
  match ← get with
  | [] => return ⟨key, scripts⟩
  | t :: _ => failAt .trailingInput t

end Parser

/-- Reads a text without checksum. -/
def readBody (store : Store) (cs : List Char) : Except DescriptorError Descriptor :=
  let tokens := Token.scan cs
  (Parser.descriptor ⟨store, .ending cs.length⟩ (tokens.length + 1)).run' tokens

/-- Splits at the last `#`. -/
def splitChecksum? (cs : List Char) : Option (List Char × List Char) :=
  let given := cs.reverse.takeWhile (· ≠ '#')
  if given.length < cs.length then
    some (cs.take (cs.length - given.length - 1), given.reverse)
  else none

/-- Reads a text, whose checksum must be right if it has one. -/
def read (store : Store) (text : String) : Except DescriptorError Descriptor := do
  let cs := Text.trim Text.isBlank text.toList
  match splitChecksum? cs with
  | none => readBody store cs
  | some (body, given) =>
    let expected ← descriptorChecksum body
    if Text.trim Text.isBlank given ≠ expected then
      throw (.syntaxAt (.checksum expected) ⟨given, body.length + 1⟩)
    readBody store body

end Taproot.Descriptor
