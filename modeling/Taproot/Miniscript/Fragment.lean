import Taproot.Miniscript.Type
import Taproot.Script.Element

/-! # Fragments

The policy tree of a script leaf: its type, its script, the keys and images it names, and its text.
-/
namespace Taproot.Miniscript

inductive Fragment
  | just (value : Bool)
  /-- Pushes a public key, for a `c` wrapper to check. -/
  | key (pubkey : Bytes)
  /-- A SHA-256 hash lock, opened by its preimage. -/
  | image (digest : Bytes)
  | after (height : Int)
  | older (height : Int)
  | multi (k : Int) (keys : List Bytes)
  | andV (x y : Fragment)
  | andB (x y : Fragment)
  | orB (x z : Fragment)
  | orC (x z : Fragment)
  | orD (x z : Fragment)
  | orI (x z : Fragment)
  /-- If `x` then `y`, else `z`. -/
  | andOr (x y z : Fragment)
  | thresh (k : Int) (branches : List Fragment)
  | wrap (w : Wrapper) (x : Fragment)
  deriving Repr

namespace Fragment

mutual

def type? : Fragment → Except TypeError ExprType
  | just value => .ok (.just value)
  | key _ => .ok .key
  | image _ => .ok .image
  | after _ => .ok .timelock
  | older _ => .ok .timelock
  | multi k keys => ExprType.multi k keys
  | andV x y => do ExprType.andV (← type? x) (← type? y)
  | andB x y => do ExprType.andB (← type? x) (← type? y)
  | orB x z => do ExprType.orB (← type? x) (← type? z)
  | orC x z => do ExprType.orC (← type? x) (← type? z)
  | orD x z => do ExprType.orD (← type? x) (← type? z)
  | orI x z => do ExprType.orI (← type? x) (← type? z)
  | andOr x y z => do ExprType.andOr (← type? x) (← type? y) (← type? z)
  | thresh k branches => do ExprType.thresh k (← types? branches)
  | wrap w x => do ExprType.wrap w (← type? x)

def types? : List Fragment → Except TypeError (List ExprType)
  | [] => .ok []
  | x :: xs => do return (← type? x) :: (← types? xs)

end

end Fragment

/-- A script whose result is verified, by the last opcode itself where it has such a form. -/
def verified (s : Script) : Script :=
  match s.getLast? with
  | some (.op c) =>
    match c.verifyForm? with
    | some v => s.dropLast ++ [.op v]
    | none => s ++ [.op .verify]
  | _ => s ++ [.op .verify]

def multiScript (k : Int) : List Bytes → Script
  | [] => [.ofInt k, .op .numEqual]
  | key :: keys =>
    [.push key, .op .checkSig] ++ keys.flatMap (fun key => [.push key, .op .checkSigAdd]) ++
      [.ofInt k, .op .numEqual]

def wrapScript : Wrapper → Script → Script
  | .a, x => .op .toAltStack :: x ++ [.op .fromAltStack]
  | .s, x => .op .swap :: x
  | .c, x => x ++ [.op .checkSig]
  | .d, x => [.op .dup, .op .ifOp] ++ x ++ [.op .endIf]
  | .v, x => verified x
  | .j, x => [.op .size, .op .notEqualZero, .op .ifOp] ++ x ++ [.op .endIf]
  | .n, x => x ++ [.op .notEqualZero]

namespace Fragment

mutual

def script : Fragment → Script
  | just value => [.op (if value then .one else .zero)]
  | key k => [.push k]
  | image h =>
    [.op .size, .ofInt 32, .op .equalVerify, .op .sha256, .push h, .op .equal]
  | after n => [.ofInt n, .op .checkLockTimeVerify]
  | older n => [.ofInt n, .op .checkSequenceVerify]
  | multi k keys => multiScript k keys
  | andV x y => script x ++ script y
  | andB x y => script x ++ script y ++ [.op .boolAnd]
  | orB x z => script x ++ script z ++ [.op .boolOr]
  | orC x z => script x ++ [.op .notIf] ++ script z ++ [.op .endIf]
  | orD x z => script x ++ [.op .ifDup, .op .notIf] ++ script z ++ [.op .endIf]
  | orI x z => [.op .ifOp] ++ script x ++ [.op .elseOp] ++ script z ++ [.op .endIf]
  | andOr x y z =>
    script x ++ [.op .notIf] ++ script z ++ [.op .elseOp] ++ script y ++ [.op .endIf]
  | thresh k [] => [.ofInt k, .op .equal]
  | thresh k (x :: xs) => script x ++ summands xs ++ [.ofInt k, .op .equal]
  | wrap w x => wrapScript w (script x)

/-- Each script adds its result to the sum so far. -/
def summands : List Fragment → Script
  | [] => []
  | x :: xs => script x ++ [.op .add] ++ summands xs

end

mutual

/-- The public keys in order of appearance. -/
def keys : Fragment → List Bytes
  | just _ | image _ | after _ | older _ => []
  | key k => [k]
  | multi _ ks => ks
  | andV x y | andB x y | orB x y | orC x y | orD x y | orI x y => keys x ++ keys y
  | andOr x y z => keys x ++ keys y ++ keys z
  | thresh _ xs => keysAll xs
  | wrap _ x => keys x

def keysAll : List Fragment → List Bytes
  | [] => []
  | x :: xs => keys x ++ keysAll xs

end

mutual

/-- The hash images in order of appearance. -/
def images : Fragment → List Bytes
  | just _ | key _ | after _ | older _ | multi _ _ => []
  | image h => [h]
  | andV x y | andB x y | orB x y | orC x y | orD x y | orI x y => images x ++ images y
  | andOr x y z => images x ++ images y ++ images z
  | thresh _ xs => imagesAll xs
  | wrap _ x => images x

def imagesAll : List Fragment → List Bytes
  | [] => []
  | x :: xs => images x ++ imagesAll xs

end

/-- Wrapper letters stand in one row; the colon comes after the last of them. A checked key has a
name of its own and counts as no wrapper. -/
def wrapText (w : Wrapper) (x : Fragment) (inner : String) : String :=
  match w, x with
  | .c, key k => "pk(" ++ k.hex ++ ")"
  | _, wrap .c (key _) => w.letter.toString ++ ":" ++ inner
  | _, wrap _ _ => w.letter.toString ++ inner
  | _, _ => w.letter.toString ++ ":" ++ inner

mutual

def text : Fragment → String
  | just value => if value then "1" else "0"
  | key k => "pk_k(" ++ k.hex ++ ")"
  | image h => "sha256(" ++ h.hex ++ ")"
  | after n => "after(" ++ toString n ++ ")"
  | older n => "older(" ++ toString n ++ ")"
  | multi k ks => "multi_a(" ++ toString k ++ "," ++ ",".intercalate (ks.map Bytes.hex) ++ ")"
  | andV x y => "and_v(" ++ text x ++ "," ++ text y ++ ")"
  | andB x y => "and_b(" ++ text x ++ "," ++ text y ++ ")"
  | orB x z => "or_b(" ++ text x ++ "," ++ text z ++ ")"
  | orC x z => "or_c(" ++ text x ++ "," ++ text z ++ ")"
  | orD x z => "or_d(" ++ text x ++ "," ++ text z ++ ")"
  | orI x z => "or_i(" ++ text x ++ "," ++ text z ++ ")"
  | andOr x y z => "andor(" ++ text x ++ "," ++ text y ++ "," ++ text z ++ ")"
  | thresh k xs => "thresh(" ++ toString k ++ "," ++ ",".intercalate (texts xs) ++ ")"
  | wrap w x => wrapText w x (text x)

def texts : List Fragment → List String
  | [] => []
  | x :: xs => text x :: texts xs

end

end Fragment
end Taproot.Miniscript
