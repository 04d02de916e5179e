/-! # JSON values

Objects keep all their entries in order; where a key comes again, its last value is the one that
counts.
-/
namespace Taproot

/-- A number that is not written as an integer. -/
inductive Json.Real
  | decimal (negative : Bool) (digits : Nat) (exponent : Int)
  | infinite (negative : Bool)
  | notANumber
  deriving DecidableEq, Repr

inductive Json
  | null
  | bool (b : Bool)
  | int (n : Int)
  | real (x : Json.Real)
  | str (s : String)
  | arr (items : List Json)
  | obj (entries : List (String × Json))

namespace Json

def isNull : Json → Bool
  | null => true
  | _ => false

/-- The last value under a key. -/
def lastUnder {α : Type} (key : String) : List (String × α) → Option α
  | [] => none
  | (k, a) :: rest => (lastUnder key rest).or (if k = key then some a else none)

def get? : Json → String → Option Json
  | obj entries, key => lastUnder key entries
  | _, _ => none

end Json
end Taproot
