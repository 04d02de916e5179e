import Taproot.Miniscript.Fragment

/-! # Satisfactions

A witness is a list of stack items, the last one on top. To satisfy a fragment is to ask a material
for signatures, preimages and timelocks, in a fixed order; the outcome keeps what was asked for.
-/
namespace Taproot.Miniscript

abbrev Witness := List Bytes

/-- What a leaf asks for. -/
inductive Request
  | sign (key : Bytes)
  | preimage (image : Bytes)
  | older (height : Int)
  | after (height : Int)
  deriving DecidableEq, Repr

/-- What is at hand. -/
structure Material where
  sign : Bytes → Option Bytes
  preimage : Bytes → Option Bytes
  older : Int → Bool
  after : Int → Bool

structure Outcome where
  witness : Option Witness
  requests : List Request
  deriving DecidableEq, Repr

/-- The item that chooses the first branch of a conditional. -/
def trueItem : Bytes := [1]

def falseItem : Bytes := []

/-- One witness below another, where both are there. -/
def under (below above : Option Witness) : Option Witness :=
  match below, above with
  | some b, some a => some (b ++ a)
  | _, _ => none

def describe : Option Witness → String
  | none => "Satisfaction(unavailable)"
  | some w => "Satisfaction([" ++ ", ".intercalate (w.map Bytes.hex) ++ "])"

namespace Outcome

def nothing : Outcome := ⟨none, []⟩

/-- Puts a witness below the one of an outcome. -/
def above (x : Outcome) (below : Option Witness) : Outcome := ⟨under below x.witness, x.requests⟩

/-- Puts a witness on top of the one of an outcome. -/
def below (x : Outcome) (above : Option Witness) : Outcome := ⟨under x.witness above, x.requests⟩

/-- Asks for both; the witness of the first comes on top. -/
def both (x y : Outcome) : Outcome := ⟨under y.witness x.witness, x.requests ++ y.requests⟩

/-- Asks for the second only where the first is not to be had. -/
@[macro_inline] def orElse (x y : Outcome) : Outcome :=
  match x with
  | ⟨some w, asked⟩ => ⟨some w, asked⟩
  | ⟨none, asked⟩ =>
    match y with
    | ⟨w, later⟩ => ⟨w, asked ++ later⟩

/-- Asks for the second only where the first is to be had; the first comes on top. -/
@[macro_inline] def andThen (x y : Outcome) : Outcome :=
  match x with
  | ⟨some w, asked⟩ =>
    match y with
    | ⟨v, later⟩ => ⟨under v (some w), asked ++ later⟩
  | ⟨none, asked⟩ => ⟨none, asked⟩

end Outcome

/-- The items of keys from left to right, the number of signatures still missing, and the keys that
were asked: a key is asked while signatures are missing. -/
def signEach (m : Material) : (missing : Nat) → List Bytes → Witness × Nat × List Request
  | missing, [] => ([], missing, [])
  | 0, _ :: keys =>
    let (items, left, asked) := signEach m 0 keys
    (falseItem :: items, left, asked)
  | n + 1, key :: keys =>
    match m.sign key with
    | some signature =>
      let (items, left, asked) := signEach m n keys
      (signature :: items, left, .sign key :: asked)
    | none =>
      let (items, left, asked) := signEach m (n + 1) keys
      (falseItem :: items, left, .sign key :: asked)

def satisfyMulti (m : Material) (k : Int) (keys : List Bytes) : Outcome :=
  match signEach m k.toNat keys with
  | (items, 0, asked) => ⟨some items.reverse, asked⟩
  | (_, _, asked) => ⟨none, asked⟩

/-- One branch of a threshold. -/
structure Branch where
  satisfied : Outcome
  dissatisfied : Option Witness

namespace Threshold

/-- Every branch that is not chosen can be left out. -/
def restDissatisfied : List Branch → List Bool → Bool
  | b :: bs, c :: cs => (c || b.dissatisfied.isSome) && restDissatisfied bs cs
  | _, _ => true

/-- Asks the chosen branches from left to right up to one that cannot be satisfied. A branch that
was asked before is not asked again. -/
def askChosen : List Branch → (chosen asked : List Bool) → Bool × List Bool × List Request
  | b :: bs, true :: cs, a :: as =>
    let fresh := if a then [] else b.satisfied.requests
    if b.satisfied.witness.isSome then
      let (found, as, requests) := askChosen bs cs as
      (found, true :: as, fresh ++ requests)
    else (false, true :: as, fresh)
  | _ :: bs, false :: cs, a :: as =>
    let (found, as, requests) := askChosen bs cs as
    (found, a :: as, requests)
  | _, _, as => (true, as, [])

/-- The witness of the first branch comes on top. -/
def assemble : List Branch → List Bool → Option Witness
  | b :: bs, c :: cs =>
    under (assemble bs cs) (if c then b.satisfied.witness else b.dissatisfied)
  | _, _ => some []

/-- The branches asked so far, and the requests they made. -/
structure Search where
  asked : List Bool
  requests : List Request

def tryChoice (branches : List Branch) (chosen : List Bool) (s : Search) : Option Witness × Search :=
  if restDissatisfied branches chosen then
    let (found, asked, requests) := askChosen branches chosen s.asked
    (if found then assemble branches chosen else none, ⟨asked, s.requests ++ requests⟩)
  else (none, s)

/-- Tries the choices of `k` more among the last `n` branches, the leftmost branches first;
`chosen` holds the choices made, last first. -/
def search (branches : List Branch) :
    (n k : Nat) → (chosen : List Bool) → Search → Option Witness × Search
  | 0, 0, chosen, s => tryChoice branches chosen.reverse s
  | 0, _ + 1, _, s => (none, s)
  | n + 1, 0, chosen, s => search branches n 0 (false :: chosen) s
  | n + 1, k + 1, chosen, s =>
    if n < k then (none, s)
    else
      match search branches n k (true :: chosen) s with
      | (some w, s) => (some w, s)
      | (none, s) => search branches n (k + 1) (false :: chosen) s

end Threshold

/-- The first choice of `k` branches that can be satisfied while the others are left out. -/
def satisfyThreshold (k : Int) (branches : List Branch) : Outcome :=
  let start : Threshold.Search := ⟨branches.map fun _ => false, []⟩
  let (witness, s) := Threshold.search branches branches.length k.toNat [] start
  ⟨witness, s.requests⟩

def dissatisfyWrapped (w : Wrapper) (x : Option Witness) : Option Witness :=
  match w with
  | .v => none
  | .d | .j => some [falseItem]
  | .a | .s | .c | .n => x

namespace Fragment

mutual

def dissatisfy : Fragment → Option Witness
  | just value => if value then none else some []
  | key _ => some [falseItem]
  | image _ => some [List.replicate 32 0]
  | after _ | older _ => none
  | multi _ keys => some (keys.map fun _ => falseItem)
  | andV _ _ | orC _ _ => none
  | andB x y | orB x y | orD x y => under (dissatisfy y) (dissatisfy x)
  | orI x z =>
    match under (dissatisfy x) (some [trueItem]) with
    | some w => some w
    | none => under (dissatisfy z) (some [falseItem])
  | andOr x _ z => under (dissatisfy z) (dissatisfy x)
  | thresh _ xs => dissatisfyAll xs
  | wrap w x => dissatisfyWrapped w (dissatisfy x)

/-- The witness of the first fragment comes on top. -/
def dissatisfyAll : List Fragment → Option Witness
  | [] => some []
  | x :: xs => under (dissatisfyAll xs) (dissatisfy x)

end

def satisfyWrapped (w : Wrapper) (x : Outcome) : Outcome :=
  match w with
  | .d => x.below (some [trueItem])
  | .a | .s | .c | .v | .j | .n => x

mutual

def satisfy (m : Material) : Fragment → Outcome
  | just value => ⟨if value then some [] else none, []⟩
  | key k => ⟨(m.sign k).map fun s => [s], [.sign k]⟩
  | image h => ⟨(m.preimage h).map fun p => [p], [.preimage h]⟩
  | after n => ⟨if m.after n then some [] else none, [.after n]⟩
  | older n => ⟨if m.older n then some [] else none, [.older n]⟩
  | multi k keys => satisfyMulti m k keys
  | andV x y | andB x y => (satisfy m x).both (satisfy m y)
  | orB x z => ((satisfy m x).above z.dissatisfy).orElse ((satisfy m z).below x.dissatisfy)
  | orC x z | orD x z => (satisfy m x).orElse ((satisfy m z).below x.dissatisfy)
  | orI x z =>
    ((satisfy m x).below (some [trueItem])).orElse ((satisfy m z).below (some [falseItem]))
  | andOr x y z =>
    ((satisfy m x).andThen (satisfy m y)).orElse ((satisfy m z).below x.dissatisfy)
  | thresh k xs => satisfyThreshold k (branches m xs)
  | wrap w x => satisfyWrapped w (satisfy m x)

def branches (m : Material) : List Fragment → List Branch
  | [] => []
  | x :: xs => ⟨satisfy m x, x.dissatisfy⟩ :: branches m xs

end

end Fragment
end Taproot.Miniscript
