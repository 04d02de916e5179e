import Taproot.Address.Bech32

/-! # The descriptor checksum

Eight characters over a text of 95 permitted characters. Each character feeds its place within a
group of 32 at once and the number of its group with that of its neighbours, three at a time.
-/
namespace Taproot.Checksum

def alphabet : List Char :=
  "0123456789()[],'/*abcdefgh@:$%\x7b\x7dIJKLMNOPQRSTUVWXYZ&+-.;<=>?!^_|~ijklmnopqrstuvwxyzABCDEFGH`#\"\\ ".toList

def generators : List Nat := [0xf5dee51989, 0xa9fdca3312, 0x1bab10e32d, 0x3706b1677a, 0x644d626ffd]

def step (c v : Nat) : Nat :=
  ((List.range 5).zip generators).foldl
    (fun acc ig => if (c >>> 35).testBit ig.1 then acc ^^^ ig.2 else acc)
    (((c &&& 0x7ffffffff) <<< 5) ^^^ v)

/-- The group numbers of a group of three characters as one symbol. -/
def groupSymbol (classes : List Nat) : Nat := classes.foldl (fun v k => 3 * v + k) 0

/-- The symbols that a list of places feeds; `classes` holds the group numbers not yet fed. -/
def symbols (classes : List Nat) : List Nat → List Nat
  | [] => if classes.isEmpty then [] else [groupSymbol classes]
  | v :: rest =>
    let classes := classes ++ [v >>> 5]
    if classes.length = 3 then (v &&& 31) :: groupSymbol classes :: symbols [] rest
    else (v &&& 31) :: symbols classes rest

/-- The checksum of a text given by the places of its characters. -/
def ofPlaces (places : List Nat) : List Char :=
  let c := (symbols [] places ++ List.replicate 8 0).foldl step 1 ^^^ 1
  (List.range 8).map fun j => fiveBitChar ((c >>> (5 * (7 - j))) &&& 31)

/-- The places of the characters, or the first character that is not permitted, with its offset. -/
def places (offset : Nat) : List Char → Except (Char × Nat) (List Nat)
  | [] => .ok []
  | c :: rest =>
    match alphabet.idxOf? c with
    | none => .error (c, offset)
    | some v => (v :: ·) <$> places (offset + 1) rest

theorem places_cons {c : Char} {v : Nat} (h : alphabet.idxOf? c = some v) (offset : Nat)
    (cs : List Char) : places offset (c :: cs) = (v :: ·) <$> places (offset + 1) cs := by
  have hc : places offset (c :: cs) = match alphabet.idxOf? c with
      | none => .error (c, offset)
      | some v => (v :: ·) <$> places (offset + 1) cs := rfl
  rw [hc, h]

theorem places_cons_of_none {c : Char} (h : alphabet.idxOf? c = none) (offset : Nat)
    (cs : List Char) : places offset (c :: cs) = .error (c, offset) := by
  have hc : places offset (c :: cs) = match alphabet.idxOf? c with
      | none => .error (c, offset)
      | some v => (v :: ·) <$> places (offset + 1) cs := rfl
  rw [hc, h]

def compute (text : List Char) : Except (Char × Nat) (List Char) := ofPlaces <$> places 0 text

end Taproot.Checksum
