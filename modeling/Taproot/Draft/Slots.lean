/-! # Numbered entries

Entries under integer indices, in the order in which the indices were first used.
-/
namespace Taproot

abbrev Slots (α : Type) := List (Int × α)

namespace Slots

variable {α β : Type}

def get? : Slots α → Int → Option α
  | [], _ => none
  | (j, a) :: rest, i => if j = i then some a else get? rest i

def has (s : Slots α) (i : Int) : Bool := (get? s i).isSome

/-- An index already in use keeps its place. -/
def set (i : Int) (a : α) : Slots α → Slots α
  | [] => [(i, a)]
  | (j, b) :: rest => if j = i then (j, a) :: rest else (j, b) :: set i a rest

def remove (i : Int) (s : Slots α) : Slots α := s.filter fun e => e.1 ≠ i

def values (s : Slots α) : List α := s.map Prod.snd

/-- The entries by ascending index. -/
def sorted (s : Slots α) : Slots α := s.mergeSort fun a b => a.1 ≤ b.1

/-- The entries that stand in a list, a later one in place of an earlier one of its index. -/
def ofList (entries : List (Int × α)) : Slots α := entries.foldl (fun s e => set e.1 e.2 s) []

def mapValues (f : α → β) (s : Slots α) : Slots β := s.map fun e => (e.1, f e.2)

@[simp] theorem get?_nil (i : Int) : get? ([] : Slots α) i = none := rfl

theorem get?_set_self (i : Int) (a : α) (s : Slots α) : get? (set i a s) i = some a := by
  induction s with
  | nil => simp [set, get?]
  | cons e rest ih =>
    obtain ⟨j, b⟩ := e
    by_cases h : j = i
    · simp [set, get?, h]
    · simp [set, get?, h, ih]

/-- The first index that is missing from `0, 1, …` among ascending indices. -/
def firstGapFrom (expected : Nat) : List Int → Option Nat
  | [] => none
  | i :: rest => if i = expected then firstGapFrom (expected + 1) rest else some expected

def firstGap (s : Slots α) : Option Nat := firstGapFrom 0 (sorted s |>.map Prod.fst)

end Slots
end Taproot
