/-! # Switches and words

A command line is split into switches and words. A long switch may have its value behind an equals
sign, short ones may stand in one word with the value of the last behind them, and two dashes end
the switches.
-/
namespace Taproot.CommandLine

inductive UsageError
  | noCommand
  | unknownCommand (name : String)
  | unknownSwitch (name : String)
  | unwantedValue (name : String)
  | missingValue (name : String)
  | missingWord (name : String)
  | unexpectedWord (word : String)
  | badNumber (word : String)
  deriving DecidableEq, Repr

def UsageError.message : UsageError → String
  | noCommand => "Missing command."
  | unknownCommand name => s!"No such command '{name}'."
  | unknownSwitch name => s!"No such option: {name}"
  | unwantedValue name => s!"Option '{name}' does not take a value."
  | missingValue name => s!"Option '{name}' requires an argument."
  | missingWord name => s!"Missing argument '{name}'."
  | unexpectedWord word => s!"Got unexpected extra argument ({word})"
  | badNumber word => s!"'{word}' is not a valid number here."

/-- A switch goes by its long spelling. -/
structure Switch where
  long : String
  short : Option Char := none
  takesValue : Bool := false
  deriving DecidableEq, Repr

/-- The switches of a line with their values, and its other words. A switch that takes no value is
given with the empty text. -/
structure Words where
  given : List (String × String)
  words : List String
  deriving DecidableEq, Repr

namespace Words

def has (w : Words) (long : String) : Bool := w.given.any fun g => g.1 == long

/-- The value that was given last. -/
def value? (w : Words) (long : String) : Option String := w.given.reverse.lookup long

def withGiven (given : List (String × String)) (w : Words) : Words :=
  { w with given := given ++ w.given }

def withWord (word : String) (w : Words) : Words := { w with words := word :: w.words }

end Words

/-- What one word of switches gives, and the switch that takes the next word as its value. -/
structure Bundle where
  given : List (String × String)
  wants : Option String
  deriving DecidableEq, Repr

def shortSwitches (switches : List Switch) : List Char → Except UsageError Bundle
  | [] => .ok ⟨[], none⟩
  | c :: rest =>
    match switches.find? fun s => s.short == some c with
    | none => .error (.unknownSwitch (String.ofList ['-', c]))
    | some s =>
      if s.takesValue then
        if rest.isEmpty then .ok ⟨[], some s.long⟩
        else .ok ⟨[(s.long, String.ofList rest)], none⟩
      else
        match shortSwitches switches rest with
        | .error e => .error e
        | .ok b => .ok { b with given := (s.long, "") :: b.given }

/-- A word is first taken for a long switch; one that begins with a single dash may then be a row
of short ones. -/
def bundle (switches : List Switch) (word : List Char) : Except UsageError Bundle :=
  let name := String.ofList (word.takeWhile (· ≠ '='))
  match switches.find? fun s => s.long == name with
  | some s =>
    match word.dropWhile (· ≠ '='), s.takesValue with
    | [], false => .ok ⟨[(s.long, "")], none⟩
    | [], true => .ok ⟨[], some s.long⟩
    | _ :: value, true => .ok ⟨[(s.long, String.ofList value)], none⟩
    | _ :: _, false => .error (.unwantedValue s.long)
  | none =>
    match word with
    | '-' :: '-' :: _ => .error (.unknownSwitch name)
    | _ => shortSwitches switches (word.drop 1)

def isSwitchWord (word : String) : Bool :=
  match word.toList with
  | '-' :: _ :: _ => true
  | _ => false

/-- Splits a line. Where switches are `mixed` with words they may stand behind words; else the first
word ends them. -/
def split (switches : List Switch) (mixed : Bool) : List String → Except UsageError Words
  | [] => .ok ⟨[], []⟩
  | word :: rest =>
    if word = "--" then .ok ⟨[], rest⟩
    else if isSwitchWord word then
      match bundle switches word.toList with
      | .error e => .error e
      | .ok ⟨given, none⟩ => (split switches mixed rest).map (Words.withGiven given)
      | .ok ⟨given, some name⟩ =>
        match rest with
        | [] => .error (.missingValue name)
        | value :: rest =>
          (split switches mixed rest).map (Words.withGiven (given ++ [(name, value)]))
    else if mixed then (split switches mixed rest).map (Words.withWord word)
    else .ok ⟨[], word :: rest⟩

end Taproot.CommandLine
