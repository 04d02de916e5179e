import Taproot.CommandLine.Words

/-! # Commands

What a user can ask of the wallet, and how it is typed. Words that stand for numbers are read by the
parser of command lines, which is not part of the wallet: any reader of numbers will do.
-/
namespace Taproot.CommandLine

/-- Keys and images are as they were typed. -/
inductive Command
  | init (force : Bool)
  | print (secrets : Bool)
  | generateKeys (count : Int)
  | importKey (value : String) (isPublic : Bool)
  | setKeyActive (key : String) (active : Bool)
  | toggleKey (key : String)
  | generateImages (count : Int)
  | importImage (value : String) (isImage : Bool)
  | setImageActive (image : String) (active : Bool)
  | toggleImage (image : String)
  | compile (descriptor : String)
  | setInbound (descriptor : String)
  | fundInbound (txid : String) (vout value : Int)
  | listUtxos
  | addInput (index utxo : Int)
  | deleteInput (index : Int)
  | setSequence (index height : Int)
  | disableSequence (index : Int)
  | addOutput (index : Int) (descriptor : String) (value : Option Int)
  | deleteOutput (index : Int)
  | setLocktime (height : Option Int)
  | clearLocktime
  | setFee (fee : Int)
  | spend
  | finalize (txid : Option String) (chain : Bool)
  deriving DecidableEq, Repr

/-- The number that a word stands for, if it is one. -/
abbrev NumberReader := String → Option Int

/-- Takes words from the front. -/
abbrev WordReader := ReaderT NumberReader (StateT (List String) (Except UsageError))

namespace WordReader

def word? : WordReader (Option String) := do
  match ← get with
  | [] => return none
  | w :: rest =>
    set rest
    return some w

def word (name : String) : WordReader String := do
  match ← word? with
  | some w => return w
  | none => throw (.missingWord name)

def readNumber (w : String) : WordReader Int := do
  match (← read) w with
  | some n => return n
  | none => throw (.badNumber w)

def readAtLeast (bound : Int) (w : String) : WordReader Int := do
  let n ← readNumber w
  if bound ≤ n then return n else throw (.badNumber w)

def number (name : String) : WordReader Int := do readNumber (← word name)

def natural (name : String) : WordReader Int := do readAtLeast 0 (← word name)

/-- A number that may be left out. -/
def number? (read : String → WordReader Int) : WordReader (Option Int) := do
  match ← word? with
  | some w => some <$> read w
  | none => return none

end WordReader

open WordReader

/-- The switches of a command, and how its words are read. -/
structure Form where
  switches : List Switch := []
  command : Words → WordReader Command

/-- A count of things to generate, of which there is at least one. -/
def count : WordReader Int := do return (← number? (readAtLeast 1)).getD 1

def keyForm : String → Option Form
  | "gen" => some { command := fun _ => .generateKeys <$> count }
  | "import" => some {
      switches := [{ long := "--public" }]
      command := fun w => return .importKey (← word "VALUE") (w.has "--public") }
  | "enable" => some { command := fun _ => return .setKeyActive (← word "PUBKEY") true }
  | "disable" => some { command := fun _ => return .setKeyActive (← word "PUBKEY") false }
  | "toggle" => some { command := fun _ => .toggleKey <$> word "PUBKEY" }
  | _ => none

def imageForm : String → Option Form
  | "gen" => some { command := fun _ => .generateImages <$> count }
  | "import" => some {
      switches := [{ long := "--image" }]
      command := fun w => return .importImage (← word "VALUE") (w.has "--image") }
  | "enable" => some { command := fun _ => return .setImageActive (← word "IMAGE") true }
  | "disable" => some { command := fun _ => return .setImageActive (← word "IMAGE") false }
  | "toggle" => some { command := fun _ => .toggleImage <$> word "IMAGE" }
  | _ => none

def addressForm : String → Option Form
  | "set" => some { command := fun _ => .setInbound <$> word "DESCRIPTOR" }
  | "utxo" => some {
      command := fun _ =>
        return .fundInbound (← word "TXID") (← natural "VOUT") (← natural "VALUE") }
  | _ => none

def utxoForm : String → Option Form
  | "list" => some { command := fun _ => return .listUtxos }
  | _ => none

def readSequence (w : Words) : WordReader Command := do
  let index ← number "INDEX"
  let height := (← number? readNumber).getD 0
  return if w.has "--disable" then .disableSequence index else .setSequence index height

def inputForm : String → Option Form
  | "new" => some { command := fun _ => return .addInput (← natural "INDEX") (← natural "UTXO_INDEX") }
  | "del" => some { command := fun _ => .deleteInput <$> number "INDEX" }
  | "seq" => some { switches := [{ long := "--disable" }], command := readSequence }
  | _ => none

def outputForm : String → Option Form
  | "new" => some {
      command := fun _ =>
        return .addOutput (← natural "INDEX") (← word "DESCRIPTOR") (← number? (readAtLeast 0)) }
  | "del" => some { command := fun _ => .deleteOutput <$> number "INDEX" }
  | _ => none

def readLocktime (w : Words) : WordReader Command := do
  let height ← number? readNumber
  return if w.has "--clear" then .clearLocktime else .setLocktime height

def topForm : String → Option Form
  | "init" => some {
      switches := [{ long := "--force", short := some 'f' }]
      command := fun w => return .init (w.has "--force") }
  | "print" => some {
      switches := [{ long := "--secrets" }]
      command := fun w => return .print (w.has "--secrets") }
  | "compile" => some { command := fun _ => .compile <$> word "DESCRIPTOR" }
  | "locktime" => some { switches := [{ long := "--clear" }], command := readLocktime }
  | "fee" => some { command := fun _ => .setFee <$> natural "VALUE" }
  | "spend" => some { command := fun _ => return .spend }
  | "final" => some {
      switches := [{ long := "--no-chain" }]
      command := fun w => return .finalize (← word?) (!w.has "--no-chain") }
  | _ => none

def groupForm : String → Option (String → Option Form)
  | "key" => some keyForm
  | "image" => some imageForm
  | "addr" => some addressForm
  | "utxo" => some utxoForm
  | "input" => some inputForm
  | "output" => some outputForm
  | _ => none

/-- Reads all words of a line. -/
def Form.read (f : Form) (numbers : NumberReader) (args : List String) :
    Except UsageError Command := do
  let w ← split f.switches true args
  match ← ((f.command w).run numbers).run w.words with
  | (c, []) => return c
  | (_, extra :: _) => throw (.unexpectedWord extra)

namespace Command

/-- The name is one of a command or of a group of commands. -/
def isName (name : String) : Bool := (topForm name).isSome || (groupForm name).isSome

/-- The command of a name and the words behind it; a group has the name of the command first. -/
def read (numbers : NumberReader) (name : String) (args : List String) :
    Except UsageError Command :=
  match topForm name, groupForm name with
  | some f, _ => f.read numbers args
  | none, some forms => do
    match (← split [] false args).words with
    | [] => throw .noCommand
    | sub :: rest =>
      match forms sub with
      | some f => f.read numbers rest
      | none => throw (.unknownCommand sub)
  | none, none => throw (.unknownCommand name)

end Command
end Taproot.CommandLine
