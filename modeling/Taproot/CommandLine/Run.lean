import Taproot.CommandLine.Execution
import Taproot.CommandLine.Settings
import Taproot.Text.Capitals
import Taproot.Text.Controls
import Taproot.Text.Integer

/-! # Running a command line

A run is planned from the arguments and the settings; the plan names the wallet file and the scratch
file, which is written first and then takes the place of the wallet file. Given what was found at
both paths, the plan gives the outcome: an exit code, what is printed, the notices, and what becomes
of the files.
-/
namespace Taproot.CommandLine

/-- Why a run breaks off without an answer to the user. -/
inductive Crash
  | settings
  | logLevel
  | overflow
  | entropy
  | isDirectory
  | noDirectory
  | notDirectory
  | nameTooLong
  /-- A path that leads upwards at its end cannot be replaced. -/
  | busy
  | noFileName
  deriving DecidableEq, Repr

def Crash.message : Crash → String
  | settings => "The settings are invalid"
  | logLevel => "The log level is unknown"
  | overflow => "A number does not fit"
  | entropy => "No more random bytes"
  | isDirectory => "The path is a directory"
  | noDirectory => "A directory on the path is missing"
  | notDirectory => "A file stands where the path needs a directory"
  | nameTooLong => "A name on the path is too long"
  | busy => "The path cannot be replaced"
  | noFileName => "The path has no file name"

/-- What is written in the end. -/
inductive Written
  | nothing
  /-- The text stays in the scratch file. -/
  | scratch (text : String)
  | wallet (text : String)
  deriving DecidableEq, Repr

structure Outcome where
  exitCode : Nat
  output : String := ""
  notices : List Notice := []
  /-- Says what is wrong with the arguments. -/
  usage : Option UsageError := none
  crash : Option Crash := none
  written : Written := .nothing

/-- What is found at a path. -/
inductive Found
  | nothing
  /-- Nothing, and a directory on the way is missing as well. -/
  | noDirectory
  /-- A file stands on the way. -/
  | notDirectory
  | nameTooLong
  /-- No file can have such a name. -/
  | unnameable
  | directory
  | file (content : ByteArray)

/-- Why no file can be written at a path. -/
def Found.refusal? : Found → Option Crash
  | nothing | file _ => none
  | noDirectory => some .noDirectory
  | notDirectory => some .notDirectory
  | nameTooLong => some .nameTooLong
  | unnameable => some .noFileName
  | directory => some .isDirectory

/-- What is found at the paths of a plan. -/
structure Surroundings where
  wallet : Found
  scratch : Found

structure Plan where
  path : String
  network : Network
  level : Level
  name : String
  args : List String
  numbers : NumberReader

def pathSwitch : Switch := { long := "--state", short := some 's', takesValue := true }

def networkSwitch : Switch := { long := "--network", short := some 'n', takesValue := true }

def levelSwitch : Switch := { long := "--log-level", short := some 'l', takesValue := true }

/-- The slashes in front of a path: one or, where there are just two, both. -/
def rootOf : List Char → String
  | '/' :: '/' :: '/' :: _ => "/"
  | '/' :: '/' :: _ => "//"
  | '/' :: _ => "/"
  | _ => ""

/-- The components of a path; empty ones and `.` are passed over. -/
def components (path : String) : List String :=
  ((path.toList.splitOn '/').map String.ofList).filter fun p => p ≠ "" ∧ p ≠ "."

/-- A path without components that are passed over. -/
def cleanPath (s : String) : String :=
  let path := rootOf s.toList ++ "/".intercalate (components s)
  if path.isEmpty then "." else path

namespace Outcome

def ofUsage (e : UsageError) : Outcome := { exitCode := 2, usage := some e }

def ofCrash (c : Crash) : Outcome := { exitCode := 1, crash := some c }

def ofFailure (message : String) : Outcome := { exitCode := 1, notices := [.failed message] }

/-- Keeps the notices of a level and above. -/
def atLevel (level : Level) (o : Outcome) : Outcome :=
  { o with notices := o.notices.filter fun n => level.rank ≤ n.level.rank }

def withNotices (before : List Notice) (o : Outcome) : Outcome :=
  { o with notices := before ++ o.notices }

/-- Breaks off after what was printed so far. -/
def breakOff (o : Outcome) (c : Crash) (written : Written) : Outcome :=
  { o with exitCode := 1, crash := some c, written }

/-- What is printed where there is no terminal. -/
def plainOutput (o : Outcome) : String := Text.withoutControls o.output

end Outcome

/-- The words of a line behind its leading switches. -/
def command (words : Words) : Except UsageError (String × List String) :=
  match words.words with
  | [] => .error .noCommand
  | name :: args => if Command.isName name then .ok (name, args) else .error (.unknownCommand name)

/-- The level that was asked for; an empty one means the level of the settings. -/
def level? (settings : Settings) (words : Words) : Option Level :=
  let asked := (words.value? levelSwitch.long).getD ""
  Level.ofName? (Text.upper (if asked.isEmpty then settings.logLevel else asked))

/-- Numbers may be given as in the texts of a wallet file. -/
def readAsInFiles : NumberReader := fun w => (Text.readInteger w).toOption

/-- Plans a run, or gives the outcome where it ends before the command is read. -/
def plan (environment : EnvFile.Environment) (file : Option String) (args : List String)
    (numbers : NumberReader := readAsInFiles) : Except Outcome Plan := do
  let words ← (split [pathSwitch, networkSwitch, levelSwitch] false args).mapError Outcome.ofUsage
  let (name, rest) ← (command words).mapError Outcome.ofUsage
  match Settings.read environment file with
  | none => throw (.ofCrash .settings)
  | some settings =>
    match level? settings words with
    | none => throw (.ofCrash .logLevel)
    | some level =>
      let path := cleanPath ((words.value? pathSwitch.long).getD settings.path)
      match words.value? networkSwitch.long with
      | none => return ⟨path, settings.network, level, name, rest, numbers⟩
      | some asked =>
        match Network.ofName? asked with
        | some network => return ⟨path, network, level, name, rest, numbers⟩
        | none => throw ((Outcome.ofFailure ("Invalid network: " ++ asked)).atLevel level)

/-- A refusal of the wallet that no command answers for. -/
def crash? : WalletError → Option Crash
  | .encoding _ | .spend (.digest (.encoding _)) | .feeRateOverflow => some .overflow
  | .entropyExhausted => some .entropy
  | _ => none

namespace Plan

def scratchPath (p : Plan) : String := p.path ++ ".tmp"

/-- The last component of the path. -/
def fileName? (p : Plan) : Option String := (components p.path).getLast?

/-- Writes the scratch file and puts it in the place of the wallet file. -/
def save (p : Plan) (around : Surroundings) (text : String) (done : Outcome) : Outcome :=
  match p.fileName?, around.scratch.refusal? with
  | none, _ => done.breakOff .noFileName .nothing
  | _, some c => done.breakOff c .nothing
  | some name, none =>
    if name = ".." then done.breakOff .busy (.scratch text)
    else
      match around.wallet with
      | .directory => done.breakOff .isDirectory (.scratch text)
      | _ => { done with written := .wallet text, notices := done.notices ++ [.saved p.path] }

/-- Writes a new wallet, in place of another one only by force. -/
def create (p : Plan) (around : Surroundings) (force : Bool) : Outcome :=
  let fresh :=
    let o := p.save around (Wallet.fileText {}) { exitCode := 0 }
    if o.crash.isSome then o
    else { o with
      output := s!"Initialized {p.path}\n", notices := o.notices ++ [.initialized p.path] }
  match around.wallet, force with
  | .nameTooLong, _ => .ofCrash .nameTooLong
  | .file _, false | .directory, false => .ofFailure (FileError.message (.present p.path))
  | _, _ => fresh

def load (p : Plan) : Found → Except Outcome Wallet
  | .directory => .error (.ofCrash .isDirectory)
  | .nameTooLong => .error (.ofCrash .nameTooLong)
  | .nothing | .noDirectory | .notDirectory | .unnameable =>
    .error (.ofFailure (FileError.message (.missing p.path)))
  | .file content =>
    (Wallet.load p.path (some content)).mapError fun e => Outcome.ofFailure e.message

/-- Performs a command on a wallet. -/
def perform (p : Plan) (around : Surroundings) (w : Wallet) (entropy : List Bytes) (c : Command) :
    Outcome :=
  let (result, after) := (c.perform p.network).runOn { wallet := w, entropy }
  let outcome := match result with
    | .ok lines =>
      let printed : Outcome := { exitCode := 0, output := "".intercalate (lines.map (· ++ "\n")) }
      if c.saves then p.save around after.wallet.fileText printed else printed
    | .error e =>
      match crash? e with
      | some crash => .ofCrash crash
      | none => .ofFailure e.message
  outcome.withNotices after.notices

def execute (p : Plan) (around : Surroundings) (entropy : List Bytes) : Outcome :=
  match Command.read p.numbers p.name p.args with
  | .error e => .ofUsage e
  | .ok (.init force) => (p.create around force).atLevel p.level
  | .ok c =>
    match p.load around.wallet with
    | .error o => o.atLevel p.level
    | .ok w => (p.perform around w entropy c).atLevel p.level

end Plan
end Taproot.CommandLine
