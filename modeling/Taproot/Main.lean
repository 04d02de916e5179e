import Taproot.CommandLine.Run
import Taproot.Text.TypedInteger

/-! The command line: reads the environment and files, and writes what the outcome of a run says. -/

namespace Taproot.Main

open CommandLine

/-- The settings in the environment, each looked for in capitals and in small letters. -/
def environment : IO EnvFile.Environment := do
  let names := Settings.variableNames.map Text.upper ++ Settings.variableNames
  names.filterMapM fun name => do return (← IO.getEnv name).map fun value => (name, value)

def readText? (path : String) : IO (Option String) := do
  try return some (← IO.FS.readFile path) catch _ => return none

def find (path : String) : IO Found := do
  try return .file (← IO.FS.readBinFile path)
  catch
    | .noFileOrDirectory .. => return .nothing
    | .invalidArgument .. => return .nameTooLong
    | _ => return .directory

/-- Executes with so many draws of random bytes, and with more where they do not suffice. -/
partial def executeWith (draws : Nat) (p : Plan) (around : Surroundings) : IO Outcome := do
  let entropy ← (List.replicate draws ()).mapM fun _ => do
    return (← IO.getRandomBytes 32).toList
  let outcome := p.execute around entropy
  if outcome.crash == some .entropy then executeWith (2 * draws) p around else return outcome

def write (p : Plan) : Written → IO Unit
  | .nothing => return
  | .scratch text => IO.FS.writeFile p.scratchPath text
  | .wallet text => do
    IO.FS.writeFile p.scratchPath text
    IO.FS.rename p.scratchPath p.path

def report (o : Outcome) : IO UInt32 := do
  for n in o.notices do IO.eprintln (n.level.name ++ " | " ++ n.message)
  if let some e := o.usage then IO.eprintln e.message
  let out ← IO.getStdout
  out.putStr (if ← out.isTty then o.output else o.plainOutput)
  if let some c := o.crash then IO.eprintln c.message
  return UInt32.ofNat o.exitCode

def run (args : List String) : IO UInt32 := do
  match plan (← environment) (← readText? ".env") args Text.readTyped? with
  | .error o => report o
  | .ok p =>
    let o ← executeWith 16 p ⟨← find p.path, ← find p.scratchPath⟩
    write p o.written
    report o

end Taproot.Main

def main (args : List String) : IO UInt32 := Taproot.Main.run args
