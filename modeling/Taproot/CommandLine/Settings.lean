import Taproot.Address.Basic
import Taproot.CommandLine.EnvFile
import Taproot.Text.Lowercase

/-! # Settings

The wallet file, the network and the log level are set by variables of the environment or of the
file `.env`; the environment wins. Names of variables are read in any case, and of several that
differ in case the last one counts.
-/
namespace Taproot.CommandLine

structure Settings where
  path : String := "state.json"
  network : Network := .regtest
  logLevel : String := "INFO"
  deriving DecidableEq, Repr

namespace Settings

/-- Stands before the names of all variables. -/
def variablePrefix : String := "tapwallet_"

def fields : List String := ["state_file", "network", "log_level"]

def variableNames : List String := fields.map (variablePrefix ++ ·)

/-- Assignments under names in small letters, in which several may become one. -/
def lowerNames (v : EnvFile.Assignments) : EnvFile.Assignments :=
  v.foldl (fun done e => done.set (Text.lower e.1) e.2) []

/-- A variable of the file that has a text must be one of the settings. A field's own name is passed
over. -/
def isForeign (e : String × Option String) : Bool :=
  !(e.2.getD "").isEmpty && !variableNames.contains e.1 && !fields.contains e.1

def network? : Option String → Option Network
  | none => some .regtest
  | some name => Network.ofName? name

/-- `none` where a variable is foreign or the network unknown. -/
def read (environment : EnvFile.Environment) (file : Option String) : Option Settings :=
  let around := lowerNames (environment.map fun e => (e.1, some e.2))
  let assigned := match file with
    | some text => lowerNames (EnvFile.read environment text)
    | none => []
  let find (field : String) : Option String :=
    let name := variablePrefix ++ field
    (around.lookup name).join.or (assigned.lookup name).join
  if assigned.any isForeign then none
  else (network? (find "network")).map fun network =>
    ⟨(find "state_file").getD "state.json", network, (find "log_level").getD "INFO"⟩

end Settings
end Taproot.CommandLine
