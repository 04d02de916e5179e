import Taproot.Address.Bech32
import Taproot.Text.Quoted

/-! # Addresses

The address of an output key is witness version 1 and the key in bech32m, under the label of a
network.
-/
namespace Taproot

inductive Network
  | mainnet
  | testnet
  | signet
  | regtest
  deriving DecidableEq, Repr

namespace Network

def name : Network → String
  | mainnet => "mainnet"
  | testnet => "testnet"
  | signet => "signet"
  | regtest => "regtest"

def ofName? (s : String) : Option Network :=
  [mainnet, testnet, signet, regtest].find? (·.name == s)

theorem ofName?_name (n : Network) : ofName? n.name = some n := by cases n <;> decide

def label : Network → List Char
  | mainnet => ['b', 'c']
  | testnet | signet => ['t', 'b']
  | regtest => ['b', 'c', 'r', 't']

end Network

inductive AddressError
  | unknownNetwork (name : String)
  | keyLength (length : Nat)
  | notTaproot (network : Network) (address : String)
  deriving DecidableEq, Repr

def AddressError.message : AddressError → String
  | unknownNetwork name => "Unknown network: " ++ name
  | keyLength n => s!"Invalid x-only output key length: {n}"
  | notTaproot network address => s!"Not a {network.name} P2TR address: {address}"

namespace Address

/-- Version and program of a segregated witness address. -/
def witnessProgram? (network : Network) (address : String) : Option (Nat × Bytes) := do
  let (form, label, data) ← Bech32.decode? address.toList
  if label ≠ network.label then none
  match data with
  | [] => none
  | version :: rest =>
    let program ← Bech32.toBytes? rest
    if program.length < 2 ∨ 40 < program.length ∨ 16 < version then none
    if version = 0 ∧ program.length ≠ 20 ∧ program.length ≠ 32 then none
    if form ≠ (if version = 0 then .bech32 else .bech32m) then none
    return (version, program)

def ofKey (network : Network) (key : Bytes) : String :=
  String.ofList (Bech32.encode .bech32m network.label (1 :: Bech32.ofBytes key))

def toKey (network : Network) (address : String) : Except AddressError Bytes :=
  match witnessProgram? network address with
  | some (1, program) =>
    if program.length = 32 then .ok program else .error (.notTaproot network address)
  | _ => .error (.notTaproot network address)

def network (name : String) : Except AddressError Network :=
  match Network.ofName? name with
  | some n => .ok n
  | none => .error (.unknownNetwork name)

/-- The address of a key on the network of a name; the key is looked at first. -/
def encode (name : String) (key : Bytes) : Except AddressError String := do
  if key.length ≠ 32 then throw (.keyLength key.length)
  return ofKey (← network name) key

/-- The key of an address on the network of a name. -/
def decode (name address : String) : Except AddressError Bytes := do
  toKey (← network name) address

end Address
end Taproot
