import Taproot.Address.Basic
import Taproot.Descriptor.Error
import Taproot.Spend.Path
import Taproot.Wallet.File

/-! # Refused operations

Every reason for which an operation on the wallet is refused.
-/
namespace Taproot

inductive WalletError
  | key (e : KeyError)
  | descriptor (e : DescriptorError)
  | address (e : AddressError)
  | encoding (e : EncodingError)
  | spend (e : SpendError)
  | invalid (report : Report)
  /-- A locktime is set, and no input has a relative timelock. -/
  | locktimeUnenforced
  | shortOfFunds (available : Int) (required : Nat)
  | severalRemainders
  | missingInput (index : Int)
  | missingOutput (index : Int)
  | doubleSpend (outpoint : String)
  | unknownUtxo (index : Int)
  | noInbound
  | otherTxid (expected given : String)
  | notABlockHeight (height : Int)
  | relativeHeight (height : Int)
  | negativeFee
  | badNetwork (name : String)
  | noHeight
  /-- A fee rate is too large for a binary64 number. -/
  | feeRateOverflow
  | entropyExhausted
  deriving DecidableEq, Repr

namespace WalletError

/-- An integer that is shown cannot be written; it is refused as one that cannot be read is. -/
def unwritable : WalletError := descriptor (.numeralTooLong .writing)

/-- The integers in the message that an operation was given. -/
def numbers : WalletError → List Int
  | missingInput n | missingOutput n | unknownUtxo n | notABlockHeight n | relativeHeight n => [n]
  | _ => []

def message : WalletError → String
  | key e => e.message
  | descriptor e => e.message
  | address e => e.message
  | encoding _ => TransactionError.message (.encoding .fieldOverflow)
  | spend (.key e) => e.message
  | spend (.digest e) => e.message
  | spend (.noPath e) => e.message
  | invalid report => report.message
  | locktimeUnenforced =>
    "Locktime requires at least one input with relative timelock enabled " ++
      "(use a relative height of 0 to only enable locktime)"
  | shortOfFunds available required =>
    s!"Not enough funds: inputs provide {available} sat, outputs and fee require {required} sat"
  | severalRemainders => "At most one output may omit its value"
  | missingInput index => s!"Input #{index} is missing"
  | missingOutput index => s!"Output #{index} is missing"
  | doubleSpend outpoint => s!"UTXO {outpoint} is already bound to an input"
  | unknownUtxo index => s!"No UTXO at index {index}"
  | noInbound => "Inbound address is missing (set one with 'addr set')"
  | otherTxid expected given => s!"Transaction id {given} does not match the draft ({expected})"
  | notABlockHeight height =>
    s!"Locktime {height} is not a block height (must be below {heightLimit})"
  | relativeHeight height =>
    s!"Relative timelock {height} is out of range (0 to {maxRelativeHeight} blocks)"
  | negativeFee => "Fee must not be negative"
  | badNetwork name => Text.quoted name ++ " is not a valid NetworkType"
  | noHeight => "Give a block height or --clear"
  | feeRateOverflow => "The fee rate is too large"
  | entropyExhausted => "entropy list is empty"

end WalletError
end Taproot
