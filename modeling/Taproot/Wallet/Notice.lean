/-! # Notices

What the wallet tells its user besides the answers, and how important it is.
-/
namespace Taproot

inductive Level
  | trace
  | debug
  | info
  | success
  | warning
  | error
  | critical
  deriving DecidableEq, Repr

namespace Level

def all : List Level := [trace, debug, info, success, warning, error, critical]

def name : Level → String
  | trace => "TRACE"
  | debug => "DEBUG"
  | info => "INFO"
  | success => "SUCCESS"
  | warning => "WARNING"
  | error => "ERROR"
  | critical => "CRITICAL"

def rank : Level → Nat
  | trace => 0
  | debug => 1
  | info => 2
  | success => 3
  | warning => 4
  | error => 5
  | critical => 6

def ofName? (s : String) : Option Level := all.find? fun l => l.name == s

end Level

/-- Texts in notices are keys, images, outpoints, descriptors and ids as they are shown. -/
inductive Notice
  | generatedKeys (count : Int)
  | addedSecret (key : String)
  | importedKey (key : String)
  | importedPublicKey (key : String)
  | generatedImages (count : Int)
  | addedPreimage (image : String)
  | importedPreimage (image : String)
  | importedImage (image : String)
  | keyActive (key : String) (active : Bool)
  | imageActive (image : String) (active : Bool)
  | inboundSet (descriptor : String)
  | newUtxo (index : Nat) (outpoint : String) (value : Nat)
  | inputSpends (index : Int) (outpoint : String)
  | relativeTimelock (index height : Int)
  | relativeTimelockDisabled (index : Int)
  /-- No input is left that would let the locktime apply. -/
  | locktimeIdle
  | outputPays (index : Int) (value : Option Nat) (descriptor : String)
  | locktimeSet (height : Int)
  | committed (leaves : Nat) (outputKey : String)
  | keyPath (input : Int)
  | scriptPath (input : Int) (leaf : Nat)
  | built (txid : String) (virtualSize : Nat) (feeRate : String)
  | chained (outpoint : String)
  | finalized (txid : String)
  | saved (path : String)
  | initialized (path : String)
  | failed (message : String)
  deriving DecidableEq, Repr

def showActive (active : Bool) : String := if active then "active" else "passive"

namespace Notice

def level : Notice → Level
  | locktimeIdle => .warning
  | committed .. | keyPath _ | scriptPath .. | saved _ => .debug
  | failed _ => .error
  | _ => .info

def message : Notice → String
  | generatedKeys count => s!"Generated {count} key pair(s)"
  | addedSecret key => s!"Added secret to public-only key {key}"
  | importedKey key => s!"Imported key {key}"
  | importedPublicKey key => s!"Imported public-only key {key}"
  | generatedImages count => s!"Generated {count} image(s)"
  | addedPreimage image => s!"Added preimage to image {image}"
  | importedPreimage image => s!"Imported preimage of {image}"
  | importedImage image => s!"Imported image {image} without preimage"
  | keyActive key active => s!"Key {key} is now {showActive active}"
  | imageActive image active => s!"Image {image} is now {showActive active}"
  | inboundSet descriptor => s!"Inbound descriptor set to {descriptor}"
  | newUtxo index outpoint value => s!"New UTXO #{index}: {outpoint} ({value} sat)"
  | inputSpends index outpoint => s!"Input #{index} spends {outpoint}"
  | relativeTimelock index height =>
    s!"Input #{index} relative timelock set to {height} block(s)"
  | relativeTimelockDisabled index => s!"Input #{index} relative timelock disabled"
  | locktimeIdle => "No input enables relative timelocks anymore, the locktime cannot apply"
  | outputPays index (some value) descriptor => s!"Output #{index} pays {value} to {descriptor}"
  | outputPays index none descriptor => s!"Output #{index} pays the remainder to {descriptor}"
  | locktimeSet height => s!"Locktime set to height {height}"
  | committed leaves outputKey =>
    s!"Compiled taptree with {leaves} leaf/leaves, output key {outputKey}"
  | keyPath input => s!"Input #{input}: key path spend"
  | scriptPath input leaf => s!"Input #{input}: script path spend via leaf #{leaf}"
  | built txid virtualSize feeRate =>
    s!"Built transaction {txid} ({virtualSize} vB, {feeRate} sat/vB)"
  | chained outpoint => s!"Chained {outpoint} into input #0 of the new draft"
  | finalized txid => s!"Finalized transaction {txid}"
  | saved path => s!"Saved state to {path}"
  | initialized path => s!"Initialized empty state at {path}"
  | failed message => message

/-- The integers in the message that may have any number of digits; the others are counts and places
of what is there. -/
def numbers : Notice → List Int
  | generatedKeys n | generatedImages n | relativeTimelockDisabled n | locktimeSet n => [n]
  | inputSpends index _ => [index]
  | newUtxo _ _ value => [(value : Int)]
  | relativeTimelock index height => [index, height]
  | outputPays index value _ => index :: value.toList.map Int.ofNat
  | _ => []

end Notice
end Taproot
