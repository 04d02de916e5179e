import Taproot.Address.Basic
import Taproot.Address.Bech32
import Taproot.Bytes
import Taproot.CommandLine.Command
import Taproot.CommandLine.EnvFile
import Taproot.CommandLine.Execution
import Taproot.CommandLine.Run
import Taproot.CommandLine.Settings
import Taproot.CommandLine.Words
import Taproot.Commitment
import Taproot.Descriptor.Basic
import Taproot.Descriptor.Checksum
import Taproot.Descriptor.Error
import Taproot.Descriptor.Parser
import Taproot.Descriptor.Token
import Taproot.Draft.Basic
import Taproot.Draft.Slots
import Taproot.Draft.Timelock
import Taproot.Draft.Value
import Taproot.Hash.Sha256
import Taproot.Hash.Tagged
import Taproot.Json.Basic
import Taproot.Json.Check
import Taproot.Json.Printer
import Taproot.Json.Reader
import Taproot.Key.Curve
import Taproot.Key.Error
import Taproot.Key.Secret
import Taproot.Key.Signature
import Taproot.Key.Tweak
import Taproot.Main
import Taproot.Miniscript.Fragment
import Taproot.Miniscript.Satisfaction
import Taproot.Miniscript.Type
import Taproot.Miniscript.Typed
import Taproot.Number.Binary64
import Taproot.Proofs.CommandLine.Runs
import Taproot.Proofs.CommandLine.TypedNumbers
import Taproot.Proofs.Commitment.PathLengths
import Taproot.Proofs.Commitment.ScriptPath
import Taproot.Proofs.Commitment.TreeBinding
import Taproot.Proofs.Descriptor.BurstErrors
import Taproot.Proofs.Descriptor.Elaboration
import Taproot.Proofs.Descriptor.FaultPlaces
import Taproot.Proofs.Descriptor.Grammar
import Taproot.Proofs.Descriptor.KnownKeys
import Taproot.Proofs.Descriptor.Lexemes
import Taproot.Proofs.Descriptor.Nesting
import Taproot.Proofs.Descriptor.ParserCompleteness
import Taproot.Proofs.Descriptor.ParserSoundness
import Taproot.Proofs.Descriptor.Printing
import Taproot.Proofs.Descriptor.Respacing
import Taproot.Proofs.Descriptor.RoundTrip
import Taproot.Proofs.Descriptor.Scanning
import Taproot.Proofs.Descriptor.Steps
import Taproot.Proofs.Draft.Indices
import Taproot.Proofs.Hash.Collision
import Taproot.Proofs.Hash.NatWords
import Taproot.Proofs.Hash.Windows
import Taproot.Proofs.Json.RoundTrip
import Taproot.Proofs.Key.Group
import Taproot.Proofs.Key.Multiples
import Taproot.Proofs.Key.Primality
import Taproot.Proofs.Key.Scalars
import Taproot.Proofs.Key.Signing
import Taproot.Proofs.Key.Tweaking
import Taproot.Proofs.Miniscript.Behaviour
import Taproot.Proofs.Miniscript.Choices
import Taproot.Proofs.Miniscript.CutSets
import Taproot.Proofs.Miniscript.Dissatisfaction
import Taproot.Proofs.Miniscript.Policy
import Taproot.Proofs.Miniscript.Predicates
import Taproot.Proofs.Miniscript.RequestOrder
import Taproot.Proofs.Miniscript.Requests
import Taproot.Proofs.Miniscript.ScriptBytes
import Taproot.Proofs.Miniscript.ScriptRuns
import Taproot.Proofs.Miniscript.Soundness
import Taproot.Proofs.Miniscript.ThresholdScan
import Taproot.Proofs.Miniscript.TypeRules
import Taproot.Proofs.Miniscript.Typing
import Taproot.Proofs.Miniscript.WitnessShape
import Taproot.Proofs.Miniscript.Witnesses
import Taproot.Proofs.Miniscript.Wrapping
import Taproot.Proofs.Number.Quotients
import Taproot.Proofs.Result
import Taproot.Proofs.Script.Decoding
import Taproot.Proofs.Script.Execution
import Taproot.Proofs.Script.MinimalNumbers
import Taproot.Proofs.Script.NumberValue
import Taproot.Proofs.Spend.Blockers
import Taproot.Proofs.Spend.DigestCalls
import Taproot.Proofs.Spend.LeafChoice
import Taproot.Proofs.Spend.SignedPaths
import Taproot.Proofs.Spend.SigningFaults
import Taproot.Proofs.Store.Growth
import Taproot.Proofs.Store.Secrets
import Taproot.Proofs.Text.HexDigits
import Taproot.Proofs.Text.HexTexts
import Taproot.Proofs.Text.Numerals
import Taproot.Proofs.Transaction.DigestBinding
import Taproot.Proofs.Transaction.Encoding
import Taproot.Proofs.Transaction.Parsing
import Taproot.Proofs.Transaction.Readers
import Taproot.Proofs.Transaction.WireFormat
import Taproot.Proofs.Wallet.Accounting
import Taproot.Proofs.Wallet.Booking
import Taproot.Proofs.Wallet.Building
import Taproot.Proofs.Wallet.Calls
import Taproot.Proofs.Wallet.Changes
import Taproot.Proofs.Wallet.DistinctEntries
import Taproot.Proofs.Wallet.EditOrder
import Taproot.Proofs.Wallet.Effects
import Taproot.Proofs.Wallet.Fees
import Taproot.Proofs.Wallet.Files
import Taproot.Proofs.Wallet.Finalizing
import Taproot.Proofs.Wallet.Outpoints
import Taproot.Proofs.Wallet.PassiveSecrets
import Taproot.Proofs.Wallet.Preparation
import Taproot.Proofs.Wallet.Reachability
import Taproot.Proofs.Wallet.RecordedOutputs
import Taproot.Proofs.Wallet.Records
import Taproot.Proofs.Wallet.Refusals
import Taproot.Proofs.Wallet.StoredDescriptors
import Taproot.Proofs.Wallet.StoredSecrets
import Taproot.Proofs.Wallet.StoredTexts
import Taproot.Proofs.Wallet.SurfacedErrors
import Taproot.Proofs.Wallet.Timelocks
import Taproot.Script.CompactSize
import Taproot.Script.Element
import Taproot.Script.Number
import Taproot.Script.Opcode
import Taproot.Spend.Path
import Taproot.Store.Basic
import Taproot.Text.Alphanumeric
import Taproot.Text.Blank
import Taproot.Text.Capitals
import Taproot.Text.Cased
import Taproot.Text.Controls
import Taproot.Text.Hex
import Taproot.Text.HexText
import Taproot.Text.Integer
import Taproot.Text.Lowercase
import Taproot.Text.Quoted
import Taproot.Text.Ranges
import Taproot.Text.TypedInteger
import Taproot.Text.Unprintable
import Taproot.Transaction.Basic
import Taproot.Transaction.Decode
import Taproot.Transaction.Digest
import Taproot.Transaction.Error
import Taproot.Wallet.Assembly
import Taproot.Wallet.Basic
import Taproot.Wallet.Editing
import Taproot.Wallet.Error
import Taproot.Wallet.File
import Taproot.Wallet.Funding
import Taproot.Wallet.Notice
import Taproot.Wallet.Secrets
import Taproot.Wallet.Session
import Taproot.Wallet.Summary
