import Taproot.Descriptor.Token
import Taproot.Miniscript.Type
import Taproot.Store.Basic
import Taproot.Text.Integer
import Taproot.Text.Quoted

/-! # Refused descriptors

What is wrong with a descriptor, and the token at which it shows.
-/
namespace Taproot

open Miniscript

inductive SyntaxFault
  | expected (c : Char)
  | notTaproot
  | trailingInput
  | leafType (type : ExprType)
  | noFragment
  | unknownWrapper (c : Char)
  | unknownFragment
  | afterRange
  | olderRange
  | noKeys
  | noBranches
  | noInteger
  | noKeyText
  | noImageText
  | offCurve
  | illTyped (cause : TypeError)
  | forbiddenCharacter
  | checksum (expected : List Char)
  deriving DecidableEq, Repr

def SyntaxFault.message : SyntaxFault → String
  | expected c => "Expected " ++ Text.quoted c.toString
  | notTaproot => "Only tr() descriptors are supported"
  | trailingInput => "Unexpected trailing input"
  | leafType type => "Script leaf must be of type B, not " ++ type.text
  | noFragment => "Expected a Miniscript fragment"
  | unknownWrapper c => "Unknown wrapper " ++ Text.quoted c.toString
  | unknownFragment => "Unknown Miniscript fragment"
  | afterRange => "after() takes a block height below 500000000"
  | olderRange => "older() takes a relative block height of 1 to 65535"
  | noKeys => "multi_a() needs at least one key"
  | noBranches => "thresh() needs at least one sub-expression"
  | noInteger => "Expected an integer"
  | noKeyText => "Expected a 64-character hex public key"
  | noImageText => "Expected a 64-character hex hash"
  | offCurve => "Not a valid x-only public key"
  | illTyped cause => cause.message
  | forbiddenCharacter => "Invalid character"
  | checksum sum => "Invalid descriptor checksum, expected " ++ String.ofList sum

inductive DescriptorError
  | syntaxAt (fault : SyntaxFault) (token : Token)
  | unknown (reference : Reference)
  | numeralTooLong (fault : Text.DigitFault)
  deriving DecidableEq, Repr

def DescriptorError.message : DescriptorError → String
  | syntaxAt fault token =>
    s!"{fault.message} (token {Text.quoted token.text} at offset {token.position})"
  | unknown reference => reference.unknownMessage
  | numeralTooLong fault => fault.message

end Taproot
