import Taproot.Json.Check
import Taproot.Json.Printer
import Taproot.Json.Reader
import Taproot.Wallet.Basic

/-! # Wallet files

The JSON form of the wallet and its parts. Files are written indented; what is read is checked
against the shape of the wallet, and a report lists all that is wrong.
-/
namespace Taproot

open Json

/-- All that is wrong with a value that should be of a model. -/
structure Report where
  model : String
  issues : List Issue
  deriving DecidableEq, Repr

def Report.message (r : Report) : String :=
  let n := r.issues.length
  s!"{n} validation " ++ (if n = 1 then "error" else "errors") ++ s!" for {r.model}"

def Json.Check.report {α : Type} (model : String) : Check α → Except Report α
  | .pass a => .ok a
  | .fail issues => .error ⟨model, issues⟩

def Json.ofNat (n : Nat) : Json := .int n

/-- `null` where there is nothing. -/
def Json.ofOption {α : Type} (f : α → Json) : Option α → Json
  | some a => f a
  | none => .null

def HexText.toJson (h : HexText) : Json := .str h.text

def Slots.toJson {α : Type} (f : α → Json) (s : Slots α) : Json :=
  .obj (s.map fun e => (toString e.1, f e.2))

def checkSlots {α : Type} (check : Json → Check α) (j : Json) : Check (Slots α) :=
  (checkTable check j).map Slots.ofList

namespace KeyPair

def toJson (p : KeyPair) : Json :=
  .obj [("secret", ofOption HexText.toJson p.secret), ("public", p.publicKey.toJson),
    ("active", .bool p.active)]

def check : Json → Check KeyPair :=
  checkObject fun j => KeyPair.mk <$> optional "secret" none (checkNullable checkHex) j
    <*> required "public" checkHex j <*> optional "active" true checkBool j

end KeyPair

namespace ImagePair

def toJson (p : ImagePair) : Json :=
  .obj [("preimage", ofOption HexText.toJson p.preimage), ("image", p.image.toJson),
    ("active", .bool p.active)]

def check : Json → Check ImagePair :=
  checkObject fun j => ImagePair.mk <$> optional "preimage" none (checkNullable checkHex) j
    <*> required "image" checkHex j <*> optional "active" true checkBool j

end ImagePair

namespace Store

def toJson (s : Store) : Json :=
  .obj [("keys", .arr (s.keys.map KeyPair.toJson)), ("images", .arr (s.images.map ImagePair.toJson))]

def check : Json → Check Store :=
  checkObject fun j => Store.mk <$> optional "keys" [] (checkList KeyPair.check) j
    <*> optional "images" [] (checkList ImagePair.check) j

end Store

namespace Utxo

def toJson (u : Utxo) : Json :=
  .obj [("txid", u.txid.toJson), ("vout", ofNat u.vout), ("value", ofNat u.value),
    ("descriptor", .str u.descriptor)]

def check : Json → Check Utxo :=
  checkObject fun j => Utxo.mk <$> required "txid" checkHex j <*> required "vout" checkNatural j
    <*> required "value" checkNatural j <*> required "descriptor" checkString j

def ofJson (j : Json) : Except Report Utxo := (check j).report "Utxo"

end Utxo

namespace DraftInput

def toJson (i : DraftInput) : Json :=
  .obj [("utxo", ofOption Utxo.toJson i.utxo), ("sequence", ofOption ofNat i.sequence)]

def check : Json → Check DraftInput :=
  checkObject fun j => DraftInput.mk <$> optional "utxo" none (checkNullable Utxo.check) j
    <*> optional "sequence" none (checkNullable (checkNaturalUpTo maxRelativeHeight)) j

end DraftInput

namespace DraftOutput

def toJson (o : DraftOutput) : Json :=
  .obj [("descriptor", .str o.descriptor), ("value", ofOption ofNat o.value)]

def check : Json → Check DraftOutput :=
  checkObject fun j => DraftOutput.mk <$> required "descriptor" checkString j
    <*> optional "value" none (checkNullable checkNatural) j

def ofJson (j : Json) : Except Report DraftOutput := (check j).report "TxOutput"

end DraftOutput

namespace Draft

def toJson (d : Draft) : Json :=
  .obj [("inputs", d.inputs.toJson DraftInput.toJson),
    ("outputs", d.outputs.toJson DraftOutput.toJson), ("fee", ofNat d.fee),
    ("locktime", ofOption ofNat d.locktime)]

def check : Json → Check Draft :=
  checkObject fun j => Draft.mk <$> optional "inputs" [] (checkSlots DraftInput.check) j
    <*> optional "outputs" [] (checkSlots DraftOutput.check) j
    <*> optional "fee" 0 checkNatural j <*> optional "locktime" none (checkNullable checkNatural) j

def ofJson (j : Json) : Except Report Draft := (check j).report "TransactionDraft"

end Draft

namespace Wallet

def toJson (w : Wallet) : Json :=
  .obj [("store", w.store.toJson), ("inbound", ofOption .str w.inbound),
    ("utxos", .arr (w.utxos.map Utxo.toJson)), ("draft", w.draft.toJson)]

def check : Json → Check Wallet :=
  checkObject fun j => Wallet.mk <$> optional "store" {} Store.check j
    <*> optional "inbound" none (checkNullable checkString) j
    <*> optional "utxos" [] (checkList Utxo.check) j <*> optional "draft" {} Draft.check j

def ofJson (j : Json) : Except Report Wallet := (check j).report "WalletState"

/-- The text of the wallet file. -/
def fileText (w : Wallet) : String := w.toJson.indented 0 ++ "\n"

def ofFileText (text : String) : Except Report Wallet :=
  match Json.read? .file text with
  | some j => ofJson j
  | none => .error ⟨"WalletState", [⟨[], .invalidJson⟩]⟩

end Wallet

/-- Why a wallet file is not read, or not written. -/
inductive FileError
  | missing (path : String)
  | present (path : String)
  | notText (path : String)
  | invalid (path : String) (report : Report)
  deriving DecidableEq, Repr

def FileError.message : FileError → String
  | missing path => s!"State file {path} does not exist (run 'init' first)"
  | present path => s!"State file {path} already exists (use --force to overwrite)"
  | notText path => s!"State file {path} is corrupt: not UTF-8 text"
  | invalid path report => s!"State file {path} is corrupt: {report.message}"

/-- The wallet in a file of the given content, where there is a file. -/
def Wallet.load (path : String) : Option ByteArray → Except FileError Wallet
  | none => .error (.missing path)
  | some content =>
    match String.fromUTF8? content with
    | none => .error (.notText path)
    | some text => (ofFileText text).mapError (.invalid path)

end Taproot
