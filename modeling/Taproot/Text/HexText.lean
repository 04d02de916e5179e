import Taproot.Text.Hex
import Taproot.Text.Lowercase

/-! # Hex texts that are kept as written

Keys, images and transaction ids are held as the hex texts that came in, in lower case but with the
blanks between their bytes. Every such text can be read.
-/
namespace Taproot

/-- What keeps a text from being 32 bytes in hex. -/
inductive HexFault
  | notHex (text : String)
  | wrongLength (length : Nat)
  deriving DecidableEq, Repr

def HexFault.message : HexFault → String
  | notHex text => "Invalid hex: " ++ text
  | wrongLength n => s!"Expected 32 bytes, got {n}"

structure HexText where
  text : String
  readable : (Text.readHex text.toList).isSome = true
  deriving DecidableEq, Repr

namespace HexText

def bytes (h : HexText) : Bytes := (Text.readHex h.text.toList).get h.readable

def ofBytes (b : Bytes) : HexText := ⟨b.hex, by simp [Text.readHex_hex]⟩

@[simp] theorem text_ofBytes (b : Bytes) : (ofBytes b).text = b.hex := rfl

@[simp] theorem bytes_ofBytes (b : Bytes) : (ofBytes b).bytes = b := by
  simp [bytes, ofBytes, Text.readHex_hex]

/-- A text that is read and stands for 32 bytes, put into lower case. -/
def ofString (s : String) : Except HexFault HexText :=
  let t := Text.lower s
  match h : Text.readHex t.toList with
  | none => .error (.notHex t)
  | some b => if b.length = 32 then .ok ⟨t, by simp [h]⟩ else .error (.wrongLength b.length)

end HexText
end Taproot
