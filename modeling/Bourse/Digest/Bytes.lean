import Bourse.Text.Hex
import Bourse.Word

/-! Bytes of words and texts, and their hexadecimal form. -/

namespace Bourse.Digest

/-- The eight bytes of a word, least significant first. -/
def wordBytes (n : Nat) : List UInt8 :=
  (List.range 8).map fun i => UInt8.ofNat (n / 256 ^ i)

def textBytes (s : String) : List UInt8 := s.toUTF8.toList

/-- Two lower-case digits a byte. -/
def hex (bytes : List UInt8) : String :=
  String.ofList
    (bytes.flatMap fun b => [Text.hexDigit (b.toNat / 16), Text.hexDigit (b.toNat % 16)])

end Bourse.Digest
