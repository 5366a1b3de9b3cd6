import TemplateManifest.Process
import TemplateManifest.Text.Quoted

/-!
Random identities in the usual form of 32 hexadecimal digits in five groups.
-/

namespace TemplateManifest

/-- The last `width` hexadecimal digits of a number, with zeros in front. -/
def hexDigits : Nat → Nat → List Char
  | 0, _ => []
  | width + 1, n => hexDigits width (n / 16) ++ [Text.hexDigit (n % 16)]

/-- The identity with given random bits, of which the last 122 count. The first digit of the
    third group and the two top bits of the fourth say that the others are random. -/
def uuidText (bits : Nat) : String :=
  let group (width n : Nat) : String := String.ofList (hexDigits width n)
  let low := bits % 0x4000000000000000
  String.intercalate "-"
    [group 8 (bits >>> 90), group 4 (bits >>> 74), group 4 (0x4000 + (bits >>> 62) % 0x1000),
     group 4 (0x8000 + (low >>> 48)), group 12 low]

/-- Identities that are told apart by what is added to one random number. -/
def Identities.ofSeed (seed : Nat) : Identities where
  extension n := uuidText (seed + 3 * n)
  filter n := uuidText (seed + 3 * n + 1)
  asset n := uuidText (seed + 3 * n + 2)

end TemplateManifest
