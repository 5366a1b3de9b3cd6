import TemplateManifest.Number.Double

/-!
Decimal text of double-precision numbers: reading a decimal gives the nearest double, and
writing a double takes the fewest digits that read back to it.
-/

namespace TemplateManifest

/-- The value of a run of decimal digits. -/
def decimalValue (digits : List Char) : Nat :=
  digits.foldl (fun value c => 10 * value + (c.toNat - 48)) 0

/-- Splits off an optional sign; the flag is set by a minus. -/
def splitSign : List Char → Bool × List Char
  | '-' :: text => (true, text)
  | '+' :: text => (false, text)
  | text => (false, text)

/-- The integer that a text spells: an optional sign and at least one decimal digit. -/
def readInteger? (text : List Char) : Option Int :=
  let (negative, digits) := splitSign text
  if digits.isEmpty || !digits.all Char.isDigit then none
  else
    let value : Int := decimalValue digits
    some (if negative then -value else value)

/-- The decimal digits of a natural number. -/
def decimalDigits (n : Nat) : List Char :=
  Nat.toDigits 10 n

/-- The decimal text of an integer. -/
def integerText (n : Int) : String :=
  String.ofList ((if n < 0 then ['-'] else []) ++ decimalDigits n.natAbs)

namespace Double

/-- The exponent part of a decimal: nothing, or `e` and an integer. -/
def readExponent? : List Char → Option Int
  | [] => some 0
  | c :: text => if c = 'e' ∨ c = 'E' then readInteger? text else none

/-- A decimal without its sign: digits around an optional point, at least one of them, and an
    optional exponent. -/
def readUnsigned? (negative : Bool) (text : List Char) : Option Double :=
  let whole := text.takeWhile Char.isDigit
  let rest := text.dropWhile Char.isDigit
  let (fraction, rest) :=
    match rest with
    | '.' :: rest => (rest.takeWhile Char.isDigit, rest.dropWhile Char.isDigit)
    | rest => ([], rest)
  if whole.isEmpty && fraction.isEmpty then none
  else
    (readExponent? rest).map fun exponent =>
      ofDecimal negative (decimalValue (whole ++ fraction)) (exponent - fraction.length)

/-- The double nearest to the number that a text spells, if it spells one. Infinity and the
    number that is none may be spelt out, in letters of either case. -/
def read? (text : List Char) : Option Double :=
  let (negative, rest) := splitSign text
  let word := String.ofList (rest.map Char.toLower)
  if word = "inf" ∨ word = "infinity" then some (.infinite negative)
  else if word = "nan" then some .nan
  else readUnsigned? negative rest

/-- The quotients at both ends of the interval of numbers that round to
    `significand · 2 ^ exponent`, over a common denominator: the lower end, the value, the
    upper end and the denominator. The gap below a power of two is half as wide. -/
def roundingInterval (significand : Nat) (exponent : Int) : Nat × Nat × Nat × Nat :=
  let narrow := significand = twoTo (precision - 1) ∧ leastExponent < exponent
  let below := if narrow then 1 else 2
  let (n, d) := if 0 ≤ exponent then (twoTo exponent.toNat, 1) else (1, twoTo (-exponent).toNat)
  (n * (4 * significand - below), n * (4 * significand), n * (4 * significand + 2), 4 * d)

/-- The least power of ten above a positive quotient, looked for from a first guess. -/
def decimalMagnitude (numerator denominator : Nat) : Int :=
  let below (k : Int) : Bool :=
    if 0 ≤ k then numerator < denominator * tenTo k.toNat
    else numerator * tenTo (-k).toNat < denominator
  let guess : Int := ((Nat.log2 numerator : Int) - Nat.log2 denominator) * 30103 / 100000
  if below (guess - 1) then guess - 1
  else if below guess then guess
  else if below (guess + 1) then guess + 1
  else guess + 2

/-- The decimal with `count` digits nearest to a positive quotient, the upper one at a tie, if
    it lies in the interval. The result is a multiple of ten to the power that comes second. -/
def nearestOnGrid? (low value high denominator : Nat) (closed : Bool) (magnitude : Int)
    (count : Nat) : Option (Nat × Int) :=
  let power := magnitude - count
  let (unit, denominator) :=
    if 0 ≤ power then (denominator * tenTo power.toNat, 1) else (denominator, tenTo (-power).toNat)
  let within (digits : Nat) : Bool :=
    let scaled := digits * unit
    if closed then low * denominator ≤ scaled && scaled ≤ high * denominator
    else low * denominator < scaled && scaled < high * denominator
  let lower := value * denominator / unit
  let remainder := value * denominator % unit
  match within lower, within (lower + 1) with
  | true, true => some (if 2 * remainder < unit then lower else lower + 1, power)
  | true, false => some (lower, power)
  | false, true => some (lower + 1, power)
  | false, false => none

/-- The fewest digits that read back to a positive double, with the power of ten they are
    multiplied by. -/
def shortestDigits (significand : Nat) (exponent : Int) : Nat × Int :=
  let (low, value, high, denominator) := roundingInterval significand exponent
  let magnitude := decimalMagnitude value denominator
  let found := (List.range 17).findSome? fun count =>
    nearestOnGrid? low value high denominator (significand % 2 = 0) magnitude (count + 1)
  found.getD (0, 0)

/-- Digits times a power of ten in full, without an exponent: zeros fill the places up to the
    point, and a fraction ends in no zero. -/
def positionalText (digits : Nat) (power : Int) : List Char :=
  let shown := decimalDigits digits
  if 0 ≤ power then shown ++ List.replicate power.toNat '0'
  else
    let places := (-power).toNat
    let padded := List.replicate (places + 1 - shown.length) '0' ++ shown
    let whole := padded.take (padded.length - places)
    let fraction := ((padded.drop (padded.length - places)).reverse.dropWhile (· = '0')).reverse
    if fraction.isEmpty then whole else whole ++ '.' :: fraction

/-- The shortest decimal that reads back to the number, written without an exponent and
    without an empty fraction. -/
def text : Double → String
  | .finite negative significand exponent =>
    let digits :=
      if significand = 0 then ['0']
      else
        let (digits, power) := shortestDigits significand exponent
        positionalText digits power
    String.ofList ((if negative then ['-'] else []) ++ digits)
  | .infinite negative => if negative then "-inf" else "inf"
  | .nan => "NaN"

end Double

end TemplateManifest
