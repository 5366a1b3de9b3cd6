import TemplateManifest.Number.Decimal
import TemplateManifest.Toml.Text
import TemplateManifest.Toml.Value

/-!
Numbers, truth values, dates and times of TOML documents, each a word of its own.
-/

namespace TemplateManifest

namespace Toml

/-- The digits of a run in which single underscores stand between digits only. -/
def grouped? (isDigit : Char → Bool) : List Char → Option (List Char)
  | [] => none
  | [c] => if isDigit c then some [c] else none
  | c :: '_' :: text => if isDigit c then (grouped? isDigit text).map (c :: ·) else none
  | c :: text => if isDigit c then (grouped? isDigit text).map (c :: ·) else none

/-- The digits of a decimal that starts with a zero only if it is zero. -/
def wholeDigits? (text : List Char) : Option (List Char) :=
  match grouped? Char.isDigit text with
  | some ('0' :: _ :: _) => none
  | digits => digits

/-- The value of digits in a base up to sixteen. -/
def baseValue (base : Nat) (digits : List Char) : Int :=
  (digits.foldl (fun value c => base * value + (hexValue? c).getD 0) 0 : Nat)

/-- An integer in the base that its second letter names. -/
def basedInteger? : List Char → Option Int
  | '0' :: 'x' :: text => (grouped? (fun c => (hexValue? c).isSome) text).map (baseValue 16)
  | '0' :: 'o' :: text => (grouped? (fun c => '0' ≤ c && c ≤ '7') text).map (baseValue 8)
  | '0' :: 'b' :: text => (grouped? (fun c => c = '0' || c = '1') text).map (baseValue 2)
  | _ => none

/-- An integer. -/
def integer? (word : List Char) : Option Int :=
  let (negative, digits) := splitSign word
  match wholeDigits? digits with
  | some digits =>
    let value : Int := decimalValue digits
    some (if negative then -value else value)
  | none => basedInteger? word

/-- A digit, or an underscore between digits. -/
def isDigitOrGroup (c : Char) : Bool := c.isDigit || c = '_'

/-- The fraction of a number, if there is one, and what follows. -/
def fraction? : List Char → Option (List Char × List Char)
  | '.' :: text =>
    (grouped? Char.isDigit (text.takeWhile isDigitOrGroup)).map
      fun digits => (digits, text.dropWhile isDigitOrGroup)
  | text => some ([], text)

/-- The exponent of a number, if there is one. -/
def exponent? : List Char → Option Int
  | [] => some 0
  | c :: text =>
    if c = 'e' ∨ c = 'E' then
      let (negative, digits) := splitSign text
      (grouped? Char.isDigit digits).map fun digits =>
        let value : Int := decimalValue digits
        if negative then -value else value
    else none

/-- A number with a fraction or an exponent, infinity, or the number that is none. -/
def float? (word : List Char) : Option Value := do
  let (negative, text) := splitSign word
  if text = ['i', 'n', 'f'] then return .float (.infinite negative)
  if text = ['n', 'a', 'n'] then return .float .nan
  let whole ← wholeDigits? (text.takeWhile isDigitOrGroup)
  let (fraction, rest) ← fraction? (text.dropWhile isDigitOrGroup)
  let exponent ← exponent? rest
  match Double.ofDecimal negative (decimalValue (whole ++ fraction))
      (exponent - fraction.length) with
  | .infinite _ => return .excess
  | value => return .float value

/-- Two digits up to a limit, and what follows. -/
def twoDigits? (limit : Nat) : List Char → Option (Nat × List Char)
  | a :: b :: text =>
    let value := decimalValue [a, b]
    if a.isDigit && b.isDigit && decide (value ≤ limit) then some (value, text) else none
  | _ => none

/-- The text after an expected character. -/
def after? (c : Char) : List Char → Option (List Char)
  | [] => none
  | d :: text => if d = c then some text else none

/-- The number of days of a month. -/
def daysIn (year month : Nat) : Nat :=
  if month = 2 then
    if year % 4 = 0 ∧ (year % 100 ≠ 0 ∨ year % 400 = 0) then 29 else 28
  else if month = 4 ∨ month = 6 ∨ month = 9 ∨ month = 11 then 30
  else 31

/-- A date, and what follows. -/
def date? (text : List Char) : Option (List Char × List Char) := do
  let (century, rest) ← twoDigits? 99 text
  let (year, rest) ← twoDigits? 99 rest
  let (month, rest) ← twoDigits? 12 (← after? '-' rest)
  let (day, rest) ← twoDigits? 31 (← after? '-' rest)
  if month = 0 ∨ day = 0 ∨ daysIn (100 * century + year) month < day then none
  return (text.take 10, rest)

/-- The fraction of a second, and what follows. Nine digits count, and zeros at the end do not. -/
def secondFraction? : List Char → Option (List Char × List Char)
  | '.' :: text =>
    let digits := text.takeWhile Char.isDigit
    let shown := ((digits.take 9).reverse.dropWhile (· = '0')).reverse
    if digits.isEmpty then none
    else some (if shown.isEmpty then [] else '.' :: shown, text.dropWhile Char.isDigit)
  | text => some ([], text)

/-- A time, and what follows. Seconds that are left out are none. -/
def time? (text : List Char) : Option (List Char × List Char) := do
  let (_, rest) ← twoDigits? 23 text
  let (_, rest) ← twoDigits? 59 (← after? ':' rest)
  match rest with
  | ':' :: rest =>
    let (_, rest) ← twoDigits? 60 rest
    let (fraction, rest) ← secondFraction? rest
    return (text.take 8 ++ fraction, rest)
  | rest => return (text.take 5 ++ [':', '0', '0'], rest)

/-- A distance from universal time that ends the text. -/
def offset? : List Char → Option (List Char)
  | [] => some []
  | ['Z'] | ['z'] => some ['Z']
  | sign :: text => do
    if !(sign = '+' || sign = '-') then none
    let (hours, rest) ← twoDigits? 23 text
    let (minutes, rest) ← twoDigits? 59 (← after? ':' rest)
    if !rest.isEmpty then none
    return (if hours = 0 ∧ minutes = 0 then '+' else sign) :: text.take 5

/-- A date, a time, or both, written with a capital letter between them. -/
def moment? (word : List Char) : Option (List Char) :=
  match date? word with
  | some (date, []) => some date
  | some (date, separator :: rest) => do
    if !(separator = 'T' || separator = 't' || separator = ' ') then none
    let (time, rest) ← time? rest
    let offset ← offset? rest
    return date ++ 'T' :: (time ++ offset)
  | none =>
    match time? word with
    | some (time, []) => some time
    | _ => none

/-- The value that a word spells. -/
def wordValue? (w : List Char) : Option Value :=
  if w = "true".toList then some (.boolean true)
  else if w = "false".toList then some (.boolean false)
  else
    match integer? w with
    | some value => some (.ofInteger value)
    | none =>
      match float? w with
      | some value => some value
      | none => (moment? w).map fun text => .moment (String.ofList text)

end Toml

end TemplateManifest
