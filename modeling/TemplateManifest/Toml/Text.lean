/-!
The characters of TOML documents: blanks, comments and line ends, the parts of keys, and the four
forms of strings. A reader of less than a whole text gives what it has read and what is left.
-/

namespace TemplateManifest

namespace Toml

/-- A blank inside a line. -/
def isBlank (c : Char) : Bool := c = ' ' || c = '\t'

/-- The text without leading blanks. -/
def skipBlanks (text : List Char) : List Char := text.dropWhile isBlank

/-- The character may stand in a comment or a string on one line. -/
def isPlain (c : Char) : Bool :=
  c = '\t' || (32 ≤ c.toNat && c.toNat ≠ 127)

/-- The text without leading blanks, comments and line ends, or none when a comment holds a
    character that it must not hold. The flag says that the text starts inside a comment. -/
def skipGap : Bool → List Char → Option (List Char)
  | _, [] => some []
  | _, '\n' :: text => skipGap false text
  | _, '\r' :: '\n' :: text => skipGap false text
  | true, c :: text => if isPlain c then skipGap true text else none
  | false, c :: text =>
    if isBlank c then skipGap false text
    else if c = '#' then skipGap true text
    else some (c :: text)

/-- The text after the rest of a line, which may hold a comment, and after all gaps below. -/
def endLine? (text : List Char) : Option (List Char) :=
  match skipBlanks text with
  | [] => some []
  | '\n' :: rest => skipGap false rest
  | '\r' :: '\n' :: rest => skipGap false rest
  | '#' :: rest => skipGap true rest
  | _ => none

/-- The value of a hexadecimal digit. -/
def hexValue? (c : Char) : Option Nat :=
  if c.isDigit then some (c.toNat - 48)
  else if 'a' ≤ c ∧ c ≤ 'f' then some (c.toNat - 87)
  else if 'A' ≤ c ∧ c ≤ 'F' then some (c.toNat - 55)
  else none

/-- The value of a run of hexadecimal digits. -/
def hexNumber? (digits : List Char) : Option Nat :=
  digits.foldl (fun value c => value.bind fun n => (hexValue? c).map (16 * n + ·)) (some 0)

/-- The character with the number that `count` hexadecimal digits spell. -/
def codePoint? (count : Nat) (text : List Char) : Option (Char × List Char) :=
  if text.length < count then none
  else
    match hexNumber? (text.take count) with
    | none => none
    | some n => if n.isValidChar then some (Char.ofNat n, text.drop count) else none

/-- The character that an escape stands for, after its backslash. -/
def escaped? : List Char → Option (Char × List Char)
  | 'b' :: text => some ('\x08', text)
  | 't' :: text => some ('\t', text)
  | 'n' :: text => some ('\n', text)
  | 'f' :: text => some ('\x0c', text)
  | 'r' :: text => some ('\r', text)
  | 'e' :: text => some ('\x1b', text)
  | '"' :: text => some ('"', text)
  | '\\' :: text => some ('\\', text)
  | 'x' :: text => codePoint? 2 text
  | 'u' :: text => codePoint? 4 text
  | 'U' :: text => codePoint? 8 text
  | _ => none

/-- The rest of a string in double quotes. The first argument bounds its characters. -/
def basicRest? : Nat → List Char → Option (List Char × List Char)
  | 0, _ => none
  | _ + 1, '"' :: text => some ([], text)
  | bound + 1, '\\' :: text => do
    let (c, text) ← escaped? text
    let (cs, text) ← basicRest? bound text
    return (c :: cs, text)
  | bound + 1, c :: text => do
    if !isPlain c then none
    let (cs, text) ← basicRest? bound text
    return (c :: cs, text)
  | _ + 1, [] => none

/-- The rest of a string in single quotes, in which nothing is escaped. -/
def literalRest? : List Char → Option (List Char × List Char)
  | [] => none
  | '\'' :: text => some ([], text)
  | c :: text =>
    if isPlain c then (literalRest? text).map fun (cs, text) => (c :: cs, text) else none

/-- The text without the line end that it starts with. -/
def dropLineEnd : List Char → List Char
  | '\n' :: text => text
  | '\r' :: '\n' :: text => text
  | text => text

/-- The text without leading blanks and line ends. -/
def skipWhite : List Char → List Char
  | '\n' :: text => skipWhite text
  | '\r' :: '\n' :: text => skipWhite text
  | c :: text => if isBlank c then skipWhite text else c :: text
  | [] => []

/-- The text after a backslash at the end of a line and the white space that it hides. -/
def hiddenLineEnd? (text : List Char) : Option (List Char) :=
  match skipBlanks text with
  | '\n' :: rest | '\r' :: '\n' :: rest => some (skipWhite rest)
  | _ => none

/-- The rest of a string on several lines that ends with three of its quotes; up to two more
    may stand right before them. The first argument bounds its characters. -/
def longRest? (mark : Char) (escapes : Bool) : Nat → List Char → Option (List Char × List Char)
  | 0, _ => none
  | bound + 1, text => do
    let quotes := (text.takeWhile (· = mark)).length
    if 3 ≤ quotes then
      let kept := min quotes 5 - 3
      return (List.replicate kept mark, text.drop (kept + 3))
    match text with
    | [] => none
    | '\r' :: '\n' :: text =>
      let (cs, text) ← longRest? mark escapes bound text
      return ('\r' :: '\n' :: cs, text)
    | c :: text =>
      if escapes && c = '\\' then
        match hiddenLineEnd? text with
        | some text => longRest? mark escapes bound text
        | none =>
          let (c, text) ← escaped? text
          let (cs, text) ← longRest? mark escapes bound text
          return (c :: cs, text)
      else
        if !(isPlain c || c = '\n') then none
        let (cs, text) ← longRest? mark escapes bound text
        return (c :: cs, text)

/-- The string of the characters that a reader finds, if they are all of a text. -/
def whole? : Option (List Char × List Char) → Option String
  | some (cs, []) => some (String.ofList cs)
  | _ => none

/-- The string on one line that a text spells. -/
def shortString? : List Char → Option String
  | '"' :: text => whole? (basicRest? (text.length + 1) text)
  | '\'' :: text => whole? (literalRest? text)
  | _ => none

/-- The string that a text spells. A line end right after an opening of three quotes does not
    count. -/
def string? : List Char → Option String
  | '"' :: '"' :: '"' :: text =>
    whole? (longRest? '"' true (text.length + 1) (dropLineEnd text))
  | '\'' :: '\'' :: '\'' :: text =>
    whole? (longRest? '\'' false (text.length + 1) (dropLineEnd text))
  | text => shortString? text

/-- The character may stand in a key without quotes. -/
def isBareKeyCharacter (c : Char) : Bool :=
  c.isAlphanum || c = '_' || c = '-'

/-- The part of a key that a text spells. -/
def keyPart? (text : List Char) : Option String :=
  match text with
  | [] => none
  | '"' :: _ | '\'' :: _ => shortString? text
  | _ => if text.all isBareKeyCharacter then some (String.ofList text) else none

end Toml

end TemplateManifest
