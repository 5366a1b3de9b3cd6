import TemplateManifest.Toml.Number

/-!
The outline of a TOML document: its lines, with keys and values as they are written. Brackets,
commas, equals signs, comments and line ends are settled here; what stands between them is only
cut out, and its meaning is left open.
-/

namespace TemplateManifest

namespace Toml

/-- A key as it is written, part by part. -/
abbrev WrittenKey := List (List Char)

/-- A value as it is written. -/
inductive Written where
  /-- A word or a string; nothing where a value is missing. -/
  | text (text : List Char)
  | array (items : List Written)
  | table (fields : List (WrittenKey × Written))

/-- A line of a document. -/
inductive Line where
  | header (key : WrittenKey)
  /-- A header in double brackets. -/
  | tables (key : WrittenKey)
  | field (key : WrittenKey) (value : Written)

/-- How deep arrays and tables in braces may be nested. -/
def nestingLimit : Nat := 80

/-- Splits a text inside a string on one line after the quote that closes it, else before the
    end of the line. The flag says that a backslash stands before the text. -/
def splitShort (mark : Char) : Bool → List Char → List Char × List Char
  | _, [] => ([], [])
  | hidden, c :: text =>
    if c = '\n' then ([], c :: text)
    else if c = mark ∧ !hidden then ([c], text)
    else
      let (inner, rest) := splitShort mark (mark = '"' && c = '\\' && !hidden) text
      (c :: inner, rest)

/-- A split loses nothing. -/
theorem splitShort_append (mark : Char) (hidden : Bool) (text : List Char) :
    (splitShort mark hidden text).1 ++ (splitShort mark hidden text).2 = text := by
  fun_induction splitShort mark hidden text with
  | case1 => rfl
  | case2 => rfl
  | case3 => rfl
  | case4 hidden c text _ _ inner rest h ih => simpa [h] using ih

/-- Splits a text inside a string on several lines after the three to five quotes that close
    it, else at the end. The flag says that a backslash stands before the text. -/
def splitLong (mark : Char) : Bool → List Char → List Char × List Char
  | _, [] => ([], [])
  | hidden, c :: text =>
    let quotes := ((c :: text).takeWhile (· = mark)).take 5
    if 3 ≤ quotes.length ∧ !hidden then (quotes, (c :: text).drop quotes.length)
    else
      let (inner, rest) := splitLong mark (mark = '"' && c = '\\' && !hidden) text
      (c :: inner, rest)

/-- A split loses nothing. -/
theorem splitLong_append (mark : Char) (hidden : Bool) (text : List Char) :
    (splitLong mark hidden text).1 ++ (splitLong mark hidden text).2 = text := by
  fun_induction splitLong mark hidden text with
  | case1 => rfl
  | case2 hidden c text quotes h =>
    obtain ⟨rest, hrest⟩ : quotes <+: c :: text :=
      (List.take_prefix 5 _).trans (List.takeWhile_prefix _)
    rw [← hrest, List.drop_left]
  | case3 hidden c text _ _ inner rest h ih => simpa [h] using ih

/-- The string at the head of a text, if there is one, and what follows. -/
def quoted? : List Char → Option (List Char × List Char)
  | [] => none
  | mark :: text =>
    if mark ≠ '"' ∧ mark ≠ '\'' then none
    else if text.take 2 = [mark, mark] then
      let (inner, rest) := splitLong mark false (text.drop 2)
      some (mark :: mark :: mark :: inner, rest)
    else
      let (inner, rest) := splitShort mark false text
      some (mark :: inner, rest)

/-- The character ends a word. -/
def endsWord (c : Char) : Bool :=
  isBlank c || ['=', ',', '[', ']', '\x7b', '\x7d', '\r', '\n', '#', '"', '\''].contains c

/-- The word at the head of a text, and what follows. A blank between a date and a time belongs
    to the word. -/
def word (text : List Char) : List Char × List Char :=
  let first := text.takeWhile (!endsWord ·)
  let rest := text.dropWhile (!endsWord ·)
  match date? first, rest with
  | some (_, []), ' ' :: c :: more =>
    if c.isDigit then
      (first ++ ' ' :: (c :: more).takeWhile (!endsWord ·), (c :: more).dropWhile (!endsWord ·))
    else (first, rest)
  | _, _ => (first, rest)

/-- One part of a key, and what follows. Without quotes it ends at a dot. -/
def writtenPart (text : List Char) : List Char × List Char :=
  let isInside (c : Char) : Bool := c ≠ '.' && !endsWord c
  (quoted? text).getD (text.takeWhile isInside, text.dropWhile isInside)

/-- A key, and what follows it without blanks. The first argument bounds the number of parts. -/
def writtenParts? : Nat → List Char → Option (WrittenKey × List Char)
  | 0, _ => none
  | bound + 1, text =>
    let (part, rest) := writtenPart text
    match skipBlanks rest with
    | '.' :: rest =>
      (writtenParts? bound (skipBlanks rest)).map fun (parts, rest) => (part :: parts, rest)
    | rest => some ([part], rest)

/-- A key, and what follows it without blanks. -/
def key? (text : List Char) : Option (WrittenKey × List Char) :=
  writtenParts? (text.length + 1) text

mutual

/-- A value. The first argument bounds the number of steps, the second one the nesting. -/
def value? : Nat → Nat → List Char → Option (Written × List Char)
  | 0, _, _ => none
  | bound + 1, depth, text =>
    match text, depth with
    | '[' :: _, 0 | '\x7b' :: _, 0 => none
    | '[' :: rest, depth + 1 =>
      (items? bound depth rest).map fun (items, rest) => (.array items, rest)
    | '\x7b' :: rest, depth + 1 =>
      (fields? bound depth rest).map fun (fields, rest) => (.table fields, rest)
    | text, _ =>
      let (w, rest) := (quoted? text).getD (word text)
      if w.isEmpty then none else some (.text w, rest)

/-- The items of an array up to its end. -/
def items? : Nat → Nat → List Char → Option (List Written × List Char)
  | 0, _, _ => none
  | bound + 1, depth, text => do
    match ← skipGap false text with
    | ']' :: rest => return ([], rest)
    | rest =>
      let (value, rest) ← value? bound depth rest
      match ← skipGap false rest with
      | ',' :: rest =>
        let (values, rest) ← items? bound depth rest
        return (value :: values, rest)
      | ']' :: rest => return ([value], rest)
      | _ => none

/-- The fields of a table in braces up to its end. They may stand on several lines. -/
def fields? : Nat → Nat → List Char → Option (List (WrittenKey × Written) × List Char)
  | 0, _, _ => none
  | bound + 1, depth, text => do
    match ← skipGap false text with
    | '\x7d' :: rest => return ([], rest)
    | rest =>
      let (key, rest) ← key? rest
      let rest ← after? '=' (← skipGap false rest)
      let (value, rest) ← value? bound depth (← skipGap false rest)
      match ← skipGap false rest with
      | ',' :: rest =>
        let (fields, rest) ← fields? bound depth rest
        return ((key, value) :: fields, rest)
      | '\x7d' :: rest => return ([(key, value)], rest)
      | _ => none

end

/-- The value on the rest of a line, which may be missing. -/
def lineValue? (text : List Char) : Option (Written × List Char) :=
  if (endLine? text).isSome then some (.text [], text)
  else value? (2 * text.length + 2) nestingLimit text

/-- The lines of a document. The first argument bounds their number. -/
def lines? : Nat → List Char → Option (List Line)
  | 0, _ => none
  | _ + 1, [] => some []
  | bound + 1, '[' :: '[' :: text => do
    let (key, rest) ← key? (skipBlanks text)
    let rest ← endLine? (← after? ']' (← after? ']' rest))
    return .tables key :: (← lines? bound rest)
  | bound + 1, '[' :: text => do
    let (key, rest) ← key? (skipBlanks text)
    let rest ← endLine? (← after? ']' rest)
    return .header key :: (← lines? bound rest)
  | bound + 1, text => do
    let (key, rest) ← key? text
    let (value, rest) ← lineValue? (skipBlanks (← after? '=' rest))
    return .field key value :: (← lines? bound (← endLine? rest))

/-- The text without the mark of byte order that it may start with. -/
def dropByteOrderMark : List Char → List Char
  | '\ufeff' :: text => text
  | text => text

/-- The outline of a document. -/
def outline? (source : String) : Option (List Line) := do
  let text ← skipGap false (dropByteOrderMark source.toList)
  lines? (text.length + 1) text

end Toml

end TemplateManifest
