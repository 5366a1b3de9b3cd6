import Mathlib.Data.List.Basic
import TemplateManifest.Text.Quoted

/-!
Balanced text: a scan passes over the strings of a text and matches its brackets. A text is balanced
when the scan is outside strings after it as it was before, awaits the same brackets, and has read
some strings.
-/

namespace TemplateManifest

open Text

namespace Script

/-- Where a scan stands: outside strings, or inside one, whose value so far it knows. -/
inductive ScanPlace where
  | outside
  | inside (value : List Char)
  /-- After a backslash. -/
  | escape (value : List Char)
  /-- In an escape by a number in hexadecimal digits, of which some are still to come. -/
  | digits (value : List Char) (toCome number : Nat)
deriving DecidableEq, Repr

/-- The state of a scan. -/
structure Scan where
  /-- The brackets that are to be closed, the innermost first. -/
  awaited : List Char := []
  place : ScanPlace := .outside
  /-- The values of the strings that have been read. -/
  values : List (List Char) := []
deriving DecidableEq, Repr

/-- The bracket that closes what a bracket opens. -/
def closingBracket? (c : Char) : Option Char :=
  match c with
  | '(' => some ')'
  | '[' => some ']'
  | '{' => some '}'
  | _ => none

/-- The characters that a scan acts on outside strings: the quote and the brackets. -/
def scanMarks : List Char := ['"', '(', '[', '{', ')', ']', '}']

/-- What a character after a backslash stands for, if it is no number. -/
def shortEscape? (c : Char) : Option Char :=
  match c with
  | '"' => some '"'
  | '\\' => some '\\'
  | '/' => some '/'
  | 'b' => some '\x08'
  | 'f' => some '\x0c'
  | 'n' => some '\n'
  | 'r' => some '\r'
  | 't' => some '\t'
  | _ => none

/-- The value of a hexadecimal digit. -/
def hexValue? (c : Char) : Option Nat :=
  if c.isDigit then some (c.toNat - 48)
  else if 97 ≤ c.toNat ∧ c.toNat ≤ 102 then some (c.toNat - 87)
  else if 65 ≤ c.toNat ∧ c.toNat ≤ 70 then some (c.toNat - 55)
  else none

/-- The character of a number. A surrogate is none; a pair of them is not read. -/
def escaped? (number : Nat) : Option Char :=
  if number.isValidChar then some (Char.ofNat number) else none

namespace Scan

/-- One character of a scan. Strings are those of JSON: no control character stands in one, and so no
    line ends in one. -/
def step (s : Scan) (c : Char) : Option Scan :=
  match s.place with
  | .outside =>
    if c = '"' then some { s with place := .inside [] }
    else
      match closingBracket? c with
      | some closing => some { s with awaited := closing :: s.awaited }
      | none =>
        if c ∈ scanMarks then
          match s.awaited with
          | [] => none
          | closing :: awaited => if closing = c then some { s with awaited := awaited } else none
        else some s
  | .inside value =>
    if c = '"' then some { s with place := .outside, values := s.values ++ [value] }
    else if c = '\\' then some { s with place := .escape value }
    else if c.toNat < 32 then none
    else some { s with place := .inside (value ++ [c]) }
  | .escape value =>
    if c = 'u' then some { s with place := .digits value 4 0 }
    else (shortEscape? c).map fun meant => { s with place := .inside (value ++ [meant]) }
  | .digits value toCome number =>
    (hexValue? c).bind fun digit =>
      if toCome = 1 then
        (escaped? (16 * number + digit)).map fun meant =>
          { s with place := .inside (value ++ [meant]) }
      else some { s with place := .digits value (toCome - 1) (16 * number + digit) }

/-- A scan of some text. -/
def run (s : Scan) (text : List Char) : Option Scan :=
  text.foldlM step s

theorem run_cons (s : Scan) (c : Char) (text : List Char) :
    s.run (c :: text) = (s.step c).bind fun t => t.run text :=
  List.foldlM_cons

theorem run_append (s : Scan) (text more : List Char) :
    s.run (text ++ more) = (s.run text).bind fun t => t.run more :=
  List.foldlM_append

end Scan

/-- The values of the strings of a text, if the brackets of the text match outside its strings and all
    its strings end. -/
def strings? (text : List Char) : Option (List (List Char)) :=
  (Scan.run {} text).bind fun s => if s.awaited = [] ∧ s.place = .outside then some s.values else none

/-- The text has these strings, and its brackets match. -/
def Balanced (text : List Char) (values : List (List Char)) : Prop :=
  ∀ awaited before, Scan.run ⟨awaited, .outside, before⟩ text =
    some ⟨awaited, .outside, before ++ values⟩

/-- The text has no quote and no bracket. -/
def Unmarked (text : List Char) : Prop :=
  ∀ c ∈ text, c ∉ scanMarks

namespace Balanced

variable {text more : List Char} {values values' : List (List Char)}

theorem strings?_eq (h : Balanced text values) : strings? text = some values := by
  rw [strings?, h [] []]
  rfl

theorem nil : Balanced [] [] := by
  intro awaited before
  rw [List.append_nil]
  rfl

theorem append (h : Balanced text values) (h' : Balanced more values') :
    Balanced (text ++ more) (values ++ values') := by
  intro awaited before
  rw [Scan.run_append, h, Option.bind_some, h', List.append_assoc]

theorem of_unmarked (h : Unmarked text) : Balanced text [] := by
  intro awaited before
  rw [List.append_nil]
  induction text with
  | nil => rfl
  | cons c text ih =>
    obtain ⟨hc, htext⟩ := List.forall_mem_cons.mp h
    have hquote : c ≠ '"' := fun heq => hc (heq ▸ List.mem_cons_self)
    have hbracket : closingBracket? c = none := by
      unfold closingBracket?
      split <;> first | rfl | exact absurd (by decide) hc
    have hstep : Scan.step ⟨awaited, .outside, before⟩ c = some ⟨awaited, .outside, before⟩ := by
      simp [Scan.step, hquote, hbracket, hc]
    rw [Scan.run_cons, hstep]
    exact ih htext

/-- What stands between a bracket and the one that closes it. -/
theorem bracket (h : Balanced text values) (opening : Char) {closing : Char}
    (hopening : closingBracket? opening = some closing) : Balanced (opening :: (text ++ [closing])) values := by
  have hclosing : opening ≠ '"' ∧ closing ≠ '"' ∧ closingBracket? closing = none ∧
      closing ∈ scanMarks := by
    unfold closingBracket? at hopening
    split at hopening <;> cases hopening <;> decide
  obtain ⟨hquote, hquote', hnone, hmark⟩ := hclosing
  intro awaited before
  have hopen : Scan.step ⟨awaited, .outside, before⟩ opening =
      some ⟨closing :: awaited, .outside, before⟩ := by
    simp [Scan.step, hquote, hopening]
  have hclose : Scan.step ⟨closing :: awaited, .outside, before ++ values⟩ closing =
      some ⟨awaited, .outside, before ++ values⟩ := by
    simp [Scan.step, hquote', hnone, hmark]
  rw [Scan.run_cons, hopen, Option.bind_some, Scan.run_append, h, Option.bind_some, Scan.run_cons,
    hclose]
  rfl

end Balanced

section Quotes

variable (awaited : List Char) (before : List (List Char))

theorem hexValue?_hexDigit {n : Nat} (h : n < 16) : hexValue? (hexDigit n) = some n := by
  have hdigits : ∀ n < 16, hexValue? (hexDigit n) = some n := by
    decide
  exact hdigits n h

theorem step_hexDigit {n toCome : Nat} (h : n < 16) (value : List Char) (number : Nat) :
    Scan.step ⟨awaited, .digits value toCome number, before⟩ (hexDigit n) =
      if toCome = 1 then
        (escaped? (16 * number + n)).map fun meant => ⟨awaited, .inside (value ++ [meant]), before⟩
      else some ⟨awaited, .digits value (toCome - 1) (16 * number + n), before⟩ := by
  simp only [Scan.step, hexValue?_hexDigit h, Option.bind_some]

theorem escaped?_toNat (c : Char) : escaped? c.toNat = some c := by
  rw [escaped?, if_pos (show c.toNat.isValidChar from c.valid), Char.ofNat_toNat]

/-- What stands for a character in a string is read as that character. -/
theorem run_escapeChar (value : List Char) (c : Char) :
    Scan.run ⟨awaited, .inside value, before⟩ (escapeChar c) =
      some ⟨awaited, .inside (value ++ [c]), before⟩ := by
  unfold escapeChar
  split
  case h_8 hquote hescape _ _ _ _ _ =>
    split
    · next hcontrol =>
      calc Scan.run ⟨awaited, .inside value, before⟩
            ['\\', 'u', '0', '0', hexDigit (c.toNat / 16), hexDigit (c.toNat % 16)]
        _ = Scan.run ⟨awaited, .digits value 2 0, before⟩
              [hexDigit (c.toNat / 16), hexDigit (c.toNat % 16)] := rfl
        _ = Scan.run ⟨awaited, .digits value 1 (c.toNat / 16), before⟩ [hexDigit (c.toNat % 16)] := by
          rw [Scan.run_cons, step_hexDigit _ _ (by omega), if_neg (by decide), Nat.mul_zero,
            Nat.zero_add]
          rfl
        _ = some ⟨awaited, .inside (value ++ [c]), before⟩ := by
          rw [Scan.run_cons, step_hexDigit _ _ (by omega), if_pos rfl, Nat.div_add_mod,
            escaped?_toNat]
          rfl
    · next hcontrol =>
      have hstep : Scan.step ⟨awaited, .inside value, before⟩ c =
          some ⟨awaited, .inside (value ++ [c]), before⟩ := by
        simp only [Scan.step]
        rw [if_neg hquote, if_neg hescape, if_neg hcontrol]
      rw [Scan.run_cons, hstep]
      rfl
  all_goals rfl

theorem run_flatMap_escapeChar (value text : List Char) :
    Scan.run ⟨awaited, .inside value, before⟩ (text.flatMap escapeChar) =
      some ⟨awaited, .inside (value ++ text), before⟩ := by
  induction text generalizing value with
  | nil =>
    rw [List.append_nil]
    rfl
  | cons c text ih =>
    rw [List.flatMap_cons, Scan.run_append, run_escapeChar, Option.bind_some, ih, List.append_assoc]
    rfl

end Quotes

/-- A quoted text is one string, whose value is the text. -/
theorem Balanced.quote (text : List Char) : Balanced (quoteChars text) [text] := by
  intro awaited before
  have hopen : Scan.step ⟨awaited, .outside, before⟩ '"' = some ⟨awaited, .inside [], before⟩ := rfl
  have hclose : Scan.step ⟨awaited, .inside text, before⟩ '"' =
      some ⟨awaited, .outside, before ++ [text]⟩ := rfl
  rw [quoteChars, Scan.run_cons, hopen, Option.bind_some, Scan.run_append, run_flatMap_escapeChar,
    Option.bind_some, List.nil_append, Scan.run_cons, hclose]
  rfl

/-- Brackets inside strings do not count, and an escaped quote ends no string. -/
example : strings? "f([\"a)\\\"\", \x7b\"b\": \"\\u0001\"\x7d])".toList =
    some [['a', ')', '"'], ['b'], ['\x01']] := by
  decide +kernel

end Script

end TemplateManifest
