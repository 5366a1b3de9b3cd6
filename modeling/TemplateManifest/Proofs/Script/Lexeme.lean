import TemplateManifest.Proofs.Text.Lead
import TemplateManifest.Text.Quoted

/-!
The words, numerals, strings and marks of the target language. A text is split from the left, and
each time the longest one is taken that the rest of the text starts with.

Which characters beyond ASCII may stand in a name is for Unicode to say, so it is a parameter here.
-/

namespace TemplateManifest

open Text

namespace Script

/-- A word, numeral, string or mark of the target language, as it is spelt. -/
inductive Lexeme where
  | word (text : List Char)
  | numeral (text : List Char)
  /-- A string with its quotes. -/
  | string (text : List Char)
  | mark (text : List Char)
deriving DecidableEq, Repr

namespace Lexeme

/-- The marks of the target language and the openings of its comments, each before the shorter
    ones it starts with. -/
def marks : List (List Char) :=
  [['>', '>', '>', '='],
   ['.', '.', '.'], ['=', '=', '='], ['!', '=', '='], ['*', '*', '='], ['<', '<', '='],
   ['>', '>', '='], ['>', '>', '>'], ['&', '&', '='], ['|', '|', '='], ['?', '?', '='],
   ['=', '>'], ['=', '='], ['!', '='], ['<', '='], ['>', '='], ['&', '&'], ['|', '|'],
   ['?', '?'], ['?', '.'], ['+', '+'], ['-', '-'], ['+', '='], ['-', '='], ['*', '='],
   ['/', '='], ['%', '='], ['&', '='], ['|', '='], ['^', '='], ['<', '<'], ['>', '>'],
   ['*', '*'], ['/', '/'], ['/', '*'],
   ['{'], ['}'], ['('], [')'], ['['], [']'], ['.'], [';'], [','], ['<'], ['>'], ['+'], ['-'],
   ['*'], ['/'], ['%'], ['&'], ['|'], ['^'], ['!'], ['~'], ['?'], [':'], ['=']]

/-- The character may stand between two lexemes. -/
def isBlank (c : Char) : Bool :=
  c = ' ' || c = '\t' || c = '\n' || c = '\r'

/-- The number of characters of a string after its opening quote. A line break ends no string,
    and stands in none. -/
def stringLength? : List Char → Option Nat
  | [] => none
  | '"' :: _ => some 1
  | '\\' :: _ :: text => (stringLength? text).map (· + 2)
  | c :: text => if c = '\n' || c = '\r' then none else (stringLength? text).map (· + 1)

section

variable (beyond : Char → Bool)

/-- The character may stand in a name. -/
def isNamePart (c : Char) : Bool :=
  c.isAlphanum || c = '_' || c = '$' || (127 < c.toNat && beyond c)

/-- The numeral at the head of a text: digits, or digits, a point and digits. Nothing that may
    stand in a name follows it; numerals with an exponent or to another base are left out. -/
def numeral? (text : List Char) : Option (List Char) :=
  let whole := text.takeWhile Char.isDigit
  let fraction :=
    match text.drop whole.length with
    | '.' :: text => '.' :: text.takeWhile Char.isDigit
    | _ => []
  let digits := whole ++ fraction
  if (text.drop digits.length).head?.any (isNamePart beyond) then none else some digits

/-- The lexeme at the head of the text `c :: text`, and the number of characters that it takes. -/
def first? (c : Char) (text : List Char) : Option (Lexeme × Nat) :=
  if c = '"' then
    (stringLength? text).map fun length => (.string (c :: text.take length), length + 1)
  else if c.isDigit then
    (numeral? beyond (c :: text)).map fun digits => (.numeral digits, digits.length)
  else if isNamePart beyond c then
    let name := (c :: text).takeWhile (isNamePart beyond)
    some (.word name, name.length)
  else
    (marks.find? fun mark => startsWith mark (c :: text)).map fun mark => (.mark mark, mark.length)

/-- The lexemes of a text after some characters, if it is made of lexemes. -/
def splitFrom : Nat → List Char → Option (List Lexeme)
  | _, [] => some []
  | skip + 1, _ :: text => splitFrom skip text
  | 0, c :: text =>
    if isBlank c then splitFrom 0 text
    else
      (first? beyond c text).bind fun (lexeme, length) =>
        (splitFrom (length - 1) text).map fun lexemes => lexeme :: lexemes

/-- The lexemes of a text. -/
def split (text : List Char) : Option (List Lexeme) :=
  splitFrom beyond 0 text

end

/-- The characters of a lexeme. -/
def text : Lexeme → List Char
  | word text | numeral text | string text | mark text => text

section

variable {beyond : Char → Bool}

theorem isNamePart_eq_of_toNat_le {c : Char} (h : c.toNat ≤ 127) :
    isNamePart beyond c = isNamePart (fun _ => false) c := by
  simp [isNamePart, Nat.not_lt.mpr h]

theorem isNamePart_of_isAlphanum {c : Char} (h : c.isAlphanum = true) :
    isNamePart beyond c = true := by
  simp [isNamePart, h]

theorem isNamePart_of_isDigit {c : Char} (h : c.isDigit = true) : isNamePart beyond c = true :=
  isNamePart_of_isAlphanum (by simp [Char.isAlphanum, h])

theorem splitFrom_append (text rest : List Char) :
    splitFrom beyond text.length (text ++ rest) = splitFrom beyond 0 rest := by
  induction text with
  | nil => rfl
  | cons c text ih => exact ih

@[simp]
theorem split_nil : split beyond [] = some [] := rfl

@[simp]
theorem split_space (rest : List Char) : split beyond (' ' :: rest) = split beyond rest := rfl

/-- The lexeme ends where the text after it starts: it is the longest one there. -/
def EndsBefore (beyond : Char → Bool) (lexeme : Lexeme) (rest : List Char) : Prop :=
  split beyond (lexeme.text ++ rest) = (split beyond rest).map fun lexemes => lexeme :: lexemes

theorem endsBefore_of_first? {lexeme : Lexeme} {c : Char} {text rest : List Char}
    (htext : lexeme.text = c :: text) (hblank : isBlank c = false)
    (h : first? beyond c (text ++ rest) = some (lexeme, text.length + 1)) :
    lexeme.EndsBefore beyond rest := by
  rw [EndsBefore, htext, List.cons_append, split, splitFrom, if_neg (Bool.eq_false_iff.mp hblank), h]
  simp [splitFrom_append, split]

/-- No character of a name follows. -/
def NameEnds (beyond : Char → Bool) (rest : List Char) : Prop :=
  ∀ c ∈ rest.head?, isNamePart beyond c = false

theorem ne_of_isNamePart {c mark : Char} (hmark : mark.toNat ≤ 127)
    (hname : isNamePart (fun _ => false) mark = false) (h : isNamePart beyond c = true) :
    c ≠ mark := by
  rintro rfl
  rw [isNamePart_eq_of_toNat_le hmark, hname] at h
  cases h

theorem ne_quote_of_isNamePart {c : Char} (h : isNamePart beyond c = true) : c ≠ '"' :=
  ne_of_isNamePart (by decide) (by decide) h

theorem isBlank_of_isNamePart {c : Char} (h : isNamePart beyond c = true) : isBlank c = false := by
  have hblank : ∀ blank ∈ [' ', '\t', '\n', '\r'],
      blank.toNat ≤ 127 ∧ isNamePart (fun _ => false) blank = false := by
    simp only [List.forall_mem_cons, List.not_mem_nil, false_implies, implies_true]
    decide
  have hne : ∀ blank ∈ [' ', '\t', '\n', '\r'], c ≠ blank := fun blank hmem =>
    ne_of_isNamePart (hblank blank hmem).1 (hblank blank hmem).2 h
  simp_all [isBlank]

theorem endsBefore_word {c : Char} {text rest : List Char} (hdigit : c.isDigit = false)
    (htext : ∀ d ∈ c :: text, isNamePart beyond d = true) (hrest : NameEnds beyond rest) :
    (word (c :: text)).EndsBefore beyond rest := by
  have hc := htext c List.mem_cons_self
  refine endsBefore_of_first? rfl (isBlank_of_isNamePart hc) ?_
  rw [first?, if_neg (ne_quote_of_isNamePart hc), if_neg (Bool.eq_false_iff.mp hdigit), if_pos hc,
    ← List.cons_append, takeWhile_append_of_head? htext hrest]
  rfl

/-- The text is a numeral: digits, or digits, a point and digits. -/
def IsNumeral (text : List Char) : Prop :=
  ∃ c whole fraction, (∀ d ∈ c :: whole ++ fraction, d.isDigit = true) ∧
    (text = c :: whole ∨ text = c :: whole ++ '.' :: fraction)

theorem endsBefore_numeral {text rest : List Char} (h : IsNumeral text)
    (hrest : NameEnds beyond rest) (hpoint : rest.head? ≠ some '.') :
    (numeral text).EndsBefore beyond rest := by
  obtain ⟨c, whole, fraction, hdigits, htext⟩ := h
  have hc : c.isDigit = true := hdigits c (by simp)
  have hwhole : ∀ d ∈ c :: whole, d.isDigit = true := fun d hd =>
    hdigits d (List.mem_append_left _ hd)
  have hstop : ∀ d ∈ rest.head?, d.isDigit = false := fun d hd =>
    Bool.eq_false_iff.mpr fun hdigit =>
      Bool.eq_false_iff.mp (hrest d hd) (isNamePart_of_isDigit hdigit)
  have hnext : rest.head?.any (isNamePart beyond) = false := by
    cases hhead : rest.head? with
    | none => rfl
    | some d => exact hrest d hhead
  have hnumeral : numeral? beyond (text ++ rest) = some text := by
    rcases htext with rfl | rfl
    · have hfraction : (match rest with
          | '.' :: text => '.' :: text.takeWhile Char.isDigit
          | _ => ([] : List Char)) = [] := by
        split
        · exact absurd rfl hpoint
        · rfl
      rw [numeral?, takeWhile_append_of_head? hwhole hstop]
      simp [hfraction, hnext]
    · rw [numeral?, List.append_assoc, takeWhile_append_of_head? hwhole (by simp)]
      have hafter : (fraction ++ rest).takeWhile Char.isDigit = fraction :=
        takeWhile_append_of_head? (fun d hd => hdigits d (by simp [hd])) hstop
      simp [hafter, hnext]
  obtain ⟨tail, rfl⟩ : ∃ tail, text = c :: tail := by
    rcases htext with rfl | rfl
    · exact ⟨_, rfl⟩
    · exact ⟨_, rfl⟩
  have hname : isNamePart beyond c = true := isNamePart_of_isDigit hc
  refine endsBefore_of_first? rfl (isBlank_of_isNamePart hname) ?_
  rw [first?, if_neg (ne_quote_of_isNamePart hname), if_pos hc, ← List.cons_append, hnumeral]
  rfl

theorem stringLength?_cons {c : Char} (text : List Char) (hquote : c ≠ '"') (hescape : c ≠ '\\')
    (hbreak : c ≠ '\n' ∧ c ≠ '\r') :
    stringLength? (c :: text) = (stringLength? text).map (· + 1) := by
  rw [stringLength?] <;> simp_all

theorem hexDigit_ne {n : Nat} (h : n < 16) :
    hexDigit n ≠ '"' ∧ hexDigit n ≠ '\\' ∧ hexDigit n ≠ '\n' ∧ hexDigit n ≠ '\r' := by
  have hdigits : ∀ n < 16, hexDigit n ≠ '"' ∧ hexDigit n ≠ '\\' ∧ hexDigit n ≠ '\n' ∧
      hexDigit n ≠ '\r' := by
    decide
  exact hdigits n h

/-- The characters that stand for one in a string do not end the string. -/
theorem stringLength?_escapeChar (c : Char) (text : List Char) :
    stringLength? (escapeChar c ++ text) =
      (stringLength? text).map (· + (escapeChar c).length) := by
  unfold escapeChar
  split
  case h_8 hquote hescape hline hreturn _ _ _ =>
    split
    · next hcontrol =>
      have hhigh := hexDigit_ne (show c.toNat / 16 < 16 by omega)
      have hlow := hexDigit_ne (show c.toNat % 16 < 16 by omega)
      simp [stringLength?, stringLength?_cons, hhigh, hlow, Function.comp_def]
    · exact stringLength?_cons text hquote hescape ⟨hline, hreturn⟩
  all_goals simp [stringLength?]

theorem stringLength?_flatMap_escapeChar (value rest : List Char) :
    stringLength? (value.flatMap escapeChar ++ '"' :: rest) =
      some ((value.flatMap escapeChar).length + 1) := by
  induction value with
  | nil => rfl
  | cons c value ih =>
    rw [List.flatMap_cons, List.append_assoc, stringLength?_escapeChar, ih]
    simp [Nat.add_comm, Nat.add_left_comm]

theorem endsBefore_string (value rest : List Char) :
    (string (quoteChars value)).EndsBefore beyond rest := by
  refine endsBefore_of_first? rfl rfl ?_
  rw [first?, if_pos rfl, List.append_assoc, List.singleton_append,
    stringLength?_flatMap_escapeChar, Option.map_some, List.take_length_add_append]
  simp [quoteChars]

theorem head_marks : ∀ mark ∈ marks, ∃ c text, mark = c :: text ∧ c ≠ '"' ∧ isBlank c = false ∧
    c.toNat ≤ 127 ∧ isNamePart (fun _ => false) c = false := by
  have hmarks : ∀ mark ∈ marks, mark.head?.any (fun c => c ≠ '"' ∧ isBlank c = false ∧
      c.toNat ≤ 127 ∧ isNamePart (fun _ => false) c = false) := by
    decide
  intro mark hmark
  cases mark with
  | nil => cases hmarks _ hmark
  | cons c text => exact ⟨c, text, rfl, of_decide_eq_true (hmarks _ hmark)⟩

theorem endsBefore_mark {text rest : List Char}
    (h : marks.find? (fun mark => startsWith mark (text ++ rest)) = some text) :
    (mark text).EndsBefore beyond rest := by
  obtain ⟨c, text, rfl, hquote, hblank, hascii, hname⟩ :=
    head_marks _ (List.mem_of_find?_eq_some h)
  have hdigit : c.isDigit = false := Bool.eq_false_iff.mpr fun hdigit =>
    Bool.eq_false_iff.mp hname (isNamePart_of_isDigit hdigit)
  refine endsBefore_of_first? rfl hblank ?_
  rw [← @isNamePart_eq_of_toNat_le beyond c hascii] at hname
  rw [first?, if_neg hquote, if_neg (Bool.eq_false_iff.mp hdigit),
    if_neg (Bool.eq_false_iff.mp hname), ← List.cons_append, h]
  rfl

end

end Lexeme

end Script

end TemplateManifest
