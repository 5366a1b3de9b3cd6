import TemplateManifest.Compile.Code
import TemplateManifest.Proofs.Script.Legible
import TemplateManifest.Proofs.Script.Marked
import TemplateManifest.Proofs.Template.Grammar

/-!
The words, literals and calls of compiled templates are read as they are meant.
-/

namespace TemplateManifest

open Script Text Vocabulary

variable {beyond : Char → Bool}

namespace Script

/-- The text is a name of the target language. -/
def Lexeme.IsName (beyond : Char → Bool) (text : List Char) : Prop :=
  ∃ c rest, text = c :: rest ∧ c.isDigit = false ∧
    (∀ d ∈ c :: rest, isNamePart beyond d = true) ∧ text ∉ reservedWords

/-- The text is a name whatever may stand in names beyond ASCII. -/
def Lexeme.isPlainName (text : List Char) : Bool :=
  text.head?.any (fun c => !c.isDigit) && text.all Char.isAlphanum && !reservedWords.contains text

theorem Lexeme.isName_of_isPlainName {text : List Char} (h : isPlainName text = true) :
    IsName beyond text := by
  cases text with
  | nil => cases h
  | cons c rest =>
    simp only [isPlainName, Bool.and_eq_true, Bool.not_eq_true', List.all_eq_true,
      List.contains_eq_mem, decide_eq_false_iff_not] at h
    obtain ⟨⟨hdigit, hletters⟩, hfree⟩ := h
    exact ⟨c, rest, rfl, by simpa using hdigit, fun d hd => isNamePart_of_isAlphanum (hletters d hd),
      hfree⟩

/-- A character that starts neither a sign nor a mark of assignment. -/
def StartsNoSign (head : Char) : Prop :=
  head ∉ ['=', '-', '+']

theorem startsNoSign_of_isNamePart {c : Char} (h : Lexeme.isNamePart beyond c = true) :
    StartsNoSign c := by
  have hmarks : ∀ mark ∈ ['=', '-', '+'], mark.toNat ≤ 127 ∧
      Lexeme.isNamePart (fun _ => false) mark = false := by
    simp only [List.forall_mem_cons, List.not_mem_nil, false_implies, implies_true]
    decide
  exact fun hmem => Lexeme.ne_of_isNamePart (hmarks c hmem).1 (hmarks c hmem).2 h rfl

theorem Reads.name {text : List Char} (h : Lexeme.IsName beyond text) :
    ∃ head, Reads beyond text 17 head (.atom (.word text)) ∧ StartsNoSign head := by
  obtain ⟨c, rest, rfl, hdigit, hname, hfree⟩ := h
  exact ⟨c, .word hdigit hname hfree, startsNoSign_of_isNamePart (hname c List.mem_cons_self)⟩

/-- A lexeme that stands for itself: a name, a numeral or a string. -/
inductive Lexeme.IsValue (beyond : Char → Bool) : Lexeme → Prop where
  | name {text : List Char} (h : IsName beyond text) : IsValue beyond (.word text)
  | numeral {text : List Char} (h : IsNumeral text) : IsValue beyond (.numeral text)
  | string (value : List Char) : IsValue beyond (.string (quoteChars value))

namespace Lexeme.IsValue

variable {lexeme : Lexeme} {text : List Char} {head : Char} {t : Tree}

theorem reads (h : lexeme.IsValue beyond) :
    ∃ head, Reads beyond lexeme.text 16 head (.atom lexeme) ∧ StartsNoSign head := by
  cases h with
  | name h =>
    obtain ⟨head, hreads, hhead⟩ := Reads.name h
    exact ⟨head, hreads.mono (by decide), hhead⟩
  | numeral h =>
    obtain ⟨c, whole, fraction, hdigits, htext⟩ := id h
    refine ⟨c, .numeral h (by rcases htext with rfl | rfl <;> rfl), ?_⟩
    exact startsNoSign_of_isNamePart (@isNamePart_of_isDigit beyond c (hdigits c List.mem_cons_self))
  | string value => exact ⟨'"', (Reads.string value).mono (by decide), by simp [StartsNoSign]⟩

/-- Such a lexeme may be the key of an entry. -/
theorem readsEntry (h : lexeme.IsValue beyond) (hvalue : Reads beyond text 2 head t) :
    ReadsEntry beyond (lexeme.text ++ ':' :: ' ' :: text) (.atom lexeme, t) := by
  have hcolon (rest : List Char) : NameEnds beyond (':' :: rest) :=
    Ends.nameEnds_cons rest (by decide) (by decide)
  cases h with
  | name h =>
    obtain ⟨c, rest, rfl, hdigit, hname, -⟩ := h
    exact .plain (fun _ => endsBefore_word hdigit hname (hcolon _)) (fun _ _ => rfl) hvalue
  | numeral h =>
    exact .plain (fun _ => endsBefore_numeral h (hcolon _) (by simp)) (fun _ _ => rfl) hvalue
  | string value => exact .plain (fun _ => endsBefore_string value _) (fun _ _ => rfl) hvalue

end Lexeme.IsValue

end Script

section Numbers

open Lexeme

theorem isNumeral_of_digits {digits : List Char} (hne : digits ≠ [])
    (hdigits : ∀ c ∈ digits, c.isDigit = true) : IsNumeral digits := by
  cases digits with
  | nil => exact absurd rfl hne
  | cons c whole => exact ⟨c, whole, [], by simpa using hdigits, .inl rfl⟩

theorem isDigit_of_mem_decimalDigits {n : Nat} {c : Char} (h : c ∈ decimalDigits n) :
    c.isDigit = true :=
  Nat.isDigit_of_mem_toDigits (by decide) (by decide) h

theorem isNumeral_decimalDigits (n : Nat) : IsNumeral (decimalDigits n) :=
  isNumeral_of_digits Nat.toDigits_ne_nil fun _ => isDigit_of_mem_decimalDigits

theorem isNumeral_integerText {n : Int} (h : 0 ≤ n) : IsNumeral (integerText n).toList := by
  rw [integerText, String.toList_ofList, if_neg (by omega)]
  exact isNumeral_decimalDigits _

theorem isDigit_of_mem_zeros {count : Nat} {c : Char} (h : c ∈ List.replicate count '0') :
    c.isDigit = true := by
  rw [List.eq_of_mem_replicate h]
  decide

theorem Double.isNumeral_positionalText (digits : Nat) (power : Int) :
    IsNumeral (positionalText digits power) := by
  have hshown := fun c => @isDigit_of_mem_decimalDigits digits c
  rw [positionalText]
  split
  · exact isNumeral_of_digits (List.append_ne_nil_of_left_ne_nil Nat.toDigits_ne_nil _)
      (List.forall_mem_append.mpr ⟨hshown, fun _ => isDigit_of_mem_zeros⟩)
  · extract_lets places padded whole fraction
    have hpadded : ∀ c ∈ padded, c.isDigit = true :=
      List.forall_mem_append.mpr ⟨fun _ => isDigit_of_mem_zeros, hshown⟩
    have hlength : places < padded.length := by
      simp only [padded, List.length_append, List.length_replicate]
      omega
    have hwhole : whole ≠ [] := by
      rw [← List.length_pos_iff, List.length_take]
      omega
    have hwholeDigits : ∀ c ∈ whole, c.isDigit = true := fun c hc =>
      hpadded c (List.mem_of_mem_take hc)
    have hfraction : ∀ c ∈ fraction, c.isDigit = true := fun c hc =>
      hpadded c (List.mem_of_mem_drop
        (List.mem_reverse.mp ((List.dropWhile_sublist _).mem (List.mem_reverse.mp hc))))
    split
    · exact isNumeral_of_digits hwhole hwholeDigits
    · obtain ⟨c, rest, heq⟩ := List.exists_cons_of_ne_nil hwhole
      rw [heq] at hwholeDigits ⊢
      exact ⟨c, rest, fraction, List.forall_mem_append.mpr ⟨hwholeDigits, hfraction⟩, .inr rfl⟩

theorem Double.isNumeral_text (significand : Nat) (exponent : Int) :
    IsNumeral (finite false significand exponent).text.toList := by
  rw [text, String.toList_ofList, if_neg Bool.false_ne_true, List.nil_append]
  dsimp only
  split
  · exact isNumeral_of_digits (List.cons_ne_nil _ _) (List.forall_mem_singleton.mpr (by decide))
  · exact isNumeral_positionalText _ _

end Numbers

section Literals

/-- The lexeme of a literal. -/
def Literal.lexeme : Literal → Lexeme
  | .str value => .string (quoteChars value.toList)
  | .int value => .numeral (integerText value).toList
  | .float (.finite negative significand exponent) =>
    .numeral (Double.finite negative significand exponent).text.toList
  | .float value => .word value.text.toList
  | .bool value => .word (if value then "true" else "false").toList
  | .none => .word "null".toList

theorem Literal.text_lexeme (value : Literal) :
    value.lexeme.text = (literal value).text.toList := by
  cases value with
  | float value => cases value <;> rfl
  | str value => simp [lexeme, Lexeme.text, literal, Expr.text, quote]
  | _ => rfl

theorem Literal.isValue_lexeme {value : Literal} (h : value.IsUnsigned) :
    value.lexeme.IsValue beyond := by
  cases value with
  | str value => exact .string _
  | int value => exact .numeral (isNumeral_integerText h)
  | float value =>
    cases value with
    | finite negative significand exponent =>
      cases negative with
      | false => exact .numeral (Double.isNumeral_text significand exponent)
      | true => cases h
    | infinite negative =>
      cases negative with
      | false => exact .name (Lexeme.isName_of_isPlainName (by decide))
      | true => cases h
    | nan => exact .name (Lexeme.isName_of_isPlainName (by decide))
  | bool value =>
    cases value <;> exact .name (Lexeme.isName_of_isPlainName (by decide))
  | none => exact .name (Lexeme.isName_of_isPlainName (by decide))

end Literals

namespace Script

namespace Tree

/-- A word of the target language. -/
def ofName (name : String) : Tree := .atom (.word name.toList)

/-- A string. -/
def ofText (value : String) : Tree := .atom (.string (quoteChars value.toList))

/-- A number. -/
def ofNumber (value : Nat) : Tree := .atom (.numeral (decimalDigits value))

/-- A call of a method. -/
def method (target : Tree) (name : String) (args : List Tree) : Tree :=
  .call (.member target name.toList) args

/-- A call of a function of the runtime. -/
def runtime (function : String) (args : List Tree) : Tree :=
  method (ofName "runtime") function args

end Tree

namespace Reads

variable {target : Expr} {args : List Expr} {head : Char} {t : Tree} {ts : List Tree}

theorem ofName {text : String} (h : Lexeme.isPlainName text.toList = true) :
    ∃ head, Reads beyond (Vocabulary.name text).text.toList 17 head (.ofName text) ∧
      StartsNoSign head :=
  Reads.name (Lexeme.isName_of_isPlainName h)

theorem ofText (value : String) :
    Reads beyond (Expr.string value).text.toList 17 '"' (.ofText value) := by
  rw [Expr.text, quote, String.toList_ofList]
  exact Reads.string _

theorem ofNumber (value : Nat) :
    ∃ head, Reads beyond (number value).text.toList 16 head (.ofNumber value) := by
  obtain ⟨head, h, -⟩ :=
    (@Lexeme.IsValue.numeral beyond _ (isNumeral_decimalDigits value)).reads
  refine ⟨head, ?_⟩
  rwa [number, Expr.text, String.toList_ofList]

theorem method {method : String} (h : Reads beyond target.text.toList 17 head t)
    (hname : Lexeme.isPlainName method.toList = true)
    (hargs : ReadsAll beyond ((Expr.texts args).map String.toList) ts) :
    Reads beyond (Vocabulary.method target method args).text.toList 17 head
      (.method t method ts) := by
  obtain ⟨c, rest, heq, hdigit, hletters, -⟩ :=
    @Lexeme.isName_of_isPlainName beyond _ hname
  have hcall := (h.member hdigit hletters).call hargs
  rw [← heq] at hcall
  simpa [Vocabulary.method, Expr.text, toList_commaJoin, Tree.method] using hcall

theorem runtime {function : String} (hname : Lexeme.isPlainName function.toList = true)
    (hargs : ReadsAll beyond ((Expr.texts args).map String.toList) ts) :
    ∃ head, Reads beyond (Vocabulary.runtime function args).text.toList 17 head
      (.runtime function ts) ∧ StartsNoSign head := by
  obtain ⟨head, h, hhead⟩ := @ofName beyond "runtime" (by decide)
  exact ⟨head, h.method hname hargs, hhead⟩

end Reads

namespace Expr

variable {e e' e'' : Expr} {es : List Expr} {level : Nat} {head head' head'' : Char}
  {t t' t'' : Tree} {ts : List Tree}

theorem reads_paren (h : Reads beyond e.text.toList 1 head t) :
    Reads beyond (paren e).text.toList 17 '(' t := by
  simpa [text] using h.paren

theorem reads_array (h : ReadsAll beyond ((texts es).map String.toList) ts) :
    Reads beyond (array es).text.toList 17 '[' (.array ts) := by
  simpa [text, toList_commaJoin] using Reads.array h

theorem reads_object {entries : List (Expr × Expr)} {ts : List (Tree × Tree)}
    (h : List.Forall₂ (ReadsEntry beyond) ((entryTexts entries).map String.toList) ts) :
    Reads beyond (object entries).text.toList 17 '\x7b' (.object ts) := by
  simpa [text, toList_commaJoin] using Reads.object h

theorem reads_operation {op : Operator} (h : Reads beyond e.text.toList op.level head t)
    (h' : Reads beyond e'.text.toList level head' t') (hlevel : op.level < level) :
    Reads beyond (operation op e e').text.toList op.level head (.operation op t t') := by
  simpa [text] using h.operation h' hlevel

theorem reads_conditional (h : Reads beyond e.text.toList 3 head t)
    (h' : Reads beyond e'.text.toList 2 head' t') (h'' : Reads beyond e''.text.toList 2 head'' t'') :
    Reads beyond (conditional e e' e'').text.toList 2 head (.conditional t t' t'') := by
  simpa [text] using h.conditional h' h''

theorem reads_await (h : Reads beyond e.text.toList 14 head t) :
    Reads beyond (await e).text.toList 14 'a' (.await t) := by
  simpa [text] using h.await

theorem reads_assign {v : String} (hname : Lexeme.isPlainName v.toList = true)
    (h : Reads beyond e.text.toList 2 head t) :
    ∃ head, Reads beyond (assign (.named v) e).text.toList 2 head (.assign (.ofName v) t) := by
  obtain ⟨head', h', -⟩ := @Reads.ofName beyond _ hname
  refine ⟨head', ?_⟩
  simpa [text, Variable.text, Vocabulary.name, Tree.ofName] using h'.assign h

end Expr

end Script

end TemplateManifest
