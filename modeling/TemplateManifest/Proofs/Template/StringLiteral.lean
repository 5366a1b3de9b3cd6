import Mathlib.Data.List.Basic
import TemplateManifest.Proofs.Template.ByteTags
import TemplateManifest.Proofs.Template.Shown
import TemplateManifest.Proofs.Template.TagCode
import TemplateManifest.Reference
import TemplateManifest.Template.Parse

/-!
String literals hold any text. What can be written for a text between two quotes is read as one word with
this text, whatever marks of the template language stand in it, and it names one asset as the argument of the
asset function.
-/

namespace TemplateManifest

open Text Segment

namespace Code

/-- The characters that a letter after a backslash may stand for, with the letters. -/
def controls : List (Char × Char) :=
  [('\n', 'n'), ('\t', 't'), ('\r', 'r')]

/-- The second text can be written for the first one between two quotes. -/
inductive Writes (quote : Char) : List Char → List Char → Prop where
  | nil : Writes quote [] []
  /-- A backslash or a quote has a backslash before it. -/
  | escaped {c : Char} {text written : List Char} (hc : c = '\\' ∨ c = quote)
      (h : Writes quote text written) : Writes quote (c :: text) ('\\' :: c :: written)
  | control {c letter : Char} {text written : List Char} (hletter : (c, letter) ∈ controls)
      (h : Writes quote text written) : Writes quote (c :: text) ('\\' :: letter :: written)
  /-- Any other character can stand for itself. -/
  | plain {c : Char} {text written : List Char} (hbackslash : c ≠ '\\') (hquote : c ≠ quote)
      (h : Writes quote text written) : Writes quote (c :: text) (c :: written)

/-- A string literal. -/
def quoted (quote : Char) (written : List Char) : List Char :=
  quote :: (written ++ [quote])

variable {quote : Char} {text written rest : List Char}

theorem exists_writes (quote : Char) (text : List Char) : ∃ written, Writes quote text written := by
  induction text with
  | nil => exact ⟨[], .nil⟩
  | cons c text ih =>
    obtain ⟨written, h⟩ := ih
    by_cases hc : c = '\\' ∨ c = quote
    · exact ⟨_, .escaped hc h⟩
    · rw [not_or] at hc
      exact ⟨_, .plain hc.1 hc.2 h⟩

theorem unescape_of_mem_controls : ∀ entry ∈ controls, unescape entry.2 = entry.1 :=
  List.forall_iff_forall_mem.mp (by decide)

theorem stringBody?_backslash (quote c : Char) (text : List Char) :
    stringBody? quote ('\\' :: c :: text) =
      (stringBody? quote text).map fun found => (unescape c :: found.1, found.2 + 2) := by
  rw [stringBody?, if_pos rfl]

theorem stringBody?_cons {c : Char} (hbackslash : c ≠ '\\') (quote : Char) (text : List Char) :
    stringBody? quote (c :: text) =
      if c = quote then some ([], 1)
      else (stringBody? quote text).map fun found => (c :: found.1, found.2 + 1) := by
  rw [stringBody?.eq_def]
  exact if_neg hbackslash

section Quotes

theorem forall_quotes : ∀ quote ∈ ['"', '\''],
    quote ≠ '\\' ∧ unescape quote = quote ∧ isWhiteSpace quote = false :=
  List.forall_iff_forall_mem.mp (by decide)

theorem isWhiteSpace_of_mem_blank : ∀ c ∈ [' '], isWhiteSpace c = true :=
  List.forall_iff_forall_mem.mp (by decide)

variable (hquote : quote ∈ ['"', '\''])
include hquote

theorem unescape_of_escaped {c : Char} (hc : c = '\\' ∨ c = quote) : unescape c = c := by
  rcases hc with rfl | rfl
  · rfl
  · exact (forall_quotes c hquote).2.1

theorem closingMark?_quote (text : List Char) : closingMark? "\x7d\x7d".toList (quote :: text) = none := by
  rcases List.mem_cons.mp hquote with rfl | hquote
  · rfl
  · rw [List.mem_singleton.mp hquote]
    rfl

variable (h : Writes quote text written)
include h

/-- What is written between the quotes is decoded up to the closing quote and no further. -/
theorem stringBody?_append (rest : List Char) :
    stringBody? quote (written ++ quote :: rest) = some (text, written.length + 1) := by
  induction h with
  | nil => exact (stringBody?_cons (forall_quotes quote hquote).1 quote rest).trans (if_pos rfl)
  | escaped hc _ ih =>
    -- The character after the backslash is not looked at, so that a quote does not end the literal there.
    rw [List.cons_append, List.cons_append, stringBody?_backslash, ih, unescape_of_escaped hquote hc]
    rfl
  | control hletter _ ih =>
    rw [List.cons_append, List.cons_append, stringBody?_backslash, ih, unescape_of_mem_controls _ hletter]
    rfl
  | plain hbackslash hne _ ih =>
    rw [List.cons_append, stringBody?_cons hbackslash, if_neg hne, ih]
    rfl

theorem token_quote (rest : List Char) :
    token quote ((written ++ [quote]) ++ rest) =
      .ok (.string, String.ofList text, (written ++ [quote]).length + 1) := by
  have hquotes : quote = '"' ∨ quote = '\'' := by simpa using hquote
  rw [token, if_pos hquotes, ← List.append_cons, stringBody?_append hquote h, List.length_append]
  rfl

end Quotes

section Words

variable {closer white letters : List Char} {kind : TagKind} {opened pos : Position} {bound depth : Nat}
  {tokenKind : TokenKind} {value : String} {c : Char}

/-- A word is read before what comes after it. -/
theorem readFrom_word (hwhite : IsLead isWhiteSpace white (c :: (letters ++ rest)))
    (hopen : closingMark? closer (c :: (letters ++ rest)) = none)
    (htoken : token c (letters ++ rest) = .ok (tokenKind, value, letters.length + 1)) :
    readFrom closer kind opened (bound + 1) depth ⟨white ++ (c :: (letters ++ rest)), pos⟩ =
      (readFrom closer kind opened bound (braceDepth depth tokenKind)
        ⟨rest, (pos.after white).after (c :: letters)⟩).map fun reading =>
          { reading with tokens := ⟨tokenKind, value, pos.after white⟩ :: reading.tokens } := by
  have hskip : (Cursor.mk (c :: (letters ++ rest)) (pos.after white)).skip (letters.length + 1) =
      ⟨rest, (pos.after white).after (c :: letters)⟩ :=
    Cursor.skip_append (c :: letters) rest (pos.after white)
  have hnone : (if depth = 0 then closingMark? closer (c :: (letters ++ rest)) else none) = none := by
    rw [hopen, ite_self]
  rw [readFrom, hwhite.takeWhile_eq, Cursor.skip_append]
  dsimp only
  rw [hnone, htoken]
  dsimp only
  rw [hskip]
  cases readFrom closer kind opened bound (braceDepth depth tokenKind)
    ⟨rest, (pos.after white).after (c :: letters)⟩ <;> rfl

/-- The closing mark ends the reading, also after a blank. -/
theorem readFrom_mark (kind : TagKind) (opened pos : Position) (bound : Nat) :
    readFrom "\x7d\x7d".toList kind opened (bound + 1) 0 ⟨" \x7d\x7d".toList, pos⟩ =
      .ok ⟨[⟨closingKind kind, "\x7d\x7d", pos.after [' ']⟩], false,
        ⟨[], pos.after " \x7d\x7d".toList⟩⟩ := by
  rfl

theorem readFrom_parenMark (kind : TagKind) (opened pos : Position) (bound : Nat) :
    readFrom "\x7d\x7d".toList kind opened (bound + 1 + 1) 0 ⟨") \x7d\x7d".toList, pos⟩ =
      .ok ⟨[⟨.rightParen, ")", pos⟩, ⟨closingKind kind, "\x7d\x7d", pos.after ") ".toList⟩], false,
        ⟨[], pos.after ") \x7d\x7d".toList⟩⟩ := by
  rfl

theorem readFrom_static (rest : List Char) :
    readFrom "\x7d\x7d".toList kind opened (bound + 1 + 1) 0 ⟨" static(".toList ++ rest, ⟨1, 3⟩⟩ =
      (readFrom "\x7d\x7d".toList kind opened bound 0 ⟨rest, ⟨1, 11⟩⟩).map fun reading =>
        { reading with
          tokens := ⟨.symbol, "static", ⟨1, 4⟩⟩ :: ⟨.leftParen, "(", ⟨1, 10⟩⟩ :: reading.tokens } := by
  have hname : readFrom "\x7d\x7d".toList kind opened (bound + 1 + 1) 0
      ⟨[' '] ++ ('s' :: ("tatic".toList ++ '(' :: rest)), ⟨1, 3⟩⟩ = _ :=
    readFrom_word ⟨isWhiteSpace_of_mem_blank, by simp; decide⟩ rfl rfl
  have hparen : readFrom "\x7d\x7d".toList kind opened (bound + 1) 0
      ⟨[] ++ ('(' :: ([] ++ rest)), ⟨1, 10⟩⟩ = _ :=
    readFrom_word ⟨List.forall_mem_nil _, by simp; decide⟩ rfl rfl
  refine hname.trans ((congrArg (Except.map _) hparen).trans ?_)
  change Except.map _ (Except.map _ (readFrom _ kind opened bound 0 ⟨rest, ⟨1, 11⟩⟩)) = _
  cases readFrom "\x7d\x7d".toList kind opened bound 0 ⟨rest, ⟨1, 11⟩⟩ <;> rfl

variable (hquote : quote ∈ ['"', '\'']) (h : Writes quote text written)
include hquote h

/-- A string literal is one word, whatever stands in it. -/
theorem readFrom_quoted (hwhite : ∀ c ∈ white, isWhiteSpace c = true) :
    readFrom "\x7d\x7d".toList kind opened (bound + 1) depth
        ⟨white ++ (quoted quote written ++ rest), pos⟩ =
      (readFrom "\x7d\x7d".toList kind opened bound depth
        ⟨rest, (pos.after white).after (quoted quote written)⟩).map fun reading =>
          { reading with tokens := ⟨.string, String.ofList text, pos.after white⟩ :: reading.tokens } := by
  apply readFrom_word ⟨hwhite, ?_⟩ (closingMark?_quote hquote _) (token_quote hquote h rest)
  intro c hc
  cases hc
  exact (forall_quotes quote hquote).2.2

/-- The tokens of a string literal between blanks. -/
theorem read_quoted :
    Code.read "\x7d\x7d".toList .variable .first
        ⟨' ' :: (quoted quote written ++ " \x7d\x7d".toList), ⟨1, 3⟩⟩ =
      .ok ⟨[⟨.string, String.ofList text, ⟨1, 4⟩⟩,
          ⟨.variableEnd, "\x7d\x7d", ((Position.mk 1 4).after (quoted quote written)).after [' ']⟩],
        false,
        ⟨[], ((Position.mk 1 4).after (quoted quote written)).after " \x7d\x7d".toList⟩⟩ := by
  have hbound : (' ' :: (quoted quote written ++ " \x7d\x7d".toList)).length + 1 =
      written.length + 5 + 1 + 1 := by
    simp [quoted]
  have hliteral : readFrom "\x7d\x7d".toList .variable .first (written.length + 5 + 1 + 1) 0
      ⟨[' '] ++ (quoted quote written ++ " \x7d\x7d".toList), ⟨1, 3⟩⟩ = _ :=
    readFrom_quoted hquote h isWhiteSpace_of_mem_blank
  rw [readFrom_mark] at hliteral
  rw [Code.read, hbound]
  exact hliteral

/-- The tokens of a call of the asset function with a string literal. -/
theorem read_static :
    Code.read "\x7d\x7d".toList .variable .first
        ⟨" static(".toList ++ (quoted quote written ++ ") \x7d\x7d".toList), ⟨1, 3⟩⟩ =
      .ok ⟨[⟨.symbol, "static", ⟨1, 4⟩⟩, ⟨.leftParen, "(", ⟨1, 10⟩⟩,
          ⟨.string, String.ofList text, ⟨1, 11⟩⟩,
          ⟨.rightParen, ")", (Position.mk 1 11).after (quoted quote written)⟩,
          ⟨.variableEnd, "\x7d\x7d",
            ((Position.mk 1 11).after (quoted quote written)).after ") ".toList⟩],
        false, ⟨[], ((Position.mk 1 11).after (quoted quote written)).after ") \x7d\x7d".toList⟩⟩ := by
  have hbound : (" static(".toList ++ (quoted quote written ++ ") \x7d\x7d".toList)).length + 1 =
      written.length + 10 + 1 + 1 + 1 + 1 + 1 := by
    simp [quoted]
  have hliteral : readFrom "\x7d\x7d".toList .variable .first (written.length + 10 + 1 + 1 + 1) 0
      ⟨[] ++ (quoted quote written ++ ") \x7d\x7d".toList), ⟨1, 11⟩⟩ = _ :=
    readFrom_quoted hquote h (List.forall_mem_nil _)
  rw [readFrom_parenMark] at hliteral
  rw [Code.read, hbound, readFrom_static]
  exact congrArg (Except.map _) hliteral

end Words

end Code

section Tags

variable {code : List Char} {tokens : List Token} {finish : Position}
  (h : Code.read "\x7d\x7d".toList .variable .first ⟨' ' :: code, ⟨1, 3⟩⟩ =
    .ok ⟨tokens, false, ⟨[], finish⟩⟩)
include h

/-- A variable tag that ends where the source does. -/
theorem readConstruct_variable :
    readConstruct {} .variable ⟨"\x7b\x7b".toList ++ ' ' :: code, .first⟩ =
      .ok (⟨.variable, .first, "\x7b\x7b".toList ++ ' ' :: code, [],
          ⟨.variableStart, "\x7b\x7b", .first⟩ :: tokens, false, false⟩,
        ⟨[], Position.first.after ("\x7b\x7b".toList ++ ' ' :: code)⟩) := by
  have hcode : Code.readFrom (({} : LanguageOptions).delimiters.closer .variable).toList .variable .first
      ((' ' :: code).length + 1) 0 ⟨' ' :: code, Position.first.after "\x7b\x7b".toList⟩ =
        .ok ⟨tokens, false, ⟨[], finish⟩⟩ := h
  have hread := @Segment.readTag_append {} .variable .first false "\x7b\x7b".toList (' ' :: code) rfl
    (fun _ => by simp)
  rw [hcode] at hread
  have hfinish : readTag {} .variable ⟨"\x7b\x7b".toList ++ ' ' :: code, .first⟩ =
      .ok (Segment.finish {} .variable ⟨"\x7b\x7b".toList ++ ' ' :: code, .first⟩
        ("\x7b\x7b".toList ++ ' ' :: code).length (⟨.variableStart, "\x7b\x7b", .first⟩ :: tokens)
        false false) :=
    hread
  rw [readConstruct, hfinish, Segment.finish]
  simp [Cursor.skip]

/-- A variable tag alone in a source gives its marks and the words between them. -/
theorem tokenize_variableTag {source : String}
    (hsource : source.toList = "\x7b\x7b".toList ++ ' ' :: code) :
    tokenize {} source =
      .ok (⟨.variableStart, "\x7b\x7b", .first⟩ :: tokens ++
        [Token.eofAt (Position.first.after source.toList)]) := by
  have hlength : source.length = code.length + 2 + 1 := by
    rw [← String.length_toList, hsource]
    rfl
  have hsplit := @splitFrom_of_construct {} .variable .first (code.length + 2 + 1) []
    ("\x7b\x7b".toList ++ ' ' :: code) (by simp) rfl _ _ rfl (readConstruct_variable h)
  rw [List.nil_append] at hsplit
  rw [tokenize, split, hlength, hsource, hsplit, splitFrom]
  simp [tokensAfter, textSegments, Except.map]

end Tags

section Source

variable {quote : Char} {text written : String}

/-- A string literal as it is written. -/
def stringLiteral (quote : Char) (written : String) : String :=
  String.ofList (Code.quoted quote written.toList)

theorem toList_stringLiteral (quote : Char) (written : String) :
    (stringLiteral quote written).toList = Code.quoted quote written.toList :=
  String.toList_ofList

/-- The tree of a call of the asset function with a string. -/
def staticTree (text : String) : List Node :=
  [.output ⟨1, 1⟩ [.call ⟨1, 4⟩ (.symbol ⟨1, 4⟩ "static") [.literal ⟨1, 11⟩ (.str text)] []]]

/-- The parser does not look at what stands in the string. -/
theorem root_staticTag (env : Environment) (text : String) (paren mark last : Position) :
    Parser.root env (.ofTokens [⟨.variableStart, "\x7b\x7b", .first⟩, ⟨.symbol, "static", ⟨1, 4⟩⟩,
      ⟨.leftParen, "(", ⟨1, 10⟩⟩, ⟨.string, text, ⟨1, 11⟩⟩, ⟨.rightParen, ")", paren⟩,
      ⟨.variableEnd, "\x7d\x7d", mark⟩, Token.eofAt last]) =
    .ok (staticTree text) ⟨[], Token.eofAt last⟩ := by
  rfl

section Written

variable (hquote : quote ∈ ['"', '\'']) (h : Code.Writes quote text.toList written.toList)
include hquote h

theorem tokenize_literalTag :
    let finish := (Position.mk 1 4).after (stringLiteral quote written).toList
    tokenize {} ("\x7b\x7b " ++ stringLiteral quote written ++ " \x7d\x7d") =
      .ok [⟨.variableStart, "\x7b\x7b", ⟨1, 1⟩⟩, ⟨.string, text, ⟨1, 4⟩⟩,
        ⟨.variableEnd, "\x7d\x7d", finish.after [' ']⟩, Token.eofAt (finish.after " \x7d\x7d".toList)] := by
  intro finish
  have hsource : ("\x7b\x7b " ++ stringLiteral quote written ++ " \x7d\x7d").toList =
      "\x7b\x7b".toList ++ ' ' :: (Code.quoted quote written.toList ++ " \x7d\x7d".toList) := by
    simp [stringLiteral]
  have hlast : Position.first.after ("\x7b\x7b".toList ++ ' ' :: (Code.quoted quote written.toList ++
      " \x7d\x7d".toList)) = finish.after " \x7d\x7d".toList := by
    simp only [finish, toList_stringLiteral]
    exact Position.after_append ⟨1, 4⟩ _ _
  have htokens := tokenize_variableTag (Code.read_quoted hquote h) hsource
  rw [hsource, hlast, String.ofList_toList, ← toList_stringLiteral] at htokens
  exact htokens

theorem parse_staticTag {env : Environment} (hoptions : env.options = {}) (name : String) :
    Template.parse env name ("\x7b\x7b static(" ++ stringLiteral quote written ++ ") \x7d\x7d") =
      .ok ⟨name, staticTree text⟩ := by
  have hsource : ("\x7b\x7b static(" ++ stringLiteral quote written ++ ") \x7d\x7d").toList =
      "\x7b\x7b".toList ++ ' ' :: ("static(".toList ++ (Code.quoted quote written.toList ++
        ") \x7d\x7d".toList)) := by
    simp [stringLiteral]
  have htokens := tokenize_variableTag (Code.read_static hquote h) hsource
  rw [String.ofList_toList] at htokens
  simp only [List.cons_append, List.nil_append] at htokens
  rw [Template.parse, hoptions, htokens]
  dsimp only
  rw [root_staticTag]

end Written

/-- Every text can be written as a string literal with each of the two quotes, and however it is written, a
    variable tag with it gives one string token with the text between the marks of the tag. As the argument
    of the asset function it gives the text as the only asset. -/
theorem stringLiteral_reads_any_text (hquote : quote ∈ ['"', '\'']) (text : String) :
    (∃ written : String, Code.Writes quote text.toList written.toList) ∧
    ∀ written : String, Code.Writes quote text.toList written.toList →
      (let finish := (Position.mk 1 4).after (stringLiteral quote written).toList
      tokenize {} ("\x7b\x7b " ++ stringLiteral quote written ++ " \x7d\x7d") =
        .ok [⟨.variableStart, "\x7b\x7b", ⟨1, 1⟩⟩, ⟨.string, text, ⟨1, 4⟩⟩,
          ⟨.variableEnd, "\x7d\x7d", finish.after [' ']⟩,
          Token.eofAt (finish.after " \x7d\x7d".toList)]) ∧
      ∀ (env : Environment) (name : String), env.options = {} → ∃ template,
        Template.parse env name ("\x7b\x7b static(" ++ stringLiteral quote written ++ ") \x7d\x7d") =
          .ok template ∧
        template.assetPaths = .ok [.static text] ∧ template.assetWarnings = [] := by
  constructor
  · obtain ⟨written, h⟩ := Code.exists_writes quote text.toList
    refine ⟨String.ofList written, ?_⟩
    rwa [String.toList_ofList]
  · intro written h
    refine ⟨tokenize_literalTag hquote h, ?_⟩
    intro env name hoptions
    exact ⟨_, parse_staticTag hquote h hoptions name, rfl, rfl⟩

/-- A text with the marks of a tag and a comment, a quote, a backslash and line feeds. -/
theorem stringLiteral_reads_marks :
    let text := "\x7d\x7d\x7b#\"\\\n\n"
    let literal := stringLiteral '"' "\x7d\x7d\x7b#\\\"\\\\\\n\n"
    tokenize {} ("\x7b\x7b " ++ literal ++ " \x7d\x7d") =
        .ok [⟨.variableStart, "\x7b\x7b", ⟨1, 1⟩⟩, ⟨.string, text, ⟨1, 4⟩⟩,
          ⟨.variableEnd, "\x7d\x7d", ⟨2, 3⟩⟩, Token.eofAt ⟨2, 5⟩] ∧
      ∃ template, Template.parse {} "page" ("\x7b\x7b static(" ++ literal ++ ") \x7d\x7d") = .ok template ∧
        template.assetPaths = .ok [.static text] ∧ template.assetWarnings = [] := by
  intro text literal
  have hwrites : Code.Writes '"' "\x7d\x7d\x7b#\"\\\n\n".toList "\x7d\x7d\x7b#\\\"\\\\\\n\n".toList :=
    .plain (by decide) (by decide) (.plain (by decide) (by decide) (.plain (by decide) (by decide)
      (.plain (by decide) (by decide) (.escaped (.inr rfl) (.escaped (.inl rfl) (.control (by decide)
        (.plain (by decide) (by decide) .nil)))))))
  obtain ⟨htokens, hassets⟩ := (stringLiteral_reads_any_text (by decide) text).2 _ hwrites
  exact ⟨htokens, hassets {} "page" rfl⟩

end Source

end TemplateManifest
