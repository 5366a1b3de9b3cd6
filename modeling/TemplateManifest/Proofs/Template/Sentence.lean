import Mathlib.Computability.RegularExpressions
import TemplateManifest.Proofs.Template.Shown

/-!
The form of the tokens of a source: runs of text, raw blocks, and tags with nothing but words of code
between their marks. No tag is left in a run of text. Main statement: `tokenize_sentence`.
-/

namespace TemplateManifest

open Computability Text

/-- The kinds of the words of code. -/
def codeKinds : List TokenKind :=
  [.string, .int, .float, .symbol, .operator, .comma, .colon, .pipe, .leftParen, .rightParen,
   .leftBracket, .rightBracket, .leftCurly, .rightCurly]

namespace Sentence

/-- One word of code. -/
def code : RegularExpression TokenKind :=
  (codeKinds.map .char).sum

/-- A tag: words of code between an opening and a closing mark. -/
def tag (opening closing : TokenKind) : RegularExpression TokenKind :=
  .char opening * (code.star * .char closing)

/-- A run of text, a raw block or a tag. -/
def phrase : RegularExpression TokenKind :=
  .char .data + .char .raw + tag .blockStart .blockEnd + tag .variableStart .variableEnd

/-- All the tokens of a source. -/
def sentence : RegularExpression TokenKind :=
  phrase.star * .char .eof

theorem mem_codeKinds {kind : TokenKind} (h : kind.isCode = true) : kind ∈ codeKinds := by
  cases kind <;> first | decide | cases h

theorem mem_sum {kinds : List TokenKind} {kind : TokenKind} (h : kind ∈ kinds) :
    [kind] ∈ (kinds.map RegularExpression.char).sum.matches' := by
  induction kinds with
  | nil => cases h
  | cons first kinds ih =>
    rw [List.map_cons, List.sum_cons, RegularExpression.matches'_add]
    rcases List.mem_cons.mp h with rfl | hrest
    · exact .inl rfl
    · exact .inr (ih hrest)

theorem append_mem_kstar {l : Language TokenKind} {word more : List TokenKind} (hword : word ∈ l)
    (hmore : more ∈ l∗) : word ++ more ∈ l∗ :=
  Set.mem_of_mem_of_subset (Language.append_mem_mul hword hmore) (mul_kstar_le_kstar (a := l))

theorem map_kind_mem_code {words : List Token} (h : ∀ token ∈ words, token.kind.isCode = true) :
    words.map Token.kind ∈ code.star.matches' := by
  induction words with
  | nil => exact Language.nil_mem_kstar _
  | cons first words ih =>
    obtain ⟨hfirst, hwords⟩ := List.forall_mem_cons.mp h
    exact append_mem_kstar (mem_sum (mem_codeKinds hfirst)) (ih hwords)

/-- The tokens of a tag. -/
theorem map_kind_mem_phrase {kind : TagKind} (hkind : kind ≠ .comment) {words : List Token}
    (opened closed : Position) (opener closer : String)
    (hwords : ∀ token ∈ words, token.kind.isCode = true) :
    (⟨Segment.openingKind kind, opener, opened⟩ ::
      (words ++ [⟨Code.closingKind kind, closer, closed⟩])).map Token.kind ∈ phrase.matches' := by
  have htag (opening closing : TokenKind) :
      opening :: (words.map Token.kind ++ [closing]) ∈ (tag opening closing).matches' :=
    Language.append_mem_mul (a := [opening]) rfl
      (Language.append_mem_mul (map_kind_mem_code hwords) rfl)
  rw [List.map_cons, List.map_append]
  match kind with
  | .block => exact .inl (.inr (htag .blockStart .blockEnd))
  | .variable => exact .inr (htag .variableStart .variableEnd)
  | .comment => exact absurd rfl hkind

end Sentence

open Sentence

/-- No opening mark stands in the text. -/
def Delimiters.Absent (d : Delimiters) (text : List Char) : Prop :=
  ∀ kind, ¬ (d.opener kind).toList <:+: text

namespace Segment

/-- A run of text has no opening mark in it; a construct stands for one phrase that is not text, or
    for none. -/
def IsPhrase (d : Delimiters) : Segment → Prop
  | .text _ chars => d.Absent chars
  | .construct c =>
    (c.tokens = [] ∨ c.tokens.map Token.kind ∈ phrase.matches') ∧
      ∀ token ∈ c.tokens, token.kind ≠ .data

variable {options : LanguageOptions} {cursor next : Cursor} {c : Construct} {kind : TagKind}

/-- What white space control leaves of a run of text is a part of it. -/
theorem visibleText_isInfix (strip : Bool) (start : Position) (chars : List Char)
    (next : Option Construct) : visibleText options strip start chars next <:+: chars := by
  have hstripped : (if strip then trimStart chars else chars) <:+ chars := by
    split
    · exact trimStart_isSuffix chars
    · exact List.suffix_rfl
  have hdrop (atLineStart : Bool) (text : List Char) : dropIndent atLineStart text <+: text := by
    obtain ⟨kept, tail, rfl, -, hkept⟩ := isTail_dropIndent atLineStart text
    rw [hkept]
    split
    · exact List.prefix_append _ _
    · exact List.prefix_rfl
  rw [visibleText_eq]
  dsimp only
  split
  · exact (trimEnd_isPrefix _).isInfix.trans hstripped.isInfix
  · split
    · exact (hdrop _ _).isInfix.trans hstripped.isInfix
    · exact hstripped.isInfix

theorem isPhrase_readComment (h : readComment options cursor = .ok (c, next)) :
    (construct c).IsPhrase options.delimiters := by
  simp only [readComment] at h
  split at h
  · cases h
  · cases h
    exact ⟨.inl rfl, List.forall_mem_nil _⟩

theorem isPhrase_readRaw? (h : readRaw? options cursor = some (.ok (c, next))) :
    (construct c).IsPhrase options.delimiters := by
  simp only [readRaw?] at h
  obtain ⟨opening, -, h⟩ := Option.map_eq_some_iff.mp h
  split at h
  · cases h
  · cases h
    exact ⟨.inr (.inl (.inl (.inr rfl))), List.forall_mem_singleton.mpr TokenKind.noConfusion⟩

theorem isPhrase_readTag (hkind : kind ≠ .comment)
    (h : readTag options kind cursor = .ok (c, next)) :
    (construct c).IsPhrase options.delimiters := by
  simp only [readTag] at h
  split at h
  · cases h
  · next reading hread =>
    obtain ⟨code, rest, hcovers⟩ := Code.exists_covers_of_readFrom hread
    obtain ⟨words, closed, htokens, hwords⟩ := hcovers.tokens
    cases h
    simp only [IsPhrase, htokens]
    refine ⟨.inr (map_kind_mem_phrase hkind _ _ _ _ hwords), ?_⟩
    have hopening : openingKind kind ≠ .data := by cases kind <;> exact TokenKind.noConfusion
    have hclosing : Code.closingKind kind ≠ .data := by cases kind <;> exact TokenKind.noConfusion
    refine List.forall_mem_cons.mpr ⟨hopening, List.forall_mem_append.mpr
      ⟨fun token htoken hdata => ?_, List.forall_mem_singleton.mpr hclosing⟩⟩
    have hcode := hwords token htoken
    rw [hdata] at hcode
    cases hcode

theorem isPhrase_readConstruct (h : readConstruct options kind cursor = .ok (c, next)) :
    (construct c).IsPhrase options.delimiters := by
  rcases readConstruct_cases h with ⟨-, hcomment⟩ | ⟨-, hraw⟩ | ⟨hkind, -, htag⟩
  · exact isPhrase_readComment hcomment
  · exact isPhrase_readRaw? hraw
  · exact isPhrase_readTag hkind htag

/-- The text up to the next opening mark has none in it. -/
theorem absent_take_textLength {d : Delimiters} (hne : ∀ kind, (d.opener kind).toList ≠ [])
    (text : List Char) : d.Absent (text.take (textLength d text)) := by
  obtain ⟨chars, rest, rfl, hlength, -, hbare⟩ := exists_textLength d text
  rw [hlength, List.take_left]
  rintro kind ⟨passed, after, rfl⟩
  exact hbare passed ((d.opener kind).toList ++ after) (List.append_assoc _ _ _)
    (List.append_ne_nil_of_left_ne_nil (hne kind) _) kind
    ⟨after ++ rest, (List.append_assoc _ _ _).symm⟩

theorem isPhrase_splitFrom (hne : ∀ kind, (options.delimiters.opener kind).toList ≠ [])
    {bound : Nat} {segments : List Segment} {finish : Position}
    (h : splitFrom options bound cursor = .ok (segments, finish)) :
    ∀ segment ∈ segments, segment.IsPhrase options.delimiters := by
  induction bound generalizing cursor segments finish with
  | zero => cases h
  | succ bound ih =>
    have htext : ∀ segment ∈ (if textLength options.delimiters cursor.rest = 0 then [] else
        [text cursor.pos (cursor.rest.take (textLength options.delimiters cursor.rest))]),
        segment.IsPhrase options.delimiters := by
      split
      · exact List.forall_mem_nil _
      · exact List.forall_mem_singleton.mpr (absent_take_textLength hne cursor.rest)
    simp only [splitFrom] at h
    split at h
    · cases h
      exact List.forall_mem_nil _
    · split at h
      · cases h
        exact htext
      · split at h
        · cases h
        · next c next hconstruct =>
          split at h
          · cases h
          · next segments finish hrest =>
            cases h
            exact List.forall_mem_append.mpr ⟨htext,
              List.forall_mem_cons.mpr ⟨isPhrase_readConstruct hconstruct, ih hrest⟩⟩

/-- The tokens of phrases are phrases, and those that stand for text have no opening mark. -/
theorem phrases_tokensAfter (strip : Bool) {segments : List Segment}
    (h : ∀ segment ∈ segments, segment.IsPhrase options.delimiters) :
    (tokensAfter options strip segments).map Token.kind ∈ phrase.star.matches' ∧
      ∀ token ∈ tokensAfter options strip segments, token.kind = .data →
        token.value.toList ≠ [] ∧ options.delimiters.Absent token.value.toList := by
  induction segments generalizing strip with
  | nil => exact ⟨Language.nil_mem_kstar _, List.forall_mem_nil _⟩
  | cons segment segments ih =>
    obtain ⟨hsegment, hsegments⟩ := List.forall_mem_cons.mp h
    cases segment with
    | text start chars =>
      obtain ⟨hwords, hdata⟩ := ih false hsegments
      simp only [tokensAfter]
      split
      · exact ⟨hwords, hdata⟩
      · next hvisible =>
        have hword : [TokenKind.data] ∈ phrase.matches' := .inl (.inl (.inl rfl))
        refine ⟨append_mem_kstar hword hwords, List.forall_mem_cons.mpr ⟨fun _ => ?_, hdata⟩⟩
        rw [String.toList_ofList]
        refine ⟨fun hempty => hvisible (List.isEmpty_iff.mpr hempty), fun kind hopener => ?_⟩
        exact hsegment kind (hopener.trans (visibleText_isInfix strip start chars _))
    | construct c =>
      obtain ⟨hwords, hdata⟩ := ih c.stripsAfter hsegments
      obtain ⟨htokens, hplain⟩ := hsegment
      simp only [tokensAfter]
      refine ⟨?_, List.forall_mem_append.mpr
        ⟨fun token htoken hkind => absurd hkind (hplain token htoken), hdata⟩⟩
      rw [List.map_append]
      rcases htokens with hempty | hphrase
      · rwa [hempty]
      · exact append_mem_kstar hphrase hwords

end Segment

/-- The tokens of a source are runs of text, raw blocks, and tags of both kinds with words of code
    between their marks. A run of text is not empty, and no mark that opens a tag or a comment stands
    in it. -/
theorem tokenize_sentence {options : LanguageOptions} {source : String} {tokens : List Token}
    (hvalid : options.delimiters.Valid) (h : tokenize options source = .ok tokens) :
    tokens.map Token.kind ∈ sentence.matches' ∧
      ∀ token ∈ tokens, token.kind = .data →
        token.value ≠ "" ∧ options.delimiters.Absent token.value.toList := by
  unfold tokenize at h
  split at h
  · cases h
  · next segments finish hsplit =>
    cases h
    obtain ⟨hphrases, hdata⟩ := Segment.phrases_tokensAfter false
      (Segment.isPhrase_splitFrom hvalid.toList_opener_ne_nil hsplit)
    refine ⟨?_, List.forall_mem_append.mpr ⟨fun token htoken hkind => ?_,
      List.forall_mem_singleton.mpr TokenKind.noConfusion⟩⟩
    · rw [List.map_append]
      exact Language.append_mem_mul hphrases rfl
    · obtain ⟨hne, habsent⟩ := hdata token htoken hkind
      exact ⟨fun hempty => hne (String.toList_eq_nil_iff.mpr hempty), habsent⟩

/-- One opening mark starts another one, and a comment and a raw block stand between text. -/
theorem tokenize_sentence_nested_openers :
    let options : LanguageOptions :=
      { delimiters := ⟨"<%", "%>", "<%=", "%>", "<%#", "#>"⟩ }
    let source := "a <%= f(x) -%>\n b<%# c #>  <%- raw %><% y %><% endraw %><% endif %> < %"
    options.delimiters.Valid ∧ ∃ tokens, tokenize options source = .ok tokens ∧
      tokens.map Token.kind ∈ sentence.matches' ∧
      (∀ token ∈ tokens, token.kind = .data →
        token.value ≠ "" ∧ options.delimiters.Absent token.value.toList) ∧
      shownTexts tokens = ["a ".toList, "b".toList, " < %".toList] := by
  intro options source
  have hvalid : options.delimiters.Valid := by decide
  have htokens : (tokenize options source).toOption.any (fun tokens =>
      shownTexts tokens = ["a ".toList, "b".toList, " < %".toList]) = true := by
    decide +kernel
  obtain ⟨tokens, hok, htexts⟩ := exists_eq_ok_of_any htokens
  obtain ⟨hwords, hdata⟩ := tokenize_sentence hvalid hok
  exact ⟨hvalid, tokens, hok, hwords, hdata, of_decide_eq_true htexts⟩

end TemplateManifest
