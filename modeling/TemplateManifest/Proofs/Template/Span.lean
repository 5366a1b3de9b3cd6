import TemplateManifest.Proofs.Text.Lead
import TemplateManifest.Template.Lexer

/-!
The parts of a source as they stand in its text: which mark opens a construct, and where it ends.
-/

namespace TemplateManifest

open Text

/-- A `-`, if it is there. -/
def dash (present : Bool) : List Char :=
  if present then ['-'] else []

/-- The text starts with a closing mark. The mark has a `-` before it wherever it can. -/
def ClosesAt (closer : List Char) (closed : Bool) (text : List Char) : Prop :=
  dash closed ++ closer <+: text ∧ (dash true ++ closer <+: text → closed = true)

/-- The mark of this kind is the longest one that opens a construct at the head of the text. -/
structure Delimiters.Opens (d : Delimiters) (kind : TagKind) (text : List Char) : Prop where
  head : (d.opener kind).toList <+: text
  longest : ∀ other, (d.opener other).toList <+: text →
    (d.opener other).length ≤ (d.opener kind).length

/-- The characters of one word of code, of the given kind, with some text after it. -/
def Code.IsWord (kind : TokenKind) (word rest : List Char) : Prop :=
  ∃ c letters value, word = c :: letters ∧
    Code.token c (letters ++ rest) = .ok (kind, value, word.length)

/-- The code of a tag, read from some depth of braces, up to its closing mark: white space and words.
    A closing mark counts wherever a word could start outside braces. -/
inductive Code.Until (closer : List Char) : Nat → List Char → List Char → Prop
  | mark {white ending : List Char} {closed : Bool} (hwhite : IsLead isWhiteSpace white ending)
      (hmark : ClosesAt closer closed ending) : Until closer 0 white ending
  | word {depth : Nat} {kind : TokenKind} {white word code ending : List Char}
      (hwhite : IsLead isWhiteSpace white (word ++ (code ++ ending)))
      (hword : IsWord kind word (code ++ ending))
      (hopen : depth = 0 → ∀ closed, ¬ dash closed ++ closer <+: word ++ (code ++ ending))
      (hcode : Until closer (braceDepth depth kind) code ending) :
      Until closer depth (white ++ (word ++ code)) ending

/-- What stands around the word in a tag that opens or closes a raw block. -/
structure RawTag where
  opened : Bool
  before : List Char
  after : List Char
  closed : Bool

namespace RawTag

/-- The characters of the tag. -/
def source (d : Delimiters) (tag : RawTag) (word : List Char) : List Char :=
  d.blockStart.toList ++ (dash tag.opened ++ (tag.before ++ (word ++ (tag.after ++
    (dash tag.closed ++ d.blockEnd.toList)))))

/-- Only white space stands around the word. -/
def IsSpaced (tag : RawTag) : Prop :=
  (∀ c ∈ tag.before, isWhiteSpace c = true) ∧ ∀ c ∈ tag.after, isWhiteSpace c = true

/-- The tag opens a raw block in front of some text. -/
structure OpensRaw (d : Delimiters) (tag : RawTag) (word rest : List Char) : Prop where
  word : String.ofList word ∈ Segment.rawWords
  before : ∀ c ∈ tag.before, isWhiteSpace c = true
  after : IsLead isWhiteSpace tag.after (dash tag.closed ++ d.blockEnd.toList ++ rest)
  whole : ∀ c ∈ (tag.after ++ (dash tag.closed ++ d.blockEnd.toList ++ rest)).head?,
    (c.isAlphanum || c = '_') = false
  mark : ClosesAt d.blockEnd.toList tag.closed (dash tag.closed ++ d.blockEnd.toList ++ rest)

/-- The tag closes a raw block in front of some text. It takes as much white space as it can. -/
structure ClosesRaw (d : Delimiters) (tag : RawTag) (rest : List Char) : Prop where
  spaced : tag.IsSpaced
  longest : ∀ white closed, (∀ c ∈ white, isWhiteSpace c = true) →
    white ++ (dash closed ++ d.blockEnd.toList) <+:
      tag.after ++ (dash tag.closed ++ d.blockEnd.toList ++ rest) →
    white.length ≤ tag.after.length
  mark : ClosesAt d.blockEnd.toList tag.closed (dash tag.closed ++ d.blockEnd.toList ++ rest)

end RawTag

/-- The word that closes the raw block that another word has opened. -/
def rawEnd (word : List Char) : List Char :=
  "end".toList ++ word

/-- A part of a source: text, or a construct. -/
inductive Span where
  | text (chars : List Char)
  | comment (body : List Char)
  | raw (word : List Char) (first : RawTag) (body : List Char) (last : RawTag)
  | tag (kind : TagKind) (opened : Bool) (code : List Char) (closed : Bool)

namespace Span

/-- The characters of a part. -/
def source (d : Delimiters) : Span → List Char
  | text chars => chars
  | comment body => d.commentStart.toList ++ (body ++ d.commentEnd.toList)
  | raw word first body last => first.source d word ++ (body ++ last.source d (rawEnd word))
  | tag kind opened code closed =>
    (d.opener kind).toList ++ (dash opened ++ (code ++ (dash closed ++ (d.closer kind).toList)))

/-- A `-` follows the mark that opens the construct. -/
def stripsBefore (d : Delimiters) : Span → Bool
  | text _ => false
  | comment body => (body ++ d.commentEnd.toList).head? = some '-'
  | raw _ first _ _ => first.opened
  | tag _ opened _ _ => opened

/-- A `-` stands before the mark that closes the construct. -/
def stripsAfter : Span → Bool
  | text _ => false
  | comment body => body.getLast? = some '-'
  | raw _ _ _ last => last.closed
  | tag _ _ _ closed => closed

/-- The part is a block tag, a comment or a raw block. -/
def isBlock : Span → Bool
  | text _ => false
  | comment _ | raw _ _ _ _ => true
  | tag kind _ _ _ => kind = .block

/-- The construct stands in a source in front of `rest`. -/
inductive Stands (d : Delimiters) : Span → List Char → Prop
  | comment {body rest : List Char} (hopens : d.Opens .comment ((comment body).source d ++ rest))
      (hclose : ∀ passed left,
        body ++ d.commentEnd.toList = passed ++ (d.commentEnd.toList ++ left) → left = []) :
      Stands d (comment body) rest
  | raw {word body rest : List Char} {first last : RawTag}
      (hopens : d.Opens .block ((raw word first body last).source d ++ rest))
      (hfirst : first.OpensRaw d word (body ++ (last.source d (rawEnd word) ++ rest)))
      (hbody : ∀ passed left, body = passed ++ left → left ≠ [] → ∀ other : RawTag, other.IsSpaced →
        ¬ other.source d (rawEnd word) <+: left ++ (last.source d (rawEnd word) ++ rest))
      (hlast : last.ClosesRaw d rest) : Stands d (raw word first body last) rest
  | tag {kind : TagKind} {code rest : List Char} {opened closed : Bool} (hkind : kind ≠ .comment)
      (hopens : d.Opens kind ((tag kind opened code closed).source d ++ rest))
      (hopened : opened = false →
        (code ++ (dash closed ++ (d.closer kind).toList ++ rest)).head? ≠ some '-')
      (hraw : kind = .block → ∀ word (first : RawTag) after, first.OpensRaw d word after →
        (tag kind opened code closed).source d ++ rest ≠ first.source d word ++ after)
      (hcode : Code.Until (d.closer kind).toList 0 code
        (dash closed ++ (d.closer kind).toList ++ rest))
      (hmark : ClosesAt (d.closer kind).toList closed
        (dash closed ++ (d.closer kind).toList ++ rest)) :
      Stands d (tag kind opened code closed) rest

end Span

section Marks

variable {closer text : List Char} {closed : Bool}

theorem closingMark?_eq_none_iff :
    Code.closingMark? closer text = none ↔ ∀ closed, ¬ dash closed ++ closer <+: text := by
  simp only [Code.closingMark?, startsWith_iff_isPrefix, dash, Bool.forall_bool]
  split
  · next h => simp [h]
  · next h => split <;> simp_all

theorem closesAt_of_closingMark? {count : Nat}
    (h : Code.closingMark? closer text = some (closed, count)) :
    ClosesAt closer closed text ∧ count = (dash closed ++ closer).length := by
  simp only [Code.closingMark?, startsWith_iff_isPrefix] at h
  split at h
  · next hdash =>
    cases h
    exact ⟨⟨hdash, fun _ => rfl⟩, by simp [dash]⟩
  · next hdash =>
    split at h
    · next hplain =>
      cases h
      exact ⟨⟨hplain, fun hmark => absurd hmark hdash⟩, rfl⟩
    · cases h

theorem closingMark?_of_closesAt (h : ClosesAt closer closed text) :
    Code.closingMark? closer text = some (closed, (dash closed ++ closer).length) := by
  cases hmark : Code.closingMark? closer text with
  | none => exact absurd h.1 (closingMark?_eq_none_iff.mp hmark closed)
  | some found =>
    obtain ⟨closed', count⟩ := found
    obtain ⟨hcloses, rfl⟩ := closesAt_of_closingMark? hmark
    have hsame : closed' = closed := by
      cases closed' with
      | true => exact (h.2 hcloses.1).symm
      | false =>
        cases closed with
        | true => exact hcloses.2 h.1
        | false => rfl
    rw [hsame]

end Marks

section Openers

variable {d : Delimiters} {text : List Char}

/-- Of the marks of some kinds that stand at the head of the text, the longest is chosen. -/
theorem Segment.opens_foldl (d : Delimiters) (text : List Char) (kinds : List TagKind)
    (best : Option TagKind) (hbest : ∀ b ∈ best, (d.opener b).toList <+: text) :
    let chosen := kinds.foldl (fun best kind =>
      let opener := (d.opener kind).toList
      if startsWith opener text && best.all fun b => (d.opener b).length < opener.length then
        some kind
      else best) best
    (∀ b ∈ chosen, (d.opener b).toList <+: text) ∧
      ∀ kind, kind ∈ best ∨ kind ∈ kinds → (d.opener kind).toList <+: text →
        ∃ b ∈ chosen, (d.opener kind).length ≤ (d.opener b).length := by
  induction kinds generalizing best with
  | nil =>
    exact ⟨hbest, fun kind hkind _ => ⟨kind, hkind.resolve_right List.not_mem_nil, Nat.le_refl _⟩⟩
  | cons first kinds ih =>
    rw [List.foldl_cons]
    dsimp only
    split
    · next hchosen =>
      rw [Bool.and_eq_true, startsWith_iff_isPrefix] at hchosen
      obtain ⟨hhead, hlongest⟩ := ih (some first) (by simpa using hchosen.1)
      refine ⟨hhead, fun kind hkind hprefix => ?_⟩
      rcases hkind with hkind | hkind
      · obtain ⟨b, hb, hle⟩ := hlongest first (.inl rfl) hchosen.1
        have hlt := (Option.all_eq_true _ _).mp hchosen.2 kind hkind
        rw [decide_eq_true_eq, String.length_toList] at hlt
        exact ⟨b, hb, Nat.le_trans (Nat.le_of_lt hlt) hle⟩
      · rcases List.mem_cons.mp hkind with rfl | hkind
        · exact hlongest kind (.inl rfl) hprefix
        · exact hlongest kind (.inr hkind) hprefix
    · next hkept =>
      obtain ⟨hhead, hlongest⟩ := ih best hbest
      refine ⟨hhead, fun kind hkind hprefix => ?_⟩
      rcases hkind with hkind | hkind
      · exact hlongest kind (.inl hkind) hprefix
      · rcases List.mem_cons.mp hkind with rfl | hkind
        · obtain ⟨b, hb, hle⟩ : ∃ b ∈ best, (d.opener kind).length ≤ (d.opener b).length := by
            rw [startsWith_iff_isPrefix.mpr hprefix, Bool.true_and] at hkept
            cases best with
            | none => exact absurd rfl hkept
            | some b => exact ⟨b, rfl, by simpa [String.length_toList] using hkept⟩
          obtain ⟨b', hb', hle'⟩ := hlongest b (.inl hb) (hbest b hb)
          exact ⟨b', hb', Nat.le_trans hle hle'⟩
        · exact hlongest kind (.inr hkind) hprefix

theorem Segment.opens_of_openerAt? {kind : TagKind} (h : openerAt? d text = some kind) :
    d.Opens kind text := by
  obtain ⟨hhead, hlongest⟩ := opens_foldl d text [.block, .variable, .comment] none
    fun _ h => nomatch h
  refine ⟨hhead kind h, fun other hother => ?_⟩
  obtain ⟨b, hb, hle⟩ := hlongest other (.inr (by cases other <;> decide)) hother
  obtain rfl : kind = b := Option.some.inj (h.symm.trans hb)
  exact hle

theorem Segment.openerAt?_eq_none_iff :
    openerAt? d text = none ↔ ∀ kind, ¬ (d.opener kind).toList <+: text := by
  obtain ⟨hhead, hlongest⟩ := opens_foldl d text [.block, .variable, .comment] none
    fun _ h => nomatch h
  constructor
  · intro h kind hkind
    obtain ⟨b, hb, -⟩ := hlongest kind (.inr (by cases kind <;> decide)) hkind
    exact nomatch h.symm.trans hb
  · intro h
    cases hopener : openerAt? d text with
    | none => rfl
    | some kind => exact absurd (hhead kind hopener) (h kind)

/-- The text up to the next opening mark has no such mark in it. -/
theorem Segment.exists_textLength (d : Delimiters) (text : List Char) :
    ∃ chars rest, text = chars ++ rest ∧ textLength d text = chars.length ∧
      (rest = [] ∨ ∃ kind, openerAt? d rest = some kind) ∧
      ∀ passed left, chars = passed ++ left → left ≠ [] →
        ∀ kind, ¬ (d.opener kind).toList <+: left ++ rest := by
  induction text with
  | nil => exact ⟨[], [], rfl, rfl, .inl rfl, fun passed left h hleft => by simp_all⟩
  | cons c text ih =>
    rw [textLength]
    cases hopener : openerAt? d (c :: text) with
    | some kind =>
      exact ⟨[], c :: text, rfl, rfl, .inr ⟨kind, hopener⟩, fun passed left h hleft => by simp_all⟩
    | none =>
      obtain ⟨chars, rest, rfl, hlength, hrest, hchars⟩ := ih
      refine ⟨c :: chars, rest, rfl, by rw [hlength, List.length_cons], hrest, ?_⟩
      intro passed left h hleft
      cases passed with
      | nil =>
        obtain rfl : c :: chars = left := h
        exact openerAt?_eq_none_iff.mp hopener
      | cons _ passed => exact hchars passed left (List.cons.inj h).2 hleft

end Openers

/-- What opens at the cursor is read as a comment, as a raw block or, if it is neither, as a tag. -/
theorem Segment.readConstruct_cases {options : LanguageOptions} {kind : TagKind} {cursor : Cursor}
    {result : Except SyntaxError (Construct × Cursor)} (h : readConstruct options kind cursor = result) :
    (kind = .comment ∧ readComment options cursor = result) ∨
      (kind = .block ∧ readRaw? options cursor = some result) ∨
      (kind ≠ .comment ∧ (kind = .block → readRaw? options cursor = none) ∧
        readTag options kind cursor = result) := by
  cases kind with
  | comment => exact .inl ⟨rfl, h⟩
  | «variable» => exact .inr (.inr ⟨by decide, by simp, h⟩)
  | block =>
    rw [readConstruct] at h
    cases hraw : readRaw? options cursor with
    | none =>
      rw [hraw, Option.getD_none] at h
      exact .inr (.inr ⟨by decide, fun _ => rfl, h⟩)
    | some found =>
      rw [hraw, Option.getD_some] at h
      exact .inr (.inl ⟨rfl, congrArg some h⟩)

end TemplateManifest
