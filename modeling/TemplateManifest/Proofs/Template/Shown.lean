import TemplateManifest.Proofs.Template.TextRuns

/-!
What a template shows: its source is cut into runs of text and constructs, and the tokens that stand
for text are what is left of the runs. Main statement: `tokenize_shows`.
-/

namespace TemplateManifest

open Text

/-- The texts of the tokens that stand for text. -/
def shownTexts (tokens : List Token) : List (List Char) :=
  (tokens.filter fun token => token.kind = .data).map fun token => token.value.toList

section Tiling

variable {options : LanguageOptions} {before after : List Span} {chars lineBreak rest : List Char}

theorem shownTexts_cons (value : String) (pos : Position) (tokens : List Token) :
    shownTexts (⟨.data, value, pos⟩ :: tokens) = value.toList :: shownTexts tokens :=
  rfl

theorem shownTexts_append (tokens more : List Token) :
    shownTexts (tokens ++ more) = shownTexts tokens ++ shownTexts more := by
  simp only [shownTexts, List.filter_append, List.map_append]

theorem shownTexts_eq_nil {tokens : List Token} (h : ∀ token ∈ tokens, token.kind ≠ .data) :
    shownTexts tokens = [] := by
  rw [shownTexts, List.filter_eq_nil_iff.mpr (by simpa using h), List.map_nil]

theorem leadingLineBreak_of_append {more : List Char}
    (h : Segment.leadingLineBreak (chars ++ more) <+: chars) :
    Segment.leadingLineBreak chars = Segment.leadingLineBreak (chars ++ more) := by
  generalize htext : chars ++ more = text at h ⊢
  unfold Segment.leadingLineBreak at h
  split at h
  · obtain ⟨left, rfl⟩ := h
    rfl
  · obtain ⟨left, rfl⟩ := h
    rfl
  · next hcarriage hfeed =>
    unfold Segment.leadingLineBreak
    split
    · exact absurd htext.symm (hcarriage _)
    · exact absurd htext.symm (hfeed _)
    · rfl

/-- A line break is told by any text that starts with it. -/
theorem lineBreakAfter_eq_of_isPrefix {text : List Char}
    (hbreak : lineBreak = lineBreakAfter options before text) (hlead : lineBreak <+: chars)
    (hchars : chars <+: text) : lineBreak = lineBreakAfter options before chars := by
  have hleading : Segment.leadingLineBreak text <+: chars →
      Segment.leadingLineBreak chars = Segment.leadingLineBreak text := by
    obtain ⟨more, rfl⟩ := hchars
    exact leadingLineBreak_of_append
  unfold lineBreakAfter Span.lineBreak at hbreak ⊢
  split
  · next hlast =>
    rw [hlast] at hbreak
    exact hbreak
  · next span hlast =>
    rw [hlast] at hbreak
    dsimp only at hbreak
    split
    · next htrims =>
      rw [if_pos htrims] at hbreak
      rw [hleading (hbreak ▸ hlead), hbreak]
    · next htrims => rwa [if_neg htrims] at hbreak

/-- A run of text as a part of a source, unless it is empty. -/
def textSpan (chars : List Char) : List Span :=
  if chars = [] then [] else [.text chars]

theorem sourceOf_textSpan (d : Delimiters) (chars : List Char) :
    sourceOf d (textSpan chars) = chars := by
  unfold textSpan
  split
  · next h => rw [h]; rfl
  · exact List.append_nil chars

theorem sourceOf_append (d : Delimiters) (spans more : List Span) :
    sourceOf d (spans ++ more) = sourceOf d spans ++ sourceOf d more :=
  List.flatMap_append

theorem sourceOf_singleton (d : Delimiters) (span : Span) : sourceOf d [span] = span.source d :=
  List.flatMap_singleton _ _

theorem visibleText_nil (strip : Bool) (start : Position) (next : Option Construct) :
    Segment.visibleText options strip start [] next = [] := by
  rw [visibleText_eq]
  simp [trimStart, trimEnd, Segment.dropIndent]

/-- A run of text as segments, unless it is empty. -/
def textSegments (start : Position) (chars : List Char) : List Segment :=
  if chars.length = 0 then [] else [.text start chars]

section Split

open Segment

variable {kind : TagKind} {pos : Position} {bound : Nat} {data rest : List Char}
  (hne : data ++ rest ≠ [])
  (hlength : textLength options.delimiters (data ++ rest) = data.length)

include hne hlength

theorem Segment.splitFrom_of_text (hopener : openerAt? options.delimiters rest = none) :
    splitFrom options (bound + 1) ⟨data ++ rest, pos⟩ = .ok (textSegments pos data, pos.after data) := by
  simp only [splitFrom, List.isEmpty_eq_false_iff.mpr hne, hlength, Cursor.skip_append, List.take_left,
    hopener]
  rfl

theorem Segment.splitFrom_of_error {e : SyntaxError}
    (hopener : openerAt? options.delimiters rest = some kind)
    (hread : readConstruct options kind ⟨rest, pos.after data⟩ = .error e) :
    splitFrom options (bound + 1) ⟨data ++ rest, pos⟩ = .error e := by
  simp only [splitFrom, List.isEmpty_eq_false_iff.mpr hne, hlength, Cursor.skip_append, hopener, hread]
  rfl

/-- The reading of a source goes on after a run of text and a construct. -/
theorem Segment.splitFrom_of_construct {c : Construct} {next : Cursor}
    (hopener : openerAt? options.delimiters rest = some kind)
    (hread : readConstruct options kind ⟨rest, pos.after data⟩ = .ok (c, next)) :
    splitFrom options (bound + 1) ⟨data ++ rest, pos⟩ =
      (splitFrom options bound next).map fun found =>
        (textSegments pos data ++ .construct c :: found.1, found.2) := by
  simp only [splitFrom, List.isEmpty_eq_false_iff.mpr hne, hlength, Cursor.skip_append, List.take_left,
    hopener, hread]
  cases splitFrom options bound next <;> rfl

end Split

/-- The tokens of a run of text: its visible part, unless it is empty. -/
def dataTokens (options : LanguageOptions) (strip : Bool) (start : Position) (chars : List Char)
    (next : Option Construct) : List Token :=
  let visible := Segment.visibleText options strip start chars next
  if visible = [] then [] else [⟨.data, String.ofList visible, start⟩]

/-- The tokens of a run of text and what comes after it. -/
theorem tokensAfter_textSegments {strip : Bool} {start : Position} {segments : List Segment}
    (hsegments : segments = [] ∨ ∃ c rest, segments = .construct c :: rest) :
    Segment.tokensAfter options strip (textSegments start chars ++ segments) =
      dataTokens options strip start chars (Segment.nextConstruct? segments) ++
        Segment.tokensAfter options false segments := by
  unfold textSegments dataTokens
  split
  · next hempty =>
    obtain rfl := List.length_eq_zero_iff.mp hempty
    rw [visibleText_nil]
    rcases hsegments with rfl | ⟨c, rest, rfl⟩ <;> rfl
  · rw [List.singleton_append, Segment.tokensAfter]
    split
    · next hvisible =>
      rw [List.isEmpty_iff] at hvisible
      simp only [hvisible, ite_true, List.nil_append]
    · next hvisible =>
      rw [List.isEmpty_iff] at hvisible
      simp only [hvisible, ite_false, List.singleton_append]

theorem shownTexts_tokensAfter (strip : Bool) (start : Position) (segments : List Segment)
    (hsegments : segments = [] ∨ ∃ c rest, segments = .construct c :: rest) :
    shownTexts (Segment.tokensAfter options strip (textSegments start chars ++ segments)) =
      [Segment.visibleText options strip start chars (Segment.nextConstruct? segments)].filter
        (· ≠ []) ++ shownTexts (Segment.tokensAfter options false segments) := by
  rw [tokensAfter_textSegments hsegments, shownTexts_append, dataTokens]
  split
  · next hvisible =>
    rw [hvisible]
    rfl
  · next hvisible =>
    rw [List.filter_cons_of_pos (by simpa using hvisible), shownTexts_cons, String.toList_ofList]
    rfl

/-- What has been read of a source from some place on. -/
structure Tiled (options : LanguageOptions) (before : List Span) (segments : List Segment)
    (text : List Char) (after : List Span) (shown : List (List Char)) : Prop where
  source : sourceOf options.delimiters after = text
  fits : ∀ p ∈ places before after, p.Fits options
  shows : List.Forall₂ (Place.Shows options) ((places before after).filter Place.isText) shown
  tokens : shownTexts (Segment.tokensAfter options (before.getLast?.any Span.stripsAfter) segments) =
    shown.filter (· ≠ [])

theorem tiled_nil (before : List Span) : Tiled options before [] [] [] [] :=
  ⟨rfl, List.forall_mem_nil _, .nil, rfl⟩

/-- The segments and the parts go on with the same construct, or both end. -/
inductive Meets (d : Delimiters) : List Segment → List Span → Prop
  | nil : Meets d [] []
  | construct {c : Construct} {span : Span} {segments : List Segment} {after : List Span}
      (hstrips : c.stripsBefore = span.stripsBefore d)
      (hblock : decide (c.kind ≠ .variable) = span.isBlock) :
      Meets d (.construct c :: segments) (span :: after)

/-- A run of text in front of a construct or of the end. -/
theorem Tiled.text {segments : List Segment} {shown : List (List Char)}
    (hbreak : lineBreak = lineBreakAfter options before (lineBreak ++ chars))
    (hlast : ∀ chars', before.getLast? ≠ some (.text chars'))
    (hbare : ∀ passed left, chars = passed ++ left → left ≠ [] →
      ∀ kind, ¬ (options.delimiters.opener kind).toList <+: left ++ rest)
    (hmeets : Meets options.delimiters segments after)
    (h : Tiled options (before ++ textSpan (lineBreak ++ chars)) segments rest after shown) :
    ∃ shown', Tiled options before
      (textSegments (Position.first.after (sourceOf options.delimiters before ++ lineBreak)) chars ++
        segments)
      (lineBreak ++ (chars ++ rest)) (textSpan (lineBreak ++ chars) ++ after) shown' := by
  obtain ⟨hsource, hfits, hshows, htokens⟩ := h
  have hsource' : sourceOf options.delimiters (textSpan (lineBreak ++ chars) ++ after) =
      lineBreak ++ (chars ++ rest) := by
    rw [sourceOf_append, sourceOf_textSpan, hsource, List.append_assoc]
  by_cases hempty : lineBreak ++ chars = []
  · have hspan : textSpan (lineBreak ++ chars) = [] := if_pos hempty
    obtain rfl := (List.append_eq_nil_iff.mp hempty).2
    rw [hspan] at hfits hshows htokens hsource' ⊢
    rw [List.append_nil] at hfits hshows htokens
    exact ⟨shown, hsource', hfits, hshows, htokens⟩
  · have hspan : textSpan (lineBreak ++ chars) = [.text (lineBreak ++ chars)] := if_neg hempty
    rw [hspan] at hfits hshows htokens hsource' ⊢
    rw [List.singleton_append] at hsource' ⊢
    let start := Position.first.after (sourceOf options.delimiters before ++ lineBreak)
    let visible := Segment.visibleText options (before.getLast?.any Span.stripsAfter) start chars
      (Segment.nextConstruct? segments)
    refine ⟨visible :: shown, hsource', ?_, ?_, ?_⟩
    · refine List.forall_mem_cons.mpr ⟨.text hempty hlast ?_, hfits⟩
      intro passed left heq hleft hlength kind
      rw [← hbreak] at hlength
      obtain ⟨passed, rfl⟩ := List.prefix_of_prefix_length_le (List.prefix_append lineBreak chars)
        ⟨left, heq.symm⟩ hlength
      rw [List.append_assoc, List.append_cancel_left_eq] at heq
      rw [hsource]
      exact hbare passed left heq hleft kind
    · refine .cons (Place.shows_visibleText hbreak rfl ?_ ?_) hshows
      · cases hmeets with
        | nil => rfl
        | construct hstrips _ => exact hstrips
      · cases hmeets with
        | nil => rfl
        | construct _ hblock => exact hblock
    · rw [shownTexts_tokensAfter]
      · rw [List.getLast?_concat] at htokens
        rw [← List.singleton_append (l := shown), List.filter_append, ← htokens]
        rfl
      · cases hmeets with
        | nil => exact .inl rfl
        | construct => exact .inr ⟨_, _, rfl⟩

theorem Span.Stands.ne_text {d : Delimiters} {span : Span} (h : span.Stands d rest)
    (chars : List Char) : span ≠ .text chars := by
  rintro rfl
  cases h

/-- A construct. -/
theorem Tiled.construct {c : Construct} {cursor next : Cursor} {span : Span}
    {segments : List Segment} {shown : List (List Char)}
    (hcovers : c.Covers options cursor next span rest)
    (h : Tiled options (before ++ [span]) segments rest after shown) :
    Tiled options before (.construct c :: segments) cursor.rest (span :: after) shown := by
  obtain ⟨hsource, hfits, hshows, htokens⟩ := h
  refine ⟨?_, List.forall_mem_cons.mpr ⟨.construct ?_, hfits⟩, ?_, ?_⟩
  · rw [hcovers.source, ← hsource]
    rfl
  · rw [hsource]
    exact hcovers.stands
  · rw [places, List.filter_cons_of_neg]
    · exact hshows
    · cases hcovers.stands <;> exact Bool.false_ne_true
  · rw [Segment.tokensAfter, shownTexts_append, shownTexts_eq_nil hcovers.tokens, List.nil_append,
      hcovers.stripsAfter, ← htokens, List.getLast?_concat]
    rfl

/-- A source is split, from some place on, into segments and at the same time into parts: runs of text
    and constructs take turns, and a run of text starts with the line break that the construct before
    it drops. -/
inductive Splits (options : LanguageOptions) :
    List Span → List Char → Cursor → List Segment → List Span → Position → Prop
  | finish {before : List Span} {lineBreak chars : List Char} {pos : Position}
      (hbreak : lineBreak = lineBreakAfter options before (lineBreak ++ chars))
      (hlast : ∀ chars', before.getLast? ≠ some (.text chars'))
      (hbare : ∀ passed left, chars = passed ++ left → left ≠ [] →
        ∀ kind, ¬ (options.delimiters.opener kind).toList <+: left ++ []) :
      Splits options before lineBreak ⟨chars, pos⟩ (textSegments pos chars)
        (textSpan (lineBreak ++ chars)) (pos.after chars)
  | construct {before after : List Span} {lineBreak chars rest left : List Char}
      {pos finish : Position} {c : Construct} {next : Cursor} {span : Span}
      {segments : List Segment}
      (hbreak : lineBreak = lineBreakAfter options before (lineBreak ++ chars))
      (hlast : ∀ chars', before.getLast? ≠ some (.text chars'))
      (hbare : ∀ passed left, chars = passed ++ left → left ≠ [] →
        ∀ kind, ¬ (options.delimiters.opener kind).toList <+: left ++ rest)
      (hcovers : c.Covers options ⟨rest, pos.after chars⟩ next span left)
      (hspells : span.Spells options.delimiters ⟨rest, pos.after chars⟩ left c.tokens)
      (h : Splits options (before ++ textSpan (lineBreak ++ chars) ++ [span])
        (span.lineBreak options left) next segments after finish) :
      Splits options before lineBreak ⟨chars ++ rest, pos⟩
        (textSegments pos chars ++ .construct c :: segments)
        (textSpan (lineBreak ++ chars) ++ span :: after) finish

theorem exists_splits {bound : Nat} {cursor : Cursor} {segments : List Segment} {finish : Position}
    (hne : options.delimiters.commentEnd.toList ≠ [])
    (h : Segment.splitFrom options bound cursor = .ok (segments, finish))
    (hbreak : lineBreak = lineBreakAfter options before (lineBreak ++ cursor.rest))
    (hlast : ∀ chars', before.getLast? ≠ some (.text chars')) :
    ∃ after, Splits options before lineBreak cursor segments after finish := by
  induction bound generalizing before lineBreak cursor segments finish with
  | zero => cases h
  | succ bound ih =>
    obtain ⟨text, pos⟩ := cursor
    obtain ⟨chars, rest, rfl, hlength, hend, hbare⟩ :=
      Segment.exists_textLength options.delimiters text
    have hbreak' : lineBreak = lineBreakAfter options before (lineBreak ++ chars) :=
      lineBreakAfter_eq_of_isPrefix hbreak (List.prefix_append _ _)
        ⟨rest, List.append_assoc _ _ _⟩
    simp only [Segment.splitFrom, hlength, Cursor.skip_append, List.take_left] at h
    split at h
    · next hempty =>
      obtain ⟨rfl, rfl⟩ := List.append_eq_nil_iff.mp (List.isEmpty_iff.mp hempty)
      cases h
      exact ⟨_, .finish hbreak' hlast hbare⟩
    · split at h
      · next hopener =>
        cases h
        obtain rfl : rest = [] := hend.resolve_right fun ⟨kind, hkind⟩ => by
          cases hopener.symm.trans hkind
        rw [List.append_nil]
        exact ⟨_, .finish hbreak' hlast hbare⟩
      · next kind hopener =>
        split at h
        · cases h
        · next c next hread =>
          split at h
          · cases h
          · next segments finish hrest =>
            cases h
            obtain ⟨span, left, hcovers, hspells⟩ :=
              Segment.exists_covers hne (Segment.opens_of_openerAt? hopener) hread
            have hspan : (before ++ textSpan (lineBreak ++ chars) ++ [span]).getLast? = some span :=
              List.getLast?_concat
            have hleft : span.lineBreak options left = lineBreakAfter options
                (before ++ textSpan (lineBreak ++ chars) ++ [span])
                (span.lineBreak options left ++ next.rest) := by
              rw [← hcovers.left, lineBreakAfter, hspan]
            obtain ⟨after, hafter⟩ := ih hrest hleft
              (fun chars' hchars =>
                hcovers.stands.ne_text chars' (Option.some.inj (hspan.symm.trans hchars)))
            exact ⟨_, .construct hbreak' hlast hbare hcovers hspells hafter⟩

/-- Where a construct ends, in terms of the parts before the place after it. -/
theorem Construct.Covers.pos_eq {c : Construct} {next : Cursor} {span : Span} {left : List Char}
    (hcovers : c.Covers options ⟨rest, (Position.first.after
      (sourceOf options.delimiters before ++ lineBreak)).after chars⟩ next span left) :
    next.pos = Position.first.after (sourceOf options.delimiters
      (before ++ textSpan (lineBreak ++ chars) ++ [span]) ++ span.lineBreak options left) := by
  rw [hcovers.pos]
  simp only [sourceOf_append, sourceOf_textSpan, sourceOf_singleton, ← Position.after_append,
    List.append_assoc]

theorem Splits.exists_tiled {cursor : Cursor} {segments : List Segment} {finish : Position}
    (h : Splits options before lineBreak cursor segments after finish)
    (hpos : cursor.pos = Position.first.after (sourceOf options.delimiters before ++ lineBreak)) :
    ∃ shown, Tiled options before segments (lineBreak ++ cursor.rest) after shown := by
  induction h with
  | finish hbreak hlast hbare =>
    obtain rfl := hpos
    obtain ⟨shown, htiled⟩ := Tiled.text hbreak hlast hbare .nil (tiled_nil _)
    exact ⟨shown, by simpa using htiled⟩
  | construct hbreak hlast hbare hcovers hspells h ih =>
    obtain rfl := hpos
    obtain ⟨shown, htiled⟩ := ih hcovers.pos_eq
    rw [← hcovers.left] at htiled
    exact Tiled.text hbreak hlast hbare (.construct hcovers.stripsBefore hcovers.kind)
      (Tiled.construct hcovers htiled)

theorem exists_tiled {bound : Nat} {cursor : Cursor} {segments : List Segment} {finish : Position}
    (hne : options.delimiters.commentEnd.toList ≠ [])
    (h : Segment.splitFrom options bound cursor = .ok (segments, finish))
    (hbreak : lineBreak = lineBreakAfter options before (lineBreak ++ cursor.rest))
    (hlast : ∀ chars', before.getLast? ≠ some (.text chars'))
    (hpos : cursor.pos = Position.first.after (sourceOf options.delimiters before ++ lineBreak)) :
    ∃ after shown, Tiled options before segments (lineBreak ++ cursor.rest) after shown := by
  obtain ⟨after, hsplits⟩ := exists_splits hne h hbreak hlast
  exact ⟨after, hsplits.exists_tiled hpos⟩

end Tiling

theorem Delimiters.Valid.toList_ne_nil {d : Delimiters} (h : d.Valid) (name : String) {mark : String}
    (hmark : (name, mark) ∈ d.named) : mark.toList ≠ [] := by
  unfold Valid fault? at h
  split at h
  · cases h
  · next hnone =>
    exact fun hempty => List.find?_eq_none.mp hnone _ hmark
      (by rw [String.toList_eq_nil_iff.mp hempty]; rfl)

theorem Delimiters.Valid.toList_opener_ne_nil {d : Delimiters} (h : d.Valid) (kind : TagKind) :
    (d.opener kind).toList ≠ [] := by
  match kind with
  | .block => exact h.toList_ne_nil "block_start" (by simp [named, opener])
  | .variable => exact h.toList_ne_nil "variable_start" (by simp [named, opener])
  | .comment => exact h.toList_ne_nil "comment_start" (by simp [named, opener])

theorem Delimiters.Valid.toList_closer_ne_nil {d : Delimiters} (h : d.Valid) (kind : TagKind) :
    (d.closer kind).toList ≠ [] := by
  match kind with
  | .block => exact h.toList_ne_nil "block_end" (by simp [named, closer])
  | .variable => exact h.toList_ne_nil "variable_end" (by simp [named, closer])
  | .comment => exact h.toList_ne_nil "comment_end" (by simp [named, closer])

theorem Delimiters.Valid.toList_commentEnd_ne_nil {d : Delimiters} (h : d.Valid) :
    d.commentEnd.toList ≠ [] :=
  h.toList_closer_ne_nil .comment

/-- A source is its runs of text and its constructs one after the other, each of them where it belongs.
    The tokens that stand for text are what is shown of the runs, in order, less what is empty. -/
theorem tokenize_shows {options : LanguageOptions} {source : String} {tokens : List Token}
    (hvalid : options.delimiters.Valid) (h : tokenize options source = .ok tokens) :
    ∃ spans shown, sourceOf options.delimiters spans = source.toList ∧
      (∀ p ∈ places [] spans, p.Fits options) ∧
      List.Forall₂ (Place.Shows options) ((places [] spans).filter Place.isText) shown ∧
      shownTexts tokens = shown.filter (· ≠ []) := by
  have hne := hvalid.toList_commentEnd_ne_nil
  unfold tokenize at h
  split at h
  · cases h
  · next segments finish hsplit =>
    cases h
    have hlast : ∀ chars, ([] : List Span).getLast? ≠ some (.text chars) := fun _ heq => by cases heq
    have hbreak : [] = lineBreakAfter options [] ([] ++ source.toList) := rfl
    obtain ⟨spans, shown, htiled⟩ := exists_tiled hne hsplit hbreak hlast rfl
    refine ⟨spans, shown, htiled.source, htiled.fits, htiled.shows, ?_⟩
    rw [shownTexts_append, ← htiled.tokens]
    exact List.append_nil _

/-- Line breaks and indents around block tags are not shown. -/
theorem tokenize_shows_indented :
    let options : LanguageOptions := { trimBlocks := true, lstripBlocks := true }
    let source := "<ul>\n  \x7b% if x -%\x7d\n\n  <li>\n\t\x7b# y #\x7d\r\n" ++
      " \x7b% endif %\x7d\n</ul>"
    options.delimiters.Valid ∧ ∃ tokens spans shown, tokenize options source = .ok tokens ∧
      sourceOf options.delimiters spans = source.toList ∧ (∀ p ∈ places [] spans, p.Fits options) ∧
      List.Forall₂ (Place.Shows options) ((places [] spans).filter Place.isText) shown ∧
      shown.filter (· ≠ []) = ["<ul>\n".toList, "<li>\n".toList, "</ul>".toList] := by
  intro options source
  have hvalid : options.delimiters.Valid := by decide
  have htokens : (tokenize options source).toOption.any (fun tokens =>
      shownTexts tokens = ["<ul>\n".toList, "<li>\n".toList, "</ul>".toList]) = true := by
    decide +kernel
  obtain ⟨tokens, hok, htexts⟩ := exists_eq_ok_of_any htokens
  obtain ⟨spans, shown, hsource, hfits, hshows, hshown⟩ := tokenize_shows hvalid hok
  exact ⟨hvalid, tokens, spans, shown, hok, hsource, hfits, hshows,
    hshown.symm.trans (of_decide_eq_true htexts)⟩

end TemplateManifest
