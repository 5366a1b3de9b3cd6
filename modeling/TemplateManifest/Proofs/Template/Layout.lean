import TemplateManifest.Proofs.Template.Shown

/-!
Where the tokens of a source stand. Every part of a source gives some tokens, each of them at an
offset of the source, and the offsets grow along the source. Main statement: `tokenize_spots`.
-/

namespace TemplateManifest

open Text

/-- The cursor some characters into a source. -/
def cursorAt (source : List Char) (offset : Nat) : Cursor :=
  ⟨source.drop offset, Position.first.after (source.take offset)⟩

theorem skip_cursorAt (source : List Char) (offset count : Nat) :
    (cursorAt source offset).skip count = cursorAt source (offset + count) := by
  simp only [Cursor.skip, cursorAt, List.drop_drop, List.take_add, Position.after_append]

theorem cursorAt_append (passed rest : List Char) :
    cursorAt (passed ++ rest) passed.length = ⟨rest, Position.first.after passed⟩ := by
  rw [cursorAt, List.drop_left, List.take_left]

/-- A token at an offset of a source. -/
structure Spot where
  offset : Nat
  token : Token

namespace Spot

/-- The token carries the place of its offset. -/
def IsExact (source : List Char) (spot : Spot) : Prop :=
  spot.token.pos = Position.first.after (source.take spot.offset)

end Spot

/-- The words of the code between two offsets of a source, each at its first character. Nothing but
    white space stands between them. -/
inductive Code.Words (source : List Char) : Nat → List Spot → Nat → Prop
  | nil {start stop : Nat} (hle : start ≤ stop)
      (hwhite : ∀ c ∈ (source.take stop).drop start, isWhiteSpace c = true) :
      Words source start [] stop
  | cons {start stop count : Nat} {c : Char} {letters : List Char} {spot : Spot} {spots : List Spot}
      (hle : start ≤ spot.offset)
      (hwhite : ∀ c ∈ (source.take spot.offset).drop start, isWhiteSpace c = true)
      (hletters : source.drop spot.offset = c :: letters)
      (hword : token c letters = .ok (spot.token.kind, spot.token.value, count))
      (h : Words source (spot.offset + count) spots stop) : Words source start (spot :: spots) stop

/-- What a part of a source gives: a run of text one token, unless nothing of it is shown, at what
    follows the line break that the construct before it drops; a comment nothing; a raw block one
    token at its opening mark; and a tag one token at its opening mark, one at each word, and one at
    its closing mark or the `-` before it. -/
inductive Place.Emits (options : LanguageOptions) (source : List Char) : Place → List Spot → Prop
  | text {before after : List Span} {chars shown : List Char} {pos : Position}
      (hshows : Shows options ⟨before, .text chars, after⟩ shown) :
      Emits options source ⟨before, .text chars, after⟩
        (if shown = [] then [] else
          [⟨(sourceOf options.delimiters before ++ lineBreakAfter options before chars).length,
            ⟨.data, String.ofList shown, pos⟩⟩])
  | comment {before after : List Span} {body : List Char} :
      Emits options source ⟨before, .comment body, after⟩ []
  | raw {before after : List Span} {word body : List Char} {first last : RawTag} {value : String}
      {pos : Position} : Emits options source ⟨before, .raw word first body last, after⟩
        [⟨(sourceOf options.delimiters before).length, ⟨.raw, value, pos⟩⟩]
  | tag {before after : List Span} {kind : TagKind} {opened closed : Bool} {code : List Char}
      {start stop : Nat} {words : List Spot} {pos pos' : Position}
      (hstart : start = (sourceOf options.delimiters before ++
        ((options.delimiters.opener kind).toList ++ dash opened)).length)
      (hstop : stop = start + code.length) (hwords : Code.Words source start words stop) :
      Emits options source ⟨before, .tag kind opened code closed, after⟩
        (⟨(sourceOf options.delimiters before).length,
            ⟨Segment.openingKind kind, options.delimiters.opener kind, pos⟩⟩ ::
          (words ++ [⟨stop, ⟨Code.closingKind kind, options.delimiters.closer kind, pos'⟩⟩]))

section Code

variable {source : List Char}

theorem Code.words_of_readFrom {closer : List Char} {kind : TagKind} {opened : Position}
    {bound depth start : Nat} {reading : Reading}
    (h : readFrom closer kind opened bound depth (cursorAt source start) = .ok reading) :
    ∃ words stop, Words source start words stop ∧ (∀ spot ∈ words, spot.IsExact source) ∧
      reading.tokens = words.map Spot.token ++
        [⟨closingKind kind, String.ofList closer, Position.first.after (source.take stop)⟩] ∧
      reading.finish = cursorAt source (stop + (dash reading.stripsAfter ++ closer).length) ∧
      stop < source.length ∧ dash reading.stripsAfter ++ closer <+: source.drop stop := by
  induction bound generalizing depth start reading with
  | zero => cases h
  | succ bound ih =>
    obtain ⟨white, text, htext, hwhite⟩ := exists_isLead isWhiteSpace (source.drop start)
    have hle : start ≤ start + white.length := Nat.le_add_right _ _
    have hblank : ∀ c ∈ (source.take (start + white.length)).drop start, isWhiteSpace c = true := by
      rw [List.drop_take, Nat.add_sub_cancel_left, htext, List.take_left]
      exact hwhite.1
    have hlead : ((cursorAt source start).rest.takeWhile isWhiteSpace).length = white.length := by
      rw [cursorAt, htext, hwhite.takeWhile_eq]
    simp only [readFrom, hlead, skip_cursorAt] at h
    split at h
    · cases h
    · next c letters hletters =>
      split at h
      · next closed count hmark =>
        cases h
        have hmark' : closingMark? closer (source.drop (start + white.length)) = some (closed, count) := by
          split at hmark
          · exact hmark
          · cases hmark
        obtain ⟨hcloses, rfl⟩ := closesAt_of_closingMark? hmark'
        have hstop : start + white.length < source.length :=
          List.length_lt_of_drop_ne_nil fun hnil => List.cons_ne_nil c letters (hletters.symm.trans hnil)
        exact ⟨[], _, .nil hle hblank, List.forall_mem_nil _, rfl, rfl, hstop, hcloses.1⟩
      · split at h
        · cases h
        · next tokenKind value count htoken =>
          split at h
          · cases h
          · next reading' hread =>
            cases h
            obtain ⟨words, stop, hwords, hexact, htokens, hfinish⟩ := ih hread
            let spot : Spot :=
              ⟨start + white.length, tokenKind, value, (cursorAt source (start + white.length)).pos⟩
            exact ⟨spot :: words, stop, .cons hle hblank hletters htoken hwords,
              List.forall_mem_cons.mpr ⟨rfl, hexact⟩, congrArg _ htokens, hfinish⟩

/-- The words of some code stand one after the other. -/
theorem Code.Words.ascending {start stop : Nat} {words : List Spot} (h : Words source start words stop) :
    start ≤ stop ∧ (words.map Spot.offset).Pairwise (· < ·) ∧
      ∀ spot ∈ words, start ≤ spot.offset ∧ spot.offset < stop := by
  induction h with
  | nil hle hwhite => exact ⟨hle, .nil, List.forall_mem_nil _⟩
  | @cons start stop count c letters spot words hle hwhite hletters hword h ih =>
    obtain ⟨hstop, hascending, hwords⟩ := ih
    have hcount := (length_token hword).1
    refine ⟨by omega, .cons (List.forall_mem_map.mpr fun word hmem => ?_) hascending,
      List.forall_mem_cons.mpr ⟨⟨hle, by omega⟩, fun word hmem => ?_⟩⟩
    · have hword := (hwords word hmem).1
      omega
    · obtain ⟨hlower, hupper⟩ := hwords word hmem
      exact ⟨by omega, hupper⟩

end Code

section Layout

variable {options : LanguageOptions} {source : List Char} {before after : List Span}

/-- The tokens that a part gives stand one after the other inside the part. -/
theorem Place.Emits.ascending {p : Place} {spots : List Spot} (hvalid : options.delimiters.Valid)
    (h : p.Emits options source spots) :
    (spots.map Spot.offset).Pairwise (· < ·) ∧ ∀ spot ∈ spots,
      (sourceOf options.delimiters p.before).length ≤ spot.offset ∧
      spot.offset <
        (sourceOf options.delimiters p.before).length + (p.span.source options.delimiters).length := by
  cases h with
  | comment => exact ⟨.nil, List.forall_mem_nil _⟩
  | raw =>
    refine ⟨List.pairwise_singleton _ _, List.forall_mem_singleton.mpr ⟨Nat.le_refl _, ?_⟩⟩
    have hopener := List.length_pos_iff.mpr (hvalid.toList_opener_ne_nil .block)
    simp only [Span.source, RawTag.source, List.length_append, Delimiters.opener] at hopener ⊢
    omega
  | @text before after chars shown pos hshows =>
    split
    · exact ⟨.nil, List.forall_mem_nil _⟩
    · next hne =>
      refine ⟨List.pairwise_singleton _ _, List.forall_mem_singleton.mpr ?_⟩
      cases hshows with
      | text hchars hbreak hlead htail =>
        have hshown := List.length_pos_iff.mpr hne
        have hlength := congrArg List.length hchars
        rw [← hbreak]
        simp only [Span.source, List.length_append] at hlength ⊢
        omega
  | @tag before after kind opened closed code start stop words pos pos' hstart hstop hwords =>
    obtain ⟨-, hascending, hinside⟩ := hwords.ascending
    have hopener := List.length_pos_iff.mpr (hvalid.toList_opener_ne_nil kind)
    have hcloser := List.length_pos_iff.mpr (hvalid.toList_closer_ne_nil kind)
    have hlength : ((Span.tag kind opened code closed).source options.delimiters).length =
        (options.delimiters.opener kind).toList.length + ((dash opened).length + (code.length +
          ((dash closed).length + (options.delimiters.closer kind).toList.length))) := by
      simp only [Span.source, List.length_append]
    simp only [List.length_append] at hstart
    dsimp only
    rw [hlength]
    constructor
    · rw [List.map_cons, List.map_append, List.pairwise_cons, List.pairwise_append]
      refine ⟨?_, hascending, List.pairwise_singleton _ _, ?_⟩
      · refine List.forall_mem_append.mpr ⟨List.forall_mem_map.mpr fun word hword => ?_,
          List.forall_mem_singleton.mpr (by dsimp only; omega)⟩
        have hword := (hinside word hword).1
        dsimp only
        omega
      · exact List.forall_mem_map.mpr fun word hword =>
          List.forall_mem_singleton.mpr (hinside word hword).2
    · refine List.forall_mem_cons.mpr ⟨by dsimp only; omega, List.forall_mem_append.mpr
        ⟨fun word hword => ?_, List.forall_mem_singleton.mpr (by dsimp only; omega)⟩⟩
      have hword := hinside word hword
      omega

/-- The tokens that some parts give stand one after the other. -/
theorem ascending_of_emits {emitted : List (List Spot)} (hvalid : options.delimiters.Valid)
    (h : List.Forall₂ (Place.Emits options source) (places before after) emitted) :
    (emitted.flatten.map Spot.offset).Pairwise (· < ·) ∧ ∀ spot ∈ emitted.flatten,
      (sourceOf options.delimiters before).length ≤ spot.offset ∧
      spot.offset < (sourceOf options.delimiters (before ++ after)).length := by
  induction after generalizing before emitted with
  | nil =>
    cases h
    exact ⟨.nil, List.forall_mem_nil _⟩
  | cons span after ih =>
    cases h with
    | @cons _ spots _ emitted hspots hemitted =>
      obtain ⟨hascending, hinside⟩ := hspots.ascending hvalid
      obtain ⟨hlater, hafter⟩ := ih hemitted
      simp only [sourceOf_append, sourceOf_singleton, List.length_append] at hinside hafter
      have hsource : (sourceOf options.delimiters (before ++ span :: after)).length =
          (sourceOf options.delimiters before).length + ((span.source options.delimiters).length +
            (sourceOf options.delimiters after).length) := by
        rw [← List.singleton_append (l := after), sourceOf_append, sourceOf_append, sourceOf_singleton,
          List.length_append, List.length_append]
      rw [hsource, List.flatten_cons]
      refine ⟨?_, List.forall_mem_append.mpr ⟨fun spot hspot => ?_, fun spot hspot => ?_⟩⟩
      · rw [List.map_append, List.pairwise_append]
        refine ⟨hascending, hlater, ?_⟩
        simp only [List.forall_mem_map]
        intro spot hspot spot' hspot'
        have hupper := (hinside spot hspot).2
        have hlower := (hafter spot' hspot').1
        omega
      · have hbounds := hinside spot hspot
        omega
      · have hbounds := hafter spot hspot
        omega

/-- What is known of the tokens of a source from some place on. -/
structure Emitted (options : LanguageOptions) (source : List Char) (before : List Span)
    (segments : List Segment) (after : List Span) (emitted : List (List Spot)) : Prop where
  emits : List.Forall₂ (Place.Emits options source) (places before after) emitted
  exact : ∀ spot ∈ emitted.flatten, spot.IsExact source
  tokens : Segment.tokensAfter options (before.getLast?.any Span.stripsAfter) segments =
    emitted.flatten.map Spot.token

variable {chars lineBreak rest : List Char}

theorem emitted_nil (source : List Char) (before : List Span) :
    Emitted options source before [] [] [] :=
  ⟨.nil, List.forall_mem_nil _, rfl⟩

/-- A run of text in front of a construct or of the end. -/
theorem Emitted.text {segments : List Segment} {emitted : List (List Spot)}
    (hsource : source = sourceOf options.delimiters before ++ (lineBreak ++ rest))
    (hbreak : lineBreak = lineBreakAfter options before (lineBreak ++ chars))
    (hmeets : Meets options.delimiters segments after)
    (h : Emitted options source (before ++ textSpan (lineBreak ++ chars)) segments after emitted) :
    ∃ emitted', Emitted options source before
      (textSegments (Position.first.after (sourceOf options.delimiters before ++ lineBreak)) chars ++
        segments) (textSpan (lineBreak ++ chars) ++ after) emitted' := by
  obtain ⟨hemits, hexact, htokens⟩ := h
  by_cases hempty : lineBreak ++ chars = []
  · have hspan : textSpan (lineBreak ++ chars) = [] := if_pos hempty
    obtain rfl := (List.append_eq_nil_iff.mp hempty).2
    rw [hspan] at hemits htokens ⊢
    rw [List.append_nil] at hemits htokens
    exact ⟨emitted, hemits, hexact, htokens⟩
  · have hspan : textSpan (lineBreak ++ chars) = [.text (lineBreak ++ chars)] := if_neg hempty
    rw [hspan] at hemits htokens ⊢
    rw [List.singleton_append]
    have hsegments : segments = [] ∨ ∃ c rest, segments = .construct c :: rest := by
      cases hmeets with
      | nil => exact .inl rfl
      | construct => exact .inr ⟨_, _, rfl⟩
    let start := Position.first.after (sourceOf options.delimiters before ++ lineBreak)
    have hshows : Place.Shows options ⟨before, .text (lineBreak ++ chars), after⟩
        (Segment.visibleText options (before.getLast?.any Span.stripsAfter) start chars
          (Segment.nextConstruct? segments)) := by
      refine Place.shows_visibleText hbreak rfl ?_ ?_
      · cases hmeets with
        | nil => rfl
        | construct hstrips _ => exact hstrips
      · cases hmeets with
        | nil => rfl
        | construct _ hblock => exact hblock
    refine ⟨_, .cons (@Place.Emits.text _ _ _ _ _ _ start hshows) hemits, ?_, ?_⟩
    · rw [List.flatten_cons, List.forall_mem_append, ← hbreak]
      refine ⟨?_, hexact⟩
      split
      · exact List.forall_mem_nil _
      · refine List.forall_mem_singleton.mpr ?_
        rw [Spot.IsExact, hsource, ← List.append_assoc, List.take_left]
    · rw [List.getLast?_concat] at htokens
      rw [tokensAfter_textSegments hsegments, dataTokens, List.flatten_cons, List.map_append, ← htokens]
      congr 1
      split <;> rfl

/-- A construct. -/
theorem Span.Spells.exists_spots {c : Construct} {cursor next : Cursor} {span : Span}
    {left : List Char} (after : List Span) (hvalid : options.delimiters.Valid)
    (hcovers : c.Covers options cursor next span left)
    (hspells : span.Spells options.delimiters cursor left c.tokens)
    (hcursor : cursor = cursorAt source (sourceOf options.delimiters before).length) :
    ∃ spots, Place.Emits options source ⟨before, span, after⟩ spots ∧
      (∀ spot ∈ spots, spot.IsExact source) ∧ c.tokens = spots.map Spot.token := by
  subst hcursor
  obtain ⟨hsource, -⟩ := hcovers
  generalize c.tokens = tokens at hspells ⊢
  cases hspells with
  | comment => exact ⟨[], .comment, List.forall_mem_nil _, rfl⟩
  | @raw _ _ _ _ _ value =>
    exact ⟨[⟨_, .raw, value, (cursorAt source _).pos⟩], .raw, List.forall_mem_singleton.mpr rfl, rfl⟩
  | @tag kind opened code _ reading hread hrest =>
    rw [skip_cursorAt] at hread
    obtain ⟨words, stop, hwords, hexact, htokens, hfinish, -, hmark⟩ := Code.words_of_readFrom hread
    have hstop : stop = (sourceOf options.delimiters before).length +
        ((options.delimiters.opener kind).toList ++ dash opened).length + code.length := by
      have hleft := congrArg (fun cursor : Cursor => cursor.rest.length) hfinish
      have hlength := congrArg List.length hsource
      have hcloser := List.length_pos_iff.mpr (hvalid.toList_closer_ne_nil kind)
      have hfits := hmark.length_le
      simp only [cursorAt, Span.source, List.length_append, List.length_drop, hrest]
        at hleft hlength hfits ⊢
      omega
    let start := (sourceOf options.delimiters before).length
    refine ⟨⟨start, _, _, Position.first.after (source.take start)⟩ ::
      (words ++ [⟨stop, _, _, Position.first.after (source.take stop)⟩]),
      .tag (List.length_append ..).symm hstop hwords, ?_, ?_⟩
    · exact List.forall_mem_cons.mpr ⟨rfl, List.forall_mem_append.mpr
        ⟨hexact, List.forall_mem_singleton.mpr rfl⟩⟩
    · rw [htokens, List.map_cons, List.map_append, String.ofList_toList]
      rfl

/-- The tokens of a source are those that its parts give. -/
theorem Splits.exists_emitted {cursor : Cursor} {segments : List Segment} {finish : Position}
    (hvalid : options.delimiters.Valid)
    (h : Splits options before lineBreak cursor segments after finish)
    (hsource : source = sourceOf options.delimiters before ++ (lineBreak ++ cursor.rest))
    (hpos : cursor.pos = Position.first.after (sourceOf options.delimiters before ++ lineBreak)) :
    (∃ emitted, Emitted options source before segments after emitted) ∧
      finish = Position.first.after source := by
  induction h with
  | finish hbreak hlast hbare =>
    obtain rfl := hpos
    obtain ⟨emitted, hemitted⟩ := Emitted.text hsource hbreak .nil (emitted_nil _ _)
    refine ⟨⟨emitted, by simpa using hemitted⟩, ?_⟩
    rw [hsource, ← Position.after_append, List.append_assoc]
  | @construct before after lineBreak chars rest left pos finish c next span segments hbreak hlast hbare
      hcovers hspells h ih =>
    obtain rfl := hpos
    have hpassed : source = sourceOf options.delimiters (before ++ textSpan (lineBreak ++ chars)) ++
        rest := by
      rw [hsource, sourceOf_append, sourceOf_textSpan]
      simp only [List.append_assoc]
    have hleft : source = sourceOf options.delimiters
        (before ++ textSpan (lineBreak ++ chars) ++ [span]) ++
          (span.lineBreak options left ++ next.rest) := by
      rw [← hcovers.left, sourceOf_append _ (_ ++ _), sourceOf_singleton, List.append_assoc,
        ← hcovers.source]
      exact hpassed
    obtain ⟨⟨emitted, hemits, hexact, htokens⟩, hfinish⟩ := ih hleft hcovers.pos_eq
    have hcursor : (⟨rest, (Position.first.after
        (sourceOf options.delimiters before ++ lineBreak)).after chars⟩ : Cursor) =
        cursorAt source
          (sourceOf options.delimiters (before ++ textSpan (lineBreak ++ chars))).length := by
      rw [hpassed, cursorAt_append, sourceOf_append, sourceOf_textSpan]
      simp only [← Position.after_append, List.append_assoc]
    obtain ⟨spots, hspots, hexact', htokens'⟩ := hspells.exists_spots after hvalid hcovers hcursor
    refine ⟨Emitted.text hsource hbreak (.construct hcovers.stripsBefore hcovers.kind)
      ⟨.cons hspots hemits, ?_, ?_⟩, hfinish⟩
    · exact List.forall_mem_append.mpr ⟨hexact', hexact⟩
    · rw [List.getLast?_concat] at htokens
      rw [Segment.tokensAfter, hcovers.stripsAfter, List.flatten_cons, List.map_append, ← htokens,
        htokens']
      rfl

end Layout

/-- A source is its runs of text and its constructs one after the other, each of them where it belongs.
    The tokens are what these parts give, in order, and the end-of-source token after them; each
    carries the place of its offset, and the offsets grow. -/
theorem tokenize_spots {options : LanguageOptions} {source : String} {tokens : List Token}
    (hvalid : options.delimiters.Valid) (h : tokenize options source = .ok tokens) :
    ∃ spans emitted, sourceOf options.delimiters spans = source.toList ∧
      (∀ p ∈ places [] spans, p.Fits options) ∧
      List.Forall₂ (Place.Emits options source.toList) (places [] spans) emitted ∧
      ∃ spots last, spots = emitted.flatten ++ [⟨source.toList.length, Token.eofAt last⟩] ∧
        tokens = spots.map Spot.token ∧ (∀ spot ∈ spots, spot.IsExact source.toList) ∧
        (spots.map Spot.offset).Pairwise (· < ·) := by
  unfold tokenize at h
  split at h
  · cases h
  · next segments finish hsplit =>
    cases h
    have hlast : ∀ chars, ([] : List Span).getLast? ≠ some (.text chars) := fun _ heq => by cases heq
    have hbreak : [] = lineBreakAfter options [] ([] ++ source.toList) := rfl
    obtain ⟨spans, hsplits⟩ := exists_splits hvalid.toList_commentEnd_ne_nil hsplit hbreak hlast
    obtain ⟨shown, htiled⟩ := hsplits.exists_tiled rfl
    obtain ⟨⟨emitted, hemits, hexact, htokens⟩, rfl⟩ :=
      hsplits.exists_emitted hvalid (List.nil_append source.toList).symm rfl
    obtain ⟨hascending, hinside⟩ := ascending_of_emits hvalid hemits
    rw [List.nil_append, htiled.source] at hinside
    refine ⟨spans, emitted, htiled.source, htiled.fits, hemits, _,
      Position.first.after source.toList, rfl, ?_, ?_, ?_⟩
    · rw [List.map_append, ← htokens]
      rfl
    · refine List.forall_mem_append.mpr ⟨hexact, List.forall_mem_singleton.mpr ?_⟩
      rw [Spot.IsExact, List.take_length]
      rfl
    · rw [List.map_append, List.pairwise_append]
      exact ⟨hascending, List.pairwise_singleton _ _, List.forall_mem_map.mpr fun spot hspot =>
        List.forall_mem_singleton.mpr (hinside spot hspot).2⟩

end TemplateManifest
