import TemplateManifest.Proofs.Template.RawBlock
import TemplateManifest.Proofs.Template.TagCode

/-!
What is read of a source where a construct opens is that construct.
-/

namespace TemplateManifest

open Text

/-- Nothing ends earlier that ends as what `breakOn` takes does. -/
theorem eq_nil_of_breakOn {needle text before rest : List Char}
    (h : breakOn needle text = some (before, rest)) :
    ∀ passed left, before ++ needle = passed ++ (needle ++ left) → left = [] := by
  fun_induction breakOn needle text generalizing before with
  | case1 text rest' hfound =>
    cases h
    intro passed left heq
    have hlength := congrArg List.length heq
    simp only [List.nil_append, List.length_append] at hlength
    exact List.length_eq_zero_iff.mp (by omega)
  | case2 => cases h
  | case3 c text hnone ih =>
    obtain ⟨⟨before', rest'⟩, hbreak, heq⟩ := Option.map_eq_some_iff.mp h
    cases heq
    intro passed left heq
    cases passed with
    | cons _ passed => exact ih hbreak passed left (List.cons.inj heq).2
    | nil =>
      have hfound : after? needle (c :: text) = some (left ++ rest') := by
        rw [after?_eq_some_iff, eq_append_of_breakOn hbreak, ← List.append_assoc needle]
        exact congrArg (· ++ rest') heq
      cases hnone.symm.trans hfound

theorem leadingLineBreak_isPrefix (text : List Char) : Segment.leadingLineBreak text <+: text := by
  unfold Segment.leadingLineBreak
  split
  · exact ⟨_, rfl⟩
  · exact ⟨_, rfl⟩
  · exact List.nil_prefix

/-- The line break after a construct that is dropped with it, at the head of a text. -/
def Span.lineBreak (options : LanguageOptions) (span : Span) (rest : List Char) : List Char :=
  if options.trimBlocks && span.isBlock then Segment.leadingLineBreak rest else []

theorem Span.lineBreak_isPrefix (options : LanguageOptions) (span : Span) (rest : List Char) :
    span.lineBreak options rest <+: rest := by
  unfold lineBreak
  split
  · exact leadingLineBreak_isPrefix rest
  · exact List.nil_prefix

/-- What has been read at a cursor is the construct that stands there. -/
structure Construct.Covers (options : LanguageOptions) (c : Construct) (cursor next : Cursor)
    (span : Span) (rest : List Char) : Prop where
  source : cursor.rest = span.source options.delimiters ++ rest
  left : rest = span.lineBreak options rest ++ next.rest
  stands : span.Stands options.delimiters rest
  stripsBefore : c.stripsBefore = span.stripsBefore options.delimiters
  stripsAfter : c.stripsAfter = span.stripsAfter
  kind : decide (c.kind ≠ .variable) = span.isBlock
  tokens : ∀ token ∈ c.tokens, token.kind ≠ .data
  pos : next.pos =
    cursor.pos.after (span.source options.delimiters ++ span.lineBreak options rest)

/-- The tokens of a construct that has been read at a cursor, in front of some text. -/
inductive Span.Spells (d : Delimiters) (cursor : Cursor) : Span → List Char → List Token → Prop
  | comment {body rest : List Char} : Spells d cursor (.comment body) rest []
  | raw {word body rest : List Char} {first last : RawTag} {value : String} :
      Spells d cursor (.raw word first body last) rest [⟨.raw, value, cursor.pos⟩]
  | tag {kind : TagKind} {opened : Bool} {code rest : List Char} {reading : Code.Reading}
      (hread : Code.read (d.closer kind).toList kind cursor.pos
        (cursor.skip ((d.opener kind).toList ++ dash opened).length) = .ok reading)
      (hrest : reading.finish.rest = rest) :
      Spells d cursor (.tag kind opened code reading.stripsAfter) rest
        (⟨Segment.openingKind kind, d.opener kind, cursor.pos⟩ :: reading.tokens)

namespace Segment

variable {options : LanguageOptions} {cursor next : Cursor} {c : Construct} {span : Span}
  {rest : List Char} {kind : TagKind}

theorem covers_finish {tokens : List Token} {stripsBefore stripsAfter : Bool}
    (hsource : cursor.rest = span.source options.delimiters ++ rest)
    (hstands : span.Stands options.delimiters rest)
    (hbefore : stripsBefore = span.stripsBefore options.delimiters)
    (hafter : stripsAfter = span.stripsAfter)
    (hkind : decide (kind ≠ .variable) = span.isBlock)
    (htokens : ∀ token ∈ tokens, token.kind ≠ .data)
    (h : finish options kind cursor (span.source options.delimiters).length tokens stripsBefore
      stripsAfter = (c, next)) :
    c.Covers options cursor next span rest := by
  unfold finish at h
  rw [Cursor.skip_length hsource, hkind, hsource, List.take_left] at h
  obtain ⟨left, hleft⟩ := span.lineBreak_isPrefix options rest
  have hnext : (Cursor.mk rest (cursor.pos.after (span.source options.delimiters))).skip
      (span.lineBreak options rest).length =
        ⟨left, cursor.pos.after (span.source options.delimiters ++ span.lineBreak options rest)⟩ := by
    rw [Cursor.skip_length hleft.symm, Position.after_append]
  obtain ⟨rfl, hcursor⟩ := Prod.mk.inj h
  obtain rfl := hnext.symm.trans hcursor
  exact ⟨hsource, hleft.symm, hstands, hbefore, hafter, hkind, htokens, rfl⟩

theorem tokens_finish {count : Nat} {tokens : List Token} {stripsBefore stripsAfter : Bool}
    (h : finish options kind cursor count tokens stripsBefore stripsAfter = (c, next)) :
    c.tokens = tokens := by
  obtain ⟨rfl, -⟩ := Prod.mk.inj h
  rfl

theorem decide_dashLength (text : List Char) :
    decide (dashLength text = 1) = decide (text.head? = some '-') := by
  unfold dashLength
  split
  · rfl
  · next hother =>
    cases text with
    | nil => rfl
    | cons c text =>
      refine (decide_eq_false fun hhead => ?_).symm
      obtain rfl : c = '-' := Option.some.inj hhead
      exact hother text rfl

theorem exists_covers_of_readComment (hne : options.delimiters.commentEnd.toList ≠ [])
    (hopens : options.delimiters.Opens .comment cursor.rest)
    (h : readComment options cursor = .ok (c, next)) :
    ∃ body rest, c.Covers options cursor next (.comment body) rest ∧ c.tokens = [] := by
  obtain ⟨inside, hinside⟩ : options.delimiters.commentStart.toList <+: cursor.rest := hopens.head
  simp only [readComment] at h
  rw [← hinside, List.drop_left] at h
  split at h
  · cases h
  · next body rest hbreak =>
    obtain rfl := eq_append_of_breakOn hbreak
    have hsource : cursor.rest = (Span.comment body).source options.delimiters ++ rest := by
      rw [← hinside]
      simp only [Span.source, List.append_assoc]
    have hbefore : decide (dashLength (body ++ options.delimiters.commentEnd.toList ++ rest) = 1) =
        (Span.comment body).stripsBefore options.delimiters := by
      rw [decide_dashLength, List.head?_append, Option.or_of_isSome]
      · rfl
      · exact List.isSome_head?.mpr (List.append_ne_nil_of_right_ne_nil body hne)
    rw [hbefore, ← List.length_append, ← List.length_append, List.append_assoc] at h
    exact ⟨body, rest, covers_finish hsource
      (.comment (hsource ▸ hopens) (eq_nil_of_breakOn hbreak)) rfl rfl rfl (List.forall_mem_nil _)
      (Except.ok.inj h), tokens_finish (Except.ok.inj h)⟩

theorem exists_covers_of_readRaw? (hopens : options.delimiters.Opens .block cursor.rest)
    (h : readRaw? options cursor = some (.ok (c, next))) :
    ∃ word first body last rest value, c.Covers options cursor next (.raw word first body last) rest ∧
      c.tokens = [⟨.raw, value, cursor.pos⟩] := by
  obtain ⟨inside, hinside⟩ : options.delimiters.blockStart.toList <+: cursor.rest := hopens.head
  obtain ⟨opened, spaced, rfl, hopened⟩ := exists_dash inside
  simp only [readRaw?] at h
  rw [← hinside, List.drop_left, dashLength_append hopened, List.drop_left, decide_length_dash] at h
  obtain ⟨⟨name, closed, count⟩, hopening, h⟩ := Option.map_eq_some_iff.mp h
  obtain ⟨before, after, left, rfl, rfl, hfirst⟩ := exists_opensRaw_of_rawOpening? hopening
  let first : RawTag := ⟨opened, before, after, closed⟩
  have hleft : options.delimiters.blockStart.toList ++ (dash opened ++ (before ++ (name.toList ++
      (after ++ (dash closed ++ options.delimiters.blockEnd.toList ++ left))))) =
        first.source options.delimiters name.toList ++ left := by
    simp only [first, RawTag.source, List.append_assoc]
  have hlength : options.delimiters.blockStart.toList.length + (dash opened).length +
      (before ++ (name.toList ++
        (after ++ (dash closed ++ options.delimiters.blockEnd.toList)))).length =
        (first.source options.delimiters name.toList).length := by
    simp only [first, RawTag.source, List.length_append]
    omega
  rw [hleft] at h hinside
  simp only [hlength, List.drop_left] at h
  split at h
  · cases h
  · next body stripsEnd stripsAfter closing hbody =>
    obtain ⟨before', after', rest, rfl, rfl, hlast, hbare⟩ := exists_closesRaw_of_rawBody? hbody
    let last : RawTag := ⟨stripsEnd, before', after', stripsAfter⟩
    have hsource : cursor.rest =
        (Span.raw name.toList first body last).source options.delimiters ++ rest := by
      rw [← hinside]
      simp only [Span.source, last, List.append_assoc]
    have hcount : (first.source options.delimiters name.toList).length + body.length +
        (last.source options.delimiters (rawEnd name.toList)).length =
          ((Span.raw name.toList first body last).source options.delimiters).length := by
      simp only [Span.source, List.length_append, Nat.add_assoc]
    rw [hcount] at h
    exact ⟨name.toList, first, body, last, rest, _, covers_finish hsource
      (.raw (hsource ▸ hopens) (hfirst opened) hbare hlast) rfl rfl rfl
      (List.forall_mem_singleton.mpr (show TokenKind.raw ≠ .data by decide)) (Except.ok.inj h),
      tokens_finish (Except.ok.inj h)⟩

/-- A block tag is no raw block. -/
theorem ne_of_readRaw?_eq_none (h : readRaw? options cursor = none) (word : List Char)
    (first : RawTag) (after : List Char) (hfirst : first.OpensRaw options.delimiters word after) :
    cursor.rest ≠ first.source options.delimiters word ++ after := by
  intro hsource
  simp only [RawTag.source, List.append_assoc] at hsource
  obtain ⟨hne, hplain⟩ := forall_mem_rawWords _ hfirst.word
  rw [String.toList_ofList] at hne hplain
  have hname : ∀ more : List Char, (word ++ more).head? ≠ some '-' := by
    cases word with
    | nil => exact absurd rfl hne
    | cons c word =>
      intro more hc
      exact (hplain c List.mem_cons_self).2.2 (Option.some.inj hc)
  simp only [readRaw?] at h
  rw [hsource, List.drop_left,
    dashLength_append fun _ => head?_append_ne_dash hfirst.before (hname _), List.drop_left] at h
  have hfound := hfirst.rawOpening?_ne_none
  simp only [List.append_assoc] at hfound
  exact hfound (Option.map_eq_none_iff.mp h)

theorem exists_covers_of_readTag (hkind : kind ≠ .comment)
    (hopens : options.delimiters.Opens kind cursor.rest)
    (hraw : kind = .block → readRaw? options cursor = none)
    (h : readTag options kind cursor = .ok (c, next)) :
    ∃ opened code rest reading,
      c.Covers options cursor next (.tag kind opened code reading.stripsAfter) rest ∧
      Code.read (options.delimiters.closer kind).toList kind cursor.pos (cursor.skip
        ((options.delimiters.opener kind).toList ++ dash opened).length) = .ok reading ∧
      reading.finish.rest = rest ∧ c.tokens =
        ⟨openingKind kind, options.delimiters.opener kind, cursor.pos⟩ :: reading.tokens := by
  obtain ⟨inside, hinside⟩ := hopens.head
  obtain ⟨opened, left, rfl, hopened⟩ := exists_dash inside
  have hskip : cursor.skip ((options.delimiters.opener kind).toList ++ dash opened).length =
      ⟨left, cursor.pos.after ((options.delimiters.opener kind).toList ++ dash opened)⟩ :=
    Cursor.skip_length (by rw [← hinside, List.append_assoc])
  have hlength : (options.delimiters.opener kind).length + (dash opened).length =
      ((options.delimiters.opener kind).toList ++ dash opened).length := by
    rw [List.length_append, String.length_toList]
  have hdash : dashLength (cursor.rest.drop (options.delimiters.opener kind).length) =
      (dash opened).length := by
    rw [← hinside, ← String.length_toList, List.drop_left, dashLength_append hopened]
  simp only [readTag, hdash, hlength, hskip] at h
  split at h
  · cases h
  · next reading hread =>
    obtain ⟨code, rest, hcovers⟩ := Code.exists_covers_of_readFrom hread
    obtain rfl : left = _ := hcovers.source
    let span : Span := .tag kind opened code reading.stripsAfter
    have hsource : cursor.rest = span.source options.delimiters ++ rest := by
      rw [← hinside]
      simp only [span, Span.source, List.append_assoc]
    have hcount : cursor.rest.length - reading.finish.rest.length =
        (span.source options.delimiters).length := by
      rw [hcovers.finish, hsource, List.length_append, Nat.add_sub_cancel]
    obtain ⟨words, pos, htokens, hwords⟩ := hcovers.tokens
    have hblock : decide (kind ≠ .variable) = span.isBlock := by
      cases kind with
      | comment => exact absurd rfl hkind
      | _ => rfl
    rw [hcount, decide_length_dash] at h
    refine ⟨opened, code, rest, reading, covers_finish hsource (.tag hkind (hsource ▸ hopens) hopened
      ?_ hcovers.ends hcovers.mark) rfl rfl hblock ?_ (Except.ok.inj h), hskip ▸ hread,
      congrArg Cursor.rest hcovers.finish, tokens_finish (Except.ok.inj h)⟩
    · rintro rfl word first after hfirst
      exact hsource ▸ ne_of_readRaw?_eq_none (hraw rfl) word first after hfirst
    · have hopening : openingKind kind ≠ .data := by cases kind <;> decide
      have hclosing : Code.closingKind kind ≠ .data := by cases kind <;> decide
      rw [htokens]
      refine List.forall_mem_cons.mpr ⟨hopening, List.forall_mem_append.mpr ⟨fun token htoken => ?_,
        List.forall_mem_singleton.mpr hclosing⟩⟩
      intro hdata
      have hcode := hwords token htoken
      rw [hdata] at hcode
      cases hcode

/-- What is read where a construct opens is the construct, and its tokens are those of its parts. -/
theorem exists_covers (hne : options.delimiters.commentEnd.toList ≠ [])
    (hopens : options.delimiters.Opens kind cursor.rest)
    (h : readConstruct options kind cursor = .ok (c, next)) :
    ∃ span rest, c.Covers options cursor next span rest ∧
      span.Spells options.delimiters cursor rest c.tokens := by
  rcases readConstruct_cases h with ⟨rfl, hcomment⟩ | ⟨rfl, hraw⟩ | ⟨hkind, hraw, htag⟩
  · obtain ⟨body, rest, hcovers, htokens⟩ := exists_covers_of_readComment hne hopens hcomment
    exact ⟨_, rest, hcovers, htokens ▸ .comment⟩
  · obtain ⟨word, first, body, last, rest, value, hcovers, htokens⟩ :=
      exists_covers_of_readRaw? hopens hraw
    exact ⟨_, rest, hcovers, htokens ▸ .raw⟩
  · obtain ⟨opened, code, rest, reading, hcovers, hread, hrest, htokens⟩ :=
      exists_covers_of_readTag hkind hopens hraw htag
    exact ⟨_, rest, hcovers, htokens ▸ .tag hread hrest⟩

end Segment

end TemplateManifest
