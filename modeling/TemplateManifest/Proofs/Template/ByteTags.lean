import TemplateManifest.Proofs.Template.ByteCode
import TemplateManifest.Proofs.Template.RawBlock

/-!
The constructs in the scan in bytes: comments, raw blocks and tags end where the reading in characters
ends them, with its tokens and its errors.
-/

namespace TemplateManifest

open Text

/-- The reading of a tag goes on after its opening mark. -/
theorem Segment.readTag_append {options : LanguageOptions} {kind : TagKind} {pos : Position} {opened : Bool}
    {head inside : List Char} (hhead : head = (options.delimiters.opener kind).toList ++ dash opened)
    (hopened : opened = false → inside.head? ≠ some '-') :
    readTag options kind ⟨head ++ inside, pos⟩ =
      (Code.readFrom (options.delimiters.closer kind).toList kind pos (inside.length + 1) 0
        ⟨inside, pos.after head⟩ >>= fun reading => .ok
          (finish options kind ⟨head ++ inside, pos⟩ ((head ++ inside).length - reading.finish.rest.length)
            (⟨openingKind kind, options.delimiters.opener kind, pos⟩ :: reading.tokens) opened
            reading.stripsAfter)) := by
  have hlength : (options.delimiters.opener kind).length + (dash opened).length = head.length := by
    rw [hhead, List.length_append, String.length_toList]
  have hdash : dashLength ((head ++ inside).drop (options.delimiters.opener kind).length) =
      (dash opened).length := by
    rw [hhead, List.append_assoc, ← String.length_toList, List.drop_left, dashLength_append hopened]
  simp only [readTag, hdash, hlength, Cursor.skip_append head inside, Code.read, decide_length_dash]
  cases Code.readFrom (options.delimiters.closer kind).toList kind pos (inside.length + 1) 0
    ⟨inside, pos.after head⟩ <;> rfl

namespace ByteLexer

variable {options : LanguageOptions} {source : List Char}

section Constructs

variable {kind : TagKind} {passed left lexeme rest : List Char} {strip stripsBefore stripsAfter : Bool}
  {tokens more : List Token}

/-- The scan has moved over a construct as the reading in characters has. -/
def ReadsConstruct (passed left : List Char) (tokens : List Token) (found : Construct × Cursor)
    (_ : Unit) (t : State) : Prop :=
  ∃ read rest, read ≠ [] ∧ left = read ++ rest ∧
    found.2 = ⟨rest, Position.first.after (passed ++ read)⟩ ∧
    t = stateAt (passed ++ read) found.1.stripsAfter (tokens ++ found.1.tokens)

theorem readsConstruct_finish {lineBreak : List Char} (hlexeme : lexeme ≠ [])
    (hbreak : lineBreak = if options.trimBlocks && kind ≠ .variable then Segment.leadingLineBreak rest
      else []) :
    ReadsConstruct passed (lexeme ++ rest) tokens
      (Segment.finish options kind ⟨lexeme ++ rest, Position.first.after passed⟩ lexeme.length more
        stripsBefore stripsAfter) ()
      (stateAt (passed ++ lexeme ++ lineBreak) stripsAfter (tokens ++ more)) := by
  obtain ⟨left, rfl⟩ : lineBreak <+: rest := by
    rw [hbreak]
    split
    · exact leadingLineBreak_isPrefix rest
    · exact List.nil_prefix
  refine ⟨lexeme ++ lineBreak, left, by simp [hlexeme], (List.append_assoc ..).symm, ?_,
    by rw [List.append_assoc]; rfl⟩
  rw [Segment.finish, Cursor.skip_append lexeme]
  dsimp only
  rw [← hbreak, Cursor.skip_append, ← Position.after_append, ← Position.after_append]

/-- A construct that is no variable tag takes its line break with it. -/
theorem follows_finish {tokens' : List Token} (hlexeme : lexeme ≠ [])
    (hsource : source = passed ++ (lexeme ++ rest)) (hkind : kind ≠ .variable)
    (htokens : tokens' = tokens ++ more) :
    Follows (ReadsConstruct passed (lexeme ++ rest) tokens)
      (.ok (Segment.finish options kind ⟨lexeme ++ rest, Position.first.after passed⟩ lexeme.length more
        stripsBefore stripsAfter))
      (skipTrimmedNewline options source (stateAt (passed ++ lexeme) stripsAfter tokens')) := by
  rw [← List.append_assoc] at hsource
  rw [htokens, skipTrimmedNewline_stateAt hsource]
  exact .done (readsConstruct_finish hlexeme (by simp [hkind]))

theorem follows_lexComment (hsource : source = passed ++ left)
    (hopens : options.delimiters.commentStart.toList <+: left)
    (hne : options.delimiters.commentStart.toList ≠ []) :
    Follows (ReadsConstruct passed left tokens)
      (Segment.readComment options ⟨left, Position.first.after passed⟩)
      (lexComment options source (stateAt passed strip tokens)) := by
  obtain ⟨inside, rfl⟩ := hopens
  have hinside : sliceFrom (options.delimiters.commentStart.toList ++ inside)
      (byteLength options.delimiters.commentStart.toList) (stateAt passed strip tokens) =
        .ok inside (stateAt passed strip tokens) := sliceFrom_eq _ rfl rfl
  rw [lexComment, get_bind, bind_of_ok (rest_stateAt hsource), bind_of_ok hinside, findBytes?, Segment.readComment,
    List.drop_left]
  cases hbreak : breakOn options.delimiters.commentEnd.toList inside with
  | none => exact .refused
  | some parts =>
    obtain ⟨body, rest⟩ := parts
    obtain rfl := eq_append_of_breakOn hbreak
    let lexeme := options.delimiters.commentStart.toList ++ (body ++ options.delimiters.commentEnd.toList)
    have hleft : options.delimiters.commentStart.toList ++
        (body ++ options.delimiters.commentEnd.toList ++ rest) = lexeme ++ rest :=
      (List.append_assoc ..).symm
    have hbody : slice (lexeme ++ rest) (byteLength options.delimiters.commentStart.toList)
        (byteLength options.delimiters.commentStart.toList + byteLength body)
        (stateAt passed strip tokens) = .ok body (stateAt passed strip tokens) :=
      slice_eq _ (options.delimiters.commentEnd.toList ++ rest) (by simp [lexeme]) rfl rfl
    have hbytes : byteLength options.delimiters.commentStart.toList + byteLength body +
        byteLength options.delimiters.commentEnd.toList = byteLength lexeme := by
      rw [byteLength_append, byteLength_append, Nat.add_assoc]
    have hlength : options.delimiters.commentStart.toList.length + body.length +
        options.delimiters.commentEnd.toList.length = lexeme.length := by
      rw [List.length_append, List.length_append, Nat.add_assoc]
    rw [hleft] at hsource ⊢
    dsimp only [Option.map_some]
    rw [bind_of_ok hbody, bind_of_ok setStripNext_stateAt, bind_of_ok (bump_stateAt hsource hbytes),
      hlength]
    exact follows_finish (by simp [lexeme, hne]) hsource (by decide) (List.append_nil _).symm

/-- The opening tag of a raw block takes the bytes of its characters. -/
theorem rawOpening?_eq (closer after : List Char) (s : State) :
    rawOpening? closer after s = .ok ((Segment.rawOpening? closer after).map fun found =>
      (found.1, found.2.1, byteLength (after.take found.2.2))) s := by
  obtain ⟨white, named, rfl, hwhite⟩ := exists_isLead isWhiteSpace after
  obtain ⟨word, tail, rfl, hword⟩ := exists_isLead (fun c => c.isAlphanum || c = '_') named
  obtain ⟨between, left, rfl, hbetween⟩ := exists_isLead isWhiteSpace tail
  have hnamed : sliceFrom (white ++ (word ++ (between ++ left))) (byteLength white) s =
      .ok (word ++ (between ++ left)) s := sliceFrom_eq _ rfl rfl
  have htail : sliceFrom (word ++ (between ++ left)) (byteLength word) s = .ok (between ++ left) s :=
    sliceFrom_eq _ rfl rfl
  have hleft : sliceFrom (between ++ left) (byteLength between) s = .ok left s :=
    sliceFrom_eq _ rfl rfl
  rw [rawOpening?, whiteLength_eq hwhite, bind_of_ok hnamed, Segment.rawOpening?]
  simp only [hwhite.takeWhile_eq, List.drop_left, hword.takeWhile_eq, hbetween.takeWhile_eq]
  split
  · rw [bind_of_ok htail, whiteLength_eq hbetween, bind_of_ok hleft, bind_of_ok closing?_eq]
    cases hclosing : Code.closingMark? closer left with
    | none => rfl
    | some found =>
      obtain ⟨closed, count⟩ := found
      obtain ⟨⟨⟨rest, rfl⟩, -⟩, rfl⟩ := closesAt_of_closingMark? hclosing
      have htake : (white ++ (word ++ (between ++ (dash closed ++ closer ++ rest)))).take
          (white.length + word.length + between.length + (dash closed ++ closer).length) =
            white ++ (word ++ (between ++ (dash closed ++ closer))) := by
        simp only [← List.append_assoc, ← List.length_append, List.take_left]
      have hbytes : byteLength (white ++ (word ++ (between ++ (dash closed ++ closer)))) =
          byteLength white + byteLength word + byteLength between + (if closed then 1 else 0) +
            byteLength closer := by
        rw [byteLength_append, byteLength_append, byteLength_append, byteLength_dash]
        omega
      simp only [Option.map_some, htake, hbytes]
      rfl
  · rfl

section RawBlocks

variable {head : List Char} {word : String} {stripsStart : Bool}

theorem lexRawBody_of_none (hsource : source = passed ++ (head ++ left))
    (hbody : Segment.rawBody? options.delimiters.blockStart.toList options.delimiters.blockEnd.toList
      word left = none) :
    lexRawBody options source word stripsStart (byteLength head) (stateAt passed strip tokens) =
      .error (.refused ⟨.unclosedRaw word, Position.first.after passed⟩) (stateAt passed strip tokens) := by
  have hleft : sliceFrom (head ++ left) (byteLength head) (stateAt passed strip tokens) =
      .ok left (stateAt passed strip tokens) := sliceFrom_eq _ rfl rfl
  rw [lexRawBody, get_bind, bind_of_ok (rest_stateAt hsource), bind_of_ok hleft, hbody]
  rfl

theorem follows_lexRawBody {body kept : List Char} {stripsEnd : Bool} {count : Nat} (hhead : head ≠ [])
    (hsource : source = passed ++ (head ++ left))
    (hbody : Segment.rawBody? options.delimiters.blockStart.toList options.delimiters.blockEnd.toList
      word left = some (body, stripsEnd, stripsAfter, count))
    (hkept : kept = if stripsStart then trimStart body else body) :
    Follows (ReadsConstruct passed (head ++ left) tokens)
      (.ok (Segment.finish options .block ⟨head ++ left, Position.first.after passed⟩
        (head.length + body.length + count)
        [⟨.raw, String.ofList (if stripsEnd then trimEnd kept else kept), Position.first.after passed⟩]
        stripsBefore stripsAfter))
      (lexRawBody options source word stripsStart (byteLength head) (stateAt passed strip tokens)) := by
  have hleft : sliceFrom (head ++ left) (byteLength head) (stateAt passed strip tokens) =
      .ok left (stateAt passed strip tokens) := sliceFrom_eq _ rfl rfl
  rw [lexRawBody, get_bind, bind_of_ok (rest_stateAt hsource), bind_of_ok hleft, hbody]
  obtain ⟨before, after, rest, rfl, rfl, -, -⟩ := exists_closesRaw_of_rawBody? hbody
  generalize RawTag.source options.delimiters ⟨stripsEnd, before, after, stripsAfter⟩
    (rawEnd word.toList) = closing at hbody hsource hleft ⊢
  have hslice : slice (body ++ (closing ++ rest)) 0 (byteLength body) (stateAt passed strip tokens) =
      .ok body (stateAt passed strip tokens) :=
    slice_eq [] (closing ++ rest) rfl rfl (Nat.zero_add _).symm
  have hbytes : byteLength head + (byteLength body + byteLength closing) =
      byteLength (head ++ (body ++ closing)) := by
    rw [byteLength_append, byteLength_append]
  have hlength : head.length + body.length + closing.length = (head ++ (body ++ closing)).length := by
    rw [List.length_append, List.length_append, Nat.add_assoc]
  have hsplit : head ++ (body ++ (closing ++ rest)) = head ++ (body ++ closing) ++ rest := by
    simp only [List.append_assoc]
  dsimp only
  rw [List.drop_left, List.take_left, bind_of_ok hslice, ← hkept, hlength, hbytes]
  rw [hsplit] at hsource ⊢
  rw [bind_of_ok push_stateAt, bind_of_ok (bump_stateAt hsource rfl), bind_of_ok setStripNext_stateAt]
  exact follows_finish (by simp [hhead]) hsource (by decide) rfl

/-- A tag that opens no raw block is left where it is. -/
theorem lexRaw_of_none {opened : Bool} {spaced : List Char}
    (hopened : opened = false → spaced.head? ≠ some '-')
    (hsource : source = passed ++ (options.delimiters.blockStart.toList ++ (dash opened ++ spaced)))
    (hraw : Segment.readRaw? options ⟨options.delimiters.blockStart.toList ++ (dash opened ++ spaced),
      Position.first.after passed⟩ = none) :
    lexRaw options source (byteLength (options.delimiters.blockStart.toList ++ dash opened))
      (stateAt passed strip tokens) = .ok false (stateAt passed strip tokens) := by
  have hspaced : sliceFrom (options.delimiters.blockStart.toList ++ (dash opened ++ spaced))
      (byteLength (options.delimiters.blockStart.toList ++ dash opened)) (stateAt passed strip tokens) =
        .ok spaced (stateAt passed strip tokens) :=
    sliceFrom_eq _ (List.append_assoc ..).symm rfl
  simp only [Segment.readRaw?, List.drop_left, dashLength_append hopened] at hraw
  rw [lexRaw, bind_of_ok (rest_stateAt hsource), bind_of_ok hspaced, bind_of_ok (rawOpening?_eq ..),
    Option.map_eq_none_iff.mp hraw]
  rfl

/-- A raw block that opens here is read as the reading in characters reads it. -/
theorem follows_lexRaw {opened : Bool} {spaced : List Char} {result : Except SyntaxError (Construct × Cursor)}
    (hopened : opened = false → spaced.head? ≠ some '-')
    (hne : options.delimiters.blockStart.toList ≠ [])
    (hsource : source = passed ++ (options.delimiters.blockStart.toList ++ (dash opened ++ spaced)))
    (hraw : Segment.readRaw? options ⟨options.delimiters.blockStart.toList ++ (dash opened ++ spaced),
      Position.first.after passed⟩ = some result) :
    Follows (fun found taken t => taken = true ∧
        ReadsConstruct passed (options.delimiters.blockStart.toList ++ (dash opened ++ spaced)) tokens
          found () t) result
      (lexRaw options source (byteLength (options.delimiters.blockStart.toList ++ dash opened))
        (stateAt passed strip tokens)) := by
  have hspaced : sliceFrom (options.delimiters.blockStart.toList ++ (dash opened ++ spaced))
      (byteLength (options.delimiters.blockStart.toList ++ dash opened)) (stateAt passed strip tokens) =
        .ok spaced (stateAt passed strip tokens) :=
    sliceFrom_eq _ (List.append_assoc ..).symm rfl
  simp only [Segment.readRaw?, List.drop_left, dashLength_append hopened, decide_length_dash] at hraw
  obtain ⟨⟨word, stripsStart, count⟩, hopening, hresult⟩ := Option.map_eq_some_iff.mp hraw
  rw [lexRaw, bind_of_ok (rest_stateAt hsource), bind_of_ok hspaced, bind_of_ok (rawOpening?_eq ..),
    hopening]
  obtain ⟨inner, left, rfl, rfl⟩ : ∃ inner left, spaced = inner ++ left ∧ count = inner.length := by
    obtain ⟨before, after, left, rfl, rfl, -⟩ := exists_opensRaw_of_rawOpening? hopening
    exact ⟨_, left, by simp only [List.append_assoc], rfl⟩
  let head := options.delimiters.blockStart.toList ++ dash opened ++ inner
  have hsplit : options.delimiters.blockStart.toList ++ (dash opened ++ (inner ++ left)) = head ++ left := by
    simp only [head, List.append_assoc]
  have hlength : options.delimiters.blockStart.toList.length + (dash opened).length + inner.length =
      head.length := by
    rw [List.length_append, List.length_append]
  have hhead : head ≠ [] := by simp [head, hne]
  rw [hsplit] at hsource ⊢
  simp only [hsplit, hlength, List.drop_left] at hresult
  dsimp only [Option.map_some]
  rw [List.take_left, ← byteLength_append]
  cases hbody : Segment.rawBody? options.delimiters.blockStart.toList
      options.delimiters.blockEnd.toList word left with
  | none =>
    rw [hbody] at hresult
    subst hresult
    rw [bind_of_error (lexRawBody_of_none hsource hbody)]
    exact .refused
  | some parts =>
    obtain ⟨body, stripsEnd, stripsAfter, count⟩ := parts
    rw [hbody] at hresult
    subst hresult
    exact (follows_lexRawBody hhead hsource hbody rfl).bind fun found _ t hgood => .done ⟨rfl, hgood⟩

end RawBlocks

section Tags

variable {opened : Bool} {inside : List Char}

theorem follows_lexTagCode (hkind : kind ≠ .comment) (hopened : opened = false → inside.head? ≠ some '-')
    (hopener : (options.delimiters.opener kind).toList ≠ [])
    (hcloser : (options.delimiters.closer kind).toList ≠ [])
    (hsource : source = passed ++ ((options.delimiters.opener kind).toList ++ (dash opened ++ inside))) :
    Follows (ReadsConstruct passed ((options.delimiters.opener kind).toList ++ (dash opened ++ inside)) tokens)
      (Segment.readTag options kind ⟨(options.delimiters.opener kind).toList ++ (dash opened ++ inside),
        Position.first.after passed⟩)
      (lexTagCode options source kind (byteLength ((options.delimiters.opener kind).toList ++ dash opened))
        (stateAt passed strip tokens)) := by
  rw [← List.append_assoc (options.delimiters.opener kind).toList] at hsource ⊢
  generalize hhead : (options.delimiters.opener kind).toList ++ dash opened = head at hsource ⊢
  have hinside : source = passed ++ head ++ inside := by
    rw [hsource, List.append_assoc]
  rw [Segment.readTag_append hhead.symm hopened, ← Position.after_append, lexTagCode, get_bind,
    place_stateAt, bind_of_ok push_stateAt, bind_of_ok (bump_stateAt hsource rfl)]
  refine (follows_codeLoop hcloser hinside (Nat.lt_succ_self inside.length)).bind ?_
  rintro reading _ _ ⟨rfl, code, rest, rfl, hfinish, rfl⟩
  have hlexeme : head ++ code ≠ [] := by simp [← hhead, hopener]
  have hcount : (head ++ code ++ rest).length - rest.length = (head ++ code).length := by
    rw [List.length_append, Nat.add_sub_cancel]
  rw [← List.append_assoc head] at hsource ⊢
  rw [bind_of_ok setStripNext_stateAt, hfinish, hcount, List.append_assoc passed,
    List.append_assoc tokens]
  cases kind with
  | comment => exact absurd rfl hkind
  | block => exact follows_finish hlexeme hsource (by decide) rfl
  | _ =>
    rw [← List.append_nil (passed ++ (head ++ code))]
    exact .done (readsConstruct_finish hlexeme (by simp))

/-- A `-` after an opening mark is seen. -/
theorem startsWith_dash (hopened : opened = false → inside.head? ≠ some '-') :
    startsWith ['-'] (dash opened ++ inside) = opened := by
  cases opened with
  | true => rfl
  | false =>
    rw [← Bool.not_eq_true, startsWith_iff]
    rintro ⟨rest, hrest⟩
    exact hopened rfl (congrArg List.head? hrest)

theorem lexTag_stateAt (hopened : opened = false → inside.head? ≠ some '-')
    (hsource : source = passed ++ ((options.delimiters.opener kind).toList ++ (dash opened ++ inside))) :
    lexTag options source kind (stateAt passed strip tokens) =
      (lexRawOf options source kind (byteLength ((options.delimiters.opener kind).toList ++ dash opened)) >>=
        fun taken => if taken then return () else lexTagCode options source kind
          (byteLength ((options.delimiters.opener kind).toList ++ dash opened)))
        (stateAt passed strip tokens) := by
  have hinside : sliceFrom ((options.delimiters.opener kind).toList ++ (dash opened ++ inside))
      (byteLength (options.delimiters.opener kind).toList) (stateAt passed strip tokens) =
        .ok (dash opened ++ inside) (stateAt passed strip tokens) := sliceFrom_eq _ rfl rfl
  have hlength : byteLength ((options.delimiters.opener kind).toList ++ dash opened) =
      byteLength (options.delimiters.opener kind).toList + if opened then 1 else 0 := by
    rw [byteLength_append]
    cases opened <;> rfl
  rw [lexTag, bind_of_ok (rest_stateAt hsource), bind_of_ok hinside, startsWith_dash hopened, hlength]

/-- The scan moves over a construct as the reading in characters does. -/
theorem follows_lexConstruct (hvalid : options.delimiters.Valid)
    (hopens : (options.delimiters.opener kind).toList <+: left) (hsource : source = passed ++ left) :
    Follows (ReadsConstruct passed left tokens)
      (Segment.readConstruct options kind ⟨left, Position.first.after passed⟩)
      (lexConstruct options source kind (stateAt passed strip tokens)) := by
  by_cases hkind : kind = .comment
  · subst hkind
    exact follows_lexComment hsource hopens (hvalid.toList_opener_ne_nil .comment)
  obtain ⟨after, rfl⟩ := hopens
  obtain ⟨opened, inside, rfl, hopened⟩ := exists_dash after
  have htag : Follows (ReadsConstruct passed _ tokens) _
      (lexTagCode options source kind _ (stateAt passed strip tokens)) :=
    follows_lexTagCode hkind hopened (hvalid.toList_opener_ne_nil kind) (hvalid.toList_closer_ne_nil kind)
      hsource
  have htagged : lexConstruct options source kind = lexTag options source kind := by
    cases kind with
    | comment => exact absurd rfl hkind
    | _ => rfl
  rw [htagged, lexTag_stateAt hopened hsource]
  cases kind with
  | comment => exact absurd rfl hkind
  | block =>
    rw [Segment.readConstruct, lexRawOf, if_pos rfl]
    cases hraw : Segment.readRaw? options
        ⟨(options.delimiters.opener .block).toList ++ (dash opened ++ inside), Position.first.after passed⟩ with
    | none =>
      have hlexRaw : lexRaw options source
          (byteLength ((options.delimiters.opener .block).toList ++ dash opened))
          (stateAt passed strip tokens) = .ok false (stateAt passed strip tokens) :=
        lexRaw_of_none hopened hsource hraw
      rw [bind_of_ok hlexRaw]
      exact htag
    | some result =>
      rw [Option.getD_some, ← bind_pure result]
      refine (follows_lexRaw hopened (hvalid.toList_opener_ne_nil .block) hsource hraw).bind ?_
      rintro found _ t ⟨rfl, hread⟩
      exact .done hread
  | _ => exact htag

end Tags

end Constructs

end ByteLexer

end TemplateManifest
