import TemplateManifest.Proofs.Template.Layout

/-!
Where a source that cannot be cut into tokens is at fault: at the opening mark of a construct that does
not end, at the quote of a string that does not end, or at a character with which no word starts.
Main statement: `tokenize_fault`.
-/

namespace TemplateManifest

open Text

/-- The text at which a fault is found. -/
inductive SyntaxFault.FoundAt (d : Delimiters) : SyntaxFault → List Char → Prop
  | unclosedComment {text : List Char} (hopens : d.Opens .comment text) :
      FoundAt d .unclosedComment text
  | unclosedRaw {word : String} {first : RawTag} {after : List Char}
      (hopens : d.Opens .block (first.source d word.toList ++ after))
      (hfirst : first.OpensRaw d word.toList after) :
      FoundAt d (.unclosedRaw word) (first.source d word.toList ++ after)
  | unclosedTag {kind : TagKind} {text : List Char} (hkind : kind ≠ .comment)
      (hopens : d.Opens kind text) : FoundAt d (.unclosedTag kind) text
  | unterminatedString {quote : Char} {text : List Char} (hquote : quote = '"' ∨ quote = '\'')
      (hbody : Code.stringBody? quote text = none) : FoundAt d .unterminatedString (quote :: text)
  | unexpectedCharacter {c : Char} {text : List Char}
      (htoken : Code.token c text = .error (.unexpectedCharacter c)) :
      FoundAt d (.unexpectedCharacter c) (c :: text)

/-- The error names the place of an offset of the source where its fault is found. -/
def SyntaxError.IsExact (d : Delimiters) (source : List Char) (e : SyntaxError) : Prop :=
  ∃ offset, e.pos = Position.first.after (source.take offset) ∧
    e.fault.FoundAt d (source.drop offset)

section

variable {d : Delimiters} {source : List Char} {options : LanguageOptions} {e : SyntaxError}

theorem Code.foundAt_of_token {c : Char} {text : List Char} {fault : SyntaxFault}
    (h : token c text = .error fault) : fault.FoundAt d (c :: text) := by
  have htoken := h
  rw [token] at h
  split at h
  · next hquote =>
    split at h
    · cases h
    · next hbody =>
      cases h
      exact .unterminatedString hquote hbody
  · split at h
    · cases h
    · split at h
      · cases h
      · split at h
        · cases h
        · split at h
          · cases h
          · cases h
            exact .unexpectedCharacter htoken

/-- The code of a tag is at fault where the tag opens, or at one of its words. -/
theorem Code.isExact_of_readFrom {closer : List Char} {kind : TagKind} {opened : Position}
    {bound depth start : Nat} (hbound : (source.drop start).length < bound)
    (h : readFrom closer kind opened bound depth (cursorAt source start) = .error e) :
    e = ⟨.unclosedTag kind, opened⟩ ∨ e.IsExact d source := by
  induction bound generalizing depth start with
  | zero => exact absurd hbound (Nat.not_lt_zero _)
  | succ bound ih =>
    simp only [readFrom, skip_cursorAt] at h
    split at h
    · cases h
      exact .inl rfl
    · next c letters hletters =>
      split at h
      · cases h
      · split at h
        · next htoken =>
          cases h
          refine .inr ⟨_, rfl, ?_⟩
          change SyntaxFault.FoundAt d _ (cursorAt source _).rest
          rw [hletters]
          exact foundAt_of_token htoken
        · next htoken =>
          split at h
          · next hread =>
            cases h
            refine ih ?_ hread
            have hcount := (length_token htoken).1
            have hlength := congrArg List.length hletters
            simp only [cursorAt, List.length_drop, List.length_cons] at hlength hbound ⊢
            omega
          · cases h

theorem Segment.isExact_of_readTag {kind : TagKind} {start : Nat} (hkind : kind ≠ .comment)
    (hopens : options.delimiters.Opens kind (source.drop start))
    (h : readTag options kind (cursorAt source start) = .error e) :
    e.IsExact options.delimiters source := by
  simp only [readTag, skip_cursorAt] at h
  split at h
  · next hread =>
    cases h
    obtain rfl | hexact := Code.isExact_of_readFrom (Nat.lt_succ_self _) hread
    · exact ⟨start, rfl, .unclosedTag hkind hopens⟩
    · exact hexact
  · cases h

theorem Segment.foundAt_of_readRaw? {cursor : Cursor}
    (hopens : options.delimiters.Opens .block cursor.rest)
    (h : readRaw? options cursor = some (.error e)) :
    e.pos = cursor.pos ∧ e.fault.FoundAt options.delimiters cursor.rest := by
  obtain ⟨inside, hinside⟩ : options.delimiters.blockStart.toList <+: cursor.rest := hopens.head
  obtain ⟨opened, spaced, rfl, hopened⟩ := exists_dash inside
  simp only [readRaw?] at h
  rw [← hinside, List.drop_left, dashLength_append hopened, List.drop_left] at h
  obtain ⟨⟨name, closed, count⟩, hopening, h⟩ := Option.map_eq_some_iff.mp h
  obtain ⟨before, after, left, rfl, -, hfirst⟩ := exists_opensRaw_of_rawOpening? hopening
  dsimp only at h
  split at h
  · cases h
    have hsource : cursor.rest = (RawTag.mk opened before after closed).source
        options.delimiters name.toList ++ left := by
      rw [← hinside]
      simp only [RawTag.source, List.append_assoc]
    exact ⟨rfl, hsource ▸ .unclosedRaw (hsource ▸ hopens) (hfirst opened)⟩
  · cases h

theorem Segment.isExact_of_readConstruct {kind : TagKind} {start : Nat}
    (hopens : options.delimiters.Opens kind (source.drop start))
    (h : readConstruct options kind (cursorAt source start) = .error e) :
    e.IsExact options.delimiters source := by
  rcases readConstruct_cases h with ⟨rfl, hcomment⟩ | ⟨rfl, hraw⟩ | ⟨hkind, -, htag⟩
  · simp only [readComment] at hcomment
    split at hcomment
    · cases hcomment
      exact ⟨start, rfl, .unclosedComment hopens⟩
    · cases hcomment
  · exact ⟨start, foundAt_of_readRaw? hopens hraw⟩
  · exact isExact_of_readTag hkind hopens htag

theorem Span.Stands.length_source_pos {span : Span} {rest : List Char} (hvalid : d.Valid)
    (h : span.Stands d rest) : 0 < (span.source d).length := by
  have hopener (kind : TagKind) (more : List Char) : 0 < ((d.opener kind).toList ++ more).length :=
    List.length_pos_iff.mpr (List.append_ne_nil_of_left_ne_nil (hvalid.toList_opener_ne_nil kind) _)
  cases h with
  | comment => exact hopener .comment _
  | raw =>
    rw [source, RawTag.source, List.append_assoc]
    exact hopener .block _
  | tag => exact hopener _ _

/-- A construct takes characters. -/
theorem Segment.exists_cursorAt_of_readConstruct {kind : TagKind} {start : Nat} {c : Construct}
    {next : Cursor} (hvalid : options.delimiters.Valid)
    (hopens : options.delimiters.Opens kind (source.drop start))
    (h : readConstruct options kind (cursorAt source start) = .ok (c, next)) :
    ∃ stop, start < stop ∧ next = cursorAt source stop := by
  obtain ⟨span, rest, hcovers, -⟩ := exists_covers hvalid.toList_commentEnd_ne_nil hopens h
  have hpos := hcovers.stands.length_source_pos hvalid
  refine ⟨start + (span.source options.delimiters ++ span.lineBreak options rest).length, ?_, ?_⟩
  · rw [List.length_append]
    omega
  · have hrest : (cursorAt source start).rest =
        (span.source options.delimiters ++ span.lineBreak options rest) ++ next.rest := by
      rw [hcovers.source, List.append_assoc, ← hcovers.left]
    rw [← skip_cursorAt, Cursor.skip_length hrest, ← hcovers.pos]

/-- An error in a source names a place where its fault is found. -/
theorem Segment.isExact_of_splitFrom {bound start : Nat} (hvalid : options.delimiters.Valid)
    (hbound : (source.drop start).length < bound)
    (h : splitFrom options bound (cursorAt source start) = .error e) :
    e.IsExact options.delimiters source := by
  induction bound generalizing start with
  | zero => exact absurd hbound (Nat.not_lt_zero _)
  | succ bound ih =>
    simp only [splitFrom, skip_cursorAt] at h
    split at h
    · cases h
    · split at h
      · cases h
      · next kind hopener =>
        have hopens := opens_of_openerAt? hopener
        split at h
        · next hread =>
          cases h
          exact isExact_of_readConstruct hopens hread
        · next c next hread =>
          split at h
          · next hrest =>
            cases h
            obtain ⟨stop, hstop, rfl⟩ := exists_cursorAt_of_readConstruct hvalid hopens hread
            refine ih ?_ hrest
            have hmore := hopens.head.length_le
            have hpos := List.length_pos_iff.mpr (hvalid.toList_opener_ne_nil kind)
            simp only [cursorAt, List.length_drop] at hbound hmore ⊢
            omega
          · cases h

end

/-- A source that cannot be cut into tokens is at fault at the place that the error names. -/
theorem tokenize_fault {options : LanguageOptions} {source : String} {e : SyntaxError}
    (hvalid : options.delimiters.Valid) (h : tokenize options source = .error e) :
    e.IsExact options.delimiters source.toList := by
  unfold tokenize at h
  split at h
  · next hsplit =>
    cases h
    have hbound : (source.toList.drop 0).length < source.length + 1 := by
      rw [List.drop_zero, String.length_toList]
      exact Nat.lt_succ_self _
    exact Segment.isExact_of_splitFrom hvalid hbound hsplit
  · cases h

end TemplateManifest
