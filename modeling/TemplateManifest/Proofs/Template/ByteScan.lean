import TemplateManifest.Proofs.Template.ByteTags
import TemplateManifest.Proofs.Template.ByteText

/-!
The scan in bytes reads what the reading in characters reads. So it takes slices of whole characters only,
and each iteration of its loops consumes something.
-/

namespace TemplateManifest

open Text

namespace Segment

variable {options : LanguageOptions} {kind : TagKind} {pos : Position}

/-- What is known of a construct from its opening mark. -/
theorem readConstruct_front {inside : List Char} {c : Construct} {next : Cursor}
    (h : readConstruct options kind ⟨(options.delimiters.opener kind).toList ++ inside, pos⟩ =
      .ok (c, next)) :
    c.kind = kind ∧ c.stripsBefore = startsWith ['-'] inside := by
  have hdash : decide (dashLength inside = 1) = startsWith ['-'] inside := by
    obtain ⟨opened, rest, rfl, hopened⟩ := exists_dash inside
    rw [dashLength_append hopened, decide_length_dash, ByteLexer.startsWith_dash hopened]
  have hfinish {count : Nat} {tokens : List Token} {strips : Bool}
      (h : finish options kind ⟨(options.delimiters.opener kind).toList ++ inside, pos⟩ count tokens
        (decide (dashLength inside = 1)) strips = (c, next)) :
      c.kind = kind ∧ c.stripsBefore = startsWith ['-'] inside := by
    obtain ⟨rfl, -⟩ := Prod.mk.inj h
    exact ⟨rfl, hdash⟩
  rcases readConstruct_cases h with ⟨rfl, hcomment⟩ | ⟨rfl, hraw⟩ | ⟨-, -, htag⟩
  · simp only [readComment, Delimiters.opener, List.drop_left] at hcomment
    split at hcomment
    · cases hcomment
    · exact hfinish (Except.ok.inj hcomment)
  · simp only [readRaw?, Delimiters.opener, List.drop_left] at hraw
    obtain ⟨found, -, hfound⟩ := Option.map_eq_some_iff.mp hraw
    split at hfound
    · cases hfound
    · exact hfinish (Except.ok.inj hfound)
  · simp only [readTag, ← String.length_toList, List.drop_left] at htag
    split at htag
    · cases htag
    · exact hfinish (Except.ok.inj htag)

end Segment

namespace ByteLexer

variable {options : LanguageOptions} {source passed data left : List Char} {kind : TagKind}
  {strip : Bool} {tokens : List Token}

/-- The scan has moved over the rest of the source as the reading in characters has. -/
def ReadsSource (options : LanguageOptions) (strip : Bool) (tokens : List Token)
    (found : List Segment × Position) (_ : Unit) (t : State) : Prop :=
  t.place = found.2 ∧ t.tokens = tokens ++ Segment.tokensAfter options strip found.1

theorem readsSource_text {start : Position} {t : State} (hplace : t.place = start.after data)
    (htokens : t.tokens = tokens ++ dataTokens options strip start data none) :
    ReadsSource options strip tokens (textSegments start data, start.after data) () t := by
  refine ⟨hplace, ?_⟩
  rw [← List.append_nil (textSegments start data), tokensAfter_textSegments (.inl rfl), htokens]
  exact congrArg (tokens ++ ·) (List.append_nil _).symm

/-- What has been read after a run of text and a construct has been read with them. -/
theorem ReadsSource.construct {start : Position} {c : Construct} {found : List Segment × Position}
    {u : Unit} {t : State} (h : ReadsSource options c.stripsAfter
      (tokens ++ dataTokens options strip start data (some c) ++ c.tokens) found u t) :
    ReadsSource options strip tokens (textSegments start data ++ .construct c :: found.1, found.2) u t := by
  obtain ⟨hplace, htokens⟩ := h
  refine ⟨hplace, ?_⟩
  rw [tokensAfter_textSegments (.inr ⟨c, found.1, rfl⟩), htokens, List.append_assoc, List.append_assoc]
  rfl

/-- A run of text in front of a construct of which only the opening mark is known. -/
theorem lexData_front {inside : List Char} {c : Construct}
    (hsource : source = passed ++ (data ++ ((options.delimiters.opener kind).toList ++ inside)))
    (hfront : c.kind = kind ∧ c.stripsBefore = startsWith ['-'] inside) :
    lexData options source (byteLength (passed ++ data)) (some kind) (stateAt passed strip tokens) =
      .ok () (stateAt (passed ++ data) false
        (tokens ++ dataTokens options strip (Position.first.after passed) data (some c))) := by
  obtain ⟨rfl, hstrips⟩ := hfront
  refine lexData_stateAt hsource (some c) fun c' hc => ?_
  cases hc
  exact ⟨inside, rfl, hstrips⟩

/-- The last run of text. -/
theorem sourceStep_of_none (hsource : source = passed ++ data)
    (hnext : nextTag options source (stateAt passed strip tokens) = .ok none (stateAt passed strip tokens)) :
    sourceStep options source () (stateAt passed strip tokens) =
      .ok (.inr ()) (stateAt (passed ++ data) false
        (tokens ++ dataTokens options strip (Position.first.after passed) data none)) := by
  subst hsource
  have hsplit : passed ++ data = passed ++ (data ++ []) := by rw [List.append_nil]
  have hdata : lexData options (passed ++ data) (byteLength (passed ++ data)) none
      (stateAt passed strip tokens) = _ := lexData_stateAt hsplit none fun c hc => by cases hc
  rw [sourceStep, bind_of_ok hnext]
  exact bind_of_ok hdata

theorem sourceStep_of_error {halt : Halt} {s t : State}
    (hnext : nextTag options source (stateAt passed strip tokens) =
      .ok (some (byteLength (passed ++ data), kind)) (stateAt passed strip tokens))
    (hdata : lexData options source (byteLength (passed ++ data)) (some kind)
      (stateAt passed strip tokens) = .ok () s)
    (hconstruct : lexConstruct options source kind s = .error halt t) :
    sourceStep options source () (stateAt passed strip tokens) = .error halt t := by
  rw [sourceStep, bind_of_ok hnext]
  dsimp only
  rw [bind_of_ok hdata]
  exact bind_of_error hconstruct

/-- A run of text and the construct after it. -/
theorem sourceStep_of_some {s t : State}
    (hnext : nextTag options source (stateAt passed strip tokens) =
      .ok (some (byteLength (passed ++ data), kind)) (stateAt passed strip tokens))
    (hdata : lexData options source (byteLength (passed ++ data)) (some kind)
      (stateAt passed strip tokens) = .ok () s)
    (hconstruct : lexConstruct options source kind s = .ok () t) :
    sourceStep options source () (stateAt passed strip tokens) =
      .ok (if t.pos < byteLength source then .inl () else .inr ()) t := by
  rw [sourceStep, bind_of_ok hnext]
  dsimp only
  rw [bind_of_ok hdata, bind_of_ok hconstruct]
  rfl

/-- The loop ends after a construct exactly when nothing is left. -/
theorem follows_afterConstruct {read rest : List Char} {strip' : Bool} {tokens' : List Token} {bound : Nat}
    (hmoved : source = passed ++ (read ++ rest)) (hread : read ≠ []) (hbound : rest.length < bound)
    (hstep : sourceStep options source () (stateAt passed strip tokens) =
      .ok (if (stateAt (passed ++ read) strip' tokens').pos < byteLength source then .inl () else .inr ())
        (stateAt (passed ++ read) strip' tokens'))
    (hloop : rest ≠ [] → Follows (ReadsSource options strip' tokens')
      (Segment.splitFrom options bound ⟨rest, Position.first.after (passed ++ read)⟩)
      (loop (byteLength source) (sourceStep options source) () (stateAt (passed ++ read) strip' tokens'))) :
    Follows (ReadsSource options strip' tokens')
      (Segment.splitFrom options bound ⟨rest, Position.first.after (passed ++ read)⟩)
      (loop (byteLength source) (sourceStep options source) () (stateAt passed strip tokens)) := by
  have hsize : byteLength source = (stateAt (passed ++ read) strip' tokens').pos + byteLength rest := by
    rw [hmoved, ← List.append_assoc, byteLength_append]
    rfl
  by_cases hdone : rest = []
  · subst hdone
    obtain ⟨bound, rfl⟩ : ∃ bound', bound = bound' + 1 := Nat.exists_eq_add_one.mpr hbound
    rw [if_neg (by rw [hsize, byteLength_nil]; exact Nat.lt_irrefl _)] at hstep
    rw [loop_of_done hmoved hread hstep]
    exact .done ⟨rfl, (List.append_nil _).symm⟩
  · rw [if_pos (by rw [hsize]; exact Nat.lt_add_of_pos_right (byteLength_pos hdone))] at hstep
    rw [loop_of_again hmoved hread hstep]
    exact hloop hdone

/-- The loop over a source consumes something in each iteration, and reads what the reading in characters
    reads. The induction is on the number of constructs that this reading allows. -/
theorem follows_sourceLoop {bound : Nat} (hvalid : options.delimiters.Valid)
    (hsource : source = passed ++ left) (hleft : left ≠ []) (hbound : left.length < bound) :
    Follows (ReadsSource options strip tokens)
      (Segment.splitFrom options bound ⟨left, Position.first.after passed⟩)
      (loop (byteLength source) (sourceStep options source) () (stateAt passed strip tokens)) := by
  induction bound generalizing passed left strip tokens with
  | zero => exact absurd hbound (Nat.not_lt_zero _)
  | succ bound ih =>
    obtain ⟨data, after, rfl, hlength, hend, hbare⟩ :=
      Segment.exists_textLength options.delimiters left
    have hnext : nextTag options source (stateAt passed strip tokens) = _ :=
      nextTag_stateAt hvalid hsource hbare hend
    cases hopener : Segment.openerAt? options.delimiters after with
    | none =>
      obtain rfl : after = [] := hend.resolve_right fun ⟨kind, hkind⟩ => by
        cases hopener.symm.trans hkind
      rw [hopener] at hnext
      have hdata : source = passed ++ data := by
        rw [hsource, List.append_nil]
      rw [Segment.splitFrom_of_text hleft hlength hopener]
      rw [List.append_nil] at hleft
      rw [loop_of_done hsource hleft (sourceStep_of_none hdata hnext)]
      exact .done (readsSource_text (Position.after_append ..) rfl)
    | some kind =>
      obtain ⟨inside, rfl⟩ := (Segment.opens_of_openerAt? hopener).head
      rw [hopener] at hnext
      have hafter : source = passed ++ data ++ ((options.delimiters.opener kind).toList ++ inside) := by
        rw [hsource, List.append_assoc]
      have hconstruct (tokens : List Token) : Follows (ReadsConstruct (passed ++ data) _ tokens) _
          (lexConstruct options source kind (stateAt (passed ++ data) false tokens)) :=
        follows_lexConstruct hvalid (List.prefix_append _ _) hafter
      rw [Position.after_append] at hconstruct
      cases hread : Segment.readConstruct options kind
          ⟨(options.delimiters.opener kind).toList ++ inside,
            (Position.first.after passed).after data⟩ with
      | error e =>
        -- What is shown of the text depends on the opening mark alone.
        let front : Construct := ⟨kind, Position.first, [], [], [], startsWith ['-'] inside, false⟩
        rw [hread] at hconstruct
        obtain ⟨t, hlex⟩ := (hconstruct (tokens ++
          dataTokens options strip (Position.first.after passed) data (some front))).exists_refused
        rw [Segment.splitFrom_of_error hleft hlength hopener hread,
          loop_of_error (sourceStep_of_error hnext (lexData_front hsource ⟨rfl, rfl⟩) hlex)]
        exact .refused
      | ok found =>
        obtain ⟨c, next⟩ := found
        rw [hread] at hconstruct
        obtain ⟨_, t, hlex, read, rest, hne, hrest, rfl, rfl⟩ := (hconstruct (tokens ++
          dataTokens options strip (Position.first.after passed) data (some c))).exists_done
        have hstep := sourceStep_of_some hnext (lexData_front hsource (Segment.readConstruct_front hread)) hlex
        have hmoved : source = passed ++ (data ++ read ++ rest) := by
          rw [hsource, hrest, List.append_assoc]
        have hshorter : rest.length < bound := by
          have hlonger := List.length_pos_iff.mpr hne
          have hlengths := congrArg List.length hrest
          simp only [List.length_append] at hbound hlengths
          omega
        rw [Segment.splitFrom_of_construct hleft hlength hopener hread]
        rw [List.append_assoc] at hstep ⊢
        refine (follows_afterConstruct hmoved (by simp [hne]) hshorter hstep fun hmore => ?_).map
          fun found _ t => ReadsSource.construct
        exact ih (hmoved.trans (List.append_assoc ..).symm) hmore hshorter

theorem follows_lexSource (hvalid : options.delimiters.Valid) (source : String) :
    Follows (ReadsSource options false []) (Segment.split options source)
      (lexSource options source.toList {}) := by
  by_cases hempty : source.toList = []
  · rw [lexSource, Segment.split, hempty]
    exact .done ⟨rfl, rfl⟩
  · have hsource : source.toList = [] ++ source.toList := rfl
    have hbound : source.toList.length < source.length + 1 := by
      rw [String.length_toList]
      exact Nat.lt_succ_self _
    have hloop : lexSource options source.toList {} =
        loop (byteLength source.toList) (sourceStep options source.toList) () (stateAt [] false []) := by
      rw [lexSource, List.isEmpty_eq_false_iff.mpr hempty]
      rfl
    rw [hloop]
    exact follows_sourceLoop hvalid hsource hempty hbound

/-- With delimiters that can be used, a scan in bytes gives tokens or ends with an error of the source: the
    ones that the reading in characters gives. It takes no slice that is not one of whole characters of the
    source, and each iteration of its loops consumes something. -/
theorem tokenize_in_bytes (options : LanguageOptions) (source : String)
    (hvalid : options.delimiters.Valid) :
    tokenize options source = (TemplateManifest.tokenize options source).mapError Halt.refused ∧
      (∀ lo hi, tokenize options source ≠ .error (.badSlice lo hi)) ∧
      ∀ pos, tokenize options source ≠ .error (.stalled pos) := by
  have hsame : tokenize options source =
      (TemplateManifest.tokenize options source).mapError Halt.refused := by
    have hread := follows_lexSource hvalid source
    rw [tokenize, TemplateManifest.tokenize]
    cases hsplit : Segment.split options source with
    | error e =>
      rw [hsplit] at hread
      obtain ⟨t, hscan⟩ := hread.exists_refused
      rw [hscan]
      rfl
    | ok found =>
      rw [hsplit] at hread
      obtain ⟨_, t, hscan, hplace, htokens⟩ := hread.exists_done
      rw [hscan]
      dsimp only
      rw [hplace, htokens]
      rfl
  refine ⟨hsame, fun lo hi h => ?_, fun pos h => ?_⟩ <;>
  · rw [hsame] at h
    cases hread : TemplateManifest.tokenize options source with
    | error e =>
      rw [hread] at h
      cases h
    | ok tokens =>
      rw [hread] at h
      cases h

/-- Delimiters, text and strings in characters of several bytes. -/
theorem tokenize_in_bytes_multibyte :
    let options : LanguageOptions :=
      { trimBlocks := true
        lstripBlocks := true
        delimiters := ⟨"«", "»", "⟨⟨", "⟩⟩", "«#", "#»"⟩ }
    options.delimiters.Valid ∧
      tokenize options "é\n  «# ü #»\n\u2003⟨⟨- \"→\" -⟩⟩\u00A0ß« raw -» ¼ «endraw»\r\n" = .ok
        [⟨.data, "é\n", ⟨1, 1⟩⟩, ⟨.variableStart, "⟨⟨", ⟨3, 2⟩⟩, ⟨.string, "→", ⟨3, 6⟩⟩,
          ⟨.variableEnd, "⟩⟩", ⟨3, 10⟩⟩, ⟨.data, "ß", ⟨3, 13⟩⟩, ⟨.raw, "¼ ", ⟨3, 15⟩⟩, ⟨.eof, "", ⟨4, 1⟩⟩] := by
  intro options
  have hvalid : options.delimiters.Valid := by decide
  exact ⟨hvalid, (tokenize_in_bytes options _ hvalid).1.trans (by decide +kernel)⟩

end ByteLexer

end TemplateManifest
