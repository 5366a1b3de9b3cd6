import TemplateManifest.Proofs.Template.ByteSteps

/-!
The code of tags in the scan in bytes. Its words have the bytes of their characters, and its loop reads
what the reading in characters reads.
-/

namespace TemplateManifest

open Text

namespace Code

variable {whole after rest : List Char} {c : Char}

theorem number_of_point (hwhole : IsLead Char.isDigit whole ('.' :: c :: rest))
    (hc : c.isDigit = true) :
    number (whole ++ '.' :: c :: rest) =
      (.float, whole ++ '.' :: (c :: rest).takeWhile Char.isDigit) := by
  rw [number, hwhole.takeWhile_eq, List.drop_left]
  exact if_pos hc

/-- A number is made of the first characters of the text. -/
theorem number_isPrefix (text : List Char) : (number text).2 <+: text := by
  obtain ⟨whole, after, rfl, hwhole⟩ := exists_isLead Char.isDigit text
  rw [number, hwhole.takeWhile_eq, List.drop_left]
  split
  · next c rest =>
    split
    · exact (List.prefix_append_right_inj whole).mpr
        ((List.prefix_cons_inj '.').mpr (List.takeWhile_prefix _))
    · exact List.prefix_append _ _
  · exact List.prefix_append _ _

theorem number_of_no_fraction (hwhole : IsLead Char.isDigit whole after)
    (hafter : ∀ c rest, after = '.' :: c :: rest → ¬ c.isDigit = true) :
    number (whole ++ after) = (.int, whole) := by
  rw [number, hwhole.takeWhile_eq, List.drop_left]
  split
  · next c rest => exact if_neg (hafter c rest rfl)
  · rfl

section Reading

variable {closer white text letters after : List Char} {kind : TagKind} {opened pos : Position}
  {bound depth count : Nat} {c : Char} {closed : Bool} {fault : SyntaxFault} {tokenKind : TokenKind}
  {value : String}

theorem readFrom_of_nil (hwhite : IsLead isWhiteSpace white []) :
    readFrom closer kind opened (bound + 1) depth ⟨white ++ [], pos⟩ =
      .error ⟨.unclosedTag kind, opened⟩ := by
  rw [readFrom, hwhite.takeWhile_eq, Cursor.skip_append white]

theorem readFrom_of_closes (hwhite : IsLead isWhiteSpace white (c :: text))
    (hmark : (if depth = 0 then closingMark? closer (c :: text) else none) = some (closed, count)) :
    readFrom closer kind opened (bound + 1) depth ⟨white ++ c :: text, pos⟩ =
      .ok ⟨[⟨closingKind kind, String.ofList closer, pos.after white⟩], closed,
        (Cursor.mk (c :: text) (pos.after white)).skip count⟩ := by
  rw [readFrom, hwhite.takeWhile_eq, Cursor.skip_append white]
  dsimp only
  rw [hmark]

theorem readFrom_of_fault (hwhite : IsLead isWhiteSpace white (c :: text))
    (hmark : (if depth = 0 then closingMark? closer (c :: text) else none) = none)
    (htoken : token c text = .error fault) :
    readFrom closer kind opened (bound + 1) depth ⟨white ++ c :: text, pos⟩ =
      .error ⟨fault, pos.after white⟩ := by
  rw [readFrom, hwhite.takeWhile_eq, Cursor.skip_append white]
  dsimp only
  rw [hmark, htoken]

/-- The reading of code goes on after a word. -/
theorem readFrom_of_token (hwhite : IsLead isWhiteSpace white (c :: (letters ++ after)))
    (hmark : (if depth = 0 then closingMark? closer (c :: (letters ++ after)) else none) = none)
    (htoken : token c (letters ++ after) = .ok (tokenKind, value, (c :: letters).length)) :
    readFrom closer kind opened (bound + 1) depth ⟨white ++ c :: (letters ++ after), pos⟩ =
      (readFrom closer kind opened bound (braceDepth depth tokenKind)
        ⟨after, pos.after (white ++ c :: letters)⟩).map fun reading =>
          { reading with tokens := ⟨tokenKind, value, pos.after white⟩ :: reading.tokens } := by
  rw [readFrom, hwhite.takeWhile_eq, Cursor.skip_append white]
  dsimp only
  rw [hmark, htoken]
  dsimp only
  rw [← List.cons_append, Cursor.skip_append (c :: letters), ← Position.after_append]
  cases readFrom closer kind opened bound (braceDepth depth tokenKind)
    ⟨after, pos.after (white ++ c :: letters)⟩ <;> rfl

end Reading

end Code

namespace ByteLexer

/-- A scan ends as a reading does: with the same error of the source, or with results that belong
    together. -/
inductive Follows {α β : Type} (good : α → β → State → Prop) :
    Except SyntaxError α → EStateM.Result Halt State β → Prop
  | refused {e : SyntaxError} {t : State} : Follows good (.error e) (.error (.refused e) t)
  | done {a : α} {b : β} {t : State} (h : good a b t) : Follows good (.ok a) (.ok b t)

section Following

variable {α β γ δ : Type} {good : α → β → State → Prop} {good' : γ → δ → State → Prop}
  {result : EStateM.Result Halt State β}

theorem Follows.exists_refused {e : SyntaxError} (h : Follows good (.error e) result) :
    ∃ t, result = .error (.refused e) t := by
  cases h
  exact ⟨_, rfl⟩

theorem Follows.exists_done {a : α} (h : Follows good (.ok a) result) :
    ∃ b t, result = .ok b t ∧ good a b t := by
  cases h with
  | done h => exact ⟨_, _, rfl, h⟩

theorem Follows.map {good' : γ → β → State → Prop} {x : Except SyntaxError α} {f : α → γ}
    (h : Follows good x result) (hmap : ∀ a b t, good a b t → good' (f a) b t) :
    Follows good' (x.map f) result := by
  cases h with
  | refused => exact .refused
  | done h => exact .done (hmap _ _ _ h)

/-- What comes next may follow what comes next in the reading. -/
theorem Follows.bind {x : Except SyntaxError α} {f : α → Except SyntaxError γ} {step : Scan β}
    {next : β → Scan δ} {s : State} (h : Follows good x (step s))
    (hnext : ∀ a b t, good a b t → Follows good' (f a) (next b t)) :
    Follows good' (x >>= f) ((step >>= next) s) := by
  cases x with
  | error e =>
    obtain ⟨t, hstep⟩ := h.exists_refused
    rw [bind_of_error hstep]
    exact .refused
  | ok a =>
    obtain ⟨b, t, hstep, hgood⟩ := h.exists_done
    rw [bind_of_ok hstep]
    exact hnext a b t hgood

end Following

section Loops

variable {α β : Type} {source passed more left : List Char} {strip strip' : Bool}
  {tokens tokens' : List Token} {step : α → Scan (α ⊕ β)} {a a' : α} {b : β}

theorem loop_of_error {size : Nat} {halt : Halt} {s t : State} (h : step a s = .error halt t) :
    loop size step a s = .error halt t := by
  rw [loop, h]

/-- Some characters have been consumed, and those have bytes. -/
theorem advances (hsource : source = passed ++ (more ++ left)) (hmore : more ≠ []) :
    (stateAt passed strip tokens).pos < (stateAt (passed ++ more) strip' tokens').pos ∧
      (stateAt (passed ++ more) strip' tokens').pos ≤ byteLength source := by
  have hpos := byteLength_pos hmore
  subst hsource
  change byteLength passed < byteLength (passed ++ more) ∧ byteLength (passed ++ more) ≤ _
  simp only [byteLength_append]
  omega

theorem loop_of_again (hsource : source = passed ++ (more ++ left)) (hmore : more ≠ [])
    (h : step a (stateAt passed strip tokens) = .ok (.inl a') (stateAt (passed ++ more) strip' tokens')) :
    loop (byteLength source) step a (stateAt passed strip tokens) =
      loop (byteLength source) step a' (stateAt (passed ++ more) strip' tokens') := by
  rw [loop, h]
  exact dif_pos (advances hsource hmore)

theorem loop_of_done (hsource : source = passed ++ (more ++ left)) (hmore : more ≠ [])
    (h : step a (stateAt passed strip tokens) = .ok (.inr b) (stateAt (passed ++ more) strip' tokens')) :
    loop (byteLength source) step a (stateAt passed strip tokens) =
      .ok b (stateAt (passed ++ more) strip' tokens') := by
  rw [loop, h]
  exact dif_pos (advances hsource hmore)

end Loops

section Words

variable {c : Char} {text : List Char} {s : State}

theorem utf8Size_of_isDigit (h : c.isDigit = true) : c.utf8Size = 1 := by
  rw [Char.utf8Size_eq_one_iff]
  unfold Char.isDigit at h
  simp only [Bool.and_eq_true, decide_eq_true_eq] at h
  exact UInt32.le_trans h.2 (by decide)

theorem utf8Size_of_markKind? {kind : TokenKind} (h : Code.markKind? c = some kind) :
    c.utf8Size = 1 := by
  unfold Code.markKind? at h
  split at h <;> cases h <;> rfl

theorem stringEnd?_eq (quote : Char) (offset : Nat) (text : List Char) :
    stringEnd? quote offset text = (Code.stringBody? quote text).map fun parts =>
      (parts.1, offset + byteLength (text.take parts.2)) := by
  fun_induction Code.stringBody? quote text generalizing offset with
  | case1 => rfl
  | case2 => rfl
  | case3 escaped text ih =>
    rw [stringEnd?, if_pos rfl]
    dsimp only
    rw [ih]
    cases Code.stringBody? quote text with
    | none => rfl
    | some parts => simp [Nat.add_assoc]
  | case4 text hescape =>
    rw [stringEnd?.eq_def]
    simp [hescape]
  | case5 c text hescape hquote ih =>
    rw [stringEnd?.eq_def]
    simp only [if_neg hescape, if_neg hquote, ih]
    cases Code.stringBody? quote text with
    | none => rfl
    | some parts => simp [Nat.add_assoc]

theorem byteLength_of_isDigit {digits : List Char} (h : ∀ c ∈ digits, c.isDigit = true) :
    byteLength digits = digits.length :=
  byteLength_eq_length fun c hc => utf8Size_of_isDigit (h c hc)

/-- The digits of a number are as many as their bytes. -/
theorem lexNumber_eq (text : List Char) (s : State) :
    lexNumber text s = .ok ((Code.number text).1, String.ofList (Code.number text).2,
      byteLength (Code.number text).2) s := by
  obtain ⟨whole, after, rfl, hwhole⟩ := exists_isLead Char.isDigit text
  have hlength := byteLength_of_isDigit hwhole.1
  have hafter : sliceFrom (whole ++ after) whole.length s = .ok after s :=
    sliceFrom_eq whole rfl hlength.symm
  rw [lexNumber, hwhole.takeWhile_eq, bind_of_ok hafter]
  by_cases hpoint : ∃ c rest, after = '.' :: c :: rest ∧ c.isDigit = true
  · obtain ⟨c, rest, rfl, hdigit⟩ := hpoint
    obtain ⟨digits, left, hrest, hdigits⟩ := exists_isLead Char.isDigit (c :: rest)
    have htake : (c :: rest).takeWhile Char.isDigit = digits := by
      rw [hrest, hdigits.takeWhile_eq]
    have hbytes : byteLength (whole ++ '.' :: digits) = whole.length + 1 + digits.length := by
      rw [byteLength_append, byteLength_cons, hlength, byteLength_of_isDigit hdigits.1, Nat.add_assoc]
      rfl
    have hfraction : sliceFrom ('.' :: c :: rest) 1 s = .ok (c :: rest) s :=
      sliceFrom_eq ['.'] rfl rfl
    have hvalue : slice (whole ++ '.' :: c :: rest) 0 (whole.length + 1 + digits.length) s =
        .ok (whole ++ '.' :: digits) s :=
      slice_eq [] left (by simp [hrest]) rfl (by rw [hbytes]; simp)
    have hfloat : (Option.any Char.isDigit (c :: rest).head?) = true := hdigit
    have hstarts : startsWith ['.'] ('.' :: c :: rest) = true := rfl
    rw [if_pos hstarts, bind_of_ok hfraction, if_pos hfloat, htake, bind_of_ok hvalue,
      Code.number_of_point hwhole hdigit, htake, hbytes]
    rfl
  · have hint : slice (whole ++ after) 0 whole.length s = .ok whole s :=
      slice_eq [] after rfl rfl (by rw [byteLength_nil, Nat.zero_add, hlength])
    rw [Code.number_of_no_fraction hwhole fun c rest hsplit hdigit => hpoint ⟨c, rest, hsplit, hdigit⟩,
      hlength]
    split
    · next hstarts =>
      obtain ⟨fraction, rfl⟩ := startsWith_iff.mp hstarts
      have hfraction : sliceFrom (['.'] ++ fraction) 1 s = .ok fraction s :=
        sliceFrom_eq ['.'] rfl rfl
      have hdigit : ¬ fraction.head?.any Char.isDigit = true := by
        rw [Option.any_eq_true]
        rintro ⟨c, hhead, hdigit⟩
        obtain ⟨rest, rfl⟩ := List.head?_eq_some_iff.mp hhead
        exact hpoint ⟨c, rest, rfl, hdigit⟩
      rw [bind_of_ok hfraction, if_neg hdigit, bind_of_ok hint]
      rfl
    · rw [bind_of_ok hint]
      rfl

/-- A word takes the bytes of its characters, and where none starts the scan ends with the fault that
    the reading has. -/
theorem follows_lexWord (c : Char) (text : List Char) (s : State) :
    Follows (fun word found t =>
        found = (word.1, word.2.1, byteLength ((c :: text).take word.2.2)) ∧ t = s)
      ((Code.token c text).mapError fun fault => ⟨fault, s.place⟩) (lexWord c text s) := by
  rw [Code.token]
  change Follows _ _ ((if c = '"' ∨ c = '\'' then _ else _ : Scan _) s)
  by_cases hquote : c = '"' ∨ c = '\''
  · rw [if_pos hquote, if_pos hquote, stringEnd?_eq]
    cases Code.stringBody? c text with
    | none => exact .refused
    | some parts =>
      refine .done ⟨?_, rfl⟩
      rw [List.take_succ_cons, byteLength_cons]
  rw [if_neg hquote, if_neg hquote]
  by_cases hdigit : c.isDigit = true
  · have hprefix := Code.number_isPrefix (c :: text)
    rw [if_pos hdigit, if_pos hdigit, lexNumber_eq]
    cases hnumber : Code.number (c :: text) with
    | mk kind digits =>
    rw [hnumber] at hprefix
    refine .done ⟨?_, rfl⟩
    rw [← List.prefix_iff_eq_take.mp hprefix]
  rw [if_neg hdigit, if_neg hdigit]
  by_cases hname : Code.startsName c = true
  · have hslice : slice (c :: text) 0 (byteLength ((c :: text).takeWhile Code.continuesName)) s =
        .ok ((c :: text).takeWhile Code.continuesName) s :=
      slice_eq [] ((c :: text).dropWhile Code.continuesName) List.takeWhile_append_dropWhile.symm rfl
        (Nat.zero_add _).symm
    rw [if_pos hname, if_pos hname, bind_of_ok hslice]
    refine .done ⟨?_, rfl⟩
    rw [← List.prefix_iff_eq_take.mp (List.takeWhile_prefix _)]
  rw [if_neg hname, if_neg hname]
  cases hmark : Code.markKind? c with
  | some kind =>
    refine .done ⟨?_, rfl⟩
    rw [List.take_succ_cons, List.take_zero, byteLength_cons, utf8Size_of_markKind? hmark]
    rfl
  | none =>
    cases hop : Code.operators.find? fun op => startsWith op.toList (c :: text) with
    | none => exact .refused
    | some op =>
      have hprefix := startsWith_iff_isPrefix.mp
        (List.find?_some (p := fun op : String => startsWith op.toList (c :: text)) hop)
      refine .done ⟨?_, rfl⟩
      rw [← String.length_toList, ← List.prefix_iff_eq_take.mp hprefix]

end Words

section Code

variable {options : LanguageOptions} {source : List Char} {kind : TagKind} {opened : Position}
  {passed left : List Char} {strip : Bool} {tokens : List Token}

/-- The scan has read the code of a tag as the reading in characters has. -/
def ReadsCode (passed left : List Char) (strip : Bool) (tokens : List Token) (reading : Code.Reading)
    (stripped : Bool) (t : State) : Prop :=
  stripped = reading.stripsAfter ∧ ∃ code rest, left = code ++ rest ∧
    reading.finish = ⟨rest, Position.first.after (passed ++ code)⟩ ∧
    t = stateAt (passed ++ code) strip (tokens ++ reading.tokens)

/-- What has been read after a first word has been read with that word. -/
theorem ReadsCode.cons {word : List Char} {token : Token} {reading : Code.Reading} {stripped : Bool}
    {t : State} (h : ReadsCode (passed ++ word) left strip (tokens ++ [token]) reading stripped t) :
    ReadsCode passed (word ++ left) strip tokens { reading with tokens := token :: reading.tokens }
      stripped t := by
  obtain ⟨hstripped, code, rest, rfl, hfinish, rfl⟩ := h
  refine ⟨hstripped, word ++ code, rest, (List.append_assoc ..).symm, ?_, ?_⟩
  · rw [hfinish, List.append_assoc]
  · rw [List.append_assoc, List.append_assoc]
    rfl

theorem codeStep_stateAt {white text : List Char} {depth : Nat}
    (hsource : source = passed ++ (white ++ text)) (hwhite : IsLead isWhiteSpace white text) :
    codeStep options source kind opened depth (stateAt passed strip tokens) =
      codeWord options source kind opened depth text (stateAt (passed ++ white) strip tokens) := by
  have htext : source = passed ++ white ++ text := by
    rw [hsource, List.append_assoc]
  rw [codeStep, bind_of_ok (rest_stateAt hsource),
    bind_of_ok (bump_stateAt hsource (whiteLength_eq hwhite)), bind_of_ok (rest_stateAt htext)]

/-- The closing mark is looked for as the reading in characters looks for it. -/
theorem outerClosing?_eq {closer text : List Char} {depth : Nat} {s : State} :
    outerClosing? closer depth text s =
      .ok ((if depth = 0 then Code.closingMark? closer text else none).map Prod.fst) s := by
  rw [outerClosing?]
  split
  · exact closing?_eq
  · rfl

theorem codeWord_of_closes {c : Char} {text left : List Char} {depth : Nat} {closed : Bool}
    (hsource : source = passed ++ (c :: text))
    (htext : c :: text = dash closed ++ (options.delimiters.closer kind).toList ++ left)
    (hmark : (if depth = 0 then Code.closingMark? (options.delimiters.closer kind).toList (c :: text)
      else none).map Prod.fst = some closed) :
    codeWord options source kind opened depth (c :: text) (stateAt passed strip tokens) =
      .ok (.inr closed) (stateAt (passed ++ (dash closed ++ (options.delimiters.closer kind).toList)) strip
        (tokens ++ [⟨Code.closingKind kind, String.ofList (options.delimiters.closer kind).toList,
          Position.first.after passed⟩])) := by
  rw [codeWord, get_bind, bind_of_ok outerClosing?_eq, hmark]
  dsimp only
  rw [bind_of_ok push_stateAt, bind_of_ok (bump_stateAt
    (hsource.trans (congrArg (passed ++ ·) htext)) (byteLength_dash closed).symm)]
  rfl

theorem codeWord_of_fault {c : Char} {text : List Char} {depth : Nat} {fault : SyntaxFault}
    (hmark : (if depth = 0 then Code.closingMark? (options.delimiters.closer kind).toList (c :: text)
      else none) = none)
    (htoken : Code.token c text = .error fault) :
    ∃ t, codeWord options source kind opened depth (c :: text) (stateAt passed strip tokens) =
      .error (.refused ⟨fault, Position.first.after passed⟩) t := by
  have hword := follows_lexWord c text (stateAt passed strip tokens)
  rw [htoken] at hword
  obtain ⟨t, hword⟩ := hword.exists_refused
  refine ⟨t, ?_⟩
  rw [codeWord, get_bind, bind_of_ok outerClosing?_eq, hmark]
  exact bind_of_error hword

theorem codeWord_of_token {c : Char} {letters rest : List Char} {depth : Nat} {tokenKind : TokenKind}
    {value : String} (hsource : source = passed ++ (c :: letters ++ rest))
    (hmark : (if depth = 0 then
      Code.closingMark? (options.delimiters.closer kind).toList (c :: (letters ++ rest)) else none) = none)
    (htoken : Code.token c (letters ++ rest) = .ok (tokenKind, value, (c :: letters).length)) :
    codeWord options source kind opened depth (c :: (letters ++ rest)) (stateAt passed strip tokens) =
      .ok (.inl (Code.braceDepth depth tokenKind)) (stateAt (passed ++ c :: letters) strip
        (tokens ++ [⟨tokenKind, value, Position.first.after passed⟩])) := by
  have hword := follows_lexWord c (letters ++ rest) (stateAt passed strip tokens)
  rw [htoken] at hword
  obtain ⟨found, t, hword, hfound, ht⟩ := hword.exists_done
  subst hfound ht
  rw [codeWord, get_bind, bind_of_ok outerClosing?_eq, hmark]
  dsimp only [Option.map_none]
  rw [bind_of_ok hword]
  dsimp only
  rw [bind_of_ok push_stateAt, ← List.cons_append, List.take_left,
    bind_of_ok (bump_stateAt hsource rfl)]
  rfl

/-- The loop over the code of a tag consumes something in each iteration, and reads what the reading in
    characters reads. The induction is on the number of words that this reading allows. -/
theorem follows_codeLoop {bound depth : Nat} (hne : (options.delimiters.closer kind).toList ≠ [])
    (hsource : source = passed ++ left) (hbound : left.length < bound) :
    Follows (ReadsCode passed left strip tokens)
      (Code.readFrom (options.delimiters.closer kind).toList kind opened bound depth
        ⟨left, Position.first.after passed⟩)
      (loop (byteLength source) (codeStep options source kind opened) depth
        (stateAt passed strip tokens)) := by
  induction bound generalizing depth passed left tokens with
  | zero => exact absurd hbound (Nat.not_lt_zero _)
  | succ bound ih =>
    obtain ⟨white, text, rfl, hwhite⟩ := exists_isLead isWhiteSpace left
    have hstep : codeStep options source kind opened depth (stateAt passed strip tokens) =
        codeWord options source kind opened depth text (stateAt (passed ++ white) strip tokens) :=
      codeStep_stateAt hsource hwhite
    have htext : source = passed ++ white ++ text := by
      rw [hsource, List.append_assoc]
    cases text with
    | nil =>
      rw [Code.readFrom_of_nil hwhite, loop_of_error hstep]
      exact .refused
    | cons c text =>
    cases hmark : (if depth = 0 then
      Code.closingMark? (options.delimiters.closer kind).toList (c :: text) else none) with
    | some found =>
      rw [Code.readFrom_of_closes hwhite hmark, ← Position.after_append]
      obtain ⟨closed, count⟩ := found
      have hcloses : Code.closingMark? (options.delimiters.closer kind).toList (c :: text) =
          some (closed, count) := by
        split at hmark
        · exact hmark
        · cases hmark
      obtain ⟨⟨⟨rest, hrest⟩, -⟩, rfl⟩ := closesAt_of_closingMark? hcloses
      have hword := hstep.trans
        (codeWord_of_closes htext hrest.symm (congrArg (Option.map Prod.fst) hmark))
      rw [List.append_assoc] at hword
      rw [← hrest, ← List.append_assoc white] at hsource ⊢
      rw [loop_of_done hsource (by simp [hne]) hword]
      refine .done ⟨rfl, _, rest, rfl, ?_, rfl⟩
      rw [Cursor.skip_append (dash closed ++ (options.delimiters.closer kind).toList),
        ← Position.after_append, List.append_assoc]
    | none =>
    cases htoken : Code.token c text with
    | error fault =>
      have hword : ∃ t, codeWord options source kind opened depth (c :: text)
          (stateAt (passed ++ white) strip tokens) =
            .error (.refused ⟨fault, Position.first.after (passed ++ white)⟩) t :=
        codeWord_of_fault hmark htoken
      obtain ⟨t, hword⟩ := hword
      rw [Code.readFrom_of_fault hwhite hmark htoken, ← Position.after_append,
        loop_of_error (hstep.trans hword)]
      exact .refused
    | ok found =>
      obtain ⟨tokenKind, value, count⟩ := found
      obtain ⟨hpos, hle⟩ := Code.length_token htoken
      obtain ⟨letters, after, rfl, rfl⟩ :
          ∃ letters after, text = letters ++ after ∧ count = (c :: letters).length := by
        refine ⟨text.take (count - 1), text.drop (count - 1), (List.take_append_drop _ _).symm, ?_⟩
        rw [List.length_cons, List.length_take]
        omega
      have hword := hstep.trans (codeWord_of_token htext hmark htoken)
      have hleft : white ++ c :: (letters ++ after) = white ++ c :: letters ++ after := by
        rw [List.append_assoc, List.cons_append]
      have hmoved : source = passed ++ (white ++ c :: letters ++ after) := by
        rw [hsource, hleft]
      have hbound : after.length < bound := by
        simp only [List.length_append, List.length_cons] at hbound
        omega
      rw [List.append_assoc] at hword
      rw [Code.readFrom_of_token hwhite hmark htoken, loop_of_again hmoved (by simp) hword, hleft,
        ← Position.after_append, ← Position.after_append]
      rw [← List.append_assoc] at hmoved
      exact (ih hmoved hbound).map fun reading stripped t => ReadsCode.cons

end Code

end ByteLexer

end TemplateManifest
