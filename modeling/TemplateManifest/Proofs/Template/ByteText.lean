import TemplateManifest.Proofs.Template.ByteSteps

/-!
Runs of text in the scan in bytes: the bounds of the visible part mark the text that is visible.
-/

namespace TemplateManifest

open Text

/-- An indent is dropped if all of its line stands in the text. -/
theorem dropIndent_append {passed lead text : List Char} {strip : Bool}
    (hlead : if strip then IsLead isWhiteSpace lead text else lead = []) :
    Segment.dropIndent (lastLine passed).isEmpty text ++
      (if endsInIndent (passed ++ lead) text then lastLine (passed ++ (lead ++ text)) else []) =
        text := by
  obtain ⟨kept, tail, htext, htail, hdrop⟩ := isTail_dropIndent (lastLine passed).isEmpty text
  rw [hdrop]
  by_cases hne : kept = []
  · subst hne
    obtain rfl : text = tail := htext
    cases text with
    | nil =>
      have hline : endsInIndent (passed ++ lead) [] = true →
          lastLine (passed ++ (lead ++ [])) = [] := by
        intro h
        rw [endsInIndent, Bool.and_eq_true, decide_eq_true_eq] at h
        rw [← List.append_assoc]
        exact List.length_eq_zero_iff.mp (Nat.le_zero.mp h.1)
      rw [ite_self, List.nil_append]
      split
      · next h => exact hline h
      · rfl
    | cons c text =>
      obtain rfl := lead_eq_nil hlead (htail.1 c List.mem_cons_self)
      have hindent : endsInIndent passed ([] ++ c :: text) = (lastLine (passed ++ [])).isEmpty :=
        endsInIndent_of_all (.inl rfl) htail.1
      rw [List.append_nil, List.nil_append] at hindent
      have hline : lastLine (passed ++ ([] ++ c :: text)) = lastLine passed ++ c :: text :=
        lastLine_append fun c hc => ne_lineFeed_of_isTabOrSpace (htail.1 c hc)
      rw [List.append_nil, hindent, hline]
      cases hpassed : lastLine passed with
      | nil => simp
      | cons b line => simp
  · have hindent : endsInIndent (passed ++ lead) ([] ++ (kept ++ tail)) =
        decide (kept.getLast? = some '\n') := endsInIndent_of_isTail htail hne
    rw [List.nil_append, ← htext] at hindent
    rw [hindent, List.isEmpty_eq_false_iff.mpr hne, Bool.false_and, Bool.or_false]
    by_cases hfeed : kept.getLast? = some '\n'
    · obtain ⟨kept, rfl⟩ := List.getLast?_eq_some_iff.mp hfeed
      have hline : lastLine (passed ++ (lead ++ text)) = tail := by
        have hsplit : passed ++ (lead ++ text) = passed ++ (lead ++ kept) ++ ['\n'] ++ tail := by
          rw [htext]
          simp only [List.append_assoc]
        rw [hsplit, lastLine_append fun c hc => ne_lineFeed_of_isTabOrSpace (htail.1 c hc),
          lastLine_append_lineFeed, List.nil_append]
      rw [decide_eq_true hfeed, if_pos rfl, if_pos rfl, hline, htext]
    · rw [decide_eq_false hfeed, if_neg Bool.false_ne_true, if_neg Bool.false_ne_true,
        List.append_nil]

namespace ByteLexer

variable {options : LanguageOptions} {source passed lead chars data left : List Char} {strip : Bool}
  {tokens : List Token} {s : State}

/-- A text is what stands up to its last line, and that line. -/
theorem exists_lineStart (text : List Char) :
    ∃ before, text = before ++ lastLine text ∧ lineStart text = byteLength before := by
  refine ⟨_, ?_, rfl⟩
  rw [lastLine, ← List.reverse_append, List.takeWhile_append_dropWhile, List.reverse_reverse]

theorem dataStart_stateAt (hsource : source = passed ++ (lead ++ (chars ++ left)))
    (hlead : if strip then IsLead isWhiteSpace lead chars else lead = []) :
    dataStart source (byteLength (passed ++ (lead ++ chars))) (stateAt passed strip tokens) =
      .ok (byteLength (passed ++ lead)) (stateAt passed false tokens) := by
  cases strip with
  | false =>
    obtain rfl : lead = [] := hlead
    rw [List.append_nil]
    rfl
  | true =>
    have hlead : IsLead isWhiteSpace lead chars := hlead
    have hslice : slice source (byteLength passed) (byteLength (passed ++ (lead ++ chars)))
        (stateAt passed false tokens) = .ok (lead ++ chars) (stateAt passed false tokens) :=
      slice_eq passed left (by rw [hsource, List.append_assoc]) rfl byteLength_append
    change (slice source (byteLength passed) (byteLength (passed ++ (lead ++ chars))) >>= _)
      (stateAt passed false tokens) = _
    rw [bind_of_ok hslice, whiteLength_eq hlead, byteLength_append]
    rfl

/-- The bytes up to the last line of a text are no fewer than those of its start if the last line is
    no longer than the rest. -/
theorem le_lineStart_iff (before text : List Char) :
    byteLength before ≤ lineStart (before ++ text) ↔
      (lastLine (before ++ text)).length ≤ text.length := by
  obtain ⟨upto, hsplit, hstart⟩ := exists_lineStart (before ++ text)
  rw [hstart]
  rcases List.append_eq_append_iff.mp hsplit with ⟨more, hupto, htext⟩ | ⟨more, hbefore, hline⟩
  · rw [hupto, byteLength_append, htext, List.length_append, ← htext]
    exact iff_of_true (Nat.le_add_right _ _) (Nat.le_add_left _ _)
  · rw [hline, hbefore, byteLength_append, List.length_append]
    cases more with
    | nil => simp
    | cons c more =>
      have hpos := byteLength_pos (List.cons_ne_nil c more)
      simp only [List.length_cons]
      omega

/-- The scan finds the indent that is dropped from a run of text. -/
theorem indentStart_eq (hsource : source = passed ++ (lead ++ (chars ++ left)))
    (hlead : if strip then IsLead isWhiteSpace lead chars else lead = []) :
    indentStart source (byteLength (passed ++ lead)) (byteLength (passed ++ (lead ++ chars))) s =
      .ok (byteLength (passed ++ lead) +
        byteLength (Segment.dropIndent (lastLine passed).isEmpty chars)) s := by
  obtain ⟨upto, hsplit, hstart⟩ := exists_lineStart (passed ++ (lead ++ chars))
  have hbefore : slice source 0 (byteLength (passed ++ (lead ++ chars))) s =
      .ok (passed ++ (lead ++ chars)) s :=
    slice_eq [] left (by rw [hsource]; simp) rfl (Nat.zero_add _).symm
  have hline : byteLength (passed ++ (lead ++ chars)) =
      byteLength upto + byteLength (lastLine (passed ++ (lead ++ chars))) :=
    (congrArg byteLength hsplit).trans byteLength_append
  have hindent : slice source (lineStart (passed ++ (lead ++ chars)))
      (byteLength (passed ++ (lead ++ chars))) s = .ok (lastLine (passed ++ (lead ++ chars))) s := by
    refine slice_eq upto left ?_ hstart hline
    rw [← List.append_assoc, ← hsplit, hsource]
    simp only [List.append_assoc]
  have hends : (decide (byteLength (passed ++ lead) ≤ lineStart (passed ++ (lead ++ chars))) &&
      (lastLine (passed ++ (lead ++ chars))).all fun c => c = ' ' || c = '\t') =
        endsInIndent (passed ++ lead) chars := by
    rw [← List.append_assoc, decide_eq_decide.mpr (le_lineStart_iff (passed ++ lead) chars)]
    rfl
  have hdrop : Segment.dropIndent (lastLine passed).isEmpty chars ++
      (if endsInIndent (passed ++ lead) chars then lastLine (passed ++ (lead ++ chars)) else []) =
        chars := dropIndent_append hlead
  have hlength := congrArg byteLength hdrop
  rw [byteLength_append] at hlength
  rw [indentStart, bind_of_ok hbefore, bind_of_ok hindent, hends]
  rw [← hstart, ← List.append_assoc, byteLength_append, List.append_assoc] at hline
  split
  · next h =>
    rw [if_pos h] at hlength
    have hfound : lineStart (passed ++ (lead ++ chars)) = byteLength (passed ++ lead) +
        byteLength (Segment.dropIndent (lastLine passed).isEmpty chars) := by
      omega
    rw [hfound]
    rfl
  · next h =>
    rw [if_neg h, byteLength_nil, Nat.add_zero] at hlength
    rw [hlength, ← byteLength_append, List.append_assoc]
    rfl

/-- The visible text ends where the scan finds its end. -/
theorem exists_dataStop (hsource : source = passed ++ (lead ++ (chars ++ left)))
    (hlead : if strip then IsLead isWhiteSpace lead chars else lead = [])
    (hchars : (if strip then trimStart (lead ++ chars) else lead ++ chars) = chars)
    (next : Option Construct)
    (hnext : ∀ c ∈ next, ∃ inside, left = (options.delimiters.opener c.kind).toList ++ inside ∧
      c.stripsBefore = startsWith ['-'] inside) :
    ∃ tail, chars = Segment.visibleText options strip (Position.first.after passed)
        (lead ++ chars) next ++ tail ∧
      dataStop options source (byteLength (passed ++ lead)) (byteLength (passed ++ (lead ++ chars)))
        (next.map Construct.kind) s =
          .ok (byteLength (passed ++ lead) + byteLength (Segment.visibleText options strip
            (Position.first.after passed) (lead ++ chars) next)) s := by
  have hcolumn : decide ((Position.first.after passed).col = 1) = (lastLine passed).isEmpty := by
    rw [col_after_first]
    cases lastLine passed <;> simp
  have hstop : byteLength (passed ++ (lead ++ chars)) =
      byteLength (passed ++ lead) + byteLength chars := by
    rw [← List.append_assoc, byteLength_append]
  cases next with
  | none =>
    rw [visibleText_eq]
    simp only [Option.any_none, Bool.false_eq_true, if_false, Bool.and_false, hchars]
    exact ⟨[], (List.append_nil _).symm, by rw [hstop]; rfl⟩
  | some c =>
    obtain ⟨inside, hinside, hdash⟩ := hnext c rfl
    have hafter : sliceFrom source (byteLength (passed ++ (lead ++ chars)) +
        byteLength (options.delimiters.opener c.kind).toList) s = .ok inside s := by
      refine sliceFrom_eq (passed ++ (lead ++ chars) ++ (options.delimiters.opener c.kind).toList) ?_
        byteLength_append.symm
      rw [hsource, hinside]
      simp only [List.append_assoc]
    have hslice : slice source (byteLength (passed ++ lead)) (byteLength (passed ++ (lead ++ chars))) s =
        .ok chars s :=
      slice_eq (passed ++ lead) left (by rw [hsource, ← List.append_assoc]) rfl hstop
    rw [visibleText_eq, Option.map_some, dataStop, bind_of_ok hafter]
    simp only [Option.any_some, hchars, hdash, hcolumn]
    by_cases hstrips : startsWith ['-'] inside = true
    · obtain ⟨tail, htail, -⟩ := isTail_of_trimEnd chars
      rw [if_pos hstrips, if_pos hstrips, bind_of_ok hslice]
      exact ⟨tail, htail, rfl⟩
    · rw [if_neg hstrips, if_neg hstrips]
      split
      · exact ⟨_, (dropIndent_append hlead).symm, indentStart_eq hsource hlead⟩
      · exact ⟨[], (List.append_nil _).symm, by rw [hstop]; rfl⟩

/-- The visible part of a run of text becomes a token. -/
theorem lexData_stateAt (hsource : source = passed ++ (data ++ left)) (next : Option Construct)
    (hnext : ∀ c ∈ next, ∃ inside, left = (options.delimiters.opener c.kind).toList ++ inside ∧
      c.stripsBefore = startsWith ['-'] inside) :
    lexData options source (byteLength (passed ++ data)) (next.map Construct.kind)
        (stateAt passed strip tokens) =
      .ok () (stateAt (passed ++ data) false
        (tokens ++ dataTokens options strip (Position.first.after passed) data next)) := by
  obtain ⟨lead, chars, rfl, hlead, hchars⟩ : ∃ lead chars, data = lead ++ chars ∧
      (if strip then IsLead isWhiteSpace lead chars else lead = []) ∧
      (if strip then trimStart (lead ++ chars) else lead ++ chars) = chars := by
    cases strip with
    | false => exact ⟨[], data, rfl, rfl, rfl⟩
    | true =>
      obtain ⟨lead, chars, rfl, hlead⟩ := exists_isLead isWhiteSpace data
      exact ⟨lead, chars, rfl, hlead, trimStart_append hlead⟩
  rw [List.append_assoc] at hsource
  obtain ⟨tail, htail, hstop⟩ := exists_dataStop (s := stateAt passed false tokens) hsource hlead
    hchars next hnext
  generalize hvisible : Segment.visibleText options strip (Position.first.after passed) (lead ++ chars)
    next = visible at htail hstop
  have htake : takeData options source (byteLength (passed ++ (lead ++ chars)))
      (next.map Construct.kind) (stateAt passed strip tokens) =
        .ok visible (stateAt (passed ++ (lead ++ chars)) false tokens) := by
    have hslice : slice source (byteLength (passed ++ lead))
        (byteLength (passed ++ lead) + byteLength visible) (stateAt passed false tokens) =
          .ok visible (stateAt passed false tokens) := by
      refine slice_eq (passed ++ lead) (tail ++ left) ?_ rfl rfl
      rw [hsource, ← List.append_assoc visible, ← htail, ← List.append_assoc]
    have hbump : bump source
        (byteLength (passed ++ (lead ++ chars)) - (stateAt passed strip tokens).pos)
        (stateAt passed false tokens) = .ok () (stateAt (passed ++ (lead ++ chars)) false tokens) := by
      have hmoved : source = passed ++ (lead ++ chars ++ left) := by
        rw [hsource, List.append_assoc lead]
      refine bump_stateAt hmoved ?_
      rw [byteLength_append]
      exact Nat.add_sub_cancel_left ..
    rw [takeData, get_bind, bind_of_ok (dataStart_stateAt hsource hlead), bind_of_ok hstop,
      bind_of_ok hslice, bind_of_ok hbump]
    rfl
  rw [lexData, get_bind, place_stateAt, bind_of_ok htake, dataTokens, hvisible]
  by_cases hempty : visible = []
  · rw [if_pos hempty, List.append_nil, hempty]
    rfl
  · rw [if_neg hempty, if_neg (by simpa using hempty)]
    rfl

end ByteLexer

end TemplateManifest
