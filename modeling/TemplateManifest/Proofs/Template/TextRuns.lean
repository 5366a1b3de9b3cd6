import Mathlib.Data.List.Induction
import TemplateManifest.Proofs.Template.Tiling

/-!
The parts of a source in their places, and what is shown of a run of text: it loses at its ends what
the constructs on both sides and the options take. Main statement: `Place.shows_visibleText`.
-/

namespace TemplateManifest

open Text

/-- What stands on the last line of a text. -/
def lastLine (text : List Char) : List Char :=
  (text.reverse.takeWhile (· ≠ '\n')).reverse

/-- A space or a tab. -/
def isTabOrSpace (c : Char) : Bool :=
  c = ' ' || c = '\t'

/-- A part of a source with the parts before it and after it. -/
structure Place where
  before : List Span
  span : Span
  after : List Span

/-- Parts of a source in their places, where some parts come before all of them. -/
def places : List Span → List Span → List Place
  | _, [] => []
  | before, span :: after => ⟨before, span, after⟩ :: places (before ++ [span]) after

/-- The source made of some parts. -/
def sourceOf (d : Delimiters) (spans : List Span) : List Char :=
  spans.flatMap (Span.source d)

/-- The line break that the last of some parts takes from the text after it. -/
def lineBreakAfter (options : LanguageOptions) (before : List Span) (text : List Char) : List Char :=
  match before.getLast? with
  | none => []
  | some span => span.lineBreak options text

/-- Only spaces and tabs of the text stand on the last line. -/
def endsInIndent (passed text : List Char) : Bool :=
  (lastLine (passed ++ text)).length ≤ text.length && (lastLine (passed ++ text)).all isTabOrSpace

namespace Place

/-- The part is a run of text. -/
def isText (p : Place) : Bool :=
  match p.span with
  | .text _ => true
  | _ => false

/-- A part is where it belongs: a run of text reaches from one construct to the next one, and a
    construct stands in front of what comes after it. -/
inductive Fits (options : LanguageOptions) : Place → Prop
  | text {before after : List Span} {chars : List Char} (hne : chars ≠ [])
      (hbefore : ∀ chars', before.getLast? ≠ some (.text chars'))
      (hbare : ∀ passed left, chars = passed ++ left → left ≠ [] →
        (lineBreakAfter options before chars).length ≤ passed.length →
        ∀ kind, ¬ (options.delimiters.opener kind).toList <+:
          left ++ sourceOf options.delimiters after) : Fits options ⟨before, .text chars, after⟩
  | construct {before after : List Span} {span : Span}
      (h : span.Stands options.delimiters (sourceOf options.delimiters after)) :
      Fits options ⟨before, span, after⟩

/-- What is shown of a run of text: all but a line break and white space before it, and white space or
    an indent after it. -/
inductive Shows (options : LanguageOptions) : Place → List Char → Prop
  | text {before after : List Span} {chars lineBreak lead shown tail : List Char}
      (hchars : chars = lineBreak ++ (lead ++ (shown ++ tail)))
      (hbreak : lineBreak = lineBreakAfter options before chars)
      (hlead : if before.getLast?.any Span.stripsAfter then IsLead isWhiteSpace lead (shown ++ tail)
        else lead = [])
      (htail : if after.head?.any (Span.stripsBefore options.delimiters) then
          IsTail isWhiteSpace shown tail
        else if options.lstripBlocks && after.head?.any Span.isBlock &&
            endsInIndent (sourceOf options.delimiters before) chars then IsTail isTabOrSpace shown tail
        else tail = []) : Shows options ⟨before, .text chars, after⟩ shown

end Place

section Lines

theorem lastLine_append {text more : List Char} (h : ∀ c ∈ more, c ≠ '\n') :
    lastLine (text ++ more) = lastLine text ++ more := by
  rw [lastLine, List.reverse_append, List.takeWhile_append_of_pos, List.reverse_append,
    List.reverse_reverse, lastLine]
  intro c hc
  exact decide_eq_true (h c (List.mem_reverse.mp hc))

theorem lastLine_append_lineFeed (text : List Char) : lastLine (text ++ ['\n']) = [] := by
  rw [lastLine, List.reverse_append]
  rfl

/-- A column tells how much stands before it on its line. -/
theorem col_after_first (text : List Char) :
    (Position.first.after text).col = (lastLine text).length + 1 := by
  induction text using List.reverseRecOn with
  | nil => rfl
  | append_singleton text c ih =>
    rw [Position.after_append, Position.after_cons, Position.after_nil, Position.step]
    split
    · next hfeed => rw [hfeed, lastLine_append_lineFeed]; rfl
    · next hfeed =>
      rw [ih, lastLine_append (List.forall_mem_singleton.mpr hfeed), List.length_append]
      rfl

end Lines

section Trimming

variable {options : LanguageOptions} {before after : List Span}
  {chars lineBreak lead shown tail passed text kept : List Char}

theorem isTail_of_trimEnd (text : List Char) :
    ∃ tail, text = trimEnd text ++ tail ∧ IsTail isWhiteSpace (trimEnd text) tail :=
  exists_isTail isWhiteSpace text

theorem ne_lineFeed_of_isTabOrSpace {c : Char} (h : isTabOrSpace c = true) : c ≠ '\n' := by
  rintro rfl
  exact absurd h (by decide)

theorem isWhiteSpace_of_isTabOrSpace {c : Char} (h : isTabOrSpace c = true) :
    isWhiteSpace c = true := by
  obtain rfl | rfl : c = ' ' ∨ c = '\t' := by simpa [isTabOrSpace] using h
  · decide
  · decide

/-- Spaces and tabs after other text are an indent if that text ends a line. -/
theorem endsInIndent_of_isTail (htail : IsTail isTabOrSpace kept tail) (hne : kept ≠ []) :
    endsInIndent passed (lead ++ (kept ++ tail)) = decide (kept.getLast? = some '\n') := by
  obtain ⟨kept, c, rfl⟩ : ∃ kept' c, kept = kept' ++ [c] :=
    ⟨_, _, (List.dropLast_concat_getLast hne).symm⟩
  have hc : isTabOrSpace c = false := htail.2 c (by simp)
  have hsplit : passed ++ (lead ++ (kept ++ [c] ++ tail)) =
      passed ++ (lead ++ kept) ++ [c] ++ tail := by
    simp only [List.append_assoc]
  have hline : lastLine (passed ++ (lead ++ kept) ++ [c] ++ tail) = _ :=
    lastLine_append fun c hc => ne_lineFeed_of_isTabOrSpace (htail.1 c hc)
  rw [endsInIndent, hsplit, hline, List.getLast?_concat]
  by_cases hfeed : c = '\n'
  · subst hfeed
    rw [lastLine_append_lineFeed, List.nil_append, List.all_eq_true.mpr htail.1]
    simp only [List.length_append]
    simp
    omega
  · rw [lastLine_append (List.forall_mem_singleton.mpr hfeed)]
    simp [hc, hfeed]

/-- Spaces and tabs alone are an indent if they start a line. -/
theorem endsInIndent_of_all (hbreak : lineBreak = [] ∨ ∃ text, lineBreak = text ++ ['\n'])
    (hall : ∀ c ∈ tail, isTabOrSpace c = true) :
    endsInIndent passed (lineBreak ++ tail) = (lastLine (passed ++ lineBreak)).isEmpty := by
  rw [endsInIndent, ← List.append_assoc,
    lastLine_append fun c hc => ne_lineFeed_of_isTabOrSpace (hall c hc)]
  rcases hbreak with rfl | ⟨text, rfl⟩
  · cases lastLine (passed ++ []) with
    | nil => simpa using hall
    | cons c line =>
      have hlong : ¬(c :: line ++ tail).length ≤ ([] ++ tail).length := by
        simp only [List.length_append, List.length_cons, List.length_nil]
        omega
      rw [decide_eq_false hlong]
      rfl
  · rw [← List.append_assoc, lastLine_append_lineFeed, List.nil_append, List.all_eq_true.mpr hall,
      List.length_append]
    exact Bool.and_true _ ▸ decide_eq_true (Nat.le_add_left _ _)

/-- What is left once an indent has been dropped. -/
theorem isTail_dropIndent (atLineStart : Bool) (text : List Char) :
    ∃ kept tail, text = kept ++ tail ∧ IsTail isTabOrSpace kept tail ∧
      Segment.dropIndent atLineStart text =
        if kept.getLast? = some '\n' || (kept.isEmpty && atLineStart) then kept else text := by
  obtain ⟨tail, htext, htail⟩ := exists_isTail isTabOrSpace text
  exact ⟨_, tail, htext, htail, rfl⟩

theorem visibleText_eq (strip : Bool) (start : Position) (next : Option Construct) :
    Segment.visibleText options strip start chars next =
      let stripped := if strip then trimStart chars else chars
      if next.any Construct.stripsBefore then trimEnd stripped
      else if options.lstripBlocks && next.any fun c => c.kind ≠ .variable then
        Segment.dropIndent (start.col = 1) stripped
      else stripped := by
  cases next with
  | none => simp [Segment.visibleText]
  | some c => rfl

theorem lineBreakAfter_eq (options : LanguageOptions) (before : List Span) (text : List Char) :
    lineBreakAfter options before text = [] ∨
      ∃ text', lineBreakAfter options before text = text' ++ ['\n'] := by
  unfold lineBreakAfter
  split
  · exact .inl rfl
  · unfold Span.lineBreak Segment.leadingLineBreak
    split
    · split
      · exact .inr ⟨['\r'], rfl⟩
      · exact .inr ⟨[], rfl⟩
      · exact .inl rfl
    · exact .inl rfl

/-- A text that starts with a space has had nothing taken before it. -/
theorem lead_eq_nil {c : Char} {text : List Char} {strip : Bool}
    (hlead : if strip then IsLead isWhiteSpace lead (c :: text) else lead = [])
    (hc : isTabOrSpace c = true) : lead = [] := by
  split at hlead
  · have hwhite := isWhiteSpace_of_isTabOrSpace hc
    rw [hlead.2 c rfl] at hwhite
    cases hwhite
  · exact hlead

/-- An indent is dropped if it starts its line. -/
theorem exists_dropIndent (passed : List Char) {text : List Char} {strip : Bool}
    (hbreak : lineBreak = [] ∨ ∃ text, lineBreak = text ++ ['\n'])
    (hlead : if strip then IsLead isWhiteSpace lead text else lead = []) :
    ∃ tail, text = Segment.dropIndent (lastLine (passed ++ lineBreak)).isEmpty text ++ tail ∧
      if endsInIndent passed (lineBreak ++ (lead ++ text)) then
        IsTail isTabOrSpace (Segment.dropIndent (lastLine (passed ++ lineBreak)).isEmpty text) tail
      else tail = [] := by
  obtain ⟨kept, tail, htext, htail, hdrop⟩ :=
    isTail_dropIndent (lastLine (passed ++ lineBreak)).isEmpty text
  rw [hdrop]
  by_cases hne : kept = []
  · subst hne
    obtain rfl : text = tail := htext
    cases text with
    | nil => exact ⟨[], by simp, by simp [IsTail]⟩
    | cons c text =>
      obtain rfl := lead_eq_nil hlead (htail.1 c List.mem_cons_self)
      rw [List.nil_append, endsInIndent_of_all hbreak htail.1]
      cases (lastLine (passed ++ lineBreak)).isEmpty with
      | true => exact ⟨c :: text, by simp, by simpa using htail⟩
      | false => exact ⟨[], by simp, by simp⟩
  · have hends : endsInIndent passed (lineBreak ++ (lead ++ text)) =
        decide (kept.getLast? = some '\n') := by
      rw [htext, ← List.append_assoc, endsInIndent_of_isTail htail hne]
    rw [hends, List.isEmpty_eq_false_iff.mpr hne, Bool.false_and, Bool.or_false]
    by_cases hfeed : kept.getLast? = some '\n'
    · exact ⟨tail, by simpa [hfeed] using htext, by simpa [hfeed] using htail⟩
    · exact ⟨[], by simp [hfeed], by simp [hfeed]⟩

theorem Place.shows_visibleText {start : Position} {next : Option Construct}
    (hbreak : lineBreak = lineBreakAfter options before (lineBreak ++ chars))
    (hstart : start =
      Position.first.after (sourceOf options.delimiters before ++ lineBreak))
    (hstrips : next.any Construct.stripsBefore =
      after.head?.any (Span.stripsBefore options.delimiters))
    (hblock : (next.any fun c => c.kind ≠ .variable) = after.head?.any Span.isBlock) :
    Shows options ⟨before, .text (lineBreak ++ chars), after⟩
      (Segment.visibleText options (before.getLast?.any Span.stripsAfter) start chars next) := by
  obtain ⟨lead, text, rfl, hlead, htext⟩ : ∃ lead text, chars = lead ++ text ∧
      (if before.getLast?.any Span.stripsAfter then IsLead isWhiteSpace lead text else lead = []) ∧
      (if before.getLast?.any Span.stripsAfter then trimStart chars else chars) = text := by
    split
    · exact ⟨_, _, List.takeWhile_append_dropWhile.symm, isLead_dropWhile isWhiteSpace chars, rfl⟩
    · exact ⟨[], chars, rfl, rfl, rfl⟩
  have hcol : decide (start.col = 1) =
      (lastLine (sourceOf options.delimiters before ++ lineBreak)).isEmpty := by
    rw [hstart, col_after_first]
    cases lastLine (sourceOf options.delimiters before ++ lineBreak) <;> rfl
  rw [visibleText_eq, hstrips, hblock, htext, hcol]
  dsimp only
  split
  · next hnext =>
    obtain ⟨tail, htext, htail⟩ := isTail_of_trimEnd text
    refine .text (by rw [← htext]) hbreak (by rwa [← htext]) ?_
    rwa [if_pos hnext]
  · next hnext =>
    split
    · next hindent =>
      obtain ⟨tail, htext, htail⟩ := exists_dropIndent (sourceOf options.delimiters before)
        (hbreak ▸ lineBreakAfter_eq options before _) hlead
      refine .text (by rw [← htext]) hbreak (by rwa [← htext]) ?_
      rw [if_neg hnext, hindent, Bool.true_and]
      exact htail
    · next hindent =>
      refine .text (show _ = lineBreak ++ (lead ++ (text ++ [])) by rw [List.append_nil]) hbreak
        (by rwa [List.append_nil]) ?_
      rw [if_neg hnext, Bool.eq_false_iff.mpr hindent, Bool.false_and, if_neg Bool.false_ne_true]

end Trimming

end TemplateManifest
