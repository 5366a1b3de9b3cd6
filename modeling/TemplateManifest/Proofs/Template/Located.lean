import TemplateManifest.Proofs.Template.FaultPlaces
import TemplateManifest.Proofs.Template.StatementGrammar
import TemplateManifest.Template.Parse

/-!
Where a template violates the grammar: every error of the parser, those of custom tags included, names
the place of a token of the stream. Main statement: `Template.parse_locations`.
-/

namespace TemplateManifest

/-- The token carries a place of the given ones. -/
def Token.IsAt (places : List Position) (token : Token) : Prop := token.pos ∈ places

/-- All tokens of the stream carry places of the given ones. -/
structure TokenStream.IsAt (places : List Position) (s : TokenStream) : Prop where
  pending : ∀ token ∈ s.pending, token.IsAt places
  last : s.last.IsAt places

namespace TokenStream.IsAt

variable {places : List Position} {s : TokenStream}

theorem head (h : s.IsAt places) : s.head.IsAt places := by
  obtain ⟨pending, last⟩ := s
  cases pending with
  | nil => exact h.last
  | cons token pending => exact h.pending token List.mem_cons_self

theorem tail (h : s.IsAt places) : s.tail.IsAt places :=
  ⟨fun token hmem => h.pending token (List.mem_of_mem_tail hmem), h.last⟩

end TokenStream.IsAt

namespace Parser

variable {α β σ : Type} {places : List Position}

/-- On tokens at the given places the parser gives only values of a kind and leaves tokens at these
    places, and its errors name no other place. -/
def Locates (places : List Position) (p : Parser α) (P : α → Prop) : Prop :=
  ∀ s, s.IsAt places → match p s with
    | .ok a t => P a ∧ t.IsAt places
    | .error e _ => e.pos ∈ places

variable {p : Parser α} {P Q : α → Prop} {R : β → Prop}

theorem Locates.mono (h : p.Locates places P) (hle : ∀ a, P a → Q a) : p.Locates places Q := by
  intro s hs
  have hp := h s hs
  split at hp
  · exact hp.imp_left (hle _)
  · exact hp

theorem Locates.bind {next : α → Parser β} (h : p.Locates places P)
    (hnext : ∀ a, P a → (next a).Locates places R) : (p >>= next).Locates places R := by
  intro s hs
  have hp := h s hs
  cases hresult : p s with
  | ok a t =>
    rw [hresult] at hp
    rw [bind_of_ok hresult]
    exact hnext a hp.1 t hp.2
  | error e t =>
    rw [hresult] at hp
    rw [bind_of_error hresult]
    exact hp

theorem locates_pure {a : α} (h : P a) : (pure a : Parser α).Locates places P :=
  fun _ hs => ⟨h, hs⟩

theorem locates_fail (fault : SyntaxFault) : (fail fault : Parser α).Locates places P :=
  fun _ hs => hs.head

theorem locates_failAt (fault : SyntaxFault) {token : Token} (h : token.IsAt places) :
    (failAt fault token : Parser α).Locates places P :=
  fun _ _ => h

theorem locates_peek : peek.Locates places (Token.IsAt places) :=
  fun _ hs => ⟨hs.head, hs⟩

theorem locates_peekSecond : peekSecond.Locates places fun _ => True :=
  fun _ hs => ⟨trivial, hs⟩

theorem locates_next : next.Locates places (Token.IsAt places) :=
  fun _ hs => ⟨hs.head, hs.tail⟩

theorem locates_skipIf (condition : Token → Bool) :
    (skipIf condition).Locates places fun _ => True := by
  intro s hs
  cases hcondition : condition s.head with
  | true => simpa [skipIf, hcondition] using hs.tail
  | false => simpa [skipIf, hcondition] using hs

theorem locates_expect (kind : TokenKind) (what : String) :
    (expect kind what).Locates places fun _ => True := by
  intro s hs
  by_cases hkind : s.head.kind = kind
  · simpa [expect, hkind] using hs.tail
  · simpa [expect, hkind, Token.IsAt] using hs.head

theorem locates_expectSymbol (what : String) : (expectSymbol what).Locates places fun _ => True :=
  (locates_expect .symbol what).bind fun _ _ => locates_pure trivial

/-- A step that is left out in some case, and what follows it in both. -/
theorem locates_unless {condition : Prop} [Decidable condition] {rest : Parser β}
    (h : p.Locates places fun _ => True) (hrest : rest.Locates places R) :
    (if condition then rest else p >>= fun _ => rest).Locates places R := by
  split
  · exact hrest
  · exact h.bind fun _ _ => hrest

/-- A step that is taken in some case, and what follows it in both. -/
theorem locates_when {condition : Prop} [Decidable condition] {rest : Parser β}
    (h : p.Locates places fun _ => True) (hrest : rest.Locates places R) :
    (if condition then p >>= fun _ => rest else rest).Locates places R := by
  split
  · exact h.bind fun _ _ => hrest
  · exact hrest

theorem locates_iterate {I : σ → Prop} {step : σ → Parser (Step σ α)}
    (hstep : ∀ state, I state → (step state).Locates places (Step.Keeps I P)) {state : σ}
    (h : I state) : (iterate step state).Locates places P := by
  have hfrom (bound : Nat) : (iterateFrom step bound state).Locates places P := by
    induction bound generalizing state with
    | zero => exact locates_fail _
    | succ bound ih =>
      refine (hstep state h).bind fun result hresult => ?_
      cases result with
      | more state => exact ih hresult
      | done a => exact locates_pure hresult
  exact fun s => hfrom _ s

/-- Repetitions whose values do not matter. -/
theorem locates_iterate_any {step : σ → Parser (Step σ α)}
    (hstep : ∀ state, (step state).Locates places fun _ => True) (state : σ) :
    (iterate step state).Locates places fun _ => True :=
  locates_iterate (I := fun _ => True)
    (fun state _ => (hstep state).mono fun result _ => by cases result <;> exact trivial) trivial

theorem locates_commaSeparated (close : TokenKind) (what : String) (isFirst : σ → Bool)
    {item : σ → Parser σ} (hitem : ∀ items, (item items).Locates places fun _ => True) (items : σ) :
    (commaSeparated close what isFirst item items).Locates places fun _ => True := by
  refine locates_iterate_any (fun items => (locates_skipIf _).bind fun closes _ => ?_) items
  have hmore : (do return Step.more (← item items) : Parser (Step σ σ)).Locates places fun _ => True :=
    (hitem items).bind fun _ _ => locates_pure trivial
  split
  · exact locates_pure trivial
  · split
    · exact hmore
    · refine (locates_expect _ _).bind fun _ _ => (locates_skipIf _).bind fun closes _ => ?_
      split
      · exact locates_pure trivial
      · exact hmore

theorem locates_names (what : String) : (names what).Locates places fun _ => True := by
  refine (locates_expectSymbol what).bind fun first _ => locates_iterate_any (fun names => ?_) _
  refine (locates_skipIf _).bind fun skipped _ => ?_
  split
  · exact (locates_expectSymbol what).bind fun _ _ => locates_pure trivial
  · exact locates_pure trivial

theorem locates_closeTag (name : String) : (closeTag name).Locates places fun _ => True :=
  (locates_skipIf _).bind fun _ _ => (locates_expect _ _).bind fun _ _ => locates_pure trivial

theorem locates_expectKeyword (keyword : String) :
    (expectKeyword keyword).Locates places fun _ => True := by
  refine (locates_skipIf _).bind fun skipped _ => ?_
  split
  · exact locates_pure trivial
  · exact locates_peek.bind fun _ _ => locates_fail _

end Parser

namespace Expression

open TemplateManifest.Parser

variable {places : List Position}

section

variable {nested : Nested} (hnested : ∀ goal, (nested goal).Locates places fun _ => True)
include hnested

theorem locates_argument (args : Arguments) :
    (argument nested args).Locates places fun _ => True := by
  refine locates_peek.bind fun token _ => locates_peekSecond.bind fun second _ => ?_
  split
  · exact locates_next.bind fun _ _ => locates_next.bind fun _ _ =>
      (hnested .expression).bind fun _ _ => locates_pure trivial
  · exact locates_unless (locates_fail _) ((hnested .expression).bind fun _ _ => locates_pure trivial)

theorem locates_callArguments : (callArguments nested).Locates places fun _ => True :=
  (locates_expect _ _).bind fun _ _ =>
    locates_commaSeparated _ _ _ (locates_argument hnested) _

theorem locates_optionalArguments : (optionalArguments nested).Locates places fun _ => True := by
  refine locates_peek.bind fun token _ => ?_
  split
  · exact locates_callArguments hnested
  · exact locates_pure trivial

theorem locates_arrayItems (close : TokenKind) (what : String) (isFirst : List Node → Bool)
    (items : List Node) : (arrayItems nested close what isFirst items).Locates places fun _ => True :=
  locates_commaSeparated _ _ _
    (fun _ => (hnested .expression).bind fun _ _ => locates_pure trivial) _

theorem locates_parenthesized (pos : Position) :
    (parenthesized nested pos).Locates places fun _ => True := by
  refine (locates_skipIf _).bind fun closes _ => ?_
  split
  · exact locates_pure trivial
  · refine (hnested .expression).bind fun first _ => (locates_skipIf _).bind fun closes _ => ?_
    split
    · exact locates_pure trivial
    · exact (locates_arrayItems hnested _ _ _ _).bind fun _ _ => locates_pure trivial

theorem locates_dictEntry (entries : List (Node × Node)) :
    (dictEntry nested entries).Locates places fun _ => True :=
  (hnested .primary).bind fun _ _ => (locates_expect _ _).bind fun _ _ =>
    (hnested .expression).bind fun _ _ => locates_pure trivial

theorem locates_atom : (atom nested).Locates places fun _ => True := by
  refine locates_next.bind fun token htoken => ?_
  split
  · exact locates_pure trivial
  · split
    · split
      · exact locates_pure trivial
      · exact locates_failAt _ htoken
    · exact locates_failAt _ htoken
  · split
    · exact locates_pure trivial
    · exact locates_failAt _ htoken
  · exact locates_pure trivial
  · exact locates_parenthesized hnested _
  · exact (locates_arrayItems hnested _ _ _ _).bind fun _ _ => locates_pure trivial
  · exact (locates_commaSeparated _ _ _ (locates_dictEntry hnested) _).bind fun _ _ =>
      locates_pure trivial
  · exact locates_failAt _ htoken

theorem locates_accessor (node : Node) : (accessor nested node).Locates places fun _ => True := by
  refine locates_peek.bind fun token _ => ?_
  split
  · exact (locates_callArguments hnested).bind fun _ _ => locates_pure trivial
  · split
    · exact locates_next.bind fun _ _ => (hnested .expression).bind fun _ _ =>
        (locates_expect _ _).bind fun _ _ => locates_pure trivial
    · split
      · exact locates_next.bind fun _ _ => locates_next.bind fun key hkey =>
          locates_unless (locates_failAt _ hkey) (locates_pure trivial)
      · exact locates_pure trivial

theorem locates_primaryOver : (primaryOver nested).Locates places fun _ => True :=
  (locates_atom hnested).bind fun _ _ => locates_iterate_any (locates_accessor hnested) _

omit hnested in
theorem locates_filterName : filterName.Locates places fun _ => True := by
  refine (locates_expectSymbol _).bind fun first _ => locates_iterate_any (fun name => ?_) _
  refine (locates_skipIf _).bind fun taken _ => ?_
  split
  · exact (locates_expectSymbol _).bind fun _ _ => locates_pure trivial
  · exact locates_pure trivial

theorem locates_filters (node : Node) : (filters nested node).Locates places fun _ => True := by
  refine locates_iterate_any (fun node => (locates_skipIf _).bind fun skipped _ => ?_) node
  split
  · exact locates_peek.bind fun _ _ => locates_filterName.bind fun _ _ =>
      (locates_optionalArguments hnested).bind fun _ _ => locates_pure trivial
  · exact locates_pure trivial

omit hnested in
theorem locates_skipOneOf {α : Type} (operators : List (String × α)) :
    (skipOneOf operators).Locates places fun _ => True := by
  intro s hs
  cases hfind : operators.find? fun entry => s.head.isOperator entry.1 with
  | some entry => simpa [skipOneOf, hfind] using hs.tail
  | none => simpa [skipOneOf, hfind] using hs

omit hnested in
theorem locates_unaryOperators {one : Parser (Option UnaryOp)}
    (h : one.Locates places fun _ => True) : (unaryOperators one).Locates places fun _ => True := by
  refine locates_iterate_any (fun ops => locates_peek.bind fun token _ => h.bind fun op _ => ?_) _
  split <;> exact locates_pure trivial

omit hnested in
theorem locates_leftChain {operator : Parser (Option BinaryOp)} {operand : Parser Node}
    (hoperator : operator.Locates places fun _ => True)
    (hoperand : operand.Locates places fun _ => True) :
    (leftChain operator operand).Locates places fun _ => True := by
  refine hoperand.bind fun first _ => locates_iterate_any (fun left => ?_) _
  refine hoperator.bind fun op _ => ?_
  split
  · exact hoperand.bind fun _ _ => locates_pure trivial
  · exact locates_pure trivial

theorem locates_signed : (signed nested).Locates places fun _ => True :=
  (locates_unaryOperators (locates_skipOneOf _)).bind fun _ _ =>
    (locates_primaryOver hnested).bind fun _ _ =>
      (locates_filters hnested _).bind fun _ _ => locates_pure trivial

theorem locates_concatenation : (concatenation nested).Locates places fun _ => True :=
  locates_leftChain (locates_skipOneOf _) <| locates_leftChain (locates_skipOneOf _) <|
    locates_leftChain (locates_skipOneOf _) <| locates_leftChain (locates_skipOneOf _) <|
      locates_signed hnested

theorem locates_comparison : (comparison nested).Locates places fun _ => True := by
  refine (locates_concatenation hnested).bind fun first _ =>
    Locates.bind (locates_iterate_any (fun rest => ?_) _) fun rest _ => ?_
  · refine (locates_skipOneOf _).bind fun op _ => ?_
    split
    · exact (locates_concatenation hnested).bind fun _ _ => locates_pure trivial
    · exact locates_pure trivial
  · split <;> exact locates_pure trivial

theorem locates_tested : (tested nested).Locates places fun _ => True := by
  refine (locates_comparison hnested).bind fun node _ => (locates_skipIf _).bind fun isTest _ => ?_
  split
  · exact (locates_skipIf _).bind fun _ _ => (locates_expectSymbol _).bind fun _ _ =>
      (locates_optionalArguments hnested).bind fun _ _ => locates_pure trivial
  · exact locates_pure trivial

omit hnested in
theorem locates_membershipOperator : membershipOperator.Locates places fun _ => True := by
  refine locates_peek.bind fun token _ => locates_peekSecond.bind fun second _ => ?_
  split
  · exact locates_next.bind fun _ _ => locates_next.bind fun _ _ => locates_pure trivial
  · refine (locates_skipIf _).bind fun taken _ => ?_
    split <;> exact locates_pure trivial

omit hnested in
theorem locates_wordOperator {α : Type} (word : String) (op : α) :
    (wordOperator word op).Locates places fun _ => True := by
  refine (locates_skipIf _).bind fun taken _ => ?_
  split <;> exact locates_pure trivial

theorem locates_negation : (negation nested).Locates places fun _ => True :=
  (locates_unaryOperators (locates_wordOperator _ _)).bind fun _ _ =>
    (locates_leftChain locates_membershipOperator (locates_tested hnested)).bind fun _ _ =>
      locates_pure trivial

theorem locates_disjunction : (disjunction nested).Locates places fun _ => True :=
  locates_leftChain (locates_wordOperator _ _) <| locates_leftChain (locates_wordOperator _ _) <|
    locates_negation hnested

theorem locates_expressionOver : (expressionOver nested).Locates places fun _ => True := by
  refine (locates_disjunction hnested).bind fun body _ => (locates_skipIf _).bind fun isInline _ => ?_
  split
  · refine (locates_disjunction hnested).bind fun cond _ => (locates_skipIf _).bind fun hasElse _ => ?_
    split
    · exact (locates_disjunction hnested).bind fun _ _ => locates_pure trivial
    · exact locates_pure trivial
  · exact locates_pure trivial

end

theorem locates_nestedTo (depth : Nat) (goal : Goal) :
    (nestedTo depth goal).Locates places fun _ => True := by
  induction depth generalizing goal with
  | zero => exact locates_fail _
  | succ depth ih =>
    cases goal with
    | expression => exact locates_expressionOver ih
    | primary => exact locates_primaryOver ih

theorem locates_nested (goal : Goal) : (nested goal).Locates places fun _ => True :=
  fun s => locates_nestedTo (s.pending.length + 1) goal s

end Expression

theorem Parser.locates_expression {places : List Position} :
    Parser.expression.Locates places fun _ => True :=
  Expression.locates_nested .expression

namespace Statement

open TemplateManifest.Parser

variable {places : List Position}

theorem locates_parameter (params : List (String × Option Node)) :
    (parameter params).Locates places fun _ => True := by
  refine (locates_expectSymbol _).bind fun name _ => (locates_skipIf _).bind fun hasDefault _ => ?_
  split
  · exact locates_expression.bind fun _ _ => locates_pure trivial
  · exact locates_pure trivial

theorem locates_parameters : parameters.Locates places fun _ => True :=
  (locates_expect _ _).bind fun _ _ => locates_commaSeparated _ _ _ locates_parameter _

theorem locates_withContext : withContext.Locates places fun _ => True := by
  refine (locates_skipIf _).bind fun isWith _ => ?_
  split
  · exact (locates_expectKeyword _).bind fun _ _ => locates_pure trivial
  · refine (locates_skipIf _).bind fun isWithout _ => ?_
    split
    · exact (locates_expectKeyword _).bind fun _ _ => locates_pure trivial
    · exact locates_pure trivial

theorem locates_signature (tolerant : Bool) :
    (signature tolerant).Locates places fun _ => True := by
  refine locates_peek.bind fun token _ => ?_
  split
  · exact Expression.locates_callArguments Expression.locates_nested
  · refine locates_unless (locates_fail _) (locates_iterate_any (fun args => ?_) _)
    refine locates_peek.bind fun token _ => ?_
    split
    · exact locates_pure trivial
    · have hargument : (Expression.argument Expression.nested args).Locates places fun _ => True :=
        Expression.locates_argument Expression.locates_nested args
      split
      · exact hargument.bind fun _ _ => locates_pure trivial
      · exact (locates_expect _ _).bind fun _ _ => hargument.bind fun _ _ => locates_pure trivial

section

variable {bodies : Bodies} (hbodies : ∀ stop, (bodies stop).Locates places fun _ => True)
include hbodies

theorem locates_conditional : (conditional bodies).Locates places fun _ => True := by
  refine locates_next.bind fun first _ => locates_iterate_any (fun (branches, keyword) => ?_) _
  refine locates_expression.bind fun cond _ => (locates_closeTag _).bind fun _ _ => ?_
  refine (hbodies _).bind fun body _ => locates_next.bind fun closing _ => ?_
  split
  · exact locates_pure trivial
  · split
    · exact (locates_closeTag _).bind fun _ _ => (hbodies _).bind fun _ _ =>
        (locates_closeTag _).bind fun _ _ => locates_pure trivial
    · exact (locates_closeTag _).bind fun _ _ => locates_pure trivial

theorem locates_loop : (loop bodies).Locates places fun _ => True := by
  refine locates_next.bind fun token _ => (locates_names _).bind fun targets _ => ?_
  refine (locates_expectKeyword _).bind fun _ _ => locates_expression.bind fun iterated _ => ?_
  refine (locates_closeTag _).bind fun _ _ => (hbodies _).bind fun body _ => ?_
  refine (locates_skipIf _).bind fun hasElse _ => ?_
  split
  · exact (locates_closeTag _).bind fun _ _ => (hbodies _).bind fun _ _ =>
      (locates_closeTag _).bind fun _ _ => locates_pure trivial
  · exact (locates_closeTag _).bind fun _ _ => locates_pure trivial

theorem locates_assignment : (assignment bodies).Locates places fun _ => True := by
  refine locates_next.bind fun token _ => (locates_names _).bind fun targets _ => ?_
  refine (locates_skipIf _).bind fun hasValue _ => ?_
  split
  · exact locates_expression.bind fun _ _ => (locates_closeTag _).bind fun _ _ =>
      locates_pure trivial
  · exact (locates_closeTag _).bind fun _ _ => (hbodies _).bind fun _ _ =>
      (locates_closeTag _).bind fun _ _ => locates_pure trivial

theorem locates_block : (block bodies).Locates places fun _ => True := by
  refine locates_next.bind fun token _ => (locates_expectSymbol _).bind fun name _ => ?_
  refine (locates_closeTag _).bind fun _ _ => (hbodies _).bind fun body _ => ?_
  exact (locates_expectKeyword _).bind fun _ _ => (locates_skipIf _).bind fun _ _ =>
    (locates_expect _ _).bind fun _ _ => locates_pure trivial

theorem locates_macroDefinition : (macroDefinition bodies).Locates places fun _ => True := by
  refine locates_next.bind fun token _ => (locates_expectSymbol _).bind fun name _ => ?_
  refine locates_parameters.bind fun params _ => (locates_closeTag _).bind fun _ _ => ?_
  exact (hbodies _).bind fun _ _ => (locates_closeTag _).bind fun _ _ => locates_pure trivial

omit hbodies in
theorem locates_optionalParameters {condition : Prop} [Decidable condition]
    {next : List (String × Option Node) → Parser Node}
    (h : ∀ params, (next params).Locates places fun _ => True) :
    (if condition then parameters >>= next else pure [] >>= next).Locates places fun _ => True := by
  split
  · exact locates_parameters.bind fun params _ => h params
  · exact h []

theorem locates_callBlock : (callBlock bodies).Locates places fun _ => True := by
  refine locates_next.bind fun token htoken => locates_peek.bind fun opening _ => ?_
  refine locates_optionalParameters fun params => locates_expression.bind fun called _ => ?_
  refine (locates_closeTag _).bind fun _ _ => (hbodies _).bind fun body _ => ?_
  refine (locates_closeTag _).bind fun _ _ => ?_
  split
  · exact locates_pure trivial
  · exact locates_failAt _ htoken

theorem locates_filterBlock : (filterBlock bodies).Locates places fun _ => True := by
  refine locates_next.bind fun token _ => locates_peek.bind fun nameToken _ => ?_
  refine Expression.locates_filterName.bind fun name _ => ?_
  refine (Expression.locates_optionalArguments Expression.locates_nested).bind fun args _ => ?_
  exact (locates_closeTag _).bind fun _ _ => (hbodies _).bind fun _ _ =>
    (locates_closeTag _).bind fun _ _ => locates_pure trivial

omit hbodies in
theorem locates_parentTemplate : parentTemplate.Locates places fun _ => True :=
  locates_next.bind fun _ _ => locates_expression.bind fun _ _ =>
    (locates_closeTag _).bind fun _ _ => locates_pure trivial

omit hbodies in
theorem locates_includedTemplate : includedTemplate.Locates places fun _ => True := by
  refine locates_next.bind fun token _ => locates_expression.bind fun template _ => ?_
  exact (locates_skipIf _).bind fun ignoreMissing _ => locates_when (locates_expectKeyword _)
    ((locates_closeTag _).bind fun _ _ => locates_pure trivial)

omit hbodies in
theorem locates_importedTemplate : importedTemplate.Locates places fun _ => True := by
  refine locates_next.bind fun token _ => locates_expression.bind fun template _ => ?_
  refine (locates_expectKeyword _).bind fun _ _ => (locates_expectSymbol _).bind fun target _ => ?_
  exact locates_withContext.bind fun _ _ => (locates_closeTag _).bind fun _ _ =>
    locates_pure trivial

omit hbodies in
theorem locates_importedNames : importedNames.Locates places fun _ => True := by
  refine locates_next.bind fun token _ => locates_expression.bind fun template _ => ?_
  refine (locates_expectKeyword _).bind fun _ _ => ?_
  refine Locates.bind (locates_iterate_any (fun names => ?_) _) fun form _ =>
    (locates_closeTag _).bind fun _ _ => locates_pure trivial
  refine locates_withContext.bind fun context _ => ?_
  split
  · exact locates_pure trivial
  · refine locates_peek.bind fun token _ => ?_
    split
    · exact locates_when (locates_fail _) (locates_pure trivial)
    · refine locates_unless (locates_expect _ _) ?_
      refine (locates_expectSymbol _).bind fun name _ => (locates_skipIf _).bind fun hasAlias _ => ?_
      split
      · exact (locates_expectSymbol _).bind fun _ _ => locates_pure trivial
      · exact locates_pure trivial

theorem locates_standardTag (e : Extension) (hasBody : Bool) (identity : Identity) (isAsync : Bool) :
    (standardTag bodies e hasBody identity isAsync).Locates places fun _ => True := by
  refine locates_next.bind fun tag _ => (locates_signature true).bind fun args _ => ?_
  refine (locates_closeTag _).bind fun _ _ => ?_
  split
  · exact (hbodies _).bind fun _ _ => (locates_closeTag _).bind fun _ _ => locates_pure trivial
  · exact locates_pure trivial

theorem locates_scriptedBodies (stops : List (List String)) :
    (scriptedBodies bodies stops).Locates places fun _ => True := by
  induction stops with
  | nil => exact locates_pure trivial
  | cons stop stops ih =>
    exact (hbodies _).bind fun _ _ => locates_next.bind fun _ _ => (locates_closeTag _).bind
      fun _ _ => ih.bind fun _ _ => locates_pure trivial

omit hbodies in
theorem locates_scriptedSignature (form : SignatureForm) :
    (scriptedSignature form).Locates places fun _ => True := by
  match form with
  | .tolerant => exact locates_signature true
  | .strict => exact locates_signature false
  | .expression => exact locates_expression.bind fun _ _ => locates_pure trivial
  | .none => exact locates_pure trivial

theorem locates_scriptedTag (e : Extension) (script : TagScript) :
    (scriptedTag bodies e script).Locates places fun _ => True := by
  refine locates_next.bind fun tag _ => ?_
  have hread : (do
      let args ← scriptedSignature script.signature
      closeTag tag.value
      let read ← scriptedBodies bodies script.bodies
      return scriptedNode e script tag.pos args read : Parser Node).Locates places fun _ => True :=
    (locates_scriptedSignature _).bind fun _ _ => (locates_closeTag _).bind fun _ _ =>
      (locates_scriptedBodies hbodies _).bind fun _ _ => locates_pure trivial
  cases script.refusal with
  | none =>
    cases script.skipped with
    | none => exact hread
    | some word => exact (locates_skipIf _).bind fun _ _ => hread
  | some message =>
    have hfail {rest : PUnit → Parser Node} :
        (fail (.refused message) >>= rest).Locates places fun _ => True :=
      Locates.bind (P := fun _ => False) (locates_fail _) fun _ h => h.elim
    cases script.skipped with
    | none => exact hfail
    | some word => exact (locates_skipIf _).bind fun _ _ => hfail

theorem locates_of_builtin? {name : String} {p : Parser Node} (h : builtin? bodies name = some p) :
    p.Locates places fun _ => True := by
  have hall : ∀ p ∈ builtins bodies, p.Locates places fun _ => True := by
    simp only [builtins, List.forall_mem_cons]
    exact ⟨locates_conditional hbodies, locates_loop hbodies, locates_assignment hbodies,
      locates_block hbodies, locates_macroDefinition hbodies, locates_callBlock hbodies,
      locates_filterBlock hbodies, locates_parentTemplate, locates_includedTemplate,
      locates_importedTemplate, locates_importedNames, List.forall_mem_nil _⟩
  exact hall p (mem_of_builtin? h)

variable {env : Environment}

theorem locates_statementOver : (statementOver env bodies).Locates places fun _ => True := by
  refine locates_peek.bind fun token htoken => ?_
  split
  · next p hp => exact locates_unless (locates_fail _) (locates_of_builtin? hbodies hp)
  · split
    · next e he =>
      refine locates_unless (locates_fail _) ?_
      unfold customTag
      split
      · exact locates_standardTag hbodies _ _ _ _
      · exact locates_scriptedTag hbodies _ _
    · exact locates_unless (locates_fail _) (locates_failAt _ htoken)

theorem locates_nodeStep (stop : List String) (nodes : List Node) :
    (nodeStep env bodies stop nodes).Locates places fun _ => True := by
  refine locates_peek.bind fun token _ => ?_
  split
  · exact locates_unless (locates_fail _) (locates_pure trivial)
  · exact locates_next.bind fun _ _ => locates_pure trivial
  · exact locates_next.bind fun _ _ => locates_pure trivial
  · exact locates_next.bind fun _ _ => locates_peek.bind fun closing _ =>
      locates_when (locates_fail _) (locates_expression.bind fun _ _ =>
        (locates_expect _ _).bind fun _ _ => locates_pure trivial)
  · refine locates_next.bind fun _ _ => locates_peek.bind fun name _ => ?_
    split
    · exact locates_pure trivial
    · exact (locates_statementOver hbodies).bind fun _ _ => locates_pure trivial
  · exact locates_fail _

end

theorem locates_bodiesTo (env : Environment) (depth : Nat) (stop : List String) :
    (bodiesTo env depth stop).Locates places fun _ => True := by
  induction depth generalizing stop with
  | zero => exact locates_fail _
  | succ depth ih => exact locates_iterate_any (locates_nodeStep ih stop) _

end Statement

/-- The parser of a template names no places but those of the tokens. -/
theorem Parser.locates_root {places : List Position} (env : Environment) :
    (Parser.root env).Locates places fun _ => True :=
  fun s => Statement.locates_bodiesTo env (s.pending.length + 1) [] s

theorem TokenStream.isAt_ofTokens {tokens : List Token} (hne : tokens ≠ []) :
    (TokenStream.ofTokens tokens).IsAt (tokens.map Token.pos) where
  pending token htoken := List.mem_map_of_mem (List.takeWhile_subset _ htoken)
  last := by
    unfold TokenStream.ofTokens
    cases hfind : tokens.find? fun token => token.kind = .eof with
    | some token => exact List.mem_map_of_mem (List.mem_of_find?_eq_some hfind)
    | none =>
      rw [List.getLast?_eq_some_getLast hne]
      exact List.mem_map.mpr ⟨_, List.getLast_mem hne, rfl⟩

/-- Tokens that violate the grammar do so at the place of one of them. -/
theorem Parser.pos_mem_of_root {env : Environment} {tokens : List Token} {e : SyntaxError}
    {rest : TokenStream} (hne : tokens ≠ [])
    (h : Parser.root env (TokenStream.ofTokens tokens) = .error e rest) :
    e.pos ∈ tokens.map Token.pos := by
  have hroot := Parser.locates_root env _ (TokenStream.isAt_ofTokens hne)
  rwa [h] at hroot

/-- All places that a template's tokens and errors name are exact. The tokens are those of the parts of
    the source, each of them at an offset, and the offsets grow; an error is at one of these tokens,
    whatever the custom tags. When there are no tokens, the one error is where its fault is found. -/
theorem Template.parse_locations {env : Environment} (name source : String)
    (hvalid : env.options.delimiters.Valid) :
    match tokenize env.options source with
    | .ok tokens =>
      (∃ spans emitted, sourceOf env.options.delimiters spans = source.toList ∧
        (∀ p ∈ places [] spans, p.Fits env.options) ∧
        List.Forall₂ (Place.Emits env.options source.toList) (places [] spans) emitted ∧
        ∃ spots last, spots = emitted.flatten ++ [⟨source.toList.length, Token.eofAt last⟩] ∧
          tokens = spots.map Spot.token ∧ (∀ spot ∈ spots, spot.IsExact source.toList) ∧
          (spots.map Spot.offset).Pairwise (· < ·)) ∧
      ∀ e, Template.parse env name source = .error e → e.pos ∈ tokens.map Token.pos
    | .error e =>
      e.IsExact env.options.delimiters source.toList ∧ Template.parse env name source = .error e := by
  cases htokens : tokenize env.options source with
  | error e =>
    refine ⟨tokenize_fault hvalid htokens, ?_⟩
    rw [Template.parse, htokens]
  | ok tokens =>
    refine ⟨tokenize_spots hvalid htokens, fun e he => ?_⟩
    have hne : tokens ≠ [] := by
      obtain ⟨-, -, -, -, -, spots, last, rfl, rfl, -⟩ := tokenize_spots hvalid htokens
      simp
    simp only [Template.parse, htokens] at he
    split at he
    · cases he
    · next hroot =>
      cases he
      exact Parser.pos_mem_of_root hne hroot

/-- The operand that is missing is missed at the closing mark, whose column counts characters and whose
    line counts the line feeds before it, in a trimmed line break as well. -/
theorem Template.parse_locations_missing_operand :
    let env : Environment := { options := { trimBlocks := true } }
    let source := "\x7b% if é %\x7d\r\n  é\x7b\x7b \"ß\n\" + \x7d\x7d"
    env.options.delimiters.Valid ∧ ∃ tokens e, tokenize env.options source = .ok tokens ∧
      Template.parse env "t" source = .error e ∧ e.pos ∈ tokens.map Token.pos ∧
      tokens.map (fun token => (token.pos.line, token.pos.col)) =
        [(1, 1), (1, 4), (1, 7), (1, 9), (2, 1), (2, 4), (2, 7), (3, 3), (3, 5), (3, 7)] ∧
      e.pos = ⟨3, 5⟩ := by
  intro env source
  have hvalid : env.options.delimiters.Valid := by decide
  have hany : ((tokenize env.options source).toOption.any fun tokens =>
      decide (tokens.map (fun token => (token.pos.line, token.pos.col)) =
        [(1, 1), (1, 4), (1, 7), (1, 9), (2, 1), (2, 4), (2, 7), (3, 3), (3, 5), (3, 7)])) = true := by
    decide +kernel
  obtain ⟨tokens, htokens, hplaces⟩ := exists_eq_ok_of_any hany
  have herror : (match Template.parse env "t" source with
      | .ok _ => false
      | .error e => decide (e.pos = ⟨3, 5⟩)) = true := by
    decide +kernel
  have hlocations := Template.parse_locations "t" source hvalid
  rw [htokens] at hlocations
  cases hparse : Template.parse env "t" source with
  | ok template =>
    rw [hparse] at herror
    cases herror
  | error e =>
    rw [hparse] at herror
    exact ⟨hvalid, tokens, e, htokens, rfl, hlocations.2 e hparse, of_decide_eq_true hplaces,
      of_decide_eq_true herror⟩

end TemplateManifest
