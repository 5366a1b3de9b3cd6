import TemplateManifest.Proofs.Template.CodePlaces
import TemplateManifest.Proofs.Template.ExpressionLedger
import TemplateManifest.Proofs.Template.WrittenOrder

/-!
Expressions are read from left to right: the literals and symbols of the tree that the grammar of
expressions gives stand, in written order, where words of code stand that it takes one after the other.
-/

namespace TemplateManifest

namespace Node

/-- Where the literals and symbols of some trees stand, in the order in which a source has them. -/
def trailAll (nodes : List Node) : List Position := (written nodes).map pos

/-- Where the literals and symbols of a tree stand, in the order in which a source has them. -/
def trail (node : Node) : List Position := trailAll [node]

/-- The node is no body that a tag takes, and no call that takes the body of a call block. -/
def isPlain (node : Node) : Bool :=
  match node with
  | callerBody _ _ _ | capture _ _ => false
  | call _ _ _ _ => node.swapped?.isNone
  | _ => true

variable {pos : Position} {name : String} {target : Node} {args : List Node}
  {kwargs : List (String × Node)}

@[simp]
theorem trailAll_nil : trailAll [] = [] := rfl

@[simp]
theorem trailAll_append (nodes nodes' : List Node) :
    trailAll (nodes ++ nodes') = trailAll nodes ++ trailAll nodes' := by
  rw [trailAll, written_append, List.map_append, trailAll, trailAll]

@[simp]
theorem trailAll_cons (node : Node) (nodes : List Node) :
    trailAll (node :: nodes) = node.trail ++ trailAll nodes :=
  trailAll_append [node] nodes

@[simp]
theorem trail_data (pos : Position) (text : String) : (data pos text).trail = [] := rfl

@[simp]
theorem trail_literal (pos : Position) (value : Literal) : (literal pos value).trail = [pos] := rfl

@[simp]
theorem trail_symbol (pos : Position) (name : String) : (symbol pos name).trail = [pos] := rfl

/-- The places of a tree are those of its parts, unless it is itself a literal or a symbol. -/
theorem trail_eq {node : Node} {places : List Position} (hatom : node.isAtom = false)
    (hparts : trailAll node.parts = places) : node.trail = places := by
  rw [← hparts, trail, trailAll, written_singleton, List.filter_cons_of_neg (by simp [hatom])]
  rfl

/-- The places of a tree that keeps its parts as the source has them are those of its children. -/
theorem trail_of_children {node : Node} {places : List Position} (hatom : node.isAtom = false)
    (hswapped : node.swapped? = none) (hchildren : trailAll node.children = places) :
    node.trail = places :=
  trail_eq hatom (by rw [parts, hswapped]; exact hchildren)

/-- A filter on an expression has its parts as a walk meets them. -/
theorem parts_filter (h : target.isPlain = true) :
    (filter pos name target args kwargs).parts = target :: (args ++ kwargs.map (·.2)) := by
  cases target <;> first | rfl | cases h

theorem swapped?_call (h : ∀ entry ∈ kwargs, entry.2.isPlain = true) :
    (call pos target args kwargs).swapped? = none := by
  rw [swapped?]
  split
  · next hlast => cases h _ (List.mem_of_getLast? hlast)
  · rfl

end Node

namespace Parser

open Node

variable {α β σ : Type} {p : Parser α} {before : List Position} {P : α → Prop} {R : β → Prop}
  {f : α → List Position} {g : β → List Position}

/-- The parser gives only values of a kind. It brings a list of places from what it was before to what
    it is after the value, and adds nothing but places of words of code that it takes, in their order. -/
def Collects (p : Parser α) (before : List Position) (P : α → Prop) (after : α → List Position) : Prop :=
  p.Consumes (fun _ => True) fun consumed a _ =>
    P a ∧ (after a).Sublist (before ++ codePlaces consumed)

theorem Collects.mono {P' : α → Prop} (h : p.Collects before P f) (hle : ∀ a, P a → P' a) :
    p.Collects before P' f :=
  Consumes.mono h (fun _ h => h) fun _ a _ h => ⟨hle a h.1, h.2⟩

theorem Collects.bind {next : α → Parser β} (h : p.Collects before P f)
    (hnext : ∀ a, P a → (next a).Collects (f a) R g) : (p >>= next).Collects before R g := by
  refine Consumes.bind_of h fun consumed a t ha => ?_
  refine Consumes.mono (hnext a ha.1) (fun _ _ => trivial) fun later b _ hb => ⟨hb.1, ?_⟩
  rw [codePlaces_append, ← List.append_assoc]
  exact hb.2.trans (ha.2.append_right _)

/-- What is collected is collected after something else. -/
theorem Collects.after (h : p.Collects [] P f) : p.Collects before P fun a => before ++ f a :=
  Consumes.mono h (fun _ h => h) fun _ _ _ ha => ⟨ha.1, ha.2.append_left _⟩

/-- Nothing has to be collected from what is taken. -/
theorem Consumes.collects {Q : List Token → α → TokenStream → Prop}
    (h : p.Consumes (fun _ => True) Q) : p.Collects before (fun _ => True) fun _ => before :=
  h.mono (fun _ h => h) fun _ _ _ _ => ⟨trivial, List.sublist_append_left _ _⟩

theorem Consumes.collects_bind {Q : List Token → α → TokenStream → Prop} {next : α → Parser β}
    (h : p.Consumes (fun _ => True) Q) (hnext : ∀ a, (next a).Collects before R g) :
    (p >>= next).Collects before R g :=
  h.collects.bind fun a _ => hnext a

theorem Collects.after_bind {next : α → Parser β} (h : p.Collects [] P f)
    (hnext : ∀ a, P a → (next a).Collects (before ++ f a) R g) : (p >>= next).Collects before R g :=
  h.after.bind hnext

theorem collects_pure {a : α} (hP : P a) (h : f a = before) : (pure a : Parser α).Collects before P f :=
  consumes_pure fun _ _ => ⟨hP, by rw [h]; exact List.sublist_append_left _ _⟩

/-- What may be collected after some places may be collected after more. -/
theorem Collects.weaken {more : List Position} (h : p.Collects before P f) (hle : before.Sublist more) :
    p.Collects more P f :=
  Consumes.mono h (fun _ h => h) fun _ _ _ ha => ⟨ha.1, ha.2.trans (hle.append_right _)⟩

/-- The place of a word of code, or none at a mark or at the end of the source. -/
theorem collects_next : next.Collects before (fun _ => True) fun token => before ++ codePlaces [token] := by
  refine consumes_next_or_stay.mono (fun _ h => h) fun consumed token _ htoken => ⟨trivial, ?_⟩
  obtain heof | rfl := htoken
  · dsimp only
    rw [codePlaces_of_marks (List.forall_mem_singleton.mpr (by rw [heof]; rfl)), List.append_nil]
    exact List.sublist_append_left _ _
  · exact List.Sublist.refl _

theorem collects_fail (fault : SyntaxFault) : (fail fault : Parser α).Collects before P f :=
  consumes_fail fault

theorem collects_failAt (fault : SyntaxFault) (token : Token) :
    (failAt fault token : Parser α).Collects before P f :=
  consumes_failAt fault token

/-- A step that is left out in some case, and what follows it in both. -/
theorem collects_unless {condition : Prop} [Decidable condition] {Q : List Token → α → TokenStream → Prop}
    {rest : Parser β} (h : p.Consumes (fun _ => True) Q) (hrest : rest.Collects before R g) :
    (if condition then rest else p >>= fun _ => rest).Collects before R g := by
  split
  · exact hrest
  · exact h.collects_bind fun _ => hrest

/-- The places after a step of a repetition. -/
def Step.trail {α σ : Type} (f : σ → List Position) (g : α → List Position) :
    Step σ α → List Position
  | more state => f state
  | done a => g a

theorem collects_iterate {step : σ → Parser (Step σ α)} {state : σ} {I : σ → Prop}
    {f : σ → List Position} {g : α → List Position}
    (hstep : ∀ state, I state → (step state).Collects (f state) (Step.Keeps I P) (Step.trail f g))
    (h : I state) : (iterate step state).Collects (f state) P g := by
  refine consumes_iterate (I := fun consumed state' => I state' ∧
    (f state').Sublist (f state ++ codePlaces consumed)) (fun consumed state' hI => ?_)
    ⟨h, List.sublist_append_left _ _⟩
  refine Consumes.mono (hstep state' hI.1) (fun _ h => h) fun later result _ hresult => ?_
  have htotal := hresult.2.trans (hI.2.append_right (codePlaces later))
  rw [List.append_assoc, ← codePlaces_append] at htotal
  cases result with
  | more state' => exact ⟨hresult.1, htotal⟩
  | done a => exact ⟨hresult.1, htotal⟩

theorem collects_commaSeparated {close : TokenKind} {what : String} {isFirst : σ → Bool}
    {item : σ → Parser σ} {state : σ} {I : σ → Prop} {f : σ → List Position} (hclose : close ≠ .eof)
    (hitem : ∀ state, I state → (item state).Collects (f state) I f) (h : I state) :
    (commaSeparated close what isFirst item state).Collects (f state) I f := by
  refine collects_iterate (fun state hstate => ?_) h
  have hmore : (do return Step.more (← item state) : Parser (Step σ σ)).Collects (f state)
      (Step.Keeps I I) (Step.trail f f) :=
    (hitem state hstate).bind fun state' hstate' => collects_pure hstate' rfl
  refine (consumes_skipKind hclose).collects_bind fun closes => ?_
  split
  · exact collects_pure hstate rfl
  · split
    · exact hmore
    · refine (consumes_expect (by decide)).collects_bind fun _ => ?_
      refine (consumes_skipKind hclose).collects_bind fun closes => ?_
      split
      · exact collects_pure hstate rfl
      · exact hmore

end Parser

namespace Expression

open TemplateManifest.Parser Node

/-- Where the literals and symbols of arguments stand. -/
def Arguments.trail (args : Arguments) : List Position :=
  trailAll args.positional ++ trailAll (args.keyword.map (·.2))

/-- No named argument takes a body. -/
def Arguments.IsPlain (args : Arguments) : Prop :=
  ∀ entry ∈ args.keyword, entry.2.isPlain = true

/-- The parser reads an expression from left to right. -/
def Collects (p : Parser Node) : Prop :=
  p.Collects [] (fun node => node.isPlain = true) trail

theorem Arguments.isPlain_empty : Arguments.IsPlain {} := List.forall_mem_nil _

theorem trail_call {pos : Position} {node : Node} {args : Arguments} (h : args.IsPlain) :
    (call pos node args.positional args.keyword).trail = node.trail ++ args.trail := by
  exact trail_of_children rfl (swapped?_call h) (by simp [children, Arguments.trail])

theorem trail_filter {pos : Position} {name : String} {node : Node} {args : Arguments}
    (h : node.isPlain = true) :
    (filter pos name node args.positional args.keyword).trail = node.trail ++ args.trail :=
  trail_eq rfl (by simp [parts_filter h, Arguments.trail])

theorem trail_applyUnary (ops : List (Position × UnaryOp)) (node : Node) :
    (applyUnary ops node).trail = node.trail := by
  induction ops with
  | nil => rfl
  | cons op ops ih => exact trail_of_children rfl rfl (by simpa [children, applyUnary] using ih)

theorem isPlain_applyUnary {ops : List (Position × UnaryOp)} {node : Node} (h : node.isPlain = true) :
    (applyUnary ops node).isPlain = true := by
  cases ops with
  | nil => exact h
  | cons op ops => rfl

section Operators

variable {α : Type} {Q : List Token → Option BinaryOp → TokenStream → Prop}

theorem consumes_unaryOperators {one : Parser (Option UnaryOp)}
    (h : ∀ m, one.Consumes (fun _ => True) (Adds m fun _ => m)) :
    (unaryOperators one).Consumes (fun _ => True) (Adds 0 fun _ => 0) :=
  adds_unaryOperators h

theorem collects_leftChain {operator : Parser (Option BinaryOp)} {operand : Parser Node}
    (hoperator : operator.Consumes (fun _ => True) Q) (hoperand : Collects operand) :
    Collects (leftChain operator operand) := by
  refine Collects.bind hoperand fun first hfirst => ?_
  refine collects_iterate (I := fun node => node.isPlain = true) (fun left hleft => ?_) hfirst
  refine hoperator.collects_bind fun op => ?_
  split
  · next op =>
    exact hoperand.after_bind fun right _ =>
      collects_pure rfl (trail_of_children (by cases op <;> rfl) rfl (by simp [children]))
  · exact collects_pure hleft rfl

end Operators

section

variable {nested : Nested} (hnested : ∀ goal, Collects (nested goal))
include hnested

theorem collects_argument {args : Arguments} (h : args.IsPlain) :
    (argument nested args).Collects args.trail Arguments.IsPlain Arguments.trail := by
  refine consumes_peek.collects_bind fun token => consumes_peekSecond.collects_bind fun second => ?_
  split
  · refine consumes_next_or_stay.collects_bind fun _ => consumes_next_or_stay.collects_bind fun _ => ?_
    refine (hnested .expression).after_bind fun value hvalue => collects_pure ?_ ?_
    · exact List.forall_mem_append.mpr ⟨h, List.forall_mem_singleton.mpr hvalue⟩
    · simp [Arguments.trail]
  · refine consumes_unless_fail fun hempty => ?_
    refine Collects.after_bind (hnested .expression) fun value _ => collects_pure h ?_
    simp [Arguments.trail, List.isEmpty_iff.mp hempty]

theorem collects_callArguments :
    (callArguments nested).Collects [] Arguments.IsPlain Arguments.trail :=
  (consumes_expect (by decide)).collects_bind fun _ =>
    collects_commaSeparated (f := Arguments.trail) (by decide)
      (fun _ h => collects_argument hnested h) Arguments.isPlain_empty

theorem collects_optionalArguments :
    (optionalArguments nested).Collects [] Arguments.IsPlain Arguments.trail := by
  refine consumes_peek.collects_bind fun token => ?_
  split
  · exact collects_callArguments hnested
  · exact collects_pure Arguments.isPlain_empty rfl

theorem collects_arrayItems {close : TokenKind} {what : String} {isFirst : List Node → Bool}
    {items : List Node} (hclose : close ≠ .eof) :
    (arrayItems nested close what isFirst items).Collects (trailAll items) (fun _ => True) trailAll :=
  collects_commaSeparated hclose (fun _ _ => (hnested .expression).after_bind fun _ _ =>
    collects_pure trivial (by simp)) trivial

theorem collects_parenthesized (pos : Position) : Collects (parenthesized nested pos) := by
  refine (consumes_skipKind (by decide)).collects_bind fun closes => ?_
  split
  · exact collects_pure rfl rfl
  · refine Collects.bind (hnested .expression) fun first _ => ?_
    refine (consumes_skipKind (by decide)).collects_bind fun closes => ?_
    split
    · exact collects_pure rfl (trail_of_children rfl rfl (by simp [children]))
    · have hitems : (arrayItems nested .rightParen "',' or ')'" (fun _ => false) [first]).Collects
          first.trail (fun _ => True) trailAll := collects_arrayItems hnested (by decide)
      exact hitems.bind fun items _ => collects_pure rfl (trail_of_children rfl rfl rfl)

/-- Where the literals and symbols of the entries of a dictionary stand. -/
def trailEntries (entries : List (Node × Node)) : List Position :=
  trailAll (entries.flatMap fun entry => [entry.1, entry.2])

omit hnested in
theorem trail_dictKey (key : Node) : (dictKey key).trail = key.trail := by
  cases key <;> rfl

theorem collects_dictEntry {entries : List (Node × Node)} :
    (dictEntry nested entries).Collects (trailEntries entries) (fun _ => True) trailEntries := by
  refine (hnested .primary).after_bind fun key _ => (consumes_expect (by decide)).collects_bind fun _ => ?_
  refine (hnested .expression).after_bind fun value _ => collects_pure trivial ?_
  simp [trailEntries, trail_dictKey]

omit hnested in
theorem trail_symbolNode (pos : Position) (name : String) :
    (symbolNode pos name).trail = [pos] ∧ (symbolNode pos name).isPlain = true := by
  unfold symbolNode
  split
  · exact ⟨rfl, rfl⟩
  · split
    · exact ⟨rfl, rfl⟩
    · split <;> exact ⟨rfl, rfl⟩

theorem collects_atom : Collects (atom nested) := by
  refine Collects.bind collects_next fun token _ => ?_
  rw [List.nil_append]
  have hcode {kind : TokenKind} (hkind : token.kind = kind) (h : kind.isCode = true) :
      [token.pos] = codePlaces [token] :=
    (codePlaces_of_code (List.forall_mem_singleton.mpr (by rw [hkind, h]))).symm
  have hinside {p : Parser Node} (h : Collects p) :
      p.Collects (codePlaces [token]) (fun node => node.isPlain = true) trail :=
    Collects.weaken h (List.nil_sublist _)
  split
  · next hkind => exact collects_pure rfl (hcode hkind rfl)
  · next hkind =>
    split
    · split
      · exact collects_pure rfl (hcode hkind rfl)
      · exact collects_failAt _ _
    · exact collects_failAt _ _
  · next hkind =>
    split
    · exact collects_pure rfl (hcode hkind rfl)
    · exact collects_failAt _ _
  · next hkind =>
    obtain ⟨htrail, hplain⟩ := trail_symbolNode token.pos token.value
    exact collects_pure hplain (htrail.trans (hcode hkind rfl))
  · exact hinside (collects_parenthesized hnested _)
  · refine hinside (Collects.bind (collects_arrayItems hnested (by decide)) fun items _ => ?_)
    exact collects_pure rfl (trail_of_children rfl rfl rfl)
  · refine hinside (Collects.bind (collects_commaSeparated (f := trailEntries) (by decide)
      (fun _ _ => collects_dictEntry hnested) trivial) fun entries _ => ?_)
    exact collects_pure rfl (trail_of_children rfl rfl rfl)
  · exact collects_failAt _ _

theorem collects_accessor {node : Node} (hnode : node.isPlain = true) :
    (accessor nested node).Collects node.trail
      (Step.Keeps (fun node => node.isPlain = true) fun node => node.isPlain = true)
      (Step.trail trail trail) := by
  refine consumes_peek.collects_bind fun token => ?_
  split
  · refine (collects_callArguments hnested).after_bind fun args hargs => collects_pure ?_ ?_
    · exact Option.isNone_iff_eq_none.mpr (swapped?_call hargs)
    · exact trail_call hargs
  · split
    · refine consumes_next_or_stay.collects_bind fun _ => (hnested .expression).after_bind fun key _ => ?_
      refine (consumes_expect (by decide)).collects_bind fun _ => collects_pure rfl ?_
      exact trail_of_children rfl rfl (by simp [children])
    · split
      · refine consumes_next_or_stay.collects_bind fun _ => Collects.bind collects_next fun key _ => ?_
        cases hkey : decide (key.kind = .symbol) || decide (key.kind = .int) with
        | false => exact (consumes_failAt _ _).bind_false
        | true =>
          have hcode : key.kind.isCode = true := by
            obtain hkind | hkind : key.kind = .symbol ∨ key.kind = .int := by simpa using hkey
            all_goals
              rw [hkind]
              rfl
          rw [codePlaces_of_code (List.forall_mem_singleton.mpr hcode)]
          exact collects_pure rfl (trail_of_children rfl rfl (by simp [children]))
      · exact collects_pure hnode rfl

theorem collects_primaryOver : Collects (primaryOver nested) :=
  Collects.bind (collects_atom hnested) fun _ h =>
    collects_iterate (fun _ hnode => collects_accessor hnested hnode) h

theorem collects_filters {node : Node} (hnode : node.isPlain = true) :
    (filters nested node).Collects node.trail (fun node => node.isPlain = true) trail := by
  refine collects_iterate (I := fun node => node.isPlain = true) (fun node hnode => ?_) hnode
  refine (consumes_skipKind (by decide)).collects_bind fun skipped => ?_
  split
  · refine consumes_peek.collects_bind fun token => Consumes.collects_bind balances_filterName fun name => ?_
    exact (collects_optionalArguments hnested).after_bind fun args _ =>
      collects_pure rfl (trail_filter hnode)
  · exact collects_pure hnode rfl

theorem collects_signed : Collects (signed nested) := by
  refine (consumes_unaryOperators fun _ => adds_skipOneOf (by decide)).collects_bind fun ops => ?_
  refine Collects.bind (collects_primaryOver hnested) fun node hnode => ?_
  refine Collects.bind (collects_filters hnested hnode) fun node hnode => ?_
  exact collects_pure (isPlain_applyUnary hnode) (trail_applyUnary ops node)

theorem collects_concatenation : Collects (concatenation nested) := by
  have hchain {operators : List (String × BinaryOp)} {operand : Parser Node}
      (h : ∀ entry ∈ operators, entry.1 ≠ ".") (hoperand : Collects operand) :
      Collects (leftChain (skipOneOf operators) operand) :=
    collects_leftChain (adds_skipOneOf (m := 0) h) hoperand
  exact hchain (by decide) <| hchain (by decide) <| hchain (by decide) <| hchain (by decide) <|
    collects_signed hnested

theorem collects_comparison : Collects (comparison nested) := by
  refine Collects.bind (collects_concatenation hnested) fun first hfirst => ?_
  let f (rest : List (CompareOp × Node)) : List Position := first.trail ++ trailAll (rest.map (·.2))
  refine Collects.bind (P := fun _ => True) (f := f) ?_ fun rest _ => ?_
  · rw [show first.trail = f [] by simp [f]]
    refine collects_iterate (I := fun _ => True) (fun rest _ => ?_) trivial
    refine Consumes.collects_bind (adds_skipOneOf (m := 0) (by decide)) fun op => ?_
    split
    · exact Collects.after_bind (collects_concatenation hnested) fun operand _ =>
        collects_pure trivial (by simp [Step.trail, f])
    · exact collects_pure trivial rfl
  · split
    · next hempty => exact collects_pure hfirst (by simp [f, List.isEmpty_iff.mp hempty])
    · exact collects_pure rfl (trail_of_children rfl rfl (by simp [children, f]))

/-- The named arguments of a test are left out. -/
theorem collects_tested : Collects (tested nested) := by
  refine Collects.bind (collects_comparison hnested) fun node hnode => ?_
  refine consumes_skipSymbol.collects_bind fun isTest => ?_
  split
  · refine consumes_skipSymbol.collects_bind fun negated => consumes_expectSymbol.collects_bind fun name => ?_
    refine (collects_optionalArguments hnested).after_bind fun args _ => ?_
    have htest : (test node.pos node name args.positional negated).trail =
        node.trail ++ trailAll args.positional := trail_of_children rfl rfl (by simp [children])
    have hle : (node.trail ++ trailAll args.positional).Sublist (node.trail ++ args.trail) :=
      (List.sublist_append_left _ _).append_left _
    exact Collects.weaken (collects_pure rfl htest) hle
  · exact collects_pure hnode rfl

theorem collects_disjunction : Collects (disjunction nested) := by
  have hchain {word : String} {op : BinaryOp} {operand : Parser Node} (hoperand : Collects operand) :
      Collects (leftChain (wordOperator word op) operand) :=
    collects_leftChain (adds_wordOperator (m := 0)) hoperand
  refine hchain (hchain ?_)
  refine (consumes_unaryOperators fun _ => adds_wordOperator).collects_bind fun ops => ?_
  refine Collects.bind (collects_leftChain (adds_membershipOperator (m := 0)) (collects_tested hnested))
    fun node hnode => ?_
  exact collects_pure (isPlain_applyUnary hnode) (trail_applyUnary ops node)

/-- What a conditional expression gives stands before its condition. -/
theorem collects_expressionOver : Collects (expressionOver nested) := by
  refine Collects.bind (collects_disjunction hnested) fun body hbody => ?_
  refine consumes_skipSymbol.collects_bind fun isInline => ?_
  split
  · refine (collects_disjunction hnested).after_bind fun cond _ => ?_
    refine consumes_skipSymbol.collects_bind fun hasElse => ?_
    split
    · exact (collects_disjunction hnested).after_bind fun otherwise _ =>
        collects_pure rfl (trail_eq rfl (by simp [parts, swapped?]))
    · exact collects_pure rfl (trail_eq rfl (by simp [parts, swapped?]))
  · exact collects_pure hbody rfl

end

theorem collects_nestedTo (depth : Nat) (goal : Goal) : Collects (nestedTo depth goal) := by
  induction depth generalizing goal with
  | zero => exact collects_fail _
  | succ depth ih =>
    cases goal with
    | expression => exact collects_expressionOver ih
    | primary => exact collects_primaryOver ih

theorem collects_nested (goal : Goal) : Collects (nested goal) :=
  fun s => collects_nestedTo (s.pending.length + 1) goal s

end Expression

/-- An expression is read from left to right. -/
theorem Parser.collects_expression : Expression.Collects Parser.expression :=
  Expression.collects_nested .expression

end TemplateManifest
