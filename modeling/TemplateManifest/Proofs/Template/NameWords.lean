import TemplateManifest.Proofs.Template.StatementLedger
import TemplateManifest.Proofs.Template.TagCode

/-!
The names in the tree of an expression are words of its source: names of variables are words that stand
for no value. What holds of all words of a source holds of these names.
-/

namespace TemplateManifest

/-- The text has no characters but those of names. -/
def IsNameText (text : String) : Prop :=
  ∀ c ∈ text.toList, Code.continuesName c = true

/-- The text is a name: it starts as one, and has no characters but those of names. -/
def IsName (text : String) : Prop :=
  IsNameText text ∧ ∃ c rest, text.toList = c :: rest ∧ Code.startsName c = true

/-- The words that stand for a value where an expression is read. -/
def valueWords : List String :=
  ["true", "True", "false", "False", "none", "None", "null"]

namespace Node

/-- The names that the code of a node has without quotes. -/
def bareNames : Node → List String
  | block _ name _ => [name]
  | macroDef _ _ params _ | callerBody _ params _ => params.map (·.1)
  | _ => []

/-- The variable that the node is. -/
def variableName? : Node → Option String
  | symbol _ name => some name
  | _ => none

/-- The own names of the node are of a kind, and no variable has the name of a value. -/
structure HasNames (N : String → Prop) (node : Node) : Prop where
  bare : ∀ name ∈ node.bareNames, N name
  symbols : ∀ name ∈ node.variableName?, N name ∧ name ∉ valueWords

/-- All names of the tree are of a kind, and no variable has the name of a value. -/
def IsWorded (N : String → Prop) (root : Node) : Prop :=
  ∀ node : Node, node.Within root → node.HasNames N

/-- All names of the trees are of a kind, and no variable has the name of a value. -/
def AreWorded (N : String → Prop) (nodes : List Node) : Prop :=
  ∀ node ∈ nodes, node.IsWorded N

section

variable {N : String → Prop} {root : Node} {nodes nodes' : List Node}

theorem isWorded_iff : root.IsWorded N ↔ root.HasNames N ∧ AreWorded N root.children := by
  constructor
  · exact fun h => ⟨h root .self, fun child hchild node hnode => h node (.child hchild hnode)⟩
  · rintro ⟨hroot, hchildren⟩ node hnode
    cases hnode with
    | self => exact hroot
    | child hchild h => exact hchildren _ hchild node h

/-- A node without a name of its own. -/
theorem isWorded_of_children (hbare : root.bareNames = []) (hvariable : root.variableName? = none)
    (hchildren : AreWorded N root.children) : root.IsWorded N :=
  isWorded_iff.mpr ⟨⟨by simp [hbare], by simp [hvariable]⟩, hchildren⟩

@[simp]
theorem areWorded_nil : AreWorded N [] :=
  List.forall_mem_nil _

@[simp]
theorem areWorded_cons : AreWorded N (root :: nodes) ↔ root.IsWorded N ∧ AreWorded N nodes :=
  List.forall_mem_cons

@[simp]
theorem areWorded_append :
    AreWorded N (nodes ++ nodes') ↔ AreWorded N nodes ∧ AreWorded N nodes' :=
  List.forall_mem_append

theorem AreWorded.flatten {bodies : List (List Node)} (h : ∀ body ∈ bodies, AreWorded N body) :
    AreWorded N bodies.flatten := by
  intro node hnode
  obtain ⟨body, hbody, hnode⟩ := List.mem_flatten.mp hnode
  exact h body hbody node hnode

theorem isWorded_literal (pos : Position) (value : Literal) : (literal pos value).IsWorded N :=
  isWorded_of_children rfl rfl areWorded_nil

theorem isWorded_symbol (pos : Position) {name : String} (h : N name) (hvalue : name ∉ valueWords) :
    (symbol pos name).IsWorded N :=
  isWorded_iff.mpr ⟨⟨List.forall_mem_nil _, by rintro _ ⟨⟩; exact ⟨h, hvalue⟩⟩, areWorded_nil⟩

end

end Node

section Lexer

theorem Code.isName_token {c : Char} {text : List Char} {kind : TokenKind} {value : String} {count : Nat}
    (h : Code.token c text = .ok (kind, value, count)) (hkind : kind = .symbol) : IsName value := by
  subst hkind
  rw [Code.token] at h
  split at h
  · split at h <;> cases h
  · split at h
    · -- A number is no symbol.
      have hnumber : (Code.number (c :: text)).1 ≠ .symbol := by
        rw [Code.number]
        split
        · split <;> exact fun heq => by cases heq
        · exact fun heq => by cases heq
      simp only [Except.ok.injEq, Prod.mk.injEq] at h
      exact absurd h.1 hnumber
    · split at h
      · next hstart =>
        cases h
        refine ⟨fun d hd => ?_, c, text.takeWhile Code.continuesName, ?_, hstart⟩
        · rw [String.toList_ofList] at hd
          exact List.mem_takeWhile_imp hd
        · rw [String.toList_ofList, List.takeWhile_cons_of_pos (Code.continuesName_of_startsName hstart)]
      · split at h
        · next hmark =>
          cases h
          unfold Code.markKind? at hmark
          split at hmark <;> cases hmark
        · split at h <;> cases h

end Lexer

/-- The symbols of a source are names. -/
theorem isName_of_mem_tokenize {options : LanguageOptions} {source : String} {tokens : List Token}
    (h : tokenize options source = .ok tokens) :
    ∀ token ∈ tokens, token.kind = .symbol → IsName token.value :=
  forall_mem_tokenize ⟨fun _ htoken => Code.isName_token htoken,
    fun _ _ hmark hkind => absurd (List.mem_cons_of_mem _ (List.mem_cons_of_mem _
      (List.mem_singleton.mpr hkind))) hmark⟩ h

/-- All words still to be read are of a kind. -/
structure TokenStream.HasWords (N : String → Prop) (s : TokenStream) : Prop where
  ended : s.last.kind = .eof
  pending : ∀ token ∈ s.pending, token.kind = .symbol → N token.value

namespace TokenStream.HasWords

variable {N : String → Prop} {s : TokenStream}

theorem head (h : s.HasWords N) : s.head.kind = .symbol → N s.head.value := by
  obtain ⟨pending, last⟩ := s
  cases pending with
  | nil => exact fun hkind => nomatch h.ended.symm.trans hkind
  | cons token pending => exact h.pending token List.mem_cons_self

theorem tail (h : s.HasWords N) : s.tail.HasWords N :=
  ⟨h.ended, fun token hmem => h.pending token (List.mem_of_mem_tail hmem)⟩

end TokenStream.HasWords

namespace Parser

variable {α β σ : Type} {N : String → Prop}

/-- When all words are of a kind, the parser gives only values of a kind, and all words that it leaves
    are of that kind too. -/
def Makes (N : String → Prop) (p : Parser α) (P : α → Prop) : Prop :=
  ∀ s a t, s.HasWords N → p s = .ok a t → P a ∧ t.HasWords N

variable {p : Parser α} {P : α → Prop} {R : β → Prop}

theorem Makes.bind {next : α → Parser β} (h : p.Makes N P) (hnext : ∀ a, P a → (next a).Makes N R) :
    (p >>= next).Makes N R := by
  intro s b t hs hp
  obtain ⟨a, u, ha, hb⟩ := bind_eq_ok_iff.mp hp
  obtain ⟨hPa, hu⟩ := h s a u hs ha
  exact hnext a hPa u b t hu hb

theorem makes_pure {a : α} (h : P a) : (pure a : Parser α).Makes N P := by
  intro s b t hs hp
  obtain ⟨rfl, rfl⟩ := pure_eq_ok_iff.mp hp
  exact ⟨h, hs⟩

theorem makes_fail (fault : SyntaxFault) : (fail fault : Parser α).Makes N P :=
  fun _ _ _ _ hp => nomatch hp

theorem makes_failAt (fault : SyntaxFault) (token : Token) : (failAt fault token : Parser α).Makes N P :=
  fun _ _ _ _ hp => nomatch hp

/-- Nothing follows a parser that fails. -/
theorem makes_fail_bind (fault : SyntaxFault) (next : β → Parser α) :
    (fail fault >>= next).Makes N P :=
  (makes_fail (P := fun _ => False) fault).bind fun _ h => h.elim

theorem makes_failAt_bind (fault : SyntaxFault) (token : Token) (next : β → Parser α) :
    (failAt fault token >>= next).Makes N P :=
  (makes_failAt (P := fun _ => False) fault token).bind fun _ h => h.elim

/-- A parser that takes tokens from the front, when its value does not matter. -/
theorem Consumes.makes {Q : List Token → α → TokenStream → Prop} (h : p.Consumes (fun _ => True) Q) :
    p.Makes N fun _ => True := by
  intro s a t hs hp
  obtain ⟨consumed, rfl, -⟩ := h s a t hs.ended trivial hp
  exact ⟨trivial, hs.ended, fun token htoken => hs.pending token (List.mem_append_right _ htoken)⟩

theorem makes_peek : peek.Makes N fun token => token.kind = .symbol → N token.value := by
  rintro s _ _ hs ⟨⟩
  exact ⟨hs.head, hs⟩

theorem makes_peekSecond : peekSecond.Makes N fun _ => True := by
  rintro s _ _ hs ⟨⟩
  exact ⟨trivial, hs⟩

theorem makes_next : next.Makes N fun token => token.kind = .symbol → N token.value := by
  rintro s _ _ hs ⟨⟩
  exact ⟨hs.head, hs.tail⟩

theorem makes_skipIf (condition : Token → Bool) : (skipIf condition).Makes N fun _ => True := by
  intro s a t hs hp
  unfold skipIf at hp
  split at hp <;> cases hp
  · exact ⟨trivial, hs.tail⟩
  · exact ⟨trivial, hs⟩

theorem makes_expect (kind : TokenKind) (what : String) :
    (expect kind what).Makes N fun token =>
      token.kind = kind ∧ (token.kind = .symbol → N token.value) := by
  intro s a t hs hp
  unfold expect at hp
  split at hp <;> cases hp
  · next hkind => exact ⟨⟨hkind, hs.head⟩, hs.tail⟩

theorem makes_expectSymbol (what : String) : (expectSymbol what).Makes N N :=
  (makes_expect .symbol what).bind fun _ htoken => makes_pure (htoken.2 htoken.1)

theorem makes_iterate {I : σ → Prop} {step : σ → Parser (Step σ α)}
    (hstep : ∀ state, I state → (step state).Makes N (Step.Keeps I P)) {state : σ} (h : I state) :
    (iterate step state).Makes N P := by
  have hfrom (bound : Nat) : (iterateFrom step bound state).Makes N P := by
    induction bound generalizing state with
    | zero => exact makes_fail _
    | succ bound ih =>
      refine (hstep state h).bind fun result hresult => ?_
      cases result with
      | more state => exact ih hresult
      | done a => exact makes_pure hresult
  exact fun s => hfrom _ s

theorem makes_commaSeparated {I : σ → Prop} {item : σ → Parser σ} (close : TokenKind)
    (what : String) (isFirst : σ → Bool) (hitem : ∀ items, I items → (item items).Makes N I)
    {items : σ} (h : I items) : (commaSeparated close what isFirst item items).Makes N I := by
  refine makes_iterate (fun items hitems => (makes_skipIf _).bind fun closes _ => ?_) h
  have hmore : (do return Step.more (← item items) : Parser (Step σ σ)).Makes N (Step.Keeps I I) :=
    (hitem items hitems).bind fun _ hitems' => makes_pure hitems'
  split
  · exact makes_pure hitems
  · split
    · exact hmore
    · refine (makes_expect _ _).bind fun _ _ => (makes_skipIf _).bind fun closes _ => ?_
      split
      · exact makes_pure hitems
      · exact hmore

theorem makes_closeTag (name : String) : (closeTag name).Makes N fun _ => True :=
  (makes_skipIf _).bind fun _ _ => (makes_expect _ _).bind fun _ _ => makes_pure trivial

theorem makes_expectKeyword (keyword : String) : (expectKeyword keyword).Makes N fun _ => True := by
  refine (makes_skipIf _).bind fun skipped _ => ?_
  split
  · exact makes_pure trivial
  · exact makes_peek.bind fun _ _ => makes_fail _

theorem makes_names (what : String) : (names what).Makes N fun _ => True :=
  Consumes.makes (Statement.adds_names (m := 0))

end Parser

namespace Expression

open TemplateManifest.Parser Node

variable {N : String → Prop}

/-- The arguments are worded. -/
def Arguments.AreWorded (N : String → Prop) (args : Arguments) : Prop :=
  Node.AreWorded N (args.positional ++ args.keyword.map (·.2))

/-- The parsers of what is nested give worded nodes. -/
def Nested.MakeWorded (N : String → Prop) (nested : Nested) : Prop :=
  ∀ goal, (nested goal).Makes N (IsWorded N)

theorem Arguments.areWorded_empty : Arguments.AreWorded N {} :=
  areWorded_nil

theorem isWorded_symbolNode (pos : Position) {name : String} (h : N name) :
    (symbolNode pos name).IsWorded N := by
  unfold symbolNode
  split
  · exact isWorded_literal _ _
  · split
    · exact isWorded_literal _ _
    · split
      · exact isWorded_literal _ _
      · next htrue hfalse hnone =>
        refine isWorded_symbol pos h fun hvalue => ?_
        simp only [List.mem_cons, List.not_mem_nil, or_false, not_or, valueWords] at *
        tauto

theorem isWorded_dictKey {key : Node} (h : key.IsWorded N) : (dictKey key).IsWorded N := by
  unfold dictKey
  split
  · exact isWorded_literal _ _
  · exact h

theorem isWorded_applyUnary (ops : List (Position × UnaryOp)) {node : Node} (h : node.IsWorded N) :
    (applyUnary ops node).IsWorded N := by
  induction ops with
  | nil => exact h
  | cons op ops ih => exact isWorded_of_children rfl rfl (List.forall_mem_singleton.mpr ih)

theorem makes_skipOneOf {α : Type} (operators : List (String × α)) :
    (skipOneOf operators).Makes N fun _ => True := by
  intro s op t hs hp
  unfold skipOneOf at hp
  split at hp <;> cases hp
  · exact ⟨trivial, hs.tail⟩
  · exact ⟨trivial, hs⟩

theorem makes_wordOperator {α : Type} (word : String) (op : α) :
    (wordOperator word op).Makes N fun _ => True := by
  refine (makes_skipIf _).bind fun taken _ => ?_
  split <;> exact makes_pure trivial

theorem makes_membershipOperator : membershipOperator.Makes N fun _ => True := by
  refine makes_peek.bind fun token _ => makes_peekSecond.bind fun second _ => ?_
  split
  · exact makes_next.bind fun _ _ => makes_next.bind fun _ _ => makes_pure trivial
  · refine (makes_skipIf _).bind fun taken _ => ?_
    split <;> exact makes_pure trivial

theorem makes_unaryOperators {one : Parser (Option UnaryOp)} (h : one.Makes N fun _ => True) :
    (unaryOperators one).Makes N fun _ => True := by
  refine makes_iterate (I := fun _ => True) (fun ops _ => ?_) trivial
  refine makes_peek.bind fun token _ => h.bind fun op _ => ?_
  split <;> exact makes_pure trivial

theorem makes_leftChain {operator : Parser (Option BinaryOp)} {operand : Parser Node}
    (hoperator : operator.Makes N fun _ => True) (hoperand : operand.Makes N (IsWorded N)) :
    (leftChain operator operand).Makes N (IsWorded N) := by
  refine hoperand.bind fun first h => makes_iterate (fun left hleft => ?_) h
  refine hoperator.bind fun op _ => ?_
  split
  · exact hoperand.bind fun right hright => makes_pure (isWorded_of_children rfl rfl
      (areWorded_cons.mpr ⟨hleft, List.forall_mem_singleton.mpr hright⟩))
  · exact makes_pure hleft

theorem makes_filterName : filterName.Makes N fun _ => True :=
  Consumes.makes balances_filterName

section

variable {nested : Nested} (hnested : nested.MakeWorded N)
include hnested

theorem makes_argument {args : Arguments} (h : args.AreWorded N) :
    (argument nested args).Makes N (Arguments.AreWorded N) := by
  obtain ⟨hpositional, hkeyword⟩ := areWorded_append.mp h
  have hmore : (do return { args with positional := args.positional ++ [← nested .expression] } :
      Parser Arguments).Makes N (Arguments.AreWorded N) :=
    (hnested .expression).bind fun value hvalue => makes_pure <| areWorded_append.mpr
      ⟨areWorded_append.mpr ⟨hpositional, List.forall_mem_singleton.mpr hvalue⟩, hkeyword⟩
  refine makes_peek.bind fun token _ => makes_peekSecond.bind fun second _ => ?_
  split
  · refine makes_next.bind fun _ _ => makes_next.bind fun _ _ => (hnested .expression).bind
      fun value hvalue => makes_pure (areWorded_append.mpr ⟨hpositional, ?_⟩)
    rw [List.map_append]
    exact areWorded_append.mpr ⟨hkeyword, List.forall_mem_singleton.mpr hvalue⟩
  · split
    · exact hmore
    · exact makes_fail_bind _ _

theorem makes_callArguments : (callArguments nested).Makes N (Arguments.AreWorded N) :=
  (makes_expect _ _).bind fun _ _ => makes_commaSeparated _ _ _ (fun _ => makes_argument hnested)
    Arguments.areWorded_empty

theorem makes_optionalArguments : (optionalArguments nested).Makes N (Arguments.AreWorded N) := by
  refine makes_peek.bind fun token _ => ?_
  split
  · exact makes_callArguments hnested
  · exact makes_pure Arguments.areWorded_empty

theorem makes_arrayItems {items : List Node} (close : TokenKind) (what : String)
    (isFirst : List Node → Bool) (h : AreWorded N items) :
    (arrayItems nested close what isFirst items).Makes N (AreWorded N) :=
  makes_commaSeparated _ _ _ (fun _ hitems => (hnested .expression).bind fun _ hnode =>
    makes_pure (areWorded_append.mpr ⟨hitems, List.forall_mem_singleton.mpr hnode⟩)) h

theorem makes_parenthesized (pos : Position) :
    (parenthesized nested pos).Makes N (IsWorded N) := by
  refine (makes_skipIf _).bind fun closes _ => ?_
  split
  · exact makes_pure (isWorded_of_children rfl rfl areWorded_nil)
  · refine (hnested .expression).bind fun first hfirst => (makes_skipIf _).bind fun closes _ => ?_
    have hsingle : AreWorded N [first] := List.forall_mem_singleton.mpr hfirst
    split
    · exact makes_pure (isWorded_of_children rfl rfl hsingle)
    · exact (makes_arrayItems hnested _ _ _ hsingle).bind fun _ hitems =>
        makes_pure (isWorded_of_children rfl rfl hitems)

/-- The keys and values of the entries are worded. -/
abbrev AreWordedEntries (N : String → Prop) (entries : List (Node × Node)) : Prop :=
  AreWorded N (entries.flatMap fun entry => [entry.1, entry.2])

theorem makes_dictEntry {entries : List (Node × Node)} (h : AreWordedEntries N entries) :
    (dictEntry nested entries).Makes N (AreWordedEntries N) := by
  refine (hnested .primary).bind fun key hkey => (makes_expect _ _).bind fun _ _ => ?_
  refine (hnested .expression).bind fun value hvalue => makes_pure ?_
  rw [AreWordedEntries, List.flatMap_append]
  exact areWorded_append.mpr
    ⟨h, areWorded_cons.mpr ⟨isWorded_dictKey hkey, List.forall_mem_singleton.mpr hvalue⟩⟩

theorem makes_atom : (atom nested).Makes N (IsWorded N) := by
  refine makes_next.bind fun token htoken => ?_
  split
  · exact makes_pure (isWorded_literal _ _)
  · split
    · split
      · exact makes_pure (isWorded_literal _ _)
      · exact makes_failAt _ _
    · exact makes_failAt _ _
  · split
    · exact makes_pure (isWorded_literal _ _)
    · exact makes_failAt _ _
  · next hkind => exact makes_pure (isWorded_symbolNode _ (htoken hkind))
  · exact makes_parenthesized hnested _
  · exact (makes_arrayItems hnested _ _ _ areWorded_nil).bind fun _ hitems =>
      makes_pure (isWorded_of_children rfl rfl hitems)
  · exact (makes_commaSeparated _ _ _ (fun _ => makes_dictEntry hnested) areWorded_nil).bind
      fun _ hentries => makes_pure (isWorded_of_children rfl rfl hentries)
  · exact makes_failAt _ _

theorem makes_accessor {node : Node} (h : node.IsWorded N) :
    (accessor nested node).Makes N (Step.Keeps (IsWorded N) (IsWorded N)) := by
  refine makes_peek.bind fun token _ => ?_
  split
  · exact (makes_callArguments hnested).bind fun args hargs =>
      makes_pure (isWorded_of_children rfl rfl (areWorded_cons.mpr ⟨h, hargs⟩))
  · split
    · exact makes_next.bind fun _ _ => (hnested .expression).bind fun key hkey =>
        (makes_expect _ _).bind fun _ _ => makes_pure (isWorded_of_children rfl rfl
          (areWorded_cons.mpr ⟨h, List.forall_mem_singleton.mpr hkey⟩))
    · split
      · refine makes_next.bind fun _ _ => makes_next.bind fun key _ => ?_
        split
        · exact makes_pure (isWorded_of_children rfl rfl
            (areWorded_cons.mpr ⟨h, List.forall_mem_singleton.mpr (isWorded_literal _ _)⟩))
        · exact makes_failAt_bind _ _ _
      · exact makes_pure h

theorem makes_primaryOver : (primaryOver nested).Makes N (IsWorded N) :=
  (makes_atom hnested).bind fun _ h => makes_iterate (fun _ => makes_accessor hnested) h

theorem makes_filters {node : Node} (h : node.IsWorded N) :
    (filters nested node).Makes N (IsWorded N) := by
  refine makes_iterate (fun node h => (makes_skipIf _).bind fun skipped _ => ?_) h
  split
  · exact makes_peek.bind fun _ _ => makes_filterName.bind fun _ _ =>
      (makes_optionalArguments hnested).bind fun args hargs =>
        makes_pure (isWorded_of_children rfl rfl (areWorded_cons.mpr ⟨h, hargs⟩))
  · exact makes_pure h

theorem makes_signed : (signed nested).Makes N (IsWorded N) :=
  (makes_unaryOperators (makes_skipOneOf _)).bind fun ops _ => (makes_primaryOver hnested).bind
    fun _ hprimary => (makes_filters hnested hprimary).bind fun _ hnode =>
      makes_pure (isWorded_applyUnary ops hnode)

theorem makes_concatenation : (concatenation nested).Makes N (IsWorded N) :=
  makes_leftChain (makes_skipOneOf _) <| makes_leftChain (makes_skipOneOf _) <|
    makes_leftChain (makes_skipOneOf _) <| makes_leftChain (makes_skipOneOf _) <| makes_signed hnested

theorem makes_comparison : (comparison nested).Makes N (IsWorded N) := by
  refine (makes_concatenation hnested).bind fun first hfirst => ?_
  let Worded (rest : List (CompareOp × Node)) : Prop := AreWorded N (rest.map (·.2))
  refine Makes.bind (P := Worded) (makes_iterate (I := Worded) (fun rest hrest => ?_) areWorded_nil)
    fun rest hrest => ?_
  · refine (makes_skipOneOf _).bind fun op _ => ?_
    split
    · refine (makes_concatenation hnested).bind fun operand hoperand => makes_pure ?_
      change AreWorded N (List.map _ _)
      rw [List.map_append]
      exact areWorded_append.mpr ⟨hrest, List.forall_mem_singleton.mpr hoperand⟩
    · exact makes_pure hrest
  · split
    · exact makes_pure hfirst
    · exact makes_pure (isWorded_of_children rfl rfl (areWorded_cons.mpr ⟨hfirst, hrest⟩))

theorem makes_tested : (tested nested).Makes N (IsWorded N) := by
  refine (makes_comparison hnested).bind fun node hnode => (makes_skipIf _).bind fun isTest _ => ?_
  split
  · exact (makes_skipIf _).bind fun _ _ => (makes_expectSymbol _).bind fun _ _ =>
      (makes_optionalArguments hnested).bind fun args hargs => makes_pure (isWorded_of_children rfl rfl
        (areWorded_cons.mpr ⟨hnode, (areWorded_append.mp hargs).1⟩))
  · exact makes_pure hnode

theorem makes_disjunction : (disjunction nested).Makes N (IsWorded N) := by
  refine makes_leftChain (makes_wordOperator _ _) (makes_leftChain (makes_wordOperator _ _) ?_)
  refine (makes_unaryOperators (makes_wordOperator _ _)).bind fun ops _ => ?_
  exact (makes_leftChain makes_membershipOperator (makes_tested hnested)).bind fun _ hnode =>
    makes_pure (isWorded_applyUnary ops hnode)

theorem makes_expressionOver : (expressionOver nested).Makes N (IsWorded N) := by
  refine (makes_disjunction hnested).bind fun body hbody => (makes_skipIf _).bind fun isInline _ => ?_
  split
  · refine (makes_disjunction hnested).bind fun cond hcond => (makes_skipIf _).bind fun hasElse _ => ?_
    have hinline (otherwise : Option Node) (h : AreWorded N otherwise.toList) :
        (Node.inlineIf body.pos cond body otherwise).IsWorded N :=
      isWorded_of_children rfl rfl (areWorded_cons.mpr ⟨hcond, areWorded_cons.mpr ⟨hbody, h⟩⟩)
    split
    · exact (makes_disjunction hnested).bind fun otherwise hotherwise =>
        makes_pure (hinline _ (List.forall_mem_singleton.mpr hotherwise))
    · exact makes_pure (hinline none areWorded_nil)
  · exact makes_pure hbody

end

theorem makeWorded_nestedTo (depth : Nat) : (nestedTo depth).MakeWorded N := by
  induction depth with
  | zero => exact fun _ => makes_fail _
  | succ depth ih =>
    intro goal
    cases goal with
    | expression => exact makes_expressionOver ih
    | primary => exact makes_primaryOver ih

theorem makeWorded_nested : nested.MakeWorded N :=
  fun goal s => makeWorded_nestedTo (s.pending.length + 1) goal s

end Expression

theorem Parser.makes_expression {N : String → Prop} : expression.Makes N (Node.IsWorded N) :=
  Expression.makeWorded_nested .expression

end TemplateManifest
