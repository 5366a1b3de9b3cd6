import TemplateManifest.Proofs.Template.IndexSteps

/-!
The parser of expressions over an index follows the one over a stream. Every expression takes a token before
another one is read inside it, and so each of the two is as deep as the other.
-/

namespace TemplateManifest

namespace IndexParser

open TemplateManifest.Parser (Step)
open Expression (Goal Arguments signs)

section Over

/-- From the state on, nested expressions are read alike, and they take a token. -/
def NestedFrom (nested : Nested) (nested' : Expression.Nested) (s : State) : Prop :=
  ∀ t, s.Leads t → ∀ goal, Follows t (nested goal) (nested' goal) (Past t)

/-- Once a token has been taken, nested expressions are read alike, and they take a token. -/
def NestedInside (nested : Nested) (nested' : Expression.Nested) (s : State) : Prop :=
  ∀ t, s.Leads t → s.pos < t.pos → ∀ goal, Follows t (nested goal) (nested' goal) (Past t)

variable {nested : Nested} {nested' : Expression.Nested} {s t : State} {α : Type}

theorem NestedFrom.leads (h : NestedFrom nested nested' s) (hleads : s.Leads t) :
    NestedFrom nested nested' t :=
  fun u hu => h u (hleads.trans hu)

theorem NestedFrom.inside (h : NestedFrom nested nested' s) : NestedInside nested nested' s :=
  fun t hleads _ => h t hleads

theorem NestedInside.leads (h : NestedInside nested nested' s) (hleads : s.Leads t) :
    NestedInside nested nested' t :=
  fun u hu hlt => h u (hleads.trans hu) (Nat.lt_of_le_of_lt hleads.le hlt)

theorem NestedInside.from_past (h : NestedInside nested nested' s) (hleads : s.Leads t)
    (hlt : s.pos < t.pos) : NestedFrom nested nested' t :=
  fun u hu => h u (hleads.trans hu) (Nat.lt_of_lt_of_le hlt hu.le)

theorem follows_argument (h : NestedFrom nested nested' s) (args : Arguments) :
    Follows s (argument nested args) (Expression.argument nested' args) (Past s) := by
  refine .peek_bind (.startsPair_bind (fun token hkind => ?_) (follows_ite (fun hpair => ?_) fun _ => ?_))
  · rw [of_decide_eq_true hkind]
    decide
  · obtain ⟨hname, hsecond⟩ := Bool.and_eq_true_iff.mp hpair
    have hhead : s.stream.head.kind ≠ .eof := by
      rw [of_decide_eq_true hname]
      decide
    refine (follows_next_moved hhead).bind fun _ t ht htaken => ?_
    obtain ⟨-, hstream, hlt⟩ := htaken
    have hequals : t.stream.head.kind ≠ .eof := by
      rw [hstream]
      exact kind_ne_eof_of_isOperator hsecond
    refine (follows_take_past hequals).bind fun _ u hu _ => ?_
    refine (h u (ht.trans hu) .expression).bind fun value v hv _ => follows_pure ?_
    exact Nat.lt_of_lt_of_le hlt (hu.trans hv).le
  · have hrest : Follows s (do return { args with positional := args.positional ++ [← nested .expression] })
        (do return { args with positional := args.positional ++ [← nested' .expression] }) (Past s) :=
      (h s .refl .expression).bind fun _ _ _ hlt => follows_pure hlt
    exact follows_ite (fun _ => hrest) fun _ => (follows_fail (by simp)).bind_of_fails

theorem follows_callArguments (h : NestedInside nested nested' s) :
    Follows s (callArguments nested) (Expression.callArguments nested') (Past s) := by
  refine (follows_expect (by decide)).bind_past fun _ t ht hlt => ?_
  have hfrom := h.from_past ht hlt
  exact follows_commaSeparated (by decide) (fun args u hu => follows_argument (hfrom.leads hu) args) {}

theorem follows_optionalArguments (h : NestedInside nested nested' s) :
    Follows s (optionalArguments nested) (Expression.optionalArguments nested') Anywhere :=
  .peek_bind (follows_ite (fun _ => (follows_callArguments h).anywhere) fun _ => follows_pure trivial)

theorem follows_arrayItems {close : TokenKind} {what : String} {isFirst : List Node → Bool}
    (h : NestedFrom nested nested' s) (hclose : close ≠ .eof) (items : List Node) :
    Follows s (arrayItems nested close what isFirst items)
      (Expression.arrayItems nested' close what isFirst items) Anywhere := by
  refine follows_commaSeparated hclose (fun items t ht => ?_) items
  exact (h t ht .expression).bind fun _ _ _ hlt => follows_pure hlt

theorem follows_parenthesized (h : NestedFrom nested nested' s) (pos : Position) :
    Follows s (parenthesized nested pos) (Expression.parenthesized nested' pos) Anywhere := by
  refine (follows_skipKind (by decide)).bind fun _ t ht _ => ?_
  refine follows_ite (fun _ => follows_pure trivial) fun _ => ?_
  refine (h t ht .expression).bind fun first u hu _ => ?_
  refine (follows_skipKind (by decide)).bind fun _ v hv _ => ?_
  refine follows_ite (fun _ => follows_pure trivial) fun _ => ?_
  have hfrom := h.leads ((ht.trans hu).trans hv)
  exact (follows_arrayItems hfrom (by decide) _).bind fun items _ _ _ => follows_pure trivial

theorem follows_dictEntry (h : NestedFrom nested nested' s) (entries : List (Node × Node)) :
    Follows s (dictEntry nested entries) (Expression.dictEntry nested' entries) (Past s) := by
  refine (h s .refl .primary).bind_past fun key t ht _ => ?_
  refine (follows_expect (by decide)).bind fun _ u hu _ => ?_
  exact (h u (ht.trans hu) .expression).bind fun value _ _ _ => follows_pure trivial

theorem follows_atom (h : NestedInside nested nested' s) :
    Follows s (atom nested) (Expression.atom nested') (Past s) := by
  refine follows_next.bind fun token t ht hlt => ?_
  by_cases heof : token.kind = .eof
  · rw [heof]
    exact follows_failAt (by simp)
  have hfrom := h.from_past ht (hlt heof)
  refine Follows.past (P := Anywhere) ?_ (hlt heof)
  cases token.kind with
  | string => exact follows_pure trivial
  | int =>
    cases readInteger? token.value.toList with
    | none => exact follows_failAt (by simp)
    | some n => exact follows_ite (fun _ => follows_pure trivial) fun _ => follows_failAt (by simp)
  | float =>
    cases Double.read? token.value.toList with
    | none => exact follows_failAt (by simp)
    | some x => exact follows_pure trivial
  | symbol => exact follows_pure trivial
  | leftParen => exact follows_parenthesized hfrom token.pos
  | leftBracket =>
    exact (follows_arrayItems hfrom (by decide) []).bind fun _ _ _ _ => follows_pure trivial
  | leftCurly =>
    exact (follows_commaSeparated (by decide)
      (fun entries _ hu => follows_dictEntry (hfrom.leads hu) entries) []).bind
        fun _ _ _ _ => follows_pure trivial
  | _ => exact follows_failAt (by simp)

theorem follows_accessor (h : NestedInside nested nested' s) (node : Node) :
    Follows s (accessor nested node) (Expression.accessor nested' node) (Advances s) := by
  refine .peek_bind (follows_ite (fun _ => ?_) fun _ => follows_ite (fun hbracket => ?_) fun _ =>
    follows_ite (fun hpoint => ?_) fun _ => follows_pure trivial)
  · exact (follows_callArguments h).bind fun args _ _ hlt => follows_pure hlt
  · refine (follows_take_past (hbracket ▸ by decide)).bind fun _ t ht hlt => ?_
    refine (h t ht hlt .expression).bind fun key u hu _ => ?_
    refine (follows_expect (by decide)).bind fun _ v hv _ => follows_pure ?_
    exact Nat.lt_of_lt_of_le hlt (hu.trans hv).le
  · refine (follows_take_past (kind_ne_eof_of_isOperator hpoint)).bind fun _ t _ hlt => ?_
    refine follows_next.bind fun key u hu _ => follows_ite (fun _ => ?_) fun _ => ?_
    · exact follows_pure (Nat.lt_of_lt_of_le hlt hu.le)
    · exact (follows_failAt (by simp)).bind_of_fails

theorem follows_primaryOver (h : NestedInside nested nested' s) :
    Follows s (primaryOver nested) (Expression.primaryOver nested') (Past s) := by
  refine (follows_atom h).bind_past fun node t ht _ => ?_
  exact follows_loop (fun node u hu => follows_accessor (h.leads (ht.trans hu)) node) node

theorem follows_filterName : Follows s filterName Expression.filterName (Past s) := by
  refine follows_expectSymbol.bind_past fun name _ _ _ => follows_loop (fun name t _ => ?_) name
  refine follows_skipOperator.bind fun _ u _ hpoint => ?_
  refine follows_ite (fun h => ?_) fun _ => follows_pure trivial
  refine follows_expectSymbol.bind fun part v hv _ => follows_pure ?_
  exact Nat.lt_of_lt_of_le (hpoint h) hv.le

theorem follows_filters (h : NestedInside nested nested' s) (node : Node) :
    Follows s (filters nested node) (Expression.filters nested' node) Anywhere := by
  refine follows_loop (fun node t ht => ?_) node
  refine (follows_skipKind (by decide)).bind fun _ u hu hpipe => follows_ite (fun hskipped => ?_) fun _ => ?_
  · refine .peek_bind (follows_filterName.bind fun name v hv _ => ?_)
    have hinside := h.leads ((ht.trans hu).trans hv)
    refine (follows_optionalArguments hinside).bind fun args w hw _ => follows_pure ?_
    exact Nat.lt_of_lt_of_le (hpipe hskipped) (hv.trans hw).le
  · exact follows_pure trivial

theorem follows_unaryOperators {one : Reader (Option UnaryOp)} {one' : Parser (Option UnaryOp)}
    (hone : ∀ t, s.Leads t → Follows t one one' (PastIfSome t)) :
    Follows s (unaryOperators one) (Expression.unaryOperators one') Anywhere := by
  refine follows_loop (fun ops t ht => .peek_bind ((hone t ht).bind fun found u _ hfound => ?_)) []
  cases found with
  | none => exact follows_pure trivial
  | some op => exact follows_pure (hfound rfl)

theorem follows_signed (h : NestedInside nested nested' s) :
    Follows s (signed nested) (Expression.signed nested') (Past s) := by
  refine (follows_unaryOperators fun _ _ => follows_skipOneOf).bind fun ops t ht _ => ?_
  refine Follows.past_of_leads ?_ ht
  refine (follows_primaryOver (h.leads ht)).bind_past fun node u hu _ => ?_
  exact (follows_filters (h.leads (ht.trans hu)) node).bind fun filtered _ _ _ => follows_pure trivial

section LeftChain

variable {operand : Reader Node} {operand' : Parser Node}

theorem follows_leftChain {operator : Reader (Option BinaryOp)} {operator' : Parser (Option BinaryOp)}
    (hoperator : ∀ t, Follows t operator operator' (PastIfSome t))
    (hoperand : ∀ t, s.Leads t → Follows t operand operand' (Past t)) :
    Follows s (leftChain operator operand) (Expression.leftChain operator' operand') (Past s) := by
  refine (hoperand s .refl).bind_past fun left t ht _ => follows_loop (fun left u hu => ?_) left
  refine (hoperator u).bind fun found v hv hfound => ?_
  cases found with
  | none => exact follows_pure trivial
  | some op => exact (hoperand v ((ht.trans hu).trans hv)).bind fun _ _ _ hlt =>
      follows_pure (Nat.lt_trans (hfound rfl) hlt)

theorem follows_power (h : NestedInside nested nested' s) :
    Follows s (power nested) (Expression.power nested') (Past s) :=
  follows_leftChain (fun _ => follows_skipOneOf) fun _ ht => follows_signed (h.leads ht)

theorem follows_product (h : NestedInside nested nested' s) :
    Follows s (product nested) (Expression.product nested') (Past s) :=
  follows_leftChain (fun _ => follows_skipOneOf) fun _ ht => follows_power (h.leads ht)

theorem follows_sum (h : NestedInside nested nested' s) :
    Follows s (sum nested) (Expression.sum nested') (Past s) :=
  follows_leftChain (fun _ => follows_skipOneOf) fun _ ht => follows_product (h.leads ht)

theorem follows_concatenation (h : NestedInside nested nested' s) :
    Follows s (concatenation nested) (Expression.concatenation nested') (Past s) :=
  follows_leftChain (fun _ => follows_skipOneOf) fun _ ht => follows_sum (h.leads ht)

theorem follows_comparison (h : NestedInside nested nested' s) :
    Follows s (comparison nested) (Expression.comparison nested') (Past s) := by
  refine (follows_concatenation h).bind_past fun first t ht _ => Follows.bind (P := Anywhere) ?_
    fun rest _ _ _ => follows_ite (fun _ => follows_pure trivial) fun _ => follows_pure trivial
  refine follows_loop (fun rest u hu => ?_) []
  refine follows_skipOneOf.bind fun found v hv hfound => ?_
  cases found with
  | none => exact follows_pure trivial
  | some op => exact (follows_concatenation (h.leads ((ht.trans hu).trans hv))).bind fun _ _ _ hlt =>
      follows_pure (Nat.lt_trans (hfound rfl) hlt)

theorem follows_tested (h : NestedInside nested nested' s) :
    Follows s (tested nested) (Expression.tested nested') (Past s) := by
  refine (follows_comparison h).bind_past fun node t ht _ => ?_
  refine follows_skipSymbol.bind fun _ u hu _ => ?_
  refine follows_ite (fun _ => ?_) fun _ => follows_pure trivial
  refine follows_skipSymbol.bind fun negated v hv _ => ?_
  refine follows_expectSymbol.bind fun name w hw _ => ?_
  have hinside := h.leads (((ht.trans hu).trans hv).trans hw)
  exact (follows_optionalArguments hinside).bind fun args _ _ _ => follows_pure trivial

theorem follows_membershipOperator :
    Follows s membershipOperator Expression.membershipOperator (PastIfSome s) := by
  refine .of_peek_bind (.startsPair_bind (fun _ => kind_ne_eof_of_isSymbol)
    (follows_ite (fun hpair => ?_) fun _ => ?_))
  · obtain ⟨hnot, hin⟩ := Bool.and_eq_true_iff.mp hpair
    refine (follows_take (kind_ne_eof_of_isSymbol hnot)).bind fun _ t ht htaken => ?_
    obtain ⟨-, hstream, hlt⟩ := htaken
    have hhead : t.stream.head.kind ≠ .eof := by
      rw [hstream]
      exact kind_ne_eof_of_isSymbol hin
    exact (follows_take_past hhead).bind fun _ u hu _ =>
      follows_pure fun _ => Nat.lt_of_lt_of_le hlt hu.le
  · exact follows_skipSymbol.bind fun _ _ _ hword => follows_ite (fun h => follows_pure fun _ => hword h)
      fun _ => follows_pure fun h => absurd h Bool.false_ne_true

theorem follows_wordOperator {word : String} {op : α} :
    Follows s (wordOperator word op) (Expression.wordOperator word op) (PastIfSome s) :=
  follows_skipSymbol.bind fun _ _ _ hword => follows_ite (fun h => follows_pure fun _ => hword h)
    fun _ => follows_pure fun h => absurd h Bool.false_ne_true

theorem follows_membership (h : NestedInside nested nested' s) :
    Follows s (membership nested) (Expression.membership nested') (Past s) :=
  follows_leftChain (fun _ => follows_membershipOperator) fun _ ht => follows_tested (h.leads ht)

theorem follows_negation (h : NestedInside nested nested' s) :
    Follows s (negation nested) (Expression.negation nested') (Past s) := by
  refine (follows_unaryOperators fun _ _ => follows_wordOperator).bind fun ops t ht _ => ?_
  exact ((follows_membership (h.leads ht)).past_of_leads ht).bind fun _ _ _ hlt => follows_pure hlt

theorem follows_conjunction (h : NestedInside nested nested' s) :
    Follows s (conjunction nested) (Expression.conjunction nested') (Past s) :=
  follows_leftChain (fun _ => follows_wordOperator) fun _ ht => follows_negation (h.leads ht)

theorem follows_disjunction (h : NestedInside nested nested' s) :
    Follows s (disjunction nested) (Expression.disjunction nested') (Past s) :=
  follows_leftChain (fun _ => follows_wordOperator) fun _ ht => follows_conjunction (h.leads ht)

end LeftChain

theorem follows_expressionOver (h : NestedInside nested nested' s) :
    Follows s (expressionOver nested) (Expression.expressionOver nested') (Past s) := by
  refine (follows_disjunction h).bind_past fun body t ht _ => ?_
  refine follows_skipSymbol.bind fun _ u hu _ => ?_
  refine follows_ite (fun _ => ?_) fun _ => follows_pure trivial
  have hu := ht.trans hu
  refine (follows_disjunction (h.leads hu)).bind fun cond v hv _ => ?_
  refine follows_skipSymbol.bind fun _ w hw _ => ?_
  refine follows_ite (fun _ => ?_) fun _ => follows_pure trivial
  have hw := (hu.trans hv).trans hw
  exact (follows_disjunction (h.leads hw)).bind fun otherwise _ _ _ => follows_pure trivial

end Over

variable {s : State}

/-- An expression at any index takes a token before another one begins inside it, so that there are no more
    expressions inside one another than tokens. -/
theorem follows_nestedTo {depth : Nat} (hdepth : s.stream.pending.length < depth) (goal : Goal) :
    Follows s (nested goal) (Expression.nestedTo depth goal) (Past s) := by
  induction depth generalizing s goal with
  | zero => cases hdepth
  | succ depth ih =>
    intro hvalid
    have hinside : NestedInside (fun goal t =>
        if _h : t.left < s.left then nested goal t else .error (.repeated t.pos) t)
        (Expression.nestedTo depth) s := by
      intro t hleads hlt goal hvalid'
      dsimp only
      -- It is entered after a token, so that the check at its entry lets it be read.
      rw [dif_pos (hvalid.left_lt hleads hlt)]
      have hpending := hleads.length_pending_lt hlt
      exact ih (by omega) goal hvalid'
    rw [nested, Expression.nestedTo]
    cases goal with
    | expression => exact follows_expressionOver hinside hvalid
    | primary => exact follows_primaryOver hinside hvalid

theorem nestedFrom_nested : NestedFrom nested Expression.nested s :=
  fun _ _ goal hvalid => follows_nestedTo (Nat.lt_succ_self _) goal hvalid

theorem follows_expression : Follows s expression Parser.expression (Past s) :=
  nestedFrom_nested s .refl .expression

end IndexParser

end TemplateManifest
