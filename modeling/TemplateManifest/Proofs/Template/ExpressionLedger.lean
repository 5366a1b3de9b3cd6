import TemplateManifest.Proofs.Template.Ledger

/-!
Expressions balance: the tokens that the grammar of expressions takes spell the literals of the tree
that it gives, but for the named arguments of tests.
-/

namespace TemplateManifest

namespace Expression

open TemplateManifest.Parser Node

/-- The literals of arguments. -/
def Arguments.account (args : Arguments) : Multiset Leaf :=
  total args.positional + total (args.keyword.map (·.2))

/-- The tokens spell the positional arguments and, from the first name on, the named ones. -/
def Arguments.IsSplit (args : Arguments) (tokens : List Token) : Prop :=
  (args.keyword = [] ∧ Accounts tokens (total args.positional)) ∨
    (args.keyword ≠ [] ∧ ∃ positional key equals named,
      tokens = positional ++ key :: equals :: named ∧ key.kind = .symbol ∧
        equals.isOperator "=" = true ∧ Accounts positional (total args.positional) ∧
        Accounts named (total (args.keyword.map (·.2))))

/-- The tokens are those of arguments in parentheses. -/
def Arguments.IsEnclosed (args : Arguments) (tokens : List Token) : Prop :=
  ∃ opening inner closing, tokens = opening :: (inner ++ [closing]) ∧
    opening.AreBrackets closing ∧ args.IsSplit inner

theorem Arguments.IsSplit.accounts {args : Arguments} {tokens : List Token}
    (h : args.IsSplit tokens) : Accounts tokens args.account := by
  obtain ⟨hkeyword, h⟩ | ⟨-, positional, key, equals, named, rfl, hkey, hequals, h, h'⟩ := h
  · rw [Arguments.account, hkeyword]
    simpa using h
  · have hnamed := Accounts.cons_mark (Token.isMark_of_symbol hkey)
      (.cons_mark (Token.isMark_of_isOperator (by decide) hequals) h')
    exact h.append hnamed

theorem Arguments.IsEnclosed.accounts {args : Arguments} {tokens : List Token}
    (h : args.IsEnclosed tokens) : Accounts tokens args.account := by
  obtain ⟨opening, inner, closing, rfl, hbrackets, h⟩ := h
  exact .brackets hbrackets h.accounts

theorem Arguments.IsSplit.append_mark {args : Arguments} {tokens : List Token} {token : Token}
    (h : args.IsSplit tokens) (htoken : token.isMark = true) : args.IsSplit (tokens ++ [token]) := by
  obtain ⟨hkeyword, h⟩ | ⟨hkeyword, positional, key, equals, named, rfl, hkey, hequals, h, h'⟩ := h
  · exact .inl ⟨hkeyword, h.append_mark htoken⟩
  · exact .inr ⟨hkeyword, positional, key, equals, named ++ [token], by simp, hkey, hequals, h,
      h'.append_mark htoken⟩

/-- The tokens of a test spell its positional arguments only. -/
theorem accounts_test {is name : Token} {negation tokens : List Token} {args : Arguments}
    (his : is.isSymbol "is" = true) (hnegation : ∀ token ∈ negation, token.isSymbol "not" = true)
    (hname : name.kind = .symbol)
    (hargs : (tokens = [] ∧ args = {}) ∨ args.IsEnclosed tokens) :
    Accounts (is :: (negation ++ name :: tokens)) (total args.positional) := by
  have hmarks : ∀ token ∈ is :: (negation ++ [name]), token.isMark = true :=
    List.forall_mem_cons.mpr ⟨Token.isMark_of_isSymbol his, List.forall_mem_append.mpr
      ⟨fun token htoken => Token.isMark_of_isSymbol (hnegation token htoken),
        List.forall_mem_singleton.mpr (Token.isMark_of_symbol hname)⟩⟩
  obtain ⟨rfl, rfl⟩ | ⟨opening, inner, closing, rfl, hbrackets, hsplit⟩ := hargs
  · exact .marks hmarks
  · obtain ⟨-, h⟩ | ⟨-, positional, key, equals, named, rfl, hkey, hequals, h, h'⟩ := hsplit
    · simpa using (Accounts.marks hmarks).append (.brackets hbrackets h)
    · simpa using Accounts.test his hnegation hname hbrackets h hkey hequals h'

/-- The tokens of a primary expression, which is a symbol only when they are that symbol. -/
def IsPrimary (tokens : List Token) (node : Node) : Prop :=
  Accounts tokens node.account ∧ ∀ pos name, node = .symbol pos name →
    ∃ token : Token, tokens = [token] ∧ token.kind = .symbol ∧ token.pos = pos ∧ token.value = name

theorem IsPrimary.of_category {tokens : List Token} {node : Node} (h : Accounts tokens node.account)
    (hsymbol : node.category ≠ .symbol) : IsPrimary tokens node := by
  refine ⟨h, ?_⟩
  rintro _ _ rfl
  exact absurd rfl hsymbol

/-- The parsers of what is nested balance. -/
structure Nested.Balances (nested : Nested) : Prop where
  expression : (nested .expression).Balances account
  primary : (nested .primary).Consumes (fun _ => True) fun consumed node _ => IsPrimary consumed node

theorem balances_filterName : filterName.Balances fun _ => 0 := by
  have hstep (before : List Token) (name : String) (h : Accounts before 0) :
      (do
        if ← skipOperator "." then return .more (name ++ "." ++ (← expectSymbol "filter name"))
        return .done name : Parser (Step String String)).Consumes (fun _ => True)
        fun consumed result _ =>
          result.Keeps (fun _ => Accounts (before ++ consumed) 0)
            fun _ => Accounts (before ++ consumed) 0 := by
    refine consumes_skipOperator.bind_of fun _ skipped _ hskipped => ?_
    obtain ⟨rfl, dot, rfl, hdot⟩ | ⟨rfl, rfl, -⟩ := hskipped
    · refine consumes_expectSymbol.bind fun _ name => consumes_pure fun _ hname => ?_
      obtain ⟨token, rfl, htoken, -⟩ := hname
      simpa [Step.Keeps] using h.append (.part hdot htoken)
    · exact consumes_pure fun _ _ => by simpa [Step.Keeps] using h
  refine consumes_expectSymbol.bind_of fun _ first _ hfirst => ?_
  obtain ⟨token, rfl, htoken, -⟩ := hfirst
  refine (consumes_iterate (Q := fun consumed _ _ => Accounts consumed 0) hstep .nil).mono
    (fun _ h => h) fun consumed _ _ h => ?_
  exact .cons_mark (Token.isMark_of_symbol htoken) h

theorem account_applyUnary (ops : List (Position × UnaryOp)) (node : Node) :
    (applyUnary ops node).account = node.account := by
  induction ops with
  | nil => rfl
  | cons op ops ih => exact account_eq rfl (by simpa [children, applyUnary] using ih)

section Operators

variable {α : Type} {H : TokenStream → Prop} {m : Multiset Leaf}

theorem adds_skipOneOf {operators : List (String × α)} (h : ∀ entry ∈ operators, entry.1 ≠ ".") :
    (skipOneOf operators).Consumes H (Adds m fun _ => m) := by
  intro s op t hlast _ hp
  unfold skipOneOf at hp
  split at hp <;> cases hp
  · next entry hfind =>
    have hop : s.head.isOperator entry.1 = true := by
      simpa using List.find?_some hfind
    have hmark : s.head.isMark = true :=
      Token.isMark_of_isOperator (h _ (List.mem_of_find?_eq_some hfind)) hop
    exact ⟨[s.head], TokenStream.eq_after_head hlast (ne_eof_of_isMark hmark), 0, .mark hmark,
      (add_zero m).symm⟩
  · exact ⟨[], rfl, 0, .nil, (add_zero m).symm⟩

theorem adds_wordOperator {word : String} {op : α} :
    (wordOperator word op).Consumes H (Adds m fun _ => m) := by
  refine adds_skipSymbol.adds_bind fun skipped => ?_
  split <;> exact adds_pure rfl

theorem adds_membershipOperator : membershipOperator.Consumes H (Adds m fun _ => m) := by
  refine adds_peek fun s _ => adds_peekSecond fun t ht => ?_
  subst ht
  split
  · next hwords =>
    obtain ⟨hnot, hin⟩ := Bool.and_eq_true_iff.mp hwords
    have hnot' := Token.isMark_of_isSymbol hnot
    have hin' := Token.isMark_of_isSymbol hin
    refine (consumes_next (by rintro _ rfl; exact ne_eof_of_isMark hnot')).bind_of fun _ _ _ hnext => ?_
    obtain ⟨rfl, s, rfl, rfl, rfl⟩ := hnext
    refine (consumes_next (by rintro _ rfl; exact ne_eof_of_isMark hin')).bind_of fun _ _ _ hnext => ?_
    obtain ⟨rfl, s', rfl, rfl, rfl⟩ := hnext
    refine consumes_pure fun _ _ => ⟨0, .marks ?_, (add_zero m).symm⟩
    simpa using ⟨hnot', hin'⟩
  · refine adds_skipSymbol.adds_bind fun skipped => ?_
    split <;> exact adds_pure rfl

theorem adds_unaryOperators {one : Parser (Option UnaryOp)}
    (h : ∀ m, one.Consumes (fun _ => True) (Adds m fun _ => m)) :
    (unaryOperators one).Consumes H (Adds m fun _ => m) := by
  refine adds_iterate (f := fun _ => m) fun ops => adds_peek fun s _ => ?_
  refine (h m).anywhere.adds_bind fun op => ?_
  split <;> exact adds_pure rfl

theorem balances_leftChain {operator : Parser (Option BinaryOp)} {operand : Parser Node}
    (hoperator : ∀ m, operator.Consumes (fun _ => True) (Adds m fun _ => m))
    (hoperand : operand.Balances account) : (leftChain operator operand).Balances account := by
  refine balances_of_adds (hoperand.adds.adds_bind fun first => ?_)
  rw [zero_add]
  refine adds_iterate fun left => (hoperator _).adds_bind fun op => ?_
  split
  · exact hoperand.adds.adds_bind fun right => adds_pure (account_eq rfl (by simp [children]))
  · exact adds_pure rfl

end Operators

section

variable {nested : Nested} (hnested : nested.Balances) {H : TokenStream → Prop}
include hnested

theorem isSplit_argument {args : Arguments} {before : List Token} (h : args.IsSplit before) :
    (argument nested args).Consumes H fun consumed args' _ => args'.IsSplit (before ++ consumed) := by
  refine consumes_peek.bind_of fun _ _ s hpeek => ?_
  obtain ⟨rfl, rfl, -⟩ := hpeek
  refine consumes_peekSecond.bind_of fun _ _ t hpeek => ?_
  obtain ⟨rfl, rfl, rfl⟩ := hpeek
  split
  · next hnamed =>
    obtain ⟨hkey, hequals⟩ : t.head.kind = .symbol ∧ t.second.isOperator "=" = true := by
      simpa using hnamed
    have heof : t.tail.head.kind ≠ .eof := ne_eof_of_isMark (Token.isMark_of_isOperator (by decide) hequals)
    refine (consumes_next (by rintro _ rfl; simp [hkey])).bind_of fun _ _ _ hnext => ?_
    obtain ⟨rfl, s, rfl, rfl, rfl⟩ := hnext
    refine (consumes_next (by rintro _ rfl; exact heof)).bind_of fun _ _ _ hnext => ?_
    obtain ⟨rfl, s', rfl, rfl, rfl⟩ := hnext
    refine hnested.expression.anywhere.bind fun consumed value => consumes_pure fun _ hvalue => ?_
    have hentry : Accounts (s.head :: s.tail.head :: consumed) value.account :=
      .cons_mark (Token.isMark_of_symbol hkey)
        (.cons_mark (Token.isMark_of_isOperator (by decide) hequals) hvalue)
    refine .inr ⟨by simp, ?_⟩
    obtain ⟨hkeyword, h⟩ | ⟨-, positional, key, equals, named, rfl, hkey', hequals', h, h'⟩ := h
    · exact ⟨before, s.head, s.tail.head, consumed, by simp, hkey, hequals, h,
        by simpa [hkeyword] using hvalue⟩
    · refine ⟨positional, key, equals, named ++ s.head :: s.tail.head :: consumed, by simp, hkey',
        hequals', h, ?_⟩
      simpa using h'.append hentry
  · cases hempty : args.keyword.isEmpty with
    | false =>
      exact (consumes_fail _).bind_false
    | true =>
      refine hnested.expression.anywhere.bind fun consumed value => consumes_pure fun _ hvalue => ?_
      obtain ⟨hkeyword, h⟩ | ⟨hkeyword, -⟩ := h
      · exact .inl ⟨hkeyword, by simpa using h.append hvalue⟩
      · exact absurd (List.isEmpty_iff.mp hempty) hkeyword

omit hnested in
theorem Arguments.isSplit_empty : Arguments.IsSplit {} [] :=
  .inl ⟨rfl, .nil⟩

theorem isEnclosed_callArguments :
    (callArguments nested).Consumes H fun consumed args _ => args.IsEnclosed consumed := by
  refine (consumes_expect (by decide)).bind_of fun _ opening _ hopening => ?_
  obtain ⟨rfl, hopening⟩ := hopening
  refine (consumes_commaSeparated (I := fun tokens args => Arguments.IsSplit args tokens) (by decide)
    (fun _ _ token hcomma h => h.append_mark (Token.isMark_of_kind (by decide) hcomma))
    (fun _ _ h => isSplit_argument hnested h) Arguments.isSplit_empty).mono (fun _ h => h)
    fun consumed args _ hargs => ?_
  obtain ⟨inner, closing, rfl, hclosing, h⟩ := hargs
  exact ⟨opening, inner, closing, rfl, by simp [Token.AreBrackets, hopening, hclosing], h⟩

theorem consumes_optionalArguments :
    (optionalArguments nested).Consumes H fun consumed args _ =>
      (consumed = [] ∧ args = {}) ∨ args.IsEnclosed consumed := by
  refine consumes_peek.bind_of fun _ _ s hpeek => ?_
  obtain ⟨rfl, rfl, -⟩ := hpeek
  split
  · exact (isEnclosed_callArguments hnested).mono (fun _ h => h) fun _ _ _ h => .inr h
  · exact consumes_pure fun _ _ => .inl ⟨rfl, rfl⟩

theorem balances_optionalArguments : (optionalArguments nested).Balances Arguments.account :=
  (consumes_optionalArguments hnested).mono (fun _ h => h) fun consumed args _ h => by
    obtain ⟨rfl, rfl⟩ | h := h
    · exact .nil
    · exact h.accounts

theorem consumes_arrayItems {items : List Node} {close : TokenKind} {what : String}
    {isFirst : List Node → Bool} (hclose : close ≠ .eof) :
    (arrayItems nested close what isFirst items).Consumes H fun consumed items' _ =>
      ∃ inner token added, consumed = inner ++ [token] ∧ token.kind = close ∧
        Accounts inner added ∧ total items' = total items + added := by
  refine (consumes_commaSeparated (I := fun inner items' => ∃ added, Accounts inner added ∧
    total items' = total items + added) hclose (fun _ _ token hcomma h => ?_)
    (fun before items' h => ?_) ⟨0, .nil, by simp⟩).mono (fun _ h => h) fun consumed items' _ h => ?_
  · obtain ⟨added, h, htotal⟩ := h
    exact ⟨added, h.append_mark (Token.isMark_of_kind (by decide) hcomma), htotal⟩
  · obtain ⟨added, h, htotal⟩ := h
    refine hnested.expression.anywhere.bind fun consumed node => consumes_pure fun _ hnode => ?_
    exact ⟨_, h.append (by simpa using hnode), by simp [htotal, add_assoc]⟩
  · obtain ⟨inner, token, rfl, htoken, added, h, htotal⟩ := h
    exact ⟨inner, token, added, rfl, htoken, h, htotal⟩

theorem balances_parenthesized {opening : Token} (hopening : opening.kind = .leftParen)
    {pos : Position} : (parenthesized nested pos).Consumes H fun consumed node _ =>
      Accounts (opening :: consumed) node.account ∧ node.category ≠ .symbol := by
  have hbrackets (inner : List Token) (closing : Token) (m : Multiset Leaf)
      (hclosing : closing.kind = .rightParen) (h : Accounts inner m) :
      Accounts (opening :: (inner ++ [closing])) m :=
    .brackets (by simp [Token.AreBrackets, hopening, hclosing]) h
  refine (consumes_skipKind (by decide)).bind_of fun _ closes _ hcloses => ?_
  obtain ⟨rfl, closing, rfl, hclosing⟩ | ⟨rfl, rfl, -⟩ := hcloses
  · exact consumes_pure fun _ _ => ⟨hbrackets [] closing 0 hclosing .nil, by simp [category]⟩
  · refine hnested.expression.anywhere.bind_of fun consumed first _ hfirst => ?_
    refine (consumes_skipKind (by decide)).bind_of fun _ closes _ hcloses => ?_
    obtain ⟨rfl, closing, rfl, hclosing⟩ | ⟨rfl, rfl, -⟩ := hcloses
    · refine consumes_pure fun _ _ => ⟨?_, by simp [category]⟩
      have hgroup : (group pos first).account = first.account := account_eq rfl (by simp [children])
      rw [hgroup, List.append_nil]
      exact hbrackets consumed closing _ hclosing hfirst
    · refine (consumes_arrayItems hnested (by decide)).bind fun _ items =>
        consumes_pure fun _ hitems => ⟨?_, by simp [category]⟩
      obtain ⟨inner, closing, added, rfl, hclosing, h, htotal⟩ := hitems
      have harray : (array pos items).account = first.account + added :=
        account_eq rfl (by simp [children, htotal])
      rw [harray]
      simpa using hbrackets _ closing _ hclosing (hfirst.append h)

/-- The literals of the entries of a dictionary. -/
def totalEntries (entries : List (Node × Node)) : Multiset Leaf :=
  total (entries.flatMap fun entry => [entry.1, entry.2])

theorem consumes_dictEntry {entries : List (Node × Node)} :
    (dictEntry nested entries).Consumes H fun consumed entries' _ =>
      ∃ added, Accounts consumed added ∧ totalEntries entries' = totalEntries entries + added := by
  refine hnested.primary.anywhere.bind_of fun tokens key _ hkey => ?_
  refine (consumes_expect (by decide)).bind_of fun _ colon _ hcolon => ?_
  obtain ⟨rfl, hcolon⟩ := hcolon
  refine hnested.expression.anywhere.bind fun later value => consumes_pure fun _ hvalue => ?_
  have hentry : Accounts (tokens ++ [colon]) (dictKey key).account := by
    obtain ⟨hkey, hsymbol⟩ := hkey
    unfold dictKey
    split
    · obtain ⟨token, rfl, hkind, rfl, rfl⟩ := hsymbol _ _ rfl
      exact .key hkind hcolon
    · exact hkey.append_mark (Token.isMark_of_kind (by decide) hcolon)
  exact ⟨_, by simpa using hentry.append hvalue, by simp [totalEntries]⟩

omit hnested in
theorem isPrimary_symbolNode {token : Token} (h : token.kind = .symbol) :
    IsPrimary [token] (symbolNode token.pos token.value) := by
  unfold symbolNode
  split
  · next hname => exact .of_category (.literal (.true h hname)) (by simp [category])
  · split
    · next hname => exact .of_category (.literal (.false h hname)) (by simp [category])
    · split
      · next hname => exact .of_category (.literal (.none h hname)) (by simp [category])
      · refine ⟨.mark (Token.isMark_of_symbol h), ?_⟩
        rintro _ _ ⟨⟩
        exact ⟨token, rfl, h, rfl, rfl⟩

theorem isPrimary_atom : (atom nested).Consumes H fun consumed node _ => IsPrimary consumed node := by
  refine consumes_next_or_stay.bind_of fun consumed token _ htoken => ?_
  have hconsumed (h : token.kind ≠ .eof) : consumed = [token] := htoken.resolve_left h
  split
  · next hkind =>
    obtain rfl := hconsumed (by simp [hkind])
    exact consumes_pure fun _ _ => .of_category (.literal (.str hkind)) (by simp [category])
  · next hkind =>
    obtain rfl := hconsumed (by simp [hkind])
    split
    · next value hvalue =>
      split
      · exact consumes_pure fun _ _ => .of_category (.literal (.int hkind hvalue)) (by simp [category])
      · exact consumes_failAt _ _
    · exact consumes_failAt _ _
  · next hkind =>
    obtain rfl := hconsumed (by simp [hkind])
    split
    · next value hvalue =>
      exact consumes_pure fun _ _ =>
        .of_category (.literal (.float hkind hvalue)) (by simp [category])
    · exact consumes_failAt _ _
  · next hkind =>
    obtain rfl := hconsumed (by simp [hkind])
    exact consumes_pure fun _ _ => isPrimary_symbolNode hkind
  · next hkind =>
    obtain rfl := hconsumed (by simp [hkind])
    refine (balances_parenthesized hnested hkind).mono (fun _ h => h) fun _ node _ h => ?_
    exact .of_category h.1 h.2
  · next hkind =>
    obtain rfl := hconsumed (by simp [hkind])
    refine (consumes_arrayItems hnested (by decide)).bind fun _ items =>
      consumes_pure fun _ hitems => .of_category ?_ (by simp [category])
    obtain ⟨inner, closing, added, rfl, hclosing, h, htotal⟩ := hitems
    have hbrackets : token.AreBrackets closing := by
      simp [Token.AreBrackets, hkind, hclosing]
    have harray : (array token.pos items).account = added :=
      account_eq rfl (by simp [children, htotal])
    rw [harray, List.append_nil]
    exact .brackets hbrackets h
  · next hkind =>
    obtain rfl := hconsumed (by simp [hkind])
    refine (consumes_commaSeparated (I := fun inner entries => Accounts inner (totalEntries entries))
      (by decide) (fun _ _ token hcomma h => h.append_mark (Token.isMark_of_kind (by decide) hcomma))
      (fun before entries h => ?_) (show Accounts [] (totalEntries []) from .nil)).bind
        fun _ entries => consumes_pure fun _ hentries => .of_category ?_ (by simp [category])
    · refine (consumes_dictEntry hnested).mono (fun _ h => h) fun consumed entries' _ h' => ?_
      obtain ⟨added, h', htotal⟩ := h'
      exact htotal ▸ h.append h'
    · obtain ⟨inner, closing, rfl, hclosing, h⟩ := hentries
      have hbrackets : token.AreBrackets closing := by
        simp [Token.AreBrackets, hkind, hclosing]
      have hdict : (dict token.pos entries).account = totalEntries entries := account_eq rfl rfl
      rw [hdict, List.append_nil]
      exact .brackets hbrackets h
  · exact consumes_failAt _ _

/-- An accessor makes a node that is no symbol, and without one nothing is taken. -/
theorem consumes_accessor {node : Node} :
    (accessor nested node).Consumes H fun consumed result _ =>
      result.Keeps
        (fun node' => (∃ added, Accounts consumed added ∧ node'.account = node.account + added) ∧
          node'.category ≠ .symbol)
        fun node' => consumed = [] ∧ node' = node := by
  refine consumes_peek.bind_of fun _ token s hpeek => ?_
  obtain ⟨rfl, rfl, -⟩ := hpeek
  split
  · refine (isEnclosed_callArguments hnested).bind fun consumed args =>
      consumes_pure fun _ hargs => ⟨?_, by simp [category]⟩
    exact ⟨_, by simpa using hargs.accounts, account_eq rfl (by simp [children, Arguments.account])⟩
  · split
    · next hkind =>
      refine (consumes_next (by rintro _ rfl; simp [hkind])).bind_of fun _ opening _ hopening => ?_
      obtain ⟨rfl, s, rfl, rfl, -⟩ := hopening
      refine hnested.expression.anywhere.bind_of fun inner key _ hkey => ?_
      refine (consumes_expect (by decide)).bind fun _ closing =>
        consumes_pure fun _ hclosing => ⟨?_, by simp [category]⟩
      obtain ⟨rfl, hclosing⟩ := hclosing
      have hbrackets : s.head.AreBrackets closing := by
        simp [Token.AreBrackets, hkind, hclosing]
      exact ⟨_, by simpa using Accounts.brackets hbrackets hkey, account_eq rfl (by simp [children])⟩
    · split
      · next hdot =>
        have heof : s.head.kind ≠ .eof := by
          simp [(Prod.mk.inj (Token.isOperator_iff.mp hdot)).1]
        refine (consumes_next (by rintro _ rfl; exact heof)).bind_of fun _ dot _ hnext => ?_
        obtain ⟨rfl, _, rfl, rfl, -⟩ := hnext
        refine consumes_next_or_stay.bind_of fun consumed key _ hconsumed => ?_
        cases hkey : decide (key.kind = .symbol) || decide (key.kind = .int) with
        | false => exact (consumes_failAt _ _).bind_false
        | true =>
          have hkey : key.kind = .symbol ∨ key.kind = .int := by
            simpa using hkey
          obtain rfl := hconsumed.resolve_left (by rintro h; simp [h] at hkey)
          refine consumes_pure fun _ _ => ⟨?_, by simp [category]⟩
          exact ⟨_, by simpa using Accounts.point hdot hkey, account_eq rfl (by simp [children])⟩
      · exact consumes_pure fun _ _ => ⟨rfl, rfl⟩

theorem isPrimary_primaryOver :
    (primaryOver nested).Consumes H fun consumed node _ => IsPrimary consumed node := by
  refine (isPrimary_atom hnested).bind_of fun first node _ hnode => ?_
  refine (consumes_iterate (I := fun before node => IsPrimary (first ++ before) node)
    (fun before node h => ?_) (by simpa using hnode)).mono (fun _ h => h) fun _ _ _ h => h
  refine (consumes_accessor hnested).mono (fun _ h => h) fun consumed result _ hresult => ?_
  cases result with
  | more node' =>
    obtain ⟨⟨added, hadded, haccount⟩, hsymbol⟩ := hresult
    refine .of_category ?_ hsymbol
    rw [haccount, ← List.append_assoc]
    exact h.1.append hadded
  | done node' =>
    obtain ⟨rfl, rfl⟩ := hresult
    rw [List.append_nil]
    exact h

theorem adds_filters {node : Node} :
    (filters nested node).Consumes H (Adds node.account account) := by
  refine adds_iterate fun node => (adds_skipKind (by decide)).adds_bind fun skipped => ?_
  split
  · refine adds_peek fun s _ => balances_filterName.adds.adds_bind fun name => ?_
    refine (balances_optionalArguments hnested).adds.adds_bind fun args => adds_pure ?_
    exact account_eq rfl (by simp [children, Arguments.account])
  · exact adds_pure rfl

theorem balances_signed : (signed nested).Balances account := by
  have hprimary : (primaryOver nested).Balances account :=
    (isPrimary_primaryOver hnested).mono (fun _ h => h) fun _ _ _ h => h.1
  refine balances_of_adds ((adds_unaryOperators fun _ => adds_skipOneOf (by decide)).adds_bind fun ops => ?_)
  refine hprimary.adds.adds_bind fun node => ?_
  rw [zero_add]
  exact (adds_filters hnested).adds_bind fun node => adds_pure (account_applyUnary ops node)

theorem balances_power : (power nested).Balances account :=
  balances_leftChain (fun _ => adds_skipOneOf (by decide)) (balances_signed hnested)

theorem balances_product : (product nested).Balances account :=
  balances_leftChain (fun _ => adds_skipOneOf (by decide)) (balances_power hnested)

theorem balances_sum : (sum nested).Balances account :=
  balances_leftChain (fun _ => adds_skipOneOf (by decide)) (balances_product hnested)

theorem balances_concatenation : (concatenation nested).Balances account :=
  balances_leftChain (fun _ => adds_skipOneOf (by decide)) (balances_sum hnested)

theorem balances_comparison : (comparison nested).Balances account := by
  refine balances_of_adds ((balances_concatenation hnested).adds.adds_bind fun first => ?_)
  let f (rest : List (CompareOp × Node)) : Multiset Leaf := first.account + total (rest.map (·.2))
  refine Consumes.adds_bind (f := f) ?_ fun rest => ?_
  · rw [show 0 + first.account = f [] by simp [f]]
    refine adds_iterate fun rest => (adds_skipOneOf (by decide)).adds_bind fun op => ?_
    split
    · exact (balances_concatenation hnested).adds.adds_bind fun operand =>
        adds_pure (by simp [Step.account, f, add_assoc])
    · exact adds_pure rfl
  · split
    · next hempty => exact adds_pure (by simp [f, List.isEmpty_iff.mp hempty])
    · exact adds_pure (account_eq rfl (by simp [children, f]))

theorem balances_tested : (tested nested).Balances account := by
  refine (balances_comparison hnested).bind_of fun before node _ hnode => ?_
  refine consumes_skipSymbol.bind_of fun _ isTest _ his => ?_
  obtain ⟨rfl, is, rfl, his⟩ | ⟨rfl, rfl, -⟩ := his
  · refine consumes_skipSymbol.bind_of fun negation negated _ hnegated => ?_
    refine consumes_expectSymbol.bind_of fun _ name _ hname => ?_
    obtain ⟨name, rfl, hname, rfl⟩ := hname
    refine (consumes_optionalArguments hnested).bind fun consumed args => consumes_pure fun _ hargs => ?_
    have hnegation : ∀ token ∈ negation, token.isSymbol "not" = true := by
      obtain ⟨-, token, rfl, htoken⟩ | ⟨-, rfl, -⟩ := hnegated
      · exact List.forall_mem_singleton.mpr htoken
      · exact List.forall_mem_nil _
    have haccount : (test node.pos node name.value args.positional negated).account =
        node.account + total args.positional := account_eq rfl (by simp [children])
    rw [haccount]
    simpa using hnode.append (accounts_test his hnegation hname hargs)
  · exact consumes_pure fun _ _ => by simpa using hnode

theorem balances_membership : (membership nested).Balances account :=
  balances_leftChain (fun _ => adds_membershipOperator) (balances_tested hnested)

theorem balances_negation : (negation nested).Balances account := by
  refine balances_of_adds ((adds_unaryOperators fun _ => adds_wordOperator).adds_bind fun ops => ?_)
  refine (balances_membership hnested).adds.adds_bind fun node => adds_pure ?_
  rw [zero_add, account_applyUnary]

theorem balances_conjunction : (conjunction nested).Balances account :=
  balances_leftChain (fun _ => adds_wordOperator) (balances_negation hnested)

theorem balances_disjunction : (disjunction nested).Balances account :=
  balances_leftChain (fun _ => adds_wordOperator) (balances_conjunction hnested)

theorem balances_expressionOver : (expressionOver nested).Balances account := by
  refine balances_of_adds ((balances_disjunction hnested).adds.adds_bind fun body => ?_)
  refine adds_skipSymbol.adds_bind fun isInline => ?_
  split
  · refine (balances_disjunction hnested).adds.adds_bind fun cond => ?_
    refine adds_skipSymbol.adds_bind fun hasElse => ?_
    split
    · refine (balances_disjunction hnested).adds.adds_bind fun otherwise => adds_pure ?_
      exact account_eq rfl (by simp [children]; abel)
    · exact adds_pure (account_eq rfl (by simp [children]; abel))
  · exact adds_pure (zero_add _).symm

end

theorem balances_nestedTo (depth : Nat) : (nestedTo depth).Balances := by
  induction depth with
  | zero => exact ⟨consumes_fail _, consumes_fail _⟩
  | succ depth ih => exact ⟨balances_expressionOver ih, isPrimary_primaryOver ih⟩

theorem balances_nested : nested.Balances :=
  ⟨fun s => (balances_nestedTo (s.pending.length + 1)).expression s,
    fun s => (balances_nestedTo (s.pending.length + 1)).primary s⟩

end Expression

/-- What the parser of expressions takes spells the literals of the expression. -/
theorem Parser.balances_expression : Parser.expression.Balances Node.account :=
  Expression.balances_nested.expression

end TemplateManifest
