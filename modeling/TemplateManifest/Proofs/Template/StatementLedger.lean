import Mathlib.Data.List.TakeWhile
import TemplateManifest.Proofs.Steps
import TemplateManifest.Proofs.Template.ExpressionLedger
import TemplateManifest.Proofs.Template.StatementGrammar

/-!
Templates balance: the tokens of a source spell the literals of its syntax tree, but for the named
arguments of tests.
-/

namespace TemplateManifest

namespace Statement

open TemplateManifest.Parser Node

section

variable {H : TokenStream → Prop} {m : Multiset Leaf}

theorem adds_closeTag {name : String} : (closeTag name).Consumes H (Adds m fun _ => m) :=
  adds_skipSymbol.adds_bind fun _ =>
    (adds_expect (by decide)).adds_bind fun _ => adds_pure rfl

theorem adds_expectKeyword {keyword : String} :
    (expectKeyword keyword).Consumes H (Adds m fun _ => m) := by
  refine adds_skipSymbol.adds_bind fun skipped => ?_
  split
  · exact adds_pure rfl
  · exact adds_peek fun s _ => consumes_fail _

theorem adds_names {what : String} : (names what).Consumes H (Adds m fun _ => m) := by
  refine adds_expectSymbol.adds_bind fun first => adds_iterate (f := fun _ => m) fun names => ?_
  refine (adds_skipKind (by decide)).adds_bind fun skipped => ?_
  split
  · exact adds_expectSymbol.adds_bind fun _ => adds_pure rfl
  · exact adds_pure rfl

theorem adds_withContext : withContext.Consumes H (Adds m fun _ => m) := by
  refine adds_skipSymbol.adds_bind fun skipped => ?_
  split
  · exact adds_expectKeyword.adds_bind fun _ => adds_pure rfl
  · refine adds_skipSymbol.adds_bind fun skipped => ?_
    split
    · exact adds_expectKeyword.adds_bind fun _ => adds_pure rfl
    · exact adds_pure rfl

/-- The literals of the defaults of parameters. -/
def totalDefaults (params : List (String × Option Node)) : Multiset Leaf :=
  total (params.filterMap (·.2))

theorem adds_parameter {params : List (String × Option Node)} :
    (parameter params).Consumes H (Adds (totalDefaults params) totalDefaults) := by
  refine adds_expectSymbol.adds_bind fun name => ?_
  refine (adds_skipOperator (by decide)).adds_bind fun hasDefault => ?_
  split
  · exact balances_expression.adds.adds_bind fun default => adds_pure (by simp [totalDefaults])
  · exact adds_pure (by simp [totalDefaults])

theorem balances_parameters : parameters.Balances totalDefaults := by
  refine (consumes_expect (by decide)).bind_of fun _ opening _ hopening => ?_
  obtain ⟨rfl, hopening⟩ := hopening
  refine (consumes_commaSeparated (I := fun inner params => Accounts inner (totalDefaults params))
    (by decide) (fun _ _ token hcomma h => h.append_mark (Token.isMark_of_kind (by decide) hcomma))
    (fun before params h => ?_) (show Accounts [] (totalDefaults []) from .nil)).mono (fun _ h => h)
    fun consumed params _ h => ?_
  · refine adds_parameter.mono (fun _ h => h) fun consumed params' _ hadds => ?_
    obtain ⟨added, hadded, htotal⟩ := hadds
    exact htotal ▸ h.append hadded
  · obtain ⟨inner, closing, rfl, hclosing, h⟩ := h
    exact .brackets (by simp [Token.AreBrackets, hopening, hclosing]) h

theorem balances_signature : (signature true).Balances Expression.Arguments.account := by
  have hnested := Expression.balances_nested
  refine consumes_peek.bind_of fun _ _ s hpeek => ?_
  obtain ⟨rfl, rfl, -⟩ := hpeek
  split
  · exact (Expression.isEnclosed_callArguments hnested).mono (fun _ h => h) fun _ _ _ h => h.accounts
  · refine (consumes_iterate (I := fun consumed args => Expression.Arguments.IsSplit args consumed)
      (Q := fun consumed args _ => args.IsSplit consumed) (fun before args hargs => ?_)
      Expression.Arguments.isSplit_empty).mono (fun _ h => h) fun _ _ _ h => h.accounts
    refine consumes_peek.bind_of fun _ _ s hpeek => ?_
    obtain ⟨rfl, rfl, -⟩ := hpeek
    have hmore (before : List Token) (h : args.IsSplit before) :
        (do return Step.more (← Expression.argument Expression.nested args) :
          Parser (Step Expression.Arguments Expression.Arguments)).Consumes (fun _ => True)
          fun consumed result _ => result.Keeps (fun args => args.IsSplit (before ++ consumed))
            fun args => args.IsSplit (before ++ consumed) :=
      (Expression.isSplit_argument hnested h).bind fun consumed args' => consumes_pure fun _ h => by
        rw [List.append_nil]
        exact h
    split
    · exact consumes_pure fun _ _ => by simpa [Step.Keeps] using hargs
    · cases Expression.Arguments.isEmpty args with
      | true => exact (hmore before hargs).anywhere
      | false =>
        refine (consumes_expect (by decide)).bind_of fun _ comma _ hcomma => ?_
        obtain ⟨rfl, hcomma⟩ := hcomma
        have hmark : comma.isMark = true := Token.isMark_of_kind (by decide) hcomma
        have h := hmore _ (hargs.append_mark hmark)
        simpa using h.anywhere

end

theorem adds_optionalParameters {α : Type} {H : TokenStream → Prop} {m : Multiset Leaf}
    {g : α → Multiset Leaf} {condition : Prop} [Decidable condition]
    {next : List (String × Option Node) → Parser α}
    (hnext : ∀ params, (next params).Consumes (fun _ => True) (Adds (m + totalDefaults params) g)) :
    (if condition then parameters >>= next else pure [] >>= next).Consumes H (Adds m g) := by
  split
  · exact balances_parameters.adds.adds_bind hnext
  · exact (adds_pure (by simp [totalDefaults])).adds_bind hnext

/-- The statement, which starts with its name, balances. -/
def Balances (p : Parser Node) : Prop :=
  p.Consumes (fun s => s.head.kind = .symbol) (Adds 0 account)

/-- The parsers of bodies balance, and they stop at the name of a closing tag or at the end of the
    source. -/
def Bodies.Balance (bodies : Bodies) : Prop :=
  ∀ stop, (bodies stop).Consumes (fun _ => True) fun consumed nodes t =>
    Accounts consumed (total nodes) ∧ t.head.kind = if stop = [] then .eof else .symbol

section

variable {bodies : Bodies} (hbodies : bodies.Balance)
include hbodies

theorem Bodies.Balance.adds_bind {α : Type} {H : TokenStream → Prop} {m : Multiset Leaf}
    {g : α → Multiset Leaf} {stop : List String} {next : List Node → Parser α} (hstop : stop ≠ [])
    (hnext : ∀ nodes, (next nodes).Consumes (fun s => s.head.kind = .symbol) (Adds (m + total nodes) g)) :
    (bodies stop >>= next).Consumes H (Adds m g) := by
  refine (hbodies stop).anywhere.bind_of fun consumed nodes t hnodes => ?_
  obtain ⟨hconsumed, hhead⟩ := hnodes
  rw [if_neg hstop] at hhead
  refine (hnext nodes).mono (by rintro _ rfl; exact hhead) fun later a _ hlater => ?_
  obtain ⟨added, hlater, hg⟩ := hlater
  exact ⟨_, hconsumed.append hlater, by rw [hg, add_assoc]⟩

omit hbodies in
theorem adds_keyword {α : Type} {m : Multiset Leaf} {g : α → Multiset Leaf} {next' : Token → Parser α}
    (h : ∀ token, (next' token).Consumes (fun _ => True) (Adds m g)) :
    (next >>= next').Consumes (fun s => s.head.kind = .symbol) (Adds m g) :=
  (adds_next fun _ h => Token.isMark_of_symbol h).adds_bind h

theorem balances_loop : Balances (loop bodies) := by
  refine adds_keyword fun token => adds_names.adds_bind fun targets => ?_
  refine adds_expectKeyword.adds_bind fun _ => balances_expression.adds.adds_bind fun iterated => ?_
  refine adds_closeTag.adds_bind fun _ => hbodies.adds_bind (by simp) fun body => ?_
  refine adds_skipSymbol.adds_bind fun hasElse => ?_
  split
  · refine adds_closeTag.adds_bind fun _ => hbodies.adds_bind (by simp) fun otherwise => ?_
    exact adds_closeTag.adds_bind fun _ => adds_pure (account_eq rfl (by simp [children, add_assoc]))
  · exact adds_closeTag.adds_bind fun _ => adds_pure (account_eq rfl (by simp [children]))

theorem balances_assignment : Balances (assignment bodies) := by
  refine adds_keyword fun token => adds_names.adds_bind fun targets => ?_
  refine (adds_skipOperator (by decide)).adds_bind fun hasValue => ?_
  split
  · refine balances_expression.adds.adds_bind fun value => adds_closeTag.adds_bind fun _ => ?_
    exact adds_pure (account_eq rfl (by simp [children]))
  · refine adds_closeTag.adds_bind fun _ => hbodies.adds_bind (by simp) fun body => ?_
    refine adds_closeTag.adds_bind fun _ => adds_pure (account_eq rfl ?_)
    simpa [children] using account_eq rfl rfl

theorem balances_block : Balances (block bodies) := by
  refine adds_keyword fun token => adds_expectSymbol.adds_bind fun name => ?_
  refine adds_closeTag.adds_bind fun _ => hbodies.adds_bind (by simp) fun body => ?_
  refine adds_expectKeyword.adds_bind fun _ => adds_skipSymbol.adds_bind fun _ => ?_
  refine (adds_expect (by decide)).adds_bind fun _ => ?_
  exact adds_pure (account_eq rfl (by simp [children]))

theorem balances_macroDefinition : Balances (macroDefinition bodies) := by
  refine adds_keyword fun token => adds_expectSymbol.adds_bind fun name => ?_
  refine balances_parameters.adds.adds_bind fun params => adds_closeTag.adds_bind fun _ => ?_
  refine hbodies.adds_bind (by simp) fun body => adds_closeTag.adds_bind fun _ => ?_
  exact adds_pure (account_eq rfl (by simp [children, totalDefaults]))

/-- The literals of some branches. -/
def totalBranches (branches : List Branch) : Multiset Leaf :=
  (branches.map fun b => b.cond.account + total b.body).sum

omit hbodies in
theorem total_chain (branches : List Branch) (otherwise : List Node) :
    total (chain branches otherwise) = totalBranches branches + total otherwise := by
  induction branches with
  | nil => simp [chain, totalBranches]
  | cons b branches ih =>
    have hnode : (ifElse b.pos b.cond b.body (chain branches otherwise)).account =
        b.cond.account + total b.body + (totalBranches branches + total otherwise) :=
      account_eq rfl (by simp [children, ih, add_assoc])
    calc total (chain (b :: branches) otherwise)
      _ = (ifElse b.pos b.cond b.body (chain branches otherwise)).account + total [] :=
        total_cons _ _
      _ = totalBranches (b :: branches) + total otherwise := by
        rw [hnode]
        simp [totalBranches, add_assoc]

omit hbodies in
theorem account_conditionalNode {branches : List Branch} (otherwise : List Node)
    (h : branches ≠ []) :
    (conditionalNode branches otherwise).account = totalBranches branches + total otherwise := by
  rw [← total_chain]
  obtain ⟨b, branches, rfl⟩ := List.exists_cons_of_ne_nil h
  rfl

theorem balances_conditional : Balances (conditional bodies) := by
  refine adds_keyword fun first => ?_
  refine adds_iterate (f := fun state : List Branch × Token => totalBranches state.1) fun state => ?_
  obtain ⟨branches, keyword⟩ := state
  refine balances_expression.adds.adds_bind fun cond => adds_closeTag.adds_bind fun _ => ?_
  refine hbodies.adds_bind (by simp) fun body => adds_keyword fun closing => ?_
  have htotal : totalBranches (branches ++ [⟨keyword.pos, cond, body⟩]) =
      totalBranches branches + cond.account + total body := by
    simp [totalBranches, add_assoc]
  split
  · exact adds_pure htotal
  · split
    · refine adds_closeTag.adds_bind fun _ => hbodies.adds_bind (by simp) fun otherwise => ?_
      refine adds_closeTag.adds_bind fun _ => adds_pure ?_
      exact (account_conditionalNode otherwise (by simp)).trans (by rw [htotal])
    · refine adds_closeTag.adds_bind fun _ => adds_pure ?_
      exact (account_conditionalNode [] (by simp)).trans (by rw [htotal, total_nil, add_zero])

theorem balances_callBlock : Balances (callBlock bodies) := by
  refine adds_keyword fun token => adds_peek fun s _ => ?_
  refine adds_optionalParameters fun params => ?_
  refine balances_expression.adds.adds_bind fun called => adds_closeTag.adds_bind fun _ => ?_
  refine hbodies.adds_bind (by simp) fun body => adds_closeTag.adds_bind fun _ => ?_
  split
  · next pos callee args kwargs =>
    have hcalled : (call pos callee args kwargs).account =
        callee.account + (total args + total (kwargs.map (·.2))) := account_eq rfl (by simp [children])
    have hcaller : (callerBody token.pos params body).account = totalDefaults params + total body :=
      account_eq rfl (by simp [children, totalDefaults])
    have hcall (kwargs' : List (String × Node)) : (call pos callee args kwargs').account =
        callee.account + (total args + total (kwargs'.map (·.2))) := account_eq rfl (by simp [children])
    refine adds_pure (account_eq rfl ?_)
    simp [children, hcall, hcaller]
    abel
  · exact consumes_failAt _ _

theorem balances_filterBlock : Balances (filterBlock bodies) := by
  refine adds_keyword fun token => adds_peek fun s _ => ?_
  refine Expression.balances_filterName.adds.adds_bind fun name => ?_
  refine (Expression.balances_optionalArguments Expression.balances_nested).adds.adds_bind fun args => ?_
  refine adds_closeTag.adds_bind fun _ => hbodies.adds_bind (by simp) fun body => ?_
  have hcapture : (capture token.pos body).account = total body := account_eq rfl rfl
  have hfilter : (filter s.head.pos name (capture token.pos body) args.positional args.keyword).account =
      args.account + total body :=
    account_eq rfl (by simp [children, hcapture, Expression.Arguments.account]; abel)
  exact adds_closeTag.adds_bind fun _ => adds_pure (account_eq rfl (by simp [children, hfilter]))

omit hbodies in
theorem balances_parentTemplate : Balances parentTemplate := by
  refine adds_keyword fun token => balances_expression.adds.adds_bind fun template => ?_
  exact adds_closeTag.adds_bind fun _ => adds_pure (account_eq rfl (by simp [children]))

omit hbodies in
theorem balances_includedTemplate : Balances includedTemplate := by
  refine adds_keyword fun token => balances_expression.adds.adds_bind fun template => ?_
  refine adds_skipSymbol.adds_bind fun ignoreMissing => ?_
  split
  · refine adds_expectKeyword.adds_bind fun _ => adds_closeTag.adds_bind fun _ => ?_
    exact adds_pure (account_eq rfl (by simp [children]))
  · exact adds_closeTag.adds_bind fun _ => adds_pure (account_eq rfl (by simp [children]))

omit hbodies in
theorem balances_importedTemplate : Balances importedTemplate := by
  refine adds_keyword fun token => balances_expression.adds.adds_bind fun template => ?_
  refine adds_expectKeyword.adds_bind fun _ => adds_expectSymbol.adds_bind fun target => ?_
  refine adds_withContext.adds_bind fun context => adds_closeTag.adds_bind fun _ => ?_
  exact adds_pure (account_eq rfl (by simp [children]))

omit hbodies in
theorem balances_importedNames : Balances importedNames := by
  refine adds_keyword fun token => balances_expression.adds.adds_bind fun template => ?_
  refine adds_expectKeyword.adds_bind fun _ => ?_
  refine Consumes.adds_bind (f := fun _ => 0 + template.account)
    (adds_iterate (f := fun _ => 0 + template.account) fun names => ?_) fun form => ?_
  · refine adds_withContext.adds_bind fun context => ?_
    split
    · exact adds_pure rfl
    · refine adds_peek fun s _ => ?_
      split
      · split
        · exact (consumes_fail _).bind_false
        · exact adds_pure rfl
      · refine adds_unless (adds_expect (by decide)) ?_
        refine adds_expectSymbol.adds_bind fun name => adds_skipSymbol.adds_bind fun hasAlias => ?_
        split
        · exact adds_expectSymbol.adds_bind fun _ => adds_pure rfl
        · exact adds_pure rfl
  · exact adds_closeTag.adds_bind fun _ => adds_pure (account_eq rfl (by simp [children]))

theorem balances_standardTag (e : Extension) (hasBody : Bool) (identity : Identity) (isAsync : Bool) :
    Balances (standardTag bodies e hasBody identity isAsync) := by
  refine adds_keyword fun token => balances_signature.adds.adds_bind fun args => ?_
  refine adds_closeTag.adds_bind fun _ => ?_
  split
  · refine hbodies.adds_bind (by simp) fun body => adds_closeTag.adds_bind fun _ => ?_
    exact adds_pure (account_eq rfl (by simp [children, Expression.Arguments.account, add_assoc]))
  · exact adds_pure (account_eq rfl (by simp [children, Expression.Arguments.account]))

theorem balances_of_builtin? {name : String} {p : Parser Node} (h : builtin? bodies name = some p) :
    Balances p := by
  have hall : ∀ p ∈ builtins bodies, Balances p := by
    simp only [builtins, List.forall_mem_cons]
    exact ⟨balances_conditional hbodies, balances_loop hbodies, balances_assignment hbodies,
      balances_block hbodies, balances_macroDefinition hbodies, balances_callBlock hbodies,
      balances_filterBlock hbodies, balances_parentTemplate, balances_includedTemplate,
      balances_importedTemplate, balances_importedNames, List.forall_mem_nil _⟩
  exact hall p (mem_of_builtin? h)

end

theorem balances_customTag {bodies : Bodies} (hbodies : bodies.Balance) {e : Extension}
    (he : e.IsStandard) : Balances (customTag bodies e) := by
  obtain ⟨hasBody, identity, isAsync, hform⟩ := he
  rw [customTag, hform]
  exact balances_standardTag hbodies e hasBody identity isAsync

section

variable {env : Environment} (henv : ∀ e ∈ env.extensions, e.IsStandard)
include henv

section

variable {bodies : Bodies} (hbodies : bodies.Balance)
include hbodies

theorem balances_statementOver : (statementOver env bodies).Balances account := by
  refine balances_of_adds (adds_peek fun s _ => consumes_unless_fail fun hkind => ?_)
  split
  · next p hp =>
    exact (balances_of_builtin? hbodies hp).mono (by rintro _ rfl; exact hkind) fun _ _ _ h => h
  · split
    · next e he =>
      have hstandard := henv e (List.mem_of_find?_eq_some he)
      exact (balances_customTag hbodies hstandard).mono (by rintro _ rfl; exact hkind)
        fun _ _ _ h => h
    · exact consumes_failAt _ _

/-- A repetition that reads nodes keeps the account of the nodes read, and stops at the name of a
    closing tag or at the end of the source. -/
theorem consumes_nodeStep {stop : List String} {before : List Token} {nodes : List Node}
    (h : Accounts before (total nodes)) :
    (nodeStep env bodies stop nodes).Consumes (fun _ => True) fun consumed result t =>
      result.Keeps (fun nodes => Accounts (before ++ consumed) (total nodes)) fun nodes =>
        Accounts (before ++ consumed) (total nodes) ∧
          t.head.kind = if stop = [] then .eof else .symbol := by
  have hnext {s : TokenStream} {kind : TokenKind} (hkind : s.head.kind = kind)
      (hmark : kind.isMark = true) :
      next.Consumes (· = s) fun consumed _ _ => Accounts (before ++ consumed) (total nodes) := by
    have hhead : s.head.isMark = true := Token.isMark_of_kind hmark hkind
    refine (consumes_next (by rintro _ rfl; exact ne_eof_of_isMark hhead)).mono (fun _ h => h) ?_
    rintro _ token _ ⟨rfl, u, rfl, rfl, rfl⟩
    exact h.append_mark hhead
  refine consumes_peek.bind_of fun _ _ s hpeek => ?_
  obtain ⟨rfl, rfl, -⟩ := hpeek
  split
  · next hkind =>
    refine consumes_unless_fail fun hempty => consumes_pure ?_
    rintro _ rfl
    exact ⟨by simpa [total_reverse] using h, by rw [hkind, if_pos (List.isEmpty_iff.mp hempty)]⟩
  · next hkind =>
    refine (hnext hkind (by decide)).bind fun _ _ => consumes_pure fun _ h => ?_
    simpa [Step.Keeps, account_data] using h
  · next hkind =>
    refine (hnext hkind (by decide)).bind fun _ _ => consumes_pure fun _ h => ?_
    simpa [Step.Keeps, account_data] using h
  · next hkind =>
    refine (hnext hkind (by decide)).bind_of fun opening _ _ hopening => ?_
    refine consumes_peek.bind_of fun _ _ t hpeek => ?_
    obtain ⟨rfl, rfl, rfl⟩ := hpeek
    refine consumes_if_fail fun _ => ?_
    refine balances_expression.anywhere.bind_of fun consumed value _ hvalue => ?_
    refine (consumes_expect (by decide)).bind fun _ closing => consumes_pure fun _ hclosing => ?_
    obtain ⟨rfl, hclosing⟩ := hclosing
    have houtput : (output s.head.pos [value]).account = value.account :=
      account_eq rfl (by simp [children])
    have hmark : closing.isMark = true := Token.isMark_of_kind (by decide) hclosing
    simpa [Step.Keeps, houtput, add_comm] using (hopening.append hvalue).append_mark hmark
  · next hkind =>
    refine (hnext hkind (by decide)).bind_of fun opening _ _ hopening => ?_
    refine consumes_peek.bind_of fun _ _ t hpeek => ?_
    obtain ⟨rfl, rfl, rfl⟩ := hpeek
    split
    · next hstop =>
      refine consumes_pure ?_
      rintro _ rfl
      obtain ⟨hsymbol, hmem⟩ := Bool.and_eq_true_iff.mp hstop
      have hne : stop ≠ [] := by
        rintro rfl
        cases hmem
      exact ⟨by simpa [total_reverse] using hopening, by simpa [hne] using hsymbol⟩
    · refine (balances_statementOver henv hbodies).anywhere.bind fun consumed node =>
        consumes_pure fun _ hnode => ?_
      simpa [Step.Keeps, add_comm] using hopening.append hnode
  · exact consumes_fail _

theorem consumes_nodesOver {stop : List String} :
    (nodesOver env bodies stop).Consumes (fun _ => True) fun consumed nodes t =>
      Accounts consumed (total nodes) ∧ t.head.kind = if stop = [] then .eof else .symbol :=
  consumes_iterate (I := fun consumed nodes => Accounts consumed (total nodes))
    (fun _ _ h => consumes_nodeStep henv hbodies h) .nil

end

theorem balance_bodiesTo (depth : Nat) : (bodiesTo env depth).Balance := by
  induction depth with
  | zero => exact fun _ => consumes_fail _
  | succ depth ih => exact fun _ => consumes_nodesOver henv ih

theorem balance_bodies : (bodies env).Balance :=
  fun stop s => balance_bodiesTo henv (s.pending.length + 1) stop s

end

end Statement

theorem TokenStream.pending_ofTokens_ne_eof {tokens : List Token} :
    ∀ token ∈ (TokenStream.ofTokens tokens).pending, token.kind ≠ .eof := by
  intro token htoken
  simpa using List.mem_takeWhile_imp htoken

theorem TokenStream.last_ofTokens {tokens : List Token} :
    (TokenStream.ofTokens tokens).last.kind = .eof := by
  unfold TokenStream.ofTokens
  cases hfind : tokens.find? fun token => token.kind = .eof with
  | none => rfl
  | some token => simpa using List.find?_some hfind

/-- A stream whose first token ends the source has been read to its end. -/
theorem TokenStream.pending_eq_nil {s : TokenStream} (hpending : ∀ token ∈ s.pending, token.kind ≠ .eof)
    (hhead : s.head.kind = .eof) : s.pending = [] := by
  obtain ⟨pending, last⟩ := s
  cases pending with
  | nil => rfl
  | cons token pending => exact absurd hhead (hpending token List.mem_cons_self)

/-- What the parser of a template accepts, it reads to the end, and the tokens spell the literals of
    the tree. -/
theorem Parser.consumes_root {env : Environment} (henv : ∀ e ∈ env.extensions, e.IsStandard)
    {tokens : List Token} {body : List Node} {rest : TokenStream}
    (h : Parser.root env (TokenStream.ofTokens tokens) = .ok body rest) :
    Accounts (TokenStream.ofTokens tokens).pending (Node.total body) := by
  obtain ⟨consumed, hstream, hconsumed, hhead⟩ :=
    Statement.balance_bodies henv [] _ body rest TokenStream.last_ofTokens trivial h
  rw [if_pos rfl] at hhead
  have hpending : (TokenStream.ofTokens tokens).pending = consumed ++ rest.pending := by
    rw [hstream, TokenStream.after]
  have hrest : rest.pending = [] := TokenStream.pending_eq_nil
    (fun token htoken => TokenStream.pending_ofTokens_ne_eof token
      (hpending ▸ List.mem_append_right _ htoken)) hhead
  rwa [hpending, hrest, List.append_nil]

/-- Each literal that the tokens of a template spell is one of its tree, where its token stands, but
    for those in the named arguments of a test, which are lost. When no two tokens stand at one
    place, a string or number has a literal there exactly if it is not lost. -/
theorem Parser.root_ledger {env : Environment} {tokens : List Token} {body : List Node}
    {rest : TokenStream} (henv : ∀ e ∈ env.extensions, e.IsStandard)
    (h : Parser.root env (TokenStream.ofTokens tokens) = .ok body rest) :
    ∃ read kept lost, read = tokens.takeWhile (fun token => token.kind ≠ .eof) ∧
      Ledger read kept lost ∧
      ((Node.walk body).filterMap Node.literal?).Perm (kept.map Entry.leaf) ∧
      (read.filter Token.isQuantity).Perm (Ledger.quantities (kept ++ lost)) ∧
      ((∀ token ∈ read, token.isSymbol "is" = false) → lost = []) ∧
      ((read.map Token.pos).Nodup → ∀ token ∈ read, token.isQuantity = true →
        ((∃ value, Node.literal token.pos value ∈ Node.walk body) ↔ token ∉ lost.map Prod.fst)) := by
  obtain ⟨kept, lost, hledger, hkept⟩ := Parser.consumes_root henv h
  rw [Node.total_eq_coe, Multiset.coe_eq_coe] at hkept
  refine ⟨_, kept, lost, rfl, hledger, hkept, hledger.perm_quantities, hledger.lost_eq_nil,
    fun hdistinct token htoken hquantity => ?_⟩
  rw [← hledger.leaf_mem_iff hdistinct htoken hquantity]
  constructor
  · rintro ⟨value, hvalue⟩
    exact ⟨value, hkept.mem_iff.mp (List.mem_filterMap.mpr ⟨_, hvalue, rfl⟩)⟩
  · rintro ⟨value, hvalue⟩
    obtain ⟨node, hnode, hliteral⟩ := List.mem_filterMap.mp (hkept.mem_iff.mpr hvalue)
    obtain ⟨rfl, rfl⟩ := Node.literal?_eq_some hliteral
    exact ⟨value, hnode⟩

/-- A test whose one argument is named. -/
def namedTest : String := "\x7b\x7b x is foo(a=static(\"p\")) \x7d\x7d"

/-- The tokens of the test have distinct places and a string among them, and its tree has no
    literal. -/
theorem root_namedTest :
    ∃ tokens token body rest, tokenize {} namedTest = .ok tokens ∧
      Parser.root {} (TokenStream.ofTokens tokens) = .ok body rest ∧
      token ∈ tokens.takeWhile (fun token => token.kind ≠ .eof) ∧ token.kind = .string ∧
      ((tokens.takeWhile fun token => token.kind ≠ .eof).map Token.pos).Nodup ∧
      ∀ node ∈ Node.walk body, node.literal? = none := by
  have hany : ((tokenize {} namedTest).toOption.any fun tokens =>
      (tokens.takeWhile fun token => token.kind ≠ .eof).any (fun token => token.kind = .string) &&
        ((tokens.takeWhile fun token => token.kind ≠ .eof).map Token.pos).Nodup &&
        ((Parser.root {}).run' (TokenStream.ofTokens tokens)).any fun body =>
          (Node.walk body).all fun node => node.literal? = none) = true := by
    decide +kernel
  obtain ⟨tokens, htokens, hany⟩ := exists_eq_ok_of_any hany
  rw [Bool.and_eq_true, Bool.and_eq_true, List.any_eq_true, decide_eq_true_eq] at hany
  obtain ⟨⟨⟨token, htoken, hkind⟩, hdistinct⟩, hbody⟩ := hany
  obtain ⟨body, rest, hroot, hbody⟩ := exists_eq_ok_of_run'_any hbody
  exact ⟨tokens, token, body, rest, htokens, hroot, htoken, of_decide_eq_true hkind, hdistinct,
    fun node hnode => of_decide_eq_true (List.all_eq_true.mp hbody node hnode)⟩

/-- The string in the named argument is lost. -/
theorem Parser.root_ledger_namedTest :
    ∃ tokens body rest kept lost, tokenize {} namedTest = .ok tokens ∧
      Parser.root {} (TokenStream.ofTokens tokens) = .ok body rest ∧
      Ledger (tokens.takeWhile fun token => token.kind ≠ .eof) kept lost ∧
      ∃ token ∈ lost.map Prod.fst, token.kind = .string := by
  obtain ⟨tokens, token, body, rest, htokens, hroot, htoken, hkind, hdistinct, hnone⟩ := root_namedTest
  obtain ⟨_, kept, lost, rfl, hledger, -, -, -, hlost⟩ := 
    Parser.root_ledger (List.forall_mem_nil _) hroot
  refine ⟨tokens, body, rest, kept, lost, htokens, hroot, hledger, token, ?_, hkind⟩
  by_contra hkept
  obtain ⟨value, hvalue⟩ :=
    (hlost hdistinct token htoken (by simp [Token.isQuantity, hkind])).mpr hkept
  cases hnone _ hvalue

theorem string_lost_in_named_test :
    ∃ tokens token body rest, tokenize {} namedTest = .ok tokens ∧
      Parser.root {} (TokenStream.ofTokens tokens) = .ok body rest ∧
      token ∈ tokens ∧ token.kind = .string ∧
      ∀ pos value, Node.literal pos value ∉ Node.walk body := by
  obtain ⟨tokens, token, body, rest, htokens, hroot, htoken, hkind, -, hnone⟩ := root_namedTest
  refine ⟨tokens, token, body, rest, htokens, hroot,
    (List.takeWhile_prefix _).subset htoken, hkind, fun pos value hmem => ?_⟩
  cases hnone _ hmem

end TemplateManifest
