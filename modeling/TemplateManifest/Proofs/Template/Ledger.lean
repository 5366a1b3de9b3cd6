import Mathlib.Tactic.Abel
import TemplateManifest.Proofs.Template.Consuming
import TemplateManifest.Proofs.Template.Walk
import TemplateManifest.Template.Expression

/-!
A ledger of literals: those that the tokens of a source spell against those of a syntax tree. The
tokens are taken apart the way the grammar puts them together, so that the ledger of some tokens is
the sum of the ledgers of their parts.
-/

namespace TemplateManifest

/-- A literal and the place where it stands. -/
abbrev Leaf := Position × Literal

namespace Node

/-- The literal that a node is. -/
def literal? : Node → Option Leaf
  | literal pos value => some (pos, value)
  | _ => none

theorem literal?_eq_some {node : Node} {leaf : Leaf} (h : node.literal? = some leaf) :
    node = literal leaf.1 leaf.2 := by
  cases node <;> cases h
  rfl

/-- The literals of some trees, in no order. -/
def total (nodes : List Node) : Multiset Leaf :=
  tally (fun node => node.literal?.toList) nodes

theorem total_eq_coe (nodes : List Node) :
    total nodes = ((walk nodes).filterMap literal? : List Leaf) := by
  rw [total, tally_eq_coe, List.filterMap_eq_flatMap_toList]

/-- The literals of a tree, in no order. -/
def account (node : Node) : Multiset Leaf := total [node]

@[simp]
theorem total_nil : total [] = 0 := rfl

@[simp]
theorem total_append (nodes nodes' : List Node) :
    total (nodes ++ nodes') = total nodes + total nodes' :=
  tally_append _ nodes nodes'

@[simp]
theorem total_cons (node : Node) (nodes : List Node) :
    total (node :: nodes) = node.account + total nodes :=
  total_append [node] nodes

theorem total_reverse (nodes : List Node) : total nodes.reverse = total nodes := by
  induction nodes with
  | nil => rfl
  | cons node nodes ih => simp [ih, add_comm]

@[simp]
theorem account_data (pos : Position) (text : String) : (data pos text).account = 0 := rfl

@[simp]
theorem account_literal (pos : Position) (value : Literal) :
    (literal pos value).account = {(pos, value)} := rfl

/-- The literals of a tree are those of its parts, unless it is itself one. -/
theorem account_eq {node : Node} {m : Multiset Leaf} (hliteral : node.literal? = none)
    (hparts : total node.children = m) : node.account = m := by
  rw [account, total, tally_cons, hliteral]
  simpa [total] using hparts

end Node

/-- The tokens of this kind spell no literal, wherever they stand. -/
def TokenKind.isMark (kind : TokenKind) : Bool :=
  kind ∈ [.data, .raw, .blockStart, .blockEnd, .variableStart, .variableEnd, .symbol, .comma, .colon,
    .pipe]

namespace Token

/-- The token spells a literal by itself. -/
inductive Spells (token : Token) : Literal → Prop where
  | str (hkind : token.kind = .string) : Spells token (.str token.value)
  | int {value : Int} (hkind : token.kind = .int)
      (hvalue : readInteger? token.value.toList = some value) : Spells token (.int value)
  | float {value : Double} (hkind : token.kind = .float)
      (hvalue : Double.read? token.value.toList = some value) : Spells token (.float value)
  | true (hkind : token.kind = .symbol) (hname : token.value ∈ ["true", "True"]) :
      Spells token (.bool true)
  | false (hkind : token.kind = .symbol) (hname : token.value ∈ ["false", "False"]) :
      Spells token (.bool false)
  | none (hkind : token.kind = .symbol) (hname : token.value ∈ ["none", "None", "null"]) :
      Spells token .none

/-- The token is a string or a number. -/
def isQuantity (token : Token) : Bool :=
  token.kind ∈ [.string, .int, .float]

/-- The token is of such a kind, or it is an operator other than a point. -/
def isMark (token : Token) : Bool :=
  token.kind.isMark || (token.kind = .operator && token.value ≠ ".")

/-- One token opens a bracket and the other one closes it. -/
def AreBrackets (opening closing : Token) : Prop :=
  (opening.kind, closing.kind) ∈ [(TokenKind.leftParen, TokenKind.rightParen),
    (.leftBracket, .rightBracket), (.leftCurly, .rightCurly)]

variable {token opening closing : Token}

theorem isQuantity_eq_false_of_isMark (h : token.isMark = Bool.true) :
    token.isQuantity = Bool.false := by
  unfold isMark TokenKind.isMark at h
  unfold isQuantity
  cases hkind : token.kind <;> simp_all

theorem isMark_of_kind {kind : TokenKind} (hkind : kind.isMark = Bool.true)
    (h : token.kind = kind) : token.isMark = Bool.true := by
  rw [isMark, h, hkind, Bool.true_or]

theorem isMark_of_symbol (h : token.kind = .symbol) : token.isMark = Bool.true :=
  isMark_of_kind (by decide) h

theorem isMark_of_isSymbol {name : String} (h : token.isSymbol name = Bool.true) :
    token.isMark = Bool.true :=
  isMark_of_symbol (Prod.mk.inj (isSymbol_iff.mp h)).1

theorem isMark_of_isOperator {op : String} (hop : op ≠ ".")
    (h : token.isOperator op = Bool.true) : token.isMark = Bool.true := by
  obtain ⟨hkind, hvalue⟩ := Prod.mk.inj (isOperator_iff.mp h)
  simp [isMark, hkind, hvalue, hop]

theorem isQuantity_eq_false_of_isOperator {op : String} (h : token.isOperator op = Bool.true) :
    token.isQuantity = Bool.false := by
  have hkind : token.kind = .operator := (Prod.mk.inj (isOperator_iff.mp h)).1
  simp [isQuantity, hkind]

theorem AreBrackets.isQuantity_eq_false (h : opening.AreBrackets closing) :
    opening.isQuantity = Bool.false ∧ closing.isQuantity = Bool.false := by
  simp only [AreBrackets, List.mem_cons, Prod.mk.injEq, List.not_mem_nil, or_false] at h
  obtain ⟨hopening, hclosing⟩ | ⟨hopening, hclosing⟩ | ⟨hopening, hclosing⟩ := h <;>
    simp [isQuantity, hopening, hclosing]

end Token

/-- A literal and the token that spells it. -/
abbrev Entry := Token × Literal

/-- The literal of an entry, where its token stands. -/
def Entry.leaf (entry : Entry) : Leaf := (entry.1.pos, entry.2)

/-- The literals that some tokens spell, in their order: those that a tree keeps, and those that are
    lost. Only those in the named arguments of a test are lost. -/
inductive Ledger : List Token → List Entry → List Entry → Prop where
  | nil : Ledger [] [] []
  | append {tokens tokens' : List Token} {kept kept' lost lost' : List Entry}
      (h : Ledger tokens kept lost) (h' : Ledger tokens' kept' lost') :
      Ledger (tokens ++ tokens') (kept ++ kept') (lost ++ lost')
  | mark {token : Token} (h : token.isMark = true) : Ledger [token] [] []
  | literal {token : Token} {value : Literal} (h : token.Spells value) :
      Ledger [token] [(token, value)] []
  /-- A name or a number after a point is a key. -/
  | point {dot key : Token} (hdot : dot.isOperator "." = true)
      (hkey : key.kind = .symbol ∨ key.kind = .int) :
      Ledger [dot, key] [(key, .str key.value)] []
  /-- The parts of a filter's name are no keys. -/
  | part {dot name : Token} (hdot : dot.isOperator "." = true) (hname : name.kind = .symbol) :
      Ledger [dot, name] [] []
  /-- A bare name before a colon is a key. -/
  | key {name colon : Token} (hname : name.kind = .symbol) (hcolon : colon.kind = .colon) :
      Ledger [name, colon] [(name, .str name.value)] []
  | brackets {opening closing : Token} {inner : List Token} {kept lost : List Entry}
      (hbrackets : opening.AreBrackets closing) (h : Ledger inner kept lost) :
      Ledger (opening :: (inner ++ [closing])) kept lost
  /-- The arguments of a test, from the first named one on. -/
  | test {is name opening key equals closing : Token} {negation positional named : List Token}
      {kept lost kept' lost' : List Entry} (his : is.isSymbol "is" = true)
      (hnegation : ∀ token ∈ negation, token.isSymbol "not" = true)
      (hname : name.kind = .symbol) (hbrackets : opening.AreBrackets closing)
      (hpositional : Ledger positional kept lost) (hkey : key.kind = .symbol)
      (hequals : equals.isOperator "=" = true) (hnamed : Ledger named kept' lost') :
      Ledger (is :: (negation ++ name :: opening ::
        (positional ++ key :: equals :: (named ++ [closing])))) kept (lost ++ kept' ++ lost')

namespace Ledger

/-- The strings and numbers among the tokens of some entries. -/
def quantities (entries : List Entry) : List Token :=
  (entries.map Prod.fst).filter Token.isQuantity

theorem quantities_append (entries entries' : List Entry) :
    quantities (entries ++ entries') = quantities entries ++ quantities entries' := by
  simp [quantities]

/-- Each string and each number is in one entry. -/
theorem perm_quantities {tokens : List Token} {kept lost : List Entry}
    (h : Ledger tokens kept lost) :
    (tokens.filter Token.isQuantity).Perm (quantities (kept ++ lost)) := by
  rw [← Multiset.coe_eq_coe, quantities_append, ← Multiset.coe_add]
  induction h with
  | nil => rfl
  | append _ _ ih ih' =>
    simp only [List.filter_append, quantities_append, ← Multiset.coe_add, ih, ih']
    abel
  | mark h => simp [quantities, Token.isQuantity_eq_false_of_isMark h]
  | literal h => simp [quantities]
  | point hdot hkey => simp [quantities, Token.isQuantity_eq_false_of_isOperator hdot]
  | part hdot hname =>
    have hpart := Token.isQuantity_eq_false_of_isMark (Token.isMark_of_symbol hname)
    simp [quantities, Token.isQuantity_eq_false_of_isOperator hdot, hpart]
  | key hname hcolon => simp [quantities, Token.isQuantity, hname, hcolon]
  | brackets hbrackets _ ih =>
    obtain ⟨hopening, hclosing⟩ := hbrackets.isQuantity_eq_false
    simp [hopening, hclosing, ih]
  | test his hnegation hname hbrackets _ hkey hequals _ ih ih' =>
    obtain ⟨hopening, hclosing⟩ := hbrackets.isQuantity_eq_false
    have hsymbol (token : Token) (h : token.kind = .symbol) : token.isQuantity = false :=
      Token.isQuantity_eq_false_of_isMark (Token.isMark_of_symbol h)
    have hnegation' := List.filter_eq_nil_iff.mpr fun token htoken => by
      simpa using Token.isQuantity_eq_false_of_isMark
        (Token.isMark_of_isSymbol (hnegation token htoken))
    simp only [List.filter_cons, List.filter_append, hnegation', hopening, hclosing,
      hsymbol _ hname, hsymbol _ hkey, Token.isQuantity_eq_false_of_isOperator hequals,
      Token.isQuantity_eq_false_of_isMark (Token.isMark_of_isSymbol his), quantities_append,
      Bool.false_eq_true, if_false, List.filter_nil, List.nil_append, List.append_nil,
      ← Multiset.coe_add, ih, ih']
    abel

/-- Each token is in one entry at most. -/
theorem subperm_tokens {tokens : List Token} {kept lost : List Entry}
    (h : Ledger tokens kept lost) : ((kept ++ lost).map Prod.fst).Subperm tokens := by
  rw [← Multiset.coe_le]
  induction h with
  | nil => exact le_rfl
  | @append tokens tokens' kept kept' lost lost' _ _ ih ih' =>
    simp only [List.map_append, ← Multiset.coe_add] at ih ih' ⊢
    rw [add_add_add_comm]
    exact add_le_add ih ih'
  | mark h => simp
  | literal h => simp
  | point hdot hkey => simp
  | part hdot hname => exact Multiset.zero_le _
  | key hname hcolon => simp
  | @brackets opening closing inner _ _ _ _ ih =>
    have hinner : inner.Sublist (opening :: (inner ++ [closing])) :=
      .cons opening (List.sublist_append_left inner [closing])
    exact ih.trans (Multiset.coe_le.mpr hinner.subperm)
  | @test is name opening key equals closing negation positional named _ _ _ _ _ _ _ _ _ _ _ _ ih ih' =>
    have hnamed : named.Sublist (key :: equals :: (named ++ [closing])) :=
      .cons key (.cons equals (List.sublist_append_left named [closing]))
    have hargs := (((List.Sublist.refl positional).append hnamed).cons opening).cons name
    have htest := (hargs.trans (List.sublist_append_right negation _)).cons is
    refine le_trans ?_ (Multiset.coe_le.mpr htest.subperm)
    simp only [List.map_append, ← Multiset.coe_add] at ih ih' ⊢
    rw [add_assoc, ← add_assoc]
    exact add_le_add ih ih'

/-- What is lost stands in a test. -/
theorem lost_eq_nil {tokens : List Token} {kept lost : List Entry} (h : Ledger tokens kept lost)
    (his : ∀ token ∈ tokens, token.isSymbol "is" = false) : lost = [] := by
  induction h with
  | append _ _ ih ih' =>
    obtain ⟨hleft, hright⟩ := List.forall_mem_append.mp his
    rw [ih hleft, ih' hright, List.append_nil]
  | brackets _ _ ih => exact ih fun token htoken => his token (by simp [htoken])
  | test hsymbol => simp [hsymbol] at his
  | _ => rfl

/-- When no two tokens stand at one place, a string or number is kept unless it is lost. -/
theorem leaf_mem_iff {tokens : List Token} {kept lost : List Entry} (h : Ledger tokens kept lost)
    (hdistinct : (tokens.map Token.pos).Nodup) {token : Token} (htoken : token ∈ tokens)
    (hquantity : token.isQuantity = true) :
    (∃ value, (token.pos, value) ∈ kept.map Entry.leaf) ↔ token ∉ lost.map Prod.fst := by
  constructor
  · rintro ⟨value, hvalue⟩ hlost
    obtain ⟨entry, hentry, hleaf⟩ := List.mem_map.mp hvalue
    have hnodup : ((kept ++ lost).map Prod.fst).Nodup :=
      Multiset.nodup_of_le (Multiset.coe_le.mpr h.subperm_tokens) (hdistinct.of_map _)
    have hmem : entry.1 ∈ tokens :=
      h.subperm_tokens.subset (List.mem_map_of_mem (List.mem_append_left _ hentry))
    have hsame : entry.1 = token :=
      List.inj_on_of_nodup_map hdistinct hmem htoken (Prod.mk.inj hleaf).1
    rw [List.map_append, List.nodup_append] at hnodup
    exact hnodup.2.2 _ (List.mem_map_of_mem hentry) _ hlost hsame
  · intro hlost
    have hmem := h.perm_quantities.subset (List.mem_filter.mpr ⟨htoken, hquantity⟩)
    rw [quantities, List.mem_filter, List.map_append, List.mem_append] at hmem
    obtain ⟨entry, hentry, rfl⟩ := List.mem_map.mp (hmem.1.resolve_right hlost)
    exact ⟨entry.2, List.mem_map_of_mem hentry⟩

end Ledger

/-- The tokens spell the literals of an account, those lost apart. -/
def Accounts (tokens : List Token) (account : Multiset Leaf) : Prop :=
  ∃ kept lost, Ledger tokens kept lost ∧ account = (kept.map Entry.leaf : List Leaf)

namespace Accounts

variable {tokens tokens' : List Token} {account account' : Multiset Leaf}

theorem nil : Accounts [] 0 :=
  ⟨[], [], .nil, rfl⟩

theorem append (h : Accounts tokens account) (h' : Accounts tokens' account') :
    Accounts (tokens ++ tokens') (account + account') := by
  obtain ⟨kept, lost, hledger, rfl⟩ := h
  obtain ⟨kept', lost', hledger', rfl⟩ := h'
  exact ⟨_, _, hledger.append hledger', by rw [List.map_append, Multiset.coe_add]⟩

theorem mark {token : Token} (h : token.isMark = true) : Accounts [token] 0 :=
  ⟨[], [], .mark h, rfl⟩

theorem marks (h : ∀ token ∈ tokens, token.isMark = true) : Accounts tokens 0 := by
  induction tokens with
  | nil => exact nil
  | cons token tokens ih =>
    obtain ⟨htoken, htokens⟩ := List.forall_mem_cons.mp h
    simpa using (mark htoken).append (ih htokens)

/-- Marks before and after tokens do not change their account. -/
theorem append_mark {token : Token} (h : Accounts tokens account) (hmark : token.isMark = true) :
    Accounts (tokens ++ [token]) account := by
  simpa using h.append (mark hmark)

theorem cons_mark {token : Token} (hmark : token.isMark = true) (h : Accounts tokens account) :
    Accounts (token :: tokens) account := by
  simpa using (mark hmark).append h

theorem literal {token : Token} {value : Literal} (h : token.Spells value) :
    Accounts [token] {(token.pos, value)} :=
  ⟨_, _, .literal h, rfl⟩

theorem point {dot key : Token} (hdot : dot.isOperator "." = true)
    (hkey : key.kind = .symbol ∨ key.kind = .int) :
    Accounts [dot, key] {(key.pos, .str key.value)} :=
  ⟨_, _, .point hdot hkey, rfl⟩

theorem part {dot name : Token} (hdot : dot.isOperator "." = true) (hname : name.kind = .symbol) :
    Accounts [dot, name] 0 :=
  ⟨_, _, .part hdot hname, rfl⟩

theorem key {name colon : Token} (hname : name.kind = .symbol) (hcolon : colon.kind = .colon) :
    Accounts [name, colon] {(name.pos, .str name.value)} :=
  ⟨_, _, .key hname hcolon, rfl⟩

theorem brackets {opening closing : Token} (hbrackets : opening.AreBrackets closing)
    (h : Accounts tokens account) : Accounts (opening :: (tokens ++ [closing])) account := by
  obtain ⟨kept, lost, hledger, rfl⟩ := h
  exact ⟨_, _, .brackets hbrackets hledger, rfl⟩

theorem test {is name opening key equals closing : Token} {negation : List Token}
    (his : is.isSymbol "is" = true) (hnegation : ∀ token ∈ negation, token.isSymbol "not" = true)
    (hname : name.kind = .symbol) (hbrackets : opening.AreBrackets closing)
    (hpositional : Accounts tokens account) (hkey : key.kind = .symbol)
    (hequals : equals.isOperator "=" = true) (hnamed : Accounts tokens' account') :
    Accounts (is :: (negation ++ name :: opening ::
      (tokens ++ key :: equals :: (tokens' ++ [closing])))) account := by
  obtain ⟨kept, lost, hledger, rfl⟩ := hpositional
  obtain ⟨kept', lost', hledger', -⟩ := hnamed
  exact ⟨_, _, .test his hnegation hname hbrackets hledger hkey hequals hledger', rfl⟩

end Accounts

namespace Parser

variable {α β σ : Type} {p : Parser α} {H : TokenStream → Prop} {before : Multiset Leaf}
  {f : α → Multiset Leaf} {g : β → Multiset Leaf}

/-- The tokens taken bring an account from what it was before to what it is after the value. -/
def Adds (before : Multiset Leaf) (after : α → Multiset Leaf) (consumed : List Token) (a : α)
    (_ : TokenStream) : Prop :=
  ∃ added, Accounts consumed added ∧ after a = before + added

/-- The tokens that the parser takes spell the literals of its value. -/
def Balances (p : Parser α) (f : α → Multiset Leaf) : Prop :=
  p.Consumes (fun _ => True) fun consumed a _ => Accounts consumed (f a)

theorem Balances.adds (h : p.Balances f) : p.Consumes H (Adds before fun a => before + f a) :=
  Consumes.mono h (fun _ _ => trivial) fun _ _ _ h => ⟨_, h, rfl⟩

theorem balances_of_adds (h : p.Consumes (fun _ => True) (Adds 0 f)) : p.Balances f := by
  refine h.mono (fun _ h => h) fun _ _ _ h => ?_
  obtain ⟨added, hadded, heq⟩ := h
  rwa [heq, zero_add]

theorem Consumes.adds_bind {next : α → Parser β} (h : p.Consumes H (Adds before f))
    (hnext : ∀ a, (next a).Consumes (fun _ => True) (Adds (f a) g)) :
    (p >>= next).Consumes H (Adds before g) := by
  refine h.bind_of fun consumed a _ hadds => ?_
  obtain ⟨added, hconsumed, hf⟩ := hadds
  refine (hnext a).mono (fun _ _ => trivial) fun later b _ hlater => ?_
  obtain ⟨added', hlater, hg⟩ := hlater
  exact ⟨added + added', hconsumed.append hlater, by rw [hg, hf, add_assoc]⟩

theorem adds_pure {a : α} (h : f a = before) :
    (pure a : Parser α).Consumes H (Adds before f) :=
  consumes_pure fun _ _ => ⟨0, .nil, by rw [h, add_zero]⟩

/-- A step that is left out in some case, and what follows it in both. -/
theorem adds_unless {condition : Prop} [Decidable condition] {rest : Parser β}
    (h : p.Consumes H (Adds before fun _ => before))
    (hrest : rest.Consumes (fun _ => True) (Adds before g)) :
    (if condition then rest else p >>= fun _ => rest).Consumes H (Adds before g) := by
  split
  · exact hrest.anywhere
  · exact h.adds_bind fun _ => hrest

theorem adds_peek {next : Token → Parser β}
    (h : ∀ s, H s → (next s.head).Consumes (· = s) (Adds before g)) :
    (peek >>= next).Consumes H (Adds before g) := by
  refine consumes_peek.bind_of fun consumed token t hpeek => ?_
  obtain ⟨rfl, rfl, hH⟩ := hpeek
  exact h t hH

theorem adds_peekSecond {next : Token → Parser β}
    (h : ∀ s, H s → (next s.second).Consumes (· = s) (Adds before g)) :
    (peekSecond >>= next).Consumes H (Adds before g) := by
  refine consumes_peekSecond.bind_of fun consumed token t hpeek => ?_
  obtain ⟨rfl, rfl, hH⟩ := hpeek
  exact h t hH

/-- What takes nothing but marks adds nothing. -/
theorem Consumes.adds_nothing {Q : List Token → α → TokenStream → Prop}
    (h : p.Consumes H Q)
    (hmarks : ∀ consumed a t, Q consumed a t → ∀ token ∈ consumed, token.isMark = true) :
    p.Consumes H (Adds before fun _ => before) :=
  h.mono (fun _ h => h) fun _ _ _ hQ => ⟨0, .marks (hmarks _ _ _ hQ), (add_zero _).symm⟩

theorem ne_eof_of_isMark {token : Token} (h : token.isMark = true) : token.kind ≠ .eof := by
  intro heof
  simp [Token.isMark, heof, TokenKind.isMark] at h

theorem adds_next (h : ∀ s, H s → s.head.isMark = true) :
    next.Consumes H (Adds before fun _ => before) := by
  refine (consumes_next fun s hs => ne_eof_of_isMark (h s hs)).adds_nothing ?_
  rintro _ _ _ ⟨rfl, s, hs, rfl, -⟩
  exact List.forall_mem_singleton.mpr (h s hs)

theorem adds_expect {kind : TokenKind} {what : String} (h : kind.isMark = true) :
    (expect kind what).Consumes H (Adds before fun _ => before) := by
  have hkind : kind ≠ .eof := by
    rintro rfl
    cases h
  refine (consumes_expect hkind).adds_nothing ?_
  rintro _ token _ ⟨rfl, htoken⟩
  exact List.forall_mem_singleton.mpr (Token.isMark_of_kind h htoken)

theorem adds_expectSymbol {what : String} :
    (expectSymbol what).Consumes H (Adds before fun _ => before) := by
  refine consumes_expectSymbol.adds_nothing ?_
  rintro _ name _ ⟨token, rfl, htoken, -⟩
  exact List.forall_mem_singleton.mpr (Token.isMark_of_symbol htoken)

theorem adds_skipIf {condition : Token → Bool}
    (h : ∀ token, condition token = true → token.isMark = true) :
    (skipIf condition).Consumes H (Adds before fun _ => before) := by
  have heof (token : Token) (heof : token.kind = .eof) : condition token = false :=
    Bool.eq_false_iff.mpr fun hcondition => ne_eof_of_isMark (h token hcondition) heof
  refine (consumes_skipIf heof).adds_nothing ?_
  rintro _ skipped _ (⟨-, token, rfl, htoken⟩ | ⟨-, rfl, -⟩)
  · exact List.forall_mem_singleton.mpr (h token htoken)
  · exact List.forall_mem_nil _

theorem adds_skipKind {kind : TokenKind} (h : kind.isMark = true) :
    (skipKind kind).Consumes H (Adds before fun _ => before) :=
  adds_skipIf fun _ htoken => Token.isMark_of_kind h (of_decide_eq_true htoken)

theorem adds_skipSymbol {name : String} :
    (skipSymbol name).Consumes H (Adds before fun _ => before) :=
  adds_skipIf fun _ h => Token.isMark_of_isSymbol h

theorem adds_skipOperator {op : String} (hop : op ≠ ".") :
    (skipOperator op).Consumes H (Adds before fun _ => before) :=
  adds_skipIf fun _ h => Token.isMark_of_isOperator hop h

/-- The account after a step of a repetition. -/
def Step.account {α σ : Type} (f : σ → Multiset Leaf) (g : α → Multiset Leaf) :
    Step σ α → Multiset Leaf
  | more state => f state
  | done a => g a

theorem adds_iterate {step : σ → Parser (Step σ α)} {state : σ} {f : σ → Multiset Leaf}
    {g : α → Multiset Leaf}
    (hstep : ∀ state, (step state).Consumes (fun _ => True) (Adds (f state) (Step.account f g))) :
    (iterate step state).Consumes H (Adds (f state) g) := by
  refine consumes_iterate (I := fun consumed state' => ∃ added, Accounts consumed added ∧
    f state' = f state + added) (fun consumed state' hI => ?_) ⟨0, .nil, (add_zero _).symm⟩
  obtain ⟨added, hconsumed, hstate'⟩ := hI
  refine (hstep state').mono (fun _ h => h) fun later result _ hlater => ?_
  obtain ⟨added', hlater, hresult⟩ := hlater
  have htotal := hconsumed.append hlater
  rw [hstate', add_assoc] at hresult
  cases result with
  | more state' => exact ⟨_, htotal, hresult⟩
  | done a => exact ⟨_, htotal, hresult⟩

end Parser

end TemplateManifest
