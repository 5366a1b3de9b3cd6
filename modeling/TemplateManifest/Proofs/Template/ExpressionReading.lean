import TemplateManifest.Proofs.Template.Grammar
import TemplateManifest.Proofs.Template.TermReading

/-!
Every expression is read back from its words: one lemma for each kind of expression, and an
induction over the expression that only cites them.
-/

namespace TemplateManifest

open Parser Expression Word

section Numerals

theorem decimalValue_decimalDigits (n : Nat) : decimalValue (decimalDigits n) = n :=
  Nat.ofDigitChars_toDigits (by decide) (by decide)

/-- An integer is read back. -/
theorem readInteger?_integerText (n : Int) : readInteger? (integerText n).toList = some n := by
  have hdigits : (decimalDigits n.natAbs).all Char.isDigit = true :=
    List.all_eq_true.mpr fun c hc => Nat.isDigit_of_mem_toDigits (by decide) (by decide) hc
  have hvalue := decimalValue_decimalDigits n.natAbs
  rw [integerText, String.toList_ofList]
  cases hshown : decimalDigits n.natAbs with
  | nil => exact absurd hshown Nat.toDigits_ne_nil
  | cons c digits =>
    rw [hshown] at hdigits hvalue
    have hdigit : c.isDigit = true := List.all_eq_true.mp hdigits c List.mem_cons_self
    have hsign : splitSign ((if n < 0 then ['-'] else []) ++ c :: digits) =
        (decide (n < 0), c :: digits) := by
      by_cases hnegative : n < 0
      · rw [if_pos hnegative, decide_eq_true hnegative]
        rfl
      · rw [if_neg hnegative, decide_eq_false hnegative]
        exact splitSign_cons hdigit digits
    have habs : (if decide (n < 0) = true then -(n.natAbs : Int) else n.natAbs) = n := by
      split
      · next hnegative =>
        have hnegative := of_decide_eq_true hnegative
        omega
      · next hnegative =>
        rw [decide_eq_true_iff] at hnegative
        omega
    simp only [readInteger?, hsign, hdigits, hvalue, habs]
    rfl

end Numerals

namespace Expression

variable {tagOf : Node → String} {nested : Nested} {ends : Word → Prop}

/-- The parser of what is nested in brackets reads the node back. -/
def ReadsInside (tagOf : Node → String) (nested : Nested) (node : Node) : Prop :=
  Reads (nested .expression) (node.words tagOf) (EndsAt 0) node.Alike

/-- The word ends an item of a list in brackets. -/
theorem endsAt_of_separator {kind : TokenKind} {w : Word} (h : w = comma ∨ w.1 = kind)
    (hkind : kind ∈ [TokenKind.rightParen, .rightBracket, .rightCurly]) : EndsAt 0 w := by
  refine endsAt_of_none ?_
  obtain rfl | h := h
  · rfl
  · obtain ⟨kind', value⟩ := w
    obtain rfl : kind' = kind := h
    simp only [List.mem_cons, List.not_mem_nil, or_false] at hkind
    obtain rfl | rfl | rfl := hkind <;> rfl

section Arguments

/-- The arguments as one list; positional ones have no name. -/
def argumentsOf (args : List Node) (kwargs : List (String × Node)) : List (Option String × Node) :=
  args.map (none, ·) ++ kwargs.map fun entry => (some entry.1, entry.2)

/-- The words of an argument. -/
def argumentWords (tagOf : Node → String) (argument : Option String × Node) : List Word :=
  argument.1.elim [] (fun name => [.symbol name, .assigns]) ++ argument.2.words tagOf

/-- The arguments are the given ones, but for their places. -/
def Arguments.AreAlike (arguments : List (Option String × Node)) (args : Arguments) : Prop :=
  (argumentsOf args.positional args.keyword).map (fun argument => (argument.1, argument.2.unplaced)) =
    arguments.map fun argument => (argument.1, argument.2.unplaced)

variable {args : List Node} {kwargs : List (String × Node)}
  {arguments : List (Option String × Node)} {state : Arguments} {value : Node}

theorem map_argumentsOf {α : Type} (f : Option String × Node → α) :
    (argumentsOf args kwargs).map f =
      args.map (fun node => f (none, node)) ++ kwargs.map fun entry => f (some entry.1, entry.2) := by
  simp [argumentsOf, Function.comp_def]

theorem spellings_append_keywordSpellings (h : ∀ entry ∈ kwargs, entry.2.IsTerm) :
    Node.spellings tagOf args ++ Node.keywordSpellings tagOf kwargs =
      (argumentsOf args kwargs).map (argumentWords tagOf) := by
  rw [Node.spellings_eq_map,
    Node.keywordSpellings_eq_map fun entry hentry => (h entry hentry).isCallerBody, map_argumentsOf]
  rfl

theorem Arguments.AreAlike.unplaced (h : state.AreAlike (argumentsOf args kwargs)) :
    Node.unplacedAll state.positional = Node.unplacedAll args ∧
      Node.unplacedKeywords state.keyword = Node.unplacedKeywords kwargs := by
  have hnone {α β : Type} (items : List α) : items.filterMap (fun _ => (none : Option β)) = [] :=
    List.filterMap_eq_nil_iff.mpr fun _ _ => rfl
  have hpositional := congrArg (List.filterMap fun x => if x.1.isNone then some x.2 else none) h
  have hkeyword := congrArg (List.filterMap fun x => x.1.map fun name => (name, x.2)) h
  simp only [map_argumentsOf, List.filterMap_append, List.filterMap_map, Function.comp_def] at hpositional hkeyword
  simpa [Node.unplacedAll_eq_map, Node.unplacedKeywords_eq_map, hnone] using
    And.intro hpositional hkeyword

theorem Arguments.AreAlike.isEmpty (h : state.AreAlike arguments) :
    state.isEmpty = arguments.isEmpty := by
  have hempty := congrArg (· = []) h
  simp only [map_argumentsOf, List.append_eq_nil_iff, List.map_eq_nil_iff] at hempty
  rw [Bool.eq_iff_iff, Arguments.isEmpty, Bool.and_eq_true]
  simp only [List.isEmpty_iff, hempty]

theorem Arguments.AreAlike.keyword_eq_nil (h : state.AreAlike arguments)
    (hnone : ∀ argument ∈ arguments, argument.1 = none) : state.keyword = [] := by
  rw [List.eq_nil_iff_forall_not_mem]
  intro entry hentry
  have hmem : (some entry.1, entry.2.unplaced) ∈
      arguments.map fun argument => (argument.1, argument.2.unplaced) := by
    rw [← h, map_argumentsOf]
    exact List.mem_append_right _ (List.mem_map_of_mem hentry)
  obtain ⟨argument, hargument, heq⟩ := List.mem_map.mp hmem
  rw [hnone argument hargument] at heq
  cases heq

theorem reads_keywordArgument {name : String} (h : ReadsInside tagOf nested value)
    (hstate : state.AreAlike arguments) :
    Reads (argument nested state) (argumentWords tagOf (some name, value)) (EndsAt 0)
      (Arguments.AreAlike (arguments ++ [(some name, value)])) :=
  Reads.peek_cons fun first hfirst =>
    (@Reads.peekSecond_cons _ _ _ (· = assigns) _ _ _) (fun second hsecond => by
      have hkind : first.kind = .symbol := congrArg Prod.fst hfirst
      have hname : first.value = name := congrArg Prod.snd hfirst
      rw [hkind, Token.isOperator_iff.mpr hsecond, hname]
      refine reads_next.bind_cons fun _ _ => reads_next.bind_cons fun _ _ =>
        Reads.map h fun node hnode => ?_
      simp only [Arguments.AreAlike, argumentsOf, List.map_append, List.map_cons, List.map_nil,
        ← List.append_assoc] at hstate ⊢
      rw [hstate, hnode.eq])
    fun _ _ => rfl

theorem reads_positionalArgument (h : ReadsInside tagOf nested value)
    (hopens : Opens 0 (value.words tagOf)) (hstate : state.AreAlike arguments)
    (hnone : ∀ argument ∈ arguments, argument.1 = none) :
    Reads (argument nested state) (argumentWords tagOf (none, value))
      (fun w => EndsAt 0 w ∧ w ≠ assigns) (Arguments.AreAlike (arguments ++ [(none, value)])) := by
  obtain ⟨positional, keyword⟩ := state
  obtain rfl : keyword = [] := hstate.keyword_eq_nil hnone
  have hread : Reads (do return { positional := positional ++ [← nested .expression] })
      (value.words tagOf) (fun w => EndsAt 0 w ∧ w ≠ assigns)
      (Arguments.AreAlike (arguments ++ [(none, value)])) := by
    refine Reads.map (h.mono (fun _ hw => hw.1) fun _ hP => hP) fun node hnode => ?_
    simp only [Arguments.AreAlike, argumentsOf, List.map_append, List.map_cons, List.map_nil,
      List.append_nil] at hstate ⊢
    rw [hstate, hnode.eq]
  change Reads _ (value.words tagOf) _ _
  obtain ⟨first, rest, hwords, -, hrest⟩ := hopens
  rw [hwords] at hread ⊢
  refine Reads.peek_cons fun token _ => (@Reads.peekSecond_cons _ _ _ (· ≠ assigns) _ _ _)
    (fun second hsecond => ?_) fun w hw => ?_
  · have hassigns : second.isOperator "=" = false := Bool.eq_false_iff.mpr fun h =>
      hsecond (Token.isOperator_iff.mp h)
    rw [hassigns, Bool.and_false]
    exact hread
  · cases rest with
    | nil => exact hw.2
    | cons second rest => exact hrest second rfl

/-- Positional arguments stand before named ones. -/
theorem pairwise_argumentsOf (args : List Node) (kwargs : List (String × Node)) :
    (argumentsOf args kwargs).Pairwise fun before after => after.1 = none → before.1 = none := by
  rw [argumentsOf, List.pairwise_append]
  refine ⟨?_, ?_, ?_⟩
  · exact List.pairwise_map.mpr (List.pairwise_of_forall fun _ _ _ => rfl)
  · exact List.pairwise_map.mpr (List.pairwise_of_forall fun _ _ h => by cases h)
  · intro before hbefore _ _ _
    obtain ⟨node, -, rfl⟩ := List.mem_map.mp hbefore
    rfl

/-- The values of all arguments are expressions that are read back inside brackets. -/
def AreRead (tagOf : Node → String) (nested : Nested) (nodes : List Node) : Prop :=
  ∀ node ∈ nodes, node.IsTerm ∧ ReadsInside tagOf nested node

variable (tagOf) in
theorem opens_argumentWords {argument : Option String × Node} (h : argument.2.IsTerm) :
    (∀ w ∈ (argumentWords tagOf argument).head?, w.1 ≠ .rightParen ∧ w ≠ assigns) ∧
      argumentWords tagOf argument ≠ [] := by
  obtain ⟨name, value⟩ := argument
  have hopens := Node.opens_words tagOf h
  cases name with
  | none =>
    refine ⟨fun w hw => ⟨fun heq => ?_, hopens.head?_ne_assigns w hw⟩, hopens.ne_nil⟩
    have hkind := (hopens.head? w hw).kind_mem
    rw [heq] at hkind
    simp at hkind
  | some name =>
    refine ⟨?_, List.cons_ne_nil _ _⟩
    rintro _ ⟨⟩
    exact ⟨by simp, by simp⟩

theorem readsItems_arguments (hargs : AreRead tagOf nested args)
    (hkwargs : AreRead tagOf nested (kwargs.map (·.2))) :
    ReadsItems .rightParen Arguments.isEmpty (argument nested) (argumentWords tagOf)
      Arguments.AreAlike (argumentsOf args kwargs) := by
  refine ⟨fun before state hstate => hstate.isEmpty, ?_⟩
  rintro before ⟨name, value⟩ after hsplit
  have hmem : (name, value) ∈ argumentsOf args kwargs := hsplit ▸ by simp
  have hvalue : value.IsTerm ∧ ReadsInside tagOf nested value := by
    rcases List.mem_append.mp hmem with hmem | hmem
    · obtain ⟨node, hnode, heq⟩ := List.mem_map.mp hmem
      cases heq
      exact hargs _ hnode
    · obtain ⟨entry, hentry, heq⟩ := List.mem_map.mp hmem
      cases heq
      exact hkwargs _ (List.mem_map_of_mem hentry)
  have hopens := @opens_argumentWords tagOf (name, value) hvalue.1
  refine ⟨fun w hw => (hopens.1 w hw).1, hopens.2, fun state hstate => ?_⟩
  cases name with
  | none =>
    have hnone : ∀ argument ∈ before, argument.1 = none := by
      have hpairwise := pairwise_argumentsOf args kwargs
      rw [← hsplit, List.pairwise_append] at hpairwise
      exact fun argument hargument =>
        hpairwise.2.2 argument hargument _ List.mem_cons_self rfl
    refine (reads_positionalArgument hvalue.2 ((Node.opens_words tagOf hvalue.1).mono (Nat.zero_le _))
      hstate hnone).mono (fun w hw => ⟨endsAt_of_separator hw (by decide), ?_⟩) fun _ hP => hP
    rintro rfl
    simp at hw
  | some name =>
    exact (reads_keywordArgument hvalue.2 hstate).mono
      (fun w hw => endsAt_of_separator hw (by decide)) fun _ hP => hP

theorem reads_callArguments (hargs : AreRead tagOf nested args)
    (hkwargs : AreRead tagOf nested (kwargs.map (·.2))) :
    Reads (callArguments nested)
      (.leftParen :: listed .rightParen
        (Node.spellings tagOf args ++ Node.keywordSpellings tagOf kwargs)) ends
      (Arguments.AreAlike (argumentsOf args kwargs)) := by
  rw [spellings_append_keywordSpellings fun entry hentry =>
    (hkwargs _ (List.mem_map_of_mem hentry)).1]
  exact reads_expect.bind_cons fun _ _ =>
    reads_commaSeparated (by decide) (readsItems_arguments hargs hkwargs) rfl

theorem reads_optionalArguments (hargs : AreRead tagOf nested args)
    (hkwargs : AreRead tagOf nested (kwargs.map (·.2))) (hends : ∀ w, ends w → w.1 ≠ .leftParen) :
    Reads (optionalArguments nested)
      (Word.optionalArguments (Node.spellings tagOf args ++ Node.keywordSpellings tagOf kwargs)) ends
      (Arguments.AreAlike (argumentsOf args kwargs)) := by
  have hspellings := @spellings_append_keywordSpellings tagOf args kwargs
    fun entry hentry => (hkwargs _ (List.mem_map_of_mem hentry)).1
  have hread := @reads_callArguments tagOf nested ends args kwargs hargs hkwargs
  rw [hspellings] at hread ⊢
  rw [Word.optionalArguments]
  cases harguments : argumentsOf args kwargs with
  | nil =>
    refine reads_peek.bind_nil (fun token htoken => ?_) fun _ hw => hw
    rw [if_neg (show token.kind ≠ .leftParen from hends _ htoken)]
    exact reads_pure rfl
  | cons argument arguments =>
    rw [harguments] at hread
    refine Reads.peek_cons fun token htoken => ?_
    rw [if_pos (show token.kind = .leftParen from congrArg Prod.fst htoken)]
    exact hread

end Arguments

section Levels

/-- The parsers of all levels read the node back, alone or with more around it. -/
structure IsRead (tagOf : Node → String) (nested : Nested) (node : Node) : Prop where
  /-- Every level up to the node's reads it. -/
  reads : ∀ level ≤ node.level,
    Reads (levelParser nested level) (node.words tagOf) (EndsAt level) node.Alike
  /-- More operators, filters or accessors may follow it. -/
  leads : ∀ level ∈ loopLevels, level ≤ node.level →
    Leads (levelParser nested level) (iterate (stepAt nested level)) (node.words tagOf)
      (EndsAt (level + 1)) node.Alike
  /-- Unary operators may stand before it. -/
  signs : ∀ level ∈ signLevels, level ≤ node.level → ∀ ops,
    Reads (unaryFrom nested level ops) (node.words tagOf) (EndsAt level)
      fun found => ∃ operand, node.Alike operand ∧ found = applyUnary ops operand

variable {node : Node}

/-- What the parser of a node's own level does with it decides what all looser ones do. -/
theorem IsRead.of_own (h : node.IsTerm)
    (hreads : Reads (levelParser nested node.level) (node.words tagOf) (EndsAt node.level) node.Alike)
    (hleads : node.level ∈ loopLevels →
      Leads (levelParser nested node.level) (iterate (stepAt nested node.level)) (node.words tagOf)
        (EndsAt (node.level + 1)) node.Alike)
    (hsigns : node.level ∈ signLevels → ∀ ops,
      Reads (unaryFrom nested node.level ops) (node.words tagOf) (EndsAt node.level)
        fun found => ∃ operand, node.Alike operand ∧ found = applyUnary ops operand) :
    IsRead tagOf nested node := by
  have hopens := Node.opens_words tagOf h
  have hall : ∀ level ≤ node.level,
      Reads (levelParser nested level) (node.words tagOf) (EndsAt level) node.Alike := by
    intro level hle
    obtain ⟨gap, hgap⟩ := Nat.exists_eq_add_of_le hle
    induction gap generalizing level with
    | zero => exact (show level = node.level by omega) ▸ hreads
    | succ gap ih => exact reads_looser (by omega) hopens (ih (level + 1) (by omega) (by omega))
  refine ⟨hall, fun level hloop hle => ?_, fun level hsign hle => ?_⟩
  · obtain rfl | hlt := Nat.eq_or_lt_of_le hle
    · exact hleads hloop
    · rw [levelParser_loop hloop]
      exact Leads.of_reads (hall _ hlt)
  · obtain rfl | hlt := Nat.eq_or_lt_of_le hle
    · exact hsigns hsign
    · exact reads_unaryFrom hsign (hopens.mono hlt) (hall _ hlt)

theorem IsRead.of_leads (h : node.IsTerm) (hlevel : node.level ∈ loopLevels)
    (hleads : Leads (levelParser nested node.level) (iterate (stepAt nested node.level))
      (node.words tagOf) (EndsAt (node.level + 1)) node.Alike) : IsRead tagOf nested node := by
  refine .of_own h (hleads.done (fun found hfound => ?_) fun _ hw => hw.mono (Nat.le_succ _))
    (fun _ => hleads) fun hsign => ?_
  · exact (reads_stepAt_nil hlevel found).mono (fun _ hw => hw) fun _ hdone => ⟨found, hdone, hfound⟩
  · revert hsign hlevel
    simp only [loopLevels, signLevels, List.mem_cons, List.not_mem_nil, or_false]
    omega

theorem IsRead.of_signs (h : node.IsTerm) (hlevel : node.level ∈ signLevels)
    (hsigns : ∀ ops, Reads (unaryFrom nested node.level ops) (node.words tagOf) (EndsAt node.level)
      fun found => ∃ operand, node.Alike operand ∧ found = applyUnary ops operand) :
    IsRead tagOf nested node := by
  refine .of_own h ?_ (fun hloop => ?_) fun _ => hsigns
  · rw [levelParser_sign hlevel]
    refine (hsigns []).mono (fun _ hw => hw) ?_
    rintro _ ⟨operand, hoperand, rfl⟩
    exact hoperand
  · revert hloop hlevel
    simp only [loopLevels, signLevels, List.mem_cons, List.not_mem_nil, or_false]
    omega

theorem IsRead.of_reads (h : node.IsTerm) (hlevel : node.level ∈ [0, 5, 6, 14])
    (hreads : Reads (levelParser nested node.level) (node.words tagOf) (EndsAt node.level)
      node.Alike) : IsRead tagOf nested node := by
  refine .of_own h hreads (fun hloop => ?_) fun hsign => ?_
  · revert hloop hlevel
    simp only [loopLevels, List.mem_cons, List.not_mem_nil, or_false]
    omega
  · revert hsign hlevel
    simp only [signLevels, List.mem_cons, List.not_mem_nil, or_false]
    omega

end Levels

section Atoms

variable {node : Node} {pos : Position}

theorem isRead_literal {value : Literal} (h : value.IsSpelled) :
    IsRead tagOf nested (.literal pos value) := by
  refine .of_reads (.literal h) (show 14 ∈ [0, 5, 6, 14] by decide)
    (reads_next.bind_last (fun token htoken => ?_) fun _ hw => hw)
  have hkind : token.kind = value.word.1 := congrArg Prod.fst htoken
  have hvalue : token.value = value.word.2 := congrArg Prod.snd htoken
  cases h with
  | str text =>
    rw [hkind, hvalue]
    exact reads_pure rfl
  | @int n hnonneg hlt =>
    have hrange : integerInRange n = true := by
      simp [integerInRange]
      omega
    have hvalue' : readInteger? token.value.toList = some n := by
      rw [hvalue]
      exact readInteger?_integerText n
    rw [hkind, hvalue']
    change Reads (if integerInRange n = true then _ else _) _ _ _
    rw [if_pos hrange]
    exact reads_pure rfl
  | bool value =>
    rw [hkind, hvalue]
    cases value <;> exact reads_pure rfl
  | none =>
    rw [hkind, hvalue]
    exact reads_pure rfl

theorem isRead_symbol {name : String} (h : name ∉ keywords) :
    IsRead tagOf nested (.symbol pos name) := by
  refine .of_reads (.symbol h) (show 14 ∈ [0, 5, 6, 14] by decide)
    (reads_next.bind_last (fun token htoken => ?_) fun _ hw => hw)
  have hkind : token.kind = .symbol := congrArg Prod.fst htoken
  have hvalue : token.value = name := congrArg Prod.snd htoken
  have hsymbol : symbolNode token.pos name = .symbol token.pos name := by
    simp only [keywords, List.mem_cons, List.not_mem_nil, or_false, not_or] at h
    simp [symbolNode, h]
  rw [hkind, hvalue, hsymbol]
  exact reads_pure rfl

theorem endsAt_rightParen {level : Nat} : EndsAt level rightParen := endsAt_of_none rfl

variable (tagOf) in
/-- The words of an expression start with no closing bracket. -/
theorem head?_ne_of_isTerm (h : node.IsTerm) (kind : TokenKind)
    (hkind : kind ∈ [TokenKind.rightParen, .rightBracket, .rightCurly]) :
    ∀ w ∈ (node.words tagOf).head?, w.1 ≠ kind := by
  intro w hw heq
  have hstart := ((Node.opens_words tagOf h).head? w hw).kind_mem
  rw [heq] at hstart
  simp only [List.mem_cons, List.not_mem_nil, or_false] at hkind
  obtain rfl | rfl | rfl := hkind <;> simp at hstart

theorem isRead_group {inner : Node} (h : inner.IsTerm) (hinner : ReadsInside tagOf nested inner) :
    IsRead tagOf nested (.group pos inner) := by
  refine .of_reads (.group h) (show 14 ∈ [0, 5, 6, 14] by decide) ?_
  rw [Node.words]
  refine reads_next.bind_cons fun token htoken => ?_
  rw [show token.kind = .leftParen from congrArg Prod.fst htoken]
  have hopens := Node.opens_words tagOf h
  refine (@reads_skipKind_nil (fun w => w.1 ≠ .rightParen) .rightParen fun _ hw => hw).bind_nil
    (fun empty hempty => ?_) fun w _ => ?_
  · subst hempty
    refine hinner.bind (fun node hnode => reads_skipKind.bind_cons fun closed hclosed => ?_)
      fun _ _ => endsAt_rightParen
    subst hclosed
    exact reads_pure (congrArg (Node.group .first) hnode)
  · obtain ⟨first, rest, hwords, -⟩ := hopens
    have hhead := head?_ne_of_isTerm tagOf h .rightParen (by decide)
    rw [hwords] at hhead ⊢
    exact hhead first rfl

theorem isRead_array {items : List Node} (h : AreRead tagOf nested items) :
    IsRead tagOf nested (.array pos items) := by
  refine .of_reads (.array fun node hnode => (h node hnode).1)
    (show 14 ∈ [0, 5, 6, 14] by decide) ?_
  rw [Node.words, Node.spellings_eq_map]
  refine reads_next.bind_cons fun token htoken => ?_
  rw [show token.kind = .leftBracket from congrArg Prod.fst htoken]
  have hitems : ReadsItems .rightBracket List.isEmpty
      (fun found => do return found ++ [← nested .expression]) (Node.words tagOf)
      (fun before found => found.map Node.unplaced = before.map Node.unplaced) items := by
    refine .of_map fun node hnode => ?_
    obtain ⟨hterm, hread⟩ := h node hnode
    exact ⟨head?_ne_of_isTerm tagOf hterm .rightBracket (by decide),
      (Node.opens_words tagOf hterm).ne_nil, fun found =>
      Reads.map (hread.mono (fun w hw => endsAt_of_separator hw (by decide)) fun _ hP => hP)
        fun value hvalue => ⟨value, hvalue.eq, rfl⟩⟩
  refine Reads.map (reads_commaSeparated (by decide) hitems rfl) fun found hfound => ?_
  simp only [Node.Alike, Node.unplaced, Node.unplacedAll_eq_map, hfound]

theorem dictKey_of_isSymbol {key : Node} (h : key.isSymbol = false) : dictKey key = key := by
  cases key with
  | symbol pos name => cases h
  | _ => rfl

theorem isRead_dict {entries : List (Node × Node)}
    (hprimary : ∀ entry ∈ entries, 13 ≤ entry.1.level ∧ entry.1.isSymbol = false)
    (hkeys : ∀ entry ∈ entries, entry.1.IsTerm ∧
      Reads (nested .primary) (entry.1.words tagOf) (EndsAt 13) entry.1.Alike)
    (hvalues : ∀ entry ∈ entries, entry.2.IsTerm ∧ ReadsInside tagOf nested entry.2) :
    IsRead tagOf nested (.dict pos entries) := by
  refine .of_reads (.dict (fun entry hentry => (hkeys entry hentry).1) hprimary
    fun entry hentry => (hvalues entry hentry).1) (show 14 ∈ [0, 5, 6, 14] by decide) ?_
  rw [Node.words, Node.entrySpellings_eq_map]
  refine reads_next.bind_cons fun token htoken => ?_
  rw [show token.kind = .leftCurly from congrArg Prod.fst htoken]
  have hitems : ReadsItems .rightCurly List.isEmpty (dictEntry nested)
      (fun entry => entry.1.words tagOf ++ .colon :: entry.2.words tagOf)
      (fun before found => found.map (fun entry => (entry.1.unplaced, entry.2.unplaced)) =
        before.map fun entry => (entry.1.unplaced, entry.2.unplaced)) entries := by
    refine .of_map fun entry hentry => ?_
    obtain ⟨hkeyTerm, hkey⟩ := hkeys entry hentry
    obtain ⟨first, rest, hwords, -⟩ := Node.opens_words tagOf hkeyTerm
    refine ⟨?_, by simp, fun found => ?_⟩
    · have hhead := head?_ne_of_isTerm tagOf hkeyTerm .rightCurly (by decide)
      rw [hwords] at hhead ⊢
      exact hhead
    · refine hkey.bind (fun key hkey' => reads_expect.bind_cons fun _ _ =>
        Reads.map ((hvalues entry hentry).2.mono (fun w hw => endsAt_of_separator hw (by decide))
          fun _ hP => hP) fun value hvalue => ⟨_, ?_, rfl⟩) fun _ _ => endsAt_of_none rfl
      have hsymbol : key.isSymbol = false := hkey'.isSymbol.trans (hprimary entry hentry).2
      simp only [dictKey_of_isSymbol hsymbol, hkey'.eq, hvalue.eq]
  refine Reads.map (reads_commaSeparated (by decide) hitems rfl) fun found hfound => ?_
  simp only [Node.Alike, Node.unplaced, Node.unplacedEntries_eq_map, hfound]

end Atoms

section Accessors

variable {node : Node} {pos : Position}

theorem isRead_lookup {target key : Node} (htarget : target.IsTerm) (hlevel : 13 ≤ target.level)
    (hkey : key.IsTerm) (hreadTarget : IsRead tagOf nested target)
    (hreadKey : ReadsInside tagOf nested key) : IsRead tagOf nested (.lookup pos target key) := by
  refine .of_leads (.lookup htarget hlevel hkey) (show 13 ∈ loopLevels by decide) ?_
  rw [Node.words, List.append_assoc, List.cons_append]
  refine (hreadTarget.leads 13 (by decide) hlevel).more (List.cons_ne_nil _ _)
    (fun node hnode => Reads.peek_cons fun token htoken => ?_) fun _ _ => endsAt_of_some rfl (by decide)
  rw [show token.kind = .leftBracket from congrArg Prod.fst htoken]
  refine reads_next.bind_cons fun _ _ => hreadKey.bind (fun key' hkey' =>
    reads_expect.bind_cons fun _ _ => reads_pure ⟨_, rfl, ?_⟩) fun _ _ => endsAt_of_none rfl
  simp only [Node.Alike, Node.unplaced, hnode.eq, hkey'.eq]

theorem isRead_call {callee : Node} {args : List Node} {kwargs : List (String × Node)}
    (hcallee : callee.IsTerm) (hlevel : 13 ≤ callee.level) (hreadCallee : IsRead tagOf nested callee)
    (hargs : AreRead tagOf nested args) (hkwargs : AreRead tagOf nested (kwargs.map (·.2))) :
    IsRead tagOf nested (.call pos callee args kwargs) := by
  refine .of_leads (.call hcallee hlevel (fun node hnode => (hargs node hnode).1)
    fun entry hentry => (hkwargs _ (List.mem_map_of_mem hentry)).1) (show 13 ∈ loopLevels by decide) ?_
  rw [Node.words]
  refine (hreadCallee.leads 13 (by decide) hlevel).more (List.cons_ne_nil _ _)
    (fun node hnode => Reads.peek_cons fun token htoken => ?_) fun _ _ => endsAt_of_some rfl (by decide)
  rw [if_pos (show token.kind = .leftParen from congrArg Prod.fst htoken)]
  refine Reads.map (reads_callArguments hargs hkwargs) fun found hfound => ⟨_, rfl, ?_⟩
  obtain ⟨hpositional, hkeyword⟩ := hfound.unplaced
  simp only [Node.Alike, Node.unplaced, hpositional, hkeyword, hnode.eq]

end Accessors

section Filters

/-- One more part of a filter's name. -/
def nameStep (name : String) : Parser (Step String String) := do
  if ← skipOperator "." then return .more (name ++ "." ++ (← expectSymbol "filter name"))
  return .done name

theorem reads_nameParts (parts : List String) (name : String) :
    Reads (iterate nameStep name) (parts.flatMap fun part => [(.operator, "."), .symbol part])
      (· ≠ (.operator, "."))
      fun found => found.toList = name.toList ++ parts.flatMap fun part => '.' :: part.toList := by
  induction parts generalizing name with
  | nil =>
    refine reads_iterate_done ((reads_skipOperator_nil fun _ hw => hw).bind_nil
      (fun more hmore => ?_) fun _ hw => hw)
    subst hmore
    exact reads_pure ⟨name, rfl, by simp⟩
  | cons part parts ih =>
    rw [List.flatMap_cons]
    refine @reads_iterate_more _ _ _ _ _ _ (fun _ => True) _ _ (· = name ++ "." ++ part)
      (List.cons_ne_nil _ _) ?_ ?_ fun _ _ => trivial
    · refine reads_skipOperator.bind_cons fun more hmore => ?_
      subst hmore
      refine Reads.map reads_expectSymbol ?_
      rintro _ rfl
      exact ⟨_, rfl, rfl⟩
    · rintro _ rfl
      refine (ih _).mono (fun _ hw => hw) fun found hfound => ?_
      rw [hfound]
      simp [List.append_assoc]

/-- Items with a separator between them: the first one, and each of the others after a separator. -/
theorem intercalate_cons_eq_flatMap {α : Type} (sep first : List α) (rest : List (List α)) :
    sep.intercalate (first :: rest) = first ++ rest.flatMap (sep ++ ·) := by
  induction rest generalizing first with
  | nil => simp
  | cons second rest ih => rw [List.intercalate_cons_cons, ih, List.flatMap_cons, List.append_assoc,
      List.append_assoc]

theorem reads_filterName (name : String) :
    Reads filterName (dotted name) (· ≠ (.operator, ".")) (· = name) := by
  have hname : ['.'].intercalate (name.toList.splitOn '.') = name.toList := List.intercalate_splitOn '.'
  rw [dotted]
  cases hparts : name.toList.splitOn '.' with
  | nil => exact absurd hparts (List.splitOn_ne_nil _ _)
  | cons part parts =>
    rw [hparts, intercalate_cons_eq_flatMap] at hname
    refine reads_expectSymbol.bind_cons fun first hfirst => ?_
    subst hfirst
    refine (reads_nameParts _ _).mono (fun _ hw => hw) fun found hfound => ?_
    rw [← String.toList_inj, hfound, ← hname]
    simp [List.flatMap_map]

variable {pos : Position}

theorem isRead_filter {name : String} {target : Node} {args : List Node}
    {kwargs : List (String × Node)} (htarget : target.IsTerm) (hlevel : 12 ≤ target.level)
    (hreadTarget : IsRead tagOf nested target) (hargs : AreRead tagOf nested args)
    (hkwargs : AreRead tagOf nested (kwargs.map (·.2))) :
    IsRead tagOf nested (.filter pos name target args kwargs) := by
  refine .of_leads (.filter htarget hlevel (fun node hnode => (hargs node hnode).1)
    fun entry hentry => (hkwargs _ (List.mem_map_of_mem hentry)).1) (show 12 ∈ loopLevels by decide) ?_
  rw [Node.words, List.append_assoc, List.cons_append]
  refine (hreadTarget.leads 12 (by decide) hlevel).more (List.cons_ne_nil _ _)
    (fun node hnode => reads_skipKind.bind_cons fun piped hpiped => ?_)
    fun _ _ => endsAt_of_some rfl (by decide)
  subst hpiped
  have hargs' := @reads_optionalArguments tagOf nested (EndsAt 13) _ _ hargs hkwargs
    fun _ hw => hw.ne_leftParen (Nat.le_refl _)
  refine (@reads_peek fun _ => True).bind_nil (fun token _ => (reads_filterName name).bind
    (fun found hfound => Reads.map hargs' fun arguments harguments => ?_) fun w hw => ?_) fun _ _ => trivial
  · obtain ⟨hpositional, hkeyword⟩ := harguments.unplaced
    subst hfound
    refine ⟨_, rfl, ?_⟩
    simp only [Node.Alike, Node.unplaced, hpositional, hkeyword, hnode.eq]
  · rw [Word.optionalArguments]
    split
    · exact hw.ne (l := 13) rfl (Nat.le_refl _)
    · simp

end Filters

section Operators

variable {pos : Position}

theorem isRead_unary {op : UnaryOp} {operand : Node} (h : operand.IsTerm)
    (hlevel : op.level ≤ operand.level) (hread : IsRead tagOf nested operand) :
    IsRead tagOf nested (.unary pos op operand) := by
  have hsign : op.level ∈ signLevels := by
    cases op <;> decide
  refine .of_signs (.unary h hlevel) hsign fun ops => ?_
  rw [Node.words]
  refine @reads_iterate_bind_more _ _ _ _ [op.word] _ (fun _ => True) _ _ _
    (fun ops' => ∃ place, ops' = ops ++ [(place, op)]) _ (List.cons_ne_nil _ _) ?_ ?_ fun _ _ => trivial
  · refine Reads.peek_cons fun token _ => (reads_sign op).bind_last (fun found hfound => ?_) fun _ hw => hw
    subst hfound
    exact reads_pure ⟨_, rfl, token.pos, rfl⟩
  · rintro _ ⟨place, rfl⟩
    refine (hread.signs op.level hsign hlevel (ops ++ [(place, op)])).mono (fun _ hw => hw) ?_
    rintro _ ⟨node, hnode, rfl⟩
    refine ⟨.unary place op node, ?_, ?_⟩
    · simp only [Node.Alike, Node.unplaced, hnode.eq]
    · simp [applyUnary]

theorem isRead_binary {op : BinaryOp} {left right : Node} (hleft : left.IsTerm)
    (hleftLevel : op.level ≤ left.level) (hreadLeft : IsRead tagOf nested left)
    (hright : right.IsTerm) (hrightLevel : op.level < right.level)
    (hreadRight : IsRead tagOf nested right) : IsRead tagOf nested (.binary pos op left right) := by
  have hloop : op.level ∈ loopLevels := by
    cases op <;> decide
  have hstep (node : Node) : stepAt nested op.level node =
      chainStep (operatorAt op.level) (levelParser nested (op.level + 1)) node := by
    cases op <;> rfl
  have hne : op.words ≠ [] := by
    cases op <;> exact List.cons_ne_nil _ _
  have hjoin (w : Word) : EndsAt (op.level + 1) (op.words.headD w) := by
    cases op <;> exact endsAt_of_some rfl (by decide)
  refine .of_leads (.binary hleft hleftLevel hright hrightLevel) hloop ?_
  rw [Node.words, List.append_assoc]
  refine (hreadLeft.leads op.level hloop hleftLevel).more (by simp [hne]) (fun node hnode => ?_)
    fun w _ => ?_
  · rw [hstep]
    refine (@reads_operator (fun _ => True) op).bind (fun found hfound => ?_) fun _ _ => trivial
    subst hfound
    refine Reads.map (hreadRight.reads _ hrightLevel) fun node' hnode' => ⟨_, rfl, ?_⟩
    simp only [Node.Alike, Node.unplaced, hnode.eq, hnode'.eq]
  · obtain ⟨first, rest, hwords⟩ := List.exists_cons_of_ne_nil hne
    have hfirst := hjoin w
    rw [hwords] at hfirst ⊢
    exact hfirst

theorem reads_compared {rest : List (CompareOp × Node)} (before : List (CompareOp × Node))
    (hlevels : ∀ entry ∈ rest, 7 ≤ entry.2.level)
    (hrest : ∀ entry ∈ rest, IsRead tagOf nested entry.2) :
    Reads (iterate (comparedStep nested) before)
      ((rest.map fun entry => entry.1.word :: entry.2.words tagOf).flatten) (EndsAt 6)
      fun found => Node.unplacedCompared found = Node.unplacedCompared (before ++ rest) := by
  simp only [Node.unplacedCompared_eq_map]
  induction rest generalizing before with
  | nil =>
    refine (reads_compared_nil before).mono (fun _ hw => hw) ?_
    rintro _ rfl
    rw [List.append_nil]
  | cons entry rest ih =>
    obtain ⟨op, operand⟩ := entry
    rw [List.forall_mem_cons] at hlevels hrest
    rw [List.map_cons, List.flatten_cons]
    have hjoin (w : Word) (hw : w.EndsAt 6) : EndsAt 7
        (((rest.map fun entry => entry.1.word :: entry.2.words tagOf).flatten).headD w) := by
      cases rest with
      | nil => exact hw.mono (by decide)
      | cons entry rest =>
        obtain ⟨op', operand'⟩ := entry
        cases op' <;> exact endsAt_of_some rfl (by decide)
    refine @reads_iterate_more _ _ _ _ _ _ (EndsAt 7) _ _
      (fun found => ∃ operand', operand.Alike operand' ∧ found = before ++ [(op, operand')])
      (List.cons_ne_nil _ _) ?_ ?_ hjoin
    · refine (reads_compareOperator op).bind_cons fun found hfound => ?_
      subst hfound
      exact Reads.map (hrest.1.reads 7 hlevels.1) fun operand' hoperand' =>
        ⟨_, rfl, operand', hoperand', rfl⟩
    · rintro _ ⟨operand', hoperand', rfl⟩
      refine (ih _ hlevels.2 hrest.2).mono (fun _ hw => hw) fun found hfound => ?_
      rw [hfound]
      simp [hoperand'.eq]

theorem isRead_compare {first : Node} {rest : List (CompareOp × Node)} (hfirst : first.IsTerm)
    (hlevel : 7 ≤ first.level) (hreadFirst : IsRead tagOf nested first) (hne : rest ≠ [])
    (hrest : ∀ entry ∈ rest, entry.2.IsTerm) (hlevels : ∀ entry ∈ rest, 7 ≤ entry.2.level)
    (hreadRest : ∀ entry ∈ rest, IsRead tagOf nested entry.2) :
    IsRead tagOf nested (.compare pos first rest) := by
  refine .of_reads (.compare hfirst hlevel hne hrest hlevels) (show 6 ∈ [0, 5, 6, 14] by decide) ?_
  rw [Node.words, Node.comparedSpellings_eq_map]
  refine (hreadFirst.reads 7 hlevel).bind (fun node hnode =>
    (reads_compared [] hlevels hreadRest).bind_last (fun found hfound => ?_) fun _ hw => hw)
    fun w _ => ?_
  · rw [List.nil_append] at hfound
    have hempty : found.isEmpty = false := by
      rw [Node.unplacedCompared_eq_map, Node.unplacedCompared_eq_map] at hfound
      rw [isEmpty_eq_of_map_eq hfound]
      simpa using hne
    rw [hempty]
    refine reads_pure ?_
    simp only [Node.Alike, Node.unplaced, hnode.eq, hfound]
  · obtain ⟨entry, rest, rfl⟩ := List.exists_cons_of_ne_nil hne
    obtain ⟨op, operand⟩ := entry
    cases op <;> exact endsAt_of_some rfl (by decide)

theorem isRead_test {target : Node} {name : String} {args : List Node} {negated : Bool}
    (htarget : target.IsTerm) (hlevel : 6 ≤ target.level) (hname : name ≠ "not")
    (hreadTarget : IsRead tagOf nested target) (hargs : AreRead tagOf nested args) :
    IsRead tagOf nested (.test pos target name args negated) := by
  refine .of_reads (.test htarget hlevel hname fun node hnode => (hargs node hnode).1)
    (show 5 ∈ [0, 5, 6, 14] by decide) ?_
  have hnegated : Reads (skipSymbol "not") (if negated then [.symbol "not"] else [])
      (· ≠ .symbol "not") (· = negated) := by
    cases negated with
    | true => exact reads_skipSymbol
    | false => exact reads_skipSymbol_nil fun _ hw => hw
  have hargs' := @reads_optionalArguments tagOf nested (EndsAt 5) args [] hargs (by simp [AreRead])
    fun _ hw => hw.ne_leftParen (by decide)
  rw [Node.keywordSpellings, List.append_nil] at hargs'
  rw [Node.words, List.append_assoc, List.cons_append]
  refine (hreadTarget.reads 6 hlevel).bind (fun node hnode =>
    reads_skipSymbol.bind_cons fun is his => ?_) fun _ _ => endsAt_of_some rfl (by decide)
  subst his
  refine hnegated.bind (fun found hfound => reads_expectSymbol.bind_cons fun found' hfound' =>
    Reads.map hargs' fun arguments harguments => ?_) fun _ _ => ?_
  · subst hfound hfound'
    obtain ⟨hpositional, -⟩ := harguments.unplaced
    simp only [Node.Alike, Node.unplaced, hpositional, hnode.eq]
  · exact fun heq => hname (congrArg Prod.snd heq)

theorem isRead_inlineIf {cond body : Node} {otherwise : Option Node} (hcond : cond.IsTerm)
    (hcondLevel : 1 ≤ cond.level) (hreadCond : IsRead tagOf nested cond) (hbody : body.IsTerm)
    (hbodyLevel : 1 ≤ body.level) (hreadBody : IsRead tagOf nested body)
    (hotherwise : ∀ node ∈ otherwise, node.IsTerm) (hlevel : ∀ node ∈ otherwise, 1 ≤ node.level)
    (hreadOtherwise : ∀ node ∈ otherwise, IsRead tagOf nested node) :
    IsRead tagOf nested (.inlineIf pos cond body otherwise) := by
  refine .of_reads (.inlineIf hcond hcondLevel hbody hbodyLevel hotherwise hlevel)
    (show 0 ∈ [0, 5, 6, 14] by decide) ?_
  rw [Node.words, List.append_assoc, List.cons_append]
  refine (hreadBody.reads 1 hbodyLevel).bind (fun body' hbody' =>
    reads_skipSymbol.bind_cons fun conditional hconditional => ?_) fun _ _ => endsAt_of_some rfl (by decide)
  subst hconditional
  refine (hreadCond.reads 1 hcondLevel).bind (fun cond' hcond' => ?_) fun w hw => ?_
  · cases otherwise with
    | none =>
      refine (reads_skipSymbol_nil fun w hw => hw.ne rfl (Nat.le_refl 0)).bind_nil
        (fun alternative halternative => ?_) fun _ hw => hw
      subst halternative
      refine reads_pure ?_
      simp only [Node.Alike, Node.unplaced, hcond'.eq, hbody'.eq]
    | some node =>
      refine reads_skipSymbol.bind_cons fun alternative halternative => ?_
      subst halternative
      refine Reads.map (((hreadOtherwise node rfl).reads 1 (hlevel node rfl)).mono
        (fun _ hw => hw.mono (Nat.zero_le _)) fun _ hP => hP) fun node' hnode' => ?_
      simp only [Node.Alike, Node.unplaced, Node.unplacedOption, hcond'.eq, hbody'.eq, hnode'.eq]
  · cases otherwise with
    | none => exact hw.mono (Nat.zero_le _)
    | some node => exact endsAt_of_some rfl (by decide)

end Operators

section Depth

/-- The parsers of what is nested no less deep than the node is long read it back. -/
def ReadsDeep (tagOf : Node → String) (node : Node) : Prop :=
  ∀ depth, (node.words tagOf).length ≤ depth → IsRead tagOf (nestedTo depth) node

variable {node : Node} {depth : Nat}

theorem ReadsDeep.inside (h : ReadsDeep tagOf node) (hlt : (node.words tagOf).length < depth) :
    ReadsInside tagOf (nestedTo depth) node := by
  obtain ⟨outer, rfl⟩ := Nat.exists_eq_add_one_of_ne_zero (Nat.ne_zero_of_lt hlt)
  exact (h outer (Nat.le_of_lt_succ hlt)).reads 0 (Nat.zero_le _)

theorem ReadsDeep.primary (h : ReadsDeep tagOf node) (hlt : (node.words tagOf).length < depth)
    (hlevel : 13 ≤ node.level) :
    Reads (nestedTo depth .primary) (node.words tagOf) (EndsAt 13) node.Alike := by
  obtain ⟨outer, rfl⟩ := Nat.exists_eq_add_one_of_ne_zero (Nat.ne_zero_of_lt hlt)
  exact (h outer (Nat.le_of_lt_succ hlt)).reads 13 hlevel

theorem length_lt_optionalArguments {items : List (List Word)} {item : List Word} (h : item ∈ items) :
    item.length < (Word.optionalArguments items).length := by
  rw [Word.optionalArguments, if_neg (by simpa using List.ne_nil_of_mem h), List.length_cons]
  exact Nat.lt_succ_of_lt (length_lt_listed rightParen h)

/-- The arguments of a call are read back where all their words are nested. -/
theorem areRead_arguments {args : List Node} {kwargs : List (String × Node)}
    (hargs : ∀ node ∈ args, node.IsTerm ∧ ReadsDeep tagOf node)
    (hkwargs : ∀ entry ∈ kwargs, entry.2.IsTerm ∧ ReadsDeep tagOf entry.2)
    (hlt : ∀ item ∈ Node.spellings tagOf args ++ Node.keywordSpellings tagOf kwargs,
      item.length < depth) :
    AreRead tagOf (nestedTo depth) args ∧ AreRead tagOf (nestedTo depth) (kwargs.map (·.2)) := by
  rw [Node.spellings_eq_map, Node.keywordSpellings_eq_map fun entry hentry =>
    (hkwargs entry hentry).1.isCallerBody, List.forall_mem_append, List.forall_mem_map,
    List.forall_mem_map] at hlt
  refine ⟨fun node hnode => ⟨(hargs node hnode).1, (hargs node hnode).2.inside (hlt.1 node hnode)⟩,
    List.forall_mem_map.mpr fun entry hentry => ?_⟩
  have hlength := hlt.2 entry hentry
  rw [List.length_cons, List.length_cons] at hlength
  exact ⟨(hkwargs entry hentry).1, (hkwargs entry hentry).2.inside (by omega)⟩

/-- Every expression is read back by the parsers of what is nested no less deep than it is long. -/
theorem readsDeep_of_isTerm (h : node.IsTerm) : ReadsDeep tagOf node := by
  induction h with
  | literal h => exact fun _ _ => isRead_literal h
  | symbol h => exact fun _ _ => isRead_symbol h
  | group h ih =>
    intro depth hdepth
    rw [Node.words] at hdepth
    simp only [List.length_append, List.length_cons] at hdepth
    exact isRead_group h (ih.inside (by omega))
  | @array pos items h ih =>
    intro depth hdepth
    rw [Node.words, Node.spellings_eq_map, List.length_cons] at hdepth
    refine isRead_array fun node hnode => ⟨h node hnode, (ih node hnode).inside ?_⟩
    exact Nat.lt_of_lt_of_le (length_lt_listed rightBracket (List.mem_map_of_mem hnode)) (by omega)
  | @dict pos entries hkeys hprimary hvalues ihkeys ihvalues =>
    intro depth hdepth
    rw [Node.words, Node.entrySpellings_eq_map, List.length_cons] at hdepth
    have hlength : ∀ item ∈ entries.map fun entry => entry.1.words tagOf ++ .colon :: entry.2.words tagOf,
        item.length < depth :=
      fun item hitem => Nat.lt_of_lt_of_le (length_lt_listed rightCurly hitem) (by omega)
    simp only [List.forall_mem_map, List.length_append, List.length_cons] at hlength
    refine isRead_dict hprimary (fun entry hentry => ⟨hkeys entry hentry, ?_⟩)
      fun entry hentry => ⟨hvalues entry hentry, (ihvalues entry hentry).inside ?_⟩
    · exact (ihkeys entry hentry).primary (by have := hlength entry hentry; omega) (hprimary entry hentry).1
    · have := hlength entry hentry
      omega
  | lookup htarget hlevel hkey ihtarget ihkey =>
    intro depth hdepth
    rw [Node.words] at hdepth
    simp only [List.length_append, List.length_cons] at hdepth
    exact isRead_lookup htarget hlevel hkey (ihtarget depth (by omega)) (ihkey.inside (by omega))
  | @call pos callee args kwargs hcallee hlevel hargs hkwargs ihcallee ihargs ihkwargs =>
    intro depth hdepth
    rw [Node.words, List.length_append, List.length_cons] at hdepth
    obtain ⟨hreadArgs, hreadKwargs⟩ := @areRead_arguments tagOf depth args kwargs
      (fun node hnode => ⟨hargs node hnode, ihargs node hnode⟩)
      (fun entry hentry => ⟨hkwargs entry hentry, ihkwargs entry hentry⟩)
      fun item hitem => Nat.lt_of_lt_of_le (length_lt_listed rightParen hitem) (by omega)
    exact isRead_call hcallee hlevel (ihcallee depth (by omega)) hreadArgs hreadKwargs
  | @filter pos name target args kwargs htarget hlevel hargs hkwargs ihtarget ihargs ihkwargs =>
    intro depth hdepth
    rw [Node.words] at hdepth
    simp only [List.length_append, List.length_cons] at hdepth
    obtain ⟨hreadArgs, hreadKwargs⟩ := @areRead_arguments tagOf depth args kwargs
      (fun node hnode => ⟨hargs node hnode, ihargs node hnode⟩)
      (fun entry hentry => ⟨hkwargs entry hentry, ihkwargs entry hentry⟩)
      fun item hitem => Nat.lt_of_lt_of_le (length_lt_optionalArguments hitem) (by omega)
    exact isRead_filter htarget hlevel (ihtarget depth (by omega)) hreadArgs hreadKwargs
  | @test pos target name args negated htarget hlevel hname hargs ihtarget ihargs =>
    intro depth hdepth
    rw [Node.words] at hdepth
    simp only [List.length_append, List.length_cons] at hdepth
    obtain ⟨hreadArgs, -⟩ := @areRead_arguments tagOf depth args []
      (fun node hnode => ⟨hargs node hnode, ihargs node hnode⟩) (by simp) (by
        rw [Node.keywordSpellings, List.append_nil]
        exact fun item hitem => Nat.lt_of_lt_of_le (length_lt_optionalArguments hitem) (by omega))
    exact isRead_test htarget hlevel hname (ihtarget depth (by omega)) hreadArgs
  | unary h hlevel ih =>
    intro depth hdepth
    rw [Node.words, List.length_cons] at hdepth
    exact isRead_unary h hlevel (ih depth (by omega))
  | binary hleft hleftLevel hright hrightLevel ihleft ihright =>
    intro depth hdepth
    rw [Node.words, List.length_append, List.length_append] at hdepth
    exact isRead_binary hleft hleftLevel (ihleft depth (by omega)) hright hrightLevel
      (ihright depth (by omega))
  | @compare pos first rest hfirst hlevel hne hrest hlevels ihfirst ihrest =>
    intro depth hdepth
    rw [Node.words, Node.comparedSpellings_eq_map, List.length_append] at hdepth
    refine isRead_compare hfirst hlevel (ihfirst depth (by omega)) hne hrest hlevels
      fun entry hentry => ihrest entry hentry depth ?_
    obtain ⟨before, after, rfl⟩ := List.append_of_mem hentry
    simp only [List.map_append, List.map_cons, List.flatten_append, List.flatten_cons,
      List.length_append, List.length_cons] at hdepth
    omega
  | @inlineIf pos cond body otherwise hcond hcondLevel hbody hbodyLevel hotherwise hlevel ihcond ihbody
      ihotherwise =>
    intro depth hdepth
    rw [Node.words] at hdepth
    simp only [List.length_append, List.length_cons] at hdepth
    refine isRead_inlineIf hcond hcondLevel (ihcond depth (by omega)) hbody hbodyLevel
      (ihbody depth (by omega)) hotherwise hlevel ?_
    rintro node hnode
    refine ihotherwise node hnode depth ?_
    obtain rfl : otherwise = some node := hnode
    rw [Node.alternativeWords, List.length_cons] at hdepth
    omega

end Depth

end Expression

open Expression in
/-- The parser of expressions reads every expression back from its words. -/
theorem Parser.reads_expression {tagOf : Node → String} {node : Node} (h : node.IsTerm) :
    Reads expression (node.words tagOf) (EndsAt 0) node.Alike := by
  intro s tokens htokens hs
  have hlength : (node.words tagOf).length < (s.after tokens).pending.length + 1 := by
    rw [← htokens, TokenStream.length_pending_after, List.length_map]
    omega
  exact (readsDeep_of_isTerm h).inside hlength s tokens htokens hs

end TemplateManifest
