import TemplateManifest.Proofs.Template.Spelling

/-!
The parser of expressions reads the words of an expression back. Each level of the grammar reads
every expression that binds at least as tightly, where the next word does not go on with it.
-/

namespace TemplateManifest

open Parser Expression

namespace Word

/-- The level at which a word goes on with an expression before it. -/
def joinLevel? : Word → Option Nat
  | (.pipe, _) => some 12
  | (.leftParen, _) | (.leftBracket, _) => some 13
  | (.symbol, name) =>
    [("if", 0), ("else", 0), ("or", 1), ("and", 2), ("not", 4), ("in", 4), ("is", 5)].lookup name
  | (.operator, op) =>
    [("==", 6), ("===", 6), ("!=", 6), ("!==", 6), ("<", 6), (">", 6), ("<=", 6), (">=", 6),
     ("~", 7), ("+", 8), ("-", 8), ("*", 9), ("//", 9), ("/", 9), ("%", 9), ("**", 10),
     (".", 13)].lookup op
  | _ => none

/-- The word does not go on with an expression that binds as tightly as the level. -/
def EndsAt (level : Nat) (w : Word) : Prop :=
  ∀ l ∈ w.joinLevel?, l < level

variable {level level' : Nat} {w w' : Word}

theorem EndsAt.mono (h : EndsAt level w) (hle : level ≤ level') : EndsAt level' w :=
  fun l hl => Nat.lt_of_lt_of_le (h l hl) hle

theorem EndsAt.ne {l : Nat} (h : EndsAt level w) (hw : w'.joinLevel? = some l) (hle : level ≤ l) :
    w ≠ w' := by
  rintro rfl
  exact absurd (h l hw) (Nat.not_lt.mpr hle)

theorem endsAt_of_none (h : w.joinLevel? = none) : EndsAt level w := by
  simp [EndsAt, h]

theorem endsAt_of_some {l : Nat} (h : w.joinLevel? = some l) (hlt : l < level) : EndsAt level w := by
  rintro _ hl
  rw [h] at hl
  cases hl
  exact hlt

theorem EndsAt.ne_pipe (h : EndsAt level w) (hle : level ≤ 12) : w.1 ≠ .pipe := by
  obtain ⟨kind, value⟩ := w
  rintro rfl
  exact absurd (h 12 rfl) (Nat.not_lt.mpr hle)

theorem EndsAt.ne_leftParen (h : EndsAt level w) (hle : level ≤ 13) : w.1 ≠ .leftParen := by
  obtain ⟨kind, value⟩ := w
  rintro rfl
  exact absurd (h 13 rfl) (Nat.not_lt.mpr hle)

theorem EndsAt.ne_leftBracket (h : EndsAt level w) (hle : level ≤ 13) : w.1 ≠ .leftBracket := by
  obtain ⟨kind, value⟩ := w
  rintro rfl
  exact absurd (h 13 rfl) (Nat.not_lt.mpr hle)

/-- The word starts an expression that binds as tightly as the level. -/
def StartsAt (level : Nat) (w : Word) : Prop :=
  (w.1 ∈ [.string, .int, .symbol, .leftParen, .leftBracket, .leftCurly] ∧ w ≠ symbol "not") ∨
    (w = symbol "not" ∧ level ≤ 3) ∨ (w ∈ [(.operator, "-"), (.operator, "+")] ∧ level ≤ 11)

theorem StartsAt.mono (h : StartsAt level w) (hle : level' ≤ level) : StartsAt level' w :=
  h.imp_right (Or.imp (And.imp_right (Nat.le_trans hle)) (And.imp_right (Nat.le_trans hle)))

theorem StartsAt.kind_mem (h : StartsAt level w) :
    w.1 ∈ [.string, .int, .symbol, .leftParen, .leftBracket, .leftCurly, .operator] := by
  obtain ⟨hkind, -⟩ | ⟨rfl, -⟩ | ⟨hsign, -⟩ := h
  · exact List.mem_append_left [.operator] hkind
  · decide
  · simp only [List.mem_cons, List.not_mem_nil, or_false] at hsign
    obtain rfl | rfl := hsign <;> decide

theorem StartsAt.ne_assigns (h : StartsAt level w) : w ≠ assigns := by
  rintro rfl
  obtain ⟨hkind, -⟩ | ⟨hnot, -⟩ | ⟨hsign, -⟩ := h
  · simp at hkind
  · cases hnot
  · simp at hsign

theorem StartsAt.ne_not (h : StartsAt level w) (hlevel : 3 < level) : w ≠ symbol "not" := by
  rintro rfl
  obtain ⟨-, hne⟩ | ⟨-, hle⟩ | ⟨hsign, -⟩ := h
  · exact hne rfl
  · omega
  · simp at hsign

theorem StartsAt.ne_sign (h : StartsAt level w) (hlevel : 11 < level) : w.1 ≠ .operator := by
  obtain ⟨hkind, -⟩ | ⟨rfl, -⟩ | ⟨-, hle⟩ := h
  · rintro heq
    simp [heq] at hkind
  · decide
  · omega

end Word

open Word

/-- The words start an expression that binds as tightly as the level, and they start no keyword
    argument. -/
def Opens (level : Nat) (words : List Word) : Prop :=
  ∃ w rest, words = w :: rest ∧ w.StartsAt level ∧ ∀ w' ∈ rest.head?, w' ≠ assigns

namespace Opens

variable {level level' : Nat} {words words' : List Word}

theorem append (h : Opens level words) (hle : level' ≤ level)
    (hnext : ∀ w ∈ words'.head?, w ≠ assigns) : Opens level' (words ++ words') := by
  obtain ⟨w, rest, rfl, hw, hrest⟩ := h
  refine ⟨w, rest ++ words', rfl, hw.mono hle, fun w' hw' => ?_⟩
  cases rest with
  | nil => exact hnext w' hw'
  | cons first rest => exact hrest w' hw'

theorem of_atom {w : Word} {rest : List Word}
    (hkind : w.1 ∈ [.string, .int, .symbol, .leftParen, .leftBracket, .leftCurly])
    (hw : w ≠ symbol "not") (hrest : ∀ w' ∈ rest.head?, w' ≠ assigns) : Opens level (w :: rest) :=
  ⟨w, rest, rfl, .inl ⟨hkind, hw⟩, hrest⟩

theorem mono (h : Opens level words) (hle : level' ≤ level) : Opens level' words := by
  obtain ⟨w, rest, rfl, hw, hrest⟩ := h
  exact ⟨w, rest, rfl, hw.mono hle, hrest⟩

theorem ne_nil (h : Opens level words) : words ≠ [] := by
  obtain ⟨w, rest, rfl, -⟩ := h
  exact List.cons_ne_nil _ _

theorem headD (h : Opens level words) (w' : Word) : (words.headD w').StartsAt level := by
  obtain ⟨w, rest, rfl, hw, -⟩ := h
  exact hw

theorem head? (h : Opens level words) : ∀ w ∈ words.head?, w.StartsAt level := by
  obtain ⟨w, rest, rfl, hw, -⟩ := h
  rintro _ ⟨⟩
  exact hw

theorem head?_ne_assigns (h : Opens level words) : ∀ w ∈ words.head?, w ≠ assigns :=
  fun w hw => (h.head? w hw).ne_assigns

end Opens

theorem head?_listed_ne_assigns {items : List (List Word)} {close : Word} (hclose : close ≠ assigns)
    (h : ∀ item ∈ items, item ≠ [] ∧ ∀ w ∈ item.head?, w ≠ assigns) :
    ∀ w ∈ (listed close items).head?, w ≠ assigns := by
  cases items with
  | nil =>
    rintro _ ⟨⟩
    exact hclose
  | cons item items =>
    obtain ⟨hne, hhead⟩ := h item List.mem_cons_self
    obtain ⟨first, rest, rfl⟩ := List.exists_cons_of_ne_nil hne
    rintro _ ⟨⟩
    exact hhead first rfl

namespace Node

variable {tagOf : Node → String} {node : Node}

theorem keywordSpellings_eq_map {kwargs : List (String × Node)}
    (h : ∀ entry ∈ kwargs, entry.2.isCallerBody = false) :
    keywordSpellings tagOf kwargs =
      kwargs.map fun entry => Word.symbol entry.1 :: .assigns :: words tagOf entry.2 := by
  induction kwargs with
  | nil => rfl
  | cons entry kwargs ih =>
    obtain ⟨name, value⟩ := entry
    rw [List.forall_mem_cons] at h
    rw [keywordSpellings, ih h.2, List.map_cons]
    rintro _ _ _ rfl
    cases h.1

theorem IsTerm.isCallerBody (h : node.IsTerm) : node.isCallerBody = false := by
  cases h <;> rfl

variable (tagOf) in
/-- The words of an expression start one. -/
theorem opens_words (h : node.IsTerm) : Opens node.level (words tagOf node) := by
  induction h with
  | @literal pos value h =>
    cases value with
    | bool value => cases value <;> exact .of_atom (by decide) (by decide) (by simp)
    | float value => cases h
    | str value => exact .of_atom (by simp [Literal.word]) (by simp [Literal.word]) (by simp)
    | int value => exact .of_atom (by simp [Literal.word]) (by simp [Literal.word]) (by simp)
    | none => exact .of_atom (by decide) (by decide) (by simp)
  | @symbol pos name h =>
    refine .of_atom (by simp) ?_ (by simp)
    rintro heq
    obtain rfl : name = "not" := congrArg Prod.snd heq
    exact h (by decide)
  | group h ih =>
    rw [words]
    exact .of_atom (by simp) (by simp) (Opens.append ih (Nat.le_refl _) (by simp)).head?_ne_assigns
  | array h ih =>
    rw [words, spellings_eq_map]
    refine .of_atom (by simp) (by simp) (head?_listed_ne_assigns (by simp) ?_)
    rw [List.forall_mem_map]
    exact fun node hnode => ⟨(ih node hnode).ne_nil, (ih node hnode).head?_ne_assigns⟩
  | dict hkeys hprimary hvalues ihkeys ihvalues =>
    rw [words, entrySpellings_eq_map]
    refine .of_atom (by simp) (by simp) (head?_listed_ne_assigns (by simp) ?_)
    rw [List.forall_mem_map]
    intro entry hentry
    have hopens : Opens entry.1.level (words tagOf entry.1 ++ .colon :: words tagOf entry.2) :=
      (ihkeys entry hentry).append (Nat.le_refl _) (by simp)
    exact ⟨hopens.ne_nil, hopens.head?_ne_assigns⟩
  | lookup htarget hlevel hkey ihtarget ihkey =>
    rw [words, List.append_assoc]
    exact ihtarget.append hlevel (by simp)
  | call hcallee hlevel hargs hkwargs ihcallee ihargs ihkwargs =>
    rw [words]
    exact ihcallee.append hlevel (by simp)
  | filter htarget hlevel hargs hkwargs ihtarget ihargs ihkwargs =>
    rw [words, List.append_assoc]
    exact ihtarget.append hlevel (by simp)
  | test htarget hlevel hname hargs ihtarget ihargs =>
    rw [words, List.append_assoc]
    exact ihtarget.append (Nat.le_trans (show 5 ≤ 6 by decide) hlevel) (by simp)
  | @unary pos op operand h hlevel ih =>
    refine ⟨op.word, words tagOf operand, by rw [words], ?_, ih.head?_ne_assigns⟩
    cases op with
    | not => exact .inr (.inl ⟨rfl, Nat.le_refl 3⟩)
    | neg => exact .inr (.inr ⟨by decide, Nat.le_refl 11⟩)
    | pos => exact .inr (.inr ⟨by decide, Nat.le_refl 11⟩)
  | @binary pos op left right hleft hleftLevel hright hrightLevel ihleft ihright =>
    rw [words, List.append_assoc]
    exact ihleft.append hleftLevel (by cases op <;> simp [BinaryOp.words])
  | @compare pos first rest hfirst hlevel hne hrest hlevels ihfirst ihrest =>
    rw [words]
    refine ihfirst.append (Nat.le_trans (show 6 ≤ 7 by decide) hlevel) ?_
    cases rest with
    | nil => simp [comparedSpellings]
    | cons entry rest =>
      obtain ⟨op, operand⟩ := entry
      cases op <;> simp [comparedSpellings, CompareOp.word]
  | inlineIf hcond hcondLevel hbody hbodyLevel hotherwise hotherwiseLevel ihcond ihbody ihotherwise =>
    rw [words, List.append_assoc]
    exact ihbody.append (Nat.zero_le _) (by simp)

end Node

section Operators

variable {α : Type} {ends : Word → Prop}

theorem reads_wordOperator {word : String} {op : α} :
    Reads (wordOperator word op) [.symbol word] ends (· = some op) :=
  reads_skipSymbol.bind_cons fun skipped hskipped => by
    subst hskipped
    exact reads_pure rfl

theorem reads_wordOperator_nil {word : String} {op : α} (h : ∀ w, ends w → w ≠ .symbol word) :
    Reads (wordOperator word op) [] ends (· = none) :=
  (reads_skipSymbol_nil h).bind_nil (fun skipped hskipped => by
    subst hskipped
    exact reads_pure rfl) fun _ hw => hw

theorem reads_skipOneOf {operators : List (String × α)} {text : String} {op : α}
    (h : (operators.find? fun entry => entry.1 = text) = some (text, op)) :
    Reads (skipOneOf operators) [(.operator, text)] ends (· = some op) := by
  intro s tokens htokens _
  obtain ⟨token, rfl, hword⟩ := List.map_eq_singleton_iff.mp htokens
  have hfind : operators.find? (fun entry => token.isOperator entry.1) = some (text, op) := by
    rw [← h]
    congr 1
    funext entry
    obtain ⟨hkind, hvalue⟩ := Prod.mk.inj hword
    simp [Token.isOperator, hkind, hvalue, eq_comm]
  refine ⟨some op, ?_, rfl⟩
  rw [skipOneOf, TokenStream.head_after_cons, hfind]
  rfl

theorem reads_skipOneOf_nil {operators : List (String × α)}
    (h : ∀ w, ends w → ∀ entry ∈ operators, w ≠ (.operator, entry.1)) :
    Reads (skipOneOf operators) [] ends (· = none) := by
  intro s tokens htokens hs
  obtain rfl := List.map_eq_nil_iff.mp htokens
  have hfind : operators.find? (fun entry => s.head.isOperator entry.1) = none := by
    rw [List.find?_eq_none]
    exact fun entry hentry hop => h _ hs entry hentry (Token.isOperator_iff.mp hop)
  refine ⟨none, ?_, rfl⟩
  rw [TokenStream.after_nil, skipOneOf, hfind]

theorem reads_notIn : Reads membershipOperator BinaryOp.notIn.words ends (· = some .notIn) :=
  Reads.peek_cons fun first hfirst =>
    (@Reads.peekSecond_cons _ _ _ (· = Word.symbol "in") _ _ _) (fun second hsecond => by
      rw [Token.isSymbol_iff.mpr hfirst, Token.isSymbol_iff.mpr hsecond]
      exact reads_next.bind_cons fun _ _ => reads_next.bind_cons fun _ _ => reads_pure rfl)
    fun _ _ => rfl

theorem isSymbol_eq_false {token : Token} {name : String} (h : token.word ≠ .symbol name) :
    token.isSymbol name = false :=
  Bool.eq_false_iff.mpr fun hname => h (Token.isSymbol_iff.mp hname)

theorem reads_in : Reads membershipOperator BinaryOp.in.words ends (· = some .in) :=
  Reads.peek_cons fun first hfirst =>
    (@reads_peekSecond fun _ => True).bind_nil (fun second _ => by
      rw [@isSymbol_eq_false first "not" (by rw [hfirst]; simp), Bool.false_and]
      refine reads_skipSymbol.bind_cons fun skipped hskipped => ?_
      subst hskipped
      exact reads_pure rfl) fun _ _ => trivial

theorem reads_membershipOperator_nil
    (h : ∀ w, ends w → w ≠ Word.symbol "not" ∧ w ≠ Word.symbol "in") :
    Reads membershipOperator [] ends (· = none) :=
  reads_peek.bind_nil (fun first hfirst =>
    (@reads_peekSecond ends).bind_nil (fun second _ => by
      rw [isSymbol_eq_false (h _ hfirst).1, Bool.false_and]
      refine (reads_skipSymbol_nil fun w hw => (h w hw).2).bind_nil (fun skipped hskipped => ?_)
        fun _ hw => hw
      subst hskipped
      exact reads_pure rfl) fun _ hw => hw) fun _ hw => hw

end Operators

namespace Expression

section

variable (nested : Nested)

/-- The parser of a level of the grammar. -/
def levelParser : Nat → Parser Node
  | 0 => expressionOver nested
  | 1 => disjunction nested
  | 2 => conjunction nested
  | 3 => negation nested
  | 4 => membership nested
  | 5 => tested nested
  | 6 => comparison nested
  | 7 => concatenation nested
  | 8 => sum nested
  | 9 => product nested
  | 10 => power nested
  | 11 => signed nested
  | 12 => do filters nested (← primaryOver nested)
  | 13 => primaryOver nested
  | _ => atom nested

end

/-- The parser of the operators of a level. -/
def operatorAt : Nat → Parser (Option BinaryOp)
  | 1 => wordOperator "or" .or
  | 2 => wordOperator "and" .and
  | 4 => membershipOperator
  | 7 => skipOneOf [("~", .concat)]
  | 8 => skipOneOf [("+", .add), ("-", .sub)]
  | 9 => skipOneOf [("*", .mul), ("//", .floorDiv), ("/", .div), ("%", .mod)]
  | _ => skipOneOf [("**", .pow)]

/-- One more operator and operand of a chain. -/
def chainStep (operator : Parser (Option BinaryOp)) (operand : Parser Node) (left : Node) :
    Parser (Step Node Node) := do
  match ← operator with
  | some op => return .more (.binary left.pos op left (← operand))
  | none => return .done left

/-- One more filter of a node. -/
def filterStep (nested : Nested) (node : Node) : Parser (Step Node Node) := do
  unless ← skipKind .pipe do return .done node
  let token ← peek
  let name ← filterName
  let args ← optionalArguments nested
  return .more (.filter token.pos name node args.positional args.keyword)

/-- One more operand of a chain of comparisons. -/
def comparedStep (nested : Nested) (rest : List (CompareOp × Node)) :
    Parser (Step (List (CompareOp × Node)) (List (CompareOp × Node))) := do
  match ← skipOneOf CompareOp.spellings with
  | some op => return .more (rest ++ [(op, ← concatenation nested)])
  | none => return .done rest

/-- The levels at which an expression goes on any number of times. -/
def loopLevels : List Nat := [1, 2, 4, 7, 8, 9, 10, 12, 13]

/-- How an expression goes on at a level: by an operator, a filter or an accessor. -/
def stepAt (nested : Nested) : Nat → Node → Parser (Step Node Node)
  | 12 => filterStep nested
  | 13 => accessor nested
  | level => chainStep (operatorAt level) (levelParser nested (level + 1))

/-- The levels at which an expression starts with operators. -/
def signLevels : List Nat := [3, 11]

/-- The parser of the operators before an expression of a level. -/
def signAt : Nat → Parser (Option UnaryOp)
  | 3 => wordOperator "not" .not
  | _ => skipOneOf signs

/-- One more unary operator. -/
def unaryStep (one : Parser (Option UnaryOp)) (ops : List (Position × UnaryOp)) :
    Parser (Step (List (Position × UnaryOp)) (List (Position × UnaryOp))) := do
  let token ← peek
  match ← one with
  | some op => return .more (ops ++ [(token.pos, op)])
  | none => return .done ops

/-- Reads the rest of an expression with some unary operators before it. -/
def unaryFrom (nested : Nested) (level : Nat) (ops : List (Position × UnaryOp)) : Parser Node := do
  let ops ← iterate (unaryStep (signAt level)) ops
  return applyUnary ops (← levelParser nested (level + 1))

variable {nested : Nested} {ends : Word → Prop} {level : Nat}

theorem levelParser_loop (h : level ∈ loopLevels) :
    levelParser nested level = levelParser nested (level + 1) >>= iterate (stepAt nested level) := by
  simp only [loopLevels, List.mem_cons, List.not_mem_nil, or_false] at h
  rcases h with rfl | rfl | rfl | rfl | rfl | rfl | rfl | rfl | rfl <;> rfl

theorem levelParser_sign (h : level ∈ signLevels) :
    levelParser nested level = unaryFrom nested level [] := by
  simp only [signLevels, List.mem_cons, List.not_mem_nil, or_false] at h
  rcases h with rfl | rfl
  · rfl
  · change signed nested = _
    simp only [signed, unaryFrom, levelParser, bind_assoc]
    rfl

theorem reads_operator (op : BinaryOp) :
    Reads (operatorAt op.level) op.words ends (· = some op) := by
  cases op with
  | or | and => exact reads_wordOperator
  | «in» => exact reads_in
  | notIn => exact reads_notIn
  | _ => exact reads_skipOneOf (by decide)

/-- The words of the operators of a level go on with an expression at that level. -/
theorem reads_operator_nil (op : BinaryOp) :
    Reads (operatorAt op.level) [] (Word.EndsAt op.level) (· = none) := by
  have hne {word : Word} (h : word.joinLevel? = some op.level) (w : Word)
      (hw : w.EndsAt op.level) : w ≠ word := hw.ne h (Nat.le_refl _)
  cases op with
  | or | and => exact reads_wordOperator_nil (hne rfl)
  | «in» | notIn => exact reads_membershipOperator_nil fun w hw => ⟨hne rfl w hw, hne rfl w hw⟩
  | _ =>
    refine reads_skipOneOf_nil fun w hw => ?_
    simp only [List.forall_mem_cons, List.not_mem_nil, false_implies, implies_true, and_true]
    first
      | exact hne rfl w hw
      | exact ⟨hne rfl w hw, hne rfl w hw⟩
      | exact ⟨hne rfl w hw, hne rfl w hw, hne rfl w hw, hne rfl w hw⟩

theorem reads_filterStep_nil (node : Node) :
    Reads (filterStep nested node) [] (Word.EndsAt 12) (· = .done node) :=
  (reads_skipKind_nil fun _ hw => hw.ne_pipe (Nat.le_refl _)).bind_nil (fun piped hpiped => by
    subst hpiped
    exact reads_pure rfl) fun _ hw => hw

theorem reads_accessor_nil (node : Node) :
    Reads (accessor nested node) [] (Word.EndsAt 13) (· = .done node) :=
  reads_peek.bind_nil (fun token htoken => by
    have hpoint : token.isOperator "." = false := Bool.eq_false_iff.mpr fun h =>
      htoken.ne (l := 13) rfl (Nat.le_refl _) (Token.isOperator_iff.mp h)
    have hparen : token.kind ≠ .leftParen := htoken.ne_leftParen (Nat.le_refl _)
    have hbracket : token.kind ≠ .leftBracket := htoken.ne_leftBracket (Nat.le_refl _)
    rw [if_neg hparen, if_neg hbracket, hpoint]
    exact reads_pure rfl) fun _ hw => hw

theorem reads_stepAt_nil (h : level ∈ loopLevels) (node : Node) :
    Reads (stepAt nested level node) [] (Word.EndsAt level) (· = .done node) := by
  have hchain (op : BinaryOp) :
      Reads (chainStep (operatorAt op.level) (levelParser nested (op.level + 1)) node) []
        (Word.EndsAt op.level) (· = .done node) :=
    (reads_operator_nil op).bind_nil (fun found hfound => by
      subst hfound
      exact reads_pure rfl) fun _ hw => hw
  simp only [loopLevels, List.mem_cons, List.not_mem_nil, or_false] at h
  obtain rfl | rfl | rfl | rfl | rfl | rfl | rfl | rfl | rfl := h
  · exact hchain .or
  · exact hchain .and
  · exact hchain .in
  · exact hchain .concat
  · exact hchain .add
  · exact hchain .mul
  · exact hchain .pow
  · exact reads_filterStep_nil node
  · exact reads_accessor_nil node

theorem reads_sign (op : UnaryOp) : Reads (signAt op.level) [op.word] ends (· = some op) := by
  cases op with
  | not => exact reads_wordOperator
  | neg | pos => exact reads_skipOneOf (by decide)

theorem reads_sign_nil (h : level ∈ signLevels) :
    Reads (signAt level) [] (Word.StartsAt (level + 1)) (· = none) := by
  simp only [signLevels, List.mem_cons, List.not_mem_nil, or_false] at h
  rcases h with rfl | rfl
  · exact reads_wordOperator_nil fun w hw => hw.ne_not (by decide)
  · refine reads_skipOneOf_nil fun w hw entry _ heq => hw.ne_sign (by decide) ?_
    rw [heq]

theorem reads_compareOperator (op : CompareOp) :
    Reads (skipOneOf CompareOp.spellings) [op.word] ends (· = some op) := by
  cases op <;> exact reads_skipOneOf (by decide)

theorem reads_compared_nil (rest : List (CompareOp × Node)) :
    Reads (iterate (comparedStep nested) rest) [] (Word.EndsAt 6) (· = rest) := by
  have hnone : Reads (skipOneOf CompareOp.spellings) [] (Word.EndsAt 6) (· = none) := by
    refine reads_skipOneOf_nil fun w hw entry hentry => hw.ne (l := 6) ?_ (Nat.le_refl _)
    simp only [CompareOp.spellings, List.mem_cons, List.not_mem_nil, or_false] at hentry
    rcases hentry with rfl | rfl | rfl | rfl | rfl | rfl | rfl | rfl <;> rfl
  refine reads_iterate_done (hnone.bind_nil (fun found hfound => ?_) fun _ hw => hw)
  subst hfound
  exact reads_pure ⟨rest, rfl, rfl⟩

/-- Operators before an expression that starts with no more of them. -/
theorem reads_unaryFrom {words : List Word} {P : Node → Prop} (hlevel : level ∈ signLevels)
    (hopens : Opens (level + 1) words)
    (h : Reads (levelParser nested (level + 1)) words (Word.EndsAt (level + 1)) P)
    (ops : List (Position × UnaryOp)) :
    Reads (unaryFrom nested level ops) words (Word.EndsAt level)
      fun node => ∃ operand, P operand ∧ node = applyUnary ops operand := by
  have hops : Reads (iterate (unaryStep (signAt level)) ops) [] (Word.StartsAt (level + 1))
      (· = ops) :=
    reads_iterate_done (reads_peek.bind_nil (fun token _ =>
      (reads_sign_nil hlevel).bind_nil (fun found hfound => by
        subst hfound
        exact reads_pure ⟨ops, rfl, rfl⟩) fun _ hw => hw) fun _ hw => hw)
  refine hops.bind_nil (fun found hfound => ?_) fun w _ => hopens.headD w
  subst hfound
  exact (h.mono (fun _ hw => hw.mono (Nat.le_succ _)) fun _ hP => hP).map
    fun operand hoperand => ⟨operand, hoperand, rfl⟩

/-- What a level reads, every looser level reads. -/
theorem reads_looser {tight : Nat} {words : List Word} {P : Node → Prop} (hlt : level < tight)
    (hopens : Opens tight words)
    (h : Reads (levelParser nested (level + 1)) words (Word.EndsAt (level + 1)) P) :
    Reads (levelParser nested level) words (Word.EndsAt level) P := by
  have hmono (w : Word) (hw : w.EndsAt level) : w.EndsAt (level + 1) := hw.mono (Nat.le_succ _)
  by_cases hloop : level ∈ loopLevels
  · rw [levelParser_loop hloop]
    refine (Leads.of_reads h).done (fun node hnode => ?_) hmono
    exact (reads_stepAt_nil hloop node).mono (fun _ hw => hw) fun _ hdone => ⟨node, hdone, hnode⟩
  by_cases hsign : level ∈ signLevels
  · rw [levelParser_sign hsign]
    refine (reads_unaryFrom hsign (hopens.mono hlt) h []).mono (fun _ hw => hw) ?_
    rintro _ ⟨operand, hoperand, rfl⟩
    exact hoperand
  have hother : level = 0 ∨ level = 5 ∨ level = 6 ∨ 14 ≤ level := by
    simp only [loopLevels, signLevels, List.mem_cons, List.not_mem_nil, or_false] at hloop hsign
    omega
  obtain rfl | rfl | rfl | hatom := hother
  · refine h.bind_last (fun body hbody => ?_) hmono
    refine (reads_skipSymbol_nil fun w hw => hw.ne rfl (Nat.le_refl 0)).bind_nil
      (fun skipped hskipped => ?_) fun _ hw => hw
    subst hskipped
    exact reads_pure hbody
  · refine h.bind_last (fun node hnode => ?_) hmono
    refine (reads_skipSymbol_nil fun w hw => hw.ne rfl (Nat.le_refl 5)).bind_nil
      (fun skipped hskipped => ?_) fun _ hw => hw
    subst hskipped
    exact reads_pure hnode
  · refine h.bind_last (fun first hfirst => ?_) hmono
    refine (reads_compared_nil []).bind_nil (fun rest hrest => ?_) fun _ hw => hw
    subst hrest
    exact reads_pure hfirst
  · obtain ⟨k, rfl⟩ := Nat.exists_eq_add_of_le' hatom
    exact h.mono hmono fun _ hP => hP

end Expression

end TemplateManifest
