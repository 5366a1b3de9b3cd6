import TemplateManifest.Proofs.Steps
import TemplateManifest.Proofs.Template.Span
import TemplateManifest.Template.Expression

/-!
What the grammar of expressions gives: expressions without bodies, whose numbers have no sign and in
which no sum is the right operand of a sum.
-/

namespace TemplateManifest

open Text

/-- The number has a minus sign. -/
def Double.isNegative : Double → Bool
  | finite negative _ _ | infinite negative => negative
  | nan => false

/-- The literal has no sign. -/
def Literal.IsUnsigned : Literal → Prop
  | .int value => 0 ≤ value
  | .float value => value.isNegative = false
  | _ => True

section Numbers

theorem splitSign_cons {c : Char} (hdigit : c.isDigit = true) (text : List Char) :
    splitSign (c :: text) = (false, c :: text) := by
  unfold splitSign
  split
  · next heq =>
    cases heq
    exact absurd hdigit (by decide)
  · next heq =>
    cases heq
    exact absurd hdigit (by decide)
  · rfl

theorem readInteger?_nonneg {c : Char} {text : List Char} {value : Int}
    (hdigit : c.isDigit = true) (h : readInteger? (c :: text) = some value) : 0 ≤ value := by
  rw [readInteger?, splitSign_cons hdigit] at h
  dsimp only at h
  split at h
  · cases h
  · cases h
    exact Int.natCast_nonneg _

theorem Double.isNegative_ofQuotient (negative : Bool) (numerator denominator : Nat) :
    (ofQuotient negative numerator denominator).isNegative = negative := by
  rw [ofQuotient]
  split
  · rfl
  · extract_lets exponent
    split
    extract_lets significand
    split
    split <;> rfl

theorem Double.isNegative_ofDecimal (negative : Bool) (digits : Nat) (power : Int) :
    (ofDecimal negative digits power).isNegative = negative := by
  unfold ofDecimal
  dsimp only
  split
  · rfl
  · split
    · rfl
    · split <;> exact isNegative_ofQuotient _ _ _

theorem Double.isNegative_readUnsigned? {negative : Bool} {text : List Char} {value : Double}
    (h : readUnsigned? negative text = some value) : value.isNegative = negative := by
  have hdigits (whole fraction rest : List Char)
      (h : (if whole.isEmpty && fraction.isEmpty then none
        else (readExponent? rest).map fun exponent =>
          ofDecimal negative (decimalValue (whole ++ fraction)) (exponent - fraction.length)) =
        some value) : value.isNegative = negative := by
    split at h
    · cases h
    · obtain ⟨exponent, -, rfl⟩ := Option.map_eq_some_iff.mp h
      exact isNegative_ofDecimal _ _ _
  exact hdigits _ _ _ h

theorem Double.isNegative_read? {c : Char} {text : List Char} {value : Double}
    (hdigit : c.isDigit = true) (h : Double.read? (c :: text) = some value) :
    value.isNegative = false := by
  rw [Double.read?, splitSign_cons hdigit] at h
  dsimp only at h
  split at h
  · cases h
    rfl
  · split at h
    · cases h
      rfl
    · exact isNegative_readUnsigned? h

end Numbers

/-- The node is a sum. -/
def Node.isSum : Node → Bool
  | binary _ .add _ _ => true
  | _ => false

/-- The node is an expression of the grammar. -/
inductive Node.IsExpression : Node → Prop where
  | literal {pos : Position} {value : Literal} (h : value.IsUnsigned) :
      IsExpression (.literal pos value)
  | symbol {pos : Position} {name : String} : IsExpression (.symbol pos name)
  | group {pos : Position} {inner : Node} (h : IsExpression inner) :
      IsExpression (.group pos inner)
  | array {pos : Position} {items : List Node} (h : ∀ node ∈ items, IsExpression node) :
      IsExpression (.array pos items)
  | dict {pos : Position} {entries : List (Node × Node)}
      (hkeys : ∀ entry ∈ entries, IsExpression entry.1)
      (hvalues : ∀ entry ∈ entries, IsExpression entry.2) : IsExpression (.dict pos entries)
  | lookup {pos : Position} {target key : Node} (htarget : IsExpression target)
      (hkey : IsExpression key) : IsExpression (.lookup pos target key)
  | call {pos : Position} {callee : Node} {args : List Node} {kwargs : List (String × Node)}
      (hcallee : IsExpression callee) (hargs : ∀ node ∈ args, IsExpression node)
      (hkwargs : ∀ entry ∈ kwargs, IsExpression entry.2) : IsExpression (.call pos callee args kwargs)
  | filter {pos : Position} {name : String} {target : Node} {args : List Node}
      {kwargs : List (String × Node)} (htarget : IsExpression target)
      (hargs : ∀ node ∈ args, IsExpression node)
      (hkwargs : ∀ entry ∈ kwargs, IsExpression entry.2) :
      IsExpression (.filter pos name target args kwargs)
  | test {pos : Position} {target : Node} {name : String} {args : List Node} {negated : Bool}
      (htarget : IsExpression target) (hargs : ∀ node ∈ args, IsExpression node) :
      IsExpression (.test pos target name args negated)
  | unary {pos : Position} {op : UnaryOp} {operand : Node} (h : IsExpression operand) :
      IsExpression (.unary pos op operand)
  | binary {pos : Position} {op : BinaryOp} {left right : Node} (hleft : IsExpression left)
      (hright : IsExpression right) (hsum : op = .add → right.isSum = false) :
      IsExpression (.binary pos op left right)
  | compare {pos : Position} {first : Node} {rest : List (CompareOp × Node)}
      (hfirst : IsExpression first) (hrest : ∀ entry ∈ rest, IsExpression entry.2) :
      IsExpression (.compare pos first rest)
  | inlineIf {pos : Position} {cond body : Node} {otherwise : Option Node}
      (hcond : IsExpression cond) (hbody : IsExpression body)
      (hotherwise : ∀ node ∈ otherwise, IsExpression node) :
      IsExpression (.inlineIf pos cond body otherwise)

/-- What expressions hold are expressions. -/
theorem Node.IsExpression.child {root node : Node} (h : root.IsExpression)
    (hchild : node ∈ root.children) : node.IsExpression := by
  cases h with
  | literal | symbol => cases hchild
  | group h | unary h => exact List.mem_singleton.mp hchild ▸ h
  | array h => exact h node hchild
  | dict hkeys hvalues =>
    obtain ⟨entry, hentry, hnode⟩ := List.mem_flatMap.mp hchild
    obtain rfl | hnode := List.mem_cons.mp hnode
    · exact hkeys entry hentry
    · exact List.mem_singleton.mp hnode ▸ hvalues entry hentry
  | lookup h h' | binary h h' =>
    obtain rfl | hnode := List.mem_cons.mp hchild
    · exact h
    · exact List.mem_singleton.mp hnode ▸ h'
  | call htarget hargs hkwargs | filter htarget hargs hkwargs =>
    obtain rfl | hnode := List.mem_cons.mp hchild
    · exact htarget
    · obtain hnode | hnode := List.mem_append.mp hnode
      · exact hargs node hnode
      · obtain ⟨entry, hentry, rfl⟩ := List.mem_map.mp hnode
        exact hkwargs entry hentry
  | test htarget hargs =>
    obtain rfl | hnode := List.mem_cons.mp hchild
    · exact htarget
    · exact hargs node hnode
  | compare hfirst hrest =>
    obtain rfl | hnode := List.mem_cons.mp hchild
    · exact hfirst
    · obtain ⟨entry, hentry, rfl⟩ := List.mem_map.mp hnode
      exact hrest entry hentry
  | inlineIf hcond hbody hotherwise =>
    obtain rfl | hnode := List.mem_cons.mp hchild
    · exact hcond
    · obtain rfl | hnode := List.mem_cons.mp hnode
      · exact hbody
      · exact hotherwise node (Option.mem_toList.mp hnode)

/-- The token starts with a digit if it is a number. -/
def Token.IsLexed (token : Token) : Prop :=
  token.kind = .int ∨ token.kind = .float →
    ∃ c rest, token.value.toList = c :: rest ∧ c.isDigit = true

theorem Token.isLexed_of_kind {token : Token} (hint : token.kind ≠ .int)
    (hfloat : token.kind ≠ .float) : token.IsLexed :=
  fun hkind => (hkind.elim hint hfloat).elim

section Lexer

theorem Code.number_eq_cons {c : Char} (hdigit : c.isDigit = true) (text : List Char) :
    ∃ rest, (Code.number (c :: text)).2 = c :: rest := by
  rw [Code.number, List.takeWhile_cons_of_pos hdigit]
  split
  · split
    · exact ⟨_, rfl⟩
    · exact ⟨_, rfl⟩
  · exact ⟨_, rfl⟩

theorem Code.ne_number_of_markKind? {c : Char} {kind : TokenKind}
    (h : Code.markKind? c = some kind) : kind ≠ .int ∧ kind ≠ .float := by
  unfold Code.markKind? at h
  split at h <;> cases h <;> decide

theorem Code.isLexed_token {c : Char} {text : List Char} {kind : TokenKind} {value : String}
    {count : Nat} (h : Code.token c text = .ok (kind, value, count)) (pos : Position) :
    (Token.mk kind value pos).IsLexed := by
  rw [Code.token] at h
  split at h
  · split at h
    · cases h
      exact Token.isLexed_of_kind nofun nofun
    · cases h
  · split at h
    · next hdigit =>
      obtain ⟨rest, hrest⟩ := Code.number_eq_cons hdigit text
      cases h
      exact fun _ => ⟨c, rest, String.toList_ofList.trans hrest, hdigit⟩
    · split at h
      · cases h
        exact Token.isLexed_of_kind nofun nofun
      · split at h
        · next hmark =>
          cases h
          have hkind := Code.ne_number_of_markKind? hmark
          exact Token.isLexed_of_kind hkind.1 hkind.2
        · split at h
          · cases h
            exact Token.isLexed_of_kind nofun nofun
          · cases h

/-- What holds of every word in a tag, and of every token that is neither a number nor a symbol, holds
    of all tokens of a source. -/
structure HoldsOfTokens (T : Token → Prop) : Prop where
  word {c : Char} {text : List Char} {kind : TokenKind} {value : String} {count : Nat} (pos : Position)
    (h : Code.token c text = .ok (kind, value, count)) : T ⟨kind, value, pos⟩
  mark {kind : TokenKind} (value : String) (pos : Position) (h : kind ∉ [.int, .float, .symbol]) :
    T ⟨kind, value, pos⟩

section

variable {T : Token → Prop} (hT : HoldsOfTokens T)
include hT

theorem Code.forall_mem_readFrom {closer : List Char} {kind : TagKind} {opened : Position}
    {bound depth : Nat} {cursor : Cursor} {reading : Reading}
    (h : readFrom closer kind opened bound depth cursor = .ok reading) :
    ∀ token ∈ reading.tokens, T token := by
  induction bound generalizing depth cursor reading with
  | zero => cases h
  | succ bound ih =>
    simp only [readFrom] at h
    split at h
    · cases h
    · split at h
      · cases h
        intro token htoken
        obtain rfl := List.mem_singleton.mp htoken
        exact hT.mark _ _ (by cases kind <;> decide)
      · split at h
        · cases h
        · next htoken =>
          split at h
          · cases h
          · next hrest =>
            cases h
            exact List.forall_mem_cons.mpr ⟨hT.word _ htoken, ih hrest⟩

theorem Segment.forall_mem_readTag {options : LanguageOptions} {kind : TagKind}
    {cursor after : Cursor} {c : Construct} (h : readTag options kind cursor = .ok (c, after)) :
    ∀ token ∈ c.tokens, T token := by
  simp only [readTag] at h
  split at h
  · cases h
  · next hread =>
    cases h
    refine List.forall_mem_cons.mpr ⟨hT.mark _ _ ?_, Code.forall_mem_readFrom hT hread⟩
    cases kind <;> decide

theorem Segment.forall_mem_readConstruct {options : LanguageOptions} {kind : TagKind}
    {cursor after : Cursor} {c : Construct}
    (h : readConstruct options kind cursor = .ok (c, after)) : ∀ token ∈ c.tokens, T token := by
  rcases readConstruct_cases h with ⟨-, hcomment⟩ | ⟨-, hraw⟩ | ⟨-, -, htag⟩
  · simp only [readComment] at hcomment
    split at hcomment
    · cases hcomment
    · cases hcomment
      exact List.forall_mem_nil _
  · simp only [readRaw?, Option.map_eq_some_iff] at hraw
    obtain ⟨⟨word, stripsStart, opening⟩, -, hraw⟩ := hraw
    dsimp only at hraw
    split at hraw
    · cases hraw
    · cases hraw
      exact List.forall_mem_singleton.mpr (hT.mark _ _ (by decide))
  · exact forall_mem_readTag hT htag

theorem Segment.forall_mem_splitFrom {options : LanguageOptions} {bound : Nat} {cursor : Cursor}
    {segments : List Segment} {finish : Position}
    (h : splitFrom options bound cursor = .ok (segments, finish)) :
    ∀ c, construct c ∈ segments → ∀ token ∈ c.tokens, T token := by
  have htext (start : Position) (chars : List Char) (count : Nat) (c : Construct) :
      construct c ∉ if count = 0 then [] else [text start chars] := by
    split
    · exact List.not_mem_nil
    · exact fun hmem => nomatch List.mem_singleton.mp hmem
  induction bound generalizing cursor segments with
  | zero => cases h
  | succ bound ih =>
    simp only [splitFrom] at h
    split at h
    · cases h
      exact fun _ hmem => nomatch hmem
    · split at h
      · cases h
        exact fun c hmem => absurd hmem (htext _ _ _ c)
      · split at h
        · cases h
        · next hconstruct =>
          split at h
          · cases h
          · next hrest =>
            cases h
            intro c hmem
            rcases List.mem_append.mp hmem with hmem | hmem
            · exact absurd hmem (htext _ _ _ c)
            · rcases List.mem_cons.mp hmem with heq | hmem
              · cases heq
                exact forall_mem_readConstruct hT hconstruct
              · exact ih hrest c hmem

theorem forall_mem_tokenize {options : LanguageOptions} {source : String}
    {tokens : List Token} (h : tokenize options source = .ok tokens) : ∀ token ∈ tokens, T token := by
  have hsegments (segments : List Segment)
      (hconstructs : ∀ c, .construct c ∈ segments → ∀ token ∈ c.tokens, T token)
      (strip : Bool) : ∀ token ∈ Segment.tokensAfter options strip segments, T token := by
    induction segments generalizing strip with
    | nil => exact List.forall_mem_nil _
    | cons segment segments ih =>
      have hrest := ih fun c hmem => hconstructs c (List.mem_cons_of_mem _ hmem)
      cases segment with
      | text start chars =>
        simp only [Segment.tokensAfter]
        split
        · exact hrest _
        · exact List.forall_mem_cons.mpr ⟨hT.mark _ _ (by decide), hrest _⟩
      | construct c =>
        exact List.forall_mem_append.mpr ⟨hconstructs c List.mem_cons_self, hrest _⟩
  unfold tokenize at h
  split at h
  · cases h
  · next hsplit =>
    cases h
    exact List.forall_mem_append.mpr ⟨hsegments _ (Segment.forall_mem_splitFrom hT hsplit) _,
      List.forall_mem_singleton.mpr (hT.mark _ _ (by decide))⟩

end

/-- The tokens of a source have no sign in their numbers. -/
theorem isLexed_of_mem_tokenize {options : LanguageOptions} {source : String}
    {tokens : List Token} (h : tokenize options source = .ok tokens) :
    ∀ token ∈ tokens, token.IsLexed := by
  refine forall_mem_tokenize ⟨fun pos htoken => Code.isLexed_token htoken pos, fun _ _ hkind => ?_⟩ h
  simp only [List.mem_cons, not_or] at hkind
  exact Token.isLexed_of_kind hkind.1 hkind.2.1

end Lexer

/-- All tokens of the stream are tokens of a source. -/
structure TokenStream.IsLexed (s : TokenStream) : Prop where
  pending : ∀ token ∈ s.pending, token.IsLexed
  last : s.last.IsLexed

namespace TokenStream.IsLexed

variable {s : TokenStream}

theorem head (h : s.IsLexed) : s.head.IsLexed := by
  obtain ⟨pending, last⟩ := s
  cases pending with
  | nil => exact h.last
  | cons token pending => exact h.pending token List.mem_cons_self

theorem tail (h : s.IsLexed) : s.tail.IsLexed :=
  ⟨fun token hmem => h.pending token (List.mem_of_mem_tail hmem), h.last⟩

end TokenStream.IsLexed

namespace Parser

variable {α β σ : Type}

/-- On tokens of a source, the parser gives only values of a kind, and it leaves tokens of the
    source. -/
def Yields (p : Parser α) (P : α → Prop) : Prop :=
  ∀ s a s', s.IsLexed → p s = .ok a s' → P a ∧ s'.IsLexed

variable {p : Parser α} {P Q : α → Prop} {R : β → Prop}

theorem Yields.mono (h : p.Yields P) (hle : ∀ a, P a → Q a) : p.Yields Q :=
  fun s a s' hs hp => (h s a s' hs hp).imp_left (hle a)

theorem Yields.bind {next : α → Parser β} (h : p.Yields P) (hnext : ∀ a, P a → (next a).Yields R) :
    (p >>= next).Yields R := by
  intro s b s' hs hp
  obtain ⟨a, u, ha, hb⟩ := bind_eq_ok_iff.mp hp
  obtain ⟨hPa, hu⟩ := h s a u hs ha
  exact hnext a hPa u b s' hu hb

theorem yields_pure {a : α} (h : P a) : (pure a : Parser α).Yields P := by
  intro s b s' hs hp
  obtain ⟨rfl, rfl⟩ := pure_eq_ok_iff.mp hp
  exact ⟨h, hs⟩

theorem yields_fail (fault : SyntaxFault) : (fail fault : Parser α).Yields P :=
  fun _ _ _ _ hp => nomatch hp

theorem yields_failAt (fault : SyntaxFault) (token : Token) :
    (failAt fault token : Parser α).Yields P :=
  fun _ _ _ _ hp => nomatch hp

theorem yields_peek : peek.Yields Token.IsLexed := by
  rintro s _ _ hs ⟨⟩
  exact ⟨hs.head, hs⟩

theorem yields_peekSecond : peekSecond.Yields fun _ => True := by
  rintro s _ _ hs ⟨⟩
  exact ⟨trivial, hs⟩

theorem yields_next : next.Yields Token.IsLexed := by
  rintro s _ _ hs ⟨⟩
  exact ⟨hs.head, hs.tail⟩

theorem yields_skipIf (condition : Token → Bool) : (skipIf condition).Yields fun _ => True := by
  intro s a s' hs hp
  unfold skipIf at hp
  split at hp <;> cases hp
  · exact ⟨trivial, hs.tail⟩
  · exact ⟨trivial, hs⟩

theorem yields_expect (kind : TokenKind) (what : String) :
    (expect kind what).Yields Token.IsLexed := by
  intro s a s' hs hp
  unfold expect at hp
  split at hp <;> cases hp
  exact ⟨hs.head, hs.tail⟩

theorem yields_expectSymbol (what : String) : (expectSymbol what).Yields fun _ => True :=
  (yields_expect .symbol what).bind fun _ _ => yields_pure trivial

/-- What a repetition gives, if `I` holds before every step. -/
def Step.Keeps (I : σ → Prop) (P : α → Prop) : Step σ α → Prop
  | more state => I state
  | done a => P a

theorem yields_iterate {I : σ → Prop} {step : σ → Parser (Step σ α)}
    (hstep : ∀ state, I state → (step state).Yields (Step.Keeps I P)) {state : σ} (h : I state) :
    (iterate step state).Yields P := by
  have hfrom (bound : Nat) : (iterateFrom step bound state).Yields P := by
    induction bound generalizing state with
    | zero => exact yields_fail _
    | succ bound ih =>
      refine (hstep state h).bind fun result hresult => ?_
      cases result with
      | more state => exact ih hresult
      | done a => exact yields_pure hresult
  exact fun s => hfrom _ s

theorem yields_commaSeparated {I : σ → Prop} {item : σ → Parser σ} (close : TokenKind)
    (what : String) (isFirst : σ → Bool) (hitem : ∀ items, I items → (item items).Yields I)
    {items : σ} (h : I items) : (commaSeparated close what isFirst item items).Yields I := by
  refine yields_iterate (I := I) (fun items hitems => ?_) h
  have hmore : (do return Step.more (← item items) : Parser (Step σ σ)).Yields (Step.Keeps I I) :=
    (hitem items hitems).bind fun _ h => yields_pure h
  refine (yields_skipIf _).bind fun closes _ => ?_
  split
  · exact yields_pure hitems
  · split
    · exact hmore
    · refine (yields_expect _ _).bind fun _ _ => (yields_skipIf _).bind fun closes _ => ?_
      split
      · exact yields_pure hitems
      · exact hmore

end Parser

namespace Expression

open Parser

/-- The parsers of what is nested give expressions. -/
def Nested.YieldsExpressions (nested : Nested) : Prop :=
  ∀ goal, (nested goal).Yields Node.IsExpression

/-- The arguments are expressions. -/
def Arguments.AreExpressions (args : Arguments) : Prop :=
  (∀ node ∈ args.positional, node.IsExpression) ∧ ∀ entry ∈ args.keyword, entry.2.IsExpression

/-- The node is an expression, and it is no sum. -/
def IsOperand (node : Node) : Prop :=
  node.IsExpression ∧ node.isSum = false

theorem isExpression_binary {pos : Position} {op : BinaryOp} {left right : Node} (hop : op ≠ .add)
    (hleft : left.IsExpression) (hright : right.IsExpression) :
    (Node.binary pos op left right).IsExpression :=
  .binary hleft hright fun h => absurd h hop

theorem isOperand_binary {pos : Position} {op : BinaryOp} {left right : Node} (hop : op ≠ .add)
    (hleft : IsOperand left) (hright : IsOperand right) :
    IsOperand (.binary pos op left right) := by
  refine ⟨isExpression_binary hop hleft.1 hright.1, ?_⟩
  unfold Node.isSum
  split
  · next heq =>
    cases heq
    exact absurd rfl hop
  · rfl

theorem isExpression_applyUnary (ops : List (Position × UnaryOp)) {node : Node}
    (h : node.IsExpression) : (applyUnary ops node).IsExpression := by
  induction ops with
  | nil => exact h
  | cons op ops ih => exact .unary ih

theorem isOperand_applyUnary (ops : List (Position × UnaryOp)) {node : Node}
    (h : IsOperand node) : IsOperand (applyUnary ops node) := by
  cases ops with
  | nil => exact h
  | cons op ops => exact ⟨isExpression_applyUnary (op :: ops) h.1, rfl⟩

theorem yields_skipOneOf {α : Type} (operators : List (String × α)) :
    (skipOneOf operators).Yields fun op => ∀ a ∈ op, ∃ entry ∈ operators, entry.2 = a := by
  intro s op s' hs hp
  unfold skipOneOf at hp
  split at hp
  · next entry hfind =>
    cases hp
    refine ⟨?_, hs.tail⟩
    rintro _ ⟨⟩
    exact ⟨entry, List.mem_of_find?_eq_some hfind, rfl⟩
  · cases hp
    exact ⟨nofun, hs⟩

theorem yields_skipOneOf_ne {α : Type} {operators : List (String × α)} {a : α}
    (h : ∀ entry ∈ operators, entry.2 ≠ a) :
    (skipOneOf operators).Yields fun op => ∀ b ∈ op, b ≠ a :=
  (yields_skipOneOf operators).mono fun _ hop b hb => by
    obtain ⟨entry, hmem, rfl⟩ := hop b hb
    exact h entry hmem

theorem yields_unaryOperators {one : Parser (Option UnaryOp)} {P : Option UnaryOp → Prop}
    (h : one.Yields P) : (unaryOperators one).Yields fun _ => True := by
  refine yields_iterate (I := fun _ => True) (fun ops _ => ?_) trivial
  refine yields_peek.bind fun token _ => h.bind fun op _ => ?_
  split <;> exact yields_pure trivial

theorem yields_wordOperator {α : Type} (word : String) {op : α} {P : α → Prop} (h : P op) :
    (wordOperator word op).Yields fun op => ∀ a ∈ op, P a := by
  refine (yields_skipIf _).bind fun taken _ => ?_
  split
  · refine yields_pure ?_
    rintro _ ⟨⟩
    exact h
  · exact yields_pure nofun

theorem yields_membershipOperator :
    membershipOperator.Yields fun op => ∀ a ∈ op, a ≠ .add := by
  refine yields_peek.bind fun token _ => yields_peekSecond.bind fun second _ => ?_
  split
  · refine yields_next.bind fun _ _ => yields_next.bind fun _ _ => yields_pure ?_
    rintro _ ⟨⟩
    decide
  · refine (yields_skipIf _).bind fun taken _ => ?_
    split
    · refine yields_pure ?_
      rintro _ ⟨⟩
      decide
    · exact yields_pure nofun

/-- A chain of operands gives nodes of a kind if its operands are of the kind and each operator
    keeps to it. -/
theorem yields_leftChain {operator : Parser (Option BinaryOp)} {operand : Parser Node}
    {O : BinaryOp → Prop} {P Q : Node → Prop}
    (hoperator : operator.Yields fun op => ∀ a ∈ op, O a) (hoperand : operand.Yields P)
    (hfirst : ∀ node, P node → Q node)
    (hbinary : ∀ {pos op left right}, O op → Q left → P right → Q (.binary pos op left right)) :
    (leftChain operator operand).Yields Q := by
  refine hoperand.bind fun first h => yields_iterate (fun left hleft => ?_) (hfirst first h)
  refine hoperator.bind fun op hop => ?_
  split
  · exact hoperand.bind fun right hright => yields_pure (hbinary (hop _ rfl) hleft hright)
  · exact yields_pure hleft

theorem yields_filterName : filterName.Yields fun _ => True := by
  refine (yields_expectSymbol _).bind fun first _ =>
    yields_iterate (I := fun _ => True) (fun name _ => ?_) trivial
  refine (yields_skipIf _).bind fun taken _ => ?_
  split
  · exact (yields_expectSymbol _).bind fun _ _ => yields_pure trivial
  · exact yields_pure trivial

theorem areExpressions_empty : Arguments.AreExpressions {} :=
  ⟨List.forall_mem_nil _, List.forall_mem_nil _⟩

theorem isExpression_symbolNode (pos : Position) (name : String) :
    IsOperand (symbolNode pos name) := by
  unfold symbolNode
  split
  · exact ⟨.literal trivial, rfl⟩
  · split
    · exact ⟨.literal trivial, rfl⟩
    · split
      · exact ⟨.literal trivial, rfl⟩
      · exact ⟨.symbol, rfl⟩

theorem isExpression_dictKey {key : Node} (h : key.IsExpression) :
    (dictKey key).IsExpression := by
  unfold dictKey
  split
  · exact .literal trivial
  · exact h

section

variable {nested : Nested} (hnested : nested.YieldsExpressions)
include hnested

theorem yields_argument {args : Arguments} (h : args.AreExpressions) :
    (argument nested args).Yields Arguments.AreExpressions := by
  have hpositional :
      (do return { args with positional := args.positional ++ [← nested .expression] } :
        Parser Arguments).Yields Arguments.AreExpressions :=
    (hnested .expression).bind fun _ hvalue => yields_pure
      ⟨List.forall_mem_append.mpr ⟨h.1, List.forall_mem_singleton.mpr hvalue⟩, h.2⟩
  refine yields_peek.bind fun token _ => yields_peekSecond.bind fun second _ => ?_
  split
  · exact yields_next.bind fun _ _ => yields_next.bind fun _ _ =>
      (hnested .expression).bind fun _ hvalue => yields_pure
        ⟨h.1, List.forall_mem_append.mpr ⟨h.2, List.forall_mem_singleton.mpr hvalue⟩⟩
  · split
    · exact hpositional
    · exact Yields.bind (P := fun _ => True) (yields_fail _) fun _ _ => hpositional

theorem yields_callArguments : (callArguments nested).Yields Arguments.AreExpressions :=
  (yields_expect _ _).bind fun _ _ =>
    yields_commaSeparated _ _ _ (fun _ h => yields_argument hnested h) areExpressions_empty

theorem yields_optionalArguments : (optionalArguments nested).Yields Arguments.AreExpressions := by
  refine yields_peek.bind fun token _ => ?_
  split
  · exact yields_callArguments hnested
  · exact yields_pure areExpressions_empty

theorem yields_arrayItems {items : List Node} (close : TokenKind) (what : String)
    (isFirst : List Node → Bool) (h : ∀ node ∈ items, node.IsExpression) :
    (arrayItems nested close what isFirst items).Yields fun items =>
      ∀ node ∈ items, node.IsExpression := by
  refine yields_commaSeparated _ _ _ (fun items hitems => ?_) h
  exact (hnested .expression).bind fun node hnode =>
    yields_pure (List.forall_mem_append.mpr ⟨hitems, List.forall_mem_singleton.mpr hnode⟩)

theorem yields_parenthesized (pos : Position) : (parenthesized nested pos).Yields IsOperand := by
  refine (yields_skipIf _).bind fun closes _ => ?_
  split
  · exact yields_pure ⟨.array (List.forall_mem_nil _), rfl⟩
  · refine (hnested .expression).bind fun first hfirst => (yields_skipIf _).bind fun closes _ => ?_
    split
    · exact yields_pure ⟨.group hfirst, rfl⟩
    · exact (yields_arrayItems hnested _ _ _ (List.forall_mem_singleton.mpr hfirst)).bind
        fun items hitems => yields_pure ⟨.array hitems, rfl⟩

theorem yields_dictEntry {entries : List (Node × Node)}
    (h : ∀ entry ∈ entries, entry.1.IsExpression ∧ entry.2.IsExpression) :
    (dictEntry nested entries).Yields fun entries =>
      ∀ entry ∈ entries, entry.1.IsExpression ∧ entry.2.IsExpression :=
  (hnested .primary).bind fun _ hkey => (yields_expect _ _).bind fun _ _ =>
    (hnested .expression).bind fun _ hvalue =>
      yields_pure (List.forall_mem_append.mpr
        ⟨h, List.forall_mem_singleton.mpr ⟨isExpression_dictKey hkey, hvalue⟩⟩)

theorem yields_atom : (atom nested).Yields IsOperand := by
  refine yields_next.bind fun token htoken => ?_
  split
  · exact yields_pure ⟨.literal trivial, rfl⟩
  · next hkind =>
    obtain ⟨c, rest, hvalue, hdigit⟩ := htoken (.inl hkind)
    split
    · next value hread =>
      split
      · rw [hvalue] at hread
        exact yields_pure ⟨.literal (readInteger?_nonneg hdigit hread), rfl⟩
      · exact yields_failAt _ _
    · exact yields_failAt _ _
  · next hkind =>
    obtain ⟨c, rest, hvalue, hdigit⟩ := htoken (.inr hkind)
    split
    · next value hread =>
      rw [hvalue] at hread
      exact yields_pure ⟨.literal (Double.isNegative_read? hdigit hread), rfl⟩
    · exact yields_failAt _ _
  · exact yields_pure (isExpression_symbolNode _ _)
  · exact yields_parenthesized hnested _
  · exact (yields_arrayItems hnested _ _ _ (List.forall_mem_nil _)).bind fun items hitems =>
      yields_pure ⟨.array hitems, rfl⟩
  · exact (yields_commaSeparated _ _ _ (fun _ => yields_dictEntry hnested)
      (List.forall_mem_nil _)).bind fun entries hentries =>
        yields_pure ⟨.dict (fun entry hmem => (hentries entry hmem).1)
          fun entry hmem => (hentries entry hmem).2, rfl⟩
  · exact yields_failAt _ _

theorem yields_accessor {node : Node} (h : IsOperand node) :
    (accessor nested node).Yields (Step.Keeps IsOperand IsOperand) := by
  refine yields_peek.bind fun token _ => ?_
  split
  · exact (yields_callArguments hnested).bind fun args hargs =>
      yields_pure ⟨.call h.1 hargs.1 hargs.2, rfl⟩
  · split
    · exact yields_next.bind fun _ _ => (hnested .expression).bind fun key hkey =>
        (yields_expect _ _).bind fun _ _ => yields_pure ⟨.lookup h.1 hkey, rfl⟩
    · split
      · refine yields_next.bind fun _ _ => yields_next.bind fun key _ => ?_
        have hlookup : (pure (.more (.lookup node.pos node (.literal key.pos (.str key.value)))) :
            Parser (Step Node Node)).Yields (Step.Keeps IsOperand IsOperand) :=
          yields_pure ⟨.lookup h.1 (.literal trivial), rfl⟩
        split
        · exact hlookup
        · exact Yields.bind (P := fun _ => True) (yields_failAt _ _) fun _ _ => hlookup
      · exact yields_pure h

theorem yields_primaryOver : (primaryOver nested).Yields IsOperand :=
  (yields_atom hnested).bind fun _ h => yields_iterate (fun _ => yields_accessor hnested) h

theorem yields_filters {node : Node} (h : IsOperand node) :
    (filters nested node).Yields IsOperand := by
  refine yields_iterate (fun node h => ?_) h
  refine (yields_skipIf _).bind fun skipped _ => ?_
  split
  · exact yields_peek.bind fun _ _ => yields_filterName.bind fun _ _ =>
      (yields_optionalArguments hnested).bind fun _ hargs =>
        yields_pure ⟨.filter h.1 hargs.1 hargs.2, rfl⟩
  · exact yields_pure h

theorem yields_signed : (signed nested).Yields IsOperand :=
  (yields_unaryOperators (yields_skipOneOf _)).bind fun ops _ =>
    (yields_primaryOver hnested).bind fun _ hprimary =>
      (yields_filters hnested hprimary).bind fun _ hnode =>
        yields_pure (isOperand_applyUnary ops hnode)

theorem yields_power : (power nested).Yields IsOperand :=
  yields_leftChain (yields_skipOneOf_ne (by decide)) (yields_signed hnested) (fun _ h => h)
    isOperand_binary

theorem yields_product : (product nested).Yields IsOperand :=
  yields_leftChain (yields_skipOneOf_ne (by decide)) (yields_power hnested) (fun _ h => h)
    isOperand_binary

theorem yields_sum : (sum nested).Yields Node.IsExpression :=
  yields_leftChain (yields_skipOneOf _) (yields_product hnested) (fun _ h => h.1)
    fun _ hleft hright => .binary hleft hright.1 fun _ => hright.2

theorem yields_concatenation : (concatenation nested).Yields Node.IsExpression :=
  yields_leftChain (yields_skipOneOf_ne (by decide)) (yields_sum hnested) (fun _ h => h)
    isExpression_binary

theorem yields_comparison : (comparison nested).Yields Node.IsExpression := by
  refine (yields_concatenation hnested).bind fun first hfirst => ?_
  let AreExpressions (rest : List (CompareOp × Node)) : Prop :=
    ∀ entry ∈ rest, entry.2.IsExpression
  refine Yields.bind (P := AreExpressions)
    (yields_iterate (I := AreExpressions) (fun rest hrest => ?_) (List.forall_mem_nil _))
    fun rest hrest => ?_
  · refine (yields_skipOneOf _).bind fun op _ => ?_
    split
    · exact (yields_concatenation hnested).bind fun _ hoperand => yields_pure
        (List.forall_mem_append.mpr ⟨hrest, List.forall_mem_singleton.mpr hoperand⟩)
    · exact yields_pure hrest
  · split
    · exact yields_pure hfirst
    · exact yields_pure (.compare hfirst hrest)

theorem yields_tested : (tested nested).Yields Node.IsExpression := by
  refine (yields_comparison hnested).bind fun node hnode => (yields_skipIf _).bind fun isTest _ => ?_
  split
  · exact (yields_skipIf _).bind fun _ _ => (yields_expectSymbol _).bind fun _ _ =>
      (yields_optionalArguments hnested).bind fun _ hargs => yields_pure (.test hnode hargs.1)
  · exact yields_pure hnode

theorem yields_membership : (membership nested).Yields Node.IsExpression :=
  yields_leftChain yields_membershipOperator (yields_tested hnested) (fun _ h => h)
    isExpression_binary

theorem yields_negation : (negation nested).Yields Node.IsExpression :=
  (yields_unaryOperators (yields_wordOperator (P := fun _ => True) _ trivial)).bind fun ops _ =>
    (yields_membership hnested).bind fun _ hnode =>
      yields_pure (isExpression_applyUnary ops hnode)

theorem yields_conjunction : (conjunction nested).Yields Node.IsExpression :=
  yields_leftChain (yields_wordOperator _ (by decide)) (yields_negation hnested) (fun _ h => h)
    isExpression_binary

theorem yields_disjunction : (disjunction nested).Yields Node.IsExpression :=
  yields_leftChain (yields_wordOperator _ (by decide)) (yields_conjunction hnested) (fun _ h => h)
    isExpression_binary

theorem yields_expressionOver : (expressionOver nested).Yields Node.IsExpression := by
  refine (yields_disjunction hnested).bind fun body hbody => (yields_skipIf _).bind fun isInline _ => ?_
  split
  · refine (yields_disjunction hnested).bind fun cond hcond => (yields_skipIf _).bind fun hasElse _ => ?_
    split
    · exact (yields_disjunction hnested).bind fun otherwise hotherwise =>
        yields_pure (.inlineIf hcond hbody (by rintro _ ⟨⟩; exact hotherwise))
    · exact yields_pure (.inlineIf hcond hbody nofun)
  · exact yields_pure hbody

end

theorem yieldsExpressions_nestedTo (depth : Nat) : (nestedTo depth).YieldsExpressions := by
  induction depth with
  | zero => exact fun _ => yields_fail _
  | succ depth ih =>
    intro goal
    cases goal with
    | expression => exact yields_expressionOver ih
    | primary => exact (yields_primaryOver ih).mono fun _ h => h.1

end Expression

/-- What the parser of expressions reads from tokens of a source is an expression. -/
theorem Parser.yields_expression : Parser.expression.Yields Node.IsExpression :=
  fun s => Expression.yieldsExpressions_nestedTo (s.pending.length + 1) .expression s

end TemplateManifest
