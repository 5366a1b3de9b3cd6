import TemplateManifest.Proofs.Compile.OperatorTree
import TemplateManifest.Proofs.Compile.Results

/-!
The code of an expression is read with the structure that `Node.tree` gives for the grouping of the
target language. So the operators of the template come back exactly when the target language groups
them alike: `CodeContext.read_expression_eq_iff`.
-/

namespace TemplateManifest

open Script Vocabulary

variable {beyond : Char → Bool}

namespace Script

/-- The text is read as a chain of comparisons: what is closed in it, the operator after that, and
    the last operand. -/
inductive ReadsChain (beyond : Char → Bool) : List Char → Chain → Prop where
  | ordered {text : List Char} {head : Char} {t : Tree} (h : Reads beyond text 9 head t) :
      ReadsChain beyond text ⟨none, t⟩
  | equated {text text' : List Char} {op : Operator} {head head' : Char} {t t' : Tree}
      (hop : op.level = 8) (h : Reads beyond text 8 head t) (h' : Reads beyond text' 9 head' t') :
      ReadsChain beyond (text ++ ' ' :: op.text.toList ++ ' ' :: text') ⟨some (t, op), t'⟩

namespace ReadsChain

variable {text text' : List Char} {c : Chain} {op : Operator} {head : Char} {t : Tree}

theorem reads (h : ReadsChain beyond text c) : ∃ head, Reads beyond text 8 head c.tree := by
  cases h with
  | ordered h => exact ⟨_, h.mono (by decide)⟩
  | equated hop h h' => exact ⟨_, hop ▸ Reads.operation (hop ▸ h) h' (by omega)⟩

/-- One more comparison at the end of a chain. -/
theorem push (h : ReadsChain beyond text c) (hop : op.level = 8 ∨ op.level = 9)
    (h' : Reads beyond text' 14 head t) :
    ReadsChain beyond (text ++ ' ' :: op.text.toList ++ ' ' :: text') (c.push op t) := by
  rw [Chain.push]
  split
  · next hequality =>
    obtain ⟨head, hreads⟩ := h.reads
    exact .equated hequality hreads (h'.mono (by decide))
  · next hne =>
    have horder : op.level = 9 := hop.resolve_left hne
    cases h with
    | ordered h =>
      exact .ordered (horder ▸ Reads.operation (horder ▸ h) h' (by omega))
    | @equated left right _ _ _ _ _ hop h hlast =>
      have hlast' := horder ▸ @Reads.operation _ _ _ _ _ _ _ op _ (horder ▸ hlast) h' (by omega)
      have hchain := ReadsChain.equated hop h hlast'
      simpa only [List.append_assoc, List.cons_append] using hchain

end ReadsChain

end Script

/-- The variables that hold symbols are names of the target language. -/
def CodeState.HoldsNames (beyond : Char → Bool) (s : CodeState) : Prop :=
  ∀ symbol v, s.holder? symbol = some v → Lexeme.IsName beyond v.text.toList

namespace Node

/-- How tightly the code of an expression binds at least. -/
def codeLevel (node : Node) : Nat :=
  if node.needsParens false then (if node.isSum then 11 else 3) else 14

theorem codeLevel_le (node : Node) : node.codeLevel ≤ 14 := by
  unfold codeLevel
  split
  · split <;> decide
  · exact Nat.le_refl _

theorem le_codeLevel (node : Node) : 3 ≤ node.codeLevel := by
  unfold codeLevel
  split
  · split <;> decide
  · decide

/-- The code of the node as an operand may start with the character. -/
def MayStartWith : Node → Char → Prop
  | unary _ .neg _, head => head = '-'
  | unary _ .pos _, head => head = '+'
  | _, head => StartsNoSign head

/-- No operand that needs parentheses has a sign. -/
theorem mayStartWith_of_needsParens {node : Node} {head : Char} (hnode : node.needsParens false)
    (h : StartsNoSign head) : node.MayStartWith head := by
  cases node with
  | unary pos op operand =>
    cases op with
    | not => exact h
    | neg | pos => cases hnode
  | _ => exact h

section

variable {cx : CodeContext} {s t : CodeState} {node : Node} {code : Expr}

/-- The code of the node is read with the structure of the node, as the target language groups
    operators. -/
def ReadsAs (beyond : Char → Bool) (cx : CodeContext) (s : CodeState) (node : Node) : Prop :=
  ∀ code t, cx.expression node s = .ok code t → t = s ∧
    ∃ head, Reads beyond code.text.toList node.codeLevel head (node.tree cx .target s.symbolTree) ∧
      (node.needsParens false = false → node.MayStartWith head)

/-- The code of a node that needs no parentheses. -/
theorem readsAs_of_reads (hcode : ∀ code t, cx.expression node s = .ok code t → t = s ∧
      ∃ head, Reads beyond code.text.toList 14 head (node.tree cx .target s.symbolTree) ∧
        StartsNoSign head)
    (hnode : ∀ head, StartsNoSign head → node.MayStartWith head) : node.ReadsAs beyond cx s := by
  intro code t h
  obtain ⟨rfl, head, hreads, hhead⟩ := hcode code t h
  exact ⟨rfl, head, hreads.mono (codeLevel_le node), fun _ => hnode head hhead⟩

theorem ReadsAs.item (h : node.ReadsAs beyond cx s) (hcode : cx.expression node s = .ok code t) :
    t = s ∧ ∃ head, Reads beyond code.text.toList 3 head (node.tree cx .target s.symbolTree) := by
  obtain ⟨rfl, head, hreads, -⟩ := h code t hcode
  exact ⟨rfl, head, hreads.mono (le_codeLevel node)⟩

/-- An operand, in parentheses where it needs them. -/
theorem ReadsAs.operand (h : node.ReadsAs beyond cx s)
    (hcode : cx.expression node s = .ok code t) :
    t = s ∧ ∃ head, Reads beyond (node.operandCode false code).text.toList 14 head
      (node.tree cx .target s.symbolTree) ∧ node.MayStartWith head := by
  obtain ⟨rfl, head, hreads, hhead⟩ := h code t hcode
  refine ⟨rfl, ?_⟩
  rw [operandCode]
  split
  · next hparens =>
    have hlevel := Nat.le_trans (show 1 ≤ 3 by decide) (le_codeLevel node)
    exact ⟨'(', (Expr.reads_paren (hreads.mono hlevel)).mono (by decide),
      mayStartWith_of_needsParens hparens (by simp [StartsNoSign])⟩
  · next hparens =>
    rw [codeLevel, if_neg hparens] at hreads
    exact ⟨head, hreads, hhead (Bool.eq_false_iff.mpr hparens)⟩

/-- An operand of a sum. -/
theorem ReadsAs.summand (h : node.ReadsAs beyond cx s)
    (hcode : cx.expression node s = .ok code t) :
    t = s ∧ ∃ head, Reads beyond (node.operandCode true code).text.toList
      (if node.isSum then 11 else 14) head (node.tree cx .target s.symbolTree) := by
  cases hsum : node.isSum with
  | true =>
    obtain ⟨rfl, head, hreads, -⟩ := h code t hcode
    have hparens : node.needsParens true = false ∧ node.needsParens false = true := by
      unfold isSum at hsum
      split at hsum
      · exact ⟨rfl, rfl⟩
      · cases hsum
    rw [codeLevel, if_pos hparens.2, hsum] at hreads
    refine ⟨rfl, head, ?_⟩
    rwa [operandCode, hparens.1]
  | false =>
    have hparens : node.needsParens true = node.needsParens false := by
      unfold isSum at hsum
      unfold needsParens
      split at hsum
      · cases hsum
      · next hne => split <;> first | rfl | exact (hne _ _ _ rfl).elim
    obtain ⟨rfl, head, hreads, -⟩ := h.operand hcode
    refine ⟨rfl, head, ?_⟩
    rwa [operandCode, hparens]

theorem texts_append (es es' : List Expr) :
    Expr.texts (es ++ es') = Expr.texts es ++ Expr.texts es' := by
  induction es with
  | nil => rfl
  | cons e es ih => simp [Expr.texts, ih]

/-- The code of some expressions is read item by item. -/
theorem readsAll_expressions {nodes : List Node} {codes : List Expr}
    (h : ∀ node ∈ nodes, node.ReadsAs beyond cx s)
    (hcode : cx.expressions nodes s = .ok codes t) :
    t = s ∧ ReadsAll beyond ((Expr.texts codes).map String.toList)
      (trees cx .target s.symbolTree nodes) := by
  induction nodes generalizing codes with
  | nil =>
    obtain ⟨rfl, rfl⟩ := pure_eq_ok_iff.mp hcode
    exact ⟨rfl, .nil⟩
  | cons node nodes ih =>
    rw [List.forall_mem_cons] at h
    obtain ⟨first, u, codes, hfirst, hcodes, rfl⟩ := CodeContext.expressions_cons_eq_ok_iff.mp hcode
    obtain ⟨rfl, head, hreads⟩ := h.1.item hfirst
    obtain ⟨rfl, hrest⟩ := ih h.2 hcodes
    exact ⟨rfl, .cons ⟨head, hreads.mono (by decide)⟩ hrest⟩

/-- The code of the entries of a dictionary is read entry by entry. -/
theorem readsEntries_entryCode {entries : List (Node × Node)} {codes : List (Expr × Expr)}
    (hkeys : ∀ entry ∈ entries, entry.1.IsExpression)
    (h : ∀ entry ∈ entries, entry.1.ReadsAs beyond cx s ∧ entry.2.ReadsAs beyond cx s)
    (hcode : cx.entryCode entries s = .ok codes t) :
    t = s ∧ List.Forall₂ (ReadsEntry beyond) ((Expr.entryTexts codes).map String.toList)
      (entryTrees cx .target s.symbolTree entries) := by
  induction entries generalizing codes with
  | nil =>
    obtain ⟨rfl, rfl⟩ := pure_eq_ok_iff.mp hcode
    exact ⟨rfl, .nil⟩
  | cons entry entries ih =>
    obtain ⟨key, value⟩ := entry
    rw [List.forall_mem_cons] at hkeys h
    obtain ⟨keyCode, w, code, u, codes, hkeyCode, hvalue, hcodes, rfl⟩ :=
      CodeContext.entryCode_cons_eq_ok_iff.mp hcode
    obtain ⟨rfl, head', hreads'⟩ := h.1.1.item hkeyCode
    obtain ⟨rfl, head, hreads⟩ := h.1.2.item hvalue
    obtain ⟨rfl, hrest⟩ := ih hkeys.2 h.2 hcodes
    by_cases hliteral : ∃ pos literal, key = .literal pos literal
    · obtain ⟨pos, literal, rfl⟩ := hliteral
      obtain ⟨rfl, -⟩ := CodeContext.expression_literal_eq_ok_iff.mp hkeyCode
      have hunsigned : literal.IsUnsigned := by
        cases hkeys.1
        assumption
      have hentry := (Literal.isValue_lexeme hunsigned).readsEntry (hreads.mono (by decide))
      refine ⟨rfl, ?_⟩
      rw [entryTrees]
      refine .cons ?_ hrest
      simpa [keyCode, Expr.text, Literal.text_lexeme] using hentry
    · have hkey : ∀ pos literal, key = .literal pos literal → False := fun pos literal heq =>
        hliteral ⟨pos, literal, heq⟩
      have hentry := ReadsEntry.computed (hreads'.mono (by decide)) (hreads.mono (by decide))
      refine ⟨rfl, ?_⟩
      rw [entryTrees]
      on_goal 2 => exact hkey
      refine .cons ?_ hrest
      simpa [keyCode_of_computed _ hkey, Expr.text, Expr.texts, commaJoin] using hentry

/-- The entries of the object of keyword arguments are read entry by entry. -/
theorem readsEntries_keywordEntries {kwargs : List (String × Node)} {codes : List (Expr × Expr)}
    (h : ∀ entry ∈ kwargs, entry.2.ReadsAs beyond cx s)
    (hcode : cx.keywordEntries kwargs s = .ok codes t) :
    t = s ∧ List.Forall₂ (ReadsEntry beyond) ((Expr.entryTexts codes).map String.toList)
      (keywordEntryTrees cx .target s.symbolTree kwargs) := by
  induction kwargs generalizing codes with
  | nil =>
    obtain ⟨rfl, rfl⟩ := pure_eq_ok_iff.mp hcode
    exact ⟨rfl, .nil⟩
  | cons entry kwargs ih =>
    obtain ⟨keyword, value⟩ := entry
    rw [List.forall_mem_cons] at h
    obtain ⟨code, u, codes, hvalue, hcodes, rfl⟩ :=
      CodeContext.keywordEntries_cons_eq_ok_iff.mp hcode
    obtain ⟨rfl, head, hreads⟩ := h.1.item hvalue
    obtain ⟨rfl, hrest⟩ := ih h.2 hcodes
    have hentry := (@Lexeme.IsValue.string beyond keyword.toList).readsEntry
      (hreads.mono (by decide))
    refine ⟨rfl, .cons ?_ hrest⟩
    simpa [Expr.text, Text.quote, Lexeme.text, Tree.ofText] using hentry

theorem readsAll_keywordCode {kwargs : List (String × Node)} {codes : List Expr}
    (h : ∀ entry ∈ kwargs, entry.2.ReadsAs beyond cx s)
    (hcode : cx.keywordCode kwargs s = .ok codes t) :
    t = s ∧ ReadsAll beyond ((Expr.texts codes).map String.toList)
      (keywordTrees cx .target s.symbolTree kwargs) := by
  cases kwargs with
  | nil =>
    obtain ⟨rfl, rfl⟩ := pure_eq_ok_iff.mp hcode
    exact ⟨rfl, .nil⟩
  | cons entry kwargs =>
    obtain ⟨keyword, value⟩ := entry
    obtain ⟨code, u, entries, hvalue, hentries, rfl⟩ :=
      CodeContext.keywordCode_cons_eq_ok_iff.mp hcode
    have hall : cx.keywordEntries ((keyword, value) :: kwargs) s =
        .ok ((.string keyword, code) :: entries) t :=
      CodeContext.keywordEntries_cons_eq_ok_iff.mpr ⟨code, u, entries, hvalue, hentries, rfl⟩
    obtain ⟨rfl, hreads⟩ := readsEntries_keywordEntries h hall
    obtain ⟨head, hcall, -⟩ := @Reads.runtime beyond
      [.object ((.string keyword, code) :: entries)] _ "makeKeywordArgs" (by decide)
      (.cons ⟨_, (Expr.reads_object hreads).mono (by decide)⟩ .nil)
    exact ⟨rfl, .cons ⟨head, hcall.mono (by decide)⟩ .nil⟩

/-- The code of arguments, keyword arguments last. -/
theorem readsAll_arguments {args : List Node} {kwargs : List (String × Node)}
    {codes codes' : List Expr} {u : CodeState} (hargs : ∀ node ∈ args, node.ReadsAs beyond cx s)
    (hkwargs : ∀ entry ∈ kwargs, entry.2.ReadsAs beyond cx s)
    (hcode : cx.expressions args s = .ok codes u) (hcode' : cx.keywordCode kwargs u = .ok codes' t) :
    t = s ∧ ReadsAll beyond ((Expr.texts (codes ++ codes')).map String.toList)
      (trees cx .target s.symbolTree args ++ keywordTrees cx .target s.symbolTree kwargs) := by
  obtain ⟨rfl, hreads⟩ := readsAll_expressions hargs hcode
  obtain ⟨rfl, hreads'⟩ := readsAll_keywordCode hkwargs hcode'
  refine ⟨rfl, ?_⟩
  rw [texts_append, List.map_append]
  exact List.rel_append hreads hreads'

/-- A chain of comparisons that goes on. -/
theorem readsChain_comparedCode {rest : List (CompareOp × Node)} {code result : Expr} {c : Chain}
    (h : ∀ entry ∈ rest, entry.2.ReadsAs beyond cx s)
    (hchain : ReadsChain beyond code.text.toList c)
    (hcode : cx.comparedCode code rest s = .ok result t) :
    t = s ∧ ReadsChain beyond result.text.toList
      ((comparedTrees cx .target s.symbolTree rest).foldl (fun c entry => c.push entry.1 entry.2)
        c) := by
  induction rest generalizing code c with
  | nil =>
    obtain ⟨rfl, rfl⟩ := pure_eq_ok_iff.mp hcode
    exact ⟨rfl, hchain⟩
  | cons entry rest ih =>
    obtain ⟨op, operand⟩ := entry
    rw [List.forall_mem_cons] at h
    obtain ⟨operandCode, u, hoperand, hrest⟩ := CodeContext.comparedCode_cons_eq_ok_iff.mp hcode
    obtain ⟨rfl, head, hreads, -⟩ := h.1.operand hoperand
    refine ih h.2 ?_ hrest
    simpa [Expr.text] using hchain.push op.code_level hreads

theorem readsAs_literal {pos : Position} {value : Literal} (h : value.IsUnsigned) :
    (literal pos value).ReadsAs beyond cx s := by
  refine readsAs_of_reads (fun code t hcode => ?_) fun _ hhead => hhead
  obtain ⟨rfl, rfl⟩ := pure_eq_ok_iff.mp hcode
  obtain ⟨head, hreads, hhead⟩ := (@Literal.isValue_lexeme beyond _ h).reads
  rw [Literal.text_lexeme] at hreads
  exact ⟨rfl, head, hreads.mono (by decide), hhead⟩

theorem readsAs_symbol {pos : Position} {name : String} (h : s.HoldsNames beyond) :
    (symbol pos name).ReadsAs beyond cx s := by
  refine readsAs_of_reads (fun code t hcode => ?_) fun _ hhead => hhead
  obtain ⟨rfl, rfl⟩ := CodeContext.expression_symbol_eq_ok_iff.mp hcode
  rw [tree, CodeState.symbolTree]
  cases hsymbol : t.holder? name with
  | some v =>
    obtain ⟨head, hreads, hhead⟩ := Reads.name (h name v hsymbol)
    exact ⟨rfl, head, hreads.mono (by decide), hhead⟩
  | none =>
    obtain ⟨_, hcontext, -⟩ := @Reads.ofName beyond "context" (by decide)
    obtain ⟨_, hframe, -⟩ := @Reads.ofName beyond "frame" (by decide)
    obtain ⟨head, hreads, hhead⟩ := @Reads.runtime beyond
      [Vocabulary.name "context", Vocabulary.name "frame", .string name] _ "contextOrFrameLookup"
      (by decide) (.cons ⟨_, hcontext.mono (by decide)⟩ (.cons ⟨_, hframe.mono (by decide)⟩
        (.cons ⟨_, (Reads.ofText name).mono (by decide)⟩ .nil)))
    exact ⟨rfl, head, hreads.mono (by decide), hhead⟩

theorem readsAs_group {pos : Position} {inner : Node} (h : inner.ReadsAs beyond cx s) :
    (group pos inner).ReadsAs beyond cx s := by
  refine readsAs_of_reads (fun code t hcode => ?_) fun _ hhead => hhead
  obtain ⟨inside, hinner, rfl⟩ := CodeContext.expression_group_eq_ok_iff.mp hcode
  obtain ⟨rfl, _, hreads⟩ := h.item hinner
  exact ⟨rfl, '(', (Expr.reads_paren (hreads.mono (by decide))).mono (by decide),
    by simp [StartsNoSign]⟩

theorem readsAs_array {pos : Position} {items : List Node}
    (h : ∀ node ∈ items, node.ReadsAs beyond cx s) : (array pos items).ReadsAs beyond cx s := by
  refine readsAs_of_reads (fun code t hcode => ?_) fun _ hhead => hhead
  obtain ⟨codes, hitems, rfl⟩ := CodeContext.expression_array_eq_ok_iff.mp hcode
  obtain ⟨rfl, hreads⟩ := readsAll_expressions h hitems
  exact ⟨rfl, '[', (Expr.reads_array hreads).mono (by decide), by simp [StartsNoSign]⟩

theorem readsAs_dict {pos : Position} {entries : List (Node × Node)}
    (hkeys : ∀ entry ∈ entries, entry.1.IsExpression)
    (h : ∀ entry ∈ entries, entry.1.ReadsAs beyond cx s ∧ entry.2.ReadsAs beyond cx s) :
    (dict pos entries).ReadsAs beyond cx s := by
  refine readsAs_of_reads (fun code t hcode => ?_) fun _ hhead => hhead
  obtain ⟨codes, hentries, rfl⟩ := CodeContext.expression_dict_eq_ok_iff.mp hcode
  obtain ⟨rfl, hreads⟩ := readsEntries_entryCode hkeys h hentries
  exact ⟨rfl, '\x7b', (Expr.reads_object hreads).mono (by decide), by simp [StartsNoSign]⟩

theorem readsAs_lookup {pos : Position} {target key : Node} (h : target.ReadsAs beyond cx s)
    (h' : key.ReadsAs beyond cx s) : (lookup pos target key).ReadsAs beyond cx s := by
  refine readsAs_of_reads (fun code t hcode => ?_) fun _ hhead => hhead
  obtain ⟨targetCode, u, keyCode, htarget, hkey, rfl⟩ :=
    CodeContext.expression_lookup_eq_ok_iff.mp hcode
  obtain ⟨rfl, _, hreads⟩ := h.item htarget
  obtain ⟨rfl, _, hreads'⟩ := h'.item hkey
  obtain ⟨head, hcall, hhead⟩ := @Reads.runtime beyond [.paren targetCode, keyCode] _
    "memberLookup" (by decide)
    (.cons ⟨_, (Expr.reads_paren (hreads.mono (by decide))).mono (by decide)⟩
      (.cons ⟨_, hreads'.mono (by decide)⟩ .nil))
  exact ⟨rfl, head, hcall.mono (by decide), hhead⟩

theorem readsAs_call {pos : Position} {callee : Node} {args : List Node}
    {kwargs : List (String × Node)} (h : callee.ReadsAs beyond cx s)
    (hargs : ∀ node ∈ args, node.ReadsAs beyond cx s)
    (hkwargs : ∀ entry ∈ kwargs, entry.2.ReadsAs beyond cx s) :
    (call pos callee args kwargs).ReadsAs beyond cx s := by
  refine readsAs_of_reads (fun code t hcode => ?_) fun _ hhead => hhead
  obtain ⟨called, u, codes, v, codes', hcalled, hcodes, hcodes', rfl⟩ :=
    CodeContext.expression_call_eq_ok_iff.mp hcode
  obtain ⟨rfl, _, hreads⟩ := h.item hcalled
  obtain ⟨rfl, hall⟩ := readsAll_arguments hargs hkwargs hcodes hcodes'
  obtain ⟨_, hline⟩ := @Reads.ofNumber beyond pos.line
  obtain ⟨_, hcol⟩ := @Reads.ofNumber beyond pos.col
  obtain ⟨_, hlineno⟩ := Expr.reads_assign (v := "lineno") (by decide) (hline.mono (by decide))
  obtain ⟨_, hcolno⟩ := Expr.reads_assign (v := "colno") (by decide) (hcol.mono (by decide))
  obtain ⟨_, hcontext, -⟩ := @Reads.ofName beyond "context" (by decide)
  obtain ⟨_, hcall, -⟩ := @Reads.runtime beyond
    [called, .string callee.calleeText, Vocabulary.name "context", .array (codes ++ codes')] _
    "callWrap" (by decide) (.cons ⟨_, hreads.mono (by decide)⟩
      (.cons ⟨_, (Reads.ofText _).mono (by decide)⟩ (.cons ⟨_, hcontext.mono (by decide)⟩
        (.cons ⟨_, (Expr.reads_array hall).mono (by decide)⟩ .nil))))
  have hsequence := (((hlineno.mono (by decide)).comma hcolno).comma (hcall.mono (by decide))).paren
  refine ⟨rfl, '(', @Reads.mono _ _ 17 _ _ _ ?_ (by decide), by simp [StartsNoSign]⟩
  simpa [CodeContext.callCode, Expr.text, Expr.texts, toList_commaJoin, tree] using hsequence

theorem readsAs_filter {pos : Position} {name : String} {target : Node} {args : List Node}
    {kwargs : List (String × Node)} (h : target.ReadsAs beyond cx s)
    (hargs : ∀ node ∈ args, node.ReadsAs beyond cx s)
    (hkwargs : ∀ entry ∈ kwargs, entry.2.ReadsAs beyond cx s) :
    (filter pos name target args kwargs).ReadsAs beyond cx s := by
  refine readsAs_of_reads (fun code t hcode => ?_) fun _ hhead => hhead
  obtain ⟨isAsync, targetCode, u, codes, v, codes', hfilter, htarget, hcodes, hcodes', rfl⟩ :=
    CodeContext.expression_filter_eq_ok_iff.mp hcode
  rw [tree, hfilter]
  obtain ⟨rfl, _, hreads⟩ := h.item htarget
  obtain ⟨rfl, hall⟩ := readsAll_arguments hargs hkwargs hcodes hcodes'
  obtain ⟨_, hcontext, -⟩ := @Reads.ofName beyond "context" (by decide)
  obtain ⟨head, henv, hhead⟩ := @Reads.ofName beyond "env" (by decide)
  have hgetter := @Reads.method beyond _ [.string name] _ _ _ "getFilter" henv (by decide)
    (.cons ⟨_, (Reads.ofText name).mono (by decide)⟩ .nil)
  have hcall := @Reads.method beyond _
    (Vocabulary.name "context" :: targetCode :: (codes ++ codes')) _ _ _ "call" hgetter
    (by decide) (.cons ⟨_, hcontext.mono (by decide)⟩ (.cons ⟨_, hreads.mono (by decide)⟩ hall))
  cases isAsync with
  | false =>
    rw [if_neg (by simp)]
    exact ⟨rfl, head, hcall.mono (by decide), hhead⟩
  | true =>
    rw [if_pos rfl]
    have hawait := Expr.reads_await (hcall.mono (by decide))
    exact ⟨rfl, '(', (Expr.reads_paren (hawait.mono (by decide))).mono (by decide),
      by simp [StartsNoSign]⟩

/-- A sign before an operand that starts with another one or none. -/
theorem reads_signed {sign : Sign} {e : Expr} {head : Char} {tr : Tree}
    (h : Reads beyond e.text.toList 14 head tr) (hhead : head ≠ '=')
    (hsign : sign.text.toList ≠ [head] ∨ sign = .not) :
    Reads beyond (Expr.signed sign e).text.toList 14 (sign.text.toList.headD ' ')
      (.signed sign tr) := by
  simpa [Expr.text] using h.signed hhead hsign

theorem readsAs_test {pos : Position} {target : Node} {name : String} {args : List Node}
    {negated : Bool} (h : target.ReadsAs beyond cx s)
    (hargs : ∀ node ∈ args, node.ReadsAs beyond cx s) :
    (test pos target name args negated).ReadsAs beyond cx s := by
  refine readsAs_of_reads (fun code t hcode => ?_) fun _ hhead => hhead
  obtain ⟨targetCode, u, codes, htarget, hcodes, rfl⟩ :=
    CodeContext.expression_test_eq_ok_iff.mp hcode
  obtain ⟨rfl, _, hreads⟩ := h.item htarget
  obtain ⟨rfl, hall⟩ := readsAll_expressions hargs hcodes
  obtain ⟨_, hcontext, -⟩ := @Reads.ofName beyond "context" (by decide)
  obtain ⟨_, henv, -⟩ := @Reads.ofName beyond "env" (by decide)
  obtain ⟨_, htrue, -⟩ := @Reads.name beyond "true".toList (Lexeme.isName_of_isPlainName (by decide))
  have hgetter := @Reads.method beyond _ [.string name] _ _ _ "getTest" henv (by decide)
    (.cons ⟨_, (Reads.ofText name).mono (by decide)⟩ .nil)
  have hcall := @Reads.method beyond _ (Vocabulary.name "context" :: targetCode :: codes) _ _ _
    "call" hgetter (by decide)
    (.cons ⟨_, hcontext.mono (by decide)⟩ (.cons ⟨_, hreads.mono (by decide)⟩ hall))
  have hresult := Expr.reads_paren ((@Expr.reads_operation beyond _ (truth true) _ _ _ _ _ .strictEq
    (hcall.mono (by decide)) htrue (by decide)).mono (by decide))
  rw [tree]
  cases negated with
  | false => exact ⟨rfl, '(', hresult.mono (by decide), by simp [StartsNoSign]⟩
  | true =>
    exact ⟨rfl, '!', reads_signed (hresult.mono (by decide)) (by decide) (.inr rfl),
      by simp [StartsNoSign]⟩

/-- What the code of a binary operator is, its operands being read. -/
theorem reads_binaryCode {op : BinaryOp} {e e' : Expr} {head head' : Char} {tr tr' : Tree}
    (h : Reads beyond e.text.toList 14 head tr) (h' : Reads beyond e'.text.toList 14 head' tr') :
    ∃ head, Reads beyond (op.code e e').text.toList 3 head (op.tree tr tr') := by
  have hinfix (op : Operator) : ∃ head,
      Reads beyond (Expr.operation op e e').text.toList 3 head (.operation op tr tr') := by
    have hlevel : 3 ≤ op.level ∧ op.level < 14 := by cases op <;> decide
    exact ⟨head, (Expr.reads_operation (h.mono (Nat.le_of_lt hlevel.2)) h' hlevel.2).mono hlevel.1⟩
  have hpair : ReadsAll beyond ((Expr.texts [e, e']).map String.toList) [tr, tr'] :=
    .cons ⟨_, h.mono (by decide)⟩ (.cons ⟨_, h'.mono (by decide)⟩ .nil)
  have hin := @Reads.runtime beyond _ _ "inOperator" (by decide) hpair
  obtain ⟨head'', hmath, -⟩ := @Reads.ofName beyond "Math" (by decide)
  cases op with
  | add => exact hinfix .add
  | sub => exact hinfix .sub
  | mul => exact hinfix .mul
  | div => exact hinfix .div
  | mod => exact hinfix .mod
  | and => exact hinfix .and
  | or => exact hinfix .or
  | floorDiv =>
    obtain ⟨_, hdiv⟩ := hinfix .div
    exact ⟨head'', (@Reads.method beyond _ [.operation .div e e'] _ _ _ "floor" hmath (by decide)
      (.cons ⟨_, hdiv.mono (by decide)⟩ .nil)).mono (by decide)⟩
  | pow => exact ⟨head'', (@Reads.method beyond _ _ _ _ _ "pow" hmath (by decide) hpair).mono (by decide)⟩
  | concat =>
    have hempty := @Reads.ofText beyond ""
    have hleft := @Expr.reads_operation beyond _ _ _ _ _ _ _ .add (hempty.mono (by decide)) h (by decide)
    exact ⟨_, (Expr.reads_operation hleft h' (by decide)).mono (by decide)⟩
  | «in» =>
    obtain ⟨head, hcall, -⟩ := hin
    exact ⟨head, hcall.mono (by decide)⟩
  | notIn =>
    obtain ⟨head, hcall, hhead⟩ := hin
    have hhead : head ≠ '=' := fun heq => hhead (by simp [heq])
    exact ⟨_, (reads_signed (hcall.mono (by decide)) hhead (.inr rfl)).mono (by decide)⟩

theorem readsAs_binary {pos : Position} {op : BinaryOp} {left right : Node}
    (h : left.ReadsAs beyond cx s) (h' : right.ReadsAs beyond cx s)
    (hsum : op = .add → right.isSum = false) : (binary pos op left right).ReadsAs beyond cx s := by
  intro code t hcode
  obtain ⟨l, u, r, hl, hr, rfl⟩ := CodeContext.expression_binary_eq_ok_iff.mp hcode
  by_cases hadd : op = .add
  · subst hadd
    obtain ⟨rfl, head, hleft⟩ := h.summand hl
    obtain ⟨rfl, _, hright⟩ := h'.summand hr
    rw [hsum rfl] at hright
    have hleft := hleft.mono (show 11 ≤ if left.isSum then 11 else 14 by split <;> decide)
    exact ⟨rfl, head, @Expr.reads_operation beyond _ _ _ _ _ _ _ .add hleft hright (by decide),
      fun hparens => absurd hparens (by simp [needsParens])⟩
  · obtain ⟨rfl, _, hleft, -⟩ := h.operand hl
    obtain ⟨rfl, _, hright, -⟩ := h'.operand hr
    obtain ⟨head, hreads⟩ := @reads_binaryCode beyond op _ _ _ _ _ _ hleft hright
    have hparens : (binary pos op left right).needsParens false = true ∧
        (binary pos op left right).isSum = false := by
      cases op <;> first | exact absurd rfl hadd | exact ⟨rfl, rfl⟩
    refine ⟨rfl, head, ?_, fun hno => absurd hno (by simp [hparens.1])⟩
    rw [codeLevel, if_pos hparens.1, hparens.2]
    simpa [Expr.text, hadd, tree] using hreads

theorem readsAs_compare {pos : Position} {first : Node} {rest : List (CompareOp × Node)}
    (h : first.ReadsAs beyond cx s) (hrest : ∀ entry ∈ rest, entry.2.ReadsAs beyond cx s) :
    (compare pos first rest).ReadsAs beyond cx s := by
  intro code t hcode
  obtain ⟨firstCode, u, hfirst, hcompared⟩ := CodeContext.expression_compare_eq_ok_iff.mp hcode
  obtain ⟨rfl, _, hreads, -⟩ := h.operand hfirst
  obtain ⟨rfl, hchain⟩ :=
    readsChain_comparedCode hrest (.ordered (hreads.mono (by decide))) hcompared
  obtain ⟨head, hreads⟩ := hchain.reads
  exact ⟨rfl, head, hreads.mono (show 3 ≤ 8 by decide),
    fun hno => absurd hno (by simp [needsParens])⟩

theorem readsAs_inlineIf {pos : Position} {cond body : Node} {otherwise : Option Node}
    (hcond : cond.ReadsAs beyond cx s) (hbody : body.ReadsAs beyond cx s)
    (hotherwise : ∀ node ∈ otherwise, node.ReadsAs beyond cx s) :
    (inlineIf pos cond body otherwise).ReadsAs beyond cx s := by
  refine readsAs_of_reads (fun code t hcode => ?_) fun _ hhead => hhead
  obtain ⟨condCode, u, bodyCode, v, otherwiseCode, hcondCode, hbodyCode, hotherwiseCode, rfl⟩ :=
    CodeContext.expression_inlineIf_eq_ok_iff.mp hcode
  obtain ⟨rfl, _, htest⟩ := hcond.item hcondCode
  obtain ⟨rfl, _, hyes⟩ := hbody.item hbodyCode
  have hno : t = v ∧ ∃ head, Reads beyond otherwiseCode.text.toList 2 head
      (optionalTree cx .target v.symbolTree otherwise) := by
    cases otherwise with
    | none =>
      obtain ⟨rfl, rfl⟩ := pure_eq_ok_iff.mp hotherwiseCode
      exact ⟨rfl, _, (Reads.ofText "").mono (by decide)⟩
    | some node =>
      obtain ⟨rfl, head, hreads⟩ := (hotherwise node rfl).item hotherwiseCode
      exact ⟨rfl, head, hreads.mono (by decide)⟩
  obtain ⟨rfl, _, hno⟩ := hno
  have hconditional := Expr.reads_conditional htest (hyes.mono (by decide)) hno
  exact ⟨rfl, '(', (Expr.reads_paren (hconditional.mono (by decide))).mono (by decide),
    by simp [StartsNoSign]⟩

theorem ne_of_mayStartWith {op : UnaryOp} {head : Char} (h : node.MayStartWith head)
    (hnode : ∀ pos inner, node = .unary pos op inner → op = .not) :
    head ≠ '=' ∧ (op.code.text.toList ≠ [head] ∨ op.code = .not) := by
  have hfree (h : StartsNoSign head) :
      head ≠ '=' ∧ (op.code.text.toList ≠ [head] ∨ op.code = .not) := by
    simp only [StartsNoSign, List.mem_cons, List.not_mem_nil, or_false, not_or] at h
    cases op <;> simp [UnaryOp.code, Sign.text, h, Ne.symm h.2.1, Ne.symm h.2.2]
  cases node with
  | unary pos inner operand =>
    cases inner with
    | not => exact hfree h
    | neg =>
      obtain rfl := h
      cases op with
      | neg => cases hnode _ _ rfl
      | not | pos => decide
    | pos =>
      obtain rfl := h
      cases op with
      | pos => cases hnode _ _ rfl
      | not | neg => decide
  | _ => exact hfree h

/-- A sign makes one mark with the same sign after it; the operand after both of them is then read
    on its own. -/
theorem readsAs_unary {pos : Position} {op : UnaryOp} {operand : Node}
    (h : operand.ReadsAs beyond cx s)
    (hinner : ∀ pos op inner, operand = .unary pos op inner → inner.ReadsAs beyond cx s) :
    (unary pos op operand).ReadsAs beyond cx s := by
  have hhead : (unary pos op operand).MayStartWith (op.code.text.toList.headD ' ') := by
    cases op with
    | not => simp [MayStartWith, StartsNoSign, UnaryOp.code, Sign.text]
    | neg | pos => rfl
  have hlevel := codeLevel_le (unary pos op operand)
  intro code t hcode
  obtain ⟨operandCode, hoperand, rfl⟩ := CodeContext.expression_unary_eq_ok_iff.mp hcode
  by_cases hdoubled : ∃ pos inner, operand = .unary pos op inner ∧ op ≠ .not
  · obtain ⟨pos', inner, rfl, hsign⟩ := hdoubled
    have hparens : (unary pos' op inner).needsParens false = false := by
      cases op with
      | not => exact absurd rfl hsign
      | neg | pos => rfl
    obtain ⟨innerCode, hinnerCode, rfl⟩ := CodeContext.expression_unary_eq_ok_iff.mp hoperand
    obtain ⟨rfl, _, hreads, -⟩ := (hinner _ _ _ rfl).operand hinnerCode
    have hcode : op.code ≠ .not := by
      cases op with
      | not => exact absurd rfl hsign
      | neg | pos => decide
    have hcounted := (hreads.counted hcode).mono hlevel
    refine ⟨rfl, _, ?_, fun _ => hhead⟩
    rw [tree_unary_self hsign, Node.operandCode, hparens]
    simpa [Expr.text] using hcounted
  · have hsingle : ∀ pos inner, operand = .unary pos op inner → op = .not := fun pos inner heq =>
      not_not.mp fun hne => hdoubled ⟨pos, inner, heq, hne⟩
    obtain ⟨rfl, _, hreads, hstart⟩ := h.operand hoperand
    obtain ⟨hequals, hsign⟩ := ne_of_mayStartWith hstart hsingle
    refine ⟨rfl, _, ?_, fun _ => hhead⟩
    rw [tree_unary hsingle]
    exact (reads_signed hreads hequals hsign).mono hlevel

/-- The code of an expression is read with the structure of the expression, its operators grouped
    as the target language groups them. -/
theorem readsAs_of_isExpression (h : node.IsExpression) (hs : s.HoldsNames beyond) :
    node.ReadsAs beyond cx s := by
  suffices hall : node.ReadsAs beyond cx s ∧
      ∀ pos op operand, node = .unary pos op operand → operand.ReadsAs beyond cx s from hall.1
  induction h with
  | literal h => exact ⟨readsAs_literal h, by simp⟩
  | symbol => exact ⟨readsAs_symbol hs, by simp⟩
  | group h ih => exact ⟨readsAs_group ih.1, by simp⟩
  | array h ih => exact ⟨readsAs_array fun node hmem => (ih node hmem).1, by simp⟩
  | dict hkeys hvalues ihkeys ihvalues =>
    exact ⟨readsAs_dict hkeys fun entry hmem => ⟨(ihkeys entry hmem).1, (ihvalues entry hmem).1⟩,
      by simp⟩
  | lookup htarget hkey ihtarget ihkey => exact ⟨readsAs_lookup ihtarget.1 ihkey.1, by simp⟩
  | call hcallee hargs hkwargs ihcallee ihargs ihkwargs =>
    exact ⟨readsAs_call ihcallee.1 (fun node hmem => (ihargs node hmem).1)
      fun entry hmem => (ihkwargs entry hmem).1, by simp⟩
  | filter htarget hargs hkwargs ihtarget ihargs ihkwargs =>
    exact ⟨readsAs_filter ihtarget.1 (fun node hmem => (ihargs node hmem).1)
      fun entry hmem => (ihkwargs entry hmem).1, by simp⟩
  | test htarget hargs ihtarget ihargs =>
    exact ⟨readsAs_test ihtarget.1 fun node hmem => (ihargs node hmem).1, by simp⟩
  | unary h ih =>
    refine ⟨readsAs_unary ih.1 ih.2, ?_⟩
    rintro _ _ _ ⟨⟩
    exact ih.1
  | binary hleft hright hsum ihleft ihright =>
    exact ⟨readsAs_binary ihleft.1 ihright.1 hsum, by simp⟩
  | compare hfirst hrest ihfirst ihrest =>
    exact ⟨readsAs_compare ihfirst.1 fun entry hmem => (ihrest entry hmem).1, by simp⟩
  | inlineIf hcond hbody hotherwise ihcond ihbody ihotherwise =>
    exact ⟨readsAs_inlineIf ihcond.1 ihbody.1 fun node hmem => (ihotherwise node hmem).1, by simp⟩

end

end Node

section

variable {cx : CodeContext} {s t : CodeState} {node : Node} {code : Expr}

theorem Script.Variable.isName_temp (index : Nat) :
    Lexeme.IsName beyond (Variable.temp index).text.toList := by
  have hfree : ∀ word ∈ reservedWords, '_' ∉ word := by decide
  have htext : (Variable.temp index).text.toList = 't' :: '_' :: decimalDigits index := by
    simp [Variable.text, decimalDigits]
  rw [htext]
  refine ⟨'t', _, rfl, by decide, ?_, fun hmem => hfree _ hmem (by simp)⟩
  simp only [List.forall_mem_cons]
  exact ⟨rfl, rfl, fun c hc => Lexeme.isNamePart_of_isDigit (isDigit_of_mem_decimalDigits hc)⟩

/-- The variable of a parameter whose name may stand in a name. -/
theorem Script.Variable.isName_param {name : String}
    (h : ∀ c ∈ name.toList, Lexeme.isNamePart beyond c = true) :
    Lexeme.IsName beyond (Variable.param name).text.toList := by
  have hfree : ∀ word ∈ reservedWords, '_' ∉ word := by decide
  have htext : (Variable.param name).text.toList = 'l' :: '_' :: name.toList := by
    simp [Variable.text]
  rw [htext]
  refine ⟨'l', _, rfl, by decide, ?_, fun hmem => hfree _ hmem (by simp)⟩
  simp only [List.forall_mem_cons]
  exact ⟨rfl, rfl, h⟩

/-- Temporaries are names, and so are the variables of parameters with suitable names. -/
theorem CodeState.holdsNames (h : ∀ symbol v, s.holder? symbol = some v →
      (∃ index, v = .temp index) ∨
        ∃ name, v = .param name ∧ ∀ c ∈ name.toList, Lexeme.isNamePart beyond c = true) :
    s.HoldsNames beyond := by
  intro symbol v hv
  obtain ⟨index, rfl⟩ | ⟨name, rfl, hname⟩ := h symbol v hv
  · exact Variable.isName_temp index
  · exact Variable.isName_param hname

/-- How the code of an expression is read: by the structure of its operators as the target
    language groups them. -/
theorem Node.read_code (h : node.IsExpression) (hs : s.HoldsNames beyond)
    (hcode : cx.expression node s = .ok code t) :
    Script.read beyond code.text.toList = some (node.tree cx .target s.symbolTree) := by
  obtain ⟨-, head, hreads, -⟩ := readsAs_of_isExpression h hs code t hcode
  exact hreads.read_eq (Nat.le_trans (by decide) (le_codeLevel node))

/-- The code of an expression that the parser accepts, read by the longest lexemes and by the
    precedence and associativity of the target language, has the operators of the template on the
    same operands, exactly when no minus or plus sign stands before the same sign, and in no chain
    of comparisons an order comes after an equality. -/
theorem CodeContext.read_expression_eq_iff {stream rest : TokenStream} (hstream : stream.IsLexed)
    (hparse : Parser.expression stream = .ok node rest) (hs : s.HoldsNames beyond)
    (hcode : cx.expression node s = .ok code t) :
    Script.read beyond code.text.toList = some (node.tree cx .template s.symbolTree) ↔
      Node.AllKeepGrouping [node] := by
  have hnode := (Parser.yields_expression stream node rest hstream hparse).1
  rw [Node.read_code hnode hs hcode, Option.some.injEq]
  exact Node.groupedAlike_of_isExpression hnode

end

/-- The variables of a state in which no symbol is held. -/
theorem CodeState.holdsNames_initial : ({} : CodeState).HoldsNames beyond := by
  intro symbol v hv
  cases hv

/-- A sign before a sum in parentheses, as the operand of a product. -/
theorem CodeContext.read_expression_eq_iff_signed_group :
    let cx : CodeContext := ⟨"t.njk", {}, false⟩
    let tokens : List Token :=
      [⟨.operator, "-", ⟨1, 4⟩⟩, ⟨.leftParen, "(", ⟨1, 5⟩⟩, ⟨.symbol, "a", ⟨1, 6⟩⟩,
       ⟨.operator, "+", ⟨1, 8⟩⟩, ⟨.int, "1", ⟨1, 10⟩⟩, ⟨.rightParen, ")", ⟨1, 11⟩⟩,
       ⟨.operator, "*", ⟨1, 13⟩⟩, ⟨.symbol, "b", ⟨1, 15⟩⟩]
    let node : Node := .binary ⟨1, 4⟩ .mul
      (.unary ⟨1, 4⟩ .neg (.group ⟨1, 5⟩
        (.binary ⟨1, 6⟩ .add (.symbol ⟨1, 6⟩ "a") (.literal ⟨1, 10⟩ (.int 1)))))
      (.symbol ⟨1, 15⟩ "b")
    ∃ rest code t, Parser.expression ⟨tokens, Token.eofAt ⟨1, 16⟩⟩ = .ok node rest ∧
      cx.expression node {} = .ok code t ∧
      Script.read (fun _ => false) code.text.toList =
        some (node.tree cx .template ({} : CodeState).symbolTree) := by
  intro cx tokens node
  have hlexed : TokenStream.IsLexed ⟨tokens, Token.eofAt ⟨1, 16⟩⟩ := by
    refine ⟨?_, Token.isLexed_of_kind (by decide) (by decide)⟩
    simp only [tokens, List.forall_mem_cons, List.not_mem_nil, false_implies, implies_true, and_true]
    refine ⟨?_, ?_, ?_, ?_, fun _ => ⟨'1', [], by decide, by decide⟩, ?_, ?_, ?_⟩ <;>
      exact Token.isLexed_of_kind (by decide) (by decide)
  have hparse : Parser.expression ⟨tokens, Token.eofAt ⟨1, 16⟩⟩ =
      .ok node ⟨[], Token.eofAt ⟨1, 16⟩⟩ := by
    subst tokens node
    rfl
  have hnode := (Parser.yields_expression _ _ _ hlexed hparse).1
  have hkeeps : Node.AllKeepGrouping [node] :=
    (@Node.groupedAlike_of_isExpression cx ({} : CodeState).symbolTree node hnode).mp rfl
  exact ⟨_, _, _, hparse, rfl,
    (CodeContext.read_expression_eq_iff hlexed hparse CodeState.holdsNames_initial rfl).mpr hkeeps⟩

/-- Two minus signs count the operand down, and an order after an equality takes its operand. -/
theorem CodeContext.doubled_sign_and_later_order_misread :
    let cx : CodeContext := ⟨"t.njk", {}, false⟩
    let signs : List Token :=
      [⟨.operator, "-", ⟨1, 4⟩⟩, ⟨.operator, "-", ⟨1, 6⟩⟩, ⟨.symbol, "a", ⟨1, 7⟩⟩]
    let chain : List Token :=
      [⟨.symbol, "a", ⟨1, 4⟩⟩, ⟨.operator, "==", ⟨1, 6⟩⟩, ⟨.symbol, "b", ⟨1, 9⟩⟩,
       ⟨.operator, "<", ⟨1, 11⟩⟩, ⟨.symbol, "c", ⟨1, 13⟩⟩]
    ∀ tokens ∈ [signs, chain], ∃ node rest code t,
      Parser.expression ⟨tokens, Token.eofAt ⟨1, 15⟩⟩ = .ok node rest ∧
      cx.expression node {} = .ok code t ∧
      Script.read (fun _ => false) code.text.toList ≠
        some (node.tree cx .template ({} : CodeState).symbolTree) := by
  intro cx signs chain
  have hmisread {node : Node} {code : Expr} {t : CodeState} (hnode : node.IsExpression)
      (hcode : cx.expression node {} = .ok code t)
      (hne : node.tree cx .target ({} : CodeState).symbolTree ≠
        node.tree cx .template ({} : CodeState).symbolTree) :
      Script.read (fun _ => false) code.text.toList ≠
        some (node.tree cx .template ({} : CodeState).symbolTree) := by
    rw [Node.read_code hnode CodeState.holdsNames_initial hcode]
    exact fun heq => hne (Option.some.inj heq)
  simp only [List.forall_mem_cons, List.not_mem_nil, false_implies, implies_true, and_true]
  refine ⟨⟨.unary ⟨1, 4⟩ .neg (.unary ⟨1, 6⟩ .neg (.symbol ⟨1, 7⟩ "a")), _, _, _, rfl, rfl,
      hmisread (.unary (.unary .symbol)) rfl fun heq => ?_⟩,
    .compare ⟨1, 4⟩ (.symbol ⟨1, 4⟩ "a") [(.eq, .symbol ⟨1, 9⟩ "b"), (.lt, .symbol ⟨1, 13⟩ "c")],
    _, _, _, rfl, rfl, hmisread (.compare .symbol ?_) rfl fun heq => ?_⟩
  · cases heq
  · simpa using ⟨.symbol, .symbol⟩
  · cases heq

end TemplateManifest
