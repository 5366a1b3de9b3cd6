import TemplateManifest.Proofs.Compile.Compilable
import TemplateManifest.Proofs.Compile.Quoted

/-!
The code of a template is clean, and the texts of all nodes stand in it in quotes. Main statement: the
text of the module of any source is well nested, and its strings are those of the emitted code.
-/

namespace TemplateManifest

open Script Vocabulary

namespace CodeContext

open Coder

variable {cx : CodeContext} {root : List Node}

theorem areParams {node : Node} {params : List (String × Option Node)} (hnamed : Node.AreNamed root)
    (hnode : node.Among root) (hnames : node.bareNames = params.map (·.1))
    (hquoted : params.map (·.1) ⊆ node.quoted cx.env) : cx.AreParams root params := by
  intro param hparam
  obtain ⟨top, htop, hwithin⟩ := id hnode
  have hname : param.1 ∈ params.map (·.1) := List.mem_map_of_mem hparam
  exact ⟨allows_of_quoted hnode (hquoted hname),
    hnamed top htop node hwithin param.1 (hnames ▸ hname)⟩

/-- The code of a node that has none of its own is the code of the node. -/
theorem allows_ofNode {node : Node} {s t : CodeState} {code : Expr} (hnode : node.Among root)
    (hs : s.Stands root) (h : cx.expression node s = .ok (.ofNode node code) t) :
    cx.Allows root (.ofNode node code) :=
  ⟨hnode, s, t, hs.scopes, h⟩

theorem quotes_literal {pos : Position} {value : Literal} {s : CodeState}
    (hnode : (Node.literal pos value).Among root) (hs : s.Stands root) :
    cx.Quotes root [.literal pos value] s
      ((Expr.ofNode (.literal pos value) (literal value)).IsClean (cx.Allows root))
      (Expr.ofNode (.literal pos value) (literal value)).parts s := by
  have hcode : cx.expression (.literal pos value) s =
      .ok (.ofNode (.literal pos value) (literal value)) s := pure_eq_ok_iff.mpr ⟨rfl, rfl⟩
  refine .leaf hs ⟨allows_ofNode hnode hs hcode, isClean_literal ?_⟩ rfl ?_ nofun
  · rintro text rfl
    exact allows_of_quoted hnode (List.mem_singleton_self _)
  · intro text htext
    cases value with
    | str value =>
      obtain rfl := List.mem_singleton.mp htext
      exact List.mem_cons_of_mem _ (List.mem_singleton_self _)
    | _ => cases htext

/-- The code of a run of text. -/
theorem quotes_dataCode {pos : Position} {text : String} {s : CodeState}
    (hnode : (Node.data pos text).Among root) (hs : s.Stands root) :
    cx.Quotes root [.data pos text] s (Stmt.AreClean (cx.Allows root) (dataCode text))
      (Stmt.partsAll (dataCode text)) s := by
  refine .leaf hs (areClean_dataCode fun hne => allows_of_quoted hnode ?_) rfl ?_ nofun
  · simp [Node.quoted, hne]
  · cases hempty : text.isEmpty
    · simp [Node.quoted, dataCode, hempty, Stmt.partsAll, Stmt.parts, Expr.parts]
    · simp [Node.quoted, hempty]

/-- The code of a call of an extension, from that of its arguments and its bodies. -/
theorem quotes_extensionCode {pos : Position} {site : Site} {extensionMethod : String}
    {args : List Node} {kwargs : List (String × Node)} {bodies : List (List Node)} {isAsync : Bool}
    {e : Extension} {as ks cs : List Expr} {s t : CodeState} (hsite : cx.env.extension? site = some e)
    (hnode : (Node.extensionCall pos site extensionMethod args kwargs bodies isAsync).Among root)
    (hargs : cx.Quotes root (args ++ kwargs.map (·.2) ++ bodies.flatten) s
      ((Expr.AreClean (cx.Allows root) as ∧ Expr.AreClean (cx.Allows root) ks ∧
        ∀ entry ∈ kwargs, .string entry.1 ∈ Expr.partsAll ks) ∧ Expr.AreClean (cx.Allows root) cs)
      (Expr.partsAll as ++ Expr.partsAll ks ++ Expr.partsAll cs) t) :
    cx.Quotes root [.extensionCall pos site extensionMethod args kwargs bodies isAsync] s
      ((extensionCode e extensionMethod isAsync (as ++ ks ++ cs)).IsClean (cx.Allows root))
      (extensionCode e extensionMethod isAsync (as ++ ks ++ cs)).parts t := by
  have hquoted : (Node.extensionCall pos site extensionMethod args kwargs bodies isAsync).quoted cx.env =
      e.name :: extensionMethod :: kwargs.map (·.1) := by
    simp [Node.quoted, hsite]
  have hname : cx.Allows root (.string e.name) :=
    allows_of_quoted hnode (hquoted ▸ List.mem_cons_self)
  have hmethod : cx.Allows root (.string extensionMethod) :=
    allows_of_quoted hnode (hquoted ▸ List.mem_cons_of_mem _ List.mem_cons_self)
  have hnames := hargs.clean.1.2.2
  refine Quotes.of_children hargs (fun hclean => ?_) ?_ ?_ nofun
  · simp [hclean, hname, hmethod]
  · exact partsAll_subset_extensionCode e extensionMethod isAsync as ks cs
  · rw [hquoted]
    intro text htext
    refine parts_subset_awaitedIf _ _ ?_
    simp only [List.mem_cons, List.mem_map] at htext
    simp only [method, Expr.parts, Expr.partsAll, Expr.partsAll_append, List.mem_append, List.mem_cons]
    grind

theorem isClean_keyCode (key : Node) (code : Expr) :
    (key.keyCode code).IsClean (cx.Allows root) ↔ code.IsClean (cx.Allows root) := by
  unfold Node.keyCode
  split <;> simp

theorem isClean_putOut (pos : Position) (value : Expr) :
    (cx.putOut pos value).IsClean (cx.Allows root) ↔ value.IsClean (cx.Allows root) := by
  rw [putOut, isClean_outputValue]
  split <;> simp (disch := decide)

/-- Every left member of a list has a partner in one of the same length. -/
theorem exists_mem_zip {α β : Type} {left : List α} {right : List β}
    (h : left.length = right.length) {a : α} (ha : a ∈ left) : ∃ b, (a, b) ∈ left.zip right := by
  rw [← List.map_fst_zip h.le] at ha
  obtain ⟨entry, hentry, rfl⟩ := List.mem_map.mp ha
  exact ⟨entry.2, hentry⟩

/-- The body of a loop with the variables of its targets. -/
theorem quotes_loopBody {targets : List String} {nodes : List Node} {body : Coder (List Stmt)}
    {s t : CodeState} {result : List Variable × List Stmt}
    (hbody : ∀ {s t : CodeState} {code : List Stmt}, s.Stands root → body s = .ok code t →
      cx.Quotes root nodes s (Stmt.AreClean (cx.Allows root) code) (Stmt.partsAll code) t)
    (hs : s.Stands root)
    (h : inScope (do
      let holders ← freshAll targets.length
      bindAll (targets.zip holders)
      return (holders, ← body)) s = .ok result t) :
    cx.Quotes root nodes s (Stmt.AreClean (cx.Allows root) result.2 ∧
      List.Forall₂ (fun target v => v.CanHold target) targets result.1) (Stmt.partsAll result.2) t := by
  obtain ⟨u, v, w, hholders, hbind, hcode, rfl⟩ := inScope_targets_eq_ok_iff.mp h
  have hholds := canHold_freshAll hholders
  obtain ⟨-, rfl⟩ := freshAll_eq_ok hholders
  have hpending : v.pending = s.pending := (bindAll_keeps hbind).2.1
  have hscoped : CodeState.IsScoped
      { s with temps := s.temps + targets.length, scopes := [] :: s.scopes } := hs.scopes.opened
  have hv : v.Stands root := ⟨isScoped_bindAll (canHold_zip hholds) hscoped hbind, by
    rw [hpending]; exact hs.pending⟩
  have hbody := hbody hv hcode
  exact ⟨⟨hbody.clean, hholds⟩, ⟨hbody.stands.scopes.tail, hbody.stands.pending⟩,
    hpending ▸ hbody.grows, hbody.covers⟩

/-- The code of a call, from that of its callee and its arguments. -/
theorem quotes_callCode {pos : Position} {callee : Node} {args : List Node}
    {kwargs : List (String × Node)} {called : Expr} {as ks : List Expr} {s t : CodeState}
    (hnode : (Node.call pos callee args kwargs).Among root)
    (h : cx.Quotes root (callee :: (args ++ kwargs.map (·.2))) s
      (called.IsClean (cx.Allows root) ∧ Expr.AreClean (cx.Allows root) as ∧
        Expr.AreClean (cx.Allows root) ks ∧ ∀ entry ∈ kwargs, .string entry.1 ∈ Expr.partsAll ks)
      (called.parts ++ (Expr.partsAll as ++ Expr.partsAll ks)) t) :
    cx.Quotes root [.call pos callee args kwargs] s
      ((callCode pos called callee.calleeText (as ++ ks)).IsClean (cx.Allows root))
      (callCode pos called callee.calleeText (as ++ ks)).parts t := by
  have hnames := h.clean.2.2.2
  refine Quotes.of_children h (fun hclean => ?_)
    (parts_subset_callCode pos called callee.calleeText as ks) ?_ nofun
  · simp [hclean, allows_of_quoted hnode (List.mem_cons_self)]
  · simp only [Node.quoted, callCode, runtime, method,
      Expr.parts, Expr.partsAll, Expr.partsAll_append, List.mem_append, List.mem_cons]
    grind

/-- The code of a filter, from that of its target and its arguments. -/
theorem quotes_filterCode {pos : Position} {filter : String} {target : Node} {args : List Node}
    {kwargs : List (String × Node)} {isAsync : Bool} {c : Expr} {as ks : List Expr}
    {s t : CodeState} (hnode : (Node.filter pos filter target args kwargs).Among root)
    (h : cx.Quotes root (target :: (args ++ kwargs.map (·.2))) s
      (c.IsClean (cx.Allows root) ∧ Expr.AreClean (cx.Allows root) as ∧
        Expr.AreClean (cx.Allows root) ks ∧ ∀ entry ∈ kwargs, .string entry.1 ∈ Expr.partsAll ks)
      (c.parts ++ (Expr.partsAll as ++ Expr.partsAll ks)) t) :
    let code := awaitedIf isAsync (method (method (name "env") "getFilter" [.string filter]) "call"
      (name "context" :: c :: (as ++ ks)))
    cx.Quotes root [.filter pos filter target args kwargs] s (code.IsClean (cx.Allows root))
      code.parts t := by
  have hnames := h.clean.2.2.2
  refine Quotes.of_children h (fun hclean => ?_) (parts_subset_filterCode isAsync _ c as ks) ?_ nofun
  · simp (disch := decide) [hclean, allows_of_quoted hnode (List.mem_cons_self)]
  · intro text htext
    refine parts_subset_awaitedIf isAsync _ ?_
    simp only [Node.quoted, List.mem_cons, List.mem_map] at htext
    simp only [method, Expr.parts, Expr.partsAll, Expr.partsAll_append, List.mem_append,
      List.mem_cons]
    grind

/-- The code of a loop, from that of its parts: the variables `result.1` hold the targets while the
    body is written. -/
theorem quotes_loopCode {pos : Position} {targets : List String} {iterated : Node}
    {body otherwise : List Node} {c : Expr} {result : List Variable × List Stmt} {o : List Stmt}
    {s v t : CodeState} (arr len i : Nat)
    (hnode : (Node.forEach pos targets iterated body otherwise).Among root)
    (hotherwise : cx.statements otherwise v = .ok o t)
    (h : cx.Quotes root (iterated :: (body ++ otherwise)) s
      (c.IsClean (cx.Allows root) ∧ (Stmt.AreClean (cx.Allows root) result.2 ∧
        List.Forall₂ (fun target v => v.CanHold target) targets result.1) ∧
        Stmt.AreClean (cx.Allows root) o)
      (c.parts ++ (Stmt.partsAll result.2 ++ Stmt.partsAll o)) t) :
    let code := loopCode (.temp arr) (.temp len) (.temp i) c (targets.zip result.1) result.2
      (if otherwise.isEmpty then none else some o)
    cx.Quotes root [.forEach pos targets iterated body otherwise] s
      (Stmt.AreClean (cx.Allows root) code) (Stmt.partsAll code) t := by
  obtain ⟨-, ⟨-, hholders⟩, -⟩ := h.clean
  have htargets : ∀ target ∈ targets.zip result.1,
      cx.Allows root (.string target.1) ∧ target.2.IsClean := fun target htarget =>
    ⟨allows_of_quoted hnode (List.of_mem_zip htarget).1,
      (canHold_zip hholders target htarget).isClean⟩
  refine Quotes.of_children h (fun hclean => ?_) ?_ ?_ nofun
  · refine areClean_loopCode allows_words.2.2 ⟨isClean_temp _, isClean_temp _, isClean_temp _⟩
      hclean.1 htargets hclean.2.1.1 ?_
    split
    · trivial
    · exact hclean.2.2
  · rw [← partsAll_otherwise hotherwise]
    exact parts_subset_loopCode _ _ _ c _ result.2 _
  · intro target htarget
    obtain ⟨v, hv⟩ := exists_mem_zip hholders.length_eq htarget
    exact string_mem_loopCode _ _ _ c _ _ _ hv

/-- The code of an assignment, from that of its value. -/
theorem quotes_assignment {pos : Position} {targets : List String} {value : Node} {c : Expr}
    {holders : List Variable} {s u v t : CodeState}
    (hnode : (Node.assign pos targets value).Among root)
    (hvalue : cx.Quotes root [value] s (c.IsClean (cx.Allows root)) c.parts u)
    (hholders : variablesFor targets u = .ok holders v)
    (hbind : bindAll (targets.zip holders) v = .ok () t) :
    let code : List Stmt := holders.map (fun v => .declare v none) ++ .assignAll holders c ::
      (targets.zip holders).flatMap fun (target, v) => publish target v
    cx.Quotes root [.assign pos targets value] s (Stmt.AreClean (cx.Allows root) code)
      (Stmt.partsAll code) t := by
  have hholds := canHold_variablesFor hvalue.stands.scopes hholders
  have hkeeps := variablesFor_keeps hholders
  have hscoped : v.IsScoped := by
    rw [hkeeps]
    exact hvalue.stands.scopes
  have hpending : t.pending = u.pending := by
    rw [(bindAll_keeps hbind).2.1, hkeeps]
  have ht : t.Stands root := ⟨isScoped_bindAll (canHold_zip hholds) hscoped hbind, by
    rw [hpending]; exact hvalue.stands.pending⟩
  refine Quotes.of_children (hvalue.before ht (hpending ▸ List.Subset.refl _)) (fun hclean => ?_)
    (fun e he => ?_) (fun target htarget => ?_) nofun
  · exact areClean_assignment (isClean_of_canHold hholds) hclean fun entry hentry =>
      ⟨allows_of_quoted hnode (List.of_mem_zip hentry).1, (canHold_zip hholds _ hentry).isClean⟩
  · simp only [Stmt.partsAll, Stmt.partsAll_append, Stmt.parts, List.mem_append]
    exact .inr (.inl he)
  · obtain ⟨holder, hholder⟩ := exists_mem_zip hholds.length_eq htarget
    rw [Stmt.partsAll_append]
    refine List.mem_append_right _ (List.mem_append_right _ ?_)
    exact string_mem_publishAll hholder

/-- The body of a block waits until the functions of the blocks are written. -/
theorem quotes_block {pos : Position} {blockName : String} {body : List Node} {s : CodeState}
    (hnode : (Node.block pos blockName body).Among root) (hs : s.Stands root) :
    let code : List Stmt := [.branch (.signed .not (name "parentTemplate"))
      [.append (.named "output") (cx.awaitedIfAsync
        (.call (method (name "context") "getBlock" [.string blockName]) renderArguments))]]
    cx.Quotes root [.block pos blockName body] s (Stmt.AreClean (cx.Allows root) code)
      (Stmt.partsAll code) { s with pending := s.pending ++ [⟨blockName, body⟩] } := by
  have hname : cx.Allows root (.string blockName) := allows_of_quoted hnode (List.mem_singleton_self _)
  refine ⟨?_, ⟨hs.scopes, List.forall_mem_append.mpr ⟨hs.pending, ?_⟩⟩,
    List.subset_append_left _ _, fun inner hinner => ?_⟩
  · simp (disch := decide) [hname]
  · exact List.forall_mem_singleton.mpr ⟨pos, hnode⟩
  · rcases Node.among_singleton.mp hinner with rfl | hinner
    · refine .inl ⟨List.forall_mem_singleton.mpr (List.mem_append_left _ ?_), nofun⟩
      refine List.mem_append_right _ (List.mem_append_left _ (parts_subset_awaitedIfAsync _ ?_))
      simp [method, Expr.parts, Expr.partsAll]
    · exact .inr ⟨⟨blockName, body⟩, List.mem_append_right _ (List.mem_singleton_self _), hinner⟩

/-- The code of a macro and of the variable that holds it. -/
theorem quotes_definition {pos : Position} {macroName : String}
    {params : List (String × Option Node)} {body : List Node} {c : Expr} {s u t : CodeState}
    (hnode : (Node.macroDef pos macroName params body).Among root)
    (h : cx.Quotes root (params.filterMap (·.2) ++ body) { s with temps := s.temps + 1 }
      (c.IsClean (cx.Allows root) ∧ ∀ param ∈ params, .string param.1 ∈ c.parts) c.parts u)
    (hbind : Coder.bind macroName (.temp (s.temps + 1)) u = .ok () t) :
    let v : Variable := .temp (s.temps + 1)
    let code : List Stmt := .declare v (some c) :: publish macroName v
    cx.Quotes root [.macroDef pos macroName params body] s (Stmt.AreClean (cx.Allows root) code)
      (Stmt.partsAll code) t := by
  obtain ⟨-, hnames⟩ := h.clean
  have hpending := (bind_keeps hbind).2.1
  have ht : t.Stands root := ⟨isScoped_bind (v := .temp _) trivial h.stands.scopes hbind, by
    rw [hpending]; exact h.stands.pending⟩
  have hname : cx.Allows root (.string macroName) := allows_of_quoted hnode List.mem_cons_self
  have hcoded : cx.Quotes root _ s _ _ u := h.after (List.Subset.refl s.pending)
  refine Quotes.of_children (hcoded.before ht (hpending ▸ List.Subset.refl _)) (fun hclean => ?_)
    (List.subset_append_left _ _) ?_ nofun
  · simp [hclean.1, hname]
  · refine List.forall_mem_cons.mpr ⟨List.mem_append_right _ (string_mem_publish _ _), ?_⟩
    exact List.forall_mem_map.mpr fun param hparam => List.mem_append_left _ (hnames param hparam)

variable (hnamed : Node.AreNamed root)
include hnamed

set_option linter.unusedSectionVars false in
mutual

/-- Code generation for an expression gives clean code with the texts of its nodes. -/
theorem quotes_expression : ∀ {node : Node} {s t : CodeState} {code : Expr}, node.Among root →
    s.Stands root → cx.expression node s = .ok code t →
      cx.Quotes root [node] s (code.IsClean (cx.Allows root)) code.parts t
  | .literal pos value, s, t, code, hnode, hs, h => by
    obtain ⟨rfl, rfl⟩ := pure_eq_ok_iff.mp h
    exact quotes_literal hnode hs
  | .symbol pos symbol, s, t, code, hnode, hs, h => by
    obtain ⟨rfl, hcode⟩ := expression_symbol_eq_ok_iff.mp h
    have hclean : ((t.holder? symbol).elim (contextLookup symbol) .variable).IsClean
        (cx.Allows root) := by
      cases hv : t.holder? symbol with
      | some v => exact (hs.scopes.canHold hv).isClean
      | none =>
        exact (isClean_contextLookup symbol).mpr
          (allows_of_quotable hnode (List.mem_singleton_self _))
    subst hcode
    exact .leaf hs ⟨allows_ofNode hnode hs h, hclean⟩ rfl (List.forall_mem_nil _) nofun
  | .group _ inner, s, t, code, hnode, hs, h => by
    obtain ⟨c, hinner, rfl⟩ := expression_group_eq_ok_iff.mp h
    have hinner := quotes_expression (hnode.children inner (List.mem_singleton_self _)) hs hinner
    exact Quotes.plain hinner isClean_paren.mpr (List.subset_cons_self _ _) rfl nofun
  | .array _ items, s, t, code, hnode, hs, h => by
    obtain ⟨cs, hitems, rfl⟩ := expression_array_eq_ok_iff.mp h
    have hitems := quotes_expressions hnode.children hs hitems
    exact Quotes.plain hitems isClean_array.mpr (List.subset_cons_self _ _) rfl nofun
  | .dict _ entries, s, t, code, hnode, hs, h => by
    obtain ⟨cs, hentries, rfl⟩ := expression_dict_eq_ok_iff.mp h
    have hentries := quotes_entryCode hnode.children hs hentries
    exact Quotes.plain hentries isClean_object.mpr (List.subset_cons_self _ _) rfl nofun
  | .lookup _ target key, s, t, code, hnode, hs, h => by
    obtain ⟨c, u, k, htarget, hkey, rfl⟩ := expression_lookup_eq_ok_iff.mp h
    obtain ⟨htargetAmong, hkeyAmong⟩ := List.forall_mem_cons.mp hnode.children
    have htarget := quotes_expression htargetAmong hs htarget
    have hkey := quotes_expression (hkeyAmong key (List.mem_singleton_self _)) htarget.stands hkey
    refine Quotes.plain (htarget.append hkey) (fun hclean => ?_) (parts_subset_lookupCode c k) rfl nofun
    simp (disch := decide) [hclean]
  | .call pos callee args kwargs, s, t, code, hnode, hs, h => by
    obtain ⟨called, u, as, v, ks, hcalled, hargs, hkwargs, rfl⟩ := expression_call_eq_ok_iff.mp h
    obtain ⟨hcalleeAmong, hrest⟩ := List.forall_mem_cons.mp hnode.children
    obtain ⟨hargsAmong, hkwargsAmong⟩ := List.forall_mem_append.mp hrest
    have hcalled := quotes_expression hcalleeAmong hs hcalled
    have hargs := quotes_expressions hargsAmong hcalled.stands hargs
    have hkwargs := quotes_keywordCode (fun entry hentry => allows_of_quoted hnode
      (List.mem_cons_of_mem _ (List.mem_map_of_mem hentry))) hkwargsAmong hargs.stands hkwargs
    exact quotes_callCode hnode (hcalled.append (hargs.append hkwargs))
  | .filter _ filter target args kwargs, s, t, code, hnode, hs, h => by
    obtain ⟨isAsync, c, u, as, v, ks, -, htarget, hargs, hkwargs, rfl⟩ :=
      expression_filter_eq_ok_iff.mp h
    obtain ⟨htargetAmong, hrest⟩ := List.forall_mem_cons.mp hnode.children
    obtain ⟨hargsAmong, hkwargsAmong⟩ := List.forall_mem_append.mp hrest
    have htarget := quotes_expression htargetAmong hs htarget
    have hargs := quotes_expressions hargsAmong htarget.stands hargs
    have hkwargs := quotes_keywordCode (fun entry hentry => allows_of_quoted hnode
      (List.mem_cons_of_mem _ (List.mem_map_of_mem hentry))) hkwargsAmong hargs.stands hkwargs
    exact quotes_filterCode hnode (htarget.append (hargs.append hkwargs))
  | .test _ target test args negated, s, t, code, hnode, hs, h => by
    obtain ⟨c, u, as, htarget, hargs, rfl⟩ := expression_test_eq_ok_iff.mp h
    obtain ⟨htargetAmong, hargsAmong⟩ := List.forall_mem_cons.mp hnode.children
    have htarget := quotes_expression htargetAmong hs htarget
    have hargs := quotes_expressions hargsAmong htarget.stands hargs
    have htest : cx.Allows root (.string test) := allows_of_quoted hnode (List.mem_singleton_self _)
    refine Quotes.of_children (htarget.append hargs) (fun hclean => ?_)
      (parts_subset_testCode negated _ c as) (List.forall_mem_singleton.mpr ?_) nofun
    · split <;> simp (disch := decide) [hclean, htest]
    · split <;> simp [method, Expr.parts, Expr.partsAll]
  | .unary _ op operand, s, t, code, hnode, hs, h => by
    obtain ⟨c, hoperand, rfl⟩ := expression_unary_eq_ok_iff.mp h
    have hoperand := quotes_expression (hnode.children operand (List.mem_singleton_self _)) hs hoperand
    refine Quotes.plain hoperand (fun hclean => ?_) ?_ rfl nofun
    · simp [hclean]
    · exact List.Subset.trans (parts_subset_operandCode _ _ _) (List.subset_cons_self _ _)
  | .binary _ op left right, s, t, code, hnode, hs, h => by
    obtain ⟨l, u, r, hleft, hright, hcode⟩ := expression_binary_eq_ok_iff.mp h
    obtain ⟨hleftAmong, hrightAmong⟩ := List.forall_mem_cons.mp hnode.children
    have hleft := quotes_expression hleftAmong hs hleft
    have hright := quotes_expression (hrightAmong right (List.mem_singleton_self _)) hleft.stands hright
    subst hcode
    refine Quotes.of_children (hleft.append hright) (fun hclean => ?_) (fun e he => ?_)
      (List.forall_mem_nil _) fun _ => ⟨_, List.mem_cons_self⟩
    · exact ⟨allows_ofNode hnode hs h, isClean_binaryCode allows_words.1 (by simp [hclean])
        (by simp [hclean])⟩
    · refine List.mem_cons_of_mem _ (parts_subset_code op _ _ ?_)
      rcases List.mem_append.mp he with he | he
      · exact List.mem_append_left _ (parts_subset_operandCode _ _ _ he)
      · exact List.mem_append_right _ (parts_subset_operandCode _ _ _ he)
  | .compare _ first rest, s, t, code, hnode, hs, h => by
    obtain ⟨c, u, hfirst, h⟩ := expression_compare_eq_ok_iff.mp h
    obtain ⟨hfirstAmong, hrestAmong⟩ := List.forall_mem_cons.mp hnode.children
    have hfirst := quotes_expression hfirstAmong hs hfirst
    have hrest := quotes_comparedCode hrestAmong hfirst.stands h
    have hsub := hrest.clean.2
    refine Quotes.plain (hfirst.append hrest) (fun hclean => ?_) ?_ rfl nofun
    · exact hclean.2.1 ((isClean_operandCode _ _ _).mpr hclean.1)
    · exact List.append_subset.mpr
        ⟨List.Subset.trans (parts_subset_operandCode _ _ _) hsub, List.Subset.refl _⟩
  | .inlineIf _ cond body otherwise, s, t, code, hnode, hs, h => by
    obtain ⟨c, u, b, v, o, hcond, hbody, hotherwise, rfl⟩ := expression_inlineIf_eq_ok_iff.mp h
    obtain ⟨hcondAmong, hrest⟩ := List.forall_mem_cons.mp hnode.children
    obtain ⟨hbodyAmong, hotherwiseAmong⟩ := List.forall_mem_cons.mp hrest
    have hcond := quotes_expression hcondAmong hs hcond
    have hbody := quotes_expression hbodyAmong hcond.stands hbody
    have hotherwise := quotes_optionalCode hotherwiseAmong hbody.stands hotherwise
    refine Quotes.plain (hcond.append (hbody.append hotherwise)) (fun hclean => ?_) ?_ rfl nofun
    · simp [hclean]
    · exact List.subset_cons_of_subset _ (List.subset_cons_self _ _)
  | .extensionCall _ site extensionMethod args kwargs bodies isAsync, s, t, code, hnode, hs, h => by
    obtain ⟨e, as, u, ks, v, cs, hsite, hargs, hkwargs, hbodies, rfl⟩ :=
      expression_extensionCall_eq_ok_iff.mp h
    obtain ⟨hvaluesAmong, hbodiesAmong⟩ := List.forall_mem_append.mp hnode.children
    obtain ⟨hargsAmong, hkwargsAmong⟩ := List.forall_mem_append.mp hvaluesAmong
    have hargs := quotes_expressions hargsAmong hs hargs
    have hkwargs := quotes_keywordCode (fun entry hentry => allows_of_quoted hnode
      (List.mem_append_right _ (List.mem_cons_of_mem _ (List.mem_map_of_mem hentry)))) hkwargsAmong
        hargs.stands hkwargs
    have hbodies := quotes_closureCode hbodiesAmong hkwargs.stands hbodies
    exact quotes_extensionCode hsite hnode ((hargs.append hkwargs).append hbodies)
  | .callerBody _ params body, s, t, code, hnode, hs, h => by
    rw [expression_callerBody] at h
    obtain ⟨hparamsAmong, hbodyAmong⟩ := List.forall_mem_append.mp hnode.children
    have hparams : cx.AreParams root params := areParams hnamed hnode rfl (List.Subset.refl _)
    have hcoded := quotes_macroCode hparams (quotes_defaultCode hparamsAmong)
      (quotes_statements hbodyAmong) hs h
    have hnames := hcoded.clean.2
    exact Quotes.of_children hcoded And.left (List.Subset.refl _) (List.forall_mem_map.mpr hnames) nofun
  | .capture _ body, s, t, code, hnode, hs, h => by
    obtain ⟨b, hbody, rfl⟩ := expression_capture_eq_ok_iff.mp h
    have hbody := Quotes.inScope (Stmt.AreClean (cx.Allows root)) Stmt.partsAll hs
      hbody fun hu h => quotes_statements hnode.children hu h
    refine Quotes.plain hbody (fun hclean => ?_) ?_ rfl nofun
    · simp [hclean, allows_words.1]
    · refine List.Subset.trans (fun e he => ?_) (parts_subset_awaitedIfAsync _)
      simp only [Expr.parts, List.mem_cons, List.mem_append]
      exact .inr (.inl (.inr (partsAll_subset_closure cx _ he)))
  | .data _ _, s, t, code, _, _, h | .output _ _, s, t, code, _, _, h
  | .ifElse _ _ _ _, s, t, code, _, _, h | .forEach _ _ _ _ _, s, t, code, _, _, h
  | .assign _ _ _, s, t, code, _, _, h | .block _ _ _, s, t, code, _, _, h
  | .macroDef _ _ _ _, s, t, code, _, _, h | .inclusion _ _ _, s, t, code, _, _, h =>
    absurd h throw_ne_ok

theorem quotes_expressions : ∀ {nodes : List Node} {s t : CodeState} {code : List Expr},
    Node.AllAmong nodes root → s.Stands root → cx.expressions nodes s = .ok code t →
      cx.Quotes root nodes s (Expr.AreClean (cx.Allows root) code) (Expr.partsAll code) t
  | [], s, t, code, _, hs, h => by
    obtain ⟨rfl, rfl⟩ := pure_eq_ok_iff.mp h
    exact .nil trivial hs (List.Subset.refl _)
  | node :: nodes, s, t, code, hnodes, hs, h => by
    obtain ⟨c, u, cs, hfirst, hrest, rfl⟩ := expressions_cons_eq_ok_iff.mp h
    obtain ⟨hnode, hnodes⟩ := List.forall_mem_cons.mp hnodes
    have hfirst := quotes_expression hnode hs hfirst
    exact hfirst.append (quotes_expressions hnodes hfirst.stands hrest)

theorem quotes_optionalCode : ∀ {node : Option Node} {s t : CodeState} {code : Expr},
    Node.AllAmong node.toList root → s.Stands root → cx.optionalCode node s = .ok code t →
      cx.Quotes root node.toList s (code.IsClean (cx.Allows root)) code.parts t
  | none, s, t, code, _, hs, h => by
    obtain ⟨rfl, rfl⟩ := pure_eq_ok_iff.mp h
    exact .nil allows_words.1 hs (List.Subset.refl _)
  | some node, s, t, code, hnode, hs, h => by
    rw [optionalCode] at h
    exact quotes_expression (hnode node (List.mem_singleton_self _)) hs h

theorem quotes_entryCode : ∀ {entries : List (Node × Node)} {s t : CodeState}
    {code : List (Expr × Expr)},
    Node.AllAmong (entries.flatMap fun entry => [entry.1, entry.2]) root → s.Stands root →
      cx.entryCode entries s = .ok code t →
      cx.Quotes root (entries.flatMap fun entry => [entry.1, entry.2]) s
        (Expr.AreCleanEntries (cx.Allows root) code) (Expr.partsEntries code) t
  | [], s, t, code, _, hs, h => by
    obtain ⟨rfl, rfl⟩ := pure_eq_ok_iff.mp h
    exact .nil trivial hs (List.Subset.refl _)
  | (key, value) :: entries, s, t, code, hnodes, hs, h => by
    obtain ⟨hkey, hrest⟩ := List.forall_mem_cons.mp hnodes
    obtain ⟨hvalue, hentries⟩ := List.forall_mem_cons.mp hrest
    obtain ⟨k, u, c, v, cs, hk, hv, hcs, rfl⟩ := entryCode_cons_eq_ok_iff.mp h
    have hk := quotes_expression hkey hs hk
    have hkeyed := hk.mono (isClean_keyCode key k).mpr (parts_subset_keyCode key k)
    have hv := quotes_expression hvalue hkeyed.stands hv
    exact hkeyed.append (hv.append (quotes_entryCode hentries hv.stands hcs))

theorem quotes_keywordCode : ∀ {kwargs : List (String × Node)} {s t : CodeState}
    {code : List Expr}, (∀ entry ∈ kwargs, cx.Allows root (.string entry.1)) →
      Node.AllAmong (kwargs.map (·.2)) root → s.Stands root → cx.keywordCode kwargs s = .ok code t →
      cx.Quotes root (kwargs.map (·.2)) s (Expr.AreClean (cx.Allows root) code ∧
        ∀ entry ∈ kwargs, .string entry.1 ∈ Expr.partsAll code) (Expr.partsAll code) t
  | [], s, t, code, _, _, hs, h => by
    obtain ⟨rfl, rfl⟩ := pure_eq_ok_iff.mp h
    exact .nil ⟨trivial, List.forall_mem_nil _⟩ hs (List.Subset.refl _)
  | (keyword, value) :: kwargs, s, t, code, hnames, hnodes, hs, h => by
    obtain ⟨c, u, entries, hvalue, hentries, rfl⟩ := keywordCode_cons_eq_ok_iff.mp h
    obtain ⟨hname, hnames⟩ := List.forall_mem_cons.mp hnames
    obtain ⟨hnode, hnodes⟩ := List.forall_mem_cons.mp hnodes
    have hvalue := quotes_expression hnode hs hvalue
    have hentries := quotes_keywordEntries hnames hnodes hvalue.stands hentries
    have hquoted := hentries.clean.2
    refine (hvalue.append hentries).mono (fun hclean => ⟨?_, ?_⟩) fun e he => ?_
    · simp (disch := decide) [hclean, hname]
    · simp only [runtime, method, Expr.parts, Expr.partsAll, Expr.partsEntries,
        List.mem_append, List.mem_cons]
      grind
    · simp only [runtime, method, Expr.partsAll, Expr.parts, Expr.partsEntries, List.mem_append,
        List.mem_cons] at he ⊢
      grind

theorem quotes_keywordEntries : ∀ {kwargs : List (String × Node)} {s t : CodeState}
    {code : List (Expr × Expr)}, (∀ entry ∈ kwargs, cx.Allows root (.string entry.1)) →
      Node.AllAmong (kwargs.map (·.2)) root → s.Stands root → cx.keywordEntries kwargs s = .ok code t →
      cx.Quotes root (kwargs.map (·.2)) s (Expr.AreCleanEntries (cx.Allows root) code ∧
        ∀ entry ∈ kwargs, .string entry.1 ∈ Expr.partsEntries code) (Expr.partsEntries code) t
  | [], s, t, code, _, _, hs, h => by
    obtain ⟨rfl, rfl⟩ := pure_eq_ok_iff.mp h
    exact .nil ⟨trivial, List.forall_mem_nil _⟩ hs (List.Subset.refl _)
  | (keyword, value) :: kwargs, s, t, code, hnames, hnodes, hs, h => by
    obtain ⟨c, u, entries, hvalue, hentries, rfl⟩ := keywordEntries_cons_eq_ok_iff.mp h
    obtain ⟨hname, hnames⟩ := List.forall_mem_cons.mp hnames
    obtain ⟨hnode, hnodes⟩ := List.forall_mem_cons.mp hnodes
    have hvalue := quotes_expression hnode hs hvalue
    have hentries := quotes_keywordEntries hnames hnodes hvalue.stands hentries
    refine (hvalue.append hentries).mono (fun hclean => ⟨?_, ?_⟩) (List.subset_append_right _ _)
    · exact ⟨hname, hclean.1, hclean.2.1⟩
    · refine List.forall_mem_cons.mpr ⟨List.mem_append_left _ (List.mem_singleton_self _), ?_⟩
      exact fun entry hentry => List.mem_append_right _ (List.mem_append_right _
        (hclean.2.2 entry hentry))

theorem quotes_comparedCode : ∀ {rest : List (CompareOp × Node)} {s t : CodeState}
    {start code : Expr}, Node.AllAmong (rest.map (·.2)) root → s.Stands root →
      cx.comparedCode start rest s = .ok code t →
      cx.Quotes root (rest.map (·.2)) s
        ((start.IsClean (cx.Allows root) → code.IsClean (cx.Allows root)) ∧ start.parts ⊆ code.parts)
        code.parts t
  | [], s, t, start, code, _, hs, h => by
    obtain ⟨rfl, rfl⟩ := pure_eq_ok_iff.mp h
    exact .nil ⟨id, List.Subset.refl _⟩ hs (List.Subset.refl _)
  | (op, operand) :: rest, s, t, start, code, hnodes, hs, h => by
    obtain ⟨c, u, hoperand, h⟩ := comparedCode_cons_eq_ok_iff.mp h
    obtain ⟨hnode, hnodes⟩ := List.forall_mem_cons.mp hnodes
    have hoperand := quotes_expression hnode hs hoperand
    have hrest := quotes_comparedCode hnodes hoperand.stands h
    obtain ⟨hstart, hc⟩ := List.append_subset.mp
      (List.Subset.trans (List.subset_cons_self _ _) hrest.clean.2)
    refine (hoperand.append hrest).mono (fun hclean => ⟨fun hstart => ?_, hstart⟩)
      (List.append_subset.mpr ⟨?_, List.Subset.refl _⟩)
    · exact hclean.2.1 (by simp [hstart, hclean.1])
    · exact List.Subset.trans (parts_subset_operandCode _ _ _) hc

theorem quotes_closureCode : ∀ {bodies : List (List Node)} {s t : CodeState} {code : List Expr},
    Node.AllAmong bodies.flatten root → s.Stands root → cx.closureCode bodies s = .ok code t →
      cx.Quotes root bodies.flatten s (Expr.AreClean (cx.Allows root) code) (Expr.partsAll code) t
  | [], s, t, code, _, hs, h => by
    obtain ⟨rfl, rfl⟩ := pure_eq_ok_iff.mp h
    exact .nil trivial hs (List.Subset.refl _)
  | body :: bodies, s, t, code, hnodes, hs, h => by
    obtain ⟨b, u, cs, hbody, hbodies, rfl⟩ := closureCode_cons_eq_ok_iff.mp h
    obtain ⟨hbodyAmong, hbodiesAmong⟩ := List.forall_mem_append.mp hnodes
    have hbody := Quotes.inScope (Stmt.AreClean (cx.Allows root)) Stmt.partsAll hs
      hbody fun hu h => quotes_statements hbodyAmong hu h
    have hclean : (cx.closure b).IsClean (cx.Allows root) := by
      simp [hbody.clean, allows_words.1]
    have hclosure := hbody.mono (fun _ => hclean) (partsAll_subset_closure cx b)
    exact hclosure.append (quotes_closureCode hbodiesAmong hclosure.stands hbodies)

theorem quotes_defaultCode : ∀ {params : List (String × Option Node)},
    Node.AllAmong (params.filterMap (·.2)) root → ∀ {s t : CodeState} {code : List (String × Expr)},
      s.Stands root → cx.defaultCode params s = .ok code t →
      cx.Quotes root (params.filterMap (·.2)) s
        ((∀ entry ∈ code, entry.2.IsClean (cx.Allows root)) ∧
          code.map (·.1) = (params.filter fun p => p.2.isSome).map (·.1))
        (code.flatMap (·.2.parts)) t
  | [], _, s, t, code, hs, h => by
    obtain ⟨rfl, rfl⟩ := pure_eq_ok_iff.mp h
    exact .nil ⟨List.forall_mem_nil _, rfl⟩ hs (List.Subset.refl _)
  | (_, none) :: params, hnodes, s, t, code, hs, h => by
    rw [defaultCode] at h
    have hparams : Node.AllAmong (params.filterMap (·.2)) root := hnodes
    exact quotes_defaultCode hparams hs h
  | (param, some node) :: params, hnodes, s, t, code, hs, h => by
    obtain ⟨c, u, cs, hdefault, hparams, rfl⟩ := defaultCode_cons_eq_ok_iff.mp h
    obtain ⟨hnode, hnodes⟩ := List.forall_mem_cons.mp hnodes
    have hdefault := quotes_expression hnode hs hdefault
    have hparams := quotes_defaultCode hnodes hdefault.stands hparams
    refine (hdefault.append hparams).mono (fun hclean => ⟨?_, ?_⟩) (List.Subset.refl _)
    · exact List.forall_mem_cons.mpr ⟨hclean.1, hclean.2.1⟩
    · simp [hclean.2.2]

theorem quotes_outputCode : ∀ {nodes : List Node} {s t : CodeState} {code : List Stmt},
    Node.AllAmong nodes root → s.Stands root → cx.outputCode nodes s = .ok code t →
      cx.Quotes root nodes s (Stmt.AreClean (cx.Allows root) code) (Stmt.partsAll code) t
  | [], s, t, code, _, hs, h => by
    obtain ⟨rfl, rfl⟩ := pure_eq_ok_iff.mp h
    exact .nil trivial hs (List.Subset.refl _)
  | node :: nodes, s, t, code, hall, hs, h => by
    obtain ⟨hnode, hnodes⟩ := List.forall_mem_cons.mp hall
    obtain ⟨pos, text, cs, rfl, hrest, rfl⟩ | ⟨c, u, cs, hfirst, hrest, rfl⟩ := outputCode_cons_eq_ok h
    · have hrest := quotes_outputCode hnodes hs hrest
      refine ((quotes_dataCode hnode hs).append hrest).mono (fun hclean => ?_) ?_
      · simp [hclean]
      · simp
    · have hfirst := quotes_expression hnode hs hfirst
      have hrest := quotes_outputCode hnodes hfirst.stands hrest
      exact (hfirst.mono (isClean_putOut node.pos c).mpr (parts_subset_putOut node.pos c)).append hrest

theorem quotes_statement : ∀ {node : Node} {s t : CodeState} {code : List Stmt}, node.Among root →
    s.Stands root → cx.statement node s = .ok code t →
      cx.Quotes root [node] s (Stmt.AreClean (cx.Allows root) code) (Stmt.partsAll code) t
  | .data pos text, s, t, code, hnode, hs, h => by
    obtain ⟨rfl, rfl⟩ := pure_eq_ok_iff.mp h
    exact quotes_dataCode hnode hs
  | .output _ nodes, s, t, code, hnode, hs, h => by
    rw [statement_output] at h
    exact Quotes.plain (quotes_outputCode hnode.children hs h) id (List.Subset.refl _) rfl nofun
  | .ifElse _ cond body otherwise, s, t, code, hnode, hs, h => by
    obtain ⟨c, u, b, v, o, hcond, hbody, hotherwise, rfl⟩ := statement_ifElse_eq_ok_iff.mp h
    obtain ⟨hcondAmong, hrest⟩ := List.forall_mem_cons.mp hnode.children
    obtain ⟨hbodyAmong, hotherwiseAmong⟩ := List.forall_mem_append.mp hrest
    have hcond := quotes_expression hcondAmong hs hcond
    have hbody := quotes_statements hbodyAmong hcond.stands hbody
    have hother := quotes_statements hotherwiseAmong hbody.stands hotherwise
    refine Quotes.plain (hcond.append (hbody.append hother)) (fun hclean => ?_)
      (partsAll_ifElse hotherwise ▸ List.Subset.refl _) rfl nofun
    split <;> simp [hclean]
  | .forEach _ targets iterated body otherwise, s, t, code, hnode, hs, h => by
    obtain ⟨c, u, result, v, o, hiterated, hloop, hotherwise, rfl⟩ := statement_forEach_eq_ok h
    obtain ⟨hiteratedAmong, hrest⟩ := List.forall_mem_cons.mp hnode.children
    obtain ⟨hbodyAmong, hotherwiseAmong⟩ := List.forall_mem_append.mp hrest
    have hiterated := quotes_expression hiteratedAmong hs hiterated
    have hcounters : CodeState.Stands { u with temps := u.temps + 3 } root :=
      ⟨hiterated.stands.scopes, hiterated.stands.pending⟩
    have hloop := quotes_loopBody (fun hu h => quotes_statements hbodyAmong hu h) hcounters hloop
    have hother := quotes_statements hotherwiseAmong hloop.stands hotherwise
    exact quotes_loopCode _ _ _ hnode hotherwise
      (hiterated.append (Quotes.append (hloop.after (List.Subset.refl _)) hother))
  | .assign _ targets value, s, t, code, hnode, hs, h => by
    obtain ⟨c, u, holders, v, hvalue, hholders, hbind, rfl⟩ := statement_assign_eq_ok_iff.mp h
    have hvalue := quotes_expression (hnode.children value (List.mem_singleton_self _)) hs hvalue
    exact quotes_assignment hnode hvalue hholders hbind
  | .block pos blockName body, s, t, code, hnode, hs, h => by
    obtain ⟨rfl, rfl⟩ := statement_block_eq_ok_iff.mp h
    exact quotes_block hnode hs
  | .macroDef _ macroName params body, s, t, code, hnode, hs, h => by
    obtain ⟨c, u, hcode, hbind, rfl⟩ := statement_macroDef_eq_ok_iff.mp h
    obtain ⟨hparamsAmong, hbodyAmong⟩ := List.forall_mem_append.mp hnode.children
    have hparams : cx.AreParams root params :=
      areParams hnamed hnode rfl (List.subset_cons_self _ _)
    have hfresh : CodeState.Stands { s with temps := s.temps + 1 } root := ⟨hs.scopes, hs.pending⟩
    have hcoded := quotes_macroCode hparams (quotes_defaultCode hparamsAmong)
      (quotes_statements hbodyAmong) hfresh hcode
    exact quotes_definition hnode hcoded hbind
  | .inclusion _ form template, s, t, code, hnode, hs, h => by
    obtain ⟨c, u, htemplate, h⟩ := statement_inclusion_eq_ok_iff.mp h
    have htemplate := quotes_expression (hnode.children template (List.mem_singleton_self _)) hs
      htemplate
    have hform := quotes_inclusionCode htemplate.clean (fun _ htext => allows_of_quoted hnode htext)
      htemplate.stands h
    have hnames := hform.clean.2
    refine Quotes.of_children ((htemplate.before hform.stands hform.grows).mono (fun _ => hform.clean.1)
      (inclusionCode_parts h)) id (List.Subset.refl _) hnames nofun
  | .extensionCall _ site extensionMethod args kwargs bodies isAsync, s, t, code, hnode, hs, h => by
    obtain ⟨e, as, u, ks, v, cs, hsite, hargs, hkwargs, hbodies, rfl⟩ :=
      statement_extensionCall_eq_ok_iff.mp h
    obtain ⟨hvaluesAmong, hbodiesAmong⟩ := List.forall_mem_append.mp hnode.children
    obtain ⟨hargsAmong, hkwargsAmong⟩ := List.forall_mem_append.mp hvaluesAmong
    have hargs := quotes_expressions hargsAmong hs hargs
    have hkwargs := quotes_keywordCode (fun entry hentry => allows_of_quoted hnode
      (List.mem_append_right _ (List.mem_cons_of_mem _ (List.mem_map_of_mem hentry)))) hkwargsAmong
        hargs.stands hkwargs
    have hbodies := quotes_closureCode hbodiesAmong hkwargs.stands hbodies
    refine (quotes_extensionCode hsite hnode ((hargs.append hkwargs).append hbodies)).mono
      (fun hclean => ?_) (List.subset_append_of_subset_left _ (parts_subset_outputValue _ _))
    simpa using hclean
  | .literal _ _, s, t, code, _, _, h | .symbol _ _, s, t, code, _, _, h
  | .group _ _, s, t, code, _, _, h | .array _ _, s, t, code, _, _, h
  | .dict _ _, s, t, code, _, _, h | .lookup _ _ _, s, t, code, _, _, h
  | .call _ _ _ _, s, t, code, _, _, h | .filter _ _ _ _ _, s, t, code, _, _, h
  | .test _ _ _ _ _, s, t, code, _, _, h | .unary _ _ _, s, t, code, _, _, h
  | .binary _ _ _ _, s, t, code, _, _, h | .compare _ _ _, s, t, code, _, _, h
  | .inlineIf _ _ _ _, s, t, code, _, _, h | .callerBody _ _ _, s, t, code, _, _, h
  | .capture _ _, s, t, code, _, _, h => absurd h throw_ne_ok

theorem quotes_statements : ∀ {nodes : List Node}, Node.AllAmong nodes root →
    ∀ {s t : CodeState} {code : List Stmt}, s.Stands root → cx.statements nodes s = .ok code t →
      cx.Quotes root nodes s (Stmt.AreClean (cx.Allows root) code) (Stmt.partsAll code) t
  | [], _, s, t, code, hs, h => by
    obtain ⟨rfl, rfl⟩ := pure_eq_ok_iff.mp h
    exact .nil trivial hs (List.Subset.refl _)
  | node :: nodes, hnodes, s, t, code, hs, h => by
    obtain ⟨c, u, cs, hfirst, hrest, rfl⟩ := statements_cons_eq_ok_iff.mp h
    obtain ⟨hnode, hnodes⟩ := List.forall_mem_cons.mp hnodes
    have hfirst := quotes_statement hnode hs hfirst
    refine (hfirst.append (quotes_statements hnodes hfirst.stands hrest)).mono (fun hclean => ?_) ?_
    · simp [hclean]
    · simp

end

/-- The function of a block is written apart from the open scopes. -/
theorem quotes_blockCode {b : PendingBlock} {s t : CodeState} {function : BlockFunction}
    (hb : ∃ pos, (Node.block pos b.name b.body).Among root)
    (hpending : ∀ b ∈ s.pending, ∃ pos, (Node.block pos b.name b.body).Among root)
    (h : cx.blockCode b s = .ok function t) :
    ∃ u, u.pending = t.pending ∧ cx.Quotes root b.body { s with scopes := [[]] }
      (Unmarked function.name.toList ∧ Stmt.AreClean (cx.Allows root) function.body)
      (Stmt.partsAll function.body) u := by
  obtain ⟨pos, hb⟩ := hb
  obtain ⟨code, u, hcode, rfl, rfl⟩ := blockCode_eq_ok_iff.mp h
  have hempty : CodeState.Stands { s with scopes := [[]] } root :=
    ⟨CodeState.isScoped_initial, hpending⟩
  have hbody := quotes_statements hnamed hb.children hempty hcode
  obtain ⟨top, htop, hwithin⟩ := hb
  have hname := hnamed top htop _ hwithin b.name (List.mem_singleton_self _)
  refine ⟨u, rfl, hbody.mono (fun hclean => ⟨unmarked_of_isNameText hname, ?_⟩) fun e he => ?_⟩
  · simp (disch := decide) [hclean, allows_words.1]
  · simp only [Stmt.partsAll, Stmt.partsAll_append, List.mem_append]
    exact .inr (.inr (.inl he))

/-- The functions of the pending blocks are clean, and the texts of the nodes in the blocks stand in
    them. -/
theorem quotes_blockCodes {bound : Nat} {written : List String} {s t : CodeState}
    {functions : List BlockFunction}
    (hpending : ∀ b ∈ s.pending, ∃ pos, (Node.block pos b.name b.body).Among root)
    (h : cx.blockCodes bound written s = .ok functions t) :
    (∀ function ∈ functions, Unmarked function.name.toList ∧
      Stmt.AreClean (cx.Allows root) function.body) ∧
    ∀ node : Node, (∃ b ∈ s.pending, node.Among b.body) →
      cx.HasQuoted node (functions.flatMap fun b => Stmt.partsAll b.body) [] := by
  induction bound generalizing written s functions with
  | zero =>
    rcases blockCodes_eq_ok h with ⟨hnil, rfl⟩ | ⟨_, _, _, _, _, _, hbound, _⟩
    · exact ⟨List.forall_mem_nil _, by simp [hnil]⟩
    · cases hbound
  | succ bound ih =>
    rcases blockCodes_eq_ok h with
      ⟨hnil, rfl⟩ | ⟨_, b, u, v, function, rest, hbound, hnext, _, hfunction, hrest, rfl⟩
    · exact ⟨List.forall_mem_nil _, by simp [hnil]⟩
    · obtain rfl := Nat.succ.inj hbound
      rw [hnext] at hpending ⊢
      obtain ⟨hb, hpending⟩ := List.forall_mem_cons.mp hpending
      obtain ⟨w, hw, hquotes⟩ := quotes_blockCode hnamed hb hpending hfunction
      obtain ⟨hclean, hcovers⟩ := ih (hw ▸ hquotes.stands.pending) hrest
      refine ⟨List.forall_mem_cons.mpr ⟨hquotes.clean, hclean⟩, fun node hnode => ?_⟩
      have hfirst : cx.HasQuoted node (Stmt.partsAll function.body) v.pending := by
        obtain ⟨waiting, hwaiting, hnode⟩ := hnode
        rcases List.mem_cons.mp hwaiting with rfl | hwaiting
        · exact hw ▸ hquotes.covers node hnode
        · exact .inr ⟨waiting, hw ▸ hquotes.grows hwaiting, hnode⟩
      rw [List.flatMap_cons]
      exact hfirst.later (hcovers node)

theorem quotes_rootCode {s : CodeState} {code : List Stmt} (h : cx.rootCode root {} = .ok code s) :
    cx.Quotes root root {} (Stmt.AreClean (cx.Allows root) code) (Stmt.partsAll code) s := by
  obtain ⟨c, hbody, rfl⟩ := rootCode_eq_ok_iff.mp h
  have hroot : Node.AllAmong root root := fun node hnode => ⟨node, hnode, .self⟩
  have hbody := quotes_statements hnamed hroot ⟨CodeState.isScoped_initial, List.forall_mem_nil _⟩ hbody
  refine hbody.mono (fun hclean => ?_) fun e he => ?_
  · simp (disch := decide) [hclean, allows_words.1]
  · simp only [Stmt.partsAll, Stmt.partsAll_append, List.mem_append]
    exact .inr (.inr (.inl he))

end CodeContext

theorem unmarked_of_isIdentifier {word : String} (h : IsIdentifier word) : Unmarked word.toList := by
  have hmarks : ∀ mark ∈ scanMarks,
      ¬ (mark.isAlpha = true ∨ mark = '_' ∨ mark = '$') ∧ mark.isDigit = false :=
    List.forall_iff_forall_mem.mp (by decide)
  obtain ⟨first, rest, hword, hfirst, hrest⟩ := h
  rw [hword]
  refine List.forall_mem_cons.mpr ⟨fun hmark => (hmarks first hmark).1 hfirst, fun c hc hmark => ?_⟩
  rcases hrest c hc with hc | hc
  · exact (hmarks c hmark).1 hc
  · exact Bool.false_ne_true ((hmarks c hmark).2.symm.trans hc)

theorem Template.name_of_compile {template : Template} {env : Environment} {moduleVar : String}
    {module : Module} (h : template.compile env moduleVar = .ok module) : module.name = moduleVar := by
  obtain ⟨-, root, s, blocks, t, -, -, rfl⟩ := Template.compile_eq_ok_iff.mp h
  rfl

/-- The module of a template whose names are names is clean, and each node of the template has its
    texts in the module in quotes. -/
theorem Template.quotes_compile {template : Template} {env : Environment} {moduleVar : String}
    {module : Module} (hnamed : Node.AreNamed template.body)
    (h : template.compile env moduleVar = .ok module) :
    let cx : CodeContext := ⟨template.name, env, template.requiresAsync env⟩
    module.IsClean (cx.Allows template.body) ∧
      ∀ node ∈ template.walk, cx.HasQuoted node module.parts [] := by
  intro cx
  obtain ⟨s, t, hroot, hblocks⟩ := Template.compile_eq_ok h
  have hroot := CodeContext.quotes_rootCode hnamed hroot
  obtain ⟨hclean, hcovers⟩ := CodeContext.quotes_blockCodes hnamed hroot.stands.pending hblocks
  refine ⟨⟨?_, hroot.clean, hclean⟩, fun node hnode => ?_⟩
  · exact Template.name_of_compile h ▸
      unmarked_of_isIdentifier (Template.isCompilable_of_compile h).identifier
  · exact (hroot.covers node (Node.among_of_mem_walk hnode)).later (hcovers node)

/-- The text of the module of a source is well nested: outside its strings the brackets close in the
    order in which they open, no string is left open, and its strings, decoded, are those of the emitted
    code, one after another. The texts of all nodes of the template are among them, and each of them is a
    word of code generation, the name of the template or a text of a node. -/
theorem Template.wellNested_compile {env : Environment} {name source moduleVar : String}
    {template : Template} {module : Module} (hparse : Template.parse env name source = .ok template)
    (hcompile : template.compile env moduleVar = .ok module) :
    strings? module.text.toList = some (stringsAmong module.parts) ∧
      (∀ node ∈ template.walk, ∀ text ∈ node.quoted env, text.toList ∈ stringsAmong module.parts) ∧
      ∀ value ∈ stringsAmong module.parts, ∃ text : String, value = text.toList ∧
        (text ∈ CodeContext.quotedWords ∨ text = template.name ∨
          ∃ node ∈ template.walk, text ∈ node.quotable env) := by
  obtain ⟨hclean, hquoted⟩ := Template.quotes_compile (Template.isNamed_of_parse hparse) hcompile
  refine ⟨(Module.balanced_text hclean).strings?_eq, fun node hnode text htext => ?_, fun value hvalue => ?_⟩
  · rcases hquoted node hnode with ⟨htexts, -⟩ | ⟨b, hb, -⟩
    · exact mem_stringsAmong.mpr ⟨text, htexts text htext, rfl⟩
    · cases hb
  · obtain ⟨text, hpart, rfl⟩ := mem_stringsAmong.mp hvalue
    refine ⟨text, rfl, ?_⟩
    rcases Module.allowed_of_mem_parts hclean _ hpart rfl with hword | hname | ⟨node, hnode, htext⟩
    · exact .inl hword
    · exact .inr (.inl hname)
    · exact .inr (.inr ⟨node, Node.mem_walk_iff.mpr hnode, htext⟩)

/-- A template with quotes and brackets in its text and in a literal. -/
theorem Template.wellNested_compile_brackets :
    let source :=
      "\"\x7b \x7b% block a %\x7d\x7b\x7b \"\\\")\" \x7d\x7d\x7b% endblock %\x7d\x7b% macro m(x$) %\x7d]\x7b% endmacro %\x7d"
    ∃ template module, Template.parse {} "t.njk" source = .ok template ∧
      template.compile {} "template" = .ok module ∧
      strings? module.text.toList = some (stringsAmong module.parts) := by
  intro source
  have hfound : (Template.parse {} "t.njk" source).toOption.any fun template =>
      (template.compile {} "template").toOption.any fun _ => true := by
    decide +kernel
  obtain ⟨template, hparse, hfound⟩ := exists_eq_ok_of_any hfound
  obtain ⟨module, hcompile, -⟩ := exists_eq_ok_of_any hfound
  exact ⟨template, module, hparse, hcompile, (Template.wellNested_compile hparse hcompile).1⟩

end TemplateManifest
