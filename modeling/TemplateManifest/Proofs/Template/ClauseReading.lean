import TemplateManifest.Proofs.Template.ExpressionReading

/-!
Every statement is read back from its words, and so is every template: one lemma for each kind of
statement over the bodies nested in it, and an induction over the statement that only cites them.
-/

namespace TemplateManifest

open Parser Statement Word

variable {env : Environment} {tagOf : Node → String} {bodies : Bodies} {ends : Word → Prop}
  {pos : Position}

theorem endsAt_tagEnd {level : Nat} : EndsAt level tagEnd := endsAt_of_none rfl

theorem areRead_nested {nodes : List Node} (h : ∀ node ∈ nodes, node.IsTerm) :
    Expression.AreRead tagOf Expression.nested nodes :=
  fun node hnode => ⟨h node hnode, reads_expression (h node hnode)⟩

section Bodies

/-- The parser of bodies reads the body back, up to a tag that closes it. -/
def ReadsBody (env : Environment) (tagOf : Node → String) (bodies : Bodies) (body : List Node) :
    Prop :=
  ∀ stop, (∀ name ∈ stop, env.Closes name) →
    Reads (bodies stop) ((Node.spellings tagOf body).flatten ++ [tagOpen])
      (fun w => w.1 = .symbol ∧ w.2 ∈ stop)
      fun nodes => Node.unplacedAll nodes = Node.unplacedAll body

variable {α : Type} {body : List Node} {stop : List String} {name : String} {words : List Word}
  {P : α → Prop}

theorem ReadsBody.bind (h : ReadsBody env tagOf bodies body)
    (hstop : ∀ name ∈ stop, env.Closes name) (hname : name ∈ stop) {next : List Node → Parser α}
    (hnext : ∀ nodes, Node.unplacedAll nodes = Node.unplacedAll body →
      Reads (next nodes) (.symbol name :: words) ends P) :
    Reads (bodies stop >>= next)
      ((Node.spellings tagOf body).flatten ++ tagOpen :: .symbol name :: words) ends P := by
  have hread := (h stop hstop).bind hnext fun _ _ => ⟨rfl, hname⟩
  rwa [List.append_assoc, List.singleton_append] at hread

theorem closes_of_mem (env : Environment) (h : ∀ name ∈ stop, name ∈ closingTags) :
    ∀ name ∈ stop, env.Closes name :=
  fun name hname => .inl (h name hname)

end Bodies

section Conditional

/-- Goes on after the body of a branch: with another branch, or to the end of the statement. -/
def branchEnd (bodies : Bodies) (branches : List Branch) (closing : Token) :
    Parser (Step (List Branch × Token) Node) := do
  if closing.value ∈ ["elif", "elseif"] then
    return .more (branches, closing)
  else if closing.value = "else" then
    closeTag "else"
    let otherwise ← bodies ["endif"]
    closeTag "endif"
    return .done (conditionalNode branches otherwise)
  else
    closeTag "endif"
    return .done (conditionalNode branches [])

/-- One more branch of a conditional statement. -/
def branchStep (bodies : Bodies) (state : List Branch × Token) :
    Parser (Step (List Branch × Token) Node) := do
  let cond ← expression
  closeTag state.2.value
  let body ← bodies ["elif", "elseif", "else", "endif"]
  let closing ← next
  branchEnd bodies (state.1 ++ [⟨state.2.pos, cond, body⟩]) closing

theorem conditional_eq :
    conditional bodies = next >>= fun first => iterate (branchStep bodies) ([], first) := rfl

/-- A later branch stands in the branch before it. -/
theorem conditionalNode_append (branches : List Branch) (b : Branch) (otherwise : List Node) :
    conditionalNode (branches ++ [b]) otherwise =
      conditionalNode branches [.ifElse b.pos b.cond b.body otherwise] := by
  simp [conditionalNode, chain]

variable (tagOf) in
/-- Three ways in which a branch goes on. -/
theorem otherwise_cases (otherwise : List Node) :
    otherwise = [] ∨ (∃ pos cond body rest, otherwise = [.ifElse pos cond body rest]) ∨
      Node.otherwiseWords tagOf otherwise =
        bareTag "else" ++ ((Node.spellings tagOf otherwise).flatten ++ bareTag "endif") := by
  cases otherwise with
  | nil => exact .inl rfl
  | cons node nodes =>
    cases nodes with
    | nil =>
      cases node with
      | ifElse pos cond body rest => exact .inr (.inl ⟨_, _, _, _, rfl⟩)
      | _ => exact .inr (.inr (by simp [Node.otherwiseWords, Node.spellings]))
    | cons second nodes =>
      refine .inr (.inr ?_)
      rw [Node.otherwiseWords]
      · simp [Node.spellings]
      · simp

/-- The words of a branch, from its condition on. -/
def branchWords (tagOf : Node → String) (cond : Node) (body otherwise : List Node) : List Word :=
  cond.words tagOf ++ tagEnd ::
    ((Node.spellings tagOf body).flatten ++ Node.otherwiseWords tagOf otherwise)

/-- A conditional statement is read back as one more branch after some others. -/
def ReadsBranch (tagOf : Node → String) (bodies : Bodies) (node : Node) : Prop :=
  ∀ pos cond body otherwise, node = .ifElse pos cond body otherwise → ∀ branches keyword,
    Reads (iterate (branchStep bodies) (branches, keyword)) (branchWords tagOf cond body otherwise)
      (fun _ => True) fun found => ∃ node', node.Alike node' ∧ found = conditionalNode branches [node']

variable {cond : Node} {body otherwise : List Node}

theorem reads_branchStep {name : String} {words : List Word} {state : List Branch × Token}
    {P : Step (List Branch × Token) Node → Prop}
    (hname : name ∈ ["elif", "elseif", "else", "endif"]) (hcond : cond.IsTerm)
    (hbody : ReadsBody env tagOf bodies body)
    (hnext : ∀ b closing, b.pos = state.2.pos → cond.Alike b.cond →
      Node.unplacedAll b.body = Node.unplacedAll body → closing.value = name →
      Reads (branchEnd bodies (state.1 ++ [b]) closing) words ends P) :
    Reads (branchStep bodies state)
      (cond.words tagOf ++ tagEnd ::
        ((Node.spellings tagOf body).flatten ++ tagOpen :: .symbol name :: words)) ends P :=
  (reads_expression hcond).bind (fun cond' hcond' => reads_closeTag.bind_cons fun _ _ =>
    hbody.bind (closes_of_mem env (by decide)) hname fun nodes hnodes =>
      reads_next.bind_cons fun closing hclosing =>
        hnext ⟨_, cond', nodes⟩ closing rfl hcond' hnodes (congrArg Prod.snd hclosing))
    fun _ _ => endsAt_tagEnd

theorem reads_branch (hcond : cond.IsTerm) (hbody : ReadsBody env tagOf bodies body)
    (hotherwise : ReadsBody env tagOf bodies otherwise)
    (hlater : ∀ node ∈ otherwise, ReadsBranch tagOf bodies node) :
    ReadsBranch tagOf bodies (.ifElse pos cond body otherwise) := by
  rintro _ _ _ _ ⟨⟩ branches keyword
  rw [branchWords]
  obtain rfl | ⟨pos', cond', body', rest, rfl⟩ | helse := otherwise_cases tagOf otherwise
  · refine reads_iterate_done (reads_branchStep (by decide) hcond hbody
      fun b closing _ hb hbody' hclosing => ?_)
    rw [branchEnd, hclosing]
    refine reads_closeTag.bind_last (fun _ _ => reads_pure ⟨_, rfl, _, ?_, conditionalNode_append ..⟩)
      fun _ hw => hw
    simp only [Node.Alike, Node.unplaced, hb.eq, hbody']
  · have hwords : cond.words tagOf ++ tagEnd :: ((Node.spellings tagOf body).flatten ++
          Node.otherwiseWords tagOf [.ifElse pos' cond' body' rest]) =
        (cond.words tagOf ++ tagEnd :: ((Node.spellings tagOf body).flatten ++
          [tagOpen, .symbol "elif"])) ++ branchWords tagOf cond' body' rest := by
      simp [Node.otherwiseWords, tagStart, branchWords]
    rw [hwords]
    refine @reads_iterate_more _ _ _ _ _ _ (fun _ => True) _ _
      (fun state => ∃ b closing, cond.Alike b.cond ∧
        Node.unplacedAll b.body = Node.unplacedAll body ∧ state = (branches ++ [b], closing))
      (by simp) (reads_branchStep (by decide) hcond hbody fun b closing _ hb hbody' hclosing => ?_) ?_
      fun _ _ => trivial
    · rw [branchEnd, hclosing]
      exact reads_pure ⟨_, rfl, b, closing, hb, hbody', rfl⟩
    · rintro _ ⟨b, closing, hb, hbody', rfl⟩
      refine (hlater _ List.mem_cons_self _ _ _ _ rfl (branches ++ [b]) closing).mono
        (fun _ hw => hw) ?_
      rintro _ ⟨node', hnode', rfl⟩
      refine ⟨_, ?_, conditionalNode_append ..⟩
      simp only [Node.Alike, Node.unplaced, Node.unplacedAll, hb.eq, hbody', hnode'.eq]
  · rw [helse]
    refine reads_iterate_done (reads_branchStep (by decide) hcond hbody
      fun b closing _ hb hbody' hclosing => ?_)
    rw [branchEnd, hclosing]
    refine reads_closeTag.bind_cons fun _ _ => hotherwise.bind (closes_of_mem env (by decide))
      List.mem_cons_self fun nodes hnodes => reads_closeTag_named.bind_last
        (fun _ _ => reads_pure ⟨_, rfl, _, ?_, conditionalNode_append ..⟩) fun _ hw => hw
    simp only [Node.Alike, Node.unplaced, hb.eq, hbody', hnodes]

theorem reads_conditional (hcond : cond.IsTerm) (hbody : ReadsBody env tagOf bodies body)
    (hotherwise : ReadsBody env tagOf bodies otherwise)
    (hlater : ∀ node ∈ otherwise, ReadsBranch tagOf bodies node) :
    Reads (conditional bodies) (.symbol "if" :: branchWords tagOf cond body otherwise)
      (fun _ => True) (Node.ifElse pos cond body otherwise).Alike := by
  have hbranch : ReadsBranch tagOf bodies (.ifElse pos cond body otherwise) :=
    reads_branch hcond hbody hotherwise hlater
  rw [conditional_eq]
  refine reads_next.bind_cons fun keyword _ =>
    (hbranch _ _ _ _ rfl [] keyword).mono (fun _ hw => hw) ?_
  rintro _ ⟨node', hnode', rfl⟩
  exact hnode'

end Conditional

section Parts

/-- One more name of a list. -/
def listStep (what : String) (names : List String) : Parser (Step (List String) (List String)) := do
  if ← skipKind .comma then return .more (names ++ [← expectSymbol what])
  return .done names

theorem reads_listStep (what : String) (later before : List String) :
    Reads (iterate (listStep what) before) (later.flatMap fun name => [comma, .symbol name])
      (·.1 ≠ .comma) (· = before ++ later) := by
  induction later generalizing before with
  | nil =>
    refine reads_iterate_done ((reads_skipKind_nil fun _ hw => hw).bind_nil
      (fun more hmore => ?_) fun _ hw => hw)
    subst hmore
    exact reads_pure ⟨before, rfl, (List.append_nil before).symm⟩
  | cons name later ih =>
    rw [List.flatMap_cons, List.append_cons before]
    refine @reads_iterate_more _ _ _ _ _ _ (fun _ => True) _ _ (· = before ++ [name])
      (List.cons_ne_nil _ _) (reads_skipKind.bind_cons fun more hmore => ?_) ?_ fun _ _ => trivial
    · subst hmore
      refine Reads.map reads_expectSymbol ?_
      rintro _ rfl
      exact ⟨_, rfl, rfl⟩
    · rintro _ rfl
      exact ih (before ++ [name])

theorem reads_names {what : String} {targets : List String} (h : targets ≠ []) :
    Reads (names what) (Word.names targets) (·.1 ≠ .comma) (· = targets) := by
  obtain ⟨first, later, rfl⟩ := List.exists_cons_of_ne_nil h
  exact reads_expectSymbol.bind_cons fun name hname => hname ▸ reads_listStep what later [name]

variable {params : List (String × Option Node)}

theorem reads_parameter (found : List (String × Option Node)) {name : String} {default : Option Node}
    (h : ∀ node ∈ default, node.IsTerm) :
    Reads (parameter found)
      (.symbol name :: default.elim [] fun node => .assigns :: node.words tagOf)
      (fun w => w = comma ∨ w.1 = .rightParen)
      fun found' => ∃ param : String × Option Node,
        (param.1, param.2.map Node.unplaced) = (name, default.map Node.unplaced) ∧
          found' = found ++ [param] := by
  refine reads_expectSymbol.bind_cons ?_
  rintro _ rfl
  cases default with
  | none =>
    have hassigns (w : Word) (hw : w = comma ∨ w.1 = .rightParen) : w ≠ assigns := by
      rintro rfl
      simp at hw
    change Reads _ [] _ _
    refine (reads_skipOperator_nil hassigns).bind_nil (fun assigned hassigned => ?_) fun _ hw => hw
    subst hassigned
    exact reads_pure ⟨(_, none), rfl, rfl⟩
  | some node =>
    refine reads_skipOperator.bind_cons fun assigned hassigned => ?_
    subst hassigned
    refine Reads.map ((reads_expression (h node rfl)).mono
      (fun w hw => Expression.endsAt_of_separator hw (by decide)) fun _ hP => hP) fun node' hnode' => ?_
    exact ⟨(_, some node'), by simp [hnode'.eq], rfl⟩

theorem reads_parameters (h : ∀ param ∈ params, ∀ node ∈ param.2, node.IsTerm) :
    Reads parameters (.leftParen :: listed .rightParen (Node.paramSpellings tagOf params)) ends
      fun found => Node.unplacedParams found = Node.unplacedParams params := by
  simp only [Node.unplacedParams_eq_map, Node.paramSpellings_eq_map]
  refine reads_expect.bind_cons fun _ _ => reads_commaSeparated (by decide) (.of_map ?_) rfl
  exact fun param hparam => ⟨by simp, by simp, fun found => reads_parameter found (h param hparam)⟩

theorem reads_withContext :
    Reads withContext [.symbol "with", .symbol "context"] ends (· = some true) :=
  reads_skipSymbol.bind_cons fun skipped hskipped => by
    subst hskipped
    exact reads_expectKeyword.bind_cons fun _ _ => reads_pure rfl

theorem reads_withoutContext :
    Reads withContext [.symbol "without", .symbol "context"] ends (· = some false) :=
  (@reads_skipSymbol_nil (· = Word.symbol "without") _ (by rintro _ rfl; simp)).bind_nil
    (fun skipped hskipped => by
      subst hskipped
      refine reads_skipSymbol.bind_cons fun skipped hskipped => ?_
      subst hskipped
      exact reads_expectKeyword.bind_cons fun _ _ => reads_pure rfl) fun _ _ => rfl

theorem reads_withContext_nil (h : ∀ w, ends w → w ≠ .symbol "with" ∧ w ≠ .symbol "without") :
    Reads withContext [] ends (· = none) :=
  (reads_skipSymbol_nil fun w hw => (h w hw).1).bind_nil (fun skipped hskipped => by
    subst hskipped
    refine (reads_skipSymbol_nil fun w hw => (h w hw).2).bind_nil (fun skipped hskipped => ?_)
      fun _ hw => hw
    subst hskipped
    exact reads_pure rfl) fun _ hw => hw

end Parts

section Blocks

variable {body otherwise : List Node} {targets : List String} {value : Node} {name : String}

/-- The words of a loop after its body. -/
def loopEndWords (tagOf : Node → String) (otherwise : List Node) : List Word :=
  (if otherwise.isEmpty then [] else bareTag "else" ++ (Node.spellings tagOf otherwise).flatten) ++
    bareTag "endfor"

theorem reads_loop (htargets : targets ≠ []) (hvalue : value.IsTerm)
    (hbody : ReadsBody env tagOf bodies body) (hotherwise : ReadsBody env tagOf bodies otherwise) :
    Reads (loop bodies)
      (.symbol "for" :: (Word.names targets ++ .symbol "in" :: (value.words tagOf ++ tagEnd ::
        ((Node.spellings tagOf body).flatten ++ loopEndWords tagOf otherwise))))
      (fun _ => True) (Node.forEach pos targets value body otherwise).Alike := by
  refine reads_next.bind_cons fun token htoken => ?_
  have hend : loopEnd token.value = "endfor" := by
    rw [show token.value = "for" from congrArg Prod.snd htoken]
    rfl
  rw [hend]
  have hclosers : ∀ name ∈ ["endfor", "else"], env.Closes name := closes_of_mem env (by decide)
  refine (reads_names htargets).bind (fun found hfound => ?_) fun _ _ => by simp
  subst hfound
  refine reads_expectKeyword.bind_cons fun _ _ => (reads_expression hvalue).bind
    (fun value' hvalue' => reads_closeTag.bind_cons fun _ _ => ?_) fun _ _ => endsAt_tagEnd
  rw [loopEndWords]
  cases otherwise with
  | nil =>
    refine hbody.bind hclosers (by decide) fun nodes hnodes => ?_
    refine (@reads_skipSymbol_nil (· = Word.symbol "endfor") _ (by rintro _ rfl; simp)).bind_nil
      (fun skipped hskipped => ?_) fun _ _ => rfl
    subst hskipped
    refine reads_closeTag_named.bind_last (fun _ _ => reads_pure ?_) fun _ hw => hw
    simp only [Node.Alike, Node.unplaced, Node.unplacedAll, hnodes, hvalue'.eq]
  | cons node otherwise =>
    rw [if_neg (by simp), bareTag, tagStart, List.append_assoc]
    refine hbody.bind hclosers (by decide) fun nodes hnodes => ?_
    refine reads_skipSymbol.bind_cons fun skipped hskipped => ?_
    subst hskipped
    refine reads_closeTag.bind_cons fun _ _ => hotherwise.bind (closes_of_mem env (by decide))
      List.mem_cons_self fun nodes' hnodes' => reads_closeTag_named.bind_last
        (fun _ _ => reads_pure ?_) fun _ hw => hw
    simp only [Node.Alike, Node.unplaced, hnodes, hnodes', hvalue'.eq]

theorem reads_assignment (htargets : targets ≠ []) (hvalue : value.IsTerm) :
    Reads (assignment bodies)
      (.symbol "set" :: (Word.names targets ++ .assigns :: (value.words tagOf ++ [tagEnd])))
      (fun _ => True) (Node.assign pos targets value).Alike := by
  refine reads_next.bind_cons fun token _ =>
    (reads_names htargets).bind (fun found hfound => ?_) fun _ _ => by simp
  subst hfound
  refine reads_skipOperator.bind_cons fun assigned hassigned => ?_
  subst hassigned
  refine (reads_expression hvalue).bind (fun value' hvalue' => reads_closeTag.bind_last
    (fun _ _ => reads_pure ?_) fun _ hw => hw) fun _ _ => endsAt_tagEnd
  simp only [Node.Alike, Node.unplaced, hvalue'.eq]

theorem reads_captureBlock {pos' : Position} (htargets : targets ≠ [])
    (hbody : ReadsBody env tagOf bodies body) :
    Reads (assignment bodies)
      (.symbol "set" :: (Word.names targets ++ tagEnd ::
        ((Node.spellings tagOf body).flatten ++ bareTag "endset")))
      (fun _ => True) (Node.assign pos targets (.capture pos' body)).Alike := by
  refine reads_next.bind_cons fun token _ =>
    (reads_names htargets).bind (fun found hfound => ?_) fun _ _ => by simp
  subst hfound
  refine (@reads_skipOperator_nil (· = tagEnd) _ (by rintro _ rfl; simp)).bind_nil
    (fun assigned hassigned => ?_) fun _ _ => rfl
  subst hassigned
  refine reads_closeTag.bind_cons fun _ _ => hbody.bind (closes_of_mem env (by decide))
    List.mem_cons_self fun nodes hnodes => reads_closeTag_named.bind_last
      (fun _ _ => reads_pure ?_) fun _ hw => hw
  simp only [Node.Alike, Node.unplaced, hnodes]

theorem reads_block (hbody : ReadsBody env tagOf bodies body) :
    Reads (block bodies)
      (.symbol "block" :: .symbol name :: tagEnd ::
        ((Node.spellings tagOf body).flatten ++ bareTag "endblock"))
      (fun _ => True) (Node.block pos name body).Alike := by
  refine reads_next.bind_cons fun token _ => reads_expectSymbol.bind_cons fun found hfound => ?_
  subst hfound
  refine reads_closeTag.bind_cons fun _ _ => hbody.bind (closes_of_mem env (by decide))
    List.mem_cons_self fun nodes hnodes => reads_expectKeyword.bind_cons fun _ _ => ?_
  refine (@reads_skipSymbol_nil (· = tagEnd) _ (by rintro _ rfl; simp)).bind_nil
    (fun _ _ => reads_expect.bind_cons fun _ _ => reads_pure ?_) fun _ _ => rfl
  simp only [Node.Alike, Node.unplaced, hnodes]

theorem reads_macroDefinition {params : List (String × Option Node)}
    (hparams : ∀ param ∈ params, ∀ node ∈ param.2, node.IsTerm)
    (hbody : ReadsBody env tagOf bodies body) :
    Reads (macroDefinition bodies)
      (.symbol "macro" :: .symbol name :: .leftParen ::
        (listed .rightParen (Node.paramSpellings tagOf params) ++ tagEnd ::
          ((Node.spellings tagOf body).flatten ++ bareTag "endmacro")))
      (fun _ => True) (Node.macroDef pos name params body).Alike := by
  refine reads_next.bind_cons fun token _ => reads_expectSymbol.bind_cons fun found hfound => ?_
  subst hfound
  refine (@reads_parameters tagOf (fun _ => True) _ hparams).bind (fun params' hparams' =>
    reads_closeTag.bind_cons fun _ _ => hbody.bind (closes_of_mem env (by decide))
      List.mem_cons_self fun nodes hnodes => reads_closeTag_named.bind_last
        (fun _ _ => reads_pure ?_) fun _ hw => hw) fun _ _ => trivial
  simp only [Node.Alike, Node.unplaced, hnodes, hparams']

end Blocks

section Calls

variable {body : List Node} {args : List Node} {kwargs : List (String × Node)}

theorem keywordSpellings_append_caller {params : List (String × Option Node)}
    (h : ∀ entry ∈ kwargs, entry.2.IsTerm) :
    Node.keywordSpellings tagOf (kwargs ++ [("caller", .callerBody pos params body)]) =
        Node.keywordSpellings tagOf kwargs ∧
      Node.callerParamSpellings tagOf (kwargs ++ [("caller", .callerBody pos params body)]) =
        Node.paramSpellings tagOf params ∧
      Node.callerBodyWords tagOf (kwargs ++ [("caller", .callerBody pos params body)]) =
        (Node.spellings tagOf body).flatten := by
  induction kwargs with
  | nil => exact ⟨rfl, rfl, rfl⟩
  | cons entry kwargs ih =>
    obtain ⟨name, value⟩ := entry
    rw [List.forall_mem_cons] at h
    obtain ⟨hspellings, hparams, hwords⟩ := ih h.2
    have hne (pos : Position) (params : List (String × Option Node)) (body : List Node) :
        value ≠ .callerBody pos params body := by
      rintro rfl
      cases h.1
    rw [List.cons_append, Node.keywordSpellings, Node.keywordSpellings, Node.callerParamSpellings,
      Node.callerBodyWords, hspellings]
    · exact ⟨rfl, hparams, hwords⟩
    · exact fun _ pos params body heq => hne pos params body (congrArg Prod.snd heq)
    · exact fun _ pos params body heq => hne pos params body (congrArg Prod.snd heq)
    · exact hne
    · exact hne

theorem reads_callBlock {pos' pos'' : Position} {callee : Node} {params : List (String × Option Node)}
    (hcall : (Node.call pos' callee args kwargs).IsTerm)
    (hparams : ∀ param ∈ params, ∀ node ∈ param.2, node.IsTerm)
    (hbody : ReadsBody env tagOf bodies body) :
    Reads (callBlock bodies)
      (.symbol "call" :: .leftParen :: (listed .rightParen (Node.paramSpellings tagOf params) ++
        (Node.words tagOf (.call pos' callee args kwargs) ++ tagEnd ::
          ((Node.spellings tagOf body).flatten ++ bareTag "endcall"))))
      (fun _ => True)
      (Node.output pos
        [.call pos' callee args (kwargs ++ [("caller", .callerBody pos'' params body)])]).Alike := by
  refine reads_next.bind_cons fun token _ => Reads.peek_cons fun paren hparen => ?_
  rw [if_pos (show paren.kind = .leftParen from congrArg Prod.fst hparen)]
  refine (@reads_parameters tagOf (fun _ => True) _ hparams).bind (fun params' hparams' =>
    (reads_expression hcall).bind (fun called hcalled => reads_closeTag.bind_cons fun _ _ =>
      hbody.bind (closes_of_mem env (by decide)) List.mem_cons_self fun nodes hnodes =>
        reads_closeTag_named.bind_last (fun _ _ => ?_) fun _ hw => hw)
      fun _ _ => endsAt_tagEnd) fun _ _ => trivial
  cases called with
  | call place callee' args' kwargs' =>
    refine reads_pure ?_
    simp only [Node.Alike, Node.unplaced, Node.call.injEq, true_and] at hcalled
    obtain ⟨hcallee, hargs, hkwargs⟩ := hcalled
    simp only [Node.Alike, Node.unplaced, Node.unplacedAll, hcallee, hargs]
    rw [Node.unplacedKeywords_eq_map] at hkwargs ⊢
    rw [Node.unplacedKeywords_eq_map] at hkwargs ⊢
    simp [hkwargs, Node.unplaced, hparams', hnodes]
  | _ => simp [Node.Alike, Node.unplaced] at hcalled

theorem reads_filterBlock {pos' pos'' : Position} {name : String} (hargs : ∀ node ∈ args, node.IsTerm)
    (hkwargs : ∀ entry ∈ kwargs, entry.2.IsTerm) (hbody : ReadsBody env tagOf bodies body) :
    Reads (filterBlock bodies)
      (.symbol "filter" :: (dotted name ++ (Word.optionalArguments
        (Node.spellings tagOf args ++ Node.keywordSpellings tagOf kwargs) ++ tagEnd ::
          ((Node.spellings tagOf body).flatten ++ bareTag "endfilter"))))
      (fun _ => True)
      (Node.output pos [.filter pos' name (.capture pos'' body) args kwargs]).Alike := by
  refine reads_next.bind_cons fun token _ => (@reads_peek fun _ => True).bind_nil
    (fun _ _ => ?_) fun _ _ => trivial
  refine (Expression.reads_filterName name).bind (fun found hfound =>
    (@Expression.reads_optionalArguments tagOf Expression.nested (· = tagEnd) _ _ (areRead_nested hargs)
      (areRead_nested (List.forall_mem_map.mpr hkwargs)) (by rintro _ rfl; simp)).bind
      (fun arguments harguments => reads_closeTag.bind_cons fun _ _ =>
        hbody.bind (closes_of_mem env (by decide)) List.mem_cons_self fun nodes hnodes =>
          reads_closeTag_named.bind_last (fun _ _ => reads_pure ?_) fun _ hw => hw)
      fun _ _ => rfl) fun _ _ => ?_
  · subst hfound
    obtain ⟨hpositional, hkeyword⟩ := harguments.unplaced
    simp only [Node.Alike, Node.unplaced, Node.unplacedAll, hpositional, hkeyword, hnodes]
  · rw [Word.optionalArguments]
    split <;> simp

theorem reads_standardTag {e : Extension} {hasBody isAsync : Bool} {identity : Identity}
    {tag : String} {nested : List (List Node)}
    (hlength : nested.length = if hasBody then 1 else 0)
    (hcloses : hasBody = true → env.Closes ("end" ++ tag)) (hargs : ∀ node ∈ args, node.IsTerm)
    (hkwargs : ∀ entry ∈ kwargs, entry.2.IsTerm)
    (hbodies : ∀ body ∈ nested, ReadsBody env tagOf bodies body) :
    Reads (standardTag bodies e hasBody identity isAsync)
      (.symbol tag :: .leftParen ::
        (listed .rightParen (Node.spellings tagOf args ++ Node.keywordSpellings tagOf kwargs) ++
          tagEnd :: (Node.bodySpellings tagOf nested).flatMap fun body =>
            body ++ bareTag ("end" ++ tag)))
      (fun _ => True)
      (Node.extensionCall pos (ownSite e identity) "run" args kwargs nested isAsync).Alike := by
  refine reads_next.bind_cons fun token htoken => ?_
  have htag : token.value = tag := congrArg Prod.snd htoken
  have hsignature : Reads (signature true) (.leftParen ::
      listed .rightParen (Node.spellings tagOf args ++ Node.keywordSpellings tagOf kwargs))
      (fun _ => True) (Expression.Arguments.AreAlike (Expression.argumentsOf args kwargs)) := by
    refine Reads.peek_cons fun paren hparen => ?_
    rw [if_pos (show paren.kind = .leftParen from congrArg Prod.fst hparen)]
    exact Expression.reads_callArguments (areRead_nested hargs)
      (areRead_nested (List.forall_mem_map.mpr hkwargs))
  refine hsignature.bind (fun arguments harguments => reads_closeTag.bind_cons fun _ _ => ?_)
    fun _ _ => trivial
  obtain ⟨hpositional, hkeyword⟩ := harguments.unplaced
  rw [htag]
  cases hasBody with
  | false =>
    obtain rfl : nested = [] := List.length_eq_zero_iff.mp hlength
    refine reads_pure ?_
    simp only [Node.Alike, Node.unplaced, hpositional, hkeyword]
  | true =>
    obtain ⟨body, rfl⟩ := List.length_eq_one_iff.mp hlength
    have hstop : ∀ name ∈ ["end" ++ tag], env.Closes name := by
      simpa using hcloses rfl
    rw [Node.bodySpellings, Node.bodySpellings, List.flatMap_singleton]
    refine (hbodies body List.mem_cons_self).bind hstop List.mem_cons_self fun nodes hnodes =>
      reads_closeTag_named.bind_last (fun _ _ => reads_pure ?_) fun _ hw => hw
    simp only [Node.Alike, Node.unplaced, Node.unplacedBodies, hpositional, hkeyword, hnodes]

end Calls

section Inclusions

variable {template : Node}

theorem reads_parentTemplate (h : template.IsTerm) :
    Reads parentTemplate (.symbol "extends" :: (template.words tagOf ++ [tagEnd])) (fun _ => True)
      (Node.inclusion pos .parent template).Alike := by
  refine reads_next.bind_cons fun token _ => (reads_expression h).bind (fun found hfound =>
    reads_closeTag.bind_last (fun _ _ => reads_pure ?_) fun _ hw => hw) fun _ _ => endsAt_tagEnd
  simp only [Node.Alike, Node.unplaced, hfound.eq]

theorem reads_includedTemplate (h : template.IsTerm) (ignoreMissing : Bool) :
    Reads includedTemplate
      (.symbol "include" :: (template.words tagOf ++
        ((if ignoreMissing then [.symbol "ignore", .symbol "missing"] else []) ++ [tagEnd])))
      (fun _ => True) (Node.inclusion pos (.part ignoreMissing) template).Alike := by
  refine reads_next.bind_cons fun token _ => (reads_expression h).bind (fun found hfound => ?_)
    fun _ _ => ?_
  · cases ignoreMissing with
    | true =>
      refine reads_skipSymbol.bind_cons fun skipped hskipped => ?_
      subst hskipped
      refine reads_expectKeyword.bind_cons fun _ _ =>
        reads_closeTag.bind_last (fun _ _ => reads_pure ?_) fun _ hw => hw
      simp only [Node.Alike, Node.unplaced, hfound.eq]
    | false =>
      refine (@reads_skipSymbol_nil (· = tagEnd) _ (by rintro _ rfl; simp)).bind_nil
        (fun skipped hskipped => ?_) fun _ _ => rfl
      subst hskipped
      refine reads_closeTag.bind_last (fun _ _ => reads_pure ?_) fun _ hw => hw
      simp only [Node.Alike, Node.unplaced, hfound.eq]
  · cases ignoreMissing <;> exact endsAt_of_none rfl

theorem reads_importedTemplate (h : template.IsTerm) (target : String) (context : Bool) :
    Reads importedTemplate
      (.symbol "import" :: (template.words tagOf ++ .symbol "as" :: .symbol target ::
        ((if context then [.symbol "with", .symbol "context"] else []) ++ [tagEnd])))
      (fun _ => True) (Node.inclusion pos (.module target context) template).Alike := by
  have hcontext : Reads Statement.withContext
      (if context then [.symbol "with", .symbol "context"] else []) (· = tagEnd)
      (fun found => found.getD false = context) := by
    cases context with
    | true => exact reads_withContext.mono (fun _ hw => hw) (by rintro _ rfl; rfl)
    | false =>
      exact (reads_withContext_nil (by rintro _ rfl; simp)).mono (fun _ hw => hw) (by rintro _ rfl; rfl)
  refine reads_next.bind_cons fun token _ => (reads_expression h).bind (fun found hfound =>
    reads_expectKeyword.bind_cons fun _ _ => reads_expectSymbol.bind_cons fun name hname =>
      hcontext.bind (fun flag hflag => reads_closeTag.bind_last (fun _ _ => reads_pure ?_)
        fun _ hw => hw) fun _ _ => rfl) fun _ _ => endsAt_of_none rfl
  subst hname
  simp only [Node.Alike, Node.unplaced, hfound.eq, hflag]

/-- Reads one more imported name. -/
def importEntry (names : List (String × Option String)) :
    Parser (Step (List (String × Option String)) Inclusion) := do
  let name ← expectSymbol "import name"
  if ← skipSymbol "as" then
    return .more (names ++ [(name, some (← expectSymbol "import alias"))])
  else
    return .more (names ++ [(name, none)])

/-- Reads one more imported name, or the end of the list of names. -/
def importStep (names : List (String × Option String)) :
    Parser (Step (List (String × Option String)) Inclusion) := do
  if let some context ← Statement.withContext then
    return .done (.members names context)
  if (← peek).kind = .blockEnd then
    if names.isEmpty then fail .noImportName
    return .done (.members names false)
  unless names.isEmpty do
    let _ ← expect .comma "',' between import names"
  importEntry names

theorem importedNames_eq :
    importedNames = next >>= fun token => expression >>= fun template =>
      expectKeyword "import" >>= fun _ => iterate importStep [] >>= fun form =>
        closeTag "from" >>= fun _ => pure (.inclusion token.pos form template) := rfl

variable {names before : List (String × Option String)} {entry : String × Option String}
  {context : Bool}

theorem reads_importEntry :
    Reads (importEntry before) (Node.importWords entry) (· ≠ .symbol "as")
      (· = .more (before ++ [entry])) := by
  obtain ⟨name, renamed⟩ := entry
  cases renamed with
  | none =>
    refine reads_expectSymbol.bind_cons fun found hfound =>
      (reads_skipSymbol_nil fun _ hw => hw).bind_nil (fun skipped hskipped => ?_) fun _ hw => hw
    subst hfound hskipped
    exact reads_pure rfl
  | some renamed =>
    refine reads_expectSymbol.bind_cons fun found hfound => reads_skipSymbol.bind_cons
      fun skipped hskipped => ?_
    subst hfound hskipped
    exact Reads.map reads_expectSymbol fun found hfound => hfound ▸ rfl

/-- No `with` or `without` stands before what follows, which is no end of a tag. -/
theorem reads_importStep {words : List Word} {w : Word}
    (hcontext : w ≠ .symbol "with" ∧ w ≠ .symbol "without") (hkind : w.1 ≠ .blockEnd)
    (h : Reads (do
        unless before.isEmpty do
          let _ ← expect .comma "',' between import names"
        importEntry before) (w :: words) (· ≠ .symbol "as") (· = .more (before ++ [entry]))) :
    Reads (importStep before) (w :: words) (· ≠ .symbol "as") (· = .more (before ++ [entry])) := by
  refine (@reads_withContext_nil (· = w) (by rintro _ rfl; exact hcontext)).bind_nil
    (fun found hfound => ?_) fun _ _ => rfl
  subst hfound
  refine Reads.peek_cons fun token htoken => ?_
  rw [if_neg (show token.kind ≠ .blockEnd by rw [show token.kind = w.1 from congrArg Prod.fst htoken]; exact hkind)]
  exact h

/-- The words after the names of a list that is not empty. -/
theorem reads_importEnd (hbefore : before.isEmpty = false) :
    Reads (iterate importStep before) (Node.contextWords before context) (· = tagEnd)
      (· = .members before context) := by
  rw [Node.contextWords, hbefore]
  cases context with
  | true =>
    refine reads_iterate_done
      ((@reads_withContext (· = tagEnd)).bind_last (fun found hfound => ?_) fun _ hw => hw)
    subst hfound
    exact reads_pure ⟨_, rfl, rfl⟩
  | false =>
    change Reads _ [] _ _
    refine reads_iterate_done ((@reads_withContext_nil (· = tagEnd) (by rintro _ rfl; simp)).bind_nil
      (fun found hfound => ?_) fun _ hw => hw)
    subst hfound
    refine (@reads_peek (· = tagEnd)).bind_nil (fun token htoken => ?_) fun _ hw => hw
    rw [if_pos (show token.kind = .blockEnd from congrArg Prod.fst htoken), hbefore]
    exact reads_pure ⟨_, rfl, rfl⟩

theorem ne_as_of_importEnd (names : List (String × Option String)) (hbefore : before.isEmpty = false) :
    ((names.flatMap fun entry => comma :: Node.importWords entry) ++
      Node.contextWords before context).headD tagEnd ≠ .symbol "as" := by
  cases names with
  | cons entry names => simp
  | nil =>
    rw [Node.contextWords, hbefore]
    cases context <;> simp

/-- Further names, each after a comma. -/
theorem reads_furtherImports (hbefore : before.isEmpty = false) :
    Reads (iterate importStep before)
      ((names.flatMap fun entry => comma :: Node.importWords entry) ++
        Node.contextWords (before ++ names) context)
      (· = tagEnd) (· = .members (before ++ names) context) := by
  induction names generalizing before with
  | nil =>
    rw [List.append_nil]
    exact reads_importEnd hbefore
  | cons entry names ih =>
    rw [List.flatMap_cons, List.append_assoc, List.append_cons before]
    refine @reads_iterate_more _ _ _ _ _ _ (· ≠ .symbol "as") _ _ (· = before ++ [entry])
      (List.cons_ne_nil _ _) ?_ ?_ ?_
    · refine (@reads_importStep before entry _ _ (by simp) (by simp) ?_).mono (fun _ hw => hw)
        fun _ hmore => ⟨_, hmore, rfl⟩
      rw [hbefore]
      exact reads_expect.bind_cons fun _ _ => reads_importEntry
    · rintro _ rfl
      exact ih (by simp)
    · rintro _ rfl
      exact ne_as_of_importEnd names (by simp)

theorem reads_imports (hnames : ∀ entry ∈ names, entry.1 ∉ ["with", "without"]) :
    Reads (iterate importStep []) (Node.importedWords names ++ Node.contextWords names context)
      (· = tagEnd) (· = .members names context) := by
  cases names with
  | nil =>
    rw [Node.importedWords, Node.contextWords]
    cases context with
    | true =>
      refine reads_iterate_done
        ((@reads_withContext (· = tagEnd)).bind_last (fun found hfound => ?_) fun _ hw => hw)
      subst hfound
      exact reads_pure ⟨_, rfl, rfl⟩
    | false =>
      refine reads_iterate_done
        ((@reads_withoutContext (· = tagEnd)).bind_last (fun found hfound => ?_) fun _ hw => hw)
      subst hfound
      exact reads_pure ⟨_, rfl, rfl⟩
  | cons entry names =>
    have hentry : entry.1 ≠ "with" ∧ entry.1 ≠ "without" := by
      simpa using hnames entry List.mem_cons_self
    rw [Node.importedWords, List.append_assoc]
    refine @reads_iterate_more _ _ _ _ _ _ (· ≠ .symbol "as") _ _ (· = [entry]) ?_ ?_ ?_ ?_
    · obtain ⟨name, renamed⟩ := entry
      cases renamed <;> exact List.cons_ne_nil _ _
    · have hread := @reads_importEntry [] entry
      obtain ⟨rest, hrest⟩ : ∃ rest, Node.importWords entry = .symbol entry.1 :: rest := by
        obtain ⟨name, renamed⟩ := entry
        cases renamed <;> exact ⟨_, rfl⟩
      rw [hrest] at hread ⊢
      exact (@reads_importStep [] entry _ _ (by simpa using hentry) (by simp) hread).mono
        (fun _ hw => hw) fun _ hmore => ⟨_, hmore, rfl⟩
    · rintro _ rfl
      exact reads_furtherImports rfl
    · rintro _ rfl
      exact ne_as_of_importEnd names rfl

theorem reads_importedNames (h : template.IsTerm)
    (hnames : ∀ entry ∈ names, entry.1 ∉ ["with", "without"]) (context : Bool) :
    Reads importedNames
      (.symbol "from" :: (template.words tagOf ++ .symbol "import" ::
        (Node.importedWords names ++ (Node.contextWords names context ++ [tagEnd]))))
      (fun _ => True) (Node.inclusion pos (.members names context) template).Alike := by
  rw [importedNames_eq, ← List.append_assoc (Node.importedWords names)]
  refine reads_next.bind_cons fun token _ => (reads_expression h).bind (fun found hfound =>
    reads_expectKeyword.bind_cons fun _ _ => (reads_imports hnames).bind (fun form hform =>
      reads_closeTag.bind_last (fun _ _ => reads_pure ?_) fun _ hw => hw) fun _ _ => rfl)
    fun _ _ => endsAt_of_none rfl
  subst hform
  simp only [Node.Alike, Node.unplaced, hfound.eq]

end Inclusions

section Words

variable {pos' pos'' : Position} {name : String} {body otherwise args : List Node}
  {kwargs : List (String × Node)} {params : List (String × Option Node)}

theorem words_callBlock {callee : Node} (h : ∀ entry ∈ kwargs, entry.2.IsTerm) :
    Node.words tagOf (.output pos
        [.call pos' callee args (kwargs ++ [("caller", .callerBody pos'' params body)])]) =
      tagOpen :: .symbol "call" :: .leftParen ::
        (listed .rightParen (Node.paramSpellings tagOf params) ++
          (Node.words tagOf (.call pos' callee args kwargs) ++ tagEnd ::
            ((Node.spellings tagOf body).flatten ++ bareTag "endcall"))) := by
  obtain ⟨hspellings, hparams, hwords⟩ :=
    @keywordSpellings_append_caller tagOf pos'' body kwargs params h
  rw [Node.words, if_pos (by simp [Node.isCallerBody]), hspellings, hparams, hwords]
  simp [tagStart, Node.words]

theorem words_filterBlock :
    Node.words tagOf (.output pos [.filter pos' name (.capture pos'' body) args kwargs]) =
      tagOpen :: .symbol "filter" :: (dotted name ++ (Word.optionalArguments
        (Node.spellings tagOf args ++ Node.keywordSpellings tagOf kwargs) ++ tagEnd ::
          ((Node.spellings tagOf body).flatten ++ bareTag "endfilter"))) := by
  simp [Node.words, tagStart]

theorem words_ifElse {cond : Node} :
    Node.words tagOf (.ifElse pos cond body otherwise) =
      tagOpen :: .symbol "if" :: branchWords tagOf cond body otherwise := by
  simp [Node.words, tagStart, branchWords]

theorem words_forEach {targets : List String} {iterated : Node} :
    Node.words tagOf (.forEach pos targets iterated body otherwise) =
      tagOpen :: .symbol "for" :: (Word.names targets ++ .symbol "in" :: (iterated.words tagOf ++
        tagEnd :: ((Node.spellings tagOf body).flatten ++ loopEndWords tagOf otherwise))) := by
  simp [Node.words, tagStart, loopEndWords]

theorem words_captureBlock {targets : List String} :
    Node.words tagOf (.assign pos targets (.capture pos' body)) =
      tagOpen :: .symbol "set" :: (Word.names targets ++ tagEnd ::
        ((Node.spellings tagOf body).flatten ++ bareTag "endset")) := by
  simp [Node.words, tagStart]

theorem words_block :
    Node.words tagOf (.block pos name body) =
      tagOpen :: .symbol "block" :: .symbol name :: tagEnd ::
        ((Node.spellings tagOf body).flatten ++ bareTag "endblock") := by
  simp [Node.words, tagStart]

theorem words_macroDef :
    Node.words tagOf (.macroDef pos name params body) =
      tagOpen :: .symbol "macro" :: .symbol name :: .leftParen ::
        (listed .rightParen (Node.paramSpellings tagOf params) ++ tagEnd ::
          ((Node.spellings tagOf body).flatten ++ bareTag "endmacro")) := by
  simp [Node.words, tagStart]

theorem words_extensionCall {site : Site} {bodies : List (List Node)} {isAsync : Bool} {tag : String}
    (h : tagOf (.extensionCall pos site "run" args kwargs bodies isAsync) = tag) :
    Node.words tagOf (.extensionCall pos site "run" args kwargs bodies isAsync) =
      tagOpen :: .symbol tag :: .leftParen ::
        (listed .rightParen (Node.spellings tagOf args ++ Node.keywordSpellings tagOf kwargs) ++
          tagEnd :: (Node.bodySpellings tagOf bodies).flatMap fun body =>
            body ++ bareTag ("end" ++ tag)) := by
  simp [Node.words, tagStart, h]

variable (tagOf) in
theorem length_spellings_le_otherwiseWords (otherwise : List Node) :
    (Node.spellings tagOf otherwise).flatten.length ≤ (Node.otherwiseWords tagOf otherwise).length := by
  obtain rfl | ⟨pos, cond, body, rest, rfl⟩ | helse := otherwise_cases tagOf otherwise
  · exact Nat.zero_le _
  · simp [Node.spellings, Node.otherwiseWords, words_ifElse, branchWords, tagStart]
  · rw [helse, List.length_append, List.length_append]
    omega

variable (tagOf) in
theorem length_spellings_le_loopEndWords (otherwise : List Node) :
    (Node.spellings tagOf otherwise).flatten.length ≤ (loopEndWords tagOf otherwise).length := by
  cases otherwise with
  | nil => exact Nat.zero_le _
  | cons node otherwise =>
    rw [loopEndWords, if_neg (by simp), List.length_append, List.length_append]
    omega

variable (tagOf) in
theorem length_spellings_le_bodySpellings (tag : String) {nested : List (List Node)}
    (h : body ∈ nested) :
    (Node.spellings tagOf body).flatten.length ≤
      ((Node.bodySpellings tagOf nested).flatMap fun body => body ++ bareTag ("end" ++ tag)).length := by
  obtain ⟨first, later, rfl⟩ := List.append_of_mem h
  simp only [Node.bodySpellings_eq_map, List.map_append, List.map_cons, List.flatMap_append,
    List.flatMap_cons, List.length_append, ← Node.spellings_eq_map]
  omega

end Words

section Clauses

variable {stop : List String} {before : List Node} {name tag : String} {words : List Word}
  {node : Node} {body : List Node}

theorem not_closes_of_builtin (h : name ∈ builtinTags) : ¬ env.Closes name := by
  rintro (hclosing | ⟨tag, -, -, -, -, -, rfl⟩)
  · exact (show ∀ name ∈ builtinTags, name ∉ closingTags by decide) name h hclosing
  · have hend : ("end" ++ tag).toList.take 3 = "end".toList := by
      simp
    exact (show ∀ name ∈ builtinTags, name.toList.take 3 ≠ "end".toList by decide +kernel) _ h hend

theorem reads_builtin {parser : Parser Node} {P : Node → Prop}
    (hbuiltin : builtin? bodies name = some parser)
    (h : Reads parser (.symbol name :: words) ends P) :
    Reads (statementOver env bodies) (.symbol name :: words) ends P := by
  refine Reads.peek_cons fun token htoken => ?_
  have hkind : token.kind = .symbol := congrArg Prod.fst htoken
  have hvalue : token.value = name := congrArg Prod.snd htoken
  rw [hkind, hvalue, hbuiltin]
  exact h

theorem builtin?_eq_none (h : tag ∉ builtinTags) : builtin? bodies tag = none := by
  simp only [builtinTags, List.mem_cons, List.not_mem_nil, or_false, not_or] at h
  simp [builtin?, h]

theorem reads_custom {e : Extension} {P : Node → Prop} (htag : tag ∉ builtinTags)
    (howner : env.tagOwner? tag = some e)
    (h : Reads (customTag bodies e) (.symbol tag :: words) ends P) :
    Reads (statementOver env bodies) (.symbol tag :: words) ends P := by
  refine Reads.peek_cons fun token htoken => ?_
  have hkind : token.kind = .symbol := congrArg Prod.fst htoken
  have hvalue : token.value = tag := congrArg Prod.snd htoken
  rw [hkind, hvalue, builtin?_eq_none htag, howner]
  exact h

/-- A tag that does not close the body is a statement of it. -/
theorem reads_tag {P : Node → Prop} (hname : name ∉ stop)
    (h : Reads (statementOver env bodies) (.symbol name :: words) ends P) :
    Reads (nodeStep env bodies stop before) (tagOpen :: .symbol name :: words) ends
      fun result => ∃ node, P node ∧ result = .more (node :: before) := by
  refine Reads.peek_cons fun token htoken => ?_
  rw [show token.kind = .blockStart from congrArg Prod.fst htoken]
  refine reads_next.bind_cons fun _ _ => Reads.peek_cons fun second hsecond => ?_
  have hstop : stop.contains second.value = false := by
    rw [show second.value = name from congrArg Prod.snd hsecond]
    simpa using hname
  rw [hstop, Bool.and_false]
  exact Reads.map h fun node hnode => ⟨node, hnode, rfl⟩

/-- A tag that closes the body ends it. -/
theorem reads_closing :
    Reads (nodeStep env bodies stop before) [tagOpen] (fun w => w.1 = .symbol ∧ w.2 ∈ stop)
      (· = .done before.reverse) := by
  refine Reads.peek_cons fun token htoken => ?_
  rw [show token.kind = .blockStart from congrArg Prod.fst htoken]
  refine reads_next.bind_cons fun _ _ =>
    (@reads_peek fun w => w.1 = .symbol ∧ w.2 ∈ stop).bind_nil (fun second hsecond => ?_) fun _ hw => hw
  have hkind : second.kind = .symbol := hsecond.1
  have hmem : second.value ∈ stop := hsecond.2
  have hstop : stop.contains second.value = true := by
    simpa using hmem
  rw [hkind, hstop]
  exact reads_pure rfl

/-- A statement is read back onto those before it in a body, and as a branch if it is one. -/
structure ReadsClause (env : Environment) (tagOf : Node → String) (bodies : Bodies) (node : Node) :
    Prop where
  step : ∀ stop before, (∀ name ∈ stop, env.Closes name) →
    Reads (nodeStep env bodies stop before) (node.words tagOf) (fun _ => True)
      fun result => ∃ node', node.Alike node' ∧ result = .more (node' :: before)
  branch : ReadsBranch tagOf bodies node

theorem ReadsClause.of_builtin {parser : Parser Node} (hname : name ∈ builtinTags)
    (hbuiltin : builtin? bodies name = some parser)
    (hwords : node.words tagOf = tagOpen :: .symbol name :: words)
    (h : Reads parser (.symbol name :: words) (fun _ => True) node.Alike)
    (hbranch : ReadsBranch tagOf bodies node) : ReadsClause env tagOf bodies node := by
  refine ⟨fun stop before hstop => ?_, hbranch⟩
  rw [hwords]
  exact reads_tag (fun hmem => not_closes_of_builtin hname (hstop name hmem)) (reads_builtin hbuiltin h)

/-- The words of nodes, up to words that end them. -/
theorem reads_nodes {closing : List Word} (hstop : ∀ name ∈ stop, env.Closes name)
    (hbody : ∀ node ∈ body, node.words tagOf ≠ [] ∧ ReadsClause env tagOf bodies node)
    (hclosing : ∀ nodes, Reads (nodeStep env bodies stop nodes) closing ends (· = .done nodes.reverse)) :
    Reads (iterate (nodeStep env bodies stop) before)
      ((Node.spellings tagOf body).flatten ++ closing) ends
      fun nodes => Node.unplacedAll nodes = Node.unplacedAll (before.reverse ++ body) := by
  simp only [Node.unplacedAll_eq_map, Node.spellings_eq_map]
  induction body generalizing before with
  | nil => exact reads_iterate_done ((hclosing before).mono (fun _ hw => hw)
      fun _ hdone => ⟨_, hdone, by rw [List.append_nil]⟩)
  | cons node body ih =>
    rw [List.forall_mem_cons] at hbody
    obtain ⟨⟨hne, hread⟩, hbody⟩ := hbody
    rw [List.map_cons, List.flatten_cons, List.append_assoc]
    refine @reads_iterate_more _ _ _ _ _ _ (fun _ => True) _ _
      (fun state => ∃ node', node.Alike node' ∧ state = node' :: before) hne
      ((hread.step stop before hstop).mono (fun _ hw => hw) ?_) ?_ fun _ _ => trivial
    · rintro _ ⟨node', hnode', rfl⟩
      exact ⟨_, rfl, node', hnode', rfl⟩
    · rintro _ ⟨node', hnode', rfl⟩
      refine (ih hbody).mono (fun _ hw => hw) fun nodes hnodes => ?_
      rw [hnodes]
      simp [hnode'.eq]

theorem words_output {value : Node} (h : value.IsTerm) :
    Node.words tagOf (.output pos [value]) =
      (.variableStart, "\x7b\x7b") :: (value.words tagOf ++ [(.variableEnd, "\x7d\x7d")]) := by
  cases h with
  | @call place callee args kwargs hcallee hlevel hargs hkwargs =>
    rw [Node.words, if_neg]
    · rfl
    · simpa using fun name value hvalue => (hkwargs (name, value) hvalue).isCallerBody
  | @filter place name target args kwargs htarget hlevel hargs hkwargs =>
    cases htarget <;> simp [Node.words, Node.spellings]
  | _ => simp [Node.words, Node.spellings]

theorem words_assign {targets : List String} {value : Node} (h : value.IsTerm) :
    Node.words tagOf (.assign pos targets value) =
      tagOpen :: .symbol "set" ::
        (Word.names targets ++ .assigns :: (value.words tagOf ++ [tagEnd])) := by
  cases h <;> simp [Node.words, tagStart]

theorem reads_output {value : Node} (h : value.IsTerm) :
    Reads (nodeStep env bodies stop before) (Node.words tagOf (.output pos [value])) (fun _ => True)
      fun result => ∃ node', (Node.output pos [value]).Alike node' ∧ result = .more (node' :: before) := by
  rw [words_output h]
  refine Reads.peek_cons fun token htoken => ?_
  rw [show token.kind = .variableStart from congrArg Prod.fst htoken]
  refine reads_next.bind_cons fun _ _ => ?_
  obtain ⟨first, rest, hwords, hfirst, -⟩ := Node.opens_words tagOf h
  have hread : Reads (do
        let found ← expression
        let _ ← expect .variableEnd "end of variable tag"
        return (Step.more (.output token.pos [found] :: before) : Step (List Node) (List Node)))
      (value.words tagOf ++ [(.variableEnd, "\x7d\x7d")]) (fun _ => True)
      fun result => ∃ node', (Node.output pos [value]).Alike node' ∧ result = .more (node' :: before) := by
    refine (reads_expression h).bind (fun found hfound => reads_expect.bind_last
      (fun _ _ => reads_pure ⟨_, ?_, rfl⟩) fun _ hw => hw) fun _ _ => endsAt_of_none rfl
    simp only [Node.Alike, Node.unplaced, Node.unplacedAll, hfound.eq]
  rw [hwords] at hread ⊢
  refine Reads.peek_cons fun second hsecond => ?_
  have hkind : second.kind ≠ .variableEnd := by
    intro heq
    have hmem := hfirst.kind_mem
    rw [← hsecond, show second.word.1 = .variableEnd from heq] at hmem
    simp at hmem
  rw [if_neg hkind]
  exact hread

theorem reads_data {text : String} :
    Reads (nodeStep env bodies stop before) (Node.words tagOf (.data pos text)) (fun _ => True)
      fun result => ∃ node', (Node.data pos text).Alike node' ∧ result = .more (node' :: before) := by
  rw [Node.words]
  refine Reads.peek_cons fun token htoken => ?_
  rw [show token.kind = .data from congrArg Prod.fst htoken]
  refine reads_next.bind_last (fun _ _ => reads_pure ⟨_, ?_, rfl⟩) fun _ hw => hw
  rw [show token.value = text from congrArg Prod.snd htoken]
  rfl

theorem words_ne_nil_of_isClause (h : node.IsClause env tagOf) : node.words tagOf ≠ [] := by
  cases h with
  | output h => simp [words_output h]
  | assign htargets hvalue => simp [words_assign hvalue]
  | @callBlock pos pos' pos'' callee args kwargs params body hcall hparams hbody =>
    rw [Node.words, if_pos (by simp [Node.isCallerBody])]
    simp [tagStart]
  | @inclusion pos form template htemplate hnames =>
    rw [Node.words]
    cases form <;> simp [Node.inclusionWords, tagStart]
  | _ => simp [Node.words, tagStart]

theorem readsClause_inclusion {form : Inclusion} {template : Node} (h : template.IsTerm)
    (hnames : ∀ names context, form = .members names context →
      ∀ entry ∈ names, entry.1 ∉ ["with", "without"]) :
    ReadsClause env tagOf bodies (.inclusion pos form template) := by
  have hbranch : ReadsBranch tagOf bodies (.inclusion pos form template) := by
    rintro _ _ _ _ ⟨⟩
  cases form with
  | parent =>
    have hread := @reads_parentTemplate tagOf pos template h
    refine .of_builtin (show "extends" ∈ builtinTags by decide) rfl ?_ hread hbranch
    simp [Node.words, Node.inclusionWords, tagStart]
  | part ignoreMissing =>
    have hread := @reads_includedTemplate tagOf pos template h ignoreMissing
    refine .of_builtin (show "include" ∈ builtinTags by decide) rfl ?_ hread hbranch
    simp [Node.words, Node.inclusionWords, tagStart]
  | module target context =>
    have hread := @reads_importedTemplate tagOf pos template h target context
    refine .of_builtin (show "import" ∈ builtinTags by decide) rfl ?_ hread hbranch
    simp [Node.words, Node.inclusionWords, tagStart]
  | members names context =>
    have hread := @reads_importedNames tagOf pos template names h (hnames names context rfl) context
    refine .of_builtin (show "from" ∈ builtinTags by decide) rfl ?_ hread hbranch
    simp [Node.words, Node.inclusionWords, tagStart]

variable (tagOf) in
theorem length_words_le_spellings (h : node ∈ body) :
    (node.words tagOf).length ≤ (Node.spellings tagOf body).flatten.length := by
  obtain ⟨first, later, rfl⟩ := List.append_of_mem h
  simp only [Node.spellings_eq_map, List.map_append, List.map_cons, List.flatten_append,
    List.flatten_cons, List.length_append]
  omega

/-- The parsers of bodies nested no less deep than the statement is long read it back. -/
def ReadsClauseDeep (env : Environment) (tagOf : Node → String) (node : Node) : Prop :=
  ∀ depth, (node.words tagOf).length ≤ depth → ReadsClause env tagOf (bodiesTo env depth) node

theorem readsBody_of_deep {depth : Nat} (hclauses : ∀ node ∈ body, node.IsClause env tagOf)
    (h : ∀ node ∈ body, ReadsClauseDeep env tagOf node)
    (hlt : (Node.spellings tagOf body).flatten.length < depth) :
    ReadsBody env tagOf (bodiesTo env depth) body := by
  obtain ⟨outer, rfl⟩ := Nat.exists_eq_add_one_of_ne_zero (Nat.ne_zero_of_lt hlt)
  intro stop hstop
  refine reads_nodes hstop (fun node hnode =>
    ⟨words_ne_nil_of_isClause (hclauses node hnode), h node hnode outer ?_⟩) fun nodes => reads_closing
  exact Nat.le_of_lt_succ (Nat.lt_of_le_of_lt (length_words_le_spellings tagOf hnode) hlt)

/-- The call of an extension is read back by the parser of its tag, with the bodies that the tag has. -/
theorem readsClauseDeep_extensionCall {site : Site} {args : List Node}
    {kwargs : List (String × Node)} {nested : List (List Node)} {isAsync : Bool}
    (htag : env.Calls (tagOf (.extensionCall pos site "run" args kwargs nested isAsync)) site nested
      isAsync)
    (hargs : ∀ node ∈ args, node.IsTerm) (hkwargs : ∀ entry ∈ kwargs, entry.2.IsTerm)
    (hnested : ∀ body ∈ nested, ∀ node ∈ body, node.IsClause env tagOf)
    (ih : ∀ body ∈ nested, ∀ node ∈ body, ReadsClauseDeep env tagOf node) :
    ReadsClauseDeep env tagOf (.extensionCall pos site "run" args kwargs nested isAsync) := by
  intro depth hdepth
  obtain ⟨⟨e, hasBody, identity, howner, hform, rfl, hlength⟩, hbuiltin, hcloses⟩ := htag
  generalize htag : tagOf (.extensionCall pos (ownSite e identity) "run" args kwargs nested isAsync) =
    tag at howner hbuiltin hcloses
  rw [words_extensionCall htag] at hdepth
  simp only [List.length_cons, List.length_append] at hdepth
  have hbodies : ∀ body ∈ nested, ReadsBody env tagOf (bodiesTo env depth) body := by
    intro body hbody
    have hlength := length_spellings_le_bodySpellings tagOf tag hbody
    exact readsBody_of_deep (hnested body hbody) (ih body hbody) (by omega)
  refine ⟨fun stop before hstop => ?_, by rintro _ _ _ _ ⟨⟩⟩
  rw [words_extensionCall htag]
  refine reads_tag (fun hmem => hcloses (hstop tag hmem)) (reads_custom hbuiltin howner ?_)
  rw [customTag, hform]
  refine reads_standardTag hlength (fun hasBodyTrue => ?_) hargs hkwargs hbodies
  subst hasBodyTrue
  exact .inr ⟨tag, e, identity, isAsync, howner, hform, rfl⟩

/-- Every statement is read back by the parsers of bodies nested no less deep than it is long. -/
theorem readsClauseDeep_of_isClause (h : node.IsClause env tagOf) : ReadsClauseDeep env tagOf node := by
  induction h with
  | data =>
    exact fun depth _ => ⟨fun stop before _ => reads_data, by rintro _ _ _ _ ⟨⟩⟩
  | output h =>
    exact fun depth _ => ⟨fun stop before _ => reads_output h, by rintro _ _ _ _ ⟨⟩⟩
  | @callBlock pos pos' pos'' callee args kwargs params body hcall hparams hbody ih =>
    intro depth hdepth
    have hkwargs : ∀ entry ∈ kwargs, entry.2.IsTerm := by
      cases hcall with
      | call hcallee hlevel hargs hkwargs => exact hkwargs
    have hwords := @words_callBlock tagOf pos pos' pos'' body args kwargs params callee hkwargs
    rw [hwords] at hdepth
    simp only [List.length_cons, List.length_append] at hdepth
    exact .of_builtin (by decide) rfl hwords
      (reads_callBlock hcall hparams (readsBody_of_deep hbody ih (by omega))) (by rintro _ _ _ _ ⟨⟩)
  | filterBlock hargs hkwargs hbody ih =>
    intro depth hdepth
    rw [words_filterBlock] at hdepth
    simp only [List.length_cons, List.length_append] at hdepth
    exact .of_builtin (by decide) rfl words_filterBlock
      (reads_filterBlock hargs hkwargs (readsBody_of_deep hbody ih (by omega))) (by rintro _ _ _ _ ⟨⟩)
  | @ifElse pos cond body otherwise hcond hbody hotherwise ihbody ihotherwise =>
    intro depth hdepth
    have hlater := length_spellings_le_otherwiseWords tagOf otherwise
    rw [words_ifElse, branchWords] at hdepth
    simp only [List.length_cons, List.length_append] at hdepth
    have hreadBody : ReadsBody env tagOf (bodiesTo env depth) body :=
      readsBody_of_deep hbody ihbody (by omega)
    have hreadOtherwise : ReadsBody env tagOf (bodiesTo env depth) otherwise :=
      readsBody_of_deep hotherwise ihotherwise (by omega)
    have hbranches : ∀ node ∈ otherwise, ReadsBranch tagOf (bodiesTo env depth) node := by
      intro node hnode
      refine (ihotherwise node hnode depth ?_).branch
      have hlength := length_words_le_spellings tagOf hnode
      omega
    exact .of_builtin (by decide) rfl words_ifElse
      (reads_conditional hcond hreadBody hreadOtherwise hbranches)
      (reads_branch hcond hreadBody hreadOtherwise hbranches)
  | @forEach pos targets iterated body otherwise htargets hiterated hbody hotherwise ihbody ihotherwise =>
    intro depth hdepth
    have hlater := length_spellings_le_loopEndWords tagOf otherwise
    rw [words_forEach] at hdepth
    simp only [List.length_cons, List.length_append] at hdepth
    exact .of_builtin (by decide) rfl words_forEach (reads_loop htargets hiterated
      (readsBody_of_deep hbody ihbody (by omega))
      (readsBody_of_deep hotherwise ihotherwise (by omega))) (by rintro _ _ _ _ ⟨⟩)
  | assign htargets hvalue =>
    exact fun depth _ => .of_builtin (by decide) rfl (words_assign hvalue)
      (reads_assignment htargets hvalue) (by rintro _ _ _ _ ⟨⟩)
  | captureBlock htargets hbody ih =>
    intro depth hdepth
    rw [words_captureBlock] at hdepth
    simp only [List.length_cons, List.length_append] at hdepth
    exact .of_builtin (by decide) rfl words_captureBlock
      (reads_captureBlock htargets (readsBody_of_deep hbody ih (by omega))) (by rintro _ _ _ _ ⟨⟩)
  | block hbody ih =>
    intro depth hdepth
    rw [words_block] at hdepth
    simp only [List.length_cons, List.length_append] at hdepth
    exact .of_builtin (by decide) rfl words_block
      (reads_block (readsBody_of_deep hbody ih (by omega))) (by rintro _ _ _ _ ⟨⟩)
  | macroDef hparams hbody ih =>
    intro depth hdepth
    rw [words_macroDef] at hdepth
    simp only [List.length_cons, List.length_append] at hdepth
    exact .of_builtin (by decide) rfl words_macroDef
      (reads_macroDefinition hparams (readsBody_of_deep hbody ih (by omega))) (by rintro _ _ _ _ ⟨⟩)
  | inclusion htemplate hnames =>
    exact fun depth _ => readsClause_inclusion htemplate hnames
  | extensionCall htag hargs hkwargs hbodies ih =>
    exact readsClauseDeep_extensionCall htag hargs hkwargs hbodies ih

end Clauses

end TemplateManifest
