import TemplateManifest.Proofs.Compile.Holding

/-!
What a part of code generation does with the texts of nodes: the code that it gives is clean, and the
texts stand in it in quotes.
-/

namespace TemplateManifest

open Script Vocabulary

/-- The texts that the code of an inclusion has in quotes. -/
def Inclusion.quoted : Inclusion → List String
  | .parent | .part _ => []
  | .module target _ => [target]
  | .members names _ => names.flatMap fun entry =>
    [entry.1, "cannot import '" ++ entry.1 ++ "'", entry.2.getD entry.1]

namespace Node

/-- The texts of a node, those of its children apart, that its code has in quotes. -/
def quoted (env : Environment) : Node → List String
  | data _ text => if text.isEmpty then [] else [text]
  | literal _ (.str text) => [text]
  | forEach _ targets _ _ _ | assign _ targets _ => targets
  | block _ name _ | test _ _ name _ _ => [name]
  | macroDef _ name params _ => name :: params.map (·.1)
  | callerBody _ params _ => params.map (·.1)
  | inclusion _ form _ => form.quoted
  | extensionCall _ site method _ kwargs _ _ =>
    ((env.extension? site).map (·.name)).toList ++ method :: kwargs.map (·.1)
  | call _ callee _ kwargs => callee.calleeText :: kwargs.map (·.1)
  | filter _ name _ _ kwargs => name :: kwargs.map (·.1)
  | _ => []

/-- The texts of a node that its code may have in quotes. The name of a symbol is quoted where no
    variable holds the symbol. -/
def quotable (env : Environment) : Node → List String
  | symbol _ name => [name]
  | node => node.quoted env

theorem mem_quotable {env : Environment} {node : Node} {text : String} (h : text ∈ node.quoted env) :
    text ∈ node.quotable env := by
  cases node <;> first | exact h | cases h

/-- All of the nodes are among some trees. -/
def AllAmong (nodes root : List Node) : Prop :=
  ∀ node ∈ nodes, node.Among root

theorem Among.children {node : Node} {root : List Node} (h : node.Among root) :
    AllAmong node.children root := by
  obtain ⟨top, htop, hwithin⟩ := h
  exact fun child hchild => ⟨top, htop, Within.trans (.child hchild .self) hwithin⟩

end Node

namespace CodeContext

/-- The words that emitted code has in quotes whatever the template is. -/
def quotedWords : List String :=
  "" :: "caller" :: loopWords

/-- A string of emitted code is a word, the name of the template or a text of a node. The code of a node
    is what code generation gives for it in some state. -/
def Allows (cx : CodeContext) (root : List Node) : Expr → Prop
  | .string text => text ∈ quotedWords ∨ text = cx.template ∨
    ∃ node : Node, node.Among root ∧ text ∈ node.quotable cx.env
  | .ofNode node code => node.Among root ∧
    ∃ s t, s.IsScoped ∧ cx.expression node s = .ok (.ofNode node code) t
  | _ => True

/-- The texts of the node stand among some parts in quotes, and its code does if it is a sum; or the
    node stands in a block that is still to be written. -/
def HasQuoted (cx : CodeContext) (node : Node) (parts : List Expr) (pending : List PendingBlock) :
    Prop :=
  ((∀ text ∈ node.quoted cx.env, .string text ∈ parts) ∧
    (node.category = .add → ∃ code, .ofNode node code ∈ parts)) ∨
    ∃ b ∈ pending, node.Among b.body

/-- Code generation for some nodes among `root` goes from one state to another one: it gives clean
    code in which the texts of the nodes stand. -/
structure Quotes (cx : CodeContext) (root nodes : List Node) (s : CodeState) (clean : Prop)
    (parts : List Expr) (t : CodeState) : Prop where
  clean : clean
  stands : t.Stands root
  grows : s.pending ⊆ t.pending
  covers : ∀ node : Node, node.Among nodes → cx.HasQuoted node parts t.pending

theorem HasQuoted.mono {cx : CodeContext} {node : Node} {parts parts' : List Expr}
    {pending pending' : List PendingBlock} (h : cx.HasQuoted node parts pending)
    (hparts : parts ⊆ parts') (hpending : pending ⊆ pending') :
    cx.HasQuoted node parts' pending' := by
  rcases h with ⟨htexts, hsum⟩ | ⟨b, hb, hnode⟩
  · exact .inl ⟨fun text htext => hparts (htexts text htext), fun hadd =>
      (hsum hadd).imp fun code hcode => hparts hcode⟩
  · exact .inr ⟨b, hpending hb, hnode⟩

/-- The blocks that are still to be written may have been written later. -/
theorem HasQuoted.later {cx : CodeContext} {node : Node} {parts parts' : List Expr}
    {pending pending' : List PendingBlock} (h : cx.HasQuoted node parts pending)
    (hlater : (∃ b ∈ pending, node.Among b.body) → cx.HasQuoted node parts' pending') :
    cx.HasQuoted node (parts ++ parts') pending' := by
  rcases h with h | h
  · exact HasQuoted.mono (.inl h) (List.subset_append_left _ _) (List.Subset.refl _)
  · exact (hlater h).mono (List.subset_append_right _ _) (List.Subset.refl _)

section

variable {cx : CodeContext} {root nodes nodes' : List Node} {node : Node} {s t u : CodeState}
  {clean clean' : Prop} {parts parts' : List Expr}

theorem allows_of_quotable {text : String} (hnode : node.Among root)
    (htext : text ∈ node.quotable cx.env) : cx.Allows root (.string text) :=
  .inr (.inr ⟨node, hnode, htext⟩)

theorem allows_of_quoted {text : String} (hnode : node.Among root)
    (htext : text ∈ node.quoted cx.env) : cx.Allows root (.string text) :=
  allows_of_quotable hnode (Node.mem_quotable htext)

theorem allows_of_word {word : String} (h : word ∈ quotedWords) : cx.Allows root (.string word) :=
  .inl h

namespace Quotes

theorem nil (hclean : clean) (hstands : t.Stands root) (hgrows : s.pending ⊆ t.pending) :
    cx.Quotes root [] s clean parts t :=
  ⟨hclean, hstands, hgrows, fun _ hnode => absurd hnode Node.not_among_nil⟩

theorem append (h : cx.Quotes root nodes s clean parts u)
    (h' : cx.Quotes root nodes' u clean' parts' t) :
    cx.Quotes root (nodes ++ nodes') s (clean ∧ clean') (parts ++ parts') t := by
  refine ⟨⟨h.clean, h'.clean⟩, h'.stands, List.Subset.trans h.grows h'.grows, fun node hnode => ?_⟩
  rcases Node.among_append.mp hnode with hnode | hnode
  · exact (h.covers node hnode).mono (List.subset_append_left _ _) h'.grows
  · exact (h'.covers node hnode).mono (List.subset_append_right _ _) (List.Subset.refl _)

theorem mono (h : cx.Quotes root nodes s clean parts t) (hclean : clean → clean')
    (hparts : parts ⊆ parts') : cx.Quotes root nodes s clean' parts' t :=
  ⟨hclean h.clean, h.stands, h.grows, fun node hnode =>
    (h.covers node hnode).mono hparts (List.Subset.refl _)⟩

/-- A further step that keeps the pending blocks. -/
theorem before (h : cx.Quotes root nodes s clean parts u) (hstands : t.Stands root)
    (hgrows : u.pending ⊆ t.pending) : cx.Quotes root nodes s clean parts t :=
  ⟨h.clean, hstands, List.Subset.trans h.grows hgrows, fun node hnode =>
    (h.covers node hnode).mono (List.Subset.refl _) hgrows⟩

/-- An earlier step that keeps the pending blocks. -/
theorem after (h : cx.Quotes root nodes u clean parts t) (hgrows : s.pending ⊆ u.pending) :
    cx.Quotes root nodes s clean parts t :=
  ⟨h.clean, h.stands, List.Subset.trans hgrows h.grows, h.covers⟩

/-- A node with the texts of its own. -/
theorem of_children (h : cx.Quotes root node.children s clean parts t) (hclean : clean → clean')
    (hparts : parts ⊆ parts') (htexts : ∀ text ∈ node.quoted cx.env, .string text ∈ parts')
    (hsum : node.category = .add → ∃ code, .ofNode node code ∈ parts') :
    cx.Quotes root [node] s clean' parts' t := by
  refine ⟨hclean h.clean, h.stands, h.grows, fun inner hinner => ?_⟩
  rcases Node.among_singleton.mp hinner with rfl | hinner
  · exact .inl ⟨htexts, hsum⟩
  · exact (h.covers inner hinner).mono hparts (List.Subset.refl _)

/-- A node without texts of its own. -/
theorem plain (h : cx.Quotes root node.children s clean parts t) (hclean : clean → clean')
    (hparts : parts ⊆ parts') (hquoted : node.quoted cx.env = []) (hadd : node.category ≠ .add) :
    cx.Quotes root [node] s clean' parts' t :=
  h.of_children hclean hparts (by simp [hquoted]) fun heq => absurd heq hadd

/-- A node without children. -/
theorem leaf (hs : s.Stands root) (hclean : clean) (hchildren : node.children = [])
    (htexts : ∀ text ∈ node.quoted cx.env, .string text ∈ parts) (hadd : node.category ≠ .add) :
    cx.Quotes root [node] s clean parts s := by
  have hnil : cx.Quotes root node.children s clean parts s :=
    hchildren ▸ .nil hclean hs (List.Subset.refl _)
  exact hnil.of_children id (List.Subset.refl _) htexts fun heq => absurd heq hadd

/-- A step in a scope of its own. -/
theorem inScope {α : Type} {step : Coder α} {a : α} (clean : α → Prop) (parts : α → List Expr)
    (hs : s.Stands root) (h : Coder.inScope step s = .ok a t)
    (hstep : ∀ {u v : CodeState}, u.Stands root → step u = .ok a v →
      cx.Quotes root nodes u (clean a) (parts a) v) :
    cx.Quotes root nodes s (clean a) (parts a) t := by
  obtain ⟨u, hu, rfl⟩ := Coder.inScope_eq_ok_iff.mp h
  have hquotes := hstep ⟨hs.scopes.opened, hs.pending⟩ hu
  exact ⟨hquotes.clean, ⟨hquotes.stands.scopes.tail, hquotes.stands.pending⟩, hquotes.grows,
    hquotes.covers⟩

end Quotes

end

section Strings

variable {cx : CodeContext}

theorem string_mem_publish (symbol : String) (v : Variable) :
    .string symbol ∈ Stmt.partsAll (publish symbol v) := by
  simp [publish, Stmt.partsAll, Stmt.parts, method, Expr.parts, Expr.partsAll]

theorem string_mem_setFrame (symbol : String) (value : Expr) :
    .string symbol ∈ (setFrame symbol value).parts := by
  simp [setFrame, Stmt.parts, method, Expr.parts, Expr.partsAll]

theorem mem_partsAll_of_mem {e : Expr} {s : Stmt} {body : List Stmt} (hs : s ∈ body)
    (he : e ∈ s.parts) : e ∈ Stmt.partsAll body := by
  rw [Stmt.partsAll_eq_flatMap]
  exact List.mem_flatMap.mpr ⟨s, hs, he⟩

theorem string_mem_publishAll {symbol : String} {v : Variable} {entries : List (String × Variable)}
    (h : (symbol, v) ∈ entries) : .string symbol ∈
      Stmt.partsAll (entries.flatMap fun (target, v) => publish target v) := by
  have hpublish := string_mem_publish symbol v
  rw [Stmt.partsAll_eq_flatMap] at hpublish
  obtain ⟨stmt, hstmt, hparts⟩ := List.mem_flatMap.mp hpublish
  exact mem_partsAll_of_mem (List.mem_flatMap.mpr ⟨_, h, hstmt⟩) hparts

theorem string_mem_memberCode (module : Variable) (exported : String) (v : Variable) :
    ∀ text ∈ [exported, "cannot import '" ++ exported ++ "'"],
      .string text ∈ Stmt.partsAll (memberCode module exported v) := by
  simp [memberCode, Stmt.partsAll, Stmt.parts, Expr.parts, Expr.partsAll]

theorem string_mem_loopCode (arr len i : Variable) (iterated : Expr)
    {targets : List (String × Variable)} (body : List Stmt) (otherwise : Option (List Stmt)) :
    ∀ target ∈ targets, .string target.1 ∈
      Stmt.partsAll (loopCode arr len i iterated targets body otherwise) := by
  intro target htarget
  obtain ⟨n, hn, rfl⟩ := List.getElem_of_mem htarget
  have hzip : (targets[n], n) ∈ targets.zipIdx := List.mk_mem_zipIdx_iff_getElem?.mpr (by simp [hn])
  have hbinding : .string targets[n].1 ∈ Stmt.partsAll (targets.zipIdx.flatMap fun entry =>
      [.declare entry.1.2 (some (if 1 < targets.length then
        Expr.index (.index (.variable arr) (.variable i)) (number entry.2)
        else Expr.index (.variable arr) (.variable i))),
       setFrame entry.1.1 (.variable entry.1.2)]) :=
    mem_partsAll_of_mem (List.mem_flatMap.mpr
      ⟨_, hzip, List.mem_cons_of_mem _ List.mem_cons_self⟩) (string_mem_setFrame _ _)
  simp only [loopCode, Stmt.partsAll, Stmt.partsAll_append, Stmt.parts, List.mem_append]
  grind

theorem string_mem_makeMacro (isCaller : Bool) {positional : List String}
    {defaults : List (String × Expr)} (body : List Stmt) :
    ∀ name ∈ positional ++ defaults.map (·.1),
      .string name ∈ (cx.makeMacro isCaller positional defaults body).parts := by
  intro name hname
  have hquoted {names : List String} (h : name ∈ names) :
      Expr.string name ∈ Expr.partsAll (names.map Expr.string) := by
    induction names with
    | nil => cases h
    | cons first names ih =>
      rcases List.mem_cons.mp h with rfl | h
      · exact List.mem_append_left _ (Expr.mem_parts_self _)
      · exact List.mem_append_right _ (ih h)
  refine partsAll_subset_runtime _ _ ?_
  simp only [Expr.partsAll, Expr.parts, List.mem_append, List.mem_cons]
  rcases List.mem_append.mp hname with hname | hname
  · exact .inl (.inr (hquoted hname))
  · exact .inr (.inl (.inr (hquoted hname)))

end Strings

section Steps

open Coder

variable {cx : CodeContext} {root : List Node} {s t : CodeState}

/-- The words that do not depend on the template. -/
theorem allows_words : cx.Allows root (.string "") ∧ cx.Allows root (.string "caller") ∧
    ∀ word ∈ loopWords, cx.Allows root (.string word) :=
  ⟨allows_of_word (by decide), allows_of_word (by decide), fun _ hword =>
    allows_of_word (List.mem_cons_of_mem _ (List.mem_cons_of_mem _ hword))⟩

theorem quotes_membersCode {module : Variable} {names : List (String × Option String)}
    {code : List Stmt} (hmodule : module.IsClean)
    (hnames : ∀ text ∈ (Inclusion.members names false).quoted, cx.Allows root (.string text))
    (hs : s.Stands root) (h : membersCode module names s = .ok code t) :
    cx.Quotes root [] s (Stmt.AreClean (cx.Allows root) code ∧
      ∀ text ∈ (Inclusion.members names false).quoted, .string text ∈ Stmt.partsAll code)
      (Stmt.partsAll code) t := by
  induction names generalizing s code with
  | nil =>
    obtain ⟨rfl, rfl⟩ := pure_eq_ok_iff.mp h
    exact .nil ⟨trivial, List.forall_mem_nil _⟩ hs (List.Subset.refl _)
  | cons entry names ih =>
    obtain ⟨exported, renamed⟩ := entry
    simp only [Inclusion.quoted, List.flatMap_cons, List.forall_mem_append] at hnames ih ⊢
    obtain ⟨hentry, hnames⟩ := hnames
    obtain ⟨u', rest, hbind, hrest, rfl⟩ := membersCode_cons_eq_ok_iff.mp h
    have hpending := (bind_keeps hbind).2.1
    have hfresh : CodeState.IsScoped { s with temps := s.temps + 1 } := hs.scopes
    have hu' : u'.Stands root :=
      ⟨isScoped_bind (v := .temp _) trivial hfresh hbind, by rw [hpending]; exact hs.pending⟩
    have hquotes := ih hnames hu' hrest
    have hmember := string_mem_memberCode module exported (.temp (s.temps + 1))
    simp only [List.forall_mem_cons, List.not_mem_nil, false_implies, implies_true] at hentry hmember
    refine .nil ⟨?_, ?_, ?_⟩ hquotes.stands (hpending ▸ hquotes.grows)
    · simp [hmodule, hentry, hquotes.clean.1]
    · simp only [List.forall_mem_cons, Stmt.partsAll_append, List.mem_append]
      exact ⟨.inl (.inl hmember.1), .inl (.inl hmember.2.1),
        .inl (.inr (string_mem_publish _ _)), List.forall_mem_nil _⟩
    · intro text htext
      rw [Stmt.partsAll_append]
      exact List.mem_append_right _ (hquotes.clean.2 text htext)

theorem isClean_importArgs (withContext : Bool) :
    Expr.AreClean (cx.Allows root) (if withContext then
      [method (name "context") "getVariables" [], name "frame"] else []) := by
  cases withContext <;> simp (disch := decide)

theorem quotes_importCode {target : Expr} {withContext : Bool} {result : Variable × List Stmt}
    (htarget : target.IsClean (cx.Allows root)) (hs : s.Stands root)
    (h : cx.importCode target withContext s = .ok result t) :
    (∃ index, result.1 = .temp index) ∧ t.Stands root ∧ t.pending = s.pending ∧
      Stmt.AreClean (cx.Allows root) result.2 := by
  obtain ⟨v, u, hfresh, h⟩ := bind_eq_ok_iff.mp h
  obtain ⟨rfl, rfl⟩ := pure_eq_ok_iff.mp h
  obtain ⟨rfl, rfl⟩ := fresh_eq_ok hfresh
  refine ⟨⟨_, rfl⟩, ⟨hs.scopes, hs.pending⟩, rfl, ?_⟩
  have htemplate : cx.Allows root (.string cx.template) := .inr (.inl rfl)
  simp (disch := decide) [htarget, htemplate, isClean_importArgs]

theorem quotes_inclusionCode {target : Expr} {form : Inclusion} {code : List Stmt}
    (htarget : target.IsClean (cx.Allows root))
    (hnames : ∀ text ∈ form.quoted, cx.Allows root (.string text)) (hs : s.Stands root)
    (h : cx.inclusionCode target form s = .ok code t) :
    cx.Quotes root [] s (Stmt.AreClean (cx.Allows root) code ∧
      ∀ text ∈ form.quoted, .string text ∈ Stmt.partsAll code) (Stmt.partsAll code) t := by
  have htemplate : cx.Allows root (.string cx.template) := .inr (.inl rfl)
  cases form with
  | parent | part =>
    obtain ⟨v, u, hfresh, h⟩ := bind_eq_ok_iff.mp h
    obtain ⟨rfl, rfl⟩ := pure_eq_ok_iff.mp h
    obtain ⟨rfl, rfl⟩ := fresh_eq_ok hfresh
    refine .nil ⟨?_, List.forall_mem_nil _⟩ ⟨hs.scopes, hs.pending⟩ (List.Subset.refl _)
    simp (disch := decide) [htarget, htemplate]
  | module exportsName withContext =>
    obtain ⟨⟨v, importing⟩, u, himport, hbind, rfl⟩ := inclusionCode_module_eq_ok_iff.mp h
    obtain ⟨⟨index, rfl⟩, hu, hpending, hclean⟩ := quotes_importCode htarget hs himport
    have hpending' := (bind_keeps hbind).2.1.trans hpending
    have hname : cx.Allows root (.string exportsName) := hnames _ (List.mem_singleton_self _)
    refine .nil ⟨by simp [hclean, hname], List.forall_mem_singleton.mpr ?_⟩
      ⟨isScoped_bind (v := .temp _) trivial hu.scopes hbind, by rw [hpending']; exact hs.pending⟩
      (hpending' ▸ List.Subset.refl _)
    rw [Stmt.partsAll_append]
    exact List.mem_append_right _ (string_mem_publish _ _)
  | members names withContext =>
    obtain ⟨⟨v, importing⟩, u, members, himport, hmembers, rfl⟩ :=
      inclusionCode_members_eq_ok_iff.mp h
    obtain ⟨⟨index, rfl⟩, hu, hpending, hclean⟩ := quotes_importCode htarget hs himport
    have hquotes := quotes_membersCode (isClean_temp index) hnames hu hmembers
    refine .nil ⟨by simp [hclean, hquotes.clean.1], fun text htext => ?_⟩ hquotes.stands
      (hpending ▸ hquotes.grows)
    rw [Stmt.partsAll_append]
    exact List.mem_append_right _ (hquotes.clean.2 text htext)

/-- The names of parameters are quoted, and they are the names of variables. -/
def AreParams (cx : CodeContext) (root : List Node) (params : List (String × Option Node)) : Prop :=
  ∀ param ∈ params, cx.Allows root (.string param.1) ∧ IsNameText param.1

theorem quotes_macroCode {isCaller : Bool} {params : List (String × Option Node)}
    {nodes : List Node} {defaults : Coder (List (String × Expr))} {body : Coder (List Stmt)}
    {code : Expr} (hparams : cx.AreParams root params)
    (hdefaults : ∀ {s t : CodeState} {code : List (String × Expr)}, s.Stands root →
      defaults s = .ok code t → cx.Quotes root (params.filterMap (·.2)) s
        ((∀ entry ∈ code, entry.2.IsClean (cx.Allows root)) ∧
          code.map (·.1) = (params.filter fun p => p.2.isSome).map (·.1))
        (code.flatMap (·.2.parts)) t)
    (hbody : ∀ {s t : CodeState} {code : List Stmt}, s.Stands root → body s = .ok code t →
      cx.Quotes root nodes s (Stmt.AreClean (cx.Allows root) code) (Stmt.partsAll code) t)
    (hs : s.Stands root) (h : cx.macroCode isCaller params defaults body s = .ok code t) :
    cx.Quotes root (params.filterMap (·.2) ++ nodes) s (code.IsClean (cx.Allows root) ∧
      ∀ param ∈ params, .string param.1 ∈ code.parts) code.parts t := by
  refine Quotes.inScope (fun code => code.IsClean (cx.Allows root) ∧
    ∀ param ∈ params, .string param.1 ∈ code.parts) Expr.parts hs h fun {u v} hu h => ?_
  have hpositional : ∀ p ∈ (params.filter fun p => p.2.isNone).map (·.1),
      cx.Allows root (.string p) ∧ IsNameText p :=
    List.forall_mem_map.mpr fun param hparam => hparams param (List.mem_of_mem_filter hparam)
  obtain ⟨_, u', hbind, h⟩ := bind_eq_ok_iff.mp h
  obtain ⟨ds, w, hds, h⟩ := bind_eq_ok_iff.mp h
  obtain ⟨b, w', hb, h⟩ := bind_eq_ok_iff.mp h
  obtain ⟨rfl, rfl⟩ := pure_eq_ok_iff.mp h
  have hpending := (bindAll_keeps hbind).2.1
  have hu' : u'.Stands root := by
    refine ⟨isScoped_bindAll (List.forall_mem_map.mpr fun p hp => ?_) hu.scopes hbind, by
      rw [hpending]; exact hu.pending⟩
    exact ⟨rfl, (hpositional p hp).2⟩
  have hdefaults := hdefaults hu' hds
  have hall := hdefaults.append (hbody hdefaults.stands hb)
  refine (hall.after (hpending ▸ List.Subset.refl _)).mono ?_ (parts_subset_makeMacro isCaller _ ds b)
  rintro ⟨⟨hclean, hnames⟩, hbody⟩
  constructor
  · refine isClean_makeMacro ⟨allows_words.1, allows_words.2.1⟩
      (fun p hp => ⟨(hpositional p hp).1,
        isClean_param (unmarked_of_isNameText (hpositional p hp).2)⟩)
      (fun entry hentry => ⟨?_, hclean entry hentry⟩) hbody
    have hname : entry.1 ∈ (params.filter fun p => p.2.isSome).map (·.1) :=
      hnames ▸ List.mem_map_of_mem hentry
    obtain ⟨param, hparam, heq⟩ := List.mem_map.mp hname
    exact heq ▸ (hparams param (List.mem_of_mem_filter hparam)).1
  · intro param hparam
    refine string_mem_makeMacro isCaller b _ ?_
    rw [hnames, ← List.map_append]
    refine List.mem_map_of_mem ?_
    cases hdefault : param.2 with
    | none => exact List.mem_append_left _ (List.mem_filter.mpr ⟨hparam, by simp [hdefault]⟩)
    | some node => exact List.mem_append_right _ (List.mem_filter.mpr ⟨hparam, by simp [hdefault]⟩)

end Steps

end CodeContext

end TemplateManifest
