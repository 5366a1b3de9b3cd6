import TemplateManifest.Proofs.Template.ClauseReading

/-!
Parsing undoes printing: the parser of a template gives the nodes back, but for their places, from
the tokens that spell them.
-/

namespace TemplateManifest

open Parser Word

/-- None of the words is the end of the source. -/
def Unended (words : List Word) : Prop :=
  ∀ w ∈ words, w.1 ≠ .eof

namespace Unended

variable {words words' : List Word} {w : Word} {items : List (List Word)}

@[simp]
theorem nil : Unended [] := by
  simp [Unended]

@[simp]
theorem cons_iff : Unended (w :: words) ↔ w.1 ≠ .eof ∧ Unended words :=
  List.forall_mem_cons

@[simp]
theorem append_iff : Unended (words ++ words') ↔ Unended words ∧ Unended words' :=
  List.forall_mem_append

theorem flatten (h : ∀ item ∈ items, Unended item) : Unended items.flatten := by
  intro w hw
  obtain ⟨item, hitem, hw⟩ := List.mem_flatten.mp hw
  exact h item hitem w hw

theorem flatMap {α : Type} {xs : List α} {f : α → List Word} (h : ∀ x ∈ xs, Unended (f x)) :
    Unended (xs.flatMap f) := by
  intro w hw
  obtain ⟨x, hx, hw⟩ := List.mem_flatMap.mp hw
  exact h x hx w hw

theorem listed (hw : w.1 ≠ .eof) (h : ∀ item ∈ items, Unended item) : Unended (listed w items) := by
  cases items with
  | nil => simpa [Parser.listed] using hw
  | cons item items =>
    rw [List.forall_mem_cons] at h
    have hitems : Unended (items.flatMap (comma :: ·)) := .flatMap (by simpa using h.2)
    simpa [Parser.listed] using ⟨h.1, hitems, hw⟩

theorem optionalArguments (h : ∀ item ∈ items, Unended item) :
    Unended (Word.optionalArguments items) := by
  rw [Word.optionalArguments]
  split
  · exact nil
  · simpa using Unended.listed (by simp) h

theorem names (targets : List String) : Unended (Word.names targets) := by
  cases targets with
  | nil => exact nil
  | cons target targets => simpa [Word.names] using Unended.flatMap (by simp)

theorem dotted (name : String) : Unended (Word.dotted name) := by
  rw [Word.dotted]
  split
  · exact nil
  · simpa using Unended.flatMap (by simp)

end Unended

namespace Node

variable {env : Environment} {tagOf : Node → String} {node : Node} {nodes args : List Node}
  {kwargs : List (String × Node)}

theorem unended_arguments (hargs : ∀ node ∈ args, Unended (words tagOf node))
    (hterms : ∀ entry ∈ kwargs, entry.2.IsTerm)
    (hkwargs : ∀ entry ∈ kwargs, Unended (words tagOf entry.2)) :
    ∀ item ∈ spellings tagOf args ++ keywordSpellings tagOf kwargs, Unended item := by
  rw [spellings_eq_map, keywordSpellings_eq_map fun entry hentry => (hterms entry hentry).isCallerBody,
    List.forall_mem_append, List.forall_mem_map, List.forall_mem_map]
  exact ⟨hargs, fun entry hentry => by simpa using hkwargs entry hentry⟩

variable (tagOf) in
theorem unended_of_isTerm (h : node.IsTerm) : Unended (words tagOf node) := by
  induction h with
  | @literal pos value h => cases value <;> simp [words, Literal.word]
  | symbol => simp [words]
  | group h ih => simpa [words] using ih
  | array h ih =>
    rw [words, spellings_eq_map]
    simpa using Unended.listed (by simp) (List.forall_mem_map.mpr ih)
  | dict hkeys hprimary hvalues ihkeys ihvalues =>
    rw [words, entrySpellings_eq_map]
    refine Unended.cons_iff.mpr ⟨by simp, .listed (by simp) (List.forall_mem_map.mpr ?_)⟩
    exact fun entry hentry => by simpa using ⟨ihkeys entry hentry, ihvalues entry hentry⟩
  | lookup htarget hlevel hkey ihtarget ihkey => simpa [words] using ⟨ihtarget, ihkey⟩
  | call hcallee hlevel hargs hkwargs ihcallee ihargs ihkwargs =>
    simpa [words] using ⟨ihcallee, .listed (by simp) (unended_arguments ihargs hkwargs ihkwargs)⟩
  | filter htarget hlevel hargs hkwargs ihtarget ihargs ihkwargs =>
    simpa [words] using ⟨ihtarget, .dotted _, .optionalArguments (unended_arguments ihargs hkwargs ihkwargs)⟩
  | @test pos target name args negated htarget hlevel hname hargs ihtarget ihargs =>
    have hspellings : ∀ item ∈ spellings tagOf args, Unended item := by
      rw [spellings_eq_map, List.forall_mem_map]
      exact ihargs
    cases negated <;> simpa [words] using ⟨ihtarget, .optionalArguments hspellings⟩
  | @unary pos op operand h hlevel ih => cases op <;> simpa [words, UnaryOp.word] using ih
  | @binary pos op left right hleft hleftLevel hright hrightLevel ihleft ihright =>
    cases op <;> simpa [words, BinaryOp.words] using ⟨ihleft, ihright⟩
  | compare hfirst hlevel hne hrest hlevels ihfirst ihrest =>
    rw [words, comparedSpellings_eq_map]
    refine Unended.append_iff.mpr ⟨ihfirst, .flatten (List.forall_mem_map.mpr fun entry hentry => ?_)⟩
    obtain ⟨op, operand⟩ := entry
    cases op <;> simpa [CompareOp.word] using ihrest _ hentry
  | @inlineIf pos cond body otherwise hcond hcondLevel hbody hbodyLevel hotherwise hlevel ihcond ihbody
      ihotherwise =>
    cases otherwise with
    | none => simpa [words, alternativeWords] using ⟨ihbody, ihcond⟩
    | some node => simpa [words, alternativeWords] using ⟨ihbody, ihcond, ihotherwise node rfl⟩

theorem unended_params {params : List (String × Option Node)}
    (h : ∀ param ∈ params, ∀ node ∈ param.2, node.IsTerm) :
    ∀ item ∈ paramSpellings tagOf params, Unended item := by
  rw [paramSpellings_eq_map, List.forall_mem_map]
  rintro ⟨name, default⟩ hparam
  cases default with
  | none => simp
  | some node => simpa using unended_of_isTerm tagOf (h _ hparam node rfl)

theorem unended_spellings (h : ∀ node ∈ nodes, Unended (words tagOf node)) :
    Unended (spellings tagOf nodes).flatten := by
  rw [spellings_eq_map]
  exact .flatten (List.forall_mem_map.mpr h)

theorem unended_otherwiseWords (h : ∀ node ∈ nodes, Unended (words tagOf node)) :
    Unended (otherwiseWords tagOf nodes) := by
  obtain rfl | ⟨pos, cond, body, rest, rfl⟩ | helse := otherwise_cases tagOf nodes
  · simp [otherwiseWords, bareTag, tagStart]
  · have hbranch := h _ List.mem_cons_self
    rw [words_ifElse, branchWords] at hbranch
    simpa [otherwiseWords, tagStart] using hbranch
  · rw [helse]
    simpa [bareTag, tagStart] using unended_spellings h

theorem unended_loopEndWords (h : ∀ node ∈ nodes, Unended (words tagOf node)) :
    Unended (loopEndWords tagOf nodes) := by
  rw [loopEndWords]
  split
  · simp [bareTag, tagStart]
  · simpa [bareTag, tagStart] using unended_spellings h

theorem unended_inclusion {pos : Position} {form : Inclusion} {template : Node} (h : template.IsTerm) :
    Unended (words tagOf (.inclusion pos form template)) := by
  have htemplate := unended_of_isTerm tagOf h
  rw [words]
  cases form with
  | parent => simpa [inclusionWords, tagStart] using htemplate
  | part ignoreMissing => cases ignoreMissing <;> simpa [inclusionWords, tagStart] using htemplate
  | module target context => cases context <;> simpa [inclusionWords, tagStart] using htemplate
  | members names context =>
    have hentry (entry : String × Option String) : Unended (importWords entry) := by
      obtain ⟨name, renamed⟩ := entry
      cases renamed <;> simp [importWords]
    have hnames : Unended (importedWords names) := by
      cases names with
      | nil => exact .nil
      | cons entry names =>
        simpa [importedWords] using ⟨hentry entry, Unended.flatMap (by simpa using fun entry _ => hentry entry)⟩
    have hcontext : Unended (contextWords names context) := by
      rw [contextWords]
      split
      · simp
      · split <;> simp
    simpa [inclusionWords, tagStart] using ⟨htemplate, hnames, hcontext⟩

theorem unended_of_isClause (h : node.IsClause env tagOf) : Unended (words tagOf node) := by
  induction h with
  | data => simp [words]
  | output h => simpa [words_output h] using unended_of_isTerm tagOf h
  | callBlock hcall hparams hbody ih =>
    have hwords := unended_of_isTerm tagOf hcall
    cases hcall with
    | call hcallee hlevel hargs hkwargs =>
      rw [words_callBlock hkwargs]
      simpa [bareTag, tagStart] using
        ⟨.listed (by simp) (unended_params hparams), hwords, unended_spellings ih⟩
  | filterBlock hargs hkwargs hbody ih =>
    rw [words_filterBlock]
    have harguments := unended_arguments (fun node hnode => unended_of_isTerm tagOf (hargs node hnode))
      hkwargs fun entry hentry => unended_of_isTerm tagOf (hkwargs entry hentry)
    simpa [bareTag, tagStart] using ⟨.dotted _, .optionalArguments harguments, unended_spellings ih⟩
  | ifElse hcond hbody hotherwise ihbody ihotherwise =>
    rw [words_ifElse, branchWords]
    simpa using ⟨unended_of_isTerm tagOf hcond, unended_spellings ihbody, unended_otherwiseWords ihotherwise⟩
  | forEach htargets hiterated hbody hotherwise ihbody ihotherwise =>
    rw [words_forEach]
    simpa using ⟨.names _, unended_of_isTerm tagOf hiterated, unended_spellings ihbody,
      unended_loopEndWords ihotherwise⟩
  | assign htargets hvalue =>
    rw [words_assign hvalue]
    simpa using ⟨.names _, unended_of_isTerm tagOf hvalue⟩
  | captureBlock htargets hbody ih =>
    rw [words_captureBlock]
    simpa [bareTag, tagStart] using ⟨.names _, unended_spellings ih⟩
  | block hbody ih =>
    rw [words_block]
    simpa [bareTag, tagStart] using unended_spellings ih
  | macroDef hparams hbody ih =>
    rw [words_macroDef]
    simpa [bareTag, tagStart] using ⟨.listed (by simp) (unended_params hparams), unended_spellings ih⟩
  | inclusion htemplate hnames => exact unended_inclusion htemplate
  | extensionCall htag hargs hkwargs hbodies ih =>
    have harguments := unended_arguments (fun node hnode => unended_of_isTerm tagOf (hargs node hnode))
      hkwargs fun entry hentry => unended_of_isTerm tagOf (hkwargs entry hentry)
    rw [words_extensionCall rfl, bodySpellings_eq_map, List.flatMap_map]
    simpa using ⟨.listed (by simp) harguments, .flatMap fun body hbody => by
      simpa [bareTag, tagStart, spellings_eq_map] using unended_spellings (ih body hbody)⟩

end Node

variable {env : Environment} {tagOf : Node → String} {body : List Node} {tokens : List Token}

/-- The stream of tokens that spell no end of the source, and one that does. -/
theorem TokenStream.ofTokens_append {last : Token} (htokens : Unended (tokens.map Token.word))
    (hlast : last.kind = .eof) : ofTokens (tokens ++ [last]) = ⟨tokens, last⟩ := by
  have hkind (token : Token) (htoken : token ∈ tokens) : token.kind ≠ .eof :=
    htokens token.word (List.mem_map_of_mem htoken)
  have hfind : tokens.find? (fun token => decide (token.kind = .eof)) = none :=
    List.find?_eq_none.mpr fun token htoken => by simpa using hkind token htoken
  rw [ofTokens, List.find?_append, hfind,
    List.takeWhile_append_of_pos fun token htoken => decide_eq_true (hkind token htoken)]
  simp [hlast]

/-- Parsing undoes printing: the parser of a template reads the words of its nodes up to the end of
    the source, and gives the nodes back, but for their places. -/
theorem Parser.root_words (hbody : ∀ node ∈ body, node.IsClause env tagOf)
    (htokens : tokens.map Token.word = body.flatMap (Node.words tagOf) ++ [(.eof, "")]) :
    ∃ nodes last, Parser.root env (TokenStream.ofTokens tokens) = .ok nodes ⟨[], last⟩ ∧
      tokens.getLast? = some last ∧ last.kind = .eof ∧
      nodes.map Node.unplaced = body.map Node.unplaced := by
  obtain ⟨spelled, ending, rfl, hspelled, hending⟩ := List.map_eq_append_iff.mp htokens
  obtain ⟨last, rfl, hlast⟩ := List.map_eq_singleton_iff.mp hending
  have hkind : last.kind = .eof := congrArg Prod.fst hlast
  have hunended : Unended (spelled.map Token.word) := by
    rw [hspelled]
    exact .flatMap fun node hnode => Node.unended_of_isClause (hbody node hnode)
  have hend (nodes : List Node) : Reads
      (Statement.nodeStep env (Statement.bodiesTo env spelled.length) [] nodes) []
      (·.1 = .eof) (· = .done nodes.reverse) := by
    refine (@reads_peek (·.1 = .eof)).bind_nil (fun token htoken => ?_) fun _ hw => hw
    rw [show token.kind = .eof from htoken]
    exact reads_pure rfl
  have hread := @reads_nodes env tagOf (Statement.bodiesTo env spelled.length) (·.1 = .eof) [] [] body []
    (by simp) (fun node hnode => ⟨words_ne_nil_of_isClause (hbody node hnode),
      readsClauseDeep_of_isClause (hbody node hnode) _ ?_⟩) hend
  · rw [List.append_nil, Node.spellings_eq_map, ← List.flatMap_def] at hread
    obtain ⟨nodes, hnodes, halike⟩ := hread ⟨[], last⟩ spelled hspelled hkind
    rw [TokenStream.ofTokens_append hunended hkind]
    refine ⟨nodes, last, ?_, by simp, hkind, ?_⟩
    · rw [TokenStream.after, List.append_nil] at hnodes
      exact hnodes
    · simpa [Node.unplacedAll_eq_map] using halike
  · have hlength := length_words_le_spellings tagOf hnode
    rwa [Node.spellings_eq_map, ← List.flatMap_def, ← hspelled, List.length_map] at hlength

/-- An environment with one tag, `wrap`, which has a body. -/
def wrapping : Environment where
  extensions :=
    [{ name := "wrapper", modulePath := ⟨"wrapper"⟩, handle := ⟨"wrapper"⟩, tags := ["wrap"],
       form := .standard true .name false }]

/-- A condition with the tag of the extension in its first branch, and a filtered value in its second
    one. -/
def wrapped : List Node :=
  [.ifElse .first
    (.binary .first .and (.symbol .first "a")
      (.compare .first (.symbol .first "b") [(.lt, .literal .first (.int 3))]))
    [.extensionCall .first (.byName "wrapper") "run" [.literal .first (.str "x.css")]
      [("inline", .literal .first (.bool true))] [[.data .first "text"]] false]
    [.ifElse .first (.unary .first .not (.symbol .first "c"))
      [.output .first [.filter .first "text.upper"
        (.lookup .first (.symbol .first "d") (.literal .first (.str "e"))) [] []]] []]]

/-- The tokens that spell the template. -/
def wrappedTokens : List Token :=
  (wrapped.flatMap (Node.words fun _ => "wrap") ++ [(TokenKind.eof, "")]).map fun w : Word =>
    ⟨w.1, w.2, .first⟩

theorem root_words_wrapped :
    (∀ node ∈ wrapped, node.IsClause wrapping fun _ => "wrap") ∧
      ∃ nodes last, Parser.root wrapping (TokenStream.ofTokens wrappedTokens) = .ok nodes ⟨[], last⟩ ∧
        wrappedTokens.getLast? = some last ∧ last.kind = .eof ∧
        nodes.map Node.unplaced = wrapped.map Node.unplaced := by
  have hnamed (name : String) (h : name ∉ keywords) : (Node.symbol .first name).IsTerm := .symbol h
  have hcalls : wrapping.Calls "wrap" (.byName "wrapper") [[.data .first "text"]] false := by
    refine ⟨⟨_, true, .name, rfl, rfl, rfl, rfl⟩, by decide, ?_⟩
    rintro (hclosing | ⟨tag, e, identity, isAsync, -, -, htag⟩)
    · exact absurd hclosing (by decide)
    · have hfirst := congrArg (·.toList.head?) htag
      simp at hfirst
  have hclauses : ∀ node ∈ wrapped, node.IsClause wrapping fun _ => "wrap" := by
    refine List.forall_mem_singleton.mpr (.ifElse ?_ (List.forall_mem_singleton.mpr ?_)
      (List.forall_mem_singleton.mpr (.ifElse ?_ (List.forall_mem_singleton.mpr (.output ?_)) (by simp))))
    · exact .binary (hnamed "a" (by decide)) (by decide)
        (.compare (hnamed "b" (by decide)) (by decide) (by simp)
          (List.forall_mem_singleton.mpr (.literal (.int (by decide) (by decide))))
          (List.forall_mem_singleton.mpr (by decide))) (by decide)
    · exact .extensionCall hcalls (List.forall_mem_singleton.mpr (.literal (.str _)))
        (List.forall_mem_singleton.mpr (.literal (.bool _)))
        (List.forall_mem_singleton.mpr (List.forall_mem_singleton.mpr .data))
    · exact .unary (hnamed "c" (by decide)) (by decide)
    · exact .filter (.lookup (hnamed "d" (by decide)) (by decide) (.literal (.str _))) (by decide)
        (by simp) (by simp)
  exact ⟨hclauses, Parser.root_words hclauses (by simp [wrappedTokens, Token.word, Function.comp_def])⟩

end TemplateManifest
