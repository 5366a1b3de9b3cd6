import TemplateManifest.Proofs.Template.IndexExpression

/-!
The parser of statements over an index follows the one over a stream, and with it the parser of whole
templates: over any tokens it ends with nodes or with an error of the tokens, and the index is in the list.
-/

namespace TemplateManifest

namespace IndexParser

open TemplateManifest.Parser (Step)

section Tracks

variable {α β σ : Type} {s t : State} {p : Reader α} {q : Parser α} {f : α → Reader β} {g : α → Parser β}
  {Q : State → α → State → Prop}

/-- From the state on, the parser over an index follows the parser over a stream wherever it begins. -/
def Tracks (s : State) (p : Reader α) (q : Parser α) : Prop :=
  ∀ t, s.Leads t → Follows t p q Anywhere

theorem Tracks.of_follows (h : ∀ t, Follows t p q (Q t)) : Tracks s p q :=
  fun t _ => (h t).anywhere

theorem Tracks.bind (h : Tracks s p q) (hnext : ∀ a, Tracks s (f a) (g a)) :
    Tracks s (p >>= f) (q >>= g) :=
  fun t hleads => (h t hleads).bind fun a u hu _ => hnext a u (hleads.trans hu)

theorem tracks_bind (h : ∀ t, Follows t p q (Q t)) (hnext : ∀ a, Tracks s (f a) (g a)) :
    Tracks s (p >>= f) (q >>= g) :=
  (Tracks.of_follows h).bind hnext

theorem Tracks.peek_bind {f : Token → Reader β} {g : Token → Parser β}
    (h : ∀ token, Tracks s (f token) (g token)) : Tracks s (peek >>= f) (Parser.peek >>= g) :=
  fun t hleads => .peek_bind (h _ t hleads)

theorem tracks_pure {a : α} : Tracks s (pure a) (pure a) :=
  fun _ _ => follows_pure trivial

theorem tracks_ite {c : Prop} [Decidable c] {p' : Reader α} {q' : Parser α} (hpos : Tracks s p q)
    (hneg : Tracks s p' q') : Tracks s (if c then p else p') (if c then q else q') :=
  fun t hleads => follows_ite (fun _ => hpos t hleads) fun _ => hneg t hleads

theorem tracks_ite_bind {c : Prop} [Decidable c] {p' : Reader α} {q' : Parser α} (hpos : Tracks s p q)
    (hneg : Tracks s p' q') (hnext : ∀ a, Tracks s (f a) (g a)) :
    Tracks s (if c then p >>= f else p' >>= f) (if c then q >>= g else q' >>= g) :=
  tracks_ite (hpos.bind hnext) (hneg.bind hnext)

theorem Tracks.bind_of_fails {fault : SyntaxFault} (hfault : fault ≠ .tooDeep) :
    Tracks s (fail fault >>= f) (Parser.fail fault >>= g) :=
  fun _ _ => (follows_fail hfault).bind_of_fails

theorem tracks_loop {step : σ → Reader (Step σ α)} {step' : σ → Parser (Step σ α)}
    (hstep : ∀ a t, s.Leads t → Follows t (step a) (step' a) (Advances t)) (a : σ) :
    Tracks s (loop step a) (Parser.iterate step' a) :=
  fun _ hleads => follows_loop (fun a u hu => hstep a u (hleads.trans hu)) a

/-- A step of a loop that takes a token first goes on only after it. -/
theorem Follows.bind_advances {f : α → Reader (Step σ β)} {g : α → Parser (Step σ β)}
    (h : Follows t p q (Past t)) (hleads : s.Leads t) (hnext : ∀ a, Tracks t (f a) (g a)) :
    Follows t (p >>= f) (q >>= g) (Advances s) := by
  refine (h.bind_past fun a u hu _ => hnext a u hu).mono fun next u _ hlt => ?_
  cases next with
  | more a => exact Nat.lt_of_le_of_lt hleads.le hlt
  | done b => trivial

/-- A reading that is left out if a condition holds, and what comes after it in both cases. -/
theorem follows_unless {c : Prop} [Decidable c] {r : Reader β} {r' : Parser β} {R : β → State → Prop}
    (h : Tracks t p q) (hnext : ∀ u, t.Leads u → Follows u r r' R) :
    Follows t (if c then r else p >>= fun _ => r) (if c then r' else q >>= fun _ => r') R :=
  follows_ite (fun _ => hnext t .refl) fun _ => (h t .refl).bind fun _ u hu _ => hnext u hu

end Tracks

section Bodies

open Statement (Branch)

variable {s : State} {nodes : Reader (List Node)} {bodies : Statement.Bodies}

/-- From the state on, bodies are read alike. -/
def BodiesFrom (nodes : Reader (List Node)) (bodies : Statement.Bodies) (s : State) : Prop :=
  ∀ stop, Tracks s (untilBlocks nodes stop) (bodies stop)

theorem BodiesFrom.leads {t : State} (h : BodiesFrom nodes bodies s) (hleads : s.Leads t) :
    BodiesFrom nodes bodies t :=
  fun stop u hu => h stop u (hleads.trans hu)

/-- The end of a tag, after which nothing more is read. -/
theorem tracks_closed {α : Type} {name : String} {a : α} :
    Tracks s (do closeTag name; return a) (do Parser.closeTag name; return a) :=
  tracks_bind (fun _ => follows_closeTag) fun _ => tracks_pure

theorem follows_conditional (h : BodiesFrom nodes bodies s) (hhead : s.stream.head.kind ≠ .eof) :
    Follows s (conditional nodes) (Statement.conditional bodies) Anywhere := by
  refine (follows_take_past hhead).bind fun first t ht _ => ?_
  refine tracks_loop (fun state u hu => ?_) (([] : List Branch), first) t ht
  obtain ⟨branches, keyword⟩ := state
  have h := h.leads hu
  -- Each branch has a condition, which takes a token.
  refine follows_expression.bind_advances .refl fun cond => ?_
  refine tracks_bind (fun _ => follows_closeTag) fun _ => ?_
  refine (h _).bind fun body => ?_
  refine tracks_bind (fun _ => follows_next) fun closing => ?_
  refine tracks_ite tracks_pure (tracks_ite ?_ tracks_closed)
  refine tracks_bind (fun _ => follows_closeTag) fun _ => ?_
  exact (h _).bind fun otherwise => tracks_closed

theorem tracks_forEach (h : BodiesFrom nodes bodies s) :
    Tracks s (forEach nodes) (Statement.loop bodies) := by
  refine tracks_bind (fun _ => follows_next) fun token => ?_
  refine tracks_bind (fun _ => follows_names) fun targets => ?_
  refine tracks_bind (fun _ => follows_expectKeyword) fun _ => ?_
  refine tracks_bind (fun _ => follows_expression) fun iterated => ?_
  refine tracks_bind (fun _ => follows_closeTag) fun _ => ?_
  refine (h _).bind fun body => ?_
  refine tracks_bind (fun _ => follows_skipSymbol) fun _ => ?_
  refine tracks_ite ?_ tracks_closed
  refine tracks_bind (fun _ => follows_closeTag) fun _ => ?_
  exact (h _).bind fun otherwise => tracks_closed

theorem tracks_assignment (h : BodiesFrom nodes bodies s) :
    Tracks s (assignment nodes) (Statement.assignment bodies) := by
  refine tracks_bind (fun _ => follows_next) fun token => ?_
  refine tracks_bind (fun _ => follows_names) fun targets => ?_
  refine tracks_bind (fun _ => follows_skipOperator) fun _ => ?_
  refine tracks_ite ?_ ?_
  · exact tracks_bind (fun _ => follows_expression) fun value => tracks_closed
  · refine tracks_bind (fun _ => follows_closeTag) fun _ => ?_
    exact (h _).bind fun body => tracks_closed

theorem tracks_block (h : BodiesFrom nodes bodies s) :
    Tracks s (block nodes) (Statement.block bodies) := by
  refine tracks_bind (fun _ => follows_next) fun token => ?_
  refine tracks_bind (fun _ => follows_expectSymbol) fun name => ?_
  refine tracks_bind (fun _ => follows_closeTag) fun _ => ?_
  refine (h _).bind fun body => ?_
  refine tracks_bind (fun _ => follows_expectKeyword) fun _ => ?_
  refine tracks_bind (fun _ => follows_skipSymbol) fun _ => ?_
  exact tracks_bind (fun _ => follows_expect (by decide)) fun _ => tracks_pure

theorem follows_parameter (params : List (String × Option Node)) :
    Follows s (parameter params) (Statement.parameter params) (Past s) := by
  refine follows_expectSymbol.bind_past fun name t _ _ => ?_
  refine follows_skipOperator.bind fun _ u _ _ => ?_
  refine follows_ite (fun _ => ?_) fun _ => follows_pure trivial
  exact follows_expression.bind fun value _ _ _ => follows_pure trivial

theorem follows_parameters : Follows s parameters Statement.parameters (Past s) := by
  refine (follows_expect (by decide)).bind_past fun _ t _ _ => ?_
  exact follows_commaSeparated (by decide) (fun params _ _ => follows_parameter params) []

theorem tracks_macroDefinition (h : BodiesFrom nodes bodies s) :
    Tracks s (macroDefinition nodes) (Statement.macroDefinition bodies) := by
  refine tracks_bind (fun _ => follows_next) fun token => ?_
  refine tracks_bind (fun _ => follows_expectSymbol) fun name => ?_
  refine tracks_bind (fun _ => follows_parameters) fun params => ?_
  refine tracks_bind (fun _ => follows_closeTag) fun _ => ?_
  exact (h _).bind fun body => tracks_closed

theorem tracks_callBlock (h : BodiesFrom nodes bodies s) :
    Tracks s (callBlock nodes) (Statement.callBlock bodies) := by
  refine tracks_bind (fun _ => follows_next) fun token => .peek_bind fun _ => ?_
  refine tracks_ite_bind (.of_follows fun _ => follows_parameters) tracks_pure fun params => ?_
  refine tracks_bind (fun _ => follows_expression) fun called => ?_
  refine tracks_bind (fun _ => follows_closeTag) fun _ => ?_
  refine (h _).bind fun body => ?_
  refine tracks_bind (fun _ => follows_closeTag) fun _ => ?_
  cases called with
  | call => exact tracks_pure
  | _ => exact fun _ _ => follows_failAt (by simp)

theorem tracks_filterBlock (h : BodiesFrom nodes bodies s) :
    Tracks s (filterBlock nodes) (Statement.filterBlock bodies) := by
  refine tracks_bind (fun _ => follows_next) fun token => .peek_bind fun nameToken => ?_
  refine tracks_bind (fun _ => follows_filterName) fun name => ?_
  refine tracks_bind (fun _ => follows_optionalArguments nestedFrom_nested.inside) fun args => ?_
  refine tracks_bind (fun _ => follows_closeTag) fun _ => ?_
  exact (h _).bind fun body => tracks_closed

theorem tracks_parentTemplate : Tracks s parentTemplate Statement.parentTemplate := by
  refine tracks_bind (fun _ => follows_next) fun token => ?_
  exact tracks_bind (fun _ => follows_expression) fun template => tracks_closed

theorem tracks_includedTemplate : Tracks s includedTemplate Statement.includedTemplate := by
  refine tracks_bind (fun _ => follows_next) fun token => ?_
  refine tracks_bind (fun _ => follows_expression) fun template => ?_
  refine tracks_bind (fun _ => follows_skipSymbol) fun ignoreMissing => ?_
  refine tracks_ite ?_ tracks_closed
  exact tracks_bind (fun _ => follows_expectKeyword) fun _ => tracks_closed

theorem tracks_withContext : Tracks s withContext Statement.withContext := by
  refine tracks_bind (fun _ => follows_skipSymbol) fun _ => tracks_ite ?_ ?_
  · exact tracks_bind (fun _ => follows_expectKeyword) fun _ => tracks_pure
  · refine tracks_bind (fun _ => follows_skipSymbol) fun _ => tracks_ite ?_ tracks_pure
    exact tracks_bind (fun _ => follows_expectKeyword) fun _ => tracks_pure

theorem tracks_importedTemplate : Tracks s importedTemplate Statement.importedTemplate := by
  refine tracks_bind (fun _ => follows_next) fun token => ?_
  refine tracks_bind (fun _ => follows_expression) fun template => ?_
  refine tracks_bind (fun _ => follows_expectKeyword) fun _ => ?_
  refine tracks_bind (fun _ => follows_expectSymbol) fun target => ?_
  exact tracks_withContext.bind fun context => tracks_closed

theorem tracks_importedNames : Tracks s importedNames Statement.importedNames := by
  refine tracks_bind (fun _ => follows_next) fun token => ?_
  refine tracks_bind (fun _ => follows_expression) fun template => ?_
  refine tracks_bind (fun _ => follows_expectKeyword) fun _ => ?_
  refine (tracks_loop (fun names t _ => ?_) []).bind fun form => tracks_closed
  refine (tracks_withContext t .refl).bind fun found u hu _ => ?_
  cases found with
  | some context => exact follows_pure trivial
  | none =>
    refine .peek_bind (follows_ite (fun _ => ?_) fun _ => ?_)
    · exact follows_ite (fun _ => (follows_fail (by simp)).bind_of_fails) fun _ => follows_pure trivial
    · refine follows_unless (.of_follows fun _ => follows_expect (by simp)) fun v hv => ?_
      refine follows_expectSymbol.bind_advances (hu.trans hv) fun name => ?_
      refine tracks_bind (fun _ => follows_skipSymbol) fun _ => tracks_ite ?_ tracks_pure
      exact tracks_bind (fun _ => follows_expectSymbol) fun _ => tracks_pure

theorem tracks_signature {tolerant : Bool} :
    Tracks s (signature tolerant) (Statement.signature tolerant) := by
  refine .peek_bind fun _ => tracks_ite ?_ ?_
  · exact .of_follows fun _ => follows_callArguments nestedFrom_nested.inside
  · refine tracks_ite (tracks_loop (fun args t _ => ?_) _) (.bind_of_fails (by simp))
    refine .peek_bind (follows_ite (fun _ => follows_pure trivial) fun _ => ?_)
    refine follows_unless (.of_follows fun _ => follows_expect (by simp)) fun u hu => ?_
    exact (follows_argument nestedFrom_nested args).bind_advances hu fun _ => tracks_pure

theorem tracks_standardTag (h : BodiesFrom nodes bodies s) (e : Extension) (hasBody : Bool)
    (identity : Identity) (isAsync : Bool) :
    Tracks s (standardTag nodes e hasBody identity isAsync)
      (Statement.standardTag bodies e hasBody identity isAsync) := by
  refine tracks_bind (fun _ => follows_next) fun tag => ?_
  refine tracks_signature.bind fun args => ?_
  refine tracks_bind (fun _ => follows_closeTag) fun _ => tracks_ite ?_ tracks_pure
  exact (h _).bind fun body => tracks_closed

theorem tracks_scriptedSignature (form : SignatureForm) :
    Tracks s (scriptedSignature form) (Statement.scriptedSignature form) := by
  cases form with
  | tolerant => exact tracks_signature
  | strict => exact tracks_signature
  | expression => exact tracks_bind (fun _ => follows_expression) fun _ => tracks_pure
  | none => exact tracks_pure

theorem tracks_scriptedBodies (h : BodiesFrom nodes bodies s) (stops : List (List String)) :
    Tracks s (scriptedBodies nodes stops) (Statement.scriptedBodies bodies stops) := by
  induction stops with
  | nil => exact tracks_pure
  | cons stop stops ih =>
    refine (h stop).bind fun body => ?_
    refine tracks_bind (fun _ => follows_next) fun closing => ?_
    refine tracks_bind (fun _ => follows_closeTag) fun _ => ?_
    exact ih.bind fun rest => tracks_pure

theorem tracks_scriptedTag (h : BodiesFrom nodes bodies s) (e : Extension) (script : TagScript) :
    Tracks s (scriptedTag nodes e script) (Statement.scriptedTag bodies e script) := by
  refine tracks_bind (fun _ => follows_next) fun tag => ?_
  have hrest : Tracks s (do
        let args ← scriptedSignature script.signature
        closeTag tag.value
        let read ← scriptedBodies nodes script.bodies
        return Statement.scriptedNode e script tag.pos args read) (do
        let args ← Statement.scriptedSignature script.signature
        Parser.closeTag tag.value
        let read ← Statement.scriptedBodies bodies script.bodies
        return Statement.scriptedNode e script tag.pos args read) := by
    refine (tracks_scriptedSignature _).bind fun args => ?_
    refine tracks_bind (fun _ => follows_closeTag) fun _ => ?_
    exact (tracks_scriptedBodies h _).bind fun read => tracks_pure
  cases script.refusal with
  | some message =>
    cases script.skipped with
    | some word => exact tracks_bind (fun _ => follows_skipSymbol) fun _ => .bind_of_fails (by simp)
    | none => exact .bind_of_fails (by simp)
  | none =>
    cases script.skipped with
    | some word => exact tracks_bind (fun _ => follows_skipSymbol) fun _ => hrest
    | none => exact hrest

theorem tracks_customTag (h : BodiesFrom nodes bodies s) (e : Extension) :
    Tracks s (customTag nodes e) (Statement.customTag bodies e) := by
  rw [customTag, Statement.customTag]
  cases e.form with
  | standard hasBody identity isAsync => exact tracks_standardTag h e hasBody identity isAsync
  | scripted script => exact tracks_scriptedTag h e script

/-- Both parsers know the same built-in tags, and read them alike. -/
theorem follows_builtin (h : BodiesFrom nodes bodies s) (hhead : s.stream.head.kind ≠ .eof)
    (name : String) :
    Option.Rel (fun p q => Follows s p q Anywhere) (builtin? nodes name)
      (Statement.builtin? bodies name) := by
  have hif {c : Prop} [Decidable c] {p : Reader Node} {q : Parser Node} {o : Option (Reader Node)}
      {o' : Option (Parser Node)} (hp : Follows s p q Anywhere)
      (ho : Option.Rel (fun p q => Follows s p q Anywhere) o o') :
      Option.Rel (fun p q => Follows s p q Anywhere) (if c then some p else o)
        (if c then some q else o') := by
    split
    · exact .some hp
    · exact ho
  exact hif (follows_conditional h hhead) (hif (tracks_forEach h s .refl)
    (hif (tracks_assignment h s .refl) (hif (tracks_block h s .refl)
    (hif (tracks_macroDefinition h s .refl) (hif (tracks_callBlock h s .refl)
    (hif (tracks_filterBlock h s .refl) (hif (tracks_parentTemplate s .refl)
    (hif (tracks_includedTemplate s .refl) (hif (tracks_importedTemplate s .refl)
    (hif (tracks_importedNames s .refl) .none))))))))))

theorem follows_statementOver (h : BodiesFrom nodes bodies s) (env : Environment) :
    Follows s (statementOver nodes env) (Statement.statementOver env bodies) Anywhere := by
  refine .peek_bind (follows_ite (fun hsymbol => ?_) fun _ => (follows_fail (by simp)).bind_of_fails)
  have hhead : s.stream.head.kind ≠ .eof := hsymbol ▸ by decide
  have hbuiltin := follows_builtin h hhead s.stream.head.value
  revert hbuiltin
  generalize builtin? nodes s.stream.head.value = reader
  generalize Statement.builtin? bodies s.stream.head.value = parser
  intro hbuiltin
  cases hbuiltin with
  | some hfollows => exact hfollows
  | none =>
    cases env.tagOwner? s.stream.head.value with
    | some e => exact tracks_customTag h e s .refl
    | none => exact follows_failAt (by simp)

/-- Once a token has been taken, bodies are read alike. -/
def BodiesInside (nodes : Reader (List Node)) (bodies : Statement.Bodies) (s : State) : Prop :=
  ∀ t, s.Leads t → s.pos < t.pos → BodiesFrom nodes bodies t

theorem follows_nodeStep (h : BodiesInside nodes bodies s) (env : Environment) (read : List Node) :
    Follows s (nodeStep nodes env read) (Statement.nodeStep env bodies s.awaited read) (Advances s) := by
  refine .peek_bind (.get_bind ?_)
  cases hkind : s.stream.head.kind with
  | eof => exact follows_ite (fun _ => follows_pure trivial) fun _ => (follows_fail (by simp)).bind_of_fails
  | data | raw => exact (follows_take_past (by simp [hkind])).bind fun _ _ _ hlt => follows_pure hlt
  | variableStart =>
    refine (follows_take_past (by simp [hkind])).bind_advances .refl fun _ => .peek_bind fun _ => ?_
    refine tracks_ite (.bind_of_fails (by simp)) (tracks_bind (fun _ => follows_expression) fun _ => ?_)
    exact tracks_bind (fun _ => follows_expect (by decide)) fun _ => tracks_pure
  | blockStart =>
    refine (follows_take_past (by simp [hkind])).bind fun _ t ht hlt => .peek_bind ?_
    refine follows_ite (fun _ => follows_pure trivial) fun _ => ?_
    exact (follows_statementOver (h t ht hlt) env).bind fun _ u hu _ =>
      follows_pure (Nat.lt_of_lt_of_le hlt hu.le)
  | _ => exact follows_fail (by simp)

theorem BodiesInside.leads {t : State} (h : BodiesInside nodes bodies s) (hleads : s.Leads t) :
    BodiesInside nodes bodies t :=
  fun u hu hlt => h u (hleads.trans hu) (Nat.lt_of_le_of_lt hleads.le hlt)

theorem follows_nodesOver (h : BodiesInside nodes bodies s) (env : Environment) :
    Follows s (nodesOver nodes env) (Statement.nodesOver env bodies s.awaited) Anywhere := by
  refine follows_loop (fun read t ht => ?_) []
  rw [← ht.awaited]
  exact follows_nodeStep (h.leads ht) env read

end Bodies

section Nodes

variable {s : State} {env : Environment} {nodes : Reader (List Node)} {bodies : Statement.Bodies}

/-- A body is read as the nodes are that its closing tags end. -/
theorem follows_untilBlocks {stop : List String}
    (h : Follows { s with awaited := stop } nodes (bodies stop) Anywhere) :
    Follows s (untilBlocks nodes stop) (bodies stop) Anywhere := by
  intro hvalid
  have hagrees := h ⟨hvalid.lt, hvalid.last⟩
  rw [untilBlocks]
  cases hagrees with
  | ok h h' hleads hQ =>
    rw [h]
    exact .ok rfl h' ⟨hleads.tokens, rfl, hleads.le, hleads.stop⟩ trivial
  | refused h h' hleads hfault =>
    rw [h]
    exact .refused rfl h' ⟨hleads.tokens, rfl, hleads.le, hleads.stop⟩ hfault

/-- A body at any index begins after a token of the statement around it, so that there are no more bodies
    inside one another than tokens. -/
theorem follows_bodiesTo {depth : Nat} (hdepth : s.stream.pending.length < depth) :
    Follows s (IndexParser.nodes env) (Statement.bodiesTo env depth s.awaited) Anywhere := by
  induction depth generalizing s with
  | zero => cases hdepth
  | succ depth ih =>
    intro hvalid
    have hinside : BodiesInside (fun t => if _h : t.left < s.left then IndexParser.nodes env t
        else .error (.repeated t.pos) t) (Statement.bodiesTo env depth) s := by
      intro t ht hlt stop u hu
      have hleads : s.Leads u := ht.trans hu
      have hlt : s.pos < u.pos := Nat.lt_of_lt_of_le hlt hu.le
      have hleft : u.left < s.left := hvalid.left_lt hleads hlt
      have hpending : u.stream.pending.length < depth := by
        have hlength := hleads.length_pending_lt hlt
        omega
      refine follows_untilBlocks fun hvalid' => ?_
      -- The body is entered after a token, so that the check at its entry lets it be read.
      rw [dif_pos (show State.left { u with awaited := stop } < s.left from hleft)]
      exact @ih { u with awaited := stop } hpending hvalid'
    rw [IndexParser.nodes]
    exact follows_nodesOver hinside env hvalid

theorem follows_root : Follows s (root env) (Statement.bodies env s.awaited) Anywhere :=
  fun hvalid => follows_bodiesTo (Nat.lt_succ_self _) hvalid

end Nodes

section Complete

variable {tokens : List Token}

theorem complete_ne_nil : complete tokens ≠ [] := by
  unfold complete
  split
  · simp
  · next last hlast =>
    split
    · rintro rfl
      cases hlast
    · simp

/-- Over completed tokens a reading can begin at every index. -/
theorem valid_complete {pos : Nat} {awaited : List String} (hpos : pos < (complete tokens).length) :
    State.Valid ⟨complete tokens, pos, awaited⟩ := by
  refine ⟨hpos, ?_⟩
  change ∀ token ∈ (complete tokens).getLast?, token.kind = .eof
  unfold complete
  split
  · simp [Token.eofAt]
  · next last hlast =>
    split
    · next hkind => simpa [hlast] using hkind
    · simp [Token.eofAt]

theorem ofTokens_append_eofAt {last : Token} (hlast : tokens.getLast? = some last) :
    TokenStream.ofTokens (tokens ++ [Token.eofAt last.pos]) = .ofTokens tokens := by
  have hpending : (tokens ++ [Token.eofAt last.pos]).takeWhile (fun token => token.kind ≠ .eof) =
      tokens.takeWhile fun token => token.kind ≠ .eof := by
    rw [List.takeWhile_append]
    split
    · next hlength =>
      rw [(List.takeWhile_prefix _).eq_of_length hlength]
      exact List.append_nil tokens
    · rfl
  rw [TokenStream.ofTokens, hpending, TokenStream.ofTokens, List.find?_append]
  cases tokens.find? fun token => token.kind = .eof with
  | none => rw [hlast]; rfl
  | some token => rfl

theorem ofTokens_complete : TokenStream.ofTokens (complete tokens) = .ofTokens tokens := by
  unfold complete
  split
  · next hnone =>
    rw [List.getLast?_eq_none_iff.mp hnone]
    rfl
  · next last hlast =>
    split
    · rfl
    · exact ofTokens_append_eofAt hlast

end Complete

/-- The reading ends with a value of which something holds in the state at the end, or with an error of the
    tokens. The index is in the list then, and the other result is the same. -/
def Ends {α : Type} (s : State) (p : Reader α) (r : EStateM.Result SyntaxError TokenStream α)
    (Q : State → Prop) : Prop :=
  ∃ t : State, t.tokens = s.tokens ∧ t.pos < t.tokens.length ∧
    ((∃ a, p s = .ok a t ∧ Q t ∧ r = .ok a t.stream) ∨
      ∃ e rest, p s = .error (.refused e) t ∧ e.fault ≠ .tooDeep ∧ r = .error e rest)

theorem Follows.ends {α : Type} {s : State} {p : Reader α} {q : Parser α} {Q : α → State → Prop}
    {R : State → Prop} (h : Follows s p q Q) (hvalid : s.Valid) (himp : ∀ a t, Q a t → R t) :
    Ends s p (q s.stream) R := by
  cases h hvalid with
  | @ok a t h h' hleads hQ =>
    exact ⟨t, hleads.tokens, (hvalid.of_leads hleads).lt, .inl ⟨a, h, himp a t hQ, h'⟩⟩
  | @refused e t rest h h' hleads hfault =>
    exact ⟨t, hleads.tokens, (hvalid.of_leads hleads).lt, .inr ⟨e, rest, h, hfault, h'⟩⟩

/-- Whatever the tokens and the extensions are, and at whatever token an expression is looked for, the parser
    over an index ends, and no check of its own stops it: the index never leaves the list, each round of each
    loop that is not the last one takes a token, and no rule is entered again inside itself before a token has
    been taken. An expression that is read has taken a token. The results are those of the parser over a
    stream, whose bounds on rounds and depth are then never reached either. -/
theorem root_and_expression_end (env : Environment) (tokens : List Token) :
    Ends ⟨complete tokens, 0, []⟩ (root env) (Parser.root env (.ofTokens tokens)) (fun _ => True) ∧
    ∀ (pos : Fin (complete tokens).length) (awaited : List String),
      Ends ⟨complete tokens, pos, awaited⟩ expression
        (Parser.expression (.ofTokens ((complete tokens).drop pos))) fun t => pos < t.pos := by
  constructor
  · have hvalid : State.Valid ⟨complete tokens, 0, []⟩ :=
      valid_complete (List.length_pos_iff.mpr complete_ne_nil)
    rw [← ofTokens_complete]
    exact follows_root.ends hvalid fun _ _ _ => trivial
  · intro pos awaited
    exact follows_expression.ends (valid_complete pos.isLt) fun _ _ hlt => hlt

end IndexParser

end TemplateManifest
