import TemplateManifest.Proofs.Template.IndexStatement
import TemplateManifest.Proofs.Template.Spelling

/-!
What ends a body. While a body is read, its own closing tags are awaited in each round, and before and
afterwards those of the statement around it. A closing tag of a statement further out that stands in the body
is read as any other tag. Main statement: `untilBlocks_ends_at_own_tag`.
-/

namespace TemplateManifest

namespace IndexParser

open TemplateManifest.Parser (Step)

section Rounds

variable {α σ : Type} {step : σ → Reader (Step σ α)} {a b : σ} {s t u : State} {result : α}

/-- The loop goes round from one state to another one, some rounds later. -/
inductive Rounds (step : σ → Reader (Step σ α)) : σ → State → σ → State → Prop where
  | refl {a : σ} {s : State} : Rounds step a s a s
  | round {a b c : σ} {s t u : State} (h : step a s = .ok (.more b) t) (hlt : t.left < s.left)
      (hrest : Rounds step b t c u) : Rounds step a s c u

theorem Rounds.snoc {c : σ} (h : Rounds step a s b t) (hstep : step b t = .ok (.more c) u)
    (hlt : u.left < t.left) : Rounds step a s c u := by
  induction h with
  | refl => exact .round hstep hlt .refl
  | round h hlt' _ ih => exact .round h hlt' (ih hstep hlt)

/-- A loop can be continued where some of its rounds end. -/
theorem Rounds.loop_eq (h : Rounds step a s b t) : loop step a s = loop step b t := by
  induction h with
  | refl => rfl
  | round h hlt _ ih =>
    rw [loop, h, ← ih]
    exact dif_pos hlt

/-- A result of a loop is that of a last round. -/
theorem exists_rounds_of_loop_eq_ok (h : loop step a s = .ok result t) :
    ∃ b u, Rounds step a s b u ∧ step b u = .ok (.done result) t := by
  fun_induction loop step a s with
  | case1 a s halt u hstep => cases h
  | case2 a s result' u hstep =>
    cases h
    exact ⟨a, s, .refl, hstep⟩
  | case3 a s b u hstep hlt ih =>
    obtain ⟨c, v, hrounds, hdone⟩ := ih h
    exact ⟨c, v, .round hstep hlt hrounds, hdone⟩
  | case4 a s b u hstep hlt => cases h

theorem get_bind (f : State → Reader α) (s : State) : (get >>= f) s = f s s := rfl

/-- The step is never the last one of its loop. -/
def GoesOn (p : Reader (Step σ α)) : Prop :=
  ∀ s result t, p s ≠ .ok (.done result) t

theorem GoesOn.bind {β : Type} {p : Reader β} {f : β → Reader (Step σ α)} (h : ∀ b, GoesOn (f b)) :
    GoesOn (p >>= f) := by
  intro s result t
  cases hp : p s with
  | ok b u =>
    rw [bind_of_ok hp]
    exact h b u result t
  | error halt u =>
    rw [bind_of_error hp]
    simp

theorem goesOn_more {a : σ} : GoesOn (pure (.more a) : Reader (Step σ α)) := by
  intro s result t h
  cases h

theorem goesOn_ite {c : Prop} [Decidable c] {p q : Reader (Step σ α)} (hp : GoesOn p) (hq : GoesOn q) :
    GoesOn (if c then p else q) := by
  split
  · exact hp
  · exact hq

theorem goesOn_fail {fault : SyntaxFault} : GoesOn (fail fault : Reader (Step σ α)) :=
  .bind fun _ _ _ _ h => by cases h

theorem goesOn_fail_bind {β : Type} {fault : SyntaxFault} {f : β → Reader (Step σ α)} :
    GoesOn (fail fault >>= f) := by
  intro s result t h
  cases hpeek : peek s with
  | ok token u =>
    have hfail : fail (α := β) fault s = .error (.refused ⟨fault, token.pos⟩) u := bind_of_ok hpeek
    cases (bind_of_error hfail).symm.trans h
  | error halt u =>
    have hfail : fail (α := β) fault s = .error halt u := bind_of_error hpeek
    cases (bind_of_error hfail).symm.trans h

end Rounds

section Tags

variable {s : State}

/-- The state stands at the name of a tag, right after the opening mark. -/
structure State.AtTag (s : State) (token : Token) : Prop where
  opened : ∃ mark, s.tokens[s.pos - 1]? = some mark ∧ mark.kind = .blockStart
  named : s.tokens[s.pos]? = some token
  symbol : token.kind = .symbol

theorem State.Valid.atTag_moved_iff (h : s.Valid) {token : Token} :
    s.moved.AtTag token ↔ s.stream.head.kind = .blockStart ∧ s.moved.stream.head = token ∧
      token.kind = .symbol := by
  constructor
  · rintro ⟨⟨mark, hmark, hkind⟩, hnamed, hsymbol⟩
    obtain rfl : s.stream.head = mark := Option.some.inj (h.getElem?_eq.symm.trans hmark)
    have hhead : s.stream.head.kind ≠ .eof := by simp [hkind]
    have hmoved := (h.of_leads (h.leads_moved hhead)).getElem?_eq
    exact ⟨hkind, Option.some.inj (hmoved.symm.trans hnamed), hsymbol⟩
  · rintro ⟨hkind, rfl, hsymbol⟩
    have hhead : s.stream.head.kind ≠ .eof := by simp [hkind]
    exact ⟨⟨_, h.getElem?_eq, hkind⟩, (h.of_leads (h.leads_moved hhead)).getElem?_eq, hsymbol⟩

theorem State.Valid.peek_moved (h : s.Valid) {token : Token} (htag : s.moved.AtTag token) :
    peek s.moved = .ok token s.moved := by
  obtain ⟨hkind, rfl, _⟩ := h.atTag_moved_iff.mp htag
  exact (h.of_leads (h.leads_moved (by simp [hkind]))).peek_eq

end Tags

section Body

variable {env : Environment} {s t u : State} {read body : List Node} {inner : Reader (List Node)}

/-- The reader of the bodies inside a body that begins in the state. -/
def inside (env : Environment) (s : State) : Reader (List Node) := fun t =>
  if _h : t.left < s.left then nodes env t else .error (.repeated t.pos) t

/-- The state in which a body up to some tags begins. -/
def State.awaiting (s : State) (names : List String) : State :=
  { s with awaited := names }

/-- The body that begins in the state has been read up to another one. Its nodes so far are in reverse. -/
def ReadTo (env : Environment) (s : State) (read : List Node) (t : State) : Prop :=
  Rounds (nodeStep (inside env s) env) [] s read t

theorem nodes_eq_loop : nodes env s = loop (nodeStep (inside env s) env) [] s := by
  rw [nodes]
  rfl

theorem bodiesInside_inside (hvalid : s.Valid) :
    BodiesInside (inside env s) (Statement.bodiesTo env s.stream.pending.length) s := by
  intro t ht hlt stop u hu
  have hleads : s.Leads u := ht.trans hu
  have hlt : s.pos < u.pos := Nat.lt_of_lt_of_le hlt hu.le
  have hleft : u.left < s.left := hvalid.left_lt hleads hlt
  refine follows_untilBlocks fun hvalid' => ?_
  rw [inside, dif_pos (show State.left { u with awaited := stop } < s.left from hleft)]
  exact follows_bodiesTo (s := { u with awaited := stop }) (hleads.length_pending_lt hlt) hvalid'

/-- What a round of a body leads to can come after it, and the round takes a token. -/
theorem round_leads (hvalid : s.Valid) (hleads : s.Leads t) {next : List Node}
    (h : nodeStep (inside env s) env read t = .ok (.more next) u) : t.Leads u ∧ t.pos < u.pos := by
  have hinside : BodiesInside (inside env s) _ t := (bodiesInside_inside hvalid).leads hleads
  cases follows_nodeStep hinside env read (hvalid.of_leads hleads) with
  | ok h' _ hleads' hadvances =>
    cases h.symm.trans h'
    exact ⟨hleads', hadvances⟩
  | refused h' =>  cases h.symm.trans h'

theorem ReadTo.leads (hvalid : s.Valid) (h : ReadTo env s read t) : s.Leads t := by
  have hrounds : ∀ {read u next t}, Rounds (nodeStep (inside env s) env) read u next t → s.Leads u →
      s.Leads t := by
    intro read u next t hrounds
    induction hrounds with
    | refl => exact id
    | round hstep _ _ ih => exact fun hu => ih (hu.trans (round_leads hvalid hu hstep).1)
  exact hrounds h .refl

/-- After an opening mark a round looks for the name of one of the awaited tags. -/
theorem nodeStep_of_blockStart (hvalid : s.Valid) (hkind : s.stream.head.kind = .blockStart) :
    nodeStep inner env read s =
      (if s.moved.stream.head.kind = .symbol && s.awaited.contains s.moved.stream.head.value then
        return .done read.reverse
      else do
        return .more ((← statementOver inner env) :: read) : Reader _) s.moved := by
  have hhead : s.stream.head.kind ≠ .eof := by simp [hkind]
  have hmoved := hvalid.of_leads (hvalid.leads_moved hhead)
  rw [nodeStep, bind_of_ok hvalid.peek_eq, get_bind, hkind]
  dsimp only
  rw [bind_of_ok (hvalid.take_eq hhead), bind_of_ok hmoved.peek_eq]

/-- A round that is the last one finds the name of one of the awaited tags, if any is awaited. -/
theorem atTag_of_done (hvalid : s.Valid) (hawaited : s.awaited ≠ [])
    (h : nodeStep inner env read s = .ok (.done body) t) :
    ∃ token, t = s.moved ∧ t.AtTag token ∧ token.value ∈ s.awaited := by
  have hgoes {p : Reader (Step (List Node) (List Node))} (hp : GoesOn p) (h : p s = .ok (.done body) t) :
      ∃ token, t = s.moved ∧ t.AtTag token ∧ token.value ∈ s.awaited :=
    (hp s body t h).elim
  by_cases hkind : s.stream.head.kind = .blockStart
  · rw [nodeStep_of_blockStart hvalid hkind] at h
    split at h
    · next hcloses =>
      cases h
      rw [Bool.and_eq_true, decide_eq_true_eq, List.contains_iff_mem] at hcloses
      exact ⟨_, rfl, hvalid.atTag_moved_iff.mpr ⟨hkind, rfl, hcloses.1⟩, hcloses.2⟩
    · exact (GoesOn.bind (fun _ => goesOn_more) _ _ _ h).elim
  · rw [nodeStep, bind_of_ok hvalid.peek_eq, get_bind] at h
    cases hhead : s.stream.head.kind with
    | eof =>
      rw [hhead, if_neg (by simpa using hawaited)] at h
      exact hgoes goesOn_fail_bind h
    | data | raw =>
      rw [hhead] at h
      exact hgoes (.bind fun _ => goesOn_more) h
    | variableStart =>
      rw [hhead] at h
      refine hgoes (.bind fun _ => .bind fun _ => goesOn_ite ?_ ?_) h
      · exact .bind fun _ => .bind fun _ => .bind fun _ => goesOn_more
      · exact .bind fun _ => .bind fun _ => goesOn_more
    | blockStart => exact absurd hhead hkind
    | _ =>
      rw [hhead] at h
      exact hgoes goesOn_fail h

/-- A round at the name of a tag that is not awaited reads the tag as a statement. -/
theorem nodeStep_of_not_awaited {token : Token} (hvalid : s.Valid) (htag : s.moved.AtTag token)
    (hawaited : token.value ∉ s.awaited) :
    nodeStep inner env read s =
      (do return .more ((← statementOver inner env) :: read) : Reader _) s.moved := by
  obtain ⟨hkind, hname, _⟩ := hvalid.atTag_moved_iff.mp htag
  rw [nodeStep_of_blockStart hvalid hkind, hname, if_neg]
  simp [hawaited]

theorem builtin?_eq_none {name : String} (h : name ∉ builtinTags) : builtin? inner name = none := by
  simp only [builtinTags, List.mem_cons, List.not_mem_nil, or_false, not_or] at h
  simp [builtin?, h]

section Statement

variable {token : Token} (hvalid : s.Valid) (htag : s.moved.AtTag token)
  (hname : token.value ∉ builtinTags)
include hvalid htag hname

theorem statementOver_of_no_owner (howner : env.tagOwner? token.value = none) :
    statementOver inner env s.moved = failAt (.unknownTag token.value) token s.moved := by
  rw [statementOver, bind_of_ok (hvalid.peek_moved htag), if_pos htag.symbol]
  dsimp only
  rw [builtin?_eq_none hname, howner]

theorem statementOver_of_owner {e : Extension} (howner : env.tagOwner? token.value = some e) :
    statementOver inner env s.moved = customTag inner e s.moved := by
  rw [statementOver, bind_of_ok (hvalid.peek_moved htag), if_pos htag.symbol]
  dsimp only
  rw [builtin?_eq_none hname, howner]

variable (hawaited : token.value ∉ s.awaited)
include hawaited

/-- A tag that nothing owns and that is not awaited is an error, even if a statement further out awaits
    it. -/
theorem nodeStep_of_no_owner (howner : env.tagOwner? token.value = none) :
    nodeStep inner env read s = .error (.refused ⟨.unknownTag token.value, token.pos⟩) s.moved := by
  rw [nodeStep_of_not_awaited hvalid htag hawaited]
  exact bind_of_error (statementOver_of_no_owner hvalid htag hname howner)

/-- A tag of an extension that is not awaited calls the extension, even if a statement further out awaits
    it. -/
theorem nodeStep_of_owner {e : Extension} (howner : env.tagOwner? token.value = some e) :
    nodeStep inner env read s =
      (do return .more ((← customTag inner e) :: read) : Reader _) s.moved := by
  rw [nodeStep_of_not_awaited hvalid htag hawaited]
  change EStateM.bind _ _ s.moved = EStateM.bind _ _ s.moved
  rw [EStateM.bind, EStateM.bind, statementOver_of_owner hvalid htag hname howner]

end Statement

/-- A body ends at one of the tags that are awaited in it. -/
theorem atTag_of_nodes_eq_ok (hvalid : s.Valid) (hawaited : s.awaited ≠ [])
    (h : nodes env s = .ok body t) :
    ∃ token, s.pos < t.pos ∧ t.AtTag token ∧ token.value ∈ s.awaited := by
  rw [nodes_eq_loop] at h
  obtain ⟨read, u, hrounds, hdone⟩ := exists_rounds_of_loop_eq_ok h
  have hleads : s.Leads u := ReadTo.leads hvalid hrounds
  rw [← hleads.awaited] at hawaited ⊢
  obtain ⟨token, rfl, htag, hmem⟩ := atTag_of_done (hvalid.of_leads hleads) hawaited hdone
  exact ⟨token, Nat.lt_succ_of_le hleads.le, htag, hmem⟩

theorem ReadTo.nodes_eq_error {halt : Halt} (h : ReadTo env s read t)
    (hstep : nodeStep (inside env s) env read t = .error halt u) : nodes env s = .error halt u := by
  rw [nodes_eq_loop, Rounds.loop_eq h, loop, hstep]

theorem ReadTo.snoc {next : List Node} (hvalid : s.Valid) (h : ReadTo env s read t)
    (hstep : nodeStep (inside env s) env read t = .ok (.more next) u) : ReadTo env s next u := by
  have hleads := ReadTo.leads hvalid h
  obtain ⟨hleads', hlt⟩ := round_leads hvalid hleads hstep
  exact Rounds.snoc h hstep ((hvalid.of_leads hleads).left_lt hleads' hlt)

end Body

section Awaited

variable {nodes nodes' : Reader (List Node)}

theorem end_append_not_mem_builtinTags (tag : String) : "end" ++ tag ∉ builtinTags := by
  intro hmem
  have hend : ("end" ++ tag).toList.take 3 = "end".toList := by
    simp
  exact (show ∀ name ∈ builtinTags, name.toList.take 3 ≠ "end".toList by decide +kernel) _ hmem hend

/-- Bodies are read alike up to all closing tags that do not begin a built-in statement. -/
def AlikeUpToClosing (nodes nodes' : Reader (List Node)) : Prop :=
  ∀ stop, stop ≠ [] → (∀ name ∈ stop, name ∉ builtinTags) →
    untilBlocks nodes stop = untilBlocks nodes' stop

variable (h : AlikeUpToClosing nodes nodes')
include h

theorem builtin?_congr (name : String) : builtin? nodes name = builtin? nodes' name := by
  have hloopEnd (keyword : String) : Statement.loopEnd keyword ∉ builtinTags := by
    unfold Statement.loopEnd
    split
    · decide
    · split <;> decide
  have hloop (keyword : String) : untilBlocks nodes [Statement.loopEnd keyword] =
      untilBlocks nodes' [Statement.loopEnd keyword] := by
    apply h _ (by simp)
    simpa using hloopEnd keyword
  have hloopElse (keyword : String) : untilBlocks nodes [Statement.loopEnd keyword, "else"] =
      untilBlocks nodes' [Statement.loopEnd keyword, "else"] := by
    apply h _ (by simp)
    simpa using ⟨hloopEnd keyword, by decide⟩
  have hif : conditional nodes = conditional nodes' := by
    simp only [conditional, h ["elif", "elseif", "else", "endif"] (by simp) (by decide),
      h ["endif"] (by simp) (by decide)]
  have hfor : forEach nodes = forEach nodes' := by
    simp only [forEach, hloop, hloopElse]
  have hset : assignment nodes = assignment nodes' := by
    simp only [assignment, h ["endset"] (by simp) (by decide)]
  have hblock : block nodes = block nodes' := by
    simp only [block, h ["endblock"] (by simp) (by decide)]
  have hmacro : macroDefinition nodes = macroDefinition nodes' := by
    simp only [macroDefinition, h ["endmacro"] (by simp) (by decide)]
  have hcall : callBlock nodes = callBlock nodes' := by
    simp only [callBlock, h ["endcall"] (by simp) (by decide)]
  have hfilter : filterBlock nodes = filterBlock nodes' := by
    simp only [filterBlock, h ["endfilter"] (by simp) (by decide)]
  rw [builtin?, builtin?, hif, hfor, hset, hblock, hmacro, hcall, hfilter]

theorem standardTag_congr (e : Extension) (hasBody : Bool) (identity : Identity) (isAsync : Bool) :
    standardTag nodes e hasBody identity isAsync = standardTag nodes' e hasBody identity isAsync := by
  have hend (tag : String) : untilBlocks nodes ["end" ++ tag] = untilBlocks nodes' ["end" ++ tag] := by
    apply h _ (by simp)
    intro name hname
    rw [List.mem_singleton.mp hname]
    exact end_append_not_mem_builtinTags tag
  simp only [standardTag, hend]

end Awaited

section UntilBlocks

variable {env : Environment} {s : State} {names : List String}

theorem untilBlocks_eq_error {nodes : Reader (List Node)} {halt : Halt} {t : State}
    (h : nodes (s.awaiting names) = .error halt t) :
    untilBlocks nodes names s = .error halt { t with awaited := s.awaited } := by
  rw [untilBlocks, show nodes { s with awaited := names } = _ from h]

theorem exists_of_untilBlocks_eq_ok {nodes : Reader (List Node)} {body : List Node} {t : State}
    (h : untilBlocks nodes names s = .ok body t) :
    ∃ u, nodes (s.awaiting names) = .ok body u ∧ t = { u with awaited := s.awaited } := by
  cases hnodes : nodes (s.awaiting names) with
  | ok body' u =>
    rw [untilBlocks, show nodes { s with awaited := names } = _ from hnodes] at h
    cases h
    exact ⟨u, rfl, rfl⟩
  | error halt u => cases (untilBlocks_eq_error hnodes).symm.trans h

/-- A body that is read up to some tags ends at one of them, right after its opening mark, or with an error.
    What was awaited before is awaited again afterwards in both cases, and in each round of the body these
    tags and no others are awaited. Any other tag in the body that is not built in is an error, if nothing
    owns it, and else a call of its owner. This is so for all that the statements further out await: the
    built-in ones and those of extensions read bodies up to no tags that are built in. The parser is in no
    other states than the valid ones: it starts in one (`valid_complete`) and all that it reads leads from
    there to others (`State.Valid.of_leads`). -/
theorem untilBlocks_ends_at_own_tag (hvalid : s.Valid) (hnames : names ≠ []) :
    (∃ t : State, t.awaited = s.awaited ∧ t.tokens = s.tokens ∧ t.Valid ∧
      ((∃ body token, untilBlocks (nodes env) names s = .ok body t ∧
          Statement.bodies env names s.stream = .ok body t.stream ∧
          s.pos < t.pos ∧ t.AtTag token ∧ token.value ∈ names) ∨
        ∃ e rest, untilBlocks (nodes env) names s = .error (.refused e) t ∧
          Statement.bodies env names s.stream = .error e rest)) ∧
    (∀ read u, ReadTo env (s.awaiting names) read u → u.awaited = names ∧
      ∀ token, u.moved.AtTag token → token.value ∉ names → token.value ∉ builtinTags →
        (env.tagOwner? token.value = none → untilBlocks (nodes env) names s = .error
          (.refused ⟨.unknownTag token.value, token.pos⟩) { u.moved with awaited := s.awaited }) ∧
        ∀ e, env.tagOwner? token.value = some e →
          (∀ node t, customTag (inside env (s.awaiting names)) e u.moved = .ok node t →
            ReadTo env (s.awaiting names) (node :: read) t) ∧
          ∀ halt t, customTag (inside env (s.awaiting names)) e u.moved = .error halt t →
            untilBlocks (nodes env) names s = .error halt { t with awaited := s.awaited }) ∧
    ∀ nodes nodes', AlikeUpToClosing nodes nodes' →
      (∀ name, builtin? nodes name = builtin? nodes' name) ∧
      ∀ e hasBody identity isAsync,
        standardTag nodes e hasBody identity isAsync = standardTag nodes' e hasBody identity isAsync := by
  have hinner : (s.awaiting names).Valid := ⟨hvalid.lt, hvalid.last⟩
  refine ⟨?_, ?_, ?_⟩
  · have hagrees : Agrees s Anywhere (untilBlocks (nodes env) names s)
        (Statement.bodies env names s.stream) := by
      rw [Statement.bodies]
      exact follows_untilBlocks (follows_bodiesTo (s := s.awaiting names) (Nat.lt_succ_self _)) hvalid
    cases hagrees with
    | @ok body t h h' hleads =>
      refine ⟨t, hleads.awaited, hleads.tokens, hvalid.of_leads hleads, .inl ?_⟩
      obtain ⟨u, hnodes, rfl⟩ := exists_of_untilBlocks_eq_ok h
      obtain ⟨token, hlt, htag, hmem⟩ := atTag_of_nodes_eq_ok hinner hnames hnodes
      exact ⟨body, token, h, h', hlt, ⟨htag.opened, htag.named, htag.symbol⟩, hmem⟩
    | @refused e t rest h h' hleads =>
      exact ⟨t, hleads.awaited, hleads.tokens, hvalid.of_leads hleads, .inr ⟨e, rest, h, h'⟩⟩
  · intro read u hread
    have hleads := hread.leads hinner
    have hu := hinner.of_leads hleads
    refine ⟨hleads.awaited, ?_⟩
    intro token htag hname hbuiltin
    rw [← show u.awaited = names from hleads.awaited] at hname
    constructor
    · intro howner
      apply untilBlocks_eq_error
      exact hread.nodes_eq_error (nodeStep_of_no_owner hu htag hbuiltin hname howner)
    · intro e howner
      have hstep : nodeStep (inside env (s.awaiting names)) env read u = _ :=
        nodeStep_of_owner hu htag hbuiltin hname howner
      constructor
      · intro node t hcustom
        exact hread.snoc hinner (hstep.trans (bind_of_ok hcustom))
      · intro halt t hcustom
        exact untilBlocks_eq_error (hread.nodes_eq_error (hstep.trans (bind_of_error hcustom)))
  · intro nodes nodes' h
    exact ⟨builtin?_congr h, standardTag_congr h⟩

/-- The body of a conditional does not end at the closing tag of the loop around it. -/
theorem untilBlocks_endif_at_endfor :
    let tokens : List Token := [⟨.data, "b", ⟨1, 1⟩⟩, ⟨.blockStart, "\x7b%", ⟨1, 2⟩⟩,
      ⟨.symbol, "endfor", ⟨1, 5⟩⟩, ⟨.blockEnd, "%\x7d", ⟨1, 12⟩⟩, Token.eofAt ⟨1, 14⟩]
    untilBlocks (nodes {}) ["elif", "elseif", "else", "endif"] ⟨tokens, 0, ["endfor", "else"]⟩ =
      .error (.refused ⟨.unknownTag "endfor", ⟨1, 5⟩⟩) ⟨tokens, 2, ["endfor", "else"]⟩ := by
  intro tokens
  have hvalid : State.Valid ⟨tokens, 0, ["endfor", "else"]⟩ := by
    refine ⟨by decide, ?_⟩
    intro token htoken
    cases htoken
    rfl
  have hread : ReadTo {} (State.awaiting ⟨tokens, 0, ["endfor", "else"]⟩
      ["elif", "elseif", "else", "endif"]) [.data ⟨1, 1⟩ "b"]
      ⟨tokens, 1, ["elif", "elseif", "else", "endif"]⟩ :=
    .round rfl (by decide) .refl
  have htag : State.AtTag ⟨tokens, 2, ["elif", "elseif", "else", "endif"]⟩
      ⟨.symbol, "endfor", ⟨1, 5⟩⟩ :=
    ⟨⟨_, rfl, rfl⟩, rfl, rfl⟩
  have hrounds := (untilBlocks_ends_at_own_tag hvalid (by simp)).2.1 _ _ hread
  exact (hrounds.2 _ htag (by decide) (by decide)).1 rfl

end UntilBlocks

end IndexParser

end TemplateManifest
