import TemplateManifest.Proofs.Template.IndexParser
import TemplateManifest.Proofs.Template.Reading

/-!
The parser over an index follows the parser over a stream: from a state in which the index is in the list it
gives what the other one gives on the tokens from there on, and the index is still in the list. One lemma for
each step and for each way to put steps together.
-/

namespace TemplateManifest

namespace TokenStream

variable {token : Token} {tokens : List Token}

theorem head_ofTokens_cons : (ofTokens (token :: tokens)).head = token := by
  unfold head ofTokens
  by_cases heof : token.kind = .eof
  · simp [heof]
  · simp [heof]

theorem pending_ofTokens_cons (heof : token.kind ≠ .eof) :
    (ofTokens (token :: tokens)).pending = token :: (ofTokens tokens).pending := by
  simp [ofTokens, heof]

theorem tail_ofTokens_eof (heof : token.kind = .eof) :
    (ofTokens (token :: tokens)).tail = ofTokens (token :: tokens) := by
  simp [tail, ofTokens, heof]

theorem tail_ofTokens_cons (heof : token.kind ≠ .eof) (htokens : ∃ last ∈ tokens, last.kind = .eof) :
    (ofTokens (token :: tokens)).tail = ofTokens tokens := by
  obtain ⟨last, hlast⟩ : ∃ last, tokens.find? (fun token => token.kind = .eof) = some last := by
    rw [← Option.isSome_iff_exists, List.find?_isSome]
    simpa using htokens
  simp [tail, ofTokens, heof, hlast]

theorem length_pending_ofTokens_lt (htokens : ∃ last ∈ tokens, last.kind = .eof) :
    (ofTokens tokens).pending.length < tokens.length := by
  obtain ⟨last, hmem, hlast⟩ := htokens
  induction tokens with
  | nil => cases hmem
  | cons token tokens ih =>
    by_cases heof : token.kind = .eof
    · simp [ofTokens, heof]
    · rw [pending_ofTokens_cons heof]
      rcases List.mem_cons.mp hmem with rfl | hmem
      · exact absurd hlast heof
      · exact Nat.succ_lt_succ (ih hmem)

end TokenStream

namespace IndexParser

open TemplateManifest.Parser (Step)

namespace State

/-- What the parser over a stream reads from here. -/
def stream (s : State) : TokenStream :=
  .ofTokens (s.tokens.drop s.pos)

/-- The index of the next token for the end of the source. -/
def stop (s : State) : Nat :=
  s.pos + s.stream.pending.length

/-- The state after the current token. -/
def moved (s : State) : State :=
  { s with pos := s.pos + 1 }

/-- The index is in the list, and the list ends with the end of the source. -/
structure Valid (s : State) : Prop where
  lt : s.pos < s.tokens.length
  last : ∀ token ∈ s.tokens.getLast?, token.kind = .eof

/-- The state can come after the other one in a reading. -/
structure Leads (s t : State) : Prop where
  tokens : t.tokens = s.tokens
  awaited : t.awaited = s.awaited
  le : s.pos ≤ t.pos
  stop : t.stop = s.stop

variable {s t u : State}

theorem Leads.refl : s.Leads s :=
  ⟨rfl, rfl, Nat.le_refl _, rfl⟩

theorem Leads.trans (h : s.Leads t) (h' : t.Leads u) : s.Leads u :=
  ⟨h'.tokens.trans h.tokens, h'.awaited.trans h.awaited, Nat.le_trans h.le h'.le, h'.stop.trans h.stop⟩

theorem Valid.exists_last (h : s.Valid) : ∃ last ∈ s.tokens.drop s.pos, last.kind = .eof := by
  have hne : s.tokens.drop s.pos ≠ [] := by
    rw [ne_eq, List.drop_eq_nil_iff]
    exact Nat.not_le.mpr h.lt
  refine ⟨(s.tokens.drop s.pos).getLast hne, List.getLast_mem hne, h.last _ ?_⟩
  rw [Option.mem_def, ← List.getLast?_eq_some_getLast hne, List.getLast?_drop, if_neg (Nat.not_le.mpr h.lt)]

theorem Valid.drop_eq (h : s.Valid) :
    s.tokens.drop s.pos = s.stream.head :: s.tokens.drop (s.pos + 1) := by
  have hcons := List.drop_eq_getElem_cons h.lt
  rw [stream, hcons, TokenStream.head_ofTokens_cons]

theorem Valid.stop_lt (h : s.Valid) : s.stop < s.tokens.length := by
  have hlength := TokenStream.length_pending_ofTokens_lt h.exists_last
  rw [List.length_drop] at hlength
  have hlt := h.lt
  rw [stop, stream]
  omega

theorem Valid.of_leads (h : s.Valid) (hleads : s.Leads t) : t.Valid := by
  refine ⟨?_, hleads.tokens ▸ h.last⟩
  have hstop : t.pos ≤ s.stop := hleads.stop ▸ Nat.le_add_right _ _
  rw [hleads.tokens]
  exact Nat.lt_of_le_of_lt hstop h.stop_lt

theorem Valid.left_lt (h : s.Valid) (hleads : s.Leads t) (hlt : s.pos < t.pos) : t.left < s.left := by
  have hlt' := (h.of_leads hleads).lt
  rw [left, left, ← hleads.tokens]
  omega

theorem Valid.stream_tail_of_eof (h : s.Valid) (hhead : s.stream.head.kind = .eof) :
    s.stream.tail = s.stream := by
  rw [stream, h.drop_eq, TokenStream.tail_ofTokens_eof hhead]

section Moved

variable (h : s.Valid) (hhead : s.stream.head.kind ≠ .eof)

include h hhead

theorem Valid.exists_last_moved : ∃ last ∈ s.tokens.drop (s.pos + 1), last.kind = .eof := by
  obtain ⟨last, hmem, heof⟩ := h.exists_last
  rw [h.drop_eq] at hmem
  rcases List.mem_cons.mp hmem with rfl | hmem
  · exact absurd heof hhead
  · exact ⟨last, hmem, heof⟩

theorem Valid.stream_moved : s.moved.stream = s.stream.tail := by
  rw [stream, stream, h.drop_eq]
  exact (TokenStream.tail_ofTokens_cons hhead (h.exists_last_moved hhead)).symm

theorem Valid.leads_moved : s.Leads s.moved := by
  refine ⟨rfl, rfl, Nat.le_succ _, ?_⟩
  have hpending : s.stream.pending = s.stream.head :: s.moved.stream.pending := by
    rw [stream, h.drop_eq, TokenStream.pending_ofTokens_cons hhead, TokenStream.head_ofTokens_cons]
    rfl
  change s.pos + 1 + s.moved.stream.pending.length = s.pos + s.stream.pending.length
  rw [hpending, List.length_cons]
  omega

end Moved

end State

section Follows

variable {α β σ : Type}

/-- What the two parsers give, read from a state, is the same: a value of which something holds in the
    state that the reading ends in, or an error of the tokens. -/
inductive Agrees (s : State) (Q : α → State → Prop) (r : EStateM.Result Halt State α)
    (r' : EStateM.Result SyntaxError TokenStream α) : Prop
  | ok {a : α} {t : State} (h : r = .ok a t) (h' : r' = .ok a t.stream) (hleads : s.Leads t)
      (hQ : Q a t) : Agrees s Q r r'
  | refused {e : SyntaxError} {t : State} {rest : TokenStream} (h : r = .error (.refused e) t)
      (h' : r' = .error e rest) (hleads : s.Leads t) (hfault : e.fault ≠ .tooDeep) : Agrees s Q r r'

/-- From the state on, the parser over an index follows the parser over a stream. -/
def Follows (s : State) (p : Reader α) (q : Parser α) (Q : α → State → Prop) : Prop :=
  s.Valid → Agrees s Q (p s) (q s.stream)

/-- A token has been taken since. -/
def Past (s : State) : α → State → Prop :=
  fun _ t => s.pos < t.pos

/-- If the answer is positive, a token has been taken since. -/
def PastIf (s : State) : Bool → State → Prop :=
  fun taken t => taken = true → s.pos < t.pos

/-- If there is an answer, a token has been taken since. -/
def PastIfSome (s : State) : Option α → State → Prop :=
  fun found t => found.isSome = true → s.pos < t.pos

/-- Nothing is said of where the reading ends. -/
def Anywhere : α → State → Prop :=
  fun _ _ => True

variable {s t : State} {p : Reader α} {q : Parser α} {P Q : α → State → Prop} {R : β → State → Prop}

theorem Follows.mono (h : Follows s p q P) (himp : ∀ a t, s.Leads t → P a t → Q a t) :
    Follows s p q Q := by
  intro hvalid
  cases h hvalid with
  | ok h h' hleads hP => exact .ok h h' hleads (himp _ _ hleads hP)
  | refused h h' hleads hfault => exact .refused h h' hleads hfault

theorem Follows.anywhere (h : Follows s p q P) : Follows s p q Anywhere :=
  h.mono fun _ _ _ _ => trivial

/-- A reading that begins after a token has been taken ends after it too. -/
theorem Follows.past (h : Follows t p q P) (hlt : s.pos < t.pos) : Follows t p q (Past s) :=
  h.mono fun _ _ hleads _ => Nat.lt_of_lt_of_le hlt hleads.le

theorem Follows.bind {f : α → Reader β} {g : α → Parser β} (h : Follows s p q P)
    (hnext : ∀ a t, s.Leads t → P a t → Follows t (f a) (g a) R) : Follows s (p >>= f) (q >>= g) R := by
  intro hvalid
  cases h hvalid with
  | @ok a t h h' hleads hP =>
    rw [bind_of_ok h, bind_of_ok h']
    cases hnext a t hleads hP (hvalid.of_leads hleads) with
    | ok h h' hleads' hR => exact .ok h h' (hleads.trans hleads') hR
    | refused h h' hleads' hfault => exact .refused h h' (hleads.trans hleads') hfault
  | refused h h' hleads hfault =>
    rw [bind_of_error h, bind_of_error h']
    exact .refused rfl rfl hleads hfault

/-- A reading that takes a token takes one after all that stands before it. -/
theorem Follows.past_of_leads (h : Follows t p q (Past t)) (hleads : s.Leads t) :
    Follows t p q (Past s) :=
  h.mono fun _ _ _ hlt => Nat.lt_of_le_of_lt hleads.le hlt

/-- After a token has been taken it does not matter where the reading ends. -/
theorem Follows.bind_past {f : α → Reader β} {g : α → Parser β} (h : Follows s p q (Past s))
    (hnext : ∀ a t, s.Leads t → s.pos < t.pos → Follows t (f a) (g a) Anywhere) :
    Follows s (p >>= f) (q >>= g) (Past s) :=
  h.bind fun a t hleads hlt => (hnext a t hleads hlt).past hlt

/-- Nothing comes after a reading that fails. -/
theorem Follows.bind_of_fails {f : α → Reader β} {g : α → Parser β}
    (h : Follows s p q fun _ _ => False) : Follows s (p >>= f) (q >>= g) R :=
  h.bind fun _ _ _ hfalse => hfalse.elim

theorem follows_pure {a : α} (h : Q a s) : Follows s (pure a) (pure a) Q :=
  fun _ => .ok rfl rfl .refl h

theorem Follows.get_bind {f : State → Reader α} (h : Follows s (f s) q Q) : Follows s (get >>= f) q Q := h

theorem follows_ite {c : Prop} [Decidable c] {p' : Reader α} {q' : Parser α}
    (hpos : c → Follows s p q Q) (hneg : ¬ c → Follows s p' q' Q) :
    Follows s (if c then p else p') (if c then q else q') Q := by
  split
  · next hc => exact hpos hc
  · next hc => exact hneg hc

end Follows

section Tokens

variable {α β : Type} {s : State} {Q : α → State → Prop} {kind : TokenKind}

theorem State.Valid.getElem?_eq (h : s.Valid) : s.tokens[s.pos]? = some s.stream.head := by
  rw [← List.head?_drop, h.drop_eq, List.head?_cons]

theorem State.Valid.peek_eq (h : s.Valid) : peek s = .ok s.stream.head s := by
  have hindex : min (s.pos + 0) (s.tokens.length - 1) = s.pos := by
    have hlt := h.lt
    omega
  simp only [peek, peekAt, hindex, h.getElem?_eq]

theorem State.Valid.peekAt_one_eq (h : s.Valid) (hhead : s.stream.head.kind ≠ .eof) :
    peekAt 1 s = .ok s.stream.second s := by
  have hmoved := h.of_leads (h.leads_moved hhead)
  have hindex : min (s.pos + 1) (s.tokens.length - 1) = s.pos + 1 := by
    have hlt : s.pos + 1 < s.tokens.length := hmoved.lt
    omega
  have htoken : s.tokens[s.pos + 1]? = some s.stream.second := by
    have hdrop : s.tokens.drop (s.pos + 1) = s.moved.stream.head :: _ := hmoved.drop_eq
    rw [← List.head?_drop, hdrop, h.stream_moved hhead]
    rfl
  simp only [peekAt, hindex, htoken]

theorem Follows.of_peek_bind {p : Reader β} {g : Token → Parser β} {R : β → State → Prop}
    (h : Follows s p (g s.stream.head) R) : Follows s p (Parser.peek >>= g) R := h

/-- Both parsers look at the same token. -/
theorem Follows.peek_bind {f : Token → Reader β} {g : Token → Parser β} {R : β → State → Prop}
    (h : Follows s (f s.stream.head) (g s.stream.head) R) :
    Follows s (peek >>= f) (Parser.peek >>= g) R := by
  intro hvalid
  rw [bind_of_ok hvalid.peek_eq]
  exact h hvalid

/-- Both parsers look at the same second token, if the first one is as it has to be. -/
theorem Follows.startsPair_bind {first second : Token → Bool} {f : Bool → Reader β} {g : Token → Parser β}
    {R : β → State → Prop} (hfirst : ∀ token, first token = true → token.kind ≠ .eof)
    (h : Follows s (f (first s.stream.head && second s.stream.second)) (g s.stream.second) R) :
    Follows s (startsPair first second >>= f) (Parser.peekSecond >>= g) R := by
  intro hvalid
  have hpair : startsPair first second s = .ok (first s.stream.head && second s.stream.second) s := by
    rw [startsPair, bind_of_ok hvalid.peek_eq]
    cases hhead : first s.stream.head with
    | false => rfl
    | true =>
      rw [if_pos rfl, bind_of_ok (hvalid.peekAt_one_eq (hfirst _ hhead))]
      rfl
  rw [bind_of_ok hpair]
  exact h hvalid

theorem follows_failAt {fault : SyntaxFault} {token : Token} (hfault : fault ≠ .tooDeep) :
    Follows s (failAt fault token) (Parser.failAt fault token) Q :=
  fun _ => .refused rfl rfl .refl hfault

theorem follows_fail {fault : SyntaxFault} (hfault : fault ≠ .tooDeep) :
    Follows s (fail fault) (Parser.fail fault) Q := by
  intro hvalid
  rw [fail, bind_of_ok hvalid.peek_eq]
  exact .refused rfl rfl .refl hfault

theorem State.Valid.take_eq (h : s.Valid) (hhead : s.stream.head.kind ≠ .eof) :
    take s = .ok s.stream.head s.moved := by
  have hlt : s.pos + 1 < s.tokens.length := (h.of_leads (h.leads_moved hhead)).lt
  rw [take, bind_of_ok h.peek_eq]
  change (if s.pos + 1 < s.tokens.length then _ else _ : Reader Token) s = _
  rw [if_pos hlt]
  rfl

theorem follows_take (hhead : s.stream.head.kind ≠ .eof) :
    Follows s take Parser.next fun token t =>
      token = s.stream.head ∧ t.stream = s.stream.tail ∧ s.pos < t.pos := by
  intro hvalid
  have hstream := hvalid.stream_moved hhead
  refine .ok (hvalid.take_eq hhead) ?_ (hvalid.leads_moved hhead) ⟨rfl, hstream, Nat.lt_succ_self _⟩
  rw [hstream]
  rfl

theorem follows_take_past (hhead : s.stream.head.kind ≠ .eof) : Follows s take Parser.next (Past s) :=
  (follows_take hhead).mono fun _ _ _ h => h.2.2

theorem State.Valid.next_eq_take (h : s.Valid) (hhead : s.stream.head.kind ≠ .eof) : next s = take s := by
  rw [next, bind_of_ok h.peek_eq, if_neg hhead]

theorem follows_next_moved (hhead : s.stream.head.kind ≠ .eof) :
    Follows s next Parser.next fun token t =>
      token = s.stream.head ∧ t.stream = s.stream.tail ∧ s.pos < t.pos := by
  intro hvalid
  rw [hvalid.next_eq_take hhead]
  exact follows_take hhead hvalid

theorem follows_next_past (hhead : s.stream.head.kind ≠ .eof) : Follows s next Parser.next (Past s) :=
  (follows_next_moved hhead).mono fun _ _ _ h => h.2.2

theorem follows_next :
    Follows s next Parser.next fun token t => token.kind ≠ .eof → s.pos < t.pos := by
  by_cases heof : s.stream.head.kind = .eof
  · intro hvalid
    rw [next, bind_of_ok hvalid.peek_eq, if_pos heof]
    refine .ok rfl ?_ .refl fun hnot => absurd heof hnot
    exact congrArg (EStateM.Result.ok _) (hvalid.stream_tail_of_eof heof)
  · exact (follows_next_past heof).mono fun _ _ _ hlt _ => hlt

theorem follows_skipIf {condition : Token → Bool}
    (hcondition : ∀ token, condition token = true → token.kind ≠ .eof) :
    Follows s (skipIf condition) (Parser.skipIf condition) (PastIf s) := by
  intro hvalid
  rw [skipIf, bind_of_ok hvalid.peek_eq, Parser.skipIf]
  by_cases hskips : condition s.stream.head = true
  · rw [if_pos hskips, if_pos hskips]
    have htaken := (follows_take_past (hcondition _ hskips)).bind (f := fun _ => pure true)
      (g := fun _ => pure true) (R := PastIf s) fun _ _ _ hlt => follows_pure fun _ => hlt
    exact htaken hvalid
  · rw [if_neg hskips, if_neg hskips]
    exact .ok rfl rfl .refl fun h => absurd h Bool.false_ne_true

theorem follows_skipKind (hkind : kind ≠ .eof) :
    Follows s (skipKind kind) (Parser.skipKind kind) (PastIf s) :=
  follows_skipIf fun _ h heof => hkind ((of_decide_eq_true h).symm.trans heof)

theorem kind_ne_eof_of_isSymbol {token : Token} {name : String} (h : token.isSymbol name = true) :
    token.kind ≠ .eof := by
  have hkind : token.kind = .symbol := congrArg Prod.fst (Token.isSymbol_iff.mp h)
  exact fun heof => by cases hkind.symm.trans heof

theorem kind_ne_eof_of_isOperator {token : Token} {op : String} (h : token.isOperator op = true) :
    token.kind ≠ .eof := by
  have hkind : token.kind = .operator := congrArg Prod.fst (Token.isOperator_iff.mp h)
  exact fun heof => by cases hkind.symm.trans heof

theorem follows_skipSymbol {name : String} :
    Follows s (skipSymbol name) (Parser.skipSymbol name) (PastIf s) :=
  follows_skipIf fun _ => kind_ne_eof_of_isSymbol

theorem follows_skipOperator {op : String} :
    Follows s (skipOperator op) (Parser.skipOperator op) (PastIf s) :=
  follows_skipIf fun _ => kind_ne_eof_of_isOperator

theorem follows_expect {what : String} (hkind : kind ≠ .eof) :
    Follows s (expect kind what) (Parser.expect kind what) (Past s) := by
  intro hvalid
  rw [expect, bind_of_ok hvalid.peek_eq, Parser.expect]
  by_cases hhead : s.stream.head.kind = kind
  · rw [if_pos hhead, if_pos hhead]
    exact follows_next_past (hhead ▸ hkind) hvalid
  · rw [if_neg hhead, if_neg hhead]
    exact .refused rfl rfl .refl (by simp)

theorem follows_expectSymbol {what : String} :
    Follows s (expectSymbol what) (Parser.expectSymbol what) (Past s) :=
  (follows_expect (by decide)).bind_past fun _ _ _ _ => follows_pure trivial

theorem follows_expectKeyword {keyword : String} :
    Follows s (expectKeyword keyword) (Parser.expectKeyword keyword) (Past s) :=
  follows_skipSymbol.bind fun _ _ _ hskipped => follows_ite (fun h => follows_pure (hskipped h)) fun _ =>
    .peek_bind (follows_fail (by simp))

theorem follows_closeTag {name : String} :
    Follows s (closeTag name) (Parser.closeTag name) (Past s) :=
  follows_skipSymbol.bind fun _ _ hleads _ => (follows_expect (by decide)).bind fun _ _ _ hlt =>
    follows_pure (Nat.lt_of_le_of_lt hleads.le hlt)

theorem follows_skipOneOf {operators : List (String × α)} :
    Follows s (skipOneOf operators) (Expression.skipOneOf operators) (PastIfSome s) := by
  intro hvalid
  rw [skipOneOf, bind_of_ok hvalid.peek_eq, Expression.skipOneOf]
  cases hfound : operators.find? fun entry => s.stream.head.isOperator entry.1 with
  | none => exact .ok rfl rfl .refl fun h => absurd h Bool.false_ne_true
  | some entry =>
    have hhead := kind_ne_eof_of_isOperator
      (List.find?_some (p := fun entry : String × α => s.stream.head.isOperator entry.1) hfound)
    have htaken := (follows_take_past hhead).bind (f := fun _ => pure (some entry.2))
      (g := fun _ => pure (some entry.2)) (R := PastIfSome s) fun _ _ _ hlt => follows_pure fun _ => hlt
    exact htaken hvalid

end Tokens

section Loops

variable {α σ : Type} {s t : State} {step : σ → Reader (Step σ α)} {step' : σ → Parser (Step σ α)}

/-- If the loop goes on, a token has been taken since. -/
def Advances (s : State) : Step σ α → State → Prop
  | .more _, t => s.pos < t.pos
  | .done _, _ => True

theorem State.Leads.length_pending_lt (h : s.Leads t) (hlt : s.pos < t.pos) :
    t.stream.pending.length < s.stream.pending.length := by
  have hstop := h.stop
  rw [State.stop, State.stop] at hstop
  omega

/-- Each round takes a token, so that there are no more rounds than tokens. -/
theorem follows_iterateFrom (hstep : ∀ a t, s.Leads t → Follows t (step a) (step' a) (Advances t))
    {bound : Nat} (hbound : s.stream.pending.length < bound) (a : σ) :
    Follows s (loop step a) (Parser.iterateFrom step' bound a) Anywhere := by
  induction bound generalizing s a with
  | zero => cases hbound
  | succ bound ih =>
    intro hvalid
    rw [loop, Parser.iterateFrom]
    cases hstep a s .refl hvalid with
    | @ok next t h h' hleads hadvances =>
      rw [h, bind_of_ok h']
      cases next with
      | done b => exact .ok rfl rfl hleads trivial
      | more a =>
        have hrest := ih (fun a u hu => hstep a u (hleads.trans hu))
          (Nat.lt_of_lt_of_le (hleads.length_pending_lt hadvances) (Nat.le_of_lt_succ hbound)) a
        dsimp only
        -- The round has taken a token, so that the loop does not halt after it.
        rw [dif_pos (hvalid.left_lt hleads hadvances)]
        cases hrest (hvalid.of_leads hleads) with
        | ok h h' hleads' _ => exact .ok h h' (hleads.trans hleads') trivial
        | refused h h' hleads' hfault => exact .refused h h' (hleads.trans hleads') hfault
    | refused h h' hleads hfault =>
      rw [h, bind_of_error h']
      exact .refused rfl rfl hleads hfault

theorem follows_loop (hstep : ∀ a t, s.Leads t → Follows t (step a) (step' a) (Advances t)) (a : σ) :
    Follows s (loop step a) (Parser.iterate step' a) Anywhere :=
  fun hvalid => follows_iterateFrom hstep (Nat.lt_succ_self _) a hvalid

theorem follows_commaSeparated {close : TokenKind} {what : String} {isFirst : σ → Bool}
    {item : σ → Reader σ} {item' : σ → Parser σ} (hclose : close ≠ .eof)
    (hitem : ∀ a t, s.Leads t → Follows t (item a) (item' a) (Past t)) (a : σ) :
    Follows s (commaSeparated close what isFirst item a)
      (Parser.commaSeparated close what isFirst item' a) Anywhere := by
  refine follows_loop (fun a t ht => ?_) a
  refine (follows_skipKind hclose).bind fun _ u hu _ => ?_
  have hmore {v : State} (hv : t.Leads v) :
      Follows v (do return Step.more (← item a) : Reader (Step σ σ))
        (do return .more (← item' a)) (Advances t) :=
    (hitem a v (ht.trans hv)).bind fun _ _ _ hlt => follows_pure (Nat.lt_of_le_of_lt hv.le hlt)
  refine follows_ite (fun _ => follows_pure trivial) fun _ => follows_ite (fun _ => hmore hu) fun _ => ?_
  refine (follows_expect (by decide)).bind fun _ v hv _ => ?_
  refine (follows_skipKind hclose).bind fun _ w hw _ => ?_
  exact follows_ite (fun _ => follows_pure trivial) fun _ => hmore ((hu.trans hv).trans hw)

theorem follows_names {what : String} : Follows s (names what) (Parser.names what) (Past s) := by
  refine follows_expectSymbol.bind_past fun first t _ _ => follows_loop (fun names u _ => ?_) _
  refine (follows_skipKind (by decide)).bind fun _ v _ hskipped => ?_
  refine follows_ite (fun h => ?_) fun _ => follows_pure trivial
  refine follows_expectSymbol.bind fun name w hw _ => follows_pure ?_
  exact Nat.lt_of_lt_of_le (hskipped h) hw.le

end Loops

end IndexParser

end TemplateManifest
