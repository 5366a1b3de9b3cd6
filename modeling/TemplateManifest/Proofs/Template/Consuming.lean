import TemplateManifest.Proofs.Template.Grammar
import TemplateManifest.Proofs.Template.Reading

/-!
What a parser takes from a stream. A parser that succeeds leaves the stream after some tokens; what
holds of these tokens, of its value and of the token that it stops at is said in one predicate, and
every way to put parsers together has one lemma.
-/

namespace TemplateManifest

/-- A stream is its first token and the stream after it, unless it is at the end of the source. -/
theorem TokenStream.eq_after_head {s : TokenStream} (hlast : s.last.kind = .eof)
    (hhead : s.head.kind ≠ .eof) : s = s.tail.after [s.head] := by
  obtain ⟨pending, last⟩ := s
  cases pending with
  | nil => exact absurd hlast hhead
  | cons token pending => rfl

namespace Parser

variable {α β σ : Type}

/-- When the parser succeeds on a stream of which `H` holds, it has taken tokens that stand in the
    relation `Q` to its value and to the stream that it leaves. -/
def Consumes (p : Parser α) (H : TokenStream → Prop) (Q : List Token → α → TokenStream → Prop) :
    Prop :=
  ∀ s a t, s.last.kind = .eof → H s → p s = .ok a t → ∃ consumed, s = t.after consumed ∧ Q consumed a t

section

variable {p : Parser α} {H H' : TokenStream → Prop} {Q Q' : List Token → α → TokenStream → Prop}
  {R : List Token → β → TokenStream → Prop}

theorem Consumes.mono (h : p.Consumes H Q) (hH : ∀ s, H' s → H s)
    (hQ : ∀ consumed a t, Q consumed a t → Q' consumed a t) : p.Consumes H' Q' := by
  intro s a t hlast hs hp
  obtain ⟨consumed, heq, hQ'⟩ := h s a t hlast (hH _ hs) hp
  exact ⟨consumed, heq, hQ _ _ _ hQ'⟩

theorem Consumes.anywhere (h : p.Consumes (fun _ => True) Q) : p.Consumes H Q :=
  h.mono (fun _ _ => trivial) fun _ _ _ hQ => hQ

/-- What is known of the stream may be used throughout. -/
theorem consumes_of_stream (h : ∀ s, H s → p.Consumes (· = s) Q) : p.Consumes H Q :=
  fun s a t hlast hs hp => h s hs s a t hlast rfl hp

theorem Consumes.bind {next : α → Parser β} (h : p.Consumes H Q)
    (hnext : ∀ consumed a, (next a).Consumes (Q consumed a) fun later b t =>
      R (consumed ++ later) b t) : (p >>= next).Consumes H R := by
  intro s b t hlast hs hp
  obtain ⟨a, u, ha, hb⟩ := bind_eq_ok_iff.mp hp
  obtain ⟨consumed, rfl, hQ⟩ := h s a u hlast hs ha
  obtain ⟨later, rfl, hR⟩ := hnext consumed a u b t hlast hQ hb
  exact ⟨consumed ++ later, (TokenStream.after_append _ _ _).symm, hR⟩

theorem Consumes.bind_of {next : α → Parser β} (h : p.Consumes H Q)
    (hnext : ∀ consumed a t, Q consumed a t → (next a).Consumes (· = t) fun later b t =>
      R (consumed ++ later) b t) : (p >>= next).Consumes H R :=
  h.bind fun consumed a => consumes_of_stream fun t hQ => hnext consumed a t hQ

/-- Nothing follows a parser that fails. -/
theorem Consumes.bind_false {next : α → Parser β} (h : p.Consumes H fun _ _ _ => False) :
    (p >>= next).Consumes H R :=
  h.bind fun _ _ => consumes_of_stream fun _ h => h.elim

theorem consumes_pure {a : α} (h : ∀ s, H s → Q [] a s) : (pure a : Parser α).Consumes H Q := by
  intro s b t _ hs hp
  obtain ⟨rfl, rfl⟩ := pure_eq_ok_iff.mp hp
  exact ⟨[], rfl, h _ hs⟩

theorem consumes_fail (fault : SyntaxFault) : (fail fault : Parser α).Consumes H Q :=
  fun _ _ _ _ _ hp => by cases hp

theorem consumes_failAt (fault : SyntaxFault) (token : Token) :
    (failAt fault token : Parser α).Consumes H Q :=
  fun _ _ _ _ _ hp => by cases hp

theorem consumes_unless_fail {condition : Prop} [Decidable condition] {fault : SyntaxFault}
    {next : PUnit → Parser α} (h : condition → (next ⟨⟩).Consumes H Q) :
    (if condition then next ⟨⟩ else fail fault >>= next).Consumes H Q := by
  split
  · next hcondition => exact h hcondition
  · exact (consumes_fail _).bind_false

theorem consumes_if_fail {condition : Prop} [Decidable condition] {fault : SyntaxFault}
    {next : PUnit → Parser α} (h : ¬ condition → (next ⟨⟩).Consumes H Q) :
    (if condition then fail fault >>= next else next ⟨⟩).Consumes H Q := by
  split
  · exact (consumes_fail _).bind_false
  · next hcondition => exact h hcondition

theorem consumes_peek :
    peek.Consumes H fun consumed token t => consumed = [] ∧ token = t.head ∧ H t := by
  rintro s _ _ _ hs ⟨⟩
  exact ⟨[], rfl, rfl, rfl, hs⟩

theorem consumes_peekSecond :
    peekSecond.Consumes H fun consumed token t => consumed = [] ∧ token = t.second ∧ H t := by
  rintro s _ _ _ hs ⟨⟩
  exact ⟨[], rfl, rfl, rfl, hs⟩

theorem consumes_next (h : ∀ s, H s → s.head.kind ≠ .eof) :
    next.Consumes H fun consumed token t =>
      consumed = [token] ∧ ∃ s, H s ∧ token = s.head ∧ t = s.tail := by
  rintro s _ _ hlast hs ⟨⟩
  exact ⟨_, TokenStream.eq_after_head hlast (h _ hs), rfl, s, hs, rfl, rfl⟩

/-- The end of the source is looked at and stays. -/
theorem consumes_next_or_stay :
    next.Consumes H fun consumed token _ => token.kind = .eof ∨ consumed = [token] := by
  rintro ⟨pending, last⟩ _ _ hlast - ⟨⟩
  cases pending with
  | nil => exact ⟨[], rfl, .inl hlast⟩
  | cons token pending => exact ⟨[token], rfl, .inr rfl⟩

theorem consumes_expect {kind : TokenKind} {what : String} (hkind : kind ≠ .eof) :
    (expect kind what).Consumes H fun consumed token _ => consumed = [token] ∧ token.kind = kind := by
  intro s a t hlast _ hp
  unfold expect at hp
  split at hp <;> cases hp
  next hhead =>
    have heof : s.head.kind ≠ .eof := by
      rwa [hhead]
    exact ⟨_, TokenStream.eq_after_head hlast heof, rfl, hhead⟩

theorem consumes_expectSymbol {what : String} :
    (expectSymbol what).Consumes H fun consumed name _ =>
      ∃ token : Token, consumed = [token] ∧ token.kind = .symbol ∧ token.value = name :=
  (consumes_expect (by decide)).bind fun _ token => consumes_pure fun _ htoken =>
    ⟨token, by rw [List.append_nil]; exact htoken.1, htoken.2, rfl⟩

theorem consumes_skipIf {condition : Token → Bool}
    (h : ∀ token : Token, token.kind = .eof → condition token = false) :
    (skipIf condition).Consumes H fun consumed skipped t =>
      (skipped = true ∧ ∃ token, consumed = [token] ∧ condition token = true) ∨
        (skipped = false ∧ consumed = [] ∧ H t) := by
  intro s a t hlast hs hp
  unfold skipIf at hp
  split at hp <;> cases hp
  · next hcondition =>
    have heof : s.head.kind ≠ .eof := by
      intro heof
      rw [h _ heof] at hcondition
      cases hcondition
    exact ⟨_, TokenStream.eq_after_head hlast heof, .inl ⟨rfl, _, rfl, hcondition⟩⟩
  · exact ⟨[], rfl, .inr ⟨rfl, rfl, hs⟩⟩

theorem consumes_skipKind {kind : TokenKind} (hkind : kind ≠ .eof) :
    (skipKind kind).Consumes H fun consumed skipped t =>
      (skipped = true ∧ ∃ token : Token, consumed = [token] ∧ token.kind = kind) ∨
        (skipped = false ∧ consumed = [] ∧ H t) :=
  (consumes_skipIf fun token heof => decide_eq_false fun h => hkind (h.symm.trans heof)).mono
    (fun _ h => h) fun _ _ _ h => by simpa using h

theorem consumes_skipSymbol {name : String} :
    (skipSymbol name).Consumes H fun consumed skipped t =>
      (skipped = true ∧ ∃ token : Token, consumed = [token] ∧ token.isSymbol name = true) ∨
        (skipped = false ∧ consumed = [] ∧ H t) :=
  consumes_skipIf fun token heof => by simp [Token.isSymbol, heof]

theorem consumes_skipOperator {op : String} :
    (skipOperator op).Consumes H fun consumed skipped t =>
      (skipped = true ∧ ∃ token : Token, consumed = [token] ∧ token.isOperator op = true) ∨
        (skipped = false ∧ consumed = [] ∧ H t) :=
  consumes_skipIf fun token heof => by simp [Token.isOperator, heof]

end

section Iterate

variable {H : TokenStream → Prop}

/-- A repetition keeps a relation between the tokens that it has taken and its state. -/
theorem consumes_iterate {I : List Token → σ → Prop} {Q : List Token → α → TokenStream → Prop}
    {step : σ → Parser (Step σ α)} {state : σ}
    (hstep : ∀ before state, I before state → (step state).Consumes (fun _ => True)
      fun consumed result t =>
        result.Keeps (I (before ++ consumed)) fun a => Q (before ++ consumed) a t)
    (h : I [] state) : (iterate step state).Consumes H Q := by
  have hfrom (bound : Nat) (before : List Token) (state : σ) (hstate : I before state) :
      (iterateFrom step bound state).Consumes (fun _ => True)
        fun consumed a t => Q (before ++ consumed) a t := by
    induction bound generalizing before state with
    | zero => exact consumes_fail _
    | succ bound ih =>
      refine (hstep before state hstate).bind_of fun consumed result t hresult => ?_
      cases result with
      | more state =>
        have hlater := ih (before ++ consumed) state hresult
        simp only [List.append_assoc] at hlater
        exact hlater.anywhere
      | done a => exact consumes_pure fun s hs => by rw [List.append_nil, hs]; exact hresult
  exact Consumes.anywhere fun s => hfrom _ [] state h s

/-- Items between commas, up to the mark that closes them. -/
theorem consumes_commaSeparated {I : List Token → σ → Prop} {item : σ → Parser σ}
    {close : TokenKind} {what : String} {isFirst : σ → Bool} {state : σ} (hclose : close ≠ .eof)
    (hcomma : ∀ before state (token : Token), token.kind = .comma → I before state →
      I (before ++ [token]) state)
    (hitem : ∀ before state, I before state → (item state).Consumes (fun _ => True)
      fun consumed state' _ => I (before ++ consumed) state')
    (h : I [] state) :
    (commaSeparated close what isFirst item state).Consumes H fun consumed state' _ =>
      ∃ inner token, consumed = inner ++ [token] ∧ token.kind = close ∧ I inner state' := by
  have hmore (before : List Token) (state : σ) (hI : I before state) :
      (do return Step.more (← item state) : Parser (Step σ σ)).Consumes (fun _ => True)
        fun consumed result _ => result.Keeps (I (before ++ consumed)) fun state' =>
          ∃ inner token, before ++ consumed = inner ++ [token] ∧ token.kind = close ∧ I inner state' :=
    (hitem before state hI).bind fun _ _ => consumes_pure fun _ hI => by rwa [List.append_nil]
  refine consumes_iterate (I := I) (fun before state hI => ?_) h
  refine (consumes_skipKind hclose).bind_of fun consumed closes t hcloses => ?_
  obtain ⟨rfl, token, rfl, htoken⟩ | ⟨rfl, rfl, -⟩ := hcloses
  · exact consumes_pure fun _ _ => ⟨before, token, by rw [List.append_nil], htoken, hI⟩
  · cases isFirst state with
    | true => exact (hmore before state hI).anywhere
    | false =>
      refine (consumes_expect (by decide)).bind_of fun consumed comma t hconsumed => ?_
      obtain ⟨rfl, hkind⟩ := hconsumed
      have hI' := hcomma before state comma hkind hI
      refine (consumes_skipKind hclose).bind_of fun consumed closes t hcloses => ?_
      obtain ⟨rfl, token, rfl, htoken⟩ | ⟨rfl, rfl, -⟩ := hcloses
      · exact consumes_pure fun _ _ => ⟨before ++ [comma], token, by simp, htoken, hI'⟩
      · exact (hmore _ state hI').mono (fun _ _ => trivial) fun _ _ _ hQ => by simpa using hQ

end Iterate

end Parser

end TemplateManifest
