import TemplateManifest.Proofs.Steps
import TemplateManifest.Template.Stream

/-!
Parsers that read given words. A word is a token without its place; what a parser reads is said for
all tokens that spell the words, wherever they stand, and for all streams after them whose first
word lets the reading end there.
-/

namespace TemplateManifest

/-- A token without its place. -/
abbrev Word := TokenKind × String

/-- The word that a token spells. -/
def Token.word (token : Token) : Word := (token.kind, token.value)

namespace Token

theorem isSymbol_iff {token : Token} {name : String} :
    token.isSymbol name = true ↔ token.word = (.symbol, name) := by
  simp [isSymbol, word]

theorem isOperator_iff {token : Token} {op : String} :
    token.isOperator op = true ↔ token.word = (.operator, op) := by
  simp [isOperator, word]

end Token

namespace TokenStream

/-- The stream with some tokens before it. -/
def after (s : TokenStream) (tokens : List Token) : TokenStream :=
  { s with pending := tokens ++ s.pending }

variable (s : TokenStream) (token : Token) (tokens tokens' : List Token)

@[simp]
theorem after_nil : s.after [] = s := rfl

@[simp]
theorem head_after_cons : (s.after (token :: tokens)).head = token := rfl

@[simp]
theorem tail_after_cons : (s.after (token :: tokens)).tail = s.after tokens := rfl

theorem after_append : s.after (tokens ++ tokens') = (s.after tokens').after tokens := by
  simp [after]

theorem word_head_after :
    (s.after tokens).head.word = (tokens.map Token.word).headD s.head.word := by
  cases tokens <;> rfl

theorem word_second_after_cons :
    (s.after (token :: tokens)).second.word = (tokens.map Token.word).headD s.head.word := by
  cases tokens <;> rfl

theorem length_pending_after :
    (s.after tokens).pending.length = tokens.length + s.pending.length := by
  simp [after]

end TokenStream

namespace Parser

variable {α β σ : Type}

/-- The parser reads the words and gives a value of a kind, if the word after them may end the
    reading. -/
def Reads (p : Parser α) (words : List Word) (ends : Word → Prop) (P : α → Prop) : Prop :=
  ∀ s tokens, tokens.map Token.word = words → ends s.head.word →
    ∃ a, p (s.after tokens) = .ok a s ∧ P a

section

variable {p : Parser α} {words words' : List Word} {ends ends' : Word → Prop} {P P' : α → Prop}
  {Q : β → Prop}

theorem Reads.mono (h : Reads p words ends P) (hends : ∀ w, ends' w → ends w)
    (hP : ∀ a, P a → P' a) : Reads p words ends' P' := by
  intro s tokens htokens hs
  obtain ⟨a, ha, hPa⟩ := h s tokens htokens (hends _ hs)
  exact ⟨a, ha, hP a hPa⟩

theorem reads_pure {a : α} (h : P a) : Reads (pure a) [] ends P := by
  intro s tokens htokens _
  obtain rfl := List.map_eq_nil_iff.mp htokens
  exact ⟨a, rfl, h⟩

theorem Reads.bind {next : α → Parser β} (h : Reads p words ends P)
    (hnext : ∀ a, P a → Reads (next a) words' ends' Q)
    (hends : ∀ w, ends' w → ends (words'.headD w)) :
    Reads (p >>= next) (words ++ words') ends' Q := by
  intro s tokens htokens hs
  obtain ⟨before, after, rfl, rfl, rfl⟩ := List.map_eq_append_iff.mp htokens
  have hhead : ends (s.after after).head.word := by
    rw [TokenStream.word_head_after]
    exact hends _ hs
  obtain ⟨a, ha, hPa⟩ := h (s.after after) before rfl hhead
  obtain ⟨b, hb, hQb⟩ := hnext a hPa s after rfl hs
  refine ⟨b, ?_, hQb⟩
  rw [TokenStream.after_append]
  exact bind_eq_ok_iff.mpr ⟨a, _, ha, hb⟩

/-- A step that takes one word. -/
theorem Reads.bind_cons {next : α → Parser β} {w : Word} (h : Reads p [w] (fun _ => True) P)
    (hnext : ∀ a, P a → Reads (next a) words' ends' Q) :
    Reads (p >>= next) (w :: words') ends' Q :=
  h.bind hnext fun _ _ => trivial

/-- A step that takes nothing. -/
theorem Reads.bind_nil {next : α → Parser β} (h : Reads p [] ends P)
    (hnext : ∀ a, P a → Reads (next a) words' ends' Q)
    (hends : ∀ w, ends' w → ends (words'.headD w)) : Reads (p >>= next) words' ends' Q :=
  List.nil_append words' ▸ h.bind hnext hends

/-- A last step that takes nothing. -/
theorem Reads.bind_last {next : α → Parser β} (h : Reads p words ends P)
    (hnext : ∀ a, P a → Reads (next a) [] ends' Q) (hends : ∀ w, ends' w → ends w) :
    Reads (p >>= next) words ends' Q :=
  List.append_nil words ▸ h.bind hnext hends

theorem Reads.map {f : α → β} (h : Reads p words ends P) (hf : ∀ a, P a → Q (f a)) :
    Reads (do return f (← p)) words ends Q :=
  h.bind_last (fun a ha => reads_pure (hf a ha)) fun _ hw => hw

theorem reads_peek : Reads peek [] ends fun token => ends token.word := by
  intro s tokens htokens hs
  obtain rfl := List.map_eq_nil_iff.mp htokens
  exact ⟨s.head, rfl, hs⟩

/-- Looks at the first of the words. -/
theorem Reads.peek_cons {w : Word} {next : Token → Parser β}
    (h : ∀ token, token.word = w → Reads (next token) (w :: words) ends Q) :
    Reads (peek >>= next) (w :: words) ends Q :=
  (@reads_peek (· = w)).bind_nil h fun _ _ => rfl

theorem reads_peekSecond : Reads peekSecond [] ends fun _ => True := by
  intro s tokens htokens _
  obtain rfl := List.map_eq_nil_iff.mp htokens
  exact ⟨s.second, rfl, trivial⟩

/-- Looks at the word after the first one. -/
theorem Reads.peekSecond_cons {w : Word} {next : Token → Parser β}
    (h : ∀ token, ends' token.word → Reads (next token) (w :: words) ends Q)
    (hends : ∀ w, ends w → ends' (words.headD w)) :
    Reads (peekSecond >>= next) (w :: words) ends Q := by
  intro s tokens htokens hs
  obtain ⟨token, more, rfl, -, rfl⟩ := List.map_eq_cons_iff.mp htokens
  have hsecond : ends' (s.after (token :: more)).second.word := by
    rw [TokenStream.word_second_after_cons]
    exact hends _ hs
  obtain ⟨b, hb, hQb⟩ := h _ hsecond s (token :: more) htokens hs
  exact ⟨b, bind_eq_ok_iff.mpr ⟨_, _, rfl, hb⟩, hQb⟩

theorem reads_next {w : Word} : Reads next [w] ends fun token => token.word = w := by
  intro s tokens htokens _
  obtain ⟨token, rfl, rfl⟩ := List.map_eq_singleton_iff.mp htokens
  exact ⟨token, rfl, rfl⟩

theorem reads_expect {kind : TokenKind} {value what : String} :
    Reads (expect kind what) [(kind, value)] ends fun token => token.word = (kind, value) := by
  intro s tokens htokens _
  obtain ⟨token, rfl, hword⟩ := List.map_eq_singleton_iff.mp htokens
  refine ⟨token, ?_, hword⟩
  rw [expect, TokenStream.head_after_cons, if_pos (show token.kind = kind from congrArg Prod.fst hword)]
  rfl

theorem reads_expectSymbol {what name : String} :
    Reads (expectSymbol what) [(.symbol, name)] ends (· = name) :=
  reads_expect.bind_cons fun _ htoken => reads_pure (congrArg Prod.snd htoken)

section Skip

variable {condition : Token → Bool}

theorem reads_skipIf {w : Word} (h : ∀ token : Token, token.word = w → condition token = true) :
    Reads (skipIf condition) [w] ends (· = true) := by
  intro s tokens htokens _
  obtain ⟨token, rfl, hword⟩ := List.map_eq_singleton_iff.mp htokens
  refine ⟨true, ?_, rfl⟩
  rw [skipIf, TokenStream.head_after_cons, if_pos (h token hword)]
  rfl

theorem reads_skipIf_nil (h : ∀ token : Token, ends token.word → condition token = false) :
    Reads (skipIf condition) [] ends (· = false) := by
  intro s tokens htokens hs
  obtain rfl := List.map_eq_nil_iff.mp htokens
  exact ⟨false, if_neg (Bool.eq_false_iff.mp (h _ hs)), rfl⟩

theorem reads_skipKind {kind : TokenKind} {value : String} :
    Reads (skipKind kind) [(kind, value)] ends (· = true) :=
  reads_skipIf fun _ h => decide_eq_true (congrArg Prod.fst h)

theorem reads_skipKind_nil {kind : TokenKind} (h : ∀ w, ends w → w.1 ≠ kind) :
    Reads (skipKind kind) [] ends (· = false) :=
  reads_skipIf_nil fun _ hw => decide_eq_false (h _ hw)

theorem reads_skipSymbol {name : String} :
    Reads (skipSymbol name) [(.symbol, name)] ends (· = true) :=
  reads_skipIf fun _ h => Token.isSymbol_iff.mpr h

theorem reads_skipSymbol_nil {name : String} (h : ∀ w, ends w → w ≠ (.symbol, name)) :
    Reads (skipSymbol name) [] ends (· = false) :=
  reads_skipIf_nil fun _ hw => Bool.eq_false_iff.mpr fun hname => h _ hw (Token.isSymbol_iff.mp hname)

theorem reads_skipOperator {op : String} :
    Reads (skipOperator op) [(.operator, op)] ends (· = true) :=
  reads_skipIf fun _ h => Token.isOperator_iff.mpr h

theorem reads_skipOperator_nil {op : String} (h : ∀ w, ends w → w ≠ (.operator, op)) :
    Reads (skipOperator op) [] ends (· = false) :=
  reads_skipIf_nil fun _ hw => Bool.eq_false_iff.mpr fun hop => h _ hw (Token.isOperator_iff.mp hop)

end Skip

theorem reads_expectKeyword {keyword : String} :
    Reads (expectKeyword keyword) [(.symbol, keyword)] ends fun _ => True :=
  reads_skipSymbol.bind_cons fun skipped hskipped => by
    subst hskipped
    exact reads_pure trivial

/-- The end of a tag without the tag's name. -/
theorem reads_closeTag {name value : String} :
    Reads (closeTag name) [(.blockEnd, value)] ends fun _ => True :=
  (@reads_skipSymbol_nil (· = (.blockEnd, value)) name (by rintro _ rfl; simp)).bind_nil
    (fun _ _ => reads_expect.bind_cons fun _ _ => reads_pure trivial) fun _ _ => rfl

/-- The end of a tag after the tag's name. -/
theorem reads_closeTag_named {name value : String} :
    Reads (closeTag name) [(.symbol, name), (.blockEnd, value)] ends fun _ => True :=
  reads_skipSymbol.bind_cons fun _ _ => reads_expect.bind_cons fun _ _ => reads_pure trivial

end

section Iterate

variable {step : σ → Parser (Step σ α)} {state : σ} {words words' : List Word}
  {ends ends' : Word → Prop} {P : α → Prop}

theorem iterateFrom_mono {bound bound' : Nat} {s t : TokenStream} {a : α} (hle : bound ≤ bound')
    (h : iterateFrom step bound state s = .ok a t) : iterateFrom step bound' state s = .ok a t := by
  induction bound generalizing bound' state s with
  | zero => cases h
  | succ bound ih =>
    obtain ⟨bound', rfl⟩ := Nat.exists_eq_add_of_lt hle
    rw [iterateFrom] at h
    obtain ⟨result, u, hstep, h⟩ := bind_eq_ok_iff.mp h
    rw [show bound + bound' + 1 = (bound + bound') + 1 from rfl, iterateFrom]
    refine bind_eq_ok_iff.mpr ⟨result, u, hstep, ?_⟩
    cases result with
    | more state => exact ih (by omega) h
    | done a => exact h

/-- A step that takes tokens and goes on. -/
theorem iterate_of_more {state' : σ} {s u t : TokenStream} {a : α}
    (hstep : step state s = .ok (.more state') u) (hlength : u.pending.length < s.pending.length)
    (h : iterate step state' u = .ok a t) : iterate step state s = .ok a t := by
  rw [iterate, iterateFrom]
  exact bind_eq_ok_iff.mpr ⟨_, u, hstep, iterateFrom_mono hlength h⟩

theorem iterate_of_done {s t : TokenStream} {a : α} (hstep : step state s = .ok (.done a) t) :
    iterate step state s = .ok a t := by
  rw [iterate, iterateFrom]
  exact bind_eq_ok_iff.mpr ⟨_, t, hstep, rfl⟩

/-- A repetition that goes on after some words. -/
theorem reads_iterate_more {S : σ → Prop} (hwords : words ≠ [])
    (hstep : Reads (step state) words ends fun result => ∃ state', result = .more state' ∧ S state')
    (hrest : ∀ state', S state' → Reads (iterate step state') words' ends' P)
    (hends : ∀ w, ends' w → ends (words'.headD w)) :
    Reads (iterate step state) (words ++ words') ends' P := by
  intro s tokens htokens hs
  obtain ⟨before, after, rfl, rfl, rfl⟩ := List.map_eq_append_iff.mp htokens
  have hhead : ends (s.after after).head.word := by
    rw [TokenStream.word_head_after]
    exact hends _ hs
  obtain ⟨_, hmore, state', rfl, hstate'⟩ := hstep (s.after after) before rfl hhead
  obtain ⟨a, ha, hPa⟩ := hrest state' hstate' s after rfl hs
  refine ⟨a, ?_, hPa⟩
  rw [TokenStream.after_append]
  refine iterate_of_more hmore ?_ ha
  have hlength : 0 < before.length := List.length_pos_iff.mpr fun hnil => hwords (by simp [hnil])
  rw [TokenStream.length_pending_after _ before]
  omega

/-- A repetition that goes on after some words, in a chain of steps. -/
theorem reads_iterate_bind_more {β : Type} {next : α → Parser β} {S : σ → Prop} {Q : β → Prop}
    (hwords : words ≠ [])
    (hstep : Reads (step state) words ends fun result => ∃ state', result = .more state' ∧ S state')
    (hrest : ∀ state', S state' → Reads (iterate step state' >>= next) words' ends' Q)
    (hends : ∀ w, ends' w → ends (words'.headD w)) :
    Reads (iterate step state >>= next) (words ++ words') ends' Q := by
  intro s tokens htokens hs
  obtain ⟨before, after, rfl, rfl, rfl⟩ := List.map_eq_append_iff.mp htokens
  have hhead : ends (s.after after).head.word := by
    rw [TokenStream.word_head_after]
    exact hends _ hs
  obtain ⟨_, hmore, state', rfl, hstate'⟩ := hstep (s.after after) before rfl hhead
  obtain ⟨b, hb, hQb⟩ := hrest state' hstate' s after rfl hs
  obtain ⟨a, t, ha, hnext⟩ := bind_eq_ok_iff.mp hb
  refine ⟨b, ?_, hQb⟩
  rw [TokenStream.after_append]
  refine bind_eq_ok_iff.mpr ⟨a, t, iterate_of_more hmore ?_ ha, hnext⟩
  have hlength : 0 < before.length := List.length_pos_iff.mpr fun hnil => hwords (by simp [hnil])
  rw [TokenStream.length_pending_after _ before]
  omega

theorem reads_iterate_done
    (hstep : Reads (step state) words ends fun result => ∃ a, result = .done a ∧ P a) :
    Reads (iterate step state) words ends P := by
  intro s tokens htokens hs
  obtain ⟨_, hdone, a, rfl, hPa⟩ := hstep s tokens htokens hs
  exact ⟨a, iterate_of_done hdone, hPa⟩

end Iterate

section Leads

/-- The parser reads the words and comes to a point from where `loop` goes on with a value of a
    kind. -/
def Leads (p : Parser α) (loop : β → Parser α) (words : List Word) (ends : Word → Prop)
    (P : β → Prop) : Prop :=
  ∀ s tokens, tokens.map Token.word = words → ends s.head.word →
    ∃ b, P b ∧ ∀ a t, loop b s = .ok a t → p (s.after tokens) = .ok a t

variable {p : Parser α} {step : σ → Parser (Step σ α)} {words words' : List Word}
  {ends ends' : Word → Prop} {P P' : σ → Prop} {Q : α → Prop}

theorem Leads.of_reads {first : Parser σ} {loop : σ → Parser α} (h : Reads first words ends P) :
    Leads (first >>= loop) loop words ends P := by
  intro s tokens htokens hs
  obtain ⟨b, hb, hPb⟩ := h s tokens htokens hs
  exact ⟨b, hPb, fun a t hloop => bind_eq_ok_iff.mpr ⟨b, s, hb, hloop⟩⟩

/-- One more turn of a repetition. -/
theorem Leads.more (h : Leads p (iterate step) words ends P) (hwords : words' ≠ [])
    (hstep : ∀ state, P state →
      Reads (step state) words' ends' fun result => ∃ state', result = .more state' ∧ P' state')
    (hends : ∀ w, ends' w → ends (words'.headD w)) :
    Leads p (iterate step) (words ++ words') ends' P' := by
  intro s tokens htokens hs
  obtain ⟨before, after, rfl, rfl, rfl⟩ := List.map_eq_append_iff.mp htokens
  have hhead : ends (s.after after).head.word := by
    rw [TokenStream.word_head_after]
    exact hends _ hs
  obtain ⟨state, hstate, hp⟩ := h (s.after after) before rfl hhead
  obtain ⟨_, hmore, state', rfl, hstate'⟩ := hstep state hstate s after rfl hs
  refine ⟨state', hstate', fun a t hloop => ?_⟩
  rw [TokenStream.after_append]
  refine hp a t (iterate_of_more hmore ?_ hloop)
  have hlength : 0 < after.length := List.length_pos_iff.mpr fun hnil => hwords (by simp [hnil])
  rw [TokenStream.length_pending_after _ after]
  omega

/-- The end of a repetition. -/
theorem Leads.done (h : Leads p (iterate step) words ends P)
    (hstep : ∀ state, P state →
      Reads (step state) [] ends' fun result => ∃ a, result = .done a ∧ Q a)
    (hends : ∀ w, ends' w → ends w) : Reads p words ends' Q := by
  intro s tokens htokens hs
  obtain ⟨state, hstate, hp⟩ := h s tokens htokens (hends _ hs)
  obtain ⟨_, hdone, a, rfl, hQa⟩ := hstep state hstate s [] rfl hs
  exact ⟨a, hp a s (iterate_of_done hdone), hQa⟩

end Leads

section CommaSeparated

/-- A comma between items. -/
abbrev comma : Word := (.comma, ",")

/-- Items with commas between them, up to the mark that closes them. -/
def listed (close : Word) : List (List Word) → List Word
  | [] => [close]
  | item :: items => item ++ (items.flatMap (comma :: ·) ++ [close])

variable {ι : Type} {kind : TokenKind} {value what : String} {isFirst : σ → Bool}
  {item : σ → Parser σ} {spelling : ι → List Word} {S : List ι → σ → Prop} {ends : Word → Prop}

/-- Each of the items is read onto those before it, where a comma or the closing mark follows. -/
def ReadsItems (kind : TokenKind) (isFirst : σ → Bool) (item : σ → Parser σ)
    (spelling : ι → List Word) (S : List ι → σ → Prop) (items : List ι) : Prop :=
  (∀ before state, S before state → isFirst state = before.isEmpty) ∧
  ∀ before x after, before ++ x :: after = items →
    (∀ w ∈ (spelling x).head?, w.1 ≠ kind) ∧ spelling x ≠ [] ∧
    ∀ state, S before state → Reads (item state) (spelling x)
      (fun w => w = comma ∨ w.1 = kind) (S (before ++ [x]))

theorem ReadsItems.step {x : ι} {before after : List ι} {state : σ}
    (h : ReadsItems kind isFirst item spelling S (before ++ x :: after)) (hstate : S before state) :
    Reads (do return Step.more (← item state) : Parser (Step σ σ)) (spelling x)
      (fun w => w = comma ∨ w.1 = kind)
      fun result => ∃ state', result = .more state' ∧ S (before ++ [x]) state' := by
  obtain ⟨-, -, hitem⟩ := h.2 before x after rfl
  exact (hitem state hstate).map fun state' hstate' => ⟨state', rfl, hstate'⟩

theorem isEmpty_eq_of_map_eq {α β : Type} {f : α → β} {items items' : List α}
    (h : items.map f = items'.map f) : items.isEmpty = items'.isEmpty := by
  have hempty := congrArg (· = []) h
  simp only [List.map_eq_nil_iff] at hempty
  rw [Bool.eq_iff_iff, List.isEmpty_iff, List.isEmpty_iff, hempty]

/-- Items that are added one by one to a list, each alike the one that its words spell. -/
theorem ReadsItems.of_map {f : ι → β} {items : List ι} {item : List ι → Parser (List ι)}
    (h : ∀ x ∈ items, (∀ w ∈ (spelling x).head?, w.1 ≠ kind) ∧ spelling x ≠ [] ∧
      ∀ found, Reads (item found) (spelling x) (fun w => w = comma ∨ w.1 = kind)
        fun found' => ∃ y, f y = f x ∧ found' = found ++ [y]) :
    ReadsItems kind List.isEmpty item spelling (fun before found => found.map f = before.map f)
      items := by
  refine ⟨fun before found hfound => isEmpty_eq_of_map_eq hfound, fun before x after hsplit => ?_⟩
  obtain ⟨hhead, hne, hitem⟩ := h x (hsplit ▸ by simp)
  refine ⟨hhead, hne, fun found hfound => (hitem found).mono (fun _ hw => hw) ?_⟩
  rintro _ ⟨y, hy, rfl⟩
  simp only [List.map_append, List.map_singleton] at hfound ⊢
  rw [hfound, hy]

/-- The first word of what follows an item. -/
theorem headD_rest (items : List ι) (w : Word) :
    ((items.flatMap fun x => comma :: spelling x) ++ [(kind, value)]).headD w = comma ∨
      (((items.flatMap fun x => comma :: spelling x) ++ [(kind, value)]).headD w).1 = kind := by
  cases items with
  | nil => exact .inr rfl
  | cons x items => exact .inl rfl

/-- Further items, each after a comma. -/
theorem reads_furtherItems {items before : List ι} {state : σ} (hkind : kind ≠ .comma)
    (h : ReadsItems kind isFirst item spelling S (before ++ items)) (hbefore : before ≠ [])
    (hstate : S before state) :
    Reads (commaSeparated kind what isFirst item state)
      ((items.flatMap fun x => comma :: spelling x) ++ [(kind, value)]) ends
      (S (before ++ items)) := by
  induction items generalizing before state with
  | nil =>
    rw [List.append_nil]
    refine reads_iterate_done (reads_skipKind.bind_cons fun closes hcloses => ?_)
    subst hcloses
    exact reads_pure ⟨state, rfl, hstate⟩
  | cons x items ih =>
    obtain ⟨hhead, hne, -⟩ := h.2 before x items rfl
    have hfirst : isFirst state = false := by
      rw [h.1 before state hstate]
      simpa using hbefore
    have hstep := h.step hstate
    rw [List.flatMap_cons, List.append_assoc]
    rw [List.append_cons before] at h ⊢
    refine @reads_iterate_more _ _ _ _ _ _ (fun w => w = comma ∨ w.1 = kind) _ _ _
      (List.cons_ne_nil _ _) ?_
      (fun state' hstate' => ih h (by simp) hstate') fun w _ => headD_rest items w
    refine (@reads_skipKind_nil (· = comma) kind (by rintro _ rfl; exact hkind.symm)).bind_nil
      (fun closes hcloses => ?_) fun _ _ => rfl
    subst hcloses
    rw [hfirst]
    refine reads_expect.bind_cons fun _ _ =>
      (@reads_skipKind_nil (fun w => w.1 ≠ kind) kind fun _ hw => hw).bind_nil
        (fun closes hcloses => ?_) fun w _ => ?_
    · subst hcloses
      exact hstep
    · obtain ⟨first, rest, hspelling⟩ := List.exists_cons_of_ne_nil hne
      rw [hspelling] at hhead ⊢
      exact hhead first rfl

/-- Items between commas, up to the mark that closes them. -/
theorem reads_commaSeparated {items : List ι} {state : σ} (hkind : kind ≠ .comma)
    (h : ReadsItems kind isFirst item spelling S items) (hstate : S [] state) :
    Reads (commaSeparated kind what isFirst item state)
      (listed (kind, value) (items.map spelling)) ends (S items) := by
  cases items with
  | nil =>
    refine reads_iterate_done (reads_skipKind.bind_cons fun closes hcloses => ?_)
    subst hcloses
    exact reads_pure ⟨state, rfl, hstate⟩
  | cons x items =>
    obtain ⟨hhead, hne, -⟩ := h.2 [] x items rfl
    have hstep := @ReadsItems.step _ _ _ _ _ _ _ _ [] _ _ h hstate
    rw [List.map_cons, listed, List.flatMap_map]
    refine @reads_iterate_more _ _ _ _ _ _ (fun w => w = comma ∨ w.1 = kind) _ _ _ hne ?_
      (fun state' hstate' =>
        @reads_furtherItems _ _ _ _ _ _ _ _ _ _ _ [x] _ hkind h (List.cons_ne_nil x []) hstate')
      fun w _ => headD_rest items w
    refine (@reads_skipKind_nil (fun w => w.1 ≠ kind) kind fun _ hw => hw).bind_nil
      (fun closes hcloses => ?_) fun w _ => ?_
    · subst hcloses
      rw [h.1 [] state hstate]
      exact hstep
    · obtain ⟨first, rest, hspelling⟩ := List.exists_cons_of_ne_nil hne
      rw [hspelling] at hhead ⊢
      exact hhead first rfl

theorem length_lt_listed {items : List (List Word)} {item : List Word} (close : Word)
    (h : item ∈ items) : item.length < (listed close items).length := by
  cases items with
  | nil => cases h
  | cons first items =>
    rw [listed, List.length_append, List.length_append, List.length_singleton]
    rcases List.mem_cons.mp h with rfl | h
    · omega
    · obtain ⟨before, after, rfl⟩ := List.append_of_mem h
      simp only [List.flatMap_append, List.flatMap_cons, List.length_append, List.length_cons]
      omega

end CommaSeparated

end Parser

end TemplateManifest
