import Mathlib.Data.List.Forall2
import TemplateManifest.Proofs.Script.Reading

/-!
Texts that are read as one expression wherever an expression of their level may stand. Each way to
put expressions together has a lemma that says which levels its parts must have.
-/

namespace TemplateManifest

open Text

namespace Script

variable {beyond : Char → Bool}

/-- An expression of a level ends where the text starts: no name, number or accessor goes on there,
    and what comes next completes the operators that bind at least as tightly. -/
structure Ends (beyond : Char → Bool) (level : Nat) (rest : List Char) : Prop where
  name : Lexeme.NameEnds beyond rest
  point : rest.head? = some '.' → 17 ≤ level
  completes : ∀ f t own t' frames, Frame.complete f t = some (own, t') → level ≤ own →
    readOn beyond (.has t (f :: frames)) rest = readOn beyond (.has t' frames) rest

namespace Ends

theorem mono {level level' : Nat} {rest : List Char} (h : Ends beyond level rest)
    (hle : level ≤ level') : Ends beyond level' rest :=
  ⟨h.name, fun hpoint => Nat.le_trans (h.point hpoint) hle, fun f t own t' frames hcomplete hlevel =>
    h.completes f t own t' frames hcomplete (Nat.le_trans hle hlevel)⟩

theorem nil : Ends beyond 1 [] := by
  refine ⟨nofun, nofun, fun f t own t' frames hcomplete hlevel => ?_⟩
  simp only [readOn, Lexeme.split_nil, Option.bind_some, State.run, State.finish,
    settle_of_complete frames hcomplete hlevel]


theorem nameEnds_cons {c : Char} (rest : List Char) (hascii : c.toNat ≤ 127)
    (h : Lexeme.isNamePart (fun _ => false) c = false) : Lexeme.NameEnds beyond (c :: rest) := by
  rintro _ ⟨⟩
  exact (Lexeme.isNamePart_eq_of_toNat_le hascii).trans h

theorem nameEnds_space (rest : List Char) : Lexeme.NameEnds beyond (' ' :: rest) :=
  nameEnds_cons rest (by decide) (by decide)

theorem space {level : Nat} {rest : List Char} (h : Ends beyond level rest) :
    Ends beyond level (' ' :: rest) :=
  ⟨nameEnds_space rest, nofun, h.completes⟩

/-- A mark that completes the operators down to some level ends the expressions of that level. -/
theorem mark {mark rest : List Char} {level : Nat}
    (h : Lexeme.marks.find? (fun other => startsWith other (mark ++ rest)) = some mark)
    (hsettling : State.settlingLevel? mark = some level) : Ends beyond level (mark ++ rest) := by
  have hmark := List.mem_of_find?_eq_some h
  have hpoint : ∀ mark ∈ Lexeme.marks, mark.head? = some '.' →
      State.settlingLevel? mark = none := by
    decide
  obtain ⟨c, text, rfl, -, -, hascii, hname⟩ := Lexeme.head_marks mark hmark
  refine ⟨nameEnds_cons _ hascii hname, fun hhead => ?_,
    fun f t own t' frames hcomplete hlevel => ?_⟩
  · rw [hpoint _ hmark hhead] at hsettling
    cases hsettling
  · rw [readOn_mark _ h, readOn_mark _ h]
    simp only [State.step, State.afterOperand, hsettling, settle_of_complete frames hcomplete hlevel]

theorem cons {c : Char} {rest : List Char} {level : Nat}
    (h : Lexeme.marks.find? (fun other => startsWith other (c :: rest)) = some [c])
    (hsettling : State.settlingLevel? [c] = some level) : Ends beyond level (c :: rest) :=
  mark (List.singleton_append ▸ h) hsettling

/-- Accessors and assignments follow operands. -/
theorem operand {c : Char} (rest : List Char) (h : c ∈ ['.', '(', '[', '=']) :
    Ends beyond 17 (c :: rest) := by
  have hascii : ∀ c ∈ ['.', '(', '[', '='], c.toNat ≤ 127 ∧
      Lexeme.isNamePart (fun _ => false) c = false := by
    simp only [List.forall_mem_cons, List.not_mem_nil, false_implies, implies_true]
    decide
  refine ⟨nameEnds_cons rest (hascii c h).1 (hascii c h).2, fun _ => Nat.le_refl _,
    fun f t own t' frames hcomplete hlevel => ?_⟩
  have hown := Frame.level_le_of_complete hcomplete
  omega

end Ends

/-- The text starts with a character, and it is read as an expression wherever one of its level may
    stand. -/
structure Reads (beyond : Char → Bool) (text : List Char) (level : Nat) (head : Char) (t : Tree) :
    Prop where
  head : text.head? = some head
  reads : ∀ frames rest, demand frames ≤ level → Ends beyond level rest →
    readOn beyond (.expects frames) (text ++ rest) = readOn beyond (.has t frames) rest

namespace Reads

variable {text text' : List Char} {level level' : Nat} {head head' : Char} {t t' : Tree}

theorem mono (h : Reads beyond text level head t) (hle : level' ≤ level) :
    Reads beyond text level' head t :=
  ⟨h.head, fun frames rest hdemand hends =>
    h.reads frames rest (Nat.le_trans hdemand hle) (hends.mono hle)⟩

theorem read_eq (h : Reads beyond text level head t) (hlevel : 1 ≤ level) :
    read beyond text = some t := by
  have hread := (h.mono hlevel).reads [] [] (Nat.le_refl _) .nil
  rwa [List.append_nil] at hread

theorem word {c : Char} (hdigit : c.isDigit = false)
    (hname : ∀ d ∈ c :: text, Lexeme.isNamePart beyond d = true) (hfree : c :: text ∉ reservedWords) :
    Reads beyond (c :: text) 17 c (.atom (.word (c :: text))) := by
  refine ⟨rfl, fun frames rest _ hends => ?_⟩
  have hawait : c :: text ≠ ['a', 'w', 'a', 'i', 't'] := by
    rintro heq
    rw [heq] at hfree
    exact hfree (by decide)
  refine (readOn_lexeme _ (Lexeme.endsBefore_word hdigit hname hends.name)).trans ?_
  simp [State.step, State.operand, hawait, hfree]

theorem numeral (h : Lexeme.IsNumeral text) (hhead : text.head? = some head) :
    Reads beyond text 16 head (.atom (.numeral text)) := by
  refine ⟨hhead, fun frames rest _ hends => ?_⟩
  have hpoint : rest.head? ≠ some '.' := fun hpoint =>
    absurd (hends.point hpoint) (by decide)
  exact readOn_lexeme _ (Lexeme.endsBefore_numeral h hends.name hpoint)

theorem string (value : List Char) :
    Reads beyond (quoteChars value) 17 '"' (.atom (.string (quoteChars value))) :=
  ⟨rfl, fun _ rest _ _ => readOn_lexeme _ (Lexeme.endsBefore_string value rest)⟩

theorem paren (h : Reads beyond text 1 head t) :
    Reads beyond ('(' :: text ++ [')']) 17 '(' t := by
  refine ⟨rfl, fun frames rest _ _ => ?_⟩
  calc readOn beyond (.expects frames) ('(' :: text ++ [')'] ++ rest)
    _ = readOn beyond (.expects (.paren :: frames)) (text ++ ')' :: rest) := by
      rw [List.append_assoc]
      exact readOn_cons _ rfl
    _ = readOn beyond (.has t (.paren :: frames)) (')' :: rest) :=
      h.reads _ _ (Nat.le_refl _) (.cons rfl rfl)
    _ = readOn beyond (.has t frames) rest := readOn_cons _ rfl

theorem member {c : Char} {name : List Char} (h : Reads beyond text 17 head t)
    (hdigit : c.isDigit = false) (hname : ∀ d ∈ c :: name, Lexeme.isNamePart beyond d = true) :
    Reads beyond (text ++ '.' :: c :: name) 17 head (.member t (c :: name)) := by
  have hpoint : c ≠ '.' := Lexeme.ne_of_isNamePart (by decide) (by decide)
    (hname c List.mem_cons_self)
  refine ⟨by simp [h.head], fun frames rest hdemand hends => ?_⟩
  calc readOn beyond (.expects frames) (text ++ '.' :: c :: name ++ rest)
    _ = readOn beyond (.has t frames) ('.' :: c :: (name ++ rest)) := by
      rw [List.append_assoc]
      exact h.reads _ _ hdemand (.operand _ (by decide))
    _ = readOn beyond (.expectsName t frames) ((Lexeme.word (c :: name)).text ++ rest) := by
      refine readOn_cons _ ?_
      simp [Lexeme.marks, startsWith, after?, hpoint.symm]
    _ = readOn beyond (.has (.member t (c :: name)) frames) rest :=
      readOn_lexeme _ (Lexeme.endsBefore_word hdigit hname hends.name)

theorem index (h : Reads beyond text 17 head t) (h' : Reads beyond text' 1 head' t') :
    Reads beyond (text ++ '[' :: text' ++ [']']) 17 head (.index t t') := by
  refine ⟨by simp [h.head], fun frames rest hdemand _ => ?_⟩
  calc readOn beyond (.expects frames) (text ++ '[' :: text' ++ [']'] ++ rest)
    _ = readOn beyond (.has t frames) ('[' :: (text' ++ ']' :: rest)) := by
      simp only [List.append_assoc, List.cons_append, List.nil_append]
      exact h.reads _ _ hdemand (.operand _ (by decide))
    _ = readOn beyond (.expects (.index t :: frames)) (text' ++ ']' :: rest) := readOn_cons _ rfl
    _ = readOn beyond (.has t' (.index t :: frames)) (']' :: rest) :=
      h'.reads _ _ (Nat.le_refl _) (.cons rfl rfl)
    _ = readOn beyond (.has (.index t t') frames) rest := readOn_cons _ rfl

/-- Both operands of an operator bind tightly enough, the right one more tightly than the operator
    itself. -/
theorem operation {op : Operator} {right : Nat} (h : Reads beyond text op.level head t)
    (h' : Reads beyond text' right head' t') (hright : op.level < right) :
    Reads beyond (text ++ ' ' :: op.text.toList ++ ' ' :: text') op.level head (.operation op t t') := by
  have hlow : 3 ≤ op.level ∧ op.level < 14 := by cases op <;> decide
  refine ⟨by simp [h.head], fun frames rest hdemand hends => ?_⟩
  have hmark : Lexeme.marks.find? (fun other =>
      startsWith other (op.text.toList ++ ' ' :: (text' ++ rest))) = some op.text.toList := by
    cases op <;> rfl
  have hsettling : State.settlingLevel? op.text.toList = some op.level := by cases op <;> rfl
  have hop : Operator.ofMark? op.text.toList = some op := by cases op <;> rfl
  calc readOn beyond (.expects frames) (text ++ ' ' :: op.text.toList ++ ' ' :: text' ++ rest)
    _ = readOn beyond (.has t frames) (' ' :: (op.text.toList ++ ' ' :: (text' ++ rest))) := by
      simp only [List.append_assoc, List.cons_append]
      exact h.reads _ _ hdemand (.space (.mark hmark hsettling))
    _ = readOn beyond (.expects (.operation op t :: frames)) (' ' :: (text' ++ rest)) := by
      rw [readOn_space, readOn_mark _ hmark]
      simp [State.step, State.afterOperand, hsettling, State.settled, hop,
        settle_eq_of_demand_le t hdemand hlow.1 hlow.2]
    _ = readOn beyond (.has t' (.operation op t :: frames)) rest := by
      rw [readOn_space]
      exact h'.reads _ _ hright (hends.mono (Nat.le_of_lt hright))
    _ = readOn beyond (.has (.operation op t t') frames) rest :=
      hends.completes _ _ _ _ _ rfl (Nat.le_refl _)

/-- A sign stands before an operand that does not start with the same sign. -/
theorem signed {sign : Sign} (h : Reads beyond text 14 head t) (hhead : head ≠ '=')
    (hsign : sign.text.toList ≠ [head] ∨ sign = .not) :
    Reads beyond (sign.text.toList ++ text) 14 (sign.text.toList.headD ' ') (.signed sign t) := by
  refine ⟨by cases sign <;> rfl, fun frames rest _ hends => ?_⟩
  obtain ⟨tail, rfl⟩ : ∃ tail, text = head :: tail := by
    cases text with
    | nil => cases h.head
    | cons c tail => exact ⟨tail, by rw [Option.some.inj h.head]⟩
  have hmark : Lexeme.marks.find? (fun other =>
      startsWith other (sign.text.toList ++ (head :: tail ++ rest))) = some sign.text.toList := by
    cases sign <;>
      simp_all [Lexeme.marks, startsWith, after?, Sign.text, eq_comm]
  rw [List.append_assoc, readOn_mark _ hmark]
  calc (State.step (.expects frames) (.mark sign.text.toList)).bind
          (readOn beyond · (head :: tail ++ rest))
    _ = readOn beyond (.expects (.signed sign :: frames)) (head :: tail ++ rest) := by
      cases sign <;> rfl
    _ = readOn beyond (.has t (.signed sign :: frames)) rest := h.reads _ _ (Nat.le_refl _) hends
    _ = readOn beyond (.has (.signed sign t) frames) rest :=
      hends.completes _ _ _ _ _ rfl (Nat.le_refl _)

/-- A sign before an operand that starts with the same sign makes one mark with it. -/
theorem counted {sign : Sign} (h : Reads beyond text 14 head t) (hsign : sign ≠ .not) :
    Reads beyond (sign.text.toList ++ (sign.text.toList ++ text)) 14
      (sign.text.toList.headD ' ') (.counted sign t) := by
  refine ⟨by cases sign <;> rfl, fun frames rest _ hends => ?_⟩
  have hmark : Lexeme.marks.find? (fun other =>
      startsWith other (sign.text.toList ++ sign.text.toList ++ (text ++ rest))) =
        some (sign.text.toList ++ sign.text.toList) := by
    cases sign
    · exact absurd rfl hsign
    · rfl
    · rfl
  calc readOn beyond (.expects frames) (sign.text.toList ++ (sign.text.toList ++ text) ++ rest)
    _ = (State.step (.expects frames) (.mark (sign.text.toList ++ sign.text.toList))).bind
          (readOn beyond · (text ++ rest)) := by
      rw [← readOn_mark _ hmark]
      simp only [List.append_assoc]
    _ = readOn beyond (.expects (.counted sign :: frames)) (text ++ rest) := by
      cases sign
      · exact absurd rfl hsign
      · rfl
      · rfl
    _ = readOn beyond (.has t (.counted sign :: frames)) rest := h.reads _ _ (Nat.le_refl _) hends
    _ = readOn beyond (.has (.counted sign t) frames) rest :=
      hends.completes _ _ _ _ _ rfl (Nat.le_refl _)

/-- A conditional binds as loosely as an assignment. -/
theorem conditional {no : List Char} {head'' : Char} {t'' : Tree}
    (h : Reads beyond text 3 head t) (h' : Reads beyond text' 2 head' t')
    (h'' : Reads beyond no 2 head'' t'') :
    Reads beyond (text ++ ' ' :: '?' :: ' ' :: text' ++ ' ' :: ':' :: ' ' :: no) 2 head
      (.conditional t t' t'') := by
  refine ⟨by simp [h.head], fun frames rest hdemand hends => ?_⟩
  calc readOn beyond (.expects frames)
        (text ++ ' ' :: '?' :: ' ' :: text' ++ ' ' :: ':' :: ' ' :: no ++ rest)
    _ = readOn beyond (.has t frames)
          (' ' :: '?' :: ' ' :: (text' ++ ' ' :: ':' :: ' ' :: (no ++ rest))) := by
      simp only [List.append_assoc, List.cons_append]
      exact h.reads _ _ (Nat.le_succ_of_le hdemand) (.space (.cons rfl rfl))
    _ = readOn beyond (.expects (.question t :: frames))
          (text' ++ ' ' :: ':' :: ' ' :: (no ++ rest)) := by
      have hsettle := settle_eq_of_demand_le t (Nat.le_succ_of_le hdemand) (Nat.le_refl 3)
        (by decide)
      rw [readOn_space, readOn_cons _ rfl]
      change (State.settled (settle 3 t frames).1 (settle 3 t frames).2 ['?']).bind _ = _
      rw [hsettle]
      rfl
    _ = readOn beyond (.has t' (.question t :: frames)) (' ' :: ':' :: ' ' :: (no ++ rest)) :=
      h'.reads _ _ (Nat.le_refl _) (.space ((Ends.cons rfl rfl).mono (by decide)))
    _ = readOn beyond (.expects (.otherwise t t' :: frames)) (no ++ rest) := by
      rw [readOn_space]
      exact readOn_cons _ rfl
    _ = readOn beyond (.has t'' (.otherwise t t' :: frames)) rest :=
      h''.reads _ _ (Nat.le_refl _) hends
    _ = readOn beyond (.has (.conditional t t' t'') frames) rest :=
      hends.completes _ _ _ _ _ rfl (Nat.le_refl _)

theorem await (h : Reads beyond text 14 head t) :
    Reads beyond ('a' :: 'w' :: 'a' :: 'i' :: 't' :: ' ' :: text) 14 'a' (.await t) := by
  have hletters : ∀ c ∈ ['a', 'w', 'a', 'i', 't'], c.isAlphanum = true :=
    List.all_eq_true.mp (by decide)
  refine ⟨rfl, fun frames rest _ hends => ?_⟩
  calc readOn beyond (.expects frames) ('a' :: 'w' :: 'a' :: 'i' :: 't' :: ' ' :: text ++ rest)
    _ = readOn beyond (.expects (.await :: frames)) (' ' :: (text ++ rest)) :=
      readOn_lexeme _ (Lexeme.endsBefore_word (by decide)
        (fun d hd => Lexeme.isNamePart_of_isAlphanum (hletters d hd)) (Ends.nameEnds_space _))
    _ = readOn beyond (.has t (.await :: frames)) rest := h.reads _ _ (Nat.le_refl _) hends
    _ = readOn beyond (.has (.await t) frames) rest :=
      hends.completes _ _ _ _ _ rfl (Nat.le_refl _)

theorem assign {name : List Char} (h : Reads beyond text 17 head (.atom (.word name)))
    (h' : Reads beyond text' 2 head' t') :
    Reads beyond (text ++ ' ' :: '=' :: ' ' :: text') 2 head (.assign (.atom (.word name)) t') := by
  refine ⟨by simp [h.head], fun frames rest hdemand hends => ?_⟩
  calc readOn beyond (.expects frames) (text ++ ' ' :: '=' :: ' ' :: text' ++ rest)
    _ = readOn beyond (.has (.atom (.word name)) frames) (' ' :: '=' :: ' ' :: (text' ++ rest)) := by
      simp only [List.append_assoc, List.cons_append]
      exact h.reads _ _ (Nat.le_trans hdemand (by decide)) (.space (.operand _ (by decide)))
    _ = readOn beyond (.expects (.assign (.atom (.word name)) :: frames)) (text' ++ rest) := by
      rw [readOn_space, readOn_cons _ rfl]
      change (if decide (demand frames ≤ 2) then _ else _ : Option State).bind _ = _
      rw [decide_eq_true hdemand]
      rfl
    _ = readOn beyond (.has t' (.assign (.atom (.word name)) :: frames)) rest :=
      h'.reads _ _ (Nat.le_refl _) hends
    _ = readOn beyond (.has (.assign (.atom (.word name)) t') frames) rest :=
      hends.completes _ _ _ _ _ rfl (Nat.le_refl _)

theorem comma (h : Reads beyond text 1 head t) (h' : Reads beyond text' 2 head' t') :
    Reads beyond (text ++ ',' :: ' ' :: text') 1 head (.comma t t') := by
  refine ⟨by simp [h.head], fun frames rest hdemand hends => ?_⟩
  calc readOn beyond (.expects frames) (text ++ ',' :: ' ' :: text' ++ rest)
    _ = readOn beyond (.has t frames) (',' :: ' ' :: (text' ++ rest)) := by
      simp only [List.append_assoc, List.cons_append]
      exact h.reads _ _ hdemand (.cons rfl rfl)
    _ = readOn beyond (.expects (.comma t :: frames)) (text' ++ rest) := by
      rw [readOn_cons _ rfl, State.step, afterOperand_comma t hdemand]
      rfl
    _ = readOn beyond (.has t' (.comma t :: frames)) rest :=
      h'.reads _ _ (Nat.le_refl _) (hends.mono (by decide))
    _ = readOn beyond (.has (.comma t t') frames) rest :=
      hends.completes _ _ _ _ _ rfl (Nat.le_refl _)

end Reads

/-- The texts are read as the expressions, one by one, each as one item between commas. -/
def ReadsAll (beyond : Char → Bool) (texts : List (List Char)) (ts : List Tree) : Prop :=
  List.Forall₂ (fun text t => ∃ head, Reads beyond text 2 head t) texts ts

/-- Reads items between commas up to the mark that closes them. -/
theorem ReadsAll.readOn {texts : List (List Char)} {ts : List Tree} (h : ReadsAll beyond texts ts)
    (listing : Listing) (before : List Tree) (frames : List Frame) (rest : List Char) :
    readOn beyond (.expects (.items listing before :: frames))
        (List.intercalate [',', ' '] texts ++ listing.close :: rest) =
      readOn beyond (.has (listing.tree (before ++ ts)) frames) rest := by
  have hclose : Lexeme.marks.find? (fun other => startsWith other (listing.close :: rest)) =
      some [listing.close] := by
    cases listing <;> rfl
  have hends : Ends beyond 1 (listing.close :: rest) :=
    .cons hclose (by cases listing <;> rfl)
  induction h generalizing before with
  | nil =>
    rw [List.append_nil]
    cases listing <;> exact readOn_cons _ hclose
  | @cons text t texts ts hfirst hrest ih =>
    obtain ⟨head, hfirst⟩ := hfirst
    cases hrest with
    | nil =>
      rw [List.intercalate_singleton, hfirst.reads _ _ (Nat.le_refl _) (hends.mono (by decide))]
      cases listing <;> exact readOn_cons _ hclose
    | cons hsecond hrest =>
      rw [List.intercalate_cons_cons, List.append_assoc, List.append_assoc, List.cons_append,
        hfirst.reads _ _ (Nat.le_refl _) ((Ends.cons rfl rfl).mono (by decide)), readOn_cons _ rfl]
      have hread := ih (before ++ [t])
      rw [List.append_assoc] at hread
      cases listing <;> exact hread

/-- The text is read as one entry of an object. -/
def ReadsEntry (beyond : Char → Bool) (text : List Char) (entry : Tree × Tree) : Prop :=
  ∀ before frames rest, Ends beyond 2 rest →
    readOn beyond (.expectsKey before frames) (text ++ rest) =
      readOn beyond (.has entry.2 (.entry before entry.1 :: frames)) rest

namespace ReadsEntry

variable {text : List Char} {head : Char} {t : Tree}

/-- An entry whose key is a word, a numeral or a string. -/
theorem plain {lexeme : Lexeme} {key : Tree}
    (hkey : ∀ rest, lexeme.EndsBefore beyond (':' :: rest))
    (hstep : ∀ before frames,
      State.step (.expectsKey before frames) lexeme = some (.expectsColon before key frames))
    (h : Reads beyond text 2 head t) :
    ReadsEntry beyond (lexeme.text ++ ':' :: ' ' :: text) (key, t) := by
  intro before frames rest hends
  calc readOn beyond (.expectsKey before frames) (lexeme.text ++ ':' :: ' ' :: text ++ rest)
    _ = readOn beyond (.expectsColon before key frames) (':' :: ' ' :: (text ++ rest)) := by
      rw [List.append_assoc]
      simp only [List.cons_append]
      rw [readOn_lexeme _ (hkey _), hstep, Option.bind_some]
    _ = readOn beyond (.expects (.entry before key :: frames)) (text ++ rest) := readOn_cons _ rfl
    _ = readOn beyond (.has t (.entry before key :: frames)) rest :=
      h.reads _ _ (Nat.le_refl _) hends

/-- An entry whose key is computed. -/
theorem computed {key : List Char} {head' : Char} {t' : Tree} (h' : Reads beyond key 2 head' t')
    (h : Reads beyond text 2 head t) :
    ReadsEntry beyond ('[' :: key ++ ']' :: ':' :: ' ' :: text) (.array [t'], t) := by
  intro before frames rest hends
  calc readOn beyond (.expectsKey before frames) ('[' :: key ++ ']' :: ':' :: ' ' :: text ++ rest)
    _ = readOn beyond (.expects (.computed before :: frames))
          (key ++ ']' :: ':' :: ' ' :: (text ++ rest)) := by
      simp only [List.append_assoc, List.cons_append]
      exact readOn_cons _ rfl
    _ = readOn beyond (.has t' (.computed before :: frames)) (']' :: ':' :: ' ' :: (text ++ rest)) :=
      h'.reads _ _ (Nat.le_refl _) ((Ends.cons rfl rfl).mono (by decide))
    _ = readOn beyond (.expectsColon before (.array [t']) frames) (':' :: ' ' :: (text ++ rest)) :=
      readOn_cons _ rfl
    _ = readOn beyond (.expects (.entry before (.array [t']) :: frames)) (text ++ rest) :=
      readOn_cons _ rfl
    _ = readOn beyond (.has t (.entry before (.array [t']) :: frames)) rest :=
      h.reads _ _ (Nat.le_refl _) hends

/-- Reads entries between commas up to the closing brace. -/
theorem readOn_entries {texts : List (List Char)} {entries : List (Tree × Tree)}
    (h : List.Forall₂ (ReadsEntry beyond) texts entries) (before : List (Tree × Tree))
    (frames : List Frame) (rest : List Char) :
    readOn beyond (.expectsKey before frames)
        (List.intercalate [',', ' '] texts ++ '\x7d' :: rest) =
      readOn beyond (.has (.object (before ++ entries)) frames) rest := by
  induction h generalizing before with
  | nil =>
    rw [List.append_nil]
    exact readOn_cons _ rfl
  | @cons text entry texts entries hfirst hrest ih =>
    cases hrest with
    | nil =>
      rw [List.intercalate_singleton, hfirst _ _ _ ((Ends.cons rfl rfl).mono (by decide))]
      exact readOn_cons _ rfl
    | cons hsecond hrest =>
      rw [List.intercalate_cons_cons, List.append_assoc, List.append_assoc, List.cons_append,
        hfirst _ _ _ ((Ends.cons rfl rfl).mono (by decide)), readOn_cons _ rfl]
      have hread := ih (before ++ [entry])
      rw [List.append_assoc] at hread
      exact hread

end ReadsEntry

namespace Reads

variable {text : List Char} {texts : List (List Char)} {head : Char} {t : Tree} {ts : List Tree}

theorem call (h : Reads beyond text 17 head t) (hargs : ReadsAll beyond texts ts) :
    Reads beyond (text ++ '(' :: List.intercalate [',', ' '] texts ++ [')']) 17 head
      (.call t ts) := by
  refine ⟨by simp [h.head], fun frames rest hdemand _ => ?_⟩
  calc readOn beyond (.expects frames)
        (text ++ '(' :: List.intercalate [',', ' '] texts ++ [')'] ++ rest)
    _ = readOn beyond (.has t frames) ('(' :: (List.intercalate [',', ' '] texts ++ ')' :: rest)) := by
      simp only [List.append_assoc, List.cons_append, List.nil_append]
      exact h.reads _ _ hdemand (.operand _ (by decide))
    _ = readOn beyond (.expects (.items (.arguments t) [] :: frames))
          (List.intercalate [',', ' '] texts ++ ')' :: rest) := readOn_cons _ rfl
    _ = readOn beyond (.has (.call t ts) frames) rest := hargs.readOn (.arguments t) [] frames rest

theorem array (h : ReadsAll beyond texts ts) :
    Reads beyond ('[' :: List.intercalate [',', ' '] texts ++ [']']) 17 '[' (.array ts) := by
  refine ⟨rfl, fun frames rest _ _ => ?_⟩
  calc readOn beyond (.expects frames) ('[' :: List.intercalate [',', ' '] texts ++ [']'] ++ rest)
    _ = readOn beyond (.expects (.items .array [] :: frames))
          (List.intercalate [',', ' '] texts ++ ']' :: rest) := by
      rw [List.append_assoc]
      exact readOn_cons _ rfl
    _ = readOn beyond (.has (.array ts) frames) rest := h.readOn .array [] frames rest

theorem object {entries : List (Tree × Tree)}
    (h : List.Forall₂ (ReadsEntry beyond) texts entries) :
    Reads beyond ('\x7b' :: List.intercalate [',', ' '] texts ++ ['\x7d']) 17 '\x7b'
      (.object entries) := by
  refine ⟨rfl, fun frames rest _ _ => ?_⟩
  calc readOn beyond (.expects frames)
        ('\x7b' :: List.intercalate [',', ' '] texts ++ ['\x7d'] ++ rest)
    _ = readOn beyond (.expectsKey [] frames)
          (List.intercalate [',', ' '] texts ++ '\x7d' :: rest) := by
      rw [List.append_assoc]
      exact readOn_cons _ rfl
    _ = readOn beyond (.has (.object entries) frames) rest :=
      ReadsEntry.readOn_entries h [] frames rest

end Reads

end Script

end TemplateManifest
