import TemplateManifest.Proofs.Script.Lexeme
import TemplateManifest.Script.Text

/-!
Expressions of the target language, read by the precedence and associativity of its operators.

The reader takes one lexeme after the other. It keeps what it has read in frames, the innermost
first: an operator waits for its right operand, a bracket for what closes it. An operator that
comes after an operand first completes the waiting operators that bind at least as tightly.

The levels of binding are, from the loosest to the tightest: 1 for a comma, 2 for an assignment
and a conditional, 3 for `||`, 4 for `&&`, 8 for equality, 9 for order, 11 for sums, 12 for
products, 14 for signs, and 17 for an operand with its accessors. What compiled templates do not
use has no reading.
-/

namespace TemplateManifest

open Text

namespace Script

/-- How tightly an operator binds. -/
def Operator.level : Operator → Nat
  | .or => 3
  | .and => 4
  | .eq | .strictEq | .ne | .strictNe => 8
  | .lt | .gt | .le | .ge => 9
  | .add | .sub => 11
  | .mul | .div | .mod => 12

/-- All operators. -/
def Operator.all : List Operator :=
  [.add, .sub, .mul, .div, .mod, .and, .or, .eq, .strictEq, .ne, .strictNe, .lt, .gt, .le, .ge]

/-- The operator that a mark spells. -/
def Operator.ofMark? (mark : List Char) : Option Operator :=
  Operator.all.find? fun op => op.text.toList = mark

/-- The sign that a mark spells. -/
def Sign.ofMark? (mark : List Char) : Option Sign :=
  [Sign.not, .neg, .pos].find? fun sign => sign.text.toList = mark

/-- The sign that stands twice in a mark: before an operand, such a mark counts the operand up or
    down. -/
def Sign.ofDoubleMark? (mark : List Char) : Option Sign :=
  [Sign.neg, .pos].find? fun sign => sign.text.toList ++ sign.text.toList = mark

/-- The words that are no names. -/
def reservedWords : List (List Char) :=
  ["await", "break", "case", "catch", "class", "const", "continue", "debugger", "default",
   "delete", "do", "else", "enum", "export", "extends", "finally", "for", "function", "if",
   "import", "in", "instanceof", "new", "return", "super", "switch", "throw", "try", "typeof",
   "var", "void", "while", "with", "yield"].map String.toList

/-- The structure of an expression. Parentheses are no part of it. -/
inductive Tree where
  | atom (lexeme : Lexeme)
  | member (target : Tree) (name : List Char)
  | index (target key : Tree)
  | call (callee : Tree) (args : List Tree)
  | array (items : List Tree)
  /-- A computed key is an array of one item. -/
  | object (entries : List (Tree × Tree))
  | operation (op : Operator) (left right : Tree)
  | signed (sign : Sign) (operand : Tree)
  /-- The operand counted up or down, by the mark of a doubled sign before it. -/
  | counted (sign : Sign) (operand : Tree)
  | await (promise : Tree)
  | conditional (cond yes no : Tree)
  | assign (target value : Tree)
  | comma (left right : Tree)
deriving Inhabited

/-- Brackets with items between commas. -/
inductive Listing where
  | array
  | arguments (callee : Tree)

namespace Listing

/-- The mark that closes the brackets. -/
def close : Listing → Char
  | array => ']'
  | arguments _ => ')'

/-- The expression that ends with the brackets. -/
def tree : Listing → List Tree → Tree
  | array, items => .array items
  | arguments callee, args => .call callee args

end Listing

/-- What has been read of an expression up to one of its operands. -/
inductive Frame where
  | operation (op : Operator) (left : Tree)
  | signed (sign : Sign)
  | counted (sign : Sign)
  | await
  | assign (target : Tree)
  | comma (left : Tree)
  /-- A conditional up to its question mark. -/
  | question (cond : Tree)
  /-- A conditional up to its colon. -/
  | otherwise (cond yes : Tree)
  | paren
  | index (target : Tree)
  | items (listing : Listing) (before : List Tree)
  /-- An object up to the opening bracket of a computed key. -/
  | computed (before : List (Tree × Tree))
  /-- An object up to the colon after a key. -/
  | entry (before : List (Tree × Tree)) (key : Tree)

/-- The level of an operator that waits for its last operand, and the expression that it makes
    with it. -/
def Frame.complete : Frame → Tree → Option (Nat × Tree)
  | .operation op left, t => some (op.level, .operation op left t)
  | .signed sign, t => some (14, .signed sign t)
  | .counted sign, t => some (14, .counted sign t)
  | .await, t => some (14, .await t)
  | .otherwise cond yes, t => some (2, .conditional cond yes t)
  | .assign target, t => some (2, .assign target t)
  | .comma left, t => some (1, .comma left t)
  | _, _ => none

/-- How tightly an expression must bind to stand after the frames as a whole. -/
def demand : List Frame → Nat
  | .operation op _ :: _ => op.level + 1
  | .signed _ :: _ | .counted _ :: _ | .await :: _ => 14
  | [] | .paren :: _ | .index _ :: _ => 1
  | _ => 2

/-- Completes the waiting operators that bind at least as tightly as a level. -/
def settle (level : Nat) : Tree → List Frame → Tree × List Frame
  | t, [] => (t, [])
  | t, f :: frames =>
    match f.complete t with
    | some (own, t') => if level ≤ own then settle level t' frames else (t, f :: frames)
    | none => (t, f :: frames)

/-- What the reader can take next. -/
inductive State where
  /-- An operand. -/
  | expects (frames : List Frame)
  /-- What comes after an operand. -/
  | has (operand : Tree) (frames : List Frame)
  /-- The name of a member. -/
  | expectsName (target : Tree) (frames : List Frame)
  /-- The key of an entry. -/
  | expectsKey (before : List (Tree × Tree)) (frames : List Frame)
  /-- The colon after a key. -/
  | expectsColon (before : List (Tree × Tree)) (key : Tree) (frames : List Frame)

namespace State

/-- Takes a lexeme where an operand is expected. -/
def operand (frames : List Frame) : Lexeme → Option State
  | .word text =>
    if text = ['a', 'w', 'a', 'i', 't'] then some (expects (.await :: frames))
    else if text ∈ reservedWords then none
    else some (has (.atom (.word text)) frames)
  | .numeral text => some (has (.atom (.numeral text)) frames)
  | .string text => some (has (.atom (.string text)) frames)
  | .mark mark =>
    match Sign.ofMark? mark, Sign.ofDoubleMark? mark with
    | some sign, _ => some (expects (.signed sign :: frames))
    | none, some sign => some (expects (.counted sign :: frames))
    | none, none =>
      match mark, frames with
      | ['('], frames => some (expects (.paren :: frames))
      | ['['], frames => some (expects (.items .array [] :: frames))
      | ['{'], frames => some (expectsKey [] frames)
      | [c], .items listing before :: frames =>
        if c = listing.close then some (has (listing.tree before) frames) else none
      | _, _ => none

/-- The level down to which a mark after an operand completes the waiting operators. -/
def settlingLevel? (mark : List Char) : Option Nat :=
  match Operator.ofMark? mark with
  | some op => some op.level
  | none =>
    match mark with
    | ['?'] => some 3
    | [','] | [':'] | [')'] | [']'] | ['}'] => some 1
    | _ => none

/-- Takes a mark after an operand, once it has completed the waiting operators. -/
def settled (t : Tree) (frames : List Frame) (mark : List Char) : Option State :=
  match Operator.ofMark? mark with
  | some op => some (expects (.operation op t :: frames))
  | none =>
    match mark, frames with
    | ['?'], frames => some (expects (.question t :: frames))
    | [':'], .question cond :: frames => some (expects (.otherwise cond t :: frames))
    | [')'], .paren :: frames => some (has t frames)
    | [']'], .index target :: frames => some (has (.index target t) frames)
    | [']'], .computed before :: frames => some (expectsColon before (.array [t]) frames)
    | ['}'], .entry before key :: frames => some (has (.object (before ++ [(key, t)])) frames)
    | [','], .entry before key :: frames => some (expectsKey (before ++ [(key, t)]) frames)
    | [c], .items listing before :: frames =>
      if c = ',' then some (expects (.items listing (before ++ [t]) :: frames))
      else if c = listing.close then some (has (listing.tree (before ++ [t])) frames)
      else none
    | [','], frames => if demand frames ≤ 1 then some (expects (.comma t :: frames)) else none
    | _, _ => none

/-- An assignment can be made to the expression. -/
def isTarget : Tree → Bool
  | .atom (.word _) | .member _ _ | .index _ _ => true
  | _ => false

/-- Takes a mark after an operand. -/
def afterOperand (t : Tree) (frames : List Frame) (mark : List Char) : Option State :=
  match settlingLevel? mark with
  | some level => settled (settle level t frames).1 (settle level t frames).2 mark
  | none =>
    match mark with
    | ['.'] => some (expectsName t frames)
    | ['('] => some (expects (.items (.arguments t) [] :: frames))
    | ['['] => some (expects (.index t :: frames))
    | ['='] =>
      if isTarget t && demand frames ≤ 2 then some (expects (.assign t :: frames)) else none
    | _ => none

/-- Takes a lexeme. -/
def step : State → Lexeme → Option State
  | expects frames, lexeme => operand frames lexeme
  | has t frames, .mark mark => afterOperand t frames mark
  | expectsName t frames, .word name => some (has (.member t name) frames)
  | expectsKey before frames, .mark ['}'] => some (has (.object before) frames)
  | expectsKey before frames, .mark ['['] => some (expects (.computed before :: frames))
  | expectsKey before frames, .word text => some (expectsColon before (.atom (.word text)) frames)
  | expectsKey before frames, .numeral text => some (expectsColon before (.atom (.numeral text)) frames)
  | expectsKey before frames, .string text => some (expectsColon before (.atom (.string text)) frames)
  | expectsColon before key frames, .mark [':'] => some (expects (.entry before key :: frames))
  | _, _ => none

/-- The expression that has been read, if it ends here. -/
def finish : State → Option Tree
  | has t frames =>
    match settle 1 t frames with
    | (t, []) => some t
    | _ => none
  | _ => none

/-- Reads lexemes to their end. -/
def run : State → List Lexeme → Option Tree
  | state, [] => state.finish
  | state, lexeme :: lexemes => (state.step lexeme).bind fun state => state.run lexemes

end State

section

variable (beyond : Char → Bool)

/-- Reads a text to its end. -/
def readOn (state : State) (text : List Char) : Option Tree :=
  (Lexeme.split beyond text).bind state.run

/-- The expression that a text is read as. -/
def read (text : List Char) : Option Tree :=
  readOn beyond (.expects []) text

end

section

variable {beyond : Char → Bool}

theorem Frame.level_le_of_complete {f : Frame} {t t' : Tree} {own : Nat}
    (h : f.complete t = some (own, t')) : own ≤ 14 := by
  cases f <;> cases h <;> first | decide | (rename_i op _; cases op <;> decide)

theorem settle_of_complete {f : Frame} {t t' : Tree} {own level : Nat} (frames : List Frame)
    (h : f.complete t = some (own, t')) (hlevel : level ≤ own) :
    settle level t (f :: frames) = settle level t' frames := by
  rw [settle, h]
  exact if_pos hlevel

/-- An operator of the middle levels completes nothing if it may stand as a whole. -/
theorem settle_eq_of_demand_le {level : Nat} {frames : List Frame} (t : Tree)
    (h : demand frames ≤ level) (hlow : 3 ≤ level) (hhigh : level < 14) :
    settle level t frames = (t, frames) := by
  cases frames with
  | nil => rfl
  | cons f frames =>
    have hloose : ∀ own t', f.complete t = some (own, t') → ¬ level ≤ own := by
      intro own t' hcomplete
      cases f <;> cases hcomplete <;> simp only [demand] at h <;> omega
    rw [settle]
    split
    · next own t' hcomplete => exact if_neg (hloose own t' hcomplete)
    · rfl

/-- A sequence stands as a whole only inside parentheses and indices. -/
theorem demand_le_one {frames : List Frame} (h : demand frames ≤ 1) :
    frames = [] ∨ (∃ rest, frames = .paren :: rest) ∨
      ∃ target rest, frames = .index target :: rest := by
  cases frames with
  | nil => exact .inl rfl
  | cons f frames =>
    cases f with
    | paren => exact .inr (.inl ⟨frames, rfl⟩)
    | index target => exact .inr (.inr ⟨target, frames, rfl⟩)
    | operation op left => cases op <;> simp [demand, Operator.level] at h
    | _ => simp [demand] at h

theorem afterOperand_comma (t : Tree) {frames : List Frame} (h : demand frames ≤ 1) :
    State.afterOperand t frames [','] = some (.expects (.comma t :: frames)) := by
  obtain rfl | ⟨rest, rfl⟩ | ⟨target, rest, rfl⟩ := demand_le_one h <;> rfl

theorem readOn_lexeme (state : State) {lexeme : Lexeme} {rest : List Char}
    (h : lexeme.EndsBefore beyond rest) :
    readOn beyond state (lexeme.text ++ rest) =
      (state.step lexeme).bind fun state => readOn beyond state rest := by
  rw [readOn, h]
  simp only [readOn]
  cases Lexeme.split beyond rest <;> cases hstep : state.step lexeme <;> simp [State.run, hstep]

theorem readOn_space (state : State) (rest : List Char) :
    readOn beyond state (' ' :: rest) = readOn beyond state rest := rfl

/-- Reads a mark that is not part of a longer one. -/
theorem readOn_mark (state : State) {mark rest : List Char}
    (h : Lexeme.marks.find? (fun other => startsWith other (mark ++ rest)) = some mark) :
    readOn beyond state (mark ++ rest) =
      (state.step (.mark mark)).bind fun state => readOn beyond state rest :=
  readOn_lexeme state (Lexeme.endsBefore_mark h)

theorem readOn_cons (state : State) {c : Char} {rest : List Char}
    (h : Lexeme.marks.find? (fun other => startsWith other (c :: rest)) = some [c]) :
    readOn beyond state (c :: rest) =
      (state.step (.mark [c])).bind fun state => readOn beyond state rest :=
  readOn_mark state (List.singleton_append ▸ h)

end

end Script

end TemplateManifest
