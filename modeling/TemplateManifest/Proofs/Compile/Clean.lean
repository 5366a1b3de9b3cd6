import TemplateManifest.Compile.Code
import TemplateManifest.Proofs.Script.Strings
import TemplateManifest.Proofs.Script.Wording

/-!
The forms of emitted code are clean: no quote and no bracket stands in their words, and what they are
put together of is clean.
-/

namespace TemplateManifest

open Script Vocabulary

variable {allowed : Expr → Prop}

section Words

theorem unmarked_of_isDigit {text : List Char} (h : ∀ c ∈ text, c.isDigit = true) : Unmarked text := by
  have hmarks : ∀ c ∈ scanMarks, c.isDigit = false := List.forall_iff_forall_mem.mp (by decide)
  exact fun c hc hmark => Bool.false_ne_true ((hmarks c hmark).symm.trans (h c hc))

theorem unmarked_of_isNumeral {text : List Char} (h : Lexeme.IsNumeral text) : Unmarked text := by
  obtain ⟨c, whole, fraction, hdigits, rfl | rfl⟩ := h
  · exact unmarked_of_isDigit fun d hd => hdigits d (List.mem_append_left _ hd)
  · obtain ⟨hwhole, hfraction⟩ := List.forall_mem_append.mp hdigits
    exact unmarked_append.mpr ⟨unmarked_of_isDigit hwhole,
      List.forall_mem_cons.mpr ⟨by decide, unmarked_of_isDigit hfraction⟩⟩

theorem unmarked_toDigits (n : Nat) : Unmarked (Nat.toDigits 10 n) :=
  unmarked_of_isDigit fun _ => isDigit_of_mem_decimalDigits

theorem unmarked_minus (negative : Prop) [Decidable negative] :
    Unmarked (if negative then ['-'] else []) := by
  split <;> decide

theorem unmarked_double (value : Double) : Unmarked value.text.toList := by
  cases value with
  | finite negative significand exponent =>
    have hdigits := unmarked_of_isNumeral (Double.isNumeral_text significand exponent)
    rw [Double.text, String.toList_ofList] at hdigits ⊢
    exact unmarked_append.mpr ⟨unmarked_minus _, (unmarked_append.mp hdigits).2⟩
  | infinite negative => cases negative <;> decide
  | nan => decide

@[simp]
theorem isClean_temp (index : Nat) : (Variable.temp index).IsClean := by
  rw [Variable.IsClean, Variable.text, String.toList_append]
  refine unmarked_append.mpr ⟨by decide, ?_⟩
  rw [String.toList_ofList]
  exact unmarked_toDigits index

@[simp]
theorem isClean_named {text : String} (h : Unmarked text.toList) : (Variable.named text).IsClean := h

theorem isClean_param {name : String} (h : Unmarked name.toList) : (Variable.param name).IsClean := by
  rw [Variable.IsClean, Variable.text, String.toList_append]
  exact unmarked_append.mpr ⟨by decide, h⟩

end Words

section Expressions

@[simp]
theorem isClean_name {text : String} (h : Unmarked text.toList) : (name text).IsClean allowed := h

@[simp]
theorem isClean_truth (value : Bool) : (truth value).IsClean allowed := by
  cases value <;> simp (disch := decide) [truth]

@[simp]
theorem isClean_number (value : Nat) : (number value).IsClean allowed := by
  refine isClean_constant ?_
  rw [String.toList_ofList]
  exact unmarked_toDigits value

@[simp]
theorem isClean_method {target : Expr} {function : String} {args : List Expr}
    (h : Unmarked function.toList) :
    (method target function args).IsClean allowed ↔
      target.IsClean allowed ∧ Expr.AreClean allowed args := by
  simp [method, h]

@[simp]
theorem isClean_runtime {function : String} {args : List Expr} (h : Unmarked function.toList) :
    (runtime function args).IsClean allowed ↔ Expr.AreClean allowed args := by
  rw [runtime, isClean_method h]
  simp (disch := decide)

/-- A literal other than a string is clean. -/
theorem isClean_literal {value : Literal} (h : ∀ text, value = .str text → allowed (.string text)) :
    (literal value).IsClean allowed := by
  cases value with
  | str text => exact h text rfl
  | int value =>
    change Unmarked (integerText value).toList
    rw [integerText, String.toList_ofList]
    exact unmarked_append.mpr ⟨unmarked_minus _, unmarked_toDigits _⟩
  | float value => exact unmarked_double value
  | bool value => exact isClean_truth value
  | none =>
    change Unmarked "null".toList
    decide

@[simp]
theorem isClean_contextLookup (symbol : String) :
    (contextLookup symbol).IsClean allowed ↔ allowed (.string symbol) := by
  simp (disch := decide) [contextLookup]

@[simp]
theorem isClean_hasOwn (object key : Expr) :
    (hasOwn object key).IsClean allowed ↔ object.IsClean allowed ∧ key.IsClean allowed := by
  simp (disch := decide) [hasOwn]

@[simp]
theorem areClean_renderArguments : Expr.AreClean allowed renderArguments := by
  simp (disch := decide) [renderArguments]

@[simp]
theorem isClean_operandCode (inSum : Bool) (node : Node) (code : Expr) :
    (node.operandCode inSum code).IsClean allowed ↔ code.IsClean allowed := by
  unfold Node.operandCode
  split <;> simp

theorem isClean_binaryCode {op : BinaryOp} {left right : Expr} (hempty : allowed (.string ""))
    (hleft : left.IsClean allowed) (hright : right.IsClean allowed) :
    (op.code left right).IsClean allowed := by
  cases op <;>
    simp (disch := decide) [BinaryOp.code, hleft, hright, hempty]

namespace CodeContext

variable {cx : CodeContext}

@[simp]
theorem isClean_awaitedIf (isAsync : Bool) (call : Expr) :
    (awaitedIf isAsync call).IsClean allowed ↔ call.IsClean allowed := by
  cases isAsync <;> simp [awaitedIf, awaited]

@[simp]
theorem isClean_awaitedIfAsync (call : Expr) :
    (cx.awaitedIfAsync call).IsClean allowed ↔ call.IsClean allowed :=
  isClean_awaitedIf cx.isAsync call

@[simp]
theorem isClean_getTemplate (target : Expr) (flags : Bool × Option Bool) :
    (cx.getTemplate target flags).IsClean allowed ↔
      target.IsClean allowed ∧ allowed (.string cx.template) := by
  obtain ⟨eager, ignore⟩ := flags
  cases ignore <;> simp (disch := decide) [getTemplate]

@[simp]
theorem isClean_extensionCode (e : Extension) (extensionMethod : String) (isAsync : Bool)
    (args : List Expr) :
    (extensionCode e extensionMethod isAsync args).IsClean allowed ↔
      allowed (.string e.name) ∧ allowed (.string extensionMethod) ∧ Expr.AreClean allowed args := by
  simp (disch := decide) [extensionCode, and_assoc]

@[simp]
theorem isClean_callCode (pos : Position) (called : Expr) (callee : String) (args : List Expr) :
    (callCode pos called callee args).IsClean allowed ↔
      called.IsClean allowed ∧ allowed (.string callee) ∧ Expr.AreClean allowed args := by
  simp (disch := decide) [callCode]

@[simp]
theorem isClean_closure (body : List Stmt) :
    (cx.closure body).IsClean allowed ↔ allowed (.string "") ∧ Stmt.AreClean allowed body := by
  simp (disch := decide) [closure]

end CodeContext

end Expressions

section Statements

@[simp]
theorem isClean_setFrame (symbol : String) (value : Expr) :
    (setFrame symbol value).IsClean allowed ↔ allowed (.string symbol) ∧ value.IsClean allowed := by
  simp (disch := decide) [setFrame]

@[simp]
theorem isClean_pushFrame (args : List Expr) :
    (pushFrame args).IsClean allowed ↔ Expr.AreClean allowed args := by
  simp (disch := decide) [pushFrame]

@[simp]
theorem isClean_popFrame : popFrame.IsClean allowed := by
  simp (disch := decide) [popFrame]

@[simp]
theorem areClean_prologue : Stmt.AreClean allowed prologue ↔ allowed (.string "") := by
  simp (disch := decide) [prologue]

theorem areClean_dataCode {text : String} (h : text ≠ "" → allowed (.string text)) :
    Stmt.AreClean allowed (dataCode text) := by
  unfold dataCode
  split
  · trivial
  · next hne =>
    have hallowed := h fun heq => hne (by simp [heq])
    exact ⟨⟨isClean_named (by decide), hallowed⟩, trivial⟩

@[simp]
theorem isClean_outputValue (value : Expr) (autoescape : Bool) :
    (outputValue value autoescape).IsClean allowed ↔ value.IsClean allowed := by
  simp (disch := decide) [outputValue]

@[simp]
theorem areClean_publish (symbol : String) (v : Variable) :
    Stmt.AreClean allowed (publish symbol v) ↔ allowed (.string symbol) ∧ v.IsClean := by
  unfold publish
  split <;>
    simp (disch := decide)

@[simp]
theorem areClean_memberCode (module : Variable) (exported : String) (v : Variable) :
    Stmt.AreClean allowed (CodeContext.memberCode module exported v) ↔
      module.IsClean ∧ v.IsClean ∧ allowed (.string exported) ∧
        allowed (.string ("cannot import '" ++ exported ++ "'")) := by
  simp (disch := decide) [CodeContext.memberCode]
  grind

/-- The statements of an assignment. -/
theorem areClean_assignment {holders : List Variable} {value : Expr}
    {entries : List (String × Variable)} (hholders : ∀ v ∈ holders, v.IsClean)
    (hvalue : value.IsClean allowed)
    (hentries : ∀ entry ∈ entries, allowed (.string entry.1) ∧ entry.2.IsClean) :
    Stmt.AreClean allowed (holders.map (fun v => .declare v none) ++ .assignAll holders value ::
      entries.flatMap fun (target, v) => publish target v) := by
  simp only [Stmt.areClean_append, statements_areClean_cons, isClean_assignAll]
  refine ⟨Stmt.areClean_iff.mpr ?_, ⟨hholders, hvalue⟩, Stmt.areClean_iff.mpr ?_⟩
  · exact List.forall_mem_map.mpr hholders
  · intro s hs
    obtain ⟨entry, hentry, hs⟩ := List.mem_flatMap.mp hs
    exact Stmt.areClean_iff.mp ((areClean_publish _ _).mpr (hentries entry hentry)) s hs

/-- The texts that the code of every loop has in quotes. -/
def loopWords : List String :=
  ["loop.index", "loop.index0", "loop.revindex", "loop.revindex0", "loop.first", "loop.last",
    "loop.length"]

theorem areClean_loopCode {arr len i : Variable} {iterated : Expr}
    {targets : List (String × Variable)} {body : List Stmt} {otherwise : Option (List Stmt)}
    (hwords : ∀ word ∈ loopWords, allowed (.string word))
    (hvariables : arr.IsClean ∧ len.IsClean ∧ i.IsClean) (hiterated : iterated.IsClean allowed)
    (htargets : ∀ target ∈ targets, allowed (.string target.1) ∧ target.2.IsClean)
    (hbody : Stmt.AreClean allowed body)
    (hotherwise : Stmt.AreClean allowed (otherwise.getD [])) :
    Stmt.AreClean allowed (loopCode arr len i iterated targets body otherwise) := by
  obtain ⟨harr, hlen, hi⟩ := hvariables
  have hbindings : Stmt.AreClean allowed (targets.zipIdx.flatMap fun entry =>
      [.declare entry.1.2 (some (if 1 < targets.length then
        Expr.index (.index (.variable arr) (.variable i)) (number entry.2)
        else Expr.index (.variable arr) (.variable i))),
       setFrame entry.1.1 (.variable entry.1.2)]) := by
    refine Stmt.areClean_iff.mpr fun s hs => ?_
    obtain ⟨entry, hentry, hs⟩ := List.mem_flatMap.mp hs
    obtain ⟨hname, hv⟩ := htargets entry.1 (List.fst_mem_of_mem_zipIdx hentry)
    have hitem : (if 1 < targets.length then
        Expr.index (.index (.variable arr) (.variable i)) (number entry.2)
        else Expr.index (.variable arr) (.variable i)).IsClean allowed := by
      split <;> simp [harr, hi]
    simp only [List.mem_cons, List.not_mem_nil, or_false] at hs
    obtain rfl | rfl := hs
    · exact ⟨hv, hitem⟩
    · simp [hname, hv]
  have hunpack : Stmt.AreClean allowed (if 1 < targets.length then
      [Stmt.assignAll [arr] (.conditional (runtime "isArray" [.variable arr]) (.variable arr)
        (method (name "Object") "entries" [.variable arr]))] else []) := by
    split <;> simp (disch := decide) [harr]
  simp only [loopWords, List.forall_mem_cons] at hwords
  unfold loopCode
  cases otherwise with
  | none => simp (disch := decide) [hunpack, hbindings, harr, hlen, hi, hiterated, hbody, hwords]
  | some otherwise =>
    simp (disch := decide) [hunpack, hbindings, harr, hlen, hi, hiterated, hbody, hwords]
    simpa using hotherwise

namespace CodeContext

theorem isClean_makeMacro {cx : CodeContext} {isCaller : Bool} {positional : List String}
    {defaults : List (String × Expr)} {body : List Stmt}
    (hwords : allowed (.string "") ∧ allowed (.string "caller"))
    (hpositional : ∀ p ∈ positional, allowed (.string p) ∧ (Variable.param p).IsClean)
    (hdefaults : ∀ entry ∈ defaults, allowed (.string entry.1) ∧ entry.2.IsClean allowed)
    (hbody : Stmt.AreClean allowed body) :
    (cx.makeMacro isCaller positional defaults body).IsClean allowed := by
  have hquoted {names : List String} (h : ∀ name ∈ names, allowed (.string name)) :
      Expr.AreClean allowed (names.map Expr.string) :=
    Expr.areClean_iff.mpr (List.forall_mem_map.mpr h)
  have hframe : (if isCaller then pushFrame [truth true] else
      Stmt.assignAll [.named "frame"]
        (.create (.member (name "runtime") "Frame") [])).IsClean allowed := by
    cases isCaller <;> simp (disch := decide)
  have hset : Stmt.AreClean allowed (positional.map fun p => setFrame p (.variable (.param p))) :=
    Stmt.areClean_iff.mpr (List.forall_mem_map.mpr fun p hp => by simp [hpositional p hp])
  have hdefault : Stmt.AreClean allowed (defaults.map fun entry => setFrame entry.1
      (.conditional (hasOwn (name "kwargs") (.string entry.1))
        (.index (name "kwargs") (.string entry.1)) entry.2)) :=
    Stmt.areClean_iff.mpr (List.forall_mem_map.mpr fun entry hentry => by
      simp (disch := decide) [hdefaults entry hentry])
  have hparams : ∀ v ∈ positional.map Variable.param ++ [.named "kwargs"], v.IsClean :=
    List.forall_mem_append.mpr ⟨List.forall_mem_map.mpr fun p hp => (hpositional p hp).2,
      List.forall_mem_singleton.mpr (isClean_named (by decide))⟩
  have hnames := hquoted fun p hp => (hpositional p hp).1
  have hnames' : Expr.AreClean allowed ((defaults.map (·.1)).map Expr.string) :=
    hquoted (List.forall_mem_map.mpr fun entry hentry => (hdefaults entry hentry).1)
  unfold makeMacro
  simp (disch := decide) [hframe, hset, hdefault, hbody, hwords, hnames, -List.map_map]
  exact ⟨hnames', by simpa using hparams⟩

end CodeContext

end Statements

end TemplateManifest
