import TemplateManifest.Proofs.Scope.Emitted

/-!
What each form of emitted code does with variables: the calls of the runtime pass on what their
arguments do, and the statements around a loop, a macro or an import read only variables that
they have just set.
-/

namespace TemplateManifest

open Script Vocabulary

section Notable

open Expr

@[simp]
theorem notable_runtime (function : String) (args : List Expr) :
    (runtime function args).notable = notableAll args := by
  simp (disch := decide) [runtime, method]

@[simp]
theorem notable_method (target : Expr) (text : String) (args : List Expr) :
    (method target text args).notable = target.notable ++ notableAll args := by
  simp [method]

@[simp]
theorem notable_truth (value : Bool) : (truth value).notable = [] := rfl

@[simp]
theorem notable_number (value : Nat) : (number value).notable = [] := rfl

@[simp]
theorem notable_literal (value : Literal) : (literal value).notable = [] := by
  cases value <;> rfl

@[simp]
theorem notable_contextLookup (symbol : String) : (contextLookup symbol).notable = [] := by
  simp (disch := decide) [contextLookup]

@[simp]
theorem notableAll_map_string (names : List String) : notableAll (names.map .string) = [] := by
  induction names with
  | nil => rfl
  | cons name names ih => simp [ih]

@[simp]
theorem notable_hasOwn (object key : Expr) :
    (hasOwn object key).notable = object.notable ++ key.notable := by
  simp (disch := decide) [hasOwn]

@[simp]
theorem notableAll_renderArguments : notableAll renderArguments = [] := by
  simp (disch := decide) [renderArguments]

@[simp]
theorem notable_operandCode (inSum : Bool) (node : Node) (code : Expr) :
    (node.operandCode inSum code).notable = code.notable := by
  unfold Node.operandCode
  split <;> rfl

@[simp]
theorem notable_binaryCode (op : BinaryOp) (left right : Expr) :
    (op.code left right).notable = left.notable ++ right.notable := by
  cases op <;> simp (disch := decide) [BinaryOp.code]

namespace CodeContext

variable {cx : CodeContext}

@[simp]
theorem notable_awaitedIf (isAsync : Bool) (call : Expr) :
    (awaitedIf isAsync call).notable = call.notable := by
  unfold awaitedIf awaited
  split <;> rfl

@[simp]
theorem notable_awaitedIfAsync (call : Expr) : (cx.awaitedIfAsync call).notable = call.notable :=
  notable_awaitedIf cx.isAsync call

@[simp]
theorem notable_getTemplate (target : Expr) (flags : Bool × Option Bool) :
    (cx.getTemplate target flags).notable = target.notable := by
  obtain ⟨eager, ignore⟩ := flags
  cases ignore <;> simp (disch := decide) [getTemplate]

@[simp]
theorem notable_extensionCode (e : Extension) (extensionMethod : String) (isAsync : Bool)
    (args : List Expr) :
    (extensionCode e extensionMethod isAsync args).notable = notableAll args := by
  simp (disch := decide) [extensionCode]

@[simp]
theorem notable_callCode (pos : Position) (called : Expr) (callee : String) (args : List Expr) :
    (callCode pos called callee args).notable = called.notable ++ notableAll args := by
  simp (disch := decide) [callCode]

end CodeContext

end Notable

section Loop

variable (arr len i : Variable) (unpack : Bool)

/-- Makes an array of what a loop runs over: of rows, if a loop has several targets. -/
def loopArray : List Stmt :=
  .assignAll [arr] (runtime "fromIterator" [.variable arr]) ::
    if unpack then
      [.assignAll [arr] (.conditional (runtime "isArray" [.variable arr]) (.variable arr)
        (method (name "Object") "entries" [.variable arr]))]
    else []

/-- The value of the target number `n` of a loop. -/
def loopItem (n : Nat) : Expr :=
  let row : Expr := .index (.variable arr) (.variable i)
  if unpack then .index row (number n) else row

/-- The targets of a loop get their values. -/
def loopBindings (item : Nat → Expr) (targets : List (String × Variable)) : List Stmt :=
  targets.zipIdx.flatMap fun ((target, v), n) =>
    [.declare v (some (item n)), setFrame target (.variable v)]

/-- What a loop says about itself. -/
def loopCounters : List Stmt :=
  let left : Expr := .operation .sub (.variable len) (.variable i)
  [setFrame "loop.index" (.operation .add (.variable i) (number 1)),
   setFrame "loop.index0" (.variable i),
   setFrame "loop.revindex" left,
   setFrame "loop.revindex0" (.operation .sub left (number 1)),
   setFrame "loop.first" (.operation .strictEq (.variable i) (number 0)),
   setFrame "loop.last"
     (.operation .strictEq (.variable i) (.operation .sub (.variable len) (number 1))),
   setFrame "loop.length" (.variable len)]

/-- The code of a loop from its parts. -/
theorem loopCode_eq (first : Nat) (iterated : Expr) (targets : List (String × Variable))
    (body : List Stmt) (otherwise : Option (List Stmt)) :
    let arr : Variable := .temp (first + 1)
    let len : Variable := .temp (first + 2)
    let i : Variable := .temp (first + 3)
    let unpack : Bool := decide (1 < targets.length)
    loopCode arr len i iterated targets body otherwise =
      pushFrame [] :: .declare arr (some iterated) ::
        (loopBody first (loopArray arr unpack)
          (loopBindings (loopItem arr i unpack) targets ++ loopCounters len i ++ body) otherwise ++
            [popFrame]) := by
  unfold loopCode loopArray loopItem
  simp only [decide_eq_true_eq]
  rfl

end Loop

section Macro

variable (isCaller : Bool) (params : List String) (defaults : List (String × Expr))
  (body : List Stmt)

/-- The frame in which a macro runs. -/
def macroFrame : Stmt :=
  if isCaller then pushFrame [truth true]
  else .assignAll [.named "frame"] (.create (.member (name "runtime") "Frame") [])

/-- Sets the parameters without defaults in the frame of a macro. -/
def positionalSettings : List Stmt :=
  params.map fun p => setFrame p (.variable (.param p))

/-- Sets the parameters with defaults in the frame of a macro. -/
def defaultSettings : List Stmt :=
  let kwargs := name "kwargs"
  defaults.map fun (p, code) =>
    setFrame p (.conditional (hasOwn kwargs (.string p)) (.index kwargs (.string p)) code)

/-- What the function of a macro does before it returns. -/
def macroBody : List Stmt :=
  let kwargs := name "kwargs"
  .declare (.named "callerFrame") (some (name "frame")) :: macroFrame isCaller ::
    .assignAll [.named "kwargs"] (.operation .or kwargs (.object [])) ::
    .guard (hasOwn kwargs (.string "caller")) [setFrame "caller" (.member kwargs "caller")] ::
    (positionalSettings params ++ (defaultSettings defaults ++
      .declare (.named "output") (some (.string "")) ::
        (body ++ [.assignAll [.named "frame"] (name "callerFrame")])))

theorem notable_makeMacro (cx : CodeContext) :
    (cx.makeMacro isCaller params defaults body).notable =
      [.function (params.map .param ++ [.named "kwargs"])
        (macroBody isCaller params defaults body ++
          [.return (.create (.member (name "runtime") "SafeString") [name "output"])])] := by
  simp [CodeContext.makeMacro, macroBody, macroFrame, positionalSettings, defaultSettings,
    -List.map_map]

end Macro

namespace Emits

variable {known : List Variable} {flow : List Flow} {us : List Use} {e : Expr} {body : List Stmt}

/-- Code that does nothing of note with variables. -/
theorem of_notable_eq_nil (h : e.notable = []) : Emits known [] (.uses e.notable) := by
  rw [h]
  exact .none

theorem of_variable {v : Variable} (hv : v ∈ known) :
    Emits known [] (.uses (.variable v : Expr).notable) := by
  unfold Expr.notable
  by_cases hcommon : v.isCommon = true
  · simpa [Expr.uses, Use.isNotable, hcommon] using .none
  · simpa [Expr.uses, Use.isNotable, hcommon] using .read hv .none

theorem of_notable_eq (h : Emits known flow (.uses us)) (hus : e.notable = us) :
    Emits known flow (.uses e.notable) :=
  hus ▸ h

/-- A statement that needs no flow of its own stands before others. -/
theorem cons {s : Stmt} (hs : Does known s e) (he : Emits known [] (.uses e.notable))
    (h : Emits known flow (.code body)) : Emits known flow (.code (s :: body)) :=
  show Emits known ([] ++ flow) _ from .step hs he h

theorem setFrame {symbol : String} (he : Emits known [] (.uses e.notable))
    (h : Emits known flow (.code body)) :
    Emits known flow (.code (Vocabulary.setFrame symbol e :: body)) :=
  .cons .run (he.of_notable_eq (by simp (disch := decide))) h

/-- Publishing a variable reads it. -/
theorem publish {symbol : String} {v : Variable} (hv : v ∈ known) :
    Emits known [] (.code (Vocabulary.publish symbol v)) := by
  have hset {function : String} {last : List Expr} (hlast : Expr.notableAll last = []) :
      (method (name "frame") function ([.string symbol, .variable v] ++ last)).notable =
        (.variable v : Expr).notable := by
    simp (disch := decide) [hlast]
  have hread := of_variable hv
  have htop (function : String) {rest : List Stmt} (h : Emits known [] (.code rest)) :
      Emits known [] (.code (.guard (.member (name "frame") "topLevel")
        [.run (method (name "context") function [.string symbol, .variable v])] :: rest)) := by
    refine .guard (.of_notable_eq_nil (by simp (disch := decide))) ?_ h
    exact .cons .run (hread.of_notable_eq (by simp (disch := decide))) .done
  refine .cons .run (hread.of_notable_eq (hset (by simp))) (htop _ ?_)
  split
  · exact .done
  · exact htop _ .done

theorem publishAll {entries : List (String × Variable)} (h : ∀ entry ∈ entries, entry.2 ∈ known) :
    Emits known [] (.code (entries.flatMap fun (symbol, v) => Vocabulary.publish symbol v)) := by
  induction entries with
  | nil => exact .done
  | cons entry entries ih =>
    obtain ⟨hentry, hentries⟩ := List.forall_mem_cons.mp h
    exact (publish hentry).code_append (ih hentries)

theorem dataCode (text : String) : Emits known [] (.code (TemplateManifest.dataCode text)) := by
  unfold TemplateManifest.dataCode
  split
  · exact .done
  · exact .cons (.append (by simp [Variable.isCommon, commonNames])) .none .done

theorem loopBindings {item : Nat → Expr} (targets : List String)
    (hitem : ∀ n, Emits known [] (.uses (item n).notable)) (first : Nat) :
    Emits known ((List.range' first targets.length).map fun index => .assign [.temporary index])
      (.code (TemplateManifest.loopBindings item
        (targets.zip ((List.range' first targets.length).map .temp)))) := by
  unfold TemplateManifest.loopBindings
  generalize 0 = n
  induction targets generalizing known first n with
  | nil => exact .done
  | cons target targets ih =>
    change Emits known ([] ++ .assign [.temporary first] :: _) _
    refine .declare (hitem n) (.setFrame (.read (List.mem_cons_self ..) .none) ?_)
    exact ih (fun n => (hitem n).mono (List.subset_cons_self _ _)) (first + 1) (n + 1)

theorem loopArray {index : Nat} (harr : .temp index ∈ known) (unpack : Bool) :
    Emits known [] (.code (TemplateManifest.loopArray (.temp index) unpack)) := by
  have hset : ∀ v ∈ [Variable.temp index], v.isCommon = true ∨ v ∈ known := by simp [harr]
  refine .cons (.assign hset) ((of_variable harr).of_notable_eq (by simp)) ?_
  cases unpack with
  | false => exact .done
  | true =>
    have h := ((of_variable harr).uses_append (of_variable harr)).uses_append (of_variable harr)
    exact .cons (.assign hset) (h.of_notable_eq (by simp (disch := decide))) .done

theorem loopCounters {len i : Nat} (hlen : .temp len ∈ known) (hi : .temp i ∈ known) :
    Emits known [] (.code (TemplateManifest.loopCounters (.temp len) (.temp i))) := by
  have hleft := (of_variable hlen).uses_append (of_variable hi)
  refine .setFrame ((of_variable hi).of_notable_eq (by simp)) (.setFrame (of_variable hi) ?_)
  refine .setFrame (hleft.of_notable_eq (by simp)) (.setFrame (hleft.of_notable_eq (by simp)) ?_)
  refine .setFrame ((of_variable hi).of_notable_eq (by simp)) (.setFrame ?_ (.setFrame (of_variable hlen) .done))
  exact ((of_variable hi).uses_append (of_variable hlen)).of_notable_eq (by simp)

/-- The statements around the body of a loop read only the temporaries of the loop. -/
theorem loopCode (first : Nat) (targets : List String) (otherwise : Option (List Stmt))
    {before inside other : List Flow} {iterated : Expr}
    (hiterated : Emits known before (.uses iterated.notable))
    (hbody : Emits known inside (.code body)) (hnone : otherwise = .none → other = [])
    (hsome : ∀ code, otherwise = some code → Emits known other (.code code)) :
    Emits known
      (before ++ [.loop first (loopAssignments first targets.length ++ inside)
        otherwise.isSome other])
      (.code (TemplateManifest.loopCode (.temp (first + 1)) (.temp (first + 2)) (.temp (first + 3))
        iterated (targets.zip ((List.range' (first + 4) targets.length).map .temp)) body
        otherwise)) := by
  have hframe : ∀ v ∈ [Variable.named "frame"], v.isCommon = true ∨ v ∈ known := by
    simp [Variable.isCommon, commonNames]
  have hpop : Emits known [] (.code [popFrame]) :=
    .cons (.assign hframe) (.of_notable_eq_nil (by simp (disch := decide))) .done
  rw [loopCode_eq]
  generalize decide (1 < List.length _) = unpack
  have harray : Emits (.temp (first + 1) :: known) []
      (.code (TemplateManifest.loopArray (.temp (first + 1)) unpack)) :=
    loopArray (List.mem_cons_self ..) unpack
  have heach : Emits (.temp (first + 3) :: .temp (first + 2) :: .temp (first + 1) :: known)
      (loopAssignments first targets.length ++ inside)
      (.code (TemplateManifest.loopBindings
        (loopItem (.temp (first + 1)) (.temp (first + 3)) unpack)
          (targets.zip ((List.range' (first + 4) targets.length).map .temp)) ++
        TemplateManifest.loopCounters (.temp (first + 2)) (.temp (first + 3)) ++ body)) := by
    refine code_append ?_ (hbody.mono (by grind))
    rw [← List.append_nil (loopAssignments _ _)]
    refine code_append (loopBindings targets (fun n => ?_) (first + 4)) ?_
    · cases unpack <;> exact .read (by simp) (.read (by simp) .none)
    · exact loopCounters (by simp) (by simp)
  refine .cons (.assign hframe) (.of_notable_eq_nil (by simp (disch := decide))) ?_
  cases otherwise with
  | none =>
    rw [hnone rfl]
    exact .loop hiterated harray heach hpop
  | some code => exact .loopElse hiterated harray heach (hsome code rfl) hpop

theorem closure {cx : CodeContext} (hbody : Emits [] flow (.code body)) :
    Emits known [.function [] flow] (.uses (cx.closure body).notable) := by
  have hcode : Emits (List.map .param [] ++ []) ([] ++ flow)
      (.code (.declare (.named "output") (some (.string "")) :: body)) :=
    .declareNamed (by simp) .none (hbody.mono (List.nil_subset _))
  exact .function (.inl rfl) hcode (by simp (disch := decide)) .none

/-- A macro has the variables of its parameters without defaults, and reads what keyword arguments
    it gets. -/
theorem macroBody {isCaller : Bool} {params : List String} {defaults : List (String × Expr)}
    {before : List Flow}
    (hdefaults : Emits [.named "kwargs"] before (.code (defaultSettings defaults)))
    (hbody : Emits [] flow (.code body)) :
    Emits (params.map .param ++ [.named "kwargs"]) (before ++ flow)
      (.code (TemplateManifest.macroBody isCaller params defaults body)) := by
  have hframe {known : List Variable} :
      ∀ v ∈ [Variable.named "frame"], v.isCommon = true ∨ v ∈ known := by
    simp [Variable.isCommon, commonNames]
  have hnewFrame {known : List Variable} {flow : List Flow} {body : List Stmt}
      (h : Emits known flow (.code body)) :
      Emits known flow (.code (macroFrame isCaller :: body)) := by
    cases isCaller <;> exact .cons (.assign hframe) (.of_notable_eq_nil (by simp (disch := decide))) h
  have hkwargs {known : List Variable} (h : .named "kwargs" ∈ known) :
      Emits known [] (.uses (name "kwargs").notable) := of_variable h
  have hsettings {known : List Variable} (h : ∀ p ∈ params, .param p ∈ known) :
      Emits known [] (.code (positionalSettings params)) := by
    clear hdefaults hnewFrame
    induction params with
    | nil => exact .done
    | cons p params ih =>
      obtain ⟨hp, hparams⟩ := List.forall_mem_cons.mp h
      exact .setFrame (of_variable hp) (ih hparams)
  change Emits _ ([] ++ (before ++ flow)) _
  refine .declareNamed (by simp) (.of_notable_eq_nil (by simp (disch := decide))) (hnewFrame ?_)
  refine .cons (.assign (by simp)) ((hkwargs (by simp)).of_notable_eq (by simp)) ?_
  refine .guard ((hkwargs (by simp)).of_notable_eq (by simp)) (.setFrame (hkwargs (by simp)) .done) ?_
  refine (hsettings (by simp)).code_append ?_
  refine code_append (hdefaults.mono (by simp)) ?_
  rw [← List.append_nil flow]
  change Emits _ ([] ++ (flow ++ [])) _
  refine .declareNamed (by simp) .none ?_
  refine code_append (hbody.mono (List.nil_subset _)) (.cons (.assign hframe) ?_ .done)
  exact of_variable (by simp)

theorem makeMacro {cx : CodeContext} {isCaller : Bool} {params : List String}
    {defaults : List (String × Expr)} {before : List Flow}
    (hdefaults : Emits [.named "kwargs"] before (.code (defaultSettings defaults)))
    (hbody : Emits [] flow (.code body)) :
    Emits known [.function params (before ++ flow)]
      (.uses (cx.makeMacro isCaller params defaults body).notable) := by
  rw [notable_makeMacro]
  exact .function (.inr rfl) (macroBody hdefaults hbody) (by simp (disch := decide)) .none

end Emits

end TemplateManifest
