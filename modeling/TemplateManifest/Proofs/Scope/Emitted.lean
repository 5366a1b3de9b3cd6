import TemplateManifest.Proofs.Scope.Flow

/-!
Which code stands for a flow. The relation says of each step what its code is made of; that
compiling a template gives such code is a theorem, and so is what follows for the variables of
the code. Besides the variables of the flow, code may read the ones that it has just set.
-/

namespace TemplateManifest

open Script Vocabulary

namespace Script

/-- A part of emitted code: what expressions do with variables, or statements. -/
inductive Piece where
  | uses (us : List Use)
  | code (body : List Stmt)

/-- The statement evaluates an expression and has no other effect on variables than to set
    common or known ones. -/
inductive Does (known : List Variable) : Stmt → Expr → Prop where
  | assign {targets : List Variable} {value : Expr}
      (htargets : ∀ v ∈ targets, v.isCommon = true ∨ v ∈ known) :
      Does known (.assignAll targets value) value
  | append {v : Variable} {value : Expr} (hv : v.isCommon = true) :
      Does known (.append v value) value
  | run {value : Expr} : Does known (.run value) value

/-- The code of a loop after the declaration of what it runs over: `prepare` makes that an array,
    and `each` is the code for one item. -/
def loopBody (first : Nat) (prepare each : List Stmt) (otherwise : Option (List Stmt)) :
    List Stmt :=
  let arr : Variable := .temp (first + 1)
  let len : Variable := .temp (first + 2)
  .branch (.variable arr)
      (prepare ++ [.declare len (some (.member (.variable arr) "length")),
        .countTo (.temp (first + 3)) len each]) ::
    (otherwise.map fun body => .branch (.signed .not (.variable len)) body).toList

/-- The template whose variable is `v` becomes the parent, and its blocks become known. -/
def adoptParent (v : Variable) : List Stmt :=
  let blocks : Expr := .member (name "parentTemplate") "blocks"
  [.assignAll [.named "parentTemplate"] (.variable v),
   .forKeys (.named "n") blocks
    [.run (method (name "context") "addBlock" [name "n", .index blocks (name "n")])]]

theorem Does.mono {known known' : List Variable} {s : Stmt} {value : Expr}
    (h : Does known s value) (hknown : known ⊆ known') : Does known' s value := by
  cases h with
  | assign htargets => exact .assign fun v hv => (htargets v hv).imp_right fun h => hknown h
  | append hv => exact .append hv
  | run => exact .run

end Script

/-- The piece of code stands for the flow. It may read the variables `known`, and nothing else
    but common variables and the holders of symbols. -/
inductive Emits : List Variable → List Flow → Piece → Prop where
  | none {known : List Variable} : Emits known [] (.uses [])
  | read {known : List Variable} {flow : List Flow} {us : List Use} {v : Variable}
      (hv : v ∈ known) (h : Emits known flow (.uses us)) :
      Emits known flow (.uses (.read v :: us))
  | held {known : List Variable} {flow : List Flow} {us : List Use} {pos : Position}
      {name : String} {visible : Visible} {x : Holder} (hx : visible.holder? name = some x)
      (h : Emits known flow (.uses us)) :
      Emits known (.symbol pos name visible :: flow)
        (.uses (.symbol pos name (.variable x.variable) :: .read x.variable :: us))
  | unheld {known : List Variable} {flow : List Flow} {us : List Use} {pos : Position}
      {name : String} {visible : Visible} (hx : visible.holder? name = .none)
      (h : Emits known flow (.uses us)) :
      Emits known (.symbol pos name visible :: flow)
        (.uses (.symbol pos name (contextLookup name) :: us))
  | function {known : List Variable} {flow inside : List Flow} {us : List Use}
      {params : List String} {extra : List Variable} {body : List Stmt} {result : Expr}
      (hextra : extra = [] ∨ extra = [.named "kwargs"])
      (hbody : Emits (params.map .param ++ extra) inside (.code body))
      (hresult : result.notable = []) (h : Emits known flow (.uses us)) :
      Emits known (.function params inside :: flow)
        (.uses (.function (params.map .param ++ extra) (body ++ [.return result]) :: us))
  | done {known : List Variable} : Emits known [] (.code [])
  | step {known : List Variable} {before flow : List Flow} {s : Stmt} {value : Expr}
      {body : List Stmt} (hs : Does known s value)
      (hvalue : Emits known before (.uses value.notable)) (h : Emits known flow (.code body)) :
      Emits known (before ++ flow) (.code (s :: body))
  | guard {known : List Variable} {flow : List Flow} {cond : Expr} {guarded body : List Stmt}
      (hcond : Emits known [] (.uses cond.notable)) (hguarded : Emits known [] (.code guarded))
      (h : Emits known flow (.code body)) : Emits known flow (.code (.guard cond guarded :: body))
  | declareNamed {known : List Variable} {before flow : List Flow} {name : String} {value : Expr}
      {body : List Stmt} (hname : name ∈ ["output", "callerFrame"]) (hvalue : Emits known before (.uses value.notable))
      (h : Emits (.named name :: known) flow (.code body)) :
      Emits known (before ++ flow) (.code (.declare (.named name) (some value) :: body))
  | declare {known : List Variable} {before flow : List Flow} {index : Nat} {value : Expr}
      {body : List Stmt} (hvalue : Emits known before (.uses value.notable))
      (h : Emits (.temp index :: known) flow (.code body)) :
      Emits known (before ++ .assign [.temporary index] :: flow)
        (.code (.declare (.temp index) (some value) :: body))
  | assign {known : List Variable} {before flow : List Flow} {holders : List Holder}
      {value : Expr} {body : List Stmt} (hvalue : Emits known before (.uses value.notable))
      (h : Emits (holders.map Holder.variable ++ known) flow (.code body)) :
      Emits known (before ++ .assign holders :: flow)
        (.code (holders.map (fun x => .declare x.variable .none) ++
          .assignAll (holders.map Holder.variable) value :: body))
  | member {known : List Variable} {flow : List Flow} {index : Nat} {cond value error : Expr}
      {body : List Stmt} (hcond : Emits known [] (.uses cond.notable))
      (hvalue : Emits known [] (.uses value.notable))
      (herror : Emits known [] (.uses error.notable))
      (h : Emits (.temp index :: known) flow (.code body)) :
      Emits known (.assign [.temporary index] :: flow)
        (.code (.declare (.temp index) .none ::
          .guardElse cond [.assignAll [.temp index] value] [.throw error] :: body))
  | branch {known : List Variable} {before inside flow : List Flow} {cond : Expr}
      {taken body : List Stmt} (hcond : Emits known before (.uses cond.notable))
      (htaken : Emits known inside (.code taken)) (h : Emits known flow (.code body)) :
      Emits known (before ++ .branch inside [] :: flow) (.code (.branch cond taken :: body))
  | branchElse {known : List Variable} {before inside other flow : List Flow} {cond : Expr}
      {taken otherwise body : List Stmt} (hcond : Emits known before (.uses cond.notable))
      (htaken : Emits known inside (.code taken)) (hother : Emits known other (.code otherwise))
      (h : Emits known flow (.code body)) :
      Emits known (before ++ .branch inside other :: flow)
        (.code (.branchElse cond taken otherwise :: body))
  | loop {known : List Variable} {before inside flow : List Flow} {first : Nat} {iterated : Expr}
      {prepare each body : List Stmt}
      (hiterated : Emits known before (.uses iterated.notable))
      (hprepare : Emits (.temp (first + 1) :: known) [] (.code prepare))
      (heach : Emits (.temp (first + 3) :: .temp (first + 2) :: .temp (first + 1) :: known) inside
        (.code each))
      (h : Emits known flow (.code body)) :
      Emits known (before ++ .loop first inside false [] :: flow)
        (.code (.declare (.temp (first + 1)) (some iterated) ::
          (loopBody first prepare each .none ++ body)))
  | loopElse {known : List Variable} {before inside other flow : List Flow} {first : Nat}
      {iterated : Expr} {prepare each otherwise body : List Stmt}
      (hiterated : Emits known before (.uses iterated.notable))
      (hprepare : Emits (.temp (first + 1) :: known) [] (.code prepare))
      (heach : Emits (.temp (first + 3) :: .temp (first + 2) :: .temp (first + 1) :: known) inside
        (.code each))
      (hother : Emits known other (.code otherwise)) (h : Emits known flow (.code body)) :
      Emits known (before ++ .loop first inside true other :: flow)
        (.code (.declare (.temp (first + 1)) (some iterated) ::
          (loopBody first prepare each (some otherwise) ++ body)))
  | block {known : List Variable} {flow : List Flow} {b : PendingBlock} {call : Expr}
      {body : List Stmt} (hcall : call.notable = []) (h : Emits known flow (.code body)) :
      Emits known (.block b :: flow)
        (.code (.branch (.signed .not (name "parentTemplate")) [.append (.named "output") call] ::
          body))
  | parent {known : List Variable} {flow : List Flow} {v : Variable} {body : List Stmt}
      (hv : v ∈ known) (h : Emits known flow (.code body)) :
      Emits known (.parent :: flow) (.code (adoptParent v ++ body))

namespace Emits

variable {known known' : List Variable} {flow flow' : List Flow} {us us' : List Use}
  {body body' : List Stmt}

/-- More variables may be known. -/
theorem mono {p : Piece} (h : Emits known flow p) (hknown : known ⊆ known') :
    Emits known' flow p := by
  induction h generalizing known' with
  | none => exact .none
  | read hv _ ih => exact .read (hknown hv) (ih hknown)
  | held hx _ ih => exact .held hx (ih hknown)
  | unheld hx _ ih => exact .unheld hx (ih hknown)
  | function hextra hbody hresult _ _ ih => exact .function hextra hbody hresult (ih hknown)
  | done => exact .done
  | step hs _ _ ihvalue ih => exact .step (hs.mono hknown) (ihvalue hknown) (ih hknown)
  | guard _ _ _ ihcond ihguarded ih =>
    exact .guard (ihcond hknown) (ihguarded hknown) (ih hknown)
  | declareNamed hname _ _ ihvalue ih =>
    exact .declareNamed hname (ihvalue hknown) (ih (List.cons_subset_cons _ hknown))
  | declare _ _ ihvalue ih => exact .declare (ihvalue hknown) (ih (List.cons_subset_cons _ hknown))
  | assign _ _ ihvalue ih =>
    refine .assign (ihvalue hknown) (ih (List.append_subset.mpr ⟨?_, ?_⟩))
    · exact List.subset_append_left _ _
    · exact List.subset_append_of_subset_right _ hknown
  | member _ _ _ _ ihcond ihvalue iherror ih =>
    exact .member (ihcond hknown) (ihvalue hknown) (iherror hknown)
      (ih (List.cons_subset_cons _ hknown))
  | branch _ _ _ ihcond ihtaken ih => exact .branch (ihcond hknown) (ihtaken hknown) (ih hknown)
  | branchElse _ _ _ _ ihcond ihtaken ihother ih =>
    exact .branchElse (ihcond hknown) (ihtaken hknown) (ihother hknown) (ih hknown)
  | loop _ _ _ _ ihiterated ihprepare iheach ih =>
    have harr {v : Variable} := List.cons_subset_cons v hknown
    exact .loop (ihiterated hknown) (ihprepare harr)
      (iheach (List.cons_subset_cons _ (List.cons_subset_cons _ harr))) (ih hknown)
  | loopElse _ _ _ _ _ ihiterated ihprepare iheach ihother ih =>
    have harr {v : Variable} := List.cons_subset_cons v hknown
    exact .loopElse (ihiterated hknown) (ihprepare harr)
      (iheach (List.cons_subset_cons _ (List.cons_subset_cons _ harr))) (ihother hknown) (ih hknown)
  | block hcall _ ih => exact .block hcall (ih hknown)
  | parent hv _ ih => exact .parent (hknown hv) (ih hknown)

theorem uses_append (h : Emits known flow (.uses us)) (h' : Emits known flow' (.uses us')) :
    Emits known (flow ++ flow') (.uses (us ++ us')) := by
  generalize hp : Piece.uses us = p at h
  induction h generalizing us with
  | none =>
    cases hp
    exact h'
  | read hv _ ih =>
    cases hp
    exact .read hv (ih h' rfl)
  | held hx _ ih =>
    cases hp
    exact .held hx (ih h' rfl)
  | unheld hx _ ih =>
    cases hp
    exact .unheld hx (ih h' rfl)
  | function hextra hbody hresult _ _ ih =>
    cases hp
    exact .function hextra hbody hresult (ih h' rfl)
  | _ => cases hp

theorem code_append (h : Emits known flow (.code body)) (h' : Emits known flow' (.code body')) :
    Emits known (flow ++ flow') (.code (body ++ body')) := by
  generalize hp : Piece.code body = p at h
  induction h generalizing body with
  | done =>
    cases hp
    exact h'
  | step hs hvalue _ _ ih =>
    cases hp
    rw [List.append_assoc]
    exact .step hs hvalue (ih h' rfl)
  | guard hcond hguarded _ _ _ ih =>
    cases hp
    exact .guard hcond hguarded (ih h' rfl)
  | declareNamed hname hvalue _ _ ih =>
    cases hp
    rw [List.append_assoc]
    exact .declareNamed hname hvalue (ih (h'.mono (List.subset_cons_self _ _)) rfl)
  | declare hvalue _ _ ih =>
    cases hp
    rw [List.append_assoc]
    exact .declare hvalue (ih (h'.mono (List.subset_cons_self _ _)) rfl)
  | assign hvalue _ _ ih =>
    cases hp
    rw [List.append_assoc, List.append_assoc]
    exact .assign hvalue (ih (h'.mono (List.subset_append_right _ _)) rfl)
  | member hcond hvalue herror _ _ _ _ ih =>
    cases hp
    exact .member hcond hvalue herror (ih (h'.mono (List.subset_cons_self _ _)) rfl)
  | branch hcond htaken _ _ _ ih =>
    cases hp
    rw [List.append_assoc]
    exact .branch hcond htaken (ih h' rfl)
  | branchElse hcond htaken hother _ _ _ _ ih =>
    cases hp
    rw [List.append_assoc]
    exact .branchElse hcond htaken hother (ih h' rfl)
  | loop hiterated hprepare heach _ _ _ _ ih =>
    cases hp
    rw [List.append_assoc, List.cons_append, List.cons_append, List.append_assoc]
    exact .loop hiterated hprepare heach (ih h' rfl)
  | loopElse hiterated hprepare heach hother _ _ _ _ _ ih =>
    cases hp
    rw [List.append_assoc, List.cons_append, List.cons_append, List.append_assoc]
    exact .loopElse hiterated hprepare heach hother (ih h' rfl)
  | block hcall _ ih =>
    cases hp
    exact .block hcall (ih h' rfl)
  | parent hv _ ih =>
    cases hp
    rw [List.append_assoc]
    exact .parent hv (ih h' rfl)
  | _ => cases hp

end Emits

end TemplateManifest
