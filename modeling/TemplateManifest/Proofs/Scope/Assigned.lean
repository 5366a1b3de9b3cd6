import TemplateManifest.Proofs.Scope.Declared
import TemplateManifest.Proofs.Script.Paths

/-!
Which temporaries emitted code may read before it has set them. A flow says where its symbols read
variables and where variables get their values, so the paths through the emitted code can be
followed in the flow. Main statement: `Template.assignsBeforeReads_compile`.
-/

namespace TemplateManifest

open Script Vocabulary

namespace Holder

variable {x : Holder}

@[simp]
theorem temp_eq_variable {index : Nat} : .temp index = x.variable ↔ x = .temporary index := by
  cases x <;> simp [eq_comm]

@[simp]
theorem named_ne_variable {text : String} : ¬ .named text = x.variable := by
  cases x <;> simp

@[simp]
theorem variable_ne_named {text : String} : ¬ x.variable = .named text := by
  cases x <;> simp

end Holder

namespace Flow

/-- The status of a variable after a loop has got what it runs over. -/
def loopStarted (first : Nat) (x : Holder) (status : Status) : Status :=
  status.setIf (x = .temporary (first + 1))

/-- The status of a variable where the body of a loop starts. -/
def loopEntered (first : Nat) (x : Holder) (status : Status) : Status :=
  ((loopStarted first x status).setIf (x = .temporary (first + 2))).setIf
    (x = .temporary (first + 3))

@[simp]
theorem loopStarted_set (first : Nat) (x : Holder) : loopStarted first x .set = .set := by
  simp [loopStarted]

@[simp]
theorem loopEntered_set (first : Nat) (x : Holder) : loopEntered first x .set = .set := by
  simp [loopEntered]

mutual

/-- The status that the variable may have after a flow, from the one before. -/
@[simp]
def outcomes (x : Holder) : Flow → Status → List Status
  | assign holders, status => [status.setIf (x ∈ holders)]
  | branch body otherwise, status => outcomesAll x body status ++ outcomesAll x otherwise status
  | loop first body hasElse otherwise, status =>
    -- Nothing to run over, no items, or some.
    let passed := loopStarted first x status :: loopEntered first x status ::
      outcomesAll x body (loopEntered first x status)
    if hasElse then passed ++ passed.flatMap (outcomesAll x otherwise) else passed
  | symbol _ _ _, status | function _ _, status | block _, status | parent, status => [status]

/-- The status that the variable may have after some flows. -/
@[simp]
def outcomesAll (x : Holder) : List Flow → Status → List Status
  | [], status => [status]
  | step :: flow, status => (step.outcomes x status).flatMap (outcomesAll x flow)

end

mutual

/-- Some path through the flow comes to a read of the variable while it is not set. -/
@[simp]
def exposes (x : Holder) (asking : Bool) : Flow → Status → Bool
  | symbol _ name visible, status => status = .unset ∧ visible.holder? name = some x
  | branch body otherwise, status => exposesAll x asking body status || exposesAll x asking otherwise status
  | loop first body hasElse otherwise, status =>
    exposesAll x asking body (loopEntered first x status) ||
      -- An else asks for the number of items, which is not set if there is nothing to run over.
      (hasElse && ((asking ∧ status = .unset ∧ x = .temporary (first + 2)) ||
        (outcomes x (.loop first body false []) status).any (exposesAll x asking otherwise)))
  | function params body, status =>
    x ∉ params.map .parameter && exposesAll x asking body (status.unsetIf (x ∈ declaresAll body))
  | assign _, _ | block _, _ | parent, _ => false

/-- Some path through the flows comes to a read of the variable while it is not set. -/
@[simp]
def exposesAll (x : Holder) (asking : Bool) : List Flow → Status → Bool
  | [], _ => false
  | step :: flow, status =>
    step.exposes x asking status || (step.outcomes x status).any (exposesAll x asking flow)

end

theorem outcomesAll_append (x : Holder) (flow flow' : List Flow) (status : Status) :
    outcomesAll x (flow ++ flow') status =
      (outcomesAll x flow status).flatMap (outcomesAll x flow') := by
  induction flow generalizing status with
  | nil => simp
  | cons step flow ih =>
    rw [List.cons_append, outcomesAll, outcomesAll, List.flatMap_assoc, funext ih]

mutual

/-- What is set stays set. -/
theorem outcomes_of_set {x : Holder} {after : Status} : ∀ step : Flow,
    after ∈ step.outcomes x .set → after = .set
  | .symbol _ _ _, h | .function _ _, h | .block _, h | .parent, h => List.mem_singleton.mp h
  | .assign holders, h => by
    rw [List.mem_singleton.mp h]
    simp
  | .branch body otherwise, h =>
    (List.mem_append.mp h).elim (outcomesAll_of_set body) (outcomesAll_of_set otherwise)
  | .loop first body hasElse otherwise, h => by
    have hentered : loopEntered first x .set = .set := loopEntered_set first x
    have hpassed {passed : Status} (h : passed ∈ loopStarted first x .set ::
        loopEntered first x .set :: outcomesAll x body (loopEntered first x .set)) :
        passed = .set := by
      rw [hentered, List.mem_cons, List.mem_cons] at h
      rcases h with rfl | rfl | h
      · simp
      · rfl
      · exact outcomesAll_of_set body h
    rw [outcomes] at h
    split at h
    · rcases List.mem_append.mp h with h | h
      · exact hpassed h
      · obtain ⟨passed, hmem, h⟩ := List.mem_flatMap.mp h
        rw [hpassed hmem] at h
        exact outcomesAll_of_set otherwise h
    · exact hpassed h

theorem outcomesAll_of_set {x : Holder} {after : Status} : ∀ flow : List Flow,
    after ∈ outcomesAll x flow .set → after = .set
  | [], h => List.mem_singleton.mp h
  | step :: flow, h => by
    obtain ⟨between, hmem, h⟩ := List.mem_flatMap.mp h
    rw [outcomes_of_set step hmem] at h
    exact outcomesAll_of_set flow h

end

theorem exposesAll_append (x : Holder) (asking : Bool) (flow flow' : List Flow) (status : Status) :
    exposesAll x asking (flow ++ flow') status = true ↔
      exposesAll x asking flow status = true ∨
        ∃ after ∈ outcomesAll x flow status, exposesAll x asking flow' after = true := by
  induction flow generalizing status with
  | nil => simp
  | cons step flow ih =>
    simp only [List.cons_append, exposesAll, outcomesAll, Bool.or_eq_true, List.any_eq_true, ih,
      List.mem_flatMap]
    grind

end Flow

namespace Script

/-- The status that a variable may have after a piece of code, from the one before. -/
@[simp]
def Piece.outcomes (v : Variable) : Piece → Status → List Status
  | .uses _, status => [status]
  | .code body, status => Stmt.outcomesAll v body status

/-- Some path through a piece of code reads the variable while it is not set. -/
@[simp]
def Piece.ReadsUnset (v : Variable) (asking : Bool) (status : Status) : Piece → Prop
  | .uses us => UsesUnset v asking status us
  | .code body => Script.ReadsUnset v asking status body

section Loops

variable {first : Nat} {prepare each : List Stmt} {inside : List Flow} {x : Holder}
  {asking : Bool} {status : Status}

end Loops

end Script

namespace Emits

variable {known : List Variable} {flow : List Flow} {p : Piece}

end Emits

namespace Flow

mutual

/-- A branch gives the variable its first value, or an inner function gives a value to a variable
    of the same name although this one has a value outside. -/
def unsettles (x : Holder) : Flow → Status → Bool
  | branch body otherwise, status =>
    status = .unset ∧ (x ∈ declaresAll body ∨ x ∈ declaresAll otherwise) ||
      unsettlesAll x body status || unsettlesAll x otherwise status
  | loop first body _ otherwise, status =>
    unsettlesAll x body (loopEntered first x status) || status = .unset ∧ x ∈ declaresAll otherwise ||
      (outcomes x (.loop first body false []) status).any (unsettlesAll x otherwise)
  | function _ body, status =>
    status = .set ∧ x ∈ declaresAll body || unsettlesAll x body status
  | symbol _ _ _, _ | assign _, _ | block _, _ | parent, _ => false

/-- A branch in some flows gives the variable its first value, or an inner function gives a value
    to a variable of the same name although this one has a value outside. -/
def unsettlesAll (x : Holder) : List Flow → Status → Bool
  | [], _ => false
  | step :: flow, status =>
    step.unsettles x status || (step.outcomes x status).any (unsettlesAll x flow)

end

theorem unsettlesAll_append (x : Holder) (flow flow' : List Flow) (status : Status) :
    unsettlesAll x (flow ++ flow') status = true ↔
      unsettlesAll x flow status = true ∨
        ∃ after ∈ outcomesAll x flow status, unsettlesAll x flow' after = true := by
  induction flow generalizing status with
  | nil => simp [unsettlesAll]
  | cons step flow ih =>
    simp only [List.cons_append, unsettlesAll, outcomesAll, Bool.or_eq_true, List.any_eq_true, ih,
      List.mem_flatMap]
    grind

/-- The variable is set where a symbol of the flow reads it, and where it is visible after the
    flow. -/
structure Settled (x : Holder) (status : Status) (flow : List Flow) (after : Visible) : Prop where
  exposes : exposesAll x false flow status = false
  visible : ∀ status' ∈ outcomesAll x flow status, after.Holds x → status' = .set

variable {x : Holder} {status : Status} {flow flow' : List Flow} {between after : Visible}

theorem unsettlesAll_append_eq_false (h : unsettlesAll x (flow ++ flow') status = false) :
    unsettlesAll x flow status = false ∧
      ∀ status' ∈ outcomesAll x flow status, unsettlesAll x flow' status' = false := by
  rw [← Bool.not_eq_true, unsettlesAll_append] at h
  push Not at h
  exact ⟨Bool.eq_false_iff.mpr h.1, fun status' hmem => Bool.eq_false_iff.mpr (h.2 status' hmem)⟩

theorem Settled.append (h : Settled x status flow between)
    (h' : ∀ status' ∈ outcomesAll x flow status, Settled x status' flow' after) :
    Settled x status (flow ++ flow') after := by
  refine ⟨?_, fun status' hmem => ?_⟩
  · rw [← Bool.not_eq_true, exposesAll_append]
    rintro (hexposes | ⟨status', hmem, hexposes⟩)
    · exact Bool.eq_false_iff.mp h.exposes hexposes
    · exact Bool.eq_false_iff.mp (h' status' hmem).exposes hexposes
  · rw [outcomesAll_append, List.mem_flatMap] at hmem
    obtain ⟨status₁, hmem₁, hmem⟩ := hmem
    exact (h' status₁ hmem₁).visible status' hmem

/-- Assignments set what becomes visible by them. -/
theorem Settled.of_assign {before : Visible} {holders : List Holder}
    (hcontained : Contained before [.assign holders] after)
    (hvisible : before.Holds x → status = .set) :
    Settled x status [.assign holders] after := by
  refine ⟨rfl, fun status' hmem hx => ?_⟩
  simp only [outcomesAll, outcomes, List.flatMap_singleton, List.mem_singleton] at hmem
  rw [hmem, Status.setIf_eq_set]
  rcases hcontained.visible x hx with hx | hx
  · exact .inr (hvisible hx)
  · exact .inl (by simpa using hx)

theorem outcomesAll_loopAssignments (x : Holder) (first count : Nat) (status : Status) :
    outcomesAll x (loopAssignments first count) status =
      [status.setIf (x ∈ (List.range' (first + 4) count).map .temporary)] := by
  unfold loopAssignments
  generalize List.range' (first + 4) count = indices
  induction indices generalizing status with
  | nil => simp [Status.setIf]
  | cons index indices ih =>
    rw [List.map_cons, outcomesAll, outcomes, List.flatMap_singleton, ih]
    simp [Status.setIf]
    grind

theorem exposesAll_loopAssignments (x : Holder) (asking : Bool) (first count : Nat)
    (status : Status) : exposesAll x asking (loopAssignments first count) status = false := by
  unfold loopAssignments
  generalize List.range' (first + 4) count = indices
  induction indices generalizing status with
  | nil => rfl
  | cons index indices ih => simp [ih]

/-- A loop sets its targets. -/
theorem settled_loopTargets {before : Visible} (first : Nat) (targets : List String)
    (hvisible : before.Holds x → status = .set) :
    Settled x status (loopAssignments first targets.length)
      ((loopTargets first targets).reverse ++ before) := by
  refine ⟨exposesAll_loopAssignments .., fun status' hmem hx => ?_⟩
  rw [outcomesAll_loopAssignments, ← declaresAll_loopAssignments, List.mem_singleton] at hmem
  rw [hmem, Status.setIf_eq_set]
  exact ((contained_loopTargets first targets before).visible x hx).symm.imp_right hvisible

theorem exposesAll_loop {first : Nat} {body otherwise : List Flow} {hasElse : Bool}
    (hbody : exposesAll x false body (loopEntered first x status) = false)
    (hother : ∀ passed ∈ outcomes x (.loop first body false []) status,
      exposesAll x false otherwise passed = false) :
    exposesAll x false [.loop first body hasElse otherwise] status = false := by
  have hany : (outcomes x (.loop first body false []) status).any (exposesAll x false otherwise) =
      false :=
    List.any_eq_false.mpr fun passed hmem => Bool.eq_false_iff.mp (hother passed hmem)
  rw [exposesAll, exposes, hbody, hany]
  simp

/-- A variable that is visible after a flow is set on every path if it was set before or the flow
    can only be passed with a value for it. -/
theorem status_eq_set_of_holds {before : Visible} (hcontained : Contained before flow after)
    (hvisible : before.Holds x → status = .set)
    (hdeclares : ¬ (status = .unset ∧ x ∈ declaresAll flow)) (hx : after.Holds x) :
    status = .set := by
  cases status with
  | set => rfl
  | unset => exact (hcontained.visible x hx).elim hvisible fun h => absurd ⟨rfl, h⟩ hdeclares

end Flow

open Flow

mutual

theorem Outline.settled_flow {index : Nat} : ∀ (step : Outline) (σ : Scoping) (status : Status),
    (σ.visible.Holds (.temporary index) → status = .set) →
      unsettlesAll (.temporary index) (step.flow σ).1 status = false →
        Flow.Settled (.temporary index) status (step.flow σ).1 (step.flow σ).2.visible
  | .symbol pos name, σ, status, hvisible, _ => by
    refine ⟨?_, by simpa [flow] using hvisible⟩
    simp only [flow, exposesAll, exposes, outcomes, List.any_cons, List.any_nil, Bool.or_false,
      decide_eq_false_iff_not]
    rintro ⟨rfl, hholder⟩
    exact absurd (hvisible (Visible.holds_of_holder? hholder)) nofun
  | .block _, σ, status, hvisible, _ | .parent, σ, status, hvisible, _ =>
    ⟨rfl, by simpa [flow] using hvisible⟩
  | .assign names, σ, status, hvisible, _ => .of_assign (contained_assign names _ _) hvisible
  | .define name inner, σ, status, hvisible, hsettles => by
    have hinner := Outline.settled_flowAll inner { σ with temps := σ.temps + 1 } status hvisible
      (unsettlesAll_append_eq_false hsettles).1
    exact hinner.append fun status' hmem =>
      .of_assign (contained_define name _ _) (hinner.visible status' hmem)
  | .branch body otherwise, σ, status, hvisible, hsettles => by
    have hτ := Outline.contained_flowAll body σ
    have hυ := Outline.contained_flowAll otherwise (flowAll body σ).2
    simp only [flow, unsettlesAll, unsettles, Bool.or_eq_false_iff, decide_eq_false_iff_not]
      at hsettles
    obtain ⟨⟨⟨hfirst, hbody⟩, hother⟩, -⟩ := hsettles
    have hbodySettled := Outline.settled_flowAll body σ status hvisible hbody
    have hbetween := status_eq_set_of_holds hτ hvisible fun h => hfirst ⟨h.1, .inl h.2⟩
    have hotherSettled := Outline.settled_flowAll otherwise _ status hbetween hother
    have hafter := status_eq_set_of_holds hυ hbetween fun h => hfirst ⟨h.1, .inr h.2⟩
    refine ⟨?_, fun status' hmem hx => ?_⟩
    · simp [flow, hbodySettled.exposes, hotherSettled.exposes]
    · obtain rfl := hafter hx
      exact outcomesAll_of_set _ hmem
  | .loop targets body hasElse otherwise, σ, status, hvisible, hsettles => by
    let inside : Scoping := Scoping.bind (loopTargets σ.temps targets)
      { σ with temps := σ.temps + 3 + targets.length }
    let after : Scoping := { σ with temps := (flowAll body inside).2.temps }
    simp only [flow, unsettlesAll, unsettles, Bool.or_eq_false_iff, decide_eq_false_iff_not,
      List.any_eq_false] at hsettles
    obtain ⟨⟨⟨hitems, hbranch⟩, hpassed⟩, -⟩ := hsettles
    have hentered (hx : σ.visible.Holds (.temporary index)) :
        loopEntered σ.temps (.temporary index) status = .set := by
      rw [hvisible hx, loopEntered_set]
    have htargets := settled_loopTargets σ.temps targets hentered
    have hbody := htargets.append fun status' hmem => Outline.settled_flowAll body inside status'
      (htargets.visible status' hmem) ((unsettlesAll_append_eq_false hitems).2 status' hmem)
    have hother (passed : Status) (hmem : passed ∈ _) := Outline.settled_flowAll otherwise after
      passed (fun hx => outcomes_of_set _ (hvisible hx ▸ hmem))
      (Bool.eq_false_iff.mpr (hpassed passed hmem))
    have hafter := status_eq_set_of_holds (Outline.contained_flowAll otherwise after) hvisible
      hbranch
    refine ⟨?_, fun status' hmem hx => ?_⟩
    · exact exposesAll_loop hbody.exposes fun passed hmem => (hother passed hmem).exposes
    · obtain rfl := hafter hx
      exact outcomesAll_of_set _ hmem
  | .function params defaults body, σ, status, hvisible, hsettles => by
    simp only [flow, unsettlesAll, unsettles, Bool.or_eq_false_iff, decide_eq_false_iff_not]
      at hsettles
    obtain ⟨⟨hset, hinside⟩, -⟩ := hsettles
    obtain ⟨hdefaults, hbody⟩ := unsettlesAll_append_eq_false hinside
    -- No parameter is a temporary.
    have houter {entries : Visible} {τ : Scoping}
        (hentries : ∀ x, Visible.Holds entries x → x ∈ (positionalNames params).map .parameter)
        (hx : (τ.bind entries).visible.Holds (.temporary index)) :
        τ.visible.Holds (.temporary index) := by
      refine (Scoping.holds_bind.mp hx).resolve_left fun hx => ?_
      obtain ⟨_, _, heq⟩ := List.mem_map.mp (hentries _ hx)
      cases heq
    have hbefore := Outline.settled_flowAll defaults _ status
      (fun hx => hvisible (houter (fun _ => holds_positional) hx)) hdefaults
    have hinside := hbefore.append fun status' hmem => Outline.settled_flowAll body _ status'
      (fun hx => by
        have houtside : σ.visible.Holds (.temporary index) :=
          houter (fun _ => holds_parameterBinding) hx
        exact outcomesAll_of_set _ (hvisible houtside ▸ hmem))
      (hbody status' hmem)
    refine ⟨?_, by simpa [flow] using hvisible⟩
    simp only [flow, exposesAll, exposes, Status.unsetIf_eq_self hset, hinside.exposes]
    simp

theorem Outline.settled_flowAll {index : Nat} : ∀ (steps : List Outline) (σ : Scoping)
    (status : Status), (σ.visible.Holds (.temporary index) → status = .set) →
      unsettlesAll (.temporary index) (flowAll steps σ).1 status = false →
        Flow.Settled (.temporary index) status (flowAll steps σ).1 (flowAll steps σ).2.visible
  | [], _, status, hvisible, _ => ⟨rfl, by simpa [flowAll] using hvisible⟩
  | step :: steps, σ, status, hvisible, hsettles => by
    obtain ⟨hfirst, hrest⟩ := unsettlesAll_append_eq_false hsettles
    have hstep := Outline.settled_flow step σ status hvisible hfirst
    exact hstep.append fun status' hmem => Outline.settled_flowAll steps _ status'
      (hstep.visible status' hmem) (hrest status' hmem)

end

section Functions

variable {temps : Nat} {start finish : List Stmt} {body : List Node} {function : List Stmt}

end Functions

end TemplateManifest
