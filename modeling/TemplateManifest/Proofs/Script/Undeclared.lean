import TemplateManifest.Proofs.Script.Uses

/-!
Variables that code uses without a declaration. A variable is declared in the function in which
it is used, or in one around it, either as a parameter or by a declaration anywhere in it.
-/

namespace TemplateManifest

namespace Script

namespace Stmt

mutual

/-- What a statement does with variables, with the statements inside it, but not inside its
    functions. -/
@[simp]
def usesWithin : Stmt → List Use
  | .branch cond body | .guard cond body => cond.uses ++ usesWithinAll body
  | .branchElse cond body otherwise | .guardElse cond body otherwise =>
    cond.uses ++ (usesWithinAll body ++ usesWithinAll otherwise)
  | .countTo counter limit body => .write counter :: .read limit :: usesWithinAll body
  | .forKeys key object body => .write key :: (object.uses ++ usesWithinAll body)
  | .declare v value => uses (.declare v value)
  | .assignAll targets value => uses (.assignAll targets value)
  | .append v value => uses (.append v value)
  | .run value | .throw value | .return value => value.uses

/-- What some statements do with variables, with the statements inside them. -/
@[simp]
def usesWithinAll : List Stmt → List Use
  | [] => []
  | s :: body => s.usesWithin ++ usesWithinAll body

end

@[simp]
theorem usesWithinAll_append (body body' : List Stmt) :
    usesWithinAll (body ++ body') = usesWithinAll body ++ usesWithinAll body' := by
  induction body with
  | nil => rfl
  | cons s body ih => simp [usesWithinAll, ih]

end Stmt

/-- The variable is read or set here, or in a function that starts here and does not declare
    it. -/
inductive Mentions (v : Variable) : List Use → Prop where
  | read {us : List Use} (h : .read v ∈ us) : Mentions v us
  | write {us : List Use} (h : .write v ∈ us) : Mentions v us
  | function {us : List Use} {params : List Variable} {body : List Stmt}
      (h : .function params body ∈ us) (hparams : v ∉ params) (hbody : v ∉ Stmt.declaresAll body)
      (hinside : Mentions v (Stmt.usesWithinAll body)) : Mentions v us

namespace Mentions

variable {v : Variable} {us us' : List Use}

theorem mono (h : Mentions v us) (hus : us ⊆ us') : Mentions v us' := by
  cases h with
  | read h => exact .read (hus h)
  | write h => exact .write (hus h)
  | function h hparams hbody hinside => exact .function (hus h) hparams hbody hinside

@[simp]
theorem not_nil : ¬ Mentions v [] := by
  rintro (h | h | ⟨h, -, -, -⟩) <;> cases h

@[simp]
theorem append_iff : Mentions v (us ++ us') ↔ Mentions v us ∨ Mentions v us' := by
  constructor
  · rintro (h | h | ⟨h, hparams, hbody, hinside⟩)
    · exact (List.mem_append.mp h).imp .read .read
    · exact (List.mem_append.mp h).imp .write .write
    · exact (List.mem_append.mp h).imp (.function · hparams hbody hinside)
        (.function · hparams hbody hinside)
  · rintro (h | h)
    · exact h.mono (List.subset_append_left _ _)
    · exact h.mono (List.subset_append_right _ _)

theorem cons_iff {use : Use} : Mentions v (use :: us) ↔ Mentions v [use] ∨ Mentions v us := by
  rw [← append_iff, List.singleton_append]

@[simp]
theorem read_cons {w : Variable} : Mentions v (.read w :: us) ↔ v = w ∨ Mentions v us := by
  refine cons_iff.trans (or_congr_left ⟨?_, ?_⟩)
  · rintro (h | h | ⟨h, -, -, -⟩) <;> cases List.mem_singleton.mp h
    rfl
  · rintro rfl
    exact .read (List.mem_singleton_self _)

@[simp]
theorem write_cons {w : Variable} : Mentions v (.write w :: us) ↔ v = w ∨ Mentions v us := by
  refine cons_iff.trans (or_congr_left ⟨?_, ?_⟩)
  · rintro (h | h | ⟨h, -, -, -⟩) <;> cases List.mem_singleton.mp h
    rfl
  · rintro rfl
    exact .write (List.mem_singleton_self _)

@[simp]
theorem symbol_cons {pos : Position} {name : String} {code : Expr} :
    Mentions v (.symbol pos name code :: us) ↔ Mentions v us := by
  refine cons_iff.trans (or_iff_right ?_)
  rintro (h | h | ⟨h, -, -, -⟩) <;> cases List.mem_singleton.mp h

@[simp]
theorem function_cons {params : List Variable} {body : List Stmt} :
    Mentions v (.function params body :: us) ↔
      (v ∉ params ∧ v ∉ Stmt.declaresAll body ∧ Mentions v (Stmt.usesWithinAll body)) ∨
        Mentions v us := by
  refine cons_iff.trans (or_congr_left ⟨?_, ?_⟩)
  · rintro (h | h | ⟨h, hparams, hbody, hinside⟩) <;> cases List.mem_singleton.mp h
    exact ⟨hparams, hbody, hinside⟩
  · rintro ⟨hparams, hbody, hinside⟩
    exact .function (List.mem_singleton_self _) hparams hbody hinside

@[simp]
theorem map_write_iff {ws : List Variable} : Mentions v (ws.map .write) ↔ v ∈ ws := by
  induction ws with
  | nil => simp
  | cons w ws ih => simp [ih]

/-- Leaving out common variables does not matter for another one. -/
theorem notable_iff (hv : v.isCommon = false) {e : Expr} :
    Mentions v e.notable ↔ Mentions v e.uses := by
  rw [Expr.notable]
  constructor
  · exact fun h => h.mono (List.filter_subset_self _)
  · rintro (h | h | ⟨h, hparams, hbody, hinside⟩)
    · exact .read (List.mem_filter.mpr ⟨h, by simp [Use.isNotable, hv]⟩)
    · exact .write (List.mem_filter.mpr ⟨h, by simp [Use.isNotable, hv]⟩)
    · exact .function (List.mem_filter.mpr ⟨h, rfl⟩) hparams hbody hinside

end Mentions

/-- The variables that every render function gets. -/
def renderParameters : List Variable :=
  [.named "env", .named "context", .named "frame", .named "runtime"]

/-- A render function, or a function in it, uses the variable although no function around that
    place declares it. -/
def Undeclared (v : Variable) (function : List Stmt) : Prop :=
  v ∉ renderParameters ∧ v ∉ Stmt.declaresAll function ∧
    Mentions v (Stmt.usesWithinAll function)

/-- The names that code generation introduces itself, numbered temporaries and the variables of
    parameters apart. -/
def introducedNames : List String :=
  ["parentTemplate", "output", "lineno", "colno", "frame", "context", "env", "runtime", "kwargs",
    "callerFrame"]

/-- The variable is one that code generation introduces itself. -/
def Variable.IsIntroduced : Variable → Prop
  | .named name => name ∈ introducedNames
  | .temp _ | .param _ => True

end Script

end TemplateManifest
