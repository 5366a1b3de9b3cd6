import TemplateManifest.Proofs.Script.Uses

/-!
Paths through emitted code on which a variable is read before it is set. A variable is followed
alone: at each point of a path it is set or not. A function may run as soon as it exists, and with
a declaration in it the variable starts unset there, since a declaration counts for the whole
function around it.
-/

namespace TemplateManifest

namespace Script

/-- Whether a variable has got a value at some point of a path. -/
inductive Status where
  | unset
  | set
deriving DecidableEq, Repr

/-- The status after something that sets the variable under a condition. -/
def Status.setIf (status : Status) (p : Prop) [Decidable p] : Status :=
  if p then set else status

/-- The status after something that makes a new variable of the same name under a condition. -/
def Status.unsetIf (status : Status) (p : Prop) [Decidable p] : Status :=
  if p then unset else status

@[simp, grind =]
theorem Status.setIf_eq_set {status : Status} {p : Prop} [Decidable p] :
    status.setIf p = set ↔ p ∨ status = set := by
  unfold setIf
  split <;> simp [*]

theorem Status.unsetIf_eq_self {status : Status} {p : Prop} [Decidable p]
    (h : ¬ (status = set ∧ p)) : status.unsetIf p = status := by
  unfold unsetIf
  split
  · next hp =>
    cases status with
    | unset => rfl
    | set => exact absurd ⟨rfl, hp⟩ h
  · rfl

namespace Stmt

mutual

/-- The status that the variable may have after a statement, from the one before. Nothing comes
    after a statement that leaves the function. -/
@[simp]
def outcomes (v : Variable) : Stmt → Status → List Status
  | .declare w (some _), status | .append w _, status => [status.setIf (w = v)]
  | .declare _ none, status | .run _, status => [status]
  | .assignAll targets _, status => [status.setIf (v ∈ targets)]
  | .throw _, _ | .return _, _ => []
  | .branch _ body, status | .guard _ body, status => status :: outcomesAll v body status
  | .branchElse _ body otherwise, status | .guardElse _ body otherwise, status =>
    outcomesAll v body status ++ outcomesAll v otherwise status
  -- The counter is set even if there is nothing to count.
  | .countTo counter _ body, status =>
    status.setIf (counter = v) :: outcomesAll v body (status.setIf (counter = v))
  | .forKeys key _ body, status => status :: outcomesAll v body (status.setIf (key = v))

/-- The status that the variable may have after some statements. -/
@[simp]
def outcomesAll (v : Variable) : List Stmt → Status → List Status
  | [], status => [status]
  | s :: body, status => (s.outcomes v status).flatMap (outcomesAll v body)

end

/-- The status of the variable where a body of the statement starts. -/
@[simp]
def entry (v : Variable) : Stmt → Status → Status
  | .countTo w _ _, status | .forKeys w _ _, status => status.setIf (w = v)
  | _, status => status

theorem outcomesAll_append (v : Variable) (body body' : List Stmt) (status : Status) :
    outcomesAll v (body ++ body') status =
      (outcomesAll v body status).flatMap (outcomesAll v body') := by
  induction body generalizing status with
  | nil => simp
  | cons s body ih =>
    rw [List.cons_append, outcomesAll, outcomesAll, List.flatMap_assoc, funext ih]

end Stmt

/-- The uses of a statement that count. What merely asks whether a temporary has got a value, as
    the else of a loop does, may be left out; the code of a condition of the template is marked
    with its node and always counts. -/
def Stmt.counted (asking : Bool) : Stmt → List Use
  | .branch (.signed .not (.variable v)) _ => if asking then [.read v] else []
  | s => s.uses

@[simp]
theorem Stmt.counted_ask (asking : Bool) (v : Variable) (body : List Stmt) :
    (branch (.signed .not (.variable v)) body).counted asking =
      if asking then [.read v] else [] := rfl

/-- A path through the code, on which the variable starts set or not, comes to a read of the
    variable while it is not set. Expressions are not trusted to set it. -/
inductive ReadsUnset (v : Variable) (asking : Bool) : Status → List Stmt → Prop where
  | read {s : Stmt} {body : List Stmt} (h : .read v ∈ s.counted asking) :
      ReadsUnset v asking .unset (s :: body)
  | function {status : Status} {s : Stmt} {params : List Variable} {inner body : List Stmt}
      (h : .function params inner ∈ s.counted asking) (hparams : v ∉ params)
      (hinner : ReadsUnset v asking (status.unsetIf (v ∈ Stmt.declaresAll inner)) inner) :
      ReadsUnset v asking status (s :: body)
  | inside {status : Status} {s : Stmt} {inner body : List Stmt} (h : inner ∈ s.bodies)
      (hinner : ReadsUnset v asking (s.entry v status) inner) : ReadsUnset v asking status (s :: body)
  | next {status after : Status} {s : Stmt} {body : List Stmt} (h : after ∈ s.outcomes v status)
      (hbody : ReadsUnset v asking after body) : ReadsUnset v asking status (s :: body)

/-- The uses read the variable while it is not set, or have a function in them that does. -/
inductive UsesUnset (v : Variable) (asking : Bool) (status : Status) (us : List Use) : Prop where
  | read (hset : status = .unset) (h : .read v ∈ us)
  | function {params : List Variable} {inner : List Stmt} (h : .function params inner ∈ us)
      (hparams : v ∉ params) (hinner : ReadsUnset v asking (status.unsetIf (v ∈ Stmt.declaresAll inner)) inner)

namespace UsesUnset

variable {v : Variable} {asking : Bool} {status : Status} {us us' : List Use}

theorem mono (h : UsesUnset v asking status us) (hus : us ⊆ us') : UsesUnset v asking status us' := by
  cases h with
  | read hset h => exact .read hset (hus h)
  | function h hparams hinner => exact .function (hus h) hparams hinner

@[simp]
theorem not_nil : ¬ UsesUnset v asking status [] := by
  rintro (⟨-, h⟩ | ⟨h, -, -⟩) <;> cases h

@[simp]
theorem append_iff :
    UsesUnset v asking status (us ++ us') ↔ UsesUnset v asking status us ∨ UsesUnset v asking status us' := by
  constructor
  · rintro (⟨hset, h⟩ | ⟨h, hparams, hinner⟩)
    · exact (List.mem_append.mp h).imp (.read hset) (.read hset)
    · exact (List.mem_append.mp h).imp (.function · hparams hinner) (.function · hparams hinner)
  · rintro (h | h)
    · exact h.mono (List.subset_append_left _ _)
    · exact h.mono (List.subset_append_right _ _)

theorem cons_iff {use : Use} :
    UsesUnset v asking status (use :: us) ↔ UsesUnset v asking status [use] ∨ UsesUnset v asking status us := by
  rw [← append_iff, List.singleton_append]

@[simp]
theorem read_cons {w : Variable} :
    UsesUnset v asking status (.read w :: us) ↔ status = .unset ∧ v = w ∨ UsesUnset v asking status us := by
  refine cons_iff.trans (or_congr_left ⟨?_, ?_⟩)
  · rintro (⟨hset, h⟩ | ⟨h, -, -⟩) <;> cases List.mem_singleton.mp h
    exact ⟨hset, rfl⟩
  · rintro ⟨hset, rfl⟩
    exact .read hset (List.mem_singleton_self _)

@[simp]
theorem write_cons {w : Variable} :
    UsesUnset v asking status (.write w :: us) ↔ UsesUnset v asking status us := by
  refine cons_iff.trans (or_iff_right ?_)
  rintro (⟨-, h⟩ | ⟨h, -, -⟩) <;> cases List.mem_singleton.mp h

@[simp]
theorem symbol_cons {pos : Position} {name : String} {code : Expr} :
    UsesUnset v asking status (.symbol pos name code :: us) ↔ UsesUnset v asking status us := by
  refine cons_iff.trans (or_iff_right ?_)
  rintro (⟨-, h⟩ | ⟨h, -, -⟩) <;> cases List.mem_singleton.mp h

@[simp]
theorem function_cons {params : List Variable} {inner : List Stmt} :
    UsesUnset v asking status (.function params inner :: us) ↔
      v ∉ params ∧ ReadsUnset v asking (status.unsetIf (v ∈ Stmt.declaresAll inner)) inner ∨
        UsesUnset v asking status us := by
  refine cons_iff.trans (or_congr_left ⟨?_, ?_⟩)
  · rintro (⟨-, h⟩ | ⟨h, hparams, hinner⟩) <;> cases List.mem_singleton.mp h
    exact ⟨hparams, hinner⟩
  · rintro ⟨hparams, hinner⟩
    exact .function (List.mem_singleton_self _) hparams hinner

@[simp]
theorem not_map_write {ws : List Variable} : ¬ UsesUnset v asking status (ws.map .write) := by
  induction ws with
  | nil => simp
  | cons w ws ih => simpa using ih

/-- Leaving out common variables does not matter for another one. -/
theorem notable_iff (hv : v.isCommon = false) {e : Expr} :
    UsesUnset v asking status e.notable ↔ UsesUnset v asking status e.uses := by
  rw [Expr.notable]
  constructor
  · exact fun h => h.mono (List.filter_subset_self _)
  · rintro (⟨hset, h⟩ | ⟨h, hparams, hinner⟩)
    · exact .read hset (List.mem_filter.mpr ⟨h, by simp [Use.isNotable, hv]⟩)
    · exact .function (List.mem_filter.mpr ⟨h, rfl⟩) hparams hinner

end UsesUnset

namespace ReadsUnset

variable {v : Variable} {asking : Bool} {status : Status} {s : Stmt} {body body' : List Stmt}

@[simp]
theorem not_nil : ¬ ReadsUnset v asking status [] := nofun

@[simp]
theorem cons_iff : ReadsUnset v asking status (s :: body) ↔
    UsesUnset v asking status (s.counted asking) ∨ (∃ inner ∈ s.bodies, ReadsUnset v asking (s.entry v status) inner) ∨
      ∃ after ∈ s.outcomes v status, ReadsUnset v asking after body := by
  constructor
  · rintro (h | ⟨h, hparams, hinner⟩ | ⟨h, hinner⟩ | ⟨h, hbody⟩)
    · exact .inl (.read rfl h)
    · exact .inl (.function h hparams hinner)
    · exact .inr (.inl ⟨_, h, hinner⟩)
    · exact .inr (.inr ⟨_, h, hbody⟩)
  · rintro ((⟨rfl, h⟩ | ⟨h, hparams, hinner⟩) | ⟨_, h, hinner⟩ | ⟨_, h, hbody⟩)
    · exact .read h
    · exact .function h hparams hinner
    · exact .inside h hinner
    · exact .next h hbody

theorem append_iff : ReadsUnset v asking status (body ++ body') ↔
    ReadsUnset v asking status body ∨
      ∃ after ∈ Stmt.outcomesAll v body status, ReadsUnset v asking after body' := by
  induction body generalizing status with
  | nil => simp
  | cons s body ih =>
    simp only [List.cons_append, cons_iff, ih, Stmt.outcomesAll, List.mem_flatMap]
    grind

end ReadsUnset

end Script

end TemplateManifest
