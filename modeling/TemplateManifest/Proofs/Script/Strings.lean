import TemplateManifest.Proofs.Script.Balanced
import TemplateManifest.Proofs.Script.Parts

/-!
Emitted code is clean if the words in it have no quotes and no brackets; then its text is balanced, and
the strings of the text are those of the code. Main statement: `Module.balanced_text`.
-/

namespace TemplateManifest

open Text

namespace Script

instance (text : List Char) : Decidable (Unmarked text) :=
  List.decidableBAll (· ∉ scanMarks) text

theorem unmarked_append {text more : List Char} :
    Unmarked (text ++ more) ↔ Unmarked text ∧ Unmarked more :=
  List.forall_mem_append

/-- The name of the variable has no quote and no bracket. -/
def Variable.IsClean (v : Variable) : Prop :=
  Unmarked v.text.toList

section Clean

variable (allowed : Expr → Prop)

mutual

/-- The names and constants in an expression have no quotes and no brackets, and its strings and the
    codes of nodes in it are allowed. -/
def Expr.IsClean : Expr → Prop
  | .variable v => v.IsClean
  | .constant text => Unmarked text.toList
  | .string value => allowed (.string value)
  | .member target name => target.IsClean ∧ Unmarked name.toList
  | .index target key => target.IsClean ∧ key.IsClean
  | .call callee args | .create callee args => callee.IsClean ∧ Expr.AreClean args
  | .paren inner | .signed _ inner | .await inner => inner.IsClean
  | .array items | .sequence items => Expr.AreClean items
  | .object entries => Expr.AreCleanEntries entries
  | .operation _ left right => left.IsClean ∧ right.IsClean
  | .conditional cond yes no => cond.IsClean ∧ yes.IsClean ∧ no.IsClean
  | .assign v value => v.IsClean ∧ value.IsClean
  | .function _ params body => (∀ v ∈ params, v.IsClean) ∧ Stmt.AreClean body
  | .ofNode node code => allowed (.ofNode node code) ∧ code.IsClean

/-- Some expressions are clean. -/
def Expr.AreClean : List Expr → Prop
  | [] => True
  | e :: es => e.IsClean ∧ Expr.AreClean es

/-- The keys and values of an object are clean. -/
def Expr.AreCleanEntries : List (Expr × Expr) → Prop
  | [] => True
  | (key, value) :: entries => key.IsClean ∧ value.IsClean ∧ Expr.AreCleanEntries entries

/-- The names in a statement have no quotes and no brackets, and its expressions are clean. -/
def Stmt.IsClean : Stmt → Prop
  | .declare v none => v.IsClean
  | .declare v (some value) | .append v value => v.IsClean ∧ value.IsClean
  | .assignAll targets value => (∀ v ∈ targets, v.IsClean) ∧ value.IsClean
  | .run value | .throw value | .return value => value.IsClean
  | .branch cond body | .guard cond body => cond.IsClean ∧ Stmt.AreClean body
  | .branchElse cond body otherwise | .guardElse cond body otherwise =>
    cond.IsClean ∧ Stmt.AreClean body ∧ Stmt.AreClean otherwise
  | .countTo counter limit body => counter.IsClean ∧ limit.IsClean ∧ Stmt.AreClean body
  | .forKeys key object body => key.IsClean ∧ object.IsClean ∧ Stmt.AreClean body

/-- Some statements are clean. -/
def Stmt.AreClean : List Stmt → Prop
  | [] => True
  | s :: body => s.IsClean ∧ Stmt.AreClean body

end

/-- The names of a module and of its blocks have no quotes and no brackets, and its functions are
    clean. -/
structure Module.IsClean (m : Module) : Prop where
  name : Unmarked m.name.toList
  root : Stmt.AreClean allowed m.root
  blocks : ∀ b ∈ m.blocks, Unmarked b.name.toList ∧ Stmt.AreClean allowed b.body

end Clean

section Allowed

variable {allowed : Expr → Prop}

section Forms

variable {e e' e'' : Expr} {es : List Expr} {body body' : List Stmt} {v : Variable}

@[simp]
theorem isClean_variable : (Expr.variable v).IsClean allowed ↔ v.IsClean := Iff.rfl

@[simp]
theorem isClean_constant {text : String} (h : Unmarked text.toList) :
    (Expr.constant text).IsClean allowed := h

@[simp]
theorem isClean_string {value : String} :
    (Expr.string value).IsClean allowed ↔ allowed (.string value) := Iff.rfl

@[simp]
theorem isClean_member {name : String} (h : Unmarked name.toList) :
    (Expr.member e name).IsClean allowed ↔ e.IsClean allowed := and_iff_left h

@[simp]
theorem isClean_index :
    (Expr.index e e').IsClean allowed ↔ e.IsClean allowed ∧ e'.IsClean allowed := Iff.rfl

@[simp]
theorem isClean_call :
    (Expr.call e es).IsClean allowed ↔ e.IsClean allowed ∧ Expr.AreClean allowed es := Iff.rfl

@[simp]
theorem isClean_create :
    (Expr.create e es).IsClean allowed ↔ e.IsClean allowed ∧ Expr.AreClean allowed es := Iff.rfl

@[simp]
theorem isClean_paren : (Expr.paren e).IsClean allowed ↔ e.IsClean allowed := Iff.rfl

@[simp]
theorem isClean_array : (Expr.array es).IsClean allowed ↔ Expr.AreClean allowed es := Iff.rfl

@[simp]
theorem isClean_object {entries : List (Expr × Expr)} :
    (Expr.object entries).IsClean allowed ↔ Expr.AreCleanEntries allowed entries := Iff.rfl

@[simp]
theorem isClean_operation {op : Operator} :
    (Expr.operation op e e').IsClean allowed ↔ e.IsClean allowed ∧ e'.IsClean allowed := Iff.rfl

@[simp]
theorem isClean_signed {sign : Sign} : (Expr.signed sign e).IsClean allowed ↔ e.IsClean allowed :=
  Iff.rfl

@[simp]
theorem isClean_conditional :
    (Expr.conditional e e' e'').IsClean allowed ↔
      e.IsClean allowed ∧ e'.IsClean allowed ∧ e''.IsClean allowed := Iff.rfl

@[simp]
theorem isClean_await : (Expr.await e).IsClean allowed ↔ e.IsClean allowed := Iff.rfl

@[simp]
theorem isClean_assign : (Expr.assign v e).IsClean allowed ↔ v.IsClean ∧ e.IsClean allowed := Iff.rfl

@[simp]
theorem isClean_sequence : (Expr.sequence es).IsClean allowed ↔ Expr.AreClean allowed es := Iff.rfl

@[simp]
theorem isClean_function {isAsync : Bool} {params : List Variable} :
    (Expr.function isAsync params body).IsClean allowed ↔
      (∀ v ∈ params, v.IsClean) ∧ Stmt.AreClean allowed body := Iff.rfl

@[simp]
theorem isClean_ofNode {node : Node} :
    (Expr.ofNode node e).IsClean allowed ↔ allowed (.ofNode node e) ∧ e.IsClean allowed := Iff.rfl

@[simp]
theorem areClean_nil : Expr.AreClean allowed [] := trivial

@[simp]
theorem areClean_cons :
    Expr.AreClean allowed (e :: es) ↔ e.IsClean allowed ∧ Expr.AreClean allowed es := Iff.rfl

@[simp]
theorem areCleanEntries_nil : Expr.AreCleanEntries allowed [] := trivial

@[simp]
theorem areCleanEntries_cons {entries : List (Expr × Expr)} :
    Expr.AreCleanEntries allowed ((e, e') :: entries) ↔
      e.IsClean allowed ∧ e'.IsClean allowed ∧ Expr.AreCleanEntries allowed entries := Iff.rfl

@[simp]
theorem isClean_declare : (Stmt.declare v (some e)).IsClean allowed ↔ v.IsClean ∧ e.IsClean allowed :=
  Iff.rfl

@[simp]
theorem isClean_declare_none : (Stmt.declare v none).IsClean allowed ↔ v.IsClean := Iff.rfl

@[simp]
theorem isClean_assignAll {targets : List Variable} :
    (Stmt.assignAll targets e).IsClean allowed ↔ (∀ v ∈ targets, v.IsClean) ∧ e.IsClean allowed :=
  Iff.rfl

@[simp]
theorem isClean_appendTo : (Stmt.append v e).IsClean allowed ↔ v.IsClean ∧ e.IsClean allowed := Iff.rfl

@[simp]
theorem isClean_run : (Stmt.run e).IsClean allowed ↔ e.IsClean allowed := Iff.rfl

@[simp]
theorem isClean_throw : (Stmt.throw e).IsClean allowed ↔ e.IsClean allowed := Iff.rfl

@[simp]
theorem isClean_return : (Stmt.return e).IsClean allowed ↔ e.IsClean allowed := Iff.rfl

@[simp]
theorem isClean_branch :
    (Stmt.branch e body).IsClean allowed ↔ e.IsClean allowed ∧ Stmt.AreClean allowed body := Iff.rfl

@[simp]
theorem isClean_guard :
    (Stmt.guard e body).IsClean allowed ↔ e.IsClean allowed ∧ Stmt.AreClean allowed body := Iff.rfl

@[simp]
theorem isClean_branchElse :
    (Stmt.branchElse e body body').IsClean allowed ↔
      e.IsClean allowed ∧ Stmt.AreClean allowed body ∧ Stmt.AreClean allowed body' := Iff.rfl

@[simp]
theorem isClean_guardElse :
    (Stmt.guardElse e body body').IsClean allowed ↔
      e.IsClean allowed ∧ Stmt.AreClean allowed body ∧ Stmt.AreClean allowed body' := Iff.rfl

@[simp]
theorem isClean_countTo {limit : Variable} :
    (Stmt.countTo v limit body).IsClean allowed ↔
      v.IsClean ∧ limit.IsClean ∧ Stmt.AreClean allowed body := Iff.rfl

@[simp]
theorem isClean_forKeys :
    (Stmt.forKeys v e body).IsClean allowed ↔
      v.IsClean ∧ e.IsClean allowed ∧ Stmt.AreClean allowed body := Iff.rfl

@[simp]
theorem statements_areClean_nil : Stmt.AreClean allowed [] := trivial

@[simp]
theorem statements_areClean_cons {s : Stmt} :
    Stmt.AreClean allowed (s :: body) ↔ s.IsClean allowed ∧ Stmt.AreClean allowed body := Iff.rfl

theorem Expr.areClean_iff : Expr.AreClean allowed es ↔ ∀ e ∈ es, e.IsClean allowed := by
  induction es with
  | nil => simp
  | cons e es ih => simp [ih]

theorem Stmt.areClean_iff : Stmt.AreClean allowed body ↔ ∀ s ∈ body, s.IsClean allowed := by
  induction body with
  | nil => simp
  | cons s body ih => simp [ih]

@[simp]
theorem Expr.areClean_append {es' : List Expr} :
    Expr.AreClean allowed (es ++ es') ↔ Expr.AreClean allowed es ∧ Expr.AreClean allowed es' := by
  simp only [areClean_iff, List.forall_mem_append]

@[simp]
theorem Stmt.areClean_append :
    Stmt.AreClean allowed (body ++ body') ↔
      Stmt.AreClean allowed body ∧ Stmt.AreClean allowed body' := by
  simp only [areClean_iff, List.forall_mem_append]

end Forms

/-- The expression is a string or the code of a node. -/
def Expr.isOfTemplate : Expr → Bool
  | .string _ | .ofNode _ _ => true
  | _ => false

theorem Expr.forall_mem_cons_parts {e : Expr} {parts : List Expr} (he : e.isOfTemplate = false)
    (h : ∀ part ∈ parts, part.isOfTemplate = true → allowed part) :
    ∀ part ∈ e :: parts, part.isOfTemplate = true → allowed part :=
  List.forall_mem_cons.mpr ⟨fun htrue => absurd (he.symm.trans htrue) Bool.false_ne_true, h⟩

mutual

/-- All strings and all codes of nodes inside clean code are allowed. -/
theorem Expr.allowed_of_mem_parts : ∀ {e : Expr}, e.IsClean allowed →
    ∀ part ∈ e.parts, part.isOfTemplate = true → allowed part
  | .variable _, _ | .constant _, _ => Expr.forall_mem_cons_parts rfl (List.forall_mem_nil _)
  | .string _, h => List.forall_mem_singleton.mpr fun _ => h
  | .member _ _, ⟨h, _⟩ | .assign _ _, ⟨_, h⟩ =>
    Expr.forall_mem_cons_parts rfl (Expr.allowed_of_mem_parts h)
  | .index _ _, ⟨h, h'⟩ | .operation _ _ _, ⟨h, h'⟩ =>
    Expr.forall_mem_cons_parts rfl (List.forall_mem_append.mpr
      ⟨Expr.allowed_of_mem_parts h, Expr.allowed_of_mem_parts h'⟩)
  | .call _ _, ⟨h, h'⟩ | .create _ _, ⟨h, h'⟩ =>
    Expr.forall_mem_cons_parts rfl (List.forall_mem_append.mpr
      ⟨Expr.allowed_of_mem_parts h, Expr.allowed_of_mem_partsAll h'⟩)
  | .paren inner, h | .signed _ inner, h | .await inner, h =>
    Expr.forall_mem_cons_parts rfl (Expr.allowed_of_mem_parts (e := inner) h)
  | .array items, h | .sequence items, h =>
    Expr.forall_mem_cons_parts rfl (Expr.allowed_of_mem_partsAll (show Expr.AreClean allowed items from h))
  | .object entries, h =>
    Expr.forall_mem_cons_parts rfl
      (Expr.allowed_of_mem_partsEntries (show Expr.AreCleanEntries allowed entries from h))
  | .conditional _ _ _, ⟨hcond, hyes, hno⟩ =>
    Expr.forall_mem_cons_parts rfl (List.forall_mem_append.mpr ⟨Expr.allowed_of_mem_parts hcond,
      List.forall_mem_append.mpr ⟨Expr.allowed_of_mem_parts hyes, Expr.allowed_of_mem_parts hno⟩⟩)
  | .function _ _ _, ⟨_, h⟩ => Expr.forall_mem_cons_parts rfl (Stmt.allowed_of_mem_partsAll h)
  | .ofNode _ _, ⟨h, hcode⟩ =>
    List.forall_mem_cons.mpr ⟨fun _ => h, Expr.allowed_of_mem_parts hcode⟩

theorem Expr.allowed_of_mem_partsAll : ∀ {es : List Expr}, Expr.AreClean allowed es →
    ∀ part ∈ Expr.partsAll es, part.isOfTemplate = true → allowed part
  | [], _ => List.forall_mem_nil _
  | _ :: _, ⟨h, hes⟩ => List.forall_mem_append.mpr
    ⟨Expr.allowed_of_mem_parts h, Expr.allowed_of_mem_partsAll hes⟩

theorem Expr.allowed_of_mem_partsEntries : ∀ {entries : List (Expr × Expr)},
    Expr.AreCleanEntries allowed entries →
      ∀ part ∈ Expr.partsEntries entries, part.isOfTemplate = true → allowed part
  | [], _ => List.forall_mem_nil _
  | (_, _) :: _, ⟨hkey, hvalue, hentries⟩ => List.forall_mem_append.mpr
    ⟨Expr.allowed_of_mem_parts hkey, List.forall_mem_append.mpr
      ⟨Expr.allowed_of_mem_parts hvalue, Expr.allowed_of_mem_partsEntries hentries⟩⟩

theorem Stmt.allowed_of_mem_parts : ∀ {s : Stmt}, s.IsClean allowed →
    ∀ part ∈ s.parts, part.isOfTemplate = true → allowed part
  | .declare _ none, _ => List.forall_mem_nil _
  | .declare _ (some _), ⟨_, h⟩ | .append _ _, ⟨_, h⟩ | .assignAll _ _, ⟨_, h⟩ =>
    Expr.allowed_of_mem_parts h
  | .run value, h | .throw value, h | .return value, h => Expr.allowed_of_mem_parts (e := value) h
  | .branch _ _, ⟨h, h'⟩ | .guard _ _, ⟨h, h'⟩ | .forKeys _ _ _, ⟨_, h, h'⟩ =>
    List.forall_mem_append.mpr ⟨Expr.allowed_of_mem_parts h, Stmt.allowed_of_mem_partsAll h'⟩
  | .branchElse _ _ _, ⟨h, h', h''⟩ | .guardElse _ _ _, ⟨h, h', h''⟩ =>
    List.forall_mem_append.mpr ⟨Expr.allowed_of_mem_parts h, List.forall_mem_append.mpr
      ⟨Stmt.allowed_of_mem_partsAll h', Stmt.allowed_of_mem_partsAll h''⟩⟩
  | .countTo _ _ _, ⟨_, _, h⟩ => Stmt.allowed_of_mem_partsAll h

theorem Stmt.allowed_of_mem_partsAll : ∀ {body : List Stmt}, Stmt.AreClean allowed body →
    ∀ part ∈ Stmt.partsAll body, part.isOfTemplate = true → allowed part
  | [], _ => List.forall_mem_nil _
  | _ :: _, ⟨h, hbody⟩ => List.forall_mem_append.mpr
    ⟨Stmt.allowed_of_mem_parts h, Stmt.allowed_of_mem_partsAll hbody⟩

end

theorem Module.allowed_of_mem_parts {m : Module} (h : m.IsClean allowed) :
    ∀ part ∈ m.parts, part.isOfTemplate = true → allowed part := by
  refine List.forall_mem_append.mpr ⟨Stmt.allowed_of_mem_partsAll h.root, fun part hpart => ?_⟩
  obtain ⟨b, hb, hpart⟩ := List.mem_flatMap.mp hpart
  exact Stmt.allowed_of_mem_partsAll (h.blocks b hb).2 part hpart

end Allowed

/-- The value of an expression that is a string. -/
def Expr.string? : Expr → Option String
  | .string value => some value
  | _ => none

/-- The strings among some expressions. -/
def stringsAmong (parts : List Expr) : List (List Char) :=
  (parts.filterMap Expr.string?).map String.toList

section Strings

@[simp]
theorem stringsAmong_nil : stringsAmong [] = [] := rfl

@[simp]
theorem stringsAmong_append (parts parts' : List Expr) :
    stringsAmong (parts ++ parts') = stringsAmong parts ++ stringsAmong parts' := by
  simp [stringsAmong]

@[simp]
theorem stringsAmong_cons (e : Expr) (parts : List Expr) :
    stringsAmong (e :: parts) = (e.string?.map String.toList).toList ++ stringsAmong parts := by
  rw [stringsAmong, List.filterMap_cons]
  cases e.string? <;> rfl

theorem mem_stringsAmong {parts : List Expr} {text : List Char} :
    text ∈ stringsAmong parts ↔ ∃ value, .string value ∈ parts ∧ value.toList = text := by
  rw [stringsAmong, List.mem_map]
  refine exists_congr fun value => and_congr_left fun _ => ?_
  rw [List.mem_filterMap]
  constructor
  · rintro ⟨e, he, hvalue⟩
    cases e <;> cases hvalue
    exact he
  · exact fun h => ⟨_, h, rfl⟩

end Strings

namespace Balanced

variable {text : List Char} {values : List (List Char)}

theorem eq_nil (h : Balanced [] values) : values = [] := by
  have hvalues := h [] []
  rw [Scan.run, List.foldlM_nil] at hvalues
  exact (congrArg Scan.values (Option.some.inj hvalues)).symm

/-- Words before a balanced text. -/
theorem after_word (word : List Char) (hword : Unmarked word) (h : Balanced text values) :
    Balanced (word ++ text) values :=
  (of_unmarked hword).append h

/-- Words after a balanced text. -/
theorem before_word (h : Balanced text values) (word : List Char) (hword : Unmarked word) :
    Balanced (text ++ word) values := by
  have happend := h.append (of_unmarked hword)
  rwa [List.append_nil] at happend

/-- A balanced text in braces, after a line break or a blank. -/
theorem block (h : Balanced text values) (c : Char) (hc : c ∉ scanMarks) :
    Balanced ('{' :: c :: (text ++ ['}'])) values :=
  (h.after_word [c] (List.forall_mem_singleton.mpr hc)).bracket '{' rfl

/-- A balanced text and further ones, with commas between them. -/
theorem commaJoin_cons {first : String} {texts : List String} {values' : List (List Char)}
    (h : Balanced first.toList values) (h' : Balanced (commaJoin texts).toList values') :
    Balanced (commaJoin (first :: texts)).toList (values ++ values') := by
  cases texts with
  | nil =>
    rw [h'.eq_nil, List.append_nil]
    simpa [commaJoin] using h
  | cons second texts =>
    have hrest := h.append (h'.after_word [',', ' '] (by decide))
    simpa only [toList_commaJoin, List.map_cons, List.intercalate_cons_cons, List.append_assoc]
      using hrest

end Balanced

theorem unmarked_intercalate {sep : List Char} (hsep : Unmarked sep) {texts : List (List Char)}
    (h : ∀ text ∈ texts, Unmarked text) : Unmarked (List.intercalate sep texts) := by
  induction texts with
  | nil => exact List.forall_mem_nil _
  | cons text texts ih =>
    obtain ⟨htext, htexts⟩ := List.forall_mem_cons.mp h
    cases texts with
    | nil => simpa using htext
    | cons next texts =>
      rw [List.intercalate_cons_cons]
      exact unmarked_append.mpr ⟨unmarked_append.mpr ⟨htext, hsep⟩, ih htexts⟩

theorem unmarked_operator (op : Operator) : Unmarked op.text.toList := by
  cases op <;> decide

theorem unmarked_sign (sign : Sign) : Unmarked sign.text.toList := by
  cases sign <;> decide

theorem unmarked_functionWords (isAsync : Bool) : Unmarked (functionWords isAsync).toList := by
  cases isAsync <;> decide

theorem unmarked_variables {vs : List Variable} (h : ∀ v ∈ vs, v.IsClean) :
    ∀ text ∈ (vs.map Variable.text).map String.toList, Unmarked text := by
  simpa [Variable.IsClean] using h

section Balanced

variable {allowed : Expr → Prop}

mutual

theorem Expr.balanced_text : ∀ {e : Expr}, e.IsClean allowed →
    Balanced e.text.toList (stringsAmong e.parts)
  | .variable v, h => .of_unmarked h
  | .constant text, h => .of_unmarked h
  | .string value, _ => by
    rw [Expr.text, toList_quote]
    exact .quote value.toList
  | .member target name, ⟨htarget, hname⟩ => by
    have h := (Expr.balanced_text htarget).before_word ('.' :: name.toList)
      (List.forall_mem_cons.mpr ⟨by decide, hname⟩)
    simpa [Expr.text, Expr.parts, Expr.string?] using h
  | .index target key, ⟨htarget, hkey⟩ => by
    have h := (Expr.balanced_text htarget).append
      ((Expr.balanced_text hkey).bracket '[' rfl)
    simpa [Expr.text, Expr.parts, Expr.string?] using h
  | .call callee args, ⟨hcallee, hargs⟩ => by
    have h := (Expr.balanced_text hcallee).append
      ((Expr.balanced_commaJoin hargs).bracket '(' rfl)
    simpa [Expr.text, Expr.parts, Expr.string?] using h
  | .create callee args, ⟨hcallee, hargs⟩ => by
    have h := ((Expr.balanced_text hcallee).append
      ((Expr.balanced_commaJoin hargs).bracket '(' rfl)).after_word "new ".toList (by decide)
    simpa [Expr.text, Expr.parts, Expr.string?] using h
  | .paren inner, h => by
    have h := (Expr.balanced_text (e := inner) h).bracket '(' rfl
    simpa [Expr.text, Expr.parts, Expr.string?] using h
  | .array items, h => by
    have h := (Expr.balanced_commaJoin (show Expr.AreClean allowed items from h)).bracket '[' rfl
    simpa [Expr.text, Expr.parts, Expr.string?] using h
  | .object entries, h => by
    have h := (Expr.balanced_entries (show Expr.AreCleanEntries allowed entries from h)).bracket '{' rfl
    simpa [Expr.text, Expr.parts, Expr.string?] using h
  | .operation op left right, ⟨hleft, hright⟩ => by
    have hop : Unmarked (' ' :: (op.text.toList ++ [' '])) :=
      List.forall_mem_cons.mpr ⟨by decide, unmarked_append.mpr ⟨unmarked_operator op, by decide⟩⟩
    have h := (Expr.balanced_text hleft).append ((Expr.balanced_text hright).after_word _ hop)
    simpa [Expr.text, Expr.parts, Expr.string?] using h
  | .signed sign operand, h => by
    have h := (Expr.balanced_text (e := operand) h).after_word _ (unmarked_sign sign)
    simpa [Expr.text, Expr.parts, Expr.string?] using h
  | .conditional cond yes no, ⟨hcond, hyes, hno⟩ => by
    have h := (Expr.balanced_text hcond).append (((Expr.balanced_text hyes).append
      ((Expr.balanced_text hno).after_word " : ".toList (by decide))).after_word " ? ".toList (by decide))
    simpa [Expr.text, Expr.parts, Expr.string?] using h
  | .await promise, h => by
    have h := (Expr.balanced_text (e := promise) h).after_word "await ".toList (by decide)
    simpa [Expr.text, Expr.parts, Expr.string?] using h
  | .assign v value, ⟨hv, hvalue⟩ => by
    have h := ((Expr.balanced_text hvalue).after_word " = ".toList (by decide)).after_word _ hv
    simpa [Expr.text, Expr.parts, Expr.string?] using h
  | .sequence items, h => by
    have h := Expr.balanced_commaJoin (show Expr.AreClean allowed items from h)
    simpa [Expr.text, Expr.parts, Expr.string?] using h
  | .function isAsync params body, ⟨hparams, hbody⟩ => by
    have hhead : Balanced (commaJoin (params.map Variable.text)).toList [] :=
      .of_unmarked (toList_commaJoin _ ▸ unmarked_intercalate (by decide) (unmarked_variables hparams))
    have h := (((hhead.bracket '(' rfl).append
      (((Stmt.balanced_lines hbody).block '\n' (by decide)).after_word [' '] (by decide))).after_word
        [' '] (by decide)).after_word _ (unmarked_functionWords isAsync)
    simpa [Expr.text, Expr.parts, Expr.string?] using h
  | .ofNode node code, ⟨_, h⟩ => by
    have h := Expr.balanced_text h
    simpa [Expr.text, Expr.parts, Expr.string?] using h

theorem Expr.balanced_commaJoin : ∀ {es : List Expr}, Expr.AreClean allowed es →
    Balanced (commaJoin (Expr.texts es)).toList (stringsAmong (Expr.partsAll es))
  | [], _ => .nil
  | _ :: _, ⟨he, hes⟩ => by
    rw [Expr.partsAll, stringsAmong_append]
    exact (Expr.balanced_text he).commaJoin_cons (Expr.balanced_commaJoin hes)

theorem Expr.balanced_entries : ∀ {entries : List (Expr × Expr)}, Expr.AreCleanEntries allowed entries →
    Balanced (commaJoin (Expr.entryTexts entries)).toList (stringsAmong (Expr.partsEntries entries))
  | [], _ => .nil
  | (key, value) :: _, ⟨hkey, hvalue, hentries⟩ => by
    have hentry := (Expr.balanced_text hkey).append
      ((Expr.balanced_text hvalue).after_word ": ".toList (by decide))
    have h : Balanced (key.text ++ ": " ++ value.text).toList
        (stringsAmong key.parts ++ stringsAmong value.parts) := by
      simpa using hentry
    rw [Expr.partsEntries, stringsAmong_append, stringsAmong_append, ← List.append_assoc]
    exact h.commaJoin_cons (Expr.balanced_entries hentries)

theorem Stmt.balanced_text : ∀ {s : Stmt}, s.IsClean allowed →
    Balanced s.text.toList (stringsAmong s.parts)
  | .declare v none, h => by
    have h := ((Balanced.of_unmarked h).after_word "var ".toList (by decide)).before_word [';'] (by decide)
    simpa [Stmt.text, Stmt.parts] using h
  | .declare v (some value), ⟨hv, hvalue⟩ => by
    have h := ((((Expr.balanced_text hvalue).after_word " = ".toList (by decide)).after_word _ hv).after_word
      "var ".toList (by decide)).before_word [';'] (by decide)
    simpa [Stmt.text, Stmt.parts] using h
  | .assignAll targets value, ⟨htargets, hvalue⟩ => by
    have hnames := unmarked_intercalate (show Unmarked " = ".toList by decide) (unmarked_variables htargets)
    have h := (((Expr.balanced_text hvalue).after_word " = ".toList (by decide)).after_word _
      hnames).before_word [';'] (by decide)
    simpa [Stmt.text, Stmt.parts] using h
  | .append v value, ⟨hv, hvalue⟩ => by
    have h := (((Expr.balanced_text hvalue).after_word " += ".toList (by decide)).after_word _
      hv).before_word [';'] (by decide)
    simpa [Stmt.text, Stmt.parts] using h
  | .run value, h => by
    have h := (Expr.balanced_text (e := value) h).before_word [';'] (by decide)
    simpa [Stmt.text, Stmt.parts] using h
  | .throw value, h => by
    have h := ((Expr.balanced_text (e := value) h).after_word "throw ".toList (by decide)).before_word
      [';'] (by decide)
    simpa [Stmt.text, Stmt.parts] using h
  | .return value, h => by
    have h := ((Expr.balanced_text (e := value) h).after_word "return ".toList (by decide)).before_word
      [';'] (by decide)
    simpa [Stmt.text, Stmt.parts] using h
  | .branch cond body, ⟨hcond, hbody⟩ => by
    have h := (((Expr.balanced_text hcond).bracket '(' rfl).append
      (((Stmt.balanced_lines hbody).block '\n' (by decide)).after_word [' '] (by decide))).after_word
      "if ".toList (by decide)
    simpa [Stmt.text, Stmt.parts] using h
  | .guard cond body, ⟨hcond, hbody⟩ => by
    have h := (((Expr.balanced_text hcond).bracket '(' rfl).append
      (((Stmt.balanced_spaced hbody).block ' ' (by decide)).after_word [' '] (by decide))).after_word
      "if ".toList (by decide)
    simpa [Stmt.text, Stmt.parts] using h
  | .branchElse cond body otherwise, ⟨hcond, hbody, hotherwise⟩ => by
    have h := (((Expr.balanced_text hcond).bracket '(' rfl).append
      ((((Stmt.balanced_lines hbody).block '\n' (by decide)).append
        (((Stmt.balanced_lines hotherwise).block '\n' (by decide)).after_word " else ".toList
          (by decide))).after_word [' '] (by decide))).after_word "if ".toList (by decide)
    simpa [Stmt.text, Stmt.parts] using h
  | .guardElse cond body otherwise, ⟨hcond, hbody, hotherwise⟩ => by
    have h := (((Expr.balanced_text hcond).bracket '(' rfl).append
      ((((Stmt.balanced_spaced hbody).block ' ' (by decide)).append
        (((Stmt.balanced_spaced hotherwise).block ' ' (by decide)).after_word " else ".toList
          (by decide))).after_word [' '] (by decide))).after_word "if ".toList (by decide)
    simpa [Stmt.text, Stmt.parts] using h
  | .countTo counter limit body, ⟨hcounter, hlimit, hbody⟩ => by
    have hhead : Balanced ("var ".toList ++ (counter.text.toList ++ (" = 0; ".toList ++
        (counter.text.toList ++ (" < ".toList ++ (limit.text.toList ++ ("; ".toList ++
          (counter.text.toList ++ "++".toList)))))))) [] := by
      refine .of_unmarked ?_
      simp only [unmarked_append]
      exact ⟨by decide, hcounter, by decide, hcounter, by decide, hlimit, by decide, hcounter,
        by decide⟩
    have h := ((hhead.bracket '(' rfl).append
      (((Stmt.balanced_lines hbody).block '\n' (by decide)).after_word [' '] (by decide))).after_word
      "for ".toList (by decide)
    simpa [Stmt.text, Stmt.parts, countHead] using h
  | .forKeys key object body, ⟨hkey, hobject, hbody⟩ => by
    have hhead := (((Expr.balanced_text hobject).after_word " in ".toList (by decide)).after_word _
      hkey).after_word "var ".toList (by decide)
    have h := ((hhead.bracket '(' rfl).append
      (((Stmt.balanced_spaced hbody).block ' ' (by decide)).after_word [' '] (by decide))).after_word
      "for ".toList (by decide)
    simpa [Stmt.text, Stmt.parts] using h

theorem Stmt.balanced_lines : ∀ {body : List Stmt}, Stmt.AreClean allowed body →
    Balanced (Stmt.lines body).toList (stringsAmong (Stmt.partsAll body))
  | [], _ => .nil
  | _ :: _, ⟨hs, hbody⟩ => by
    have h := (Stmt.balanced_text hs).append
      ((Stmt.balanced_lines hbody).after_word ['\n'] (by decide))
    simpa [Stmt.lines, Stmt.partsAll] using h

theorem Stmt.balanced_spaced : ∀ {body : List Stmt}, Stmt.AreClean allowed body →
    Balanced (Stmt.spaced body).toList (stringsAmong (Stmt.partsAll body))
  | [], _ => .nil
  | _ :: _, ⟨hs, hbody⟩ => by
    have h := (Stmt.balanced_text hs).append
      ((Stmt.balanced_spaced hbody).after_word [' '] (by decide))
    simpa [Stmt.spaced, Stmt.partsAll] using h

end

theorem balanced_functionText (isAsync : Bool) {name : String} {body : List Stmt}
    (hname : Unmarked name.toList) (hbody : Stmt.AreClean allowed body) :
    Balanced (functionText isAsync name body).toList (stringsAmong (Stmt.partsAll body)) := by
  have hparams : Balanced "env, context, frame, runtime".toList [] := .of_unmarked (by decide)
  have h := (((hparams.bracket '(' rfl).append
    ((((Stmt.balanced_lines hbody).block '\n' (by decide)).after_word [' '] (by decide)).before_word
      ['\n'] (by decide))).after_word _ hname).after_word _
      (unmarked_append.mpr ⟨unmarked_functionWords isAsync, show Unmarked [' '] by decide⟩)
  simpa [functionText] using h

theorem balanced_functions (isAsync : Bool) {blocks : List BlockFunction}
    (h : ∀ b ∈ blocks, Unmarked b.name.toList ∧ Stmt.AreClean allowed b.body) :
    Balanced (blocks.flatMap fun b => (functionText isAsync b.functionName b.body).toList)
      (stringsAmong (blocks.flatMap fun b => Stmt.partsAll b.body)) := by
  induction blocks with
  | nil => exact .nil
  | cons b blocks ih =>
    obtain ⟨⟨hname, hbody⟩, hblocks⟩ := List.forall_mem_cons.mp h
    have hfunction : Unmarked b.functionName.toList := by
      rw [BlockFunction.functionName, String.toList_append]
      exact unmarked_append.mpr ⟨by decide, hname⟩
    rw [List.flatMap_cons, List.flatMap_cons, stringsAmong_append]
    exact (balanced_functionText isAsync hfunction hbody).append (ih hblocks)

theorem unmarked_exportLine {b : BlockFunction} (h : Unmarked b.name.toList) :
    Unmarked (Module.exportLine b).toList := by
  have hfunction : Unmarked b.functionName.toList := by
    rw [BlockFunction.functionName, String.toList_append]
    exact unmarked_append.mpr ⟨by decide, h⟩
  simp only [Module.exportLine, String.toList_append, unmarked_append]
  exact ⟨⟨⟨hfunction, by decide⟩, hfunction⟩, by decide⟩

/-- The text of a module is balanced, and its strings are those of its code. -/
theorem Module.balanced_text {m : Module} (h : m.IsClean allowed) :
    Balanced m.text.toList (stringsAmong m.parts) := by
  have hexports : Unmarked (m.blocks.flatMap fun b => (exportLine b).toList) := by
    intro c hc
    obtain ⟨b, hb, hc⟩ := List.mem_flatMap.mp hc
    exact unmarked_exportLine (h.blocks b hb).1 c hc
  have hobject := ((Balanced.of_unmarked (unmarked_append.mpr
    ⟨hexports, show Unmarked "root: root\n".toList by decide⟩)).block '\n' (by decide)).after_word
    "return ".toList (by decide)
  have hbody := ((balanced_functionText m.isAsync (show Unmarked "root".toList by decide)
    h.root).append ((balanced_functions m.isAsync h.blocks).append
      (hobject.before_word ";\n".toList (by decide))))
  have hcalled := (((Balanced.nil.bracket '(' rfl).append
    ((hbody.block '\n' (by decide)).after_word [' '] (by decide))).after_word "function".toList
      (by decide)).bracket '(' rfl
  have hmodule := ((hcalled.append ((Balanced.nil.bracket '(' rfl).before_word
    ";\n".toList (by decide))).after_word " = ".toList (by decide)).after_word _ h.name |>.after_word
      "var ".toList (by decide)
  simpa [Module.text, Module.parts, List.flatMap_map] using hmodule

end Balanced

end Script

end TemplateManifest
