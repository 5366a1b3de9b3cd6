import TemplateManifest.Proofs.Compile.Results
import TemplateManifest.Proofs.Script.Parts
import TemplateManifest.Proofs.Template.Within

/-!
Code generation writes the code of every call. A step works on some nodes and gives an
expression or statements; the code of each call among the nodes is then a part of what it gives,
unless the call stands in a block, whose function is still to be written.
-/

namespace TemplateManifest

open Script Vocabulary

namespace Coder

/-- A step that loses no pending block. -/
def Grows {α : Type} (step : Coder α) : Prop :=
  ∀ (s t : CodeState) (a : α), step s = .ok a t → s.pending ⊆ t.pending

theorem Grows.pure {α : Type} (a : α) : Grows (Pure.pure a : Coder α) := by
  intro s t b h
  obtain ⟨_, rfl⟩ := pure_eq_ok_iff.mp h
  exact List.Subset.refl _

theorem Grows.bind {α β : Type} {step : Coder α} {next : α → Coder β} (hstep : Grows step)
    (hnext : ∀ a, Grows (next a)) : Grows (step >>= next) := by
  intro s t b h
  obtain ⟨a, u, ha, hb⟩ := bind_eq_ok_iff.mp h
  exact List.Subset.trans (hstep s u a ha) (hnext a u t b hb)

theorem grows_fresh : Grows fresh := by
  intro s t v h
  cases h
  exact List.Subset.refl _

theorem grows_freshAll (count : Nat) : Grows (freshAll count) := by
  induction count with
  | zero => exact .pure _
  | succ count ih => exact grows_fresh.bind fun v => ih.bind fun _ => .pure _

theorem grows_holder? (symbol : String) : Grows (holder? symbol) := by
  intro s t v h
  cases h
  exact List.Subset.refl _

theorem grows_variablesFor (symbols : List String) : Grows (variablesFor symbols) := by
  induction symbols with
  | nil => exact .pure _
  | cons symbol symbols ih =>
    refine (grows_holder? symbol).bind fun holder => ?_
    cases holder with
    | some v => exact (Grows.pure v).bind fun v => ih.bind fun _ => .pure _
    | none => exact grows_fresh.bind fun v => ih.bind fun _ => .pure _

theorem grows_bind (symbol : String) (v : Variable) : Grows (Coder.bind symbol v) := by
  intro s t a h
  unfold Coder.bind at h
  split at h <;> cases h <;> exact List.Subset.refl _

theorem grows_bindAll (entries : List (String × Variable)) : Grows (bindAll entries) := by
  induction entries with
  | nil => exact .pure _
  | cons entry entries ih => exact (grows_bind entry.1 entry.2).bind fun _ => ih

end Coder

namespace CodeContext

open Coder

theorem grows_membersCode (module : Variable) (names : List (String × Option String)) :
    Grows (membersCode module names) := by
  induction names with
  | nil => exact .pure _
  | cons entry names ih =>
    exact grows_fresh.bind fun v => (grows_bind _ v).bind fun _ => ih.bind fun _ => .pure _

theorem grows_importCode (cx : CodeContext) (target : Expr) (withContext : Bool) :
    Grows (cx.importCode target withContext) :=
  grows_fresh.bind fun _ => .pure _

theorem grows_inclusionCode (cx : CodeContext) (target : Expr) (form : Inclusion) :
    Grows (cx.inclusionCode target form) := by
  cases form with
  | parent | part => exact grows_fresh.bind fun _ => .pure _
  | module exportsName withContext =>
    exact (grows_importCode cx target withContext).bind fun _ =>
      (grows_bind exportsName _).bind fun _ => .pure _
  | members names withContext =>
    exact (grows_importCode cx target withContext).bind fun _ =>
      (grows_membersCode _ names).bind fun _ => .pure _

/-- The code of a call is one of some parts, or the call stands in a block that is still to be
    written. -/
def Covers (cx : CodeContext) (call : Node) (parts : List Expr) (pending : List PendingBlock) :
    Prop :=
  (∃ code s t, cx.expression call s = .ok code t ∧ code ∈ parts) ∨
    ∃ b ∈ pending, call.Among b.body

theorem Covers.mono {cx : CodeContext} {call : Node} {parts parts' : List Expr}
    {pending pending' : List PendingBlock} (h : cx.Covers call parts pending)
    (hparts : parts ⊆ parts') (hpending : pending ⊆ pending') : cx.Covers call parts' pending' := by
  rcases h with ⟨code, s, t, hcode, hmem⟩ | ⟨b, hb, hcall⟩
  · exact .inl ⟨code, s, t, hcode, hparts hmem⟩
  · exact .inr ⟨b, hpending hb, hcall⟩

/-- What has been written for some nodes: no block that was pending before is lost, and each call
    among the nodes has its code in the parts. -/
structure Written (cx : CodeContext) (nodes : List Node) (before : List PendingBlock)
    (parts : List Expr) (after : List PendingBlock) : Prop where
  grows : before ⊆ after
  covers : ∀ call, call.category = .functionCall → call.Among nodes → cx.Covers call parts after

namespace Written

variable {cx : CodeContext} {node : Node} {nodes nodes' : List Node} {parts parts' : List Expr}
  {before between after : List PendingBlock}

theorem nil (hgrows : before ⊆ after) : cx.Written [] before parts after :=
  ⟨hgrows, fun _ _ hcall => absurd hcall Node.not_among_nil⟩

theorem append (h : cx.Written nodes before parts between)
    (h' : cx.Written nodes' between parts' after) :
    cx.Written (nodes ++ nodes') before (parts ++ parts') after := by
  refine ⟨List.Subset.trans h.grows h'.grows, fun call hcategory hcall => ?_⟩
  rcases Node.among_append.mp hcall with hcall | hcall
  · exact (h.covers call hcategory hcall).mono (List.subset_append_left _ _) h'.grows
  · exact (h'.covers call hcategory hcall).mono (List.subset_append_right _ _)
      (List.Subset.refl _)

theorem mono (h : cx.Written nodes before parts after) (hparts : parts ⊆ parts') :
    cx.Written nodes before parts' after :=
  ⟨h.grows, fun call hcategory hcall =>
    (h.covers call hcategory hcall).mono hparts (List.Subset.refl _)⟩

/-- A further step that keeps the pending blocks. -/
theorem trans (h : cx.Written nodes before parts between) (hgrows : between ⊆ after) :
    cx.Written nodes before parts after :=
  ⟨List.Subset.trans h.grows hgrows, fun call hcategory hcall =>
    (h.covers call hcategory hcall).mono (List.Subset.refl _) hgrows⟩

/-- A node other than a call is written when its children are. -/
theorem of_children (hnode : node.category ≠ .functionCall)
    (h : cx.Written node.children before parts after) : cx.Written [node] before parts after := by
  refine ⟨h.grows, fun call hcategory hcall => ?_⟩
  rcases Node.among_singleton.mp hcall with rfl | hcall
  · exact absurd hcategory hnode
  · exact h.covers call hcategory hcall

/-- A call is written when its code is there and its children are written. -/
theorem of_code {code : Expr} {s t : CodeState} (hcode : cx.expression node s = .ok code t)
    (hmem : code ∈ parts) (h : cx.Written node.children before parts after) :
    cx.Written [node] before parts after := by
  refine ⟨h.grows, fun call hcategory hcall => ?_⟩
  rcases Node.among_singleton.mp hcall with rfl | hcall
  · exact .inl ⟨code, s, t, hcode, hmem⟩
  · exact h.covers call hcategory hcall

end Written

end CodeContext

end TemplateManifest
