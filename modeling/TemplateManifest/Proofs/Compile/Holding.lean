import TemplateManifest.Proofs.Compile.Calls
import TemplateManifest.Proofs.Compile.Clean
import TemplateManifest.Proofs.Compile.Scope
import TemplateManifest.Proofs.Template.Naming

/-!
What the state of code generation holds while a template is compiled: a symbol is held by a temporary or
by the parameter of its own name, and the blocks still to be written are blocks of the template.
-/

namespace TemplateManifest

open Script Vocabulary

theorem unmarked_of_isNameText {text : String} (h : IsNameText text) : Unmarked text.toList := by
  have hmarks : ∀ mark ∈ scanMarks, Code.continuesName mark = false :=
    List.forall_iff_forall_mem.mp (by decide +kernel)
  exact fun c hc hmark => Bool.false_ne_true ((hmarks c hmark).symm.trans (h c hc))

/-- Code generation lets the variable hold the symbol: it is a temporary, or the parameter of that
    name. -/
def Script.Variable.CanHold (symbol : String) : Variable → Prop
  | .named _ => False
  | .temp _ => True
  | .param name => name = symbol ∧ IsNameText name

theorem Script.Variable.CanHold.isClean {symbol : String} {v : Variable} (h : v.CanHold symbol) :
    v.IsClean := by
  match v, h with
  | .temp index, _ => exact isClean_temp index
  | .param _, h => exact isClean_param (unmarked_of_isNameText h.2)

namespace CodeState

/-- Every symbol is held by a variable that can hold it. -/
def IsScoped (s : CodeState) : Prop :=
  ∀ scope ∈ s.scopes, ∀ entry ∈ scope, entry.2.CanHold entry.1

/-- Every symbol is held by a variable that can hold it, and the blocks still to be written are blocks
    of some trees. -/
structure Stands (s : CodeState) (root : List Node) : Prop where
  scopes : s.IsScoped
  pending : ∀ b ∈ s.pending, ∃ pos, (Node.block pos b.name b.body).Among root

variable {s t : CodeState} {root : List Node}

theorem isScoped_initial : IsScoped {} :=
  List.forall_mem_singleton.mpr (List.forall_mem_nil _)

theorem IsScoped.canHold (h : s.IsScoped) {symbol : String} {v : Variable}
    (hv : s.holder? symbol = some v) : v.CanHold symbol := by
  obtain ⟨scope, hscope, hlookup⟩ := List.exists_of_findSome?_eq_some hv
  obtain ⟨before, after, hsplit, -⟩ := List.lookup_eq_some_iff.mp hlookup
  exact h scope hscope (symbol, v) (hsplit ▸ List.mem_append_right _ List.mem_cons_self)

theorem IsScoped.tail (h : s.IsScoped) : IsScoped { s with scopes := s.scopes.tail } :=
  fun scope hscope => h scope (List.mem_of_mem_tail hscope)

theorem IsScoped.opened (h : s.IsScoped) : IsScoped { s with scopes := [] :: s.scopes } :=
  List.forall_mem_cons.mpr ⟨List.forall_mem_nil _, h⟩

end CodeState

namespace Coder

variable {s t : CodeState}

theorem isScoped_bind {symbol : String} {v : Variable} {a : Unit} (hv : v.CanHold symbol)
    (hs : s.IsScoped) (h : Coder.bind symbol v s = .ok a t) : t.IsScoped := by
  unfold Coder.bind at h
  split at h
  · cases h
    exact hs
  · next scope scopes hscopes =>
    cases h
    rw [CodeState.IsScoped, hscopes] at hs
    obtain ⟨hscope, hrest⟩ := List.forall_mem_cons.mp hs
    exact List.forall_mem_cons.mpr ⟨List.forall_mem_cons.mpr ⟨hv, hscope⟩, hrest⟩

theorem isScoped_bindAll {entries : List (String × Variable)} {a : Unit}
    (hentries : ∀ entry ∈ entries, entry.2.CanHold entry.1) (hs : s.IsScoped)
    (h : bindAll entries s = .ok a t) : t.IsScoped := by
  induction entries generalizing s with
  | nil =>
    obtain ⟨_, rfl⟩ := pure_eq_ok_iff.mp h
    exact hs
  | cons entry entries ih =>
    obtain ⟨hentry, hentries⟩ := List.forall_mem_cons.mp hentries
    obtain ⟨_, u, hbind, h⟩ := bind_eq_ok_iff.mp h
    exact ih hentries (isScoped_bind hentry hs hbind) h

/-- The variables for some symbols can hold them. -/
theorem canHold_variablesFor {symbols : List String} {holders : List Variable} (hs : s.IsScoped)
    (h : variablesFor symbols s = .ok holders t) :
    List.Forall₂ (fun symbol v => v.CanHold symbol) symbols holders := by
  induction symbols generalizing s holders with
  | nil =>
    obtain ⟨rfl, _⟩ := pure_eq_ok_iff.mp h
    exact .nil
  | cons symbol symbols ih =>
    obtain ⟨v, u, rest, ⟨hheld, rfl⟩ | ⟨-, rfl, rfl⟩, hrest, rfl⟩ := variablesFor_cons_eq_ok h
    · exact .cons (hs.canHold hheld) (ih hs hrest)
    · exact .cons trivial (ih (s := { s with temps := s.temps + 1 }) hs hrest)

/-- Temporaries can hold any symbols. -/
theorem canHold_freshAll {symbols : List String} {holders : List Variable}
    (h : freshAll symbols.length s = .ok holders t) :
    List.Forall₂ (fun symbol v => v.CanHold symbol) symbols holders := by
  induction symbols generalizing s holders with
  | nil =>
    obtain ⟨rfl, _⟩ := pure_eq_ok_iff.mp h
    exact .nil
  | cons symbol symbols ih =>
    obtain ⟨rest, hrest, rfl⟩ := freshAll_succ_eq_ok_iff.mp h
    exact .cons trivial (ih hrest)

theorem canHold_zip {symbols : List String} {holders : List Variable}
    (h : List.Forall₂ (fun symbol v => v.CanHold symbol) symbols holders) :
    ∀ entry ∈ symbols.zip holders, entry.2.CanHold entry.1 :=
  fun _ hentry => List.forall₂_zip h hentry

theorem isClean_of_canHold {symbols : List String} {holders : List Variable}
    (h : List.Forall₂ (fun symbol v => v.CanHold symbol) symbols holders) :
    ∀ v ∈ holders, v.IsClean := by
  induction h with
  | nil => exact List.forall_mem_nil _
  | cons hhold _ ih => exact List.forall_mem_cons.mpr ⟨hhold.isClean, ih⟩

end Coder

end TemplateManifest
