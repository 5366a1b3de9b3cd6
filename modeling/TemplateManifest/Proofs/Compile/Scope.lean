import TemplateManifest.Proofs.Compile.Results
import TemplateManifest.Proofs.Scope.Flow

/-!
The state of code generation follows lexical scoping: each step that opens, fills or closes a
scope has its counterpart on the visible bindings.
-/

namespace TemplateManifest

open Script

/-- The state of code generation looks names up as the visible bindings say. -/
structure Agrees (s : CodeState) (σ : Scoping) : Prop where
  temps : s.temps = σ.temps
  holder? : ∀ name, s.holder? name = (σ.visible.holder? name).map Holder.variable
  opened : s.scopes ≠ []

/-- Variables that hold names, as bindings. -/
def heldBy (entries : List (String × Holder)) : Visible :=
  entries.map fun (name, x) => (name, some x)

/-- Holders as the variables of emitted code. -/
def asVariables (entries : List (String × Holder)) : List (String × Variable) :=
  entries.map fun (name, x) => (name, x.variable)

theorem lookup_asVariables (entries : List (String × Holder)) (name : String) :
    (asVariables entries).lookup name =
      (Visible.holder? (heldBy entries) name).map Holder.variable := by
  induction entries with
  | nil => rfl
  | cons entry entries ih =>
    obtain ⟨bound, x⟩ := entry
    by_cases hbound : bound = name
    · subst hbound
      simp [asVariables, heldBy, Visible.holder?]
    · have hne : (name == bound) = false := beq_eq_false_iff_ne.mpr (Ne.symm hbound)
      simpa [asVariables, heldBy, Visible.holder?, List.lookup_cons, hne, hbound] using ih

namespace Coder

theorem freshAll_eq_ok {count : Nat} {s t : CodeState} {vs : List Variable}
    (h : freshAll count s = .ok vs t) :
    vs = (List.range' (s.temps + 1) count).map .temp ∧
      t = { s with temps := s.temps + count } := by
  induction count generalizing s vs with
  | zero =>
    obtain ⟨rfl, rfl⟩ := pure_eq_ok_iff.mp h
    exact ⟨rfl, rfl⟩
  | succ count ih =>
    obtain ⟨rest, hrest, rfl⟩ := freshAll_succ_eq_ok_iff.mp h
    obtain ⟨rfl, rfl⟩ := ih hrest
    exact ⟨rfl, by simp only [Nat.add_assoc, Nat.add_comm 1]⟩

/-- Binding some names puts them, the later ones first, in front of the innermost scope. -/
theorem bindAll_eq_ok {entries : List (String × Variable)} {s t : CodeState} {u : Unit}
    {scope : Scope} {scopes : List Scope} (hs : s.scopes = scope :: scopes)
    (h : bindAll entries s = .ok u t) :
    t = { s with scopes := (entries.reverse ++ scope) :: scopes } := by
  induction entries generalizing s scope with
  | nil =>
    obtain ⟨_, rfl⟩ := pure_eq_ok_iff.mp h
    rw [List.reverse_nil, List.nil_append, ← hs]
  | cons entry entries ih =>
    obtain ⟨_, v, hbind, h⟩ := bind_eq_ok_iff.mp h
    unfold Coder.bind at hbind
    rw [hs] at hbind
    cases hbind
    rw [ih rfl h]
    simp

/-- Binding a name changes the innermost scope only. -/
theorem bind_keeps {name : String} {v : Variable} {s t : CodeState} {u : Unit}
    (h : Coder.bind name v s = .ok u t) :
    t.temps = s.temps ∧ t.pending = s.pending ∧ t.scopes.tail = s.scopes.tail := by
  unfold Coder.bind at h
  split at h
  · cases h
    exact ⟨rfl, rfl, rfl⟩
  · next hs =>
    cases h
    exact ⟨rfl, rfl, by rw [hs]; rfl⟩

/-- Binding some names changes the innermost scope only. -/
theorem bindAll_keeps {entries : List (String × Variable)} {s t : CodeState} {u : Unit}
    (h : bindAll entries s = .ok u t) :
    t.temps = s.temps ∧ t.pending = s.pending ∧ t.scopes.tail = s.scopes.tail := by
  induction entries generalizing s with
  | nil =>
    obtain ⟨_, rfl⟩ := pure_eq_ok_iff.mp h
    exact ⟨rfl, rfl, rfl⟩
  | cons entry entries ih =>
    obtain ⟨_, v, hbind, h⟩ := bind_eq_ok_iff.mp h
    obtain ⟨htemps, hpending, hscopes⟩ := ih h
    obtain ⟨htemps', hpending', hscopes'⟩ := bind_keeps hbind
    exact ⟨htemps.trans htemps', hpending.trans hpending', hscopes.trans hscopes'⟩

theorem variablesFor_keeps {names : List String} {s t : CodeState} {vs : List Variable}
    (h : variablesFor names s = .ok vs t) : t = { s with temps := t.temps } := by
  induction names generalizing s vs with
  | nil =>
    obtain ⟨_, rfl⟩ := pure_eq_ok_iff.mp h
    rfl
  | cons name names ih =>
    obtain ⟨v, u, rest, ⟨-, rfl⟩ | ⟨-, -, rfl⟩, hrest, rfl⟩ := variablesFor_cons_eq_ok h
    · exact ih hrest
    · rw [ih hrest]

end Coder

namespace Agrees

open Coder

variable {s t : CodeState} {σ : Scoping}

theorem fresh (h : Agrees s σ) (count : Nat) :
    Agrees { s with temps := s.temps + count } { σ with temps := σ.temps + count } :=
  ⟨by simp only [h.temps], h.holder?, h.opened⟩

/-- An empty scope holds nothing. -/
theorem opened_scope (h : Agrees s σ) : Agrees { s with scopes := [] :: s.scopes } σ :=
  ⟨h.temps, h.holder?, List.cons_ne_nil _ _⟩

/-- Only the scopes and the number of temporaries matter. -/
theorem of_scopes {temps : Nat} (h : Agrees s σ) (hscopes : t.scopes = s.scopes)
    (htemps : t.temps = temps) : Agrees t { σ with temps := temps } :=
  ⟨htemps, fun name => by rw [CodeState.holder?, hscopes]; exact h.holder? name, by
    rw [hscopes]; exact h.opened⟩

/-- The state does not follow bindings without a variable. -/
theorem bindAll {held : List (String × Holder)} {entries : Visible} {u : Unit} (h : Agrees s σ)
    (hentries : ∀ name, Visible.holder? entries.reverse name =
      Visible.holder? (heldBy held).reverse name)
    (hok : Coder.bindAll (asVariables held) s = .ok u t) :
    Agrees t (σ.bind entries) := by
  obtain ⟨scope, scopes, hs⟩ := List.exists_cons_of_ne_nil h.opened
  rw [bindAll_eq_ok hs hok]
  refine ⟨h.temps, fun name => ?_, List.cons_ne_nil _ _⟩
  have hholder := h.holder? name
  simp only [CodeState.holder?, hs, List.findSome?_cons] at hholder
  have hreverse : (asVariables held).reverse = asVariables held.reverse := by
    simp [asVariables]
  have hreverse' : (heldBy held).reverse = heldBy held.reverse := by simp [heldBy]
  have happend : List.lookup name (asVariables held.reverse ++ scope) =
      ((asVariables held.reverse).lookup name).or (scope.lookup name) := List.lookup_append
  simp only [CodeState.holder?, Scoping.bind, List.findSome?_cons, hreverse, happend,
    Visible.holder?_append, hentries, hreverse', lookup_asVariables]
  cases Visible.holder? (heldBy held.reverse) name with
  | none => simpa using hholder
  | some x => rfl

theorem bind {name : String} {x : Holder} {u : Unit} (h : Agrees s σ)
    (hok : Coder.bind name x.variable s = .ok u t) : Agrees t (σ.bind [(name, some x)]) :=
  have hok : Coder.bindAll (asVariables [(name, x)]) s = .ok u t :=
    bind_eq_ok_iff.mpr ⟨u, t, hok, rfl⟩
  h.bindAll (fun _ => rfl) hok

theorem variablesFor {names : List String} {vs : List Variable} (h : Agrees s σ)
    (hok : Coder.variablesFor names s = .ok vs t) :
    vs = (σ.holders names).1.map Holder.variable ∧
      t = { s with temps := (σ.holders names).2 } := by
  induction names generalizing s σ vs with
  | nil =>
    obtain ⟨rfl, rfl⟩ := pure_eq_ok_iff.mp hok
    exact ⟨rfl, by rw [Scoping.holders, ← h.temps]⟩
  | cons name names ih =>
    have hlookup := h.holder? name
    obtain ⟨v, u, rest, ⟨hheld, rfl⟩ | ⟨hfree, rfl, rfl⟩, hrest, rfl⟩ := variablesFor_cons_eq_ok hok
    · obtain ⟨x, hx, rfl⟩ := Option.map_eq_some_iff.mp (hlookup.symm.trans hheld)
      obtain ⟨rfl, rfl⟩ := ih h hrest
      simp [Scoping.holders, hx]
    · have hx := Option.map_eq_none_iff.mp (hlookup.symm.trans hfree)
      obtain ⟨rfl, rfl⟩ := ih (h.fresh 1) hrest
      simp [Scoping.holders, hx, h.temps, Holder.variable]

end Agrees

end TemplateManifest
