import Mathlib.Data.List.Forall2
import Mathlib.Data.List.Nodup
import TemplateManifest.Proofs.Process

/-!
Loading of the declared addons: one addon for each declaration, in the order of the names, each under
a new identity.
-/

namespace TemplateManifest

section

variable {ε α β : Type} {f : α → Except ε β}

/-- Steps that are taken one after the other give values if each of them gives its own. -/
theorem mapM_eq_ok_iff {as : List α} {bs : List β} :
    as.mapM f = .ok bs ↔ List.Forall₂ (fun a b => f a = .ok b) as bs := by
  induction as generalizing bs with
  | nil =>
    rw [List.mapM_nil, List.forall₂_nil_left_iff]
    exact ⟨fun h => (Except.ok.inj h).symm, fun h => h ▸ rfl⟩
  | cons a as ih =>
    rw [List.mapM_cons, List.forall₂_cons_left_iff]
    cases f a with
    | error e => exact iff_of_false (fun h => by cases h) (fun ⟨_, _, h, _⟩ => by cases h)
    | ok b =>
      change (as.mapM f >>= fun bs => pure (b :: bs)) = .ok bs ↔ _
      constructor
      · intro h
        cases has : as.mapM f with
        | error e =>
          rw [has] at h
          cases h
        | ok bs' =>
          rw [has] at h
          exact ⟨b, bs', rfl, ih.mp has, (Except.ok.inj h).symm⟩
      · rintro ⟨b', bs', hb, hbs, rfl⟩
        rw [ih.mpr hbs, Except.ok.inj hb]
        rfl

/-- They fail as the first of them does that fails. -/
theorem mapM_eq_error_iff {as : List α} {e : ε} :
    as.mapM f = .error e ↔ ∃ before a after, as = before ++ a :: after ∧
      (∀ a' ∈ before, ∃ b, f a' = .ok b) ∧ f a = .error e := by
  induction as with
  | nil =>
    rw [List.mapM_nil]
    exact iff_of_false (fun h => by cases h) (fun ⟨_, _, _, h, _⟩ => by simp at h)
  | cons a as ih =>
    rw [List.mapM_cons]
    constructor
    · intro h
      cases ha : f a with
      | error e' =>
        rw [ha] at h
        cases h
        exact ⟨[], a, as, rfl, by simp, ha⟩
      | ok b =>
        rw [ha] at h
        have has : as.mapM f = .error e := by
          cases has : as.mapM f with
          | error e' =>
            rw [has] at h
            exact h
          | ok bs =>
            rw [has] at h
            cases h
        obtain ⟨before, a', after, rfl, hbefore, ha'⟩ := ih.mp has
        exact ⟨a :: before, a', after, rfl, List.forall_mem_cons.mpr ⟨⟨b, ha⟩, hbefore⟩, ha'⟩
    · rintro ⟨before, a', after, has, hbefore, ha'⟩
      cases before with
      | nil =>
        obtain ⟨rfl, rfl⟩ := List.cons.inj has
        rw [ha']
        rfl
      | cons a'' before =>
        obtain ⟨rfl, rfl⟩ := List.cons.inj has
        obtain ⟨⟨b, ha⟩, hbefore⟩ := List.forall_mem_cons.mp hbefore
        rw [ha, ih.mpr ⟨before, a', after, rfl, hbefore, ha'⟩]
        rfl

end

/-- What an extension was declared as. -/
def Extension.declaration (e : Extension) : String × Path :=
  (e.name, e.modulePath)

/-- What a filter was declared as. -/
def FilterAddon.declaration (f : FilterAddon) : String × Path :=
  (f.name, f.modulePath)

section

variable {world : World} {declaration : String × Path} {index : Nat}

theorem loadExtension_eq_ok {e : Extension}
    (h : loadExtension world (declaration, index) = .ok e) :
    e.declaration = declaration ∧ e.handle = ⟨world.identities.extension index⟩ := by
  obtain ⟨name, modulePath⟩ := declaration
  simp only [loadExtension] at h
  split at h <;> cases h
  exact ⟨rfl, rfl⟩

theorem loadFilter_eq_ok {f : FilterAddon} (h : loadFilter world (declaration, index) = .ok f) :
    f.declaration = declaration := by
  obtain ⟨name, modulePath⟩ := declaration
  simp only [loadFilter] at h
  split at h <;> cases h
  rfl

end

section

variable {world : World} {declared : List (String × Path)}

/-- The loaded extensions are the declared ones in the order of their names. -/
theorem declaration_loadExtensions {es : List Extension}
    (h : loadExtensions world declared = .ok es) :
    es.map Extension.declaration = inNameOrder declared := by
  have hloaded := (mapM_eq_ok_iff.mp h).imp fun d e h =>
    (loadExtension_eq_ok (show loadExtension world (d.1, d.2) = .ok e from h)).1
  rw [← List.forall₂_eq_eq_eq, List.forall₂_map_left_iff, ← List.zipIdx_map_fst 0 (inNameOrder declared),
    List.forall₂_map_right_iff]
  exact hloaded.flip

/-- The loaded filters are the declared ones in the order of their names. -/
theorem declaration_loadFilters {fs : List FilterAddon}
    (h : loadFilters world declared = .ok fs) :
    fs.map FilterAddon.declaration = inNameOrder declared := by
  have hloaded := (mapM_eq_ok_iff.mp h).imp fun d f h =>
    loadFilter_eq_ok (show loadFilter world (d.1, d.2) = .ok f from h)
  rw [← List.forall₂_eq_eq_eq, List.forall₂_map_left_iff, ← List.zipIdx_map_fst 0 (inNameOrder declared),
    List.forall₂_map_right_iff]
  exact hloaded.flip

/-- Every loaded extension has an identity of its own. -/
theorem nodup_handle_loadExtensions {es : List Extension}
    (hidentities : Function.Injective world.identities.extension)
    (h : loadExtensions world declared = .ok es) : (es.map Extension.handle).Nodup := by
  have hloaded := (mapM_eq_ok_iff.mp h).imp fun d e h =>
    (loadExtension_eq_ok (show loadExtension world (d.1, d.2) = .ok e from h)).2
  have hhandles : es.map Extension.handle =
      ((inNameOrder declared).zipIdx.map Prod.snd).map fun index =>
        ⟨world.identities.extension index⟩ := by
    rw [List.map_map, ← List.forall₂_eq_eq_eq, List.forall₂_map_left_iff, List.forall₂_map_right_iff]
    exact hloaded.flip
  rw [hhandles, List.zipIdx_map_snd]
  exact List.Nodup.map (fun i j hij => hidentities (Handle.mk.inj hij)) List.nodup_range'

theorem inNameOrder_perm {α : Type} (declared : List (String × α)) :
    (inNameOrder declared).Perm declared :=
  List.mergeSort_perm _ _

end

/-- Why what is declared cannot be loaded as an addon of a kind. -/
def World.refusal? (world : World) (kind : AddonKind) (declaration : String × Path) :
    Option String :=
  match kind, world.load kind declaration.1 declaration.2 with
  | _, .error reason => some reason
  | .extension, .ok (.filter _) => some "module provides a filter, not an extension"
  | .filter, .ok (.extension _ _) => some "module provides an extension, not a filter"
  | _, _ => none

/-- Of some declarations in the order of their names, the failure is that of the first one that cannot
    be loaded. -/
def World.FailsToLoad (world : World) (kind : AddonKind) (declared : List (String × Path))
    (failure : Failure) : Prop :=
  ∃ before d after reason, inNameOrder declared = before ++ d :: after ∧
    (∀ d' ∈ before, world.refusal? kind d' = none) ∧ world.refusal? kind d = some reason ∧
    failure = .addonLoad kind d.1 d.2 reason

section

variable {world : World} {declared : List (String × Path)} {failure : Failure}

/-- Loading fails as the first declaration does that cannot be loaded. -/
theorem mapM_zipIdx_eq_error_iff {α : Type} {kind : AddonKind}
    {load : (String × Path) × Nat → Except Failure α}
    (hok : ∀ d, world.refusal? kind d.1 = none → ∃ a, load d = .ok a)
    (herror : ∀ d reason, world.refusal? kind d.1 = some reason →
      load d = .error (.addonLoad kind d.1.1 d.1.2 reason)) :
    (inNameOrder declared).zipIdx.mapM load = .error failure ↔
      world.FailsToLoad kind declared failure := by
  have hloads (d : (String × Path) × Nat) :
      (∃ a, load d = .ok a) → world.refusal? kind d.1 = none := by
    rintro ⟨a, ha⟩
    cases hrefusal : world.refusal? kind d.1 with
    | none => rfl
    | some reason =>
      rw [herror d reason hrefusal] at ha
      cases ha
  rw [mapM_eq_error_iff]
  constructor
  · rintro ⟨before, d, after, hdeclared, hbefore, hd⟩
    refine ⟨before.map Prod.fst, d.1, after.map Prod.fst, ?_⟩
    cases hrefusal : world.refusal? kind d.1 with
    | none =>
      obtain ⟨a, ha⟩ := hok d hrefusal
      rw [ha] at hd
      cases hd
    | some reason =>
      rw [herror d reason hrefusal] at hd
      refine ⟨reason, ?_, List.forall_mem_map.mpr fun d' hd' => hloads d' (hbefore d' hd'), rfl,
        (Except.error.inj hd).symm⟩
      rw [← List.zipIdx_map_fst 0 (inNameOrder declared), hdeclared, List.map_append, List.map_cons]
  · rintro ⟨before, d, after, reason, hdeclared, hbefore, hd, rfl⟩
    refine ⟨before.zipIdx, (d, before.length), after.zipIdx (before.length + 1), ?_,
      fun d' hd' => hok d' (hbefore _ (List.fst_mem_of_mem_zipIdx hd')), herror _ reason hd⟩
    rw [hdeclared, List.zipIdx_append, List.zipIdx_cons, Nat.zero_add]

theorem loadExtension_of_refusal? {d : (String × Path) × Nat} :
    (world.refusal? .extension d.1 = none → ∃ e, loadExtension world d = .ok e) ∧
      ∀ reason, world.refusal? .extension d.1 = some reason →
        loadExtension world d = .error (.addonLoad .extension d.1.1 d.1.2 reason) := by
  obtain ⟨⟨name, modulePath⟩, index⟩ := d
  simp only [World.refusal?, loadExtension]
  cases world.load .extension name modulePath with
  | error reason => simp
  | ok addon => cases addon <;> simp

theorem loadFilter_of_refusal? {d : (String × Path) × Nat} :
    (world.refusal? .filter d.1 = none → ∃ f, loadFilter world d = .ok f) ∧
      ∀ reason, world.refusal? .filter d.1 = some reason →
        loadFilter world d = .error (.addonLoad .filter d.1.1 d.1.2 reason) := by
  obtain ⟨⟨name, modulePath⟩, index⟩ := d
  simp only [World.refusal?, loadFilter]
  cases world.load .filter name modulePath with
  | error reason => simp
  | ok addon => cases addon <;> simp

theorem loadExtensions_eq_error_iff :
    loadExtensions world declared = .error failure ↔
      world.FailsToLoad .extension declared failure :=
  mapM_zipIdx_eq_error_iff (fun _ => loadExtension_of_refusal?.1) fun _ => loadExtension_of_refusal?.2

theorem loadFilters_eq_error_iff :
    loadFilters world declared = .error failure ↔ world.FailsToLoad .filter declared failure :=
  mapM_zipIdx_eq_error_iff (fun _ => loadFilter_of_refusal?.1) fun _ => loadFilter_of_refusal?.2

end

theorem loadEnvironment_eq_ok {world : World} {options : ProcessOptions} {env : Environment}
    (h : loadEnvironment world options = .ok env) :
    loadExtensions world options.extensions = .ok env.extensions ∧
      loadFilters world options.filters = .ok env.filters ∧ env.options = options.language := by
  unfold loadEnvironment at h
  cases hextensions : loadExtensions world options.extensions with
  | error failure =>
    rw [hextensions] at h
    cases h
  | ok es =>
    cases hfilters : loadFilters world options.filters with
    | error failure =>
      rw [hextensions, hfilters] at h
      cases h
    | ok fs =>
      rw [hextensions, hfilters] at h
      cases h
      exact ⟨rfl, rfl, rfl⟩

/-- Loading the addons fails with the first extension that cannot be loaded or, if there is none, with
    the first filter. -/
theorem loadEnvironment_eq_error_iff {world : World} {options : ProcessOptions} {failure : Failure} :
    loadEnvironment world options = .error failure ↔
      world.FailsToLoad .extension options.extensions failure ∨
        (∀ failure, ¬ world.FailsToLoad .extension options.extensions failure) ∧
          world.FailsToLoad .filter options.filters failure := by
  simp only [← loadExtensions_eq_error_iff, ← loadFilters_eq_error_iff]
  unfold loadEnvironment
  cases loadExtensions world options.extensions with
  | error failure' =>
    change (Except.error failure' : Except Failure Environment) = .error failure ↔ _
    simp
  | ok es =>
    cases loadFilters world options.filters with
    | error failure' =>
      change (Except.error failure' : Except Failure Environment) = .error failure ↔ _
      simp
    | ok fs =>
      refine iff_of_false (fun h => by cases h) ?_
      simp

end TemplateManifest
