import Mathlib.Data.List.Basic
import TemplateManifest.Text.Search

/-!
The stretches of a searched text. They make up the text without gap or overlap, a match is one
at the place where it was found, and what a search finds does not depend on marks that the
characters carry.
-/

namespace TemplateManifest.Text

variable {α β : Type}

/-- A search goes on after the characters that are to be passed over. -/
theorem stretchesFrom_append (matchAt : List α → Option (List α × Nat))
    (passed rest : List α) :
    stretchesFrom matchAt passed.length (passed ++ rest) = stretchesFrom matchAt 0 rest := by
  induction passed with
  | nil => rfl
  | cons c passed ih => exact ih

theorem flatMap_before_stretchesFrom (matchAt : List α → Option (List α × Nat)) (skip : Nat)
    (text : List α) :
    (stretchesFrom matchAt skip text).flatMap Stretch.before = text.drop skip := by
  induction text generalizing skip with
  | nil =>
    rw [stretchesFrom]
    split <;> simp [Stretch.before]
  | cons c text ih =>
    cases skip with
    | succ skip =>
      rw [stretchesFrom, ih]
      rfl
    | zero =>
      rw [stretchesFrom]
      split
      · simp [Stretch.before, ih]
      · simp [Stretch.before, ih]
      · simp [Stretch.before, ih]

/-- The stretches make up the text. -/
@[simp]
theorem flatMap_before_stretches (matchAt : List α → Option (List α × Nat)) (text : List α) :
    (stretches matchAt text).flatMap Stretch.before = text :=
  flatMap_before_stretchesFrom matchAt 0 text

theorem exists_match_of_mem_stretchesFrom {matchAt : List α → Option (List α × Nat)}
    {skip : Nat} {text matched replacement : List α}
    (h : .replaced matched replacement ∈ stretchesFrom matchAt skip text) :
    ∃ start rest length, text.drop skip = start ++ rest ∧
      matchAt rest = some (replacement, length) ∧ matched = rest.take length := by
  induction text generalizing skip with
  | nil =>
    rw [stretchesFrom] at h
    split at h
    · next found length hmatch =>
      obtain ⟨rfl, rfl⟩ : matched = [] ∧ replacement = found := by simpa using h
      exact ⟨[], [], length, by simp, hmatch, by simp⟩
    · simp at h
  | cons c text ih =>
    cases skip with
    | succ skip =>
      rw [stretchesFrom] at h
      exact ih h
    | zero =>
      have hlater {n : Nat} (hmem : .replaced matched replacement ∈ stretchesFrom matchAt n text) :
          ∃ start rest length, (c :: text).drop 0 = start ++ rest ∧
            matchAt rest = some (replacement, length) ∧ matched = rest.take length := by
        obtain ⟨start, rest, length, hdrop, hmatch, htake⟩ := ih hmem
        refine ⟨c :: (text.take n ++ start), rest, length, ?_, hmatch, htake⟩
        rw [List.drop_zero, List.cons_append, List.append_assoc, ← hdrop, List.take_append_drop]
      rw [stretchesFrom] at h
      split at h
      · next found hmatch =>
        rcases List.mem_cons.mp h with heq | h
        · obtain ⟨rfl, rfl⟩ := Stretch.replaced.inj heq
          exact ⟨[], c :: text, 0, rfl, hmatch, rfl⟩
        · exact hlater ((List.mem_cons.mp h).resolve_left (by simp))
      · next found length hmatch =>
        rcases List.mem_cons.mp h with heq | h
        · obtain ⟨rfl, rfl⟩ := Stretch.replaced.inj heq
          exact ⟨[], c :: text, length + 1, rfl, hmatch, rfl⟩
        · exact hlater h
      · exact hlater ((List.mem_cons.mp h).resolve_left (by simp))

/-- A match among the stretches is a match at the head of the text from its place on. -/
theorem exists_match_of_mem_stretches {matchAt : List α → Option (List α × Nat)}
    {text matched replacement : List α}
    (h : .replaced matched replacement ∈ stretches matchAt text) :
    ∃ start rest length, text = start ++ rest ∧ matchAt rest = some (replacement, length) ∧
      matched = rest.take length :=
  exists_match_of_mem_stretchesFrom h

theorem map_flatMap_after_stretchesFrom {matchAt : List α → Option (List α × Nat)}
    {matchAt' : List β → Option (List β × Nat)} {f : α → β}
    (hmatch : ∀ text, matchAt' (text.map f) =
      (matchAt text).map fun (replacement, length) => (replacement.map f, length))
    (skip : Nat) (text : List α) :
    ((stretchesFrom matchAt skip text).flatMap Stretch.after).map f =
      (stretchesFrom matchAt' skip (text.map f)).flatMap Stretch.after := by
  induction text generalizing skip with
  | nil =>
    have hnil := hmatch []
    simp only [List.map_nil] at hnil
    rw [List.map_nil, stretchesFrom, stretchesFrom, hnil]
    cases matchAt [] <;> simp [Stretch.after]
  | cons c text ih =>
    cases skip with
    | succ skip =>
      rw [List.map_cons, stretchesFrom, stretchesFrom]
      exact ih skip
    | zero =>
      have hcons := hmatch (c :: text)
      rw [List.map_cons] at hcons
      rw [List.map_cons, stretchesFrom, stretchesFrom, hcons]
      cases matchAt (c :: text) with
      | none => simp [Stretch.after, ih]
      | some found =>
        obtain ⟨replacement, length⟩ := found
        cases length with
        | zero => simp [Stretch.after, ih]
        | succ length => simp [Stretch.after, ih]

/-- Replacing does not look at what `f` leaves out when matching does not. -/
theorem map_substitute {matchAt : List α → Option (List α × Nat)}
    {matchAt' : List β → Option (List β × Nat)} {f : α → β}
    (hmatch : ∀ text, matchAt' (text.map f) =
      (matchAt text).map fun (replacement, length) => (replacement.map f, length))
    (text : List α) :
    (substitute matchAt text).map f = substitute matchAt' (text.map f) :=
  map_flatMap_after_stretchesFrom hmatch 0 text

end TemplateManifest.Text
