/-!
Searching and replacing in character lists. A match is looked for at each place from left to
right, and matches do not overlap.
-/

namespace TemplateManifest.Text

/-- What follows `lead`, when `text` starts with it. -/
def after? (lead text : List Char) : Option (List Char) :=
  match lead, text with
  | [], rest => some rest
  | _ :: _, [] => none
  | l :: lead, c :: text => if l = c then after? lead text else none

theorem after?_eq_some_iff {lead text rest : List Char} :
    after? lead text = some rest ↔ text = lead ++ rest := by
  induction lead generalizing text with
  | nil => simp [after?, eq_comm]
  | cons l lead ih =>
    cases text with
    | nil => simp [after?]
    | cons c text =>
      by_cases h : l = c
      · simp [after?, h, ih]
      · simp [after?, h, Ne.symm h]

/-- `text` starts with `lead`. -/
def startsWith (lead text : List Char) : Bool :=
  (after? lead text).isSome

theorem startsWith_iff {lead text : List Char} :
    startsWith lead text = true ↔ ∃ rest, text = lead ++ rest := by
  simp only [startsWith, Option.isSome_iff_exists, after?_eq_some_iff]

/-- The text before the first occurrence of `needle`, and what follows that occurrence. -/
def breakOn (needle text : List Char) : Option (List Char × List Char) :=
  match after? needle text with
  | some rest => some ([], rest)
  | none =>
    match text with
    | [] => none
    | c :: text => (breakOn needle text).map fun parts => (c :: parts.1, parts.2)

theorem eq_append_of_breakOn {needle text before rest : List Char}
    (h : breakOn needle text = some (before, rest)) : text = before ++ needle ++ rest := by
  induction text generalizing before with
  | nil =>
    unfold breakOn at h
    split at h
    · next found =>
      have hfound := after?_eq_some_iff.mp found
      simp_all
    · simp at h
  | cons c text ih =>
    unfold breakOn at h
    split at h
    · next found =>
      have hfound := after?_eq_some_iff.mp found
      simp_all
    · simp only [Option.map_eq_some_iff, Prod.mk.injEq] at h
      obtain ⟨⟨before', rest'⟩, hbreak, rfl, rfl⟩ := h
      simp [ih hbreak]

/-- A stretch of a text that has been searched: a character outside all matches, or a match with
    what takes its place. -/
inductive Stretch (α : Type) where
  | kept (item : α)
  | replaced (matched replacement : List α)

namespace Stretch

/-- What stood in the text. -/
def before {α : Type} : Stretch α → List α
  | kept item => [item]
  | replaced matched _ => matched

/-- What stands in the text afterwards. -/
def after {α : Type} : Stretch α → List α
  | kept item => [item]
  | replaced _ replacement => replacement

end Stretch

/-- The stretches of a text, where `matchAt` gives the replacement of a match at the head of a
    text and the number of characters matched. The first argument counts characters of the
    last match still to be passed over. -/
def stretchesFrom {α : Type} (matchAt : List α → Option (List α × Nat)) :
    Nat → List α → List (Stretch α)
  | _, [] =>
    match matchAt [] with
    | some (replacement, _) => [.replaced [] replacement]
    | none => []
  | skip + 1, _ :: text => stretchesFrom matchAt skip text
  | 0, c :: text =>
    match matchAt (c :: text) with
    | some (replacement, 0) => .replaced [] replacement :: .kept c :: stretchesFrom matchAt 0 text
    | some (replacement, length + 1) =>
      .replaced (c :: text.take length) replacement :: stretchesFrom matchAt length text
    | none => .kept c :: stretchesFrom matchAt 0 text

/-- The stretches of a text. -/
def stretches {α : Type} (matchAt : List α → Option (List α × Nat)) (text : List α) :
    List (Stretch α) :=
  stretchesFrom matchAt 0 text

/-- The text with every match replaced. -/
def substitute {α : Type} (matchAt : List α → Option (List α × Nat)) (text : List α) : List α :=
  (stretches matchAt text).flatMap Stretch.after

end TemplateManifest.Text
