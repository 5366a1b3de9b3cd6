import TemplateManifest.Text.Search

/-!
Places in a text as numbers of bytes of its encoding, in which a character takes up to four bytes.
Not every pair of such numbers marks a stretch of characters.
-/

namespace TemplateManifest.Text

/-- The number of bytes of a text. -/
def byteLength (text : List Char) : Nat :=
  (String.ofList text).utf8ByteSize

/-- A text parted after some number of bytes, if that is neither beyond its end nor inside a
    character. -/
def splitBytes? : Nat → List Char → Option (List Char × List Char)
  | 0, text => some ([], text)
  | _ + 1, [] => none
  | count + 1, c :: text =>
    if c.utf8Size ≤ count + 1 then
      (splitBytes? (count + 1 - c.utf8Size) text).map fun parts => (c :: parts.1, parts.2)
    else none

/-- The stretch of a text between two numbers of bytes. There is none if the bounds are reversed,
    outside the text, or inside a character. -/
def slice? (text : List Char) (lo hi : Nat) : Option (List Char) :=
  if lo ≤ hi then
    (splitBytes? lo text).bind fun parts => (splitBytes? (hi - lo) parts.2).map Prod.fst
  else none

/-- The number of bytes before the first occurrence of `needle`. -/
def findBytes? (needle text : List Char) : Option Nat :=
  (breakOn needle text).map fun parts => byteLength parts.1

/-- The number of bytes up to the last line, the line feed before it included. -/
def lineStart (text : List Char) : Nat :=
  byteLength (text.reverse.dropWhile (· ≠ '\n')).reverse

variable {text text' inside before after : List Char} {c : Char}

@[simp]
theorem byteLength_nil : byteLength [] = 0 := rfl

@[simp]
theorem byteLength_append : byteLength (text ++ text') = byteLength text + byteLength text' := by
  rw [byteLength, String.ofList_append, String.utf8ByteSize_append, byteLength, byteLength]

@[simp]
theorem byteLength_cons : byteLength (c :: text) = c.utf8Size + byteLength text := by
  have hc : byteLength [c] = c.utf8Size := by
    rw [byteLength, ← String.singleton_eq_ofList, String.utf8ByteSize_singleton]
  rw [← List.singleton_append, byteLength_append, hc]

theorem byteLength_pos (h : text ≠ []) : 0 < byteLength text := by
  obtain ⟨c, text, rfl⟩ := List.exists_cons_of_ne_nil h
  rw [byteLength_cons]
  exact Nat.add_pos_left c.utf8Size_pos _

/-- A text in characters of one byte. -/
theorem byteLength_eq_length (h : ∀ c ∈ text, c.utf8Size = 1) : byteLength text = text.length := by
  induction text with
  | nil => rfl
  | cons c text ih =>
    obtain ⟨hc, htext⟩ := List.forall_mem_cons.mp h
    rw [byteLength_cons, hc, ih htext, List.length_cons, Nat.add_comm]

theorem splitBytes?_append (text rest : List Char) :
    splitBytes? (byteLength text) (text ++ rest) = some (text, rest) := by
  induction text with
  | nil => rw [byteLength_nil, splitBytes?, List.nil_append]
  | cons c text ih =>
    have hpos := c.utf8Size_pos
    obtain ⟨count, hcount⟩ : ∃ count, byteLength (c :: text) = count + 1 :=
      Nat.exists_eq_add_one.mpr (byteLength_pos (List.cons_ne_nil c text))
    have hrest : count + 1 - c.utf8Size = byteLength text := by
      rw [← hcount, byteLength_cons, Nat.add_sub_cancel_left]
    have hle : c.utf8Size ≤ count + 1 := by
      rw [← hcount, byteLength_cons]
      exact Nat.le_add_right _ _
    rw [hcount, List.cons_append, splitBytes?, if_pos hle, hrest, ih]
    rfl

theorem eq_append_of_splitBytes? {count : Nat} (h : splitBytes? count text = some (before, after)) :
    text = before ++ after ∧ count = byteLength before := by
  induction text generalizing count before with
  | nil =>
    cases count with
    | zero =>
      cases h
      exact ⟨rfl, rfl⟩
    | succ count => cases h
  | cons c text ih =>
    cases count with
    | zero =>
      cases h
      exact ⟨rfl, rfl⟩
    | succ count =>
      rw [splitBytes?] at h
      split at h
      · next hle =>
        obtain ⟨parts, hparts, heq⟩ := Option.map_eq_some_iff.mp h
        cases heq
        obtain ⟨rfl, hcount⟩ := ih hparts
        refine ⟨rfl, ?_⟩
        rw [byteLength_cons, ← hcount, Nat.add_sub_cancel' hle]
      · cases h

/-- The slices of a text are its stretches of whole characters. -/
theorem slice?_eq_some_iff {lo hi : Nat} :
    slice? text lo hi = some inside ↔ ∃ before after, text = before ++ (inside ++ after) ∧
      lo = byteLength before ∧ hi = byteLength before + byteLength inside := by
  constructor
  · intro h
    rw [slice?] at h
    split at h
    · next hle =>
      obtain ⟨⟨before, rest⟩, hlo, h⟩ := Option.bind_eq_some_iff.mp h
      obtain ⟨⟨inside', after⟩, hhi, rfl⟩ := Option.map_eq_some_iff.mp h
      obtain ⟨rfl, rfl⟩ := eq_append_of_splitBytes? hlo
      obtain ⟨rfl, hlength⟩ := eq_append_of_splitBytes? hhi
      refine ⟨before, after, rfl, rfl, ?_⟩
      rw [← hlength, Nat.add_sub_cancel' hle]
    · cases h
  · rintro ⟨before, after, rfl, rfl, rfl⟩
    rw [slice?, if_pos (Nat.le_add_right _ _), splitBytes?_append, Option.bind_some,
      Nat.add_sub_cancel_left, splitBytes?_append]
    rfl

end TemplateManifest.Text
