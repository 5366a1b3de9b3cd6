import TemplateManifest.Text.Search
import TemplateManifest.Text.WhiteSpace

/-!
What a text starts with, and ends with, of characters of one kind.
-/

namespace TemplateManifest

open Text

variable {p : Char → Bool} {lead tail text rest : List Char}

/-- `lead` is all of one kind, and what comes after it does not go on so. -/
def IsLead (p : Char → Bool) (lead rest : List Char) : Prop :=
  (∀ c ∈ lead, p c = true) ∧ ∀ c ∈ rest.head?, p c = false

/-- `tail` is all of one kind, and what comes before it does not end so. -/
def IsTail (p : Char → Bool) (text tail : List Char) : Prop :=
  (∀ c ∈ tail, p c = true) ∧ ∀ c ∈ text.getLast?, p c = false

theorem isLead_dropWhile (p : Char → Bool) (text : List Char) :
    IsLead p (text.takeWhile p) (text.dropWhile p) := by
  refine ⟨List.all_eq_true.mp List.all_takeWhile, fun c hc => ?_⟩
  have hhead := List.head?_dropWhile_not p text
  rw [Option.mem_def.mp hc] at hhead
  exact hhead

theorem exists_isLead (p : Char → Bool) (text : List Char) :
    ∃ lead rest, text = lead ++ rest ∧ IsLead p lead rest :=
  ⟨_, _, List.takeWhile_append_dropWhile.symm, isLead_dropWhile p text⟩

theorem takeWhile_append_of_head? (htext : ∀ c ∈ text, p c = true)
    (hrest : ∀ c ∈ rest.head?, p c = false) : (text ++ rest).takeWhile p = text := by
  rw [List.takeWhile_append_of_pos htext]
  cases rest with
  | nil => simp
  | cons c rest => simp [hrest c rfl]

theorem IsLead.takeWhile_eq (h : IsLead p lead rest) : (lead ++ rest).takeWhile p = lead :=
  takeWhile_append_of_head? h.1 h.2

/-- What a text starts with of one kind is not shorter than any such lead. -/
theorem IsLead.length_le {other : List Char} (h : IsLead p lead rest)
    (hother : ∀ c ∈ other, p c = true) (hleads : other <+: lead ++ rest) :
    other.length ≤ lead.length := by
  obtain ⟨left, hleft⟩ := hleads
  have hlead := h.takeWhile_eq
  rw [← hleft, List.takeWhile_append_of_pos hother] at hlead
  rw [← hlead, List.length_append]
  exact Nat.le_add_right _ _

theorem exists_isTail (p : Char → Bool) (text : List Char) :
    ∃ tail, text = (text.reverse.dropWhile p).reverse ++ tail ∧
      IsTail p (text.reverse.dropWhile p).reverse tail := by
  obtain ⟨htail, hhead⟩ := isLead_dropWhile p text.reverse
  refine ⟨(text.reverse.takeWhile p).reverse, ?_, ?_, ?_⟩
  · rw [← List.reverse_append, List.takeWhile_append_dropWhile, List.reverse_reverse]
  · exact fun c hc => htail c (List.mem_reverse.mp hc)
  · rwa [List.getLast?_reverse]

theorem startsWith_iff_isPrefix : startsWith lead text = true ↔ lead <+: text := by
  rw [startsWith_iff]
  exact exists_congr fun _ => eq_comm

end TemplateManifest
