import Mathlib.Data.List.TakeWhile
import TemplateManifest.Asset.Table

/-!
What it means that the path of an asset is spelled in an emitted text. The text of a literal
stands for itself. A variable is spelled as a lookup in the context, as a temporary with all of
its digits, or as a macro parameter up to a word boundary, and the operands of a sum have a plus
sign between them.
-/

namespace TemplateManifest

open Text

namespace Fragment

/-- A text spells the value of a variable when `rest` follows it. -/
inductive SpellsValue (name : String) (rest : List Char) : List Char → Prop where
  | lookup : SpellsValue name rest (Vocabulary.contextLookup name).text.toList
  | temp {digits : List Char} (hne : digits ≠ []) (hdigits : ∀ c ∈ digits, c.isDigit)
      (hend : ∀ c ∈ rest.head?, ¬ c.isDigit) : SpellsValue name rest ('t' :: '_' :: digits)
  | param (hend : isWordBoundary (Script.Variable.param name).text.toList.getLast? rest.head?) :
      SpellsValue name rest (Script.Variable.param name).text.toList

/-- A text spells a fragment when `rest` follows it; a variable gives its value. -/
inductive Spells (rest : List Char) : Fragment → List (List Char) → List Char → Prop where
  | literal (value : Literal) :
      Spells rest (.literal value) [] (Vocabulary.literal value).text.toList
  | symbol {name : String} {value : List Char} (h : SpellsValue name rest value) :
      Spells rest (.symbol name) [value] value

/-- A text spells a sum of fragments when `rest` follows it; the variables give their values. -/
inductive SpellsSum (rest : List Char) : List Fragment → List (List Char) → List Char → Prop where
  | nil : SpellsSum rest [] [] []
  | last {fragment : Fragment} {values : List (List Char)} {text : List Char}
      (h : Spells rest fragment values text) : SpellsSum rest [fragment] values text
  | cons {fragment next : Fragment} {fragments : List Fragment}
      {values more : List (List Char)} {text following : List Char}
      (h : Spells ([' ', '+', ' '] ++ following ++ rest) fragment values text)
      (hrest : SpellsSum rest (next :: fragments) more following) :
      SpellsSum rest (fragment :: next :: fragments) (values ++ more)
        (text ++ [' ', '+', ' '] ++ following)

theorem afterLookup?_eq_some_iff {name : String} {text value rest : List Char} :
    afterLookup? name text = some (value, rest) ↔
      value = (Vocabulary.contextLookup name).text.toList ∧ text = value ++ rest := by
  simp only [afterLookup?, Option.map_eq_some_iff, after?_eq_some_iff, Prod.mk.injEq]
  constructor
  · rintro ⟨_, htext, rfl, rfl⟩
    exact ⟨rfl, htext⟩
  · rintro ⟨hvalue, htext⟩
    exact ⟨rest, hvalue ▸ htext, hvalue.symm, rfl⟩

/-- A run of digits ends where no digit follows. -/
private theorem span_digits {digits rest : List Char} (hdigits : ∀ c ∈ digits, c.isDigit)
    (hend : ∀ c ∈ rest.head?, ¬ c.isDigit) :
    (digits ++ rest).takeWhile Char.isDigit = digits ∧
      (digits ++ rest).dropWhile Char.isDigit = rest := by
  rw [List.takeWhile_append_of_pos hdigits, List.dropWhile_append_of_pos hdigits]
  cases rest with
  | nil => simp
  | cons c rest =>
    have hc : ¬ c.isDigit := hend c rfl
    simp [hc]

theorem afterTemp?_eq_some_iff {text value rest : List Char} :
    afterTemp? text = some (value, rest) ↔
      ∃ digits, value = 't' :: '_' :: digits ∧ digits ≠ [] ∧ (∀ c ∈ digits, c.isDigit) ∧
        (∀ c ∈ rest.head?, ¬ c.isDigit) ∧ text = value ++ rest := by
  unfold afterTemp?
  split
  · next hnone =>
    simp only [reduceCtorEq, false_iff]
    rintro ⟨digits, rfl, _, _, _, rfl⟩
    simp [after?] at hnone
  · next tail htail =>
    obtain rfl := after?_eq_some_iff.mp htail
    simp only
    constructor
    · intro h
      split at h
      · cases h
      · next hdigits =>
        obtain ⟨rfl, rfl⟩ : 't' :: '_' :: tail.takeWhile Char.isDigit = value ∧
            tail.dropWhile Char.isDigit = rest := by simpa using h
        refine ⟨_, rfl, by simpa using hdigits, fun c hc => List.mem_takeWhile_imp hc, ?_, ?_⟩
        · intro c hc
          have hhead := List.head?_dropWhile_not Char.isDigit tail
          rw [Option.mem_def.mp hc] at hhead
          simpa using hhead
        · simp [List.takeWhile_append_dropWhile]
    · rintro ⟨digits, rfl, hne, hdigits, hend, htext⟩
      obtain rfl : tail = digits ++ rest := by simpa using htext
      obtain ⟨htake, hdrop⟩ := span_digits hdigits hend
      rw [htake, hdrop, if_neg (by simpa using hne)]

theorem afterParam?_eq_some_iff {name : String} {text value rest : List Char} :
    afterParam? name text = some (value, rest) ↔
      value = (Script.Variable.param name).text.toList ∧
        isWordBoundary value.getLast? rest.head? ∧ text = value ++ rest := by
  unfold afterParam?
  simp only
  split
  · next hnone =>
    simp only [reduceCtorEq, false_iff]
    rintro ⟨rfl, _, htext⟩
    rw [after?_eq_some_iff.mpr htext] at hnone
    cases hnone
  · next tail htail =>
    obtain rfl := after?_eq_some_iff.mp htail
    constructor
    · intro h
      split at h
      · next hend =>
        obtain ⟨rfl, rfl⟩ := Prod.mk.inj (Option.some.inj h)
        exact ⟨rfl, hend, rfl⟩
      · cases h
    · rintro ⟨rfl, hend, htext⟩
      obtain rfl := List.append_cancel_left htext
      rw [if_pos hend]

theorem head?_contextLookup (symbol : String) :
    (Vocabulary.contextLookup symbol).text.toList.head? = some 'r' := by
  simp [Vocabulary.contextLookup, Vocabulary.runtime, Vocabulary.method, Vocabulary.name,
    Script.Expr.text, Script.Variable.text]

theorem head?_param (name : String) :
    (Script.Variable.param name).text.toList.head? = some 'l' := by
  simp [Script.Variable.text]

/-- The forms of a variable start with different letters, so that at most one of them is at the
    head of a text. -/
theorem afterValue_eq_some_iff {name : String} {text value rest : List Char} :
    (afterLookup? name text).or ((afterTemp? text).or (afterParam? name text)) =
        some (value, rest) ↔
      SpellsValue name rest value ∧ text = value ++ rest := by
  have hlookup (found : List Char × List Char) (h : afterLookup? name text = some found) :
      text.head? = some 'r' := by
    obtain ⟨value', rest'⟩ := found
    obtain ⟨hvalue, htext⟩ := afterLookup?_eq_some_iff.mp h
    rw [htext, hvalue, List.head?_append, head?_contextLookup]
    rfl
  have htemp (found : List Char × List Char) (h : afterTemp? text = some found) :
      text.head? = some 't' := by
    obtain ⟨value', rest'⟩ := found
    obtain ⟨digits, rfl, _, _, _, rfl⟩ := afterTemp?_eq_some_iff.mp h
    rfl
  constructor
  · intro h
    rw [Option.or_eq_some_iff, Option.or_eq_some_iff] at h
    rcases h with h | ⟨_, h | ⟨_, h⟩⟩
    · obtain ⟨hvalue, htext⟩ := afterLookup?_eq_some_iff.mp h
      exact ⟨hvalue ▸ .lookup, htext⟩
    · obtain ⟨digits, rfl, hne, hdigits, hend, htext⟩ := afterTemp?_eq_some_iff.mp h
      exact ⟨.temp hne hdigits hend, htext⟩
    · obtain ⟨rfl, hend, htext⟩ := afterParam?_eq_some_iff.mp h
      exact ⟨.param hend, htext⟩
  · rintro ⟨hspells, htext⟩
    cases hspells with
    | lookup => rw [afterLookup?_eq_some_iff.mpr ⟨rfl, htext⟩, Option.some_or]
    | @temp digits hne hdigits hend =>
      have hnone : afterLookup? name text = none := by
        refine Option.eq_none_iff_forall_ne_some.mpr fun found h => ?_
        have hhead := hlookup found h
        simp [htext] at hhead
      rw [hnone, Option.none_or,
        afterTemp?_eq_some_iff.mpr ⟨digits, rfl, hne, hdigits, hend, htext⟩, Option.some_or]
    | param hend =>
      have hhead : text.head? = some 'l' := by
        rw [htext, List.head?_append, head?_param]
        rfl
      have hnone : afterLookup? name text = none := by
        refine Option.eq_none_iff_forall_ne_some.mpr fun found h => ?_
        have hhead' := hlookup found h
        simp [hhead] at hhead'
      have hnone' : afterTemp? text = none := by
        refine Option.eq_none_iff_forall_ne_some.mpr fun found h => ?_
        have hhead' := htemp found h
        simp [hhead] at hhead'
      rw [hnone, hnone', Option.none_or, Option.none_or,
        afterParam?_eq_some_iff.mpr ⟨rfl, hend, htext⟩]

/-- A fragment is matched at the head of a text exactly when the text spells it there. -/
theorem compiledAt?_eq_some_iff {fragment : Fragment} {text rest : List Char}
    {values : List (List Char)} :
    fragment.compiledAt? text = some (values, rest) ↔
      ∃ spelled, text = spelled ++ rest ∧ Spells rest fragment values spelled := by
  cases fragment with
  | literal value =>
    simp only [compiledAt?, Option.map_eq_some_iff, after?_eq_some_iff, Prod.mk.injEq]
    constructor
    · rintro ⟨_, htext, rfl, rfl⟩
      exact ⟨_, htext, .literal value⟩
    · rintro ⟨spelled, htext, hspells⟩
      cases hspells
      exact ⟨rest, htext, rfl, rfl⟩
  | symbol name =>
    simp only [compiledAt?, Option.map_eq_some_iff, Prod.exists, Prod.mk.injEq,
      afterValue_eq_some_iff]
    constructor
    · rintro ⟨value, _, ⟨hspells, htext⟩, rfl, rfl⟩
      exact ⟨value, htext, .symbol hspells⟩
    · rintro ⟨spelled, htext, hspells⟩
      cases hspells with
      | symbol hvalue => exact ⟨spelled, rest, ⟨hvalue, htext⟩, rfl, rfl⟩

/-- A sum is matched at the head of a text exactly when the text spells it there. -/
theorem sumAt?_eq_some_iff {fragments : List Fragment} {text rest : List Char}
    {values : List (List Char)} :
    sumAt? fragments text = some (values, rest) ↔
      ∃ spelled, text = spelled ++ rest ∧ SpellsSum rest fragments values spelled := by
  induction fragments generalizing text values with
  | nil =>
    constructor
    · intro h
      obtain ⟨rfl, rfl⟩ : [] = values ∧ text = rest := by simpa [sumAt?] using h
      exact ⟨[], rfl, .nil⟩
    · rintro ⟨spelled, rfl, h⟩
      cases h
      rfl
  | cons fragment fragments ih =>
    cases fragments with
    | nil =>
      rw [sumAt?, compiledAt?_eq_some_iff]
      constructor
      · rintro ⟨spelled, htext, h⟩
        exact ⟨spelled, htext, .last h⟩
      · rintro ⟨spelled, htext, h⟩
        cases h with
        | last h => exact ⟨spelled, htext, h⟩
    | cons next fragments =>
      constructor
      · intro h
        rw [sumAt?] at h
        · split at h
          · cases h
          · next found tail hfragment =>
            split at h
            · cases h
            · next tail' hplus =>
              obtain ⟨⟨more, rest'⟩, hsum, heq⟩ := Option.map_eq_some_iff.mp h
              obtain ⟨rfl, rfl⟩ := Prod.mk.inj heq
              obtain ⟨spelled, rfl, hspells⟩ := compiledAt?_eq_some_iff.mp hfragment
              obtain rfl := after?_eq_some_iff.mp hplus
              obtain ⟨following, rfl, hrest⟩ := ih.mp hsum
              refine ⟨spelled ++ [' ', '+', ' '] ++ following, by simp, .cons ?_ hrest⟩
              simpa using hspells
        · simp
      · rintro ⟨_, rfl, h⟩
        cases h with
        | @cons _ _ _ found more spelled following hspells hrest =>
          have hfragment : fragment.compiledAt? (spelled ++ [' ', '+', ' '] ++ following ++ rest) =
              some (found, [' ', '+', ' '] ++ following ++ rest) :=
            compiledAt?_eq_some_iff.mpr ⟨spelled, by simp, hspells⟩
          have hplus : after? [' ', '+', ' '] ([' ', '+', ' '] ++ following ++ rest) =
              some (following ++ rest) := after?_eq_some_iff.mpr (by simp)
          have hsum : sumAt? (next :: fragments) (following ++ rest) = some (more, rest) :=
            ih.mpr ⟨following, rfl, hrest⟩
          rw [sumAt?, hfragment]
          · simp only [hplus, hsum, Option.map_some]
          · simp

end Fragment

namespace AssetPath

/-- A text spells a path when `rest` follows it; the variables give their values. -/
inductive Spells (rest : List Char) : AssetPath → List (List Char) → List Char → Prop where
  | static (path : String) : Spells rest (.static path) [] (quoteChars path.toList)
  | dynamic {fragments : List Fragment} {values : List (List Char)} {text : List Char}
      (h : Fragment.SpellsSum rest fragments values text) :
      Spells rest (.dynamic fragments) values text

end AssetPath

/-- An entry is replaced at the head of a text exactly when the text spells its path there, by
    the lookup with the values of its variables. -/
theorem AssetEntry.replacementAt?_eq_some_iff {entry : AssetEntry} {text replacement : List Char}
    {length : Nat} :
    entry.replacementAt? text = some (replacement, length) ↔
      ∃ values spelled rest, text = spelled ++ rest ∧
        entry.reference.Spells rest values spelled ∧ length = spelled.length ∧
        replacement = (entry.lookupText (values.map String.ofList)).toList := by
  obtain ⟨path, id, reference⟩ := entry
  cases reference with
  | static literal =>
    simp only [replacementAt?]
    constructor
    · intro h
      split at h
      · next hstarts =>
        obtain ⟨rest, htext⟩ := startsWith_iff.mp hstarts
        obtain ⟨rfl, rfl⟩ := Prod.mk.inj (Option.some.inj h)
        exact ⟨[], _, rest, htext, .static literal, rfl, rfl⟩
      · cases h
    · rintro ⟨values, spelled, rest, htext, hspells, rfl, rfl⟩
      cases hspells with
      | static =>
        rw [if_pos (startsWith_iff.mpr ⟨rest, htext⟩)]
        rfl
  | dynamic fragments =>
    simp only [replacementAt?, Option.map_eq_some_iff, Prod.exists, Prod.mk.injEq,
      Fragment.sumAt?_eq_some_iff]
    constructor
    · rintro ⟨values, rest, ⟨spelled, rfl, hspells⟩, rfl, rfl⟩
      exact ⟨values, spelled, rest, rfl, .dynamic hspells, by simp, rfl⟩
    · rintro ⟨values, spelled, rest, rfl, hspells, rfl, rfl⟩
      cases hspells with
      | dynamic h => exact ⟨values, rest, ⟨spelled, rfl, h⟩, rfl, by simp⟩

end TemplateManifest
