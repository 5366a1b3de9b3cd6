import TemplateManifest.Proofs.Asset.Spelling
import TemplateManifest.Proofs.Script.Wording
import TemplateManifest.Proofs.Text.Stretches

/-!
Where a text spells the paths of assets. Replacing assets leaves a text as it is exactly when the text
spells none of the paths: the first change that one entry makes is never taken back by another one.
-/

namespace TemplateManifest

open Text Vocabulary

section Literals

/-- The characters of literals that are no strings. -/
def isLiteralCharacter (c : Char) : Bool :=
  c.isAlpha || c.isDigit || c = '-' || c = '.'

theorem isLiteralCharacter_of_isDigit {c : Char} (h : c.isDigit = true) :
    isLiteralCharacter c = true := by
  simp [isLiteralCharacter, h]

theorem isLiteralCharacter_of_isNumeral {text : List Char} (h : Script.Lexeme.IsNumeral text) :
    ∀ c ∈ text, isLiteralCharacter c = true := by
  obtain ⟨c, whole, fraction, hdigits, rfl | rfl⟩ := h
  · exact fun d hd => isLiteralCharacter_of_isDigit (hdigits d (List.mem_append_left _ hd))
  · obtain ⟨hwhole, hfraction⟩ := List.forall_mem_append.mp hdigits
    exact List.forall_mem_append.mpr ⟨fun d hd => isLiteralCharacter_of_isDigit (hwhole d hd),
      List.forall_mem_cons.mpr ⟨by decide, fun d hd => isLiteralCharacter_of_isDigit (hfraction d hd)⟩⟩

theorem literal_minus (negative : Prop) [Decidable negative] :
    ∀ c ∈ (if negative then ['-'] else []), isLiteralCharacter c = true := by
  split
  · exact List.forall_mem_singleton.mpr (by decide)
  · exact List.forall_mem_nil _

/-- A literal is a string, or its text is not empty and has only characters of such literals. -/
theorem literal_text (value : Literal) :
    (∃ text, value = .str text) ∨ (literal value).text.toList ≠ [] ∧
      ∀ c ∈ (literal value).text.toList, isLiteralCharacter c = true := by
  have hnumeral (negative : Prop) [Decidable negative] {text : List Char}
      (h : Script.Lexeme.IsNumeral text) : ((if negative then ['-'] else []) ++ text) ≠ [] ∧
        ∀ c ∈ (if negative then ['-'] else []) ++ text, isLiteralCharacter c = true := by
    refine ⟨List.append_ne_nil_of_right_ne_nil _ ?_, List.forall_mem_append.mpr
      ⟨literal_minus negative, isLiteralCharacter_of_isNumeral h⟩⟩
    obtain ⟨c, whole, fraction, -, rfl | rfl⟩ := h <;> simp
  cases value with
  | str text => exact .inl ⟨text, rfl⟩
  | int value =>
    right
    change (integerText value).toList ≠ [] ∧ ∀ c ∈ (integerText value).toList, _
    rw [integerText, String.toList_ofList]
    exact hnumeral _ (isNumeral_decimalDigits _)
  | float value =>
    right
    change value.text.toList ≠ [] ∧ ∀ c ∈ value.text.toList, _
    cases value with
    | finite negative significand exponent =>
      have hdigits := Double.isNumeral_text significand exponent
      rw [Double.text, String.toList_ofList] at hdigits ⊢
      exact hnumeral _ (by simpa using hdigits)
    | infinite negative =>
      cases negative <;> exact ⟨by decide, List.forall_iff_forall_mem.mp (by decide)⟩
    | nan => exact ⟨by decide, List.forall_iff_forall_mem.mp (by decide)⟩
  | bool value => cases value <;> exact .inr ⟨by decide, List.forall_iff_forall_mem.mp (by decide)⟩
  | none => exact .inr ⟨by decide, List.forall_iff_forall_mem.mp (by decide)⟩

/-- No literal begins with an underscore. -/
theorem head?_literal (value : Literal) :
    ∃ c, (literal value).text.toList.head? = some c ∧ c ≠ '_' := by
  rcases literal_text value with ⟨text, rfl⟩ | ⟨hne, hchars⟩
  · exact ⟨'"', by simp [literal, Script.Expr.text, quote, quoteChars], by decide⟩
  · obtain ⟨c, rest, htext⟩ := List.exists_cons_of_ne_nil hne
    rw [htext] at hchars ⊢
    refine ⟨c, rfl, ?_⟩
    rintro rfl
    exact absurd (hchars _ List.mem_cons_self) (by decide)

end Literals

/-- A path that is a sum has at least two operands. -/
def AssetPath.IsProper : AssetPath → Prop
  | static _ => True
  | dynamic fragments => 2 ≤ fragments.length

theorem AssetPath.IsProper.fragments_ne_nil {fragments : List Fragment}
    (h : (AssetPath.dynamic fragments).IsProper) : fragments ≠ [] := by
  rintro rfl
  simp [IsProper] at h

section Spelled

theorem Fragment.SpellsValue.head? {name : String} {rest value : List Char}
    (h : Fragment.SpellsValue name rest value) : ∃ c, value.head? = some c ∧ c ≠ '_' := by
  cases h with
  | lookup => exact ⟨'r', Fragment.head?_contextLookup name, by decide⟩
  | temp => exact ⟨'t', rfl, by decide⟩
  | param => exact ⟨'l', Fragment.head?_param name, by decide⟩

theorem Fragment.Spells.head? {rest text : List Char} {fragment : Fragment}
    {values : List (List Char)} (h : Fragment.Spells rest fragment values text) :
    ∃ c, text.head? = some c ∧ c ≠ '_' := by
  cases h with
  | literal value => exact head?_literal value
  | symbol h => exact h.head?

/-- The text of a path is not empty and does not begin with an underscore. -/
theorem AssetPath.Spells.head? {path : AssetPath} {rest text : List Char} {values : List (List Char)}
    (hpath : path.IsProper) (h : path.Spells rest values text) :
    ∃ c, text.head? = some c ∧ c ≠ '_' := by
  cases h with
  | static path => exact ⟨'"', by simp [quoteChars], by decide⟩
  | dynamic h =>
    cases h with
    | nil => exact absurd rfl hpath.fragments_ne_nil
    | last h => exact h.head?
    | cons h =>
      obtain ⟨c, hhead, hc⟩ := h.head?
      exact ⟨c, by rw [List.append_assoc, List.head?_append, hhead, Option.some_or], hc⟩

/-- A text spells the path at its head. -/
def AssetPath.SpelledAtHead (path : AssetPath) (text : List Char) : Prop :=
  ∃ values spelled rest, text = spelled ++ rest ∧ path.Spells rest values spelled

/-- A text spells the path somewhere. -/
def AssetPath.SpelledIn (path : AssetPath) (text : List Char) : Prop :=
  ∃ start rest, text = start ++ rest ∧ path.SpelledAtHead rest

namespace AssetPath

variable {path : AssetPath} {text : List Char}

theorem not_spelledAtHead_nil (hpath : path.IsProper) : ¬ path.SpelledAtHead [] := by
  rintro ⟨values, spelled, rest, htext, hspells⟩
  obtain ⟨c, hhead, -⟩ := hspells.head? hpath
  rw [(List.append_eq_nil_iff.mp htext.symm).1] at hhead
  cases hhead

theorem SpelledAtHead.spelledIn (h : path.SpelledAtHead text) : path.SpelledIn text :=
  ⟨[], text, rfl, h⟩

theorem SpelledIn.append_left (h : path.SpelledIn text) (start : List Char) :
    path.SpelledIn (start ++ text) := by
  obtain ⟨before, rest, rfl, hhead⟩ := h
  exact ⟨start ++ before, rest, (List.append_assoc _ _ _).symm, hhead⟩

theorem not_spelledIn_nil (hpath : path.IsProper) : ¬ path.SpelledIn [] := by
  rintro ⟨start, rest, htext, hhead⟩
  rw [(List.append_eq_nil_iff.mp htext.symm).2] at hhead
  exact not_spelledAtHead_nil hpath hhead

/-- A text spells the path at its head, or the text after its first character spells it. -/
theorem spelledIn_cons {c : Char} (h : path.SpelledIn (c :: text)) :
    path.SpelledAtHead (c :: text) ∨ path.SpelledIn text := by
  obtain ⟨start, rest, htext, hhead⟩ := h
  cases start with
  | nil => exact .inl (htext ▸ hhead)
  | cons d start =>
    obtain ⟨-, rfl⟩ := List.cons.inj htext
    exact .inr ⟨start, rest, rfl, hhead⟩

end AssetPath

/-- An entry is replaced at the head of a text exactly when the text spells its path there. -/
theorem AssetEntry.replacementAt?_eq_none_iff {entry : AssetEntry} {text : List Char} :
    entry.replacementAt? text = none ↔ ¬ entry.reference.SpelledAtHead text := by
  rw [Option.eq_none_iff_forall_ne_some]
  constructor
  · rintro h ⟨values, spelled, rest, htext, hspells⟩
    exact h _ (AssetEntry.replacementAt?_eq_some_iff.mpr ⟨values, spelled, rest, htext, hspells, rfl, rfl⟩)
  · rintro h ⟨replacement, length⟩ hfound
    obtain ⟨values, spelled, rest, htext, hspells, -⟩ := AssetEntry.replacementAt?_eq_some_iff.mp hfound
    exact h ⟨values, spelled, rest, htext, hspells⟩

end Spelled

section Replaced

/-- How replacing an entry changes a text, from left to right: what spells its path becomes a lookup, and
    the characters where nothing spells it are kept. -/
inductive AssetEntry.Replaced (entry : AssetEntry) : List Char → List Char → Prop where
  | nil : entry.Replaced [] []
  | kept {c : Char} {text changed : List Char} (h : ¬ entry.reference.SpelledAtHead (c :: text))
      (hrest : entry.Replaced text changed) : entry.Replaced (c :: text) (c :: changed)
  | lookup {values : List (List Char)} {spelled rest changed : List Char}
      (h : entry.reference.Spells rest values spelled) (hrest : entry.Replaced rest changed) :
      entry.Replaced (spelled ++ rest)
        ((entry.lookupText (values.map String.ofList)).toList ++ changed)

theorem replaced_replaceAll {entry : AssetEntry} (hpath : entry.reference.IsProper)
    (text : List Char) : entry.Replaced text (entry.replaceAll text) := by
  induction hlength : text.length using Nat.strong_induction_on generalizing text with
  | _ length ih =>
    subst hlength
    cases text with
    | nil =>
      have hnone := AssetEntry.replacementAt?_eq_none_iff.mpr (AssetPath.not_spelledAtHead_nil hpath)
      have hsame : entry.replaceAll [] = [] := by
        simp [AssetEntry.replaceAll, substitute, stretches, stretchesFrom, hnone]
      rw [hsame]
      exact .nil
    | cons c text =>
      cases hfound : entry.replacementAt? (c :: text) with
      | none =>
        have hkept : entry.replaceAll (c :: text) = c :: entry.replaceAll text := by
          simp [AssetEntry.replaceAll, substitute, stretches, stretchesFrom, hfound, Stretch.after]
        rw [hkept]
        exact .kept (AssetEntry.replacementAt?_eq_none_iff.mp hfound) (ih _ (by simp) text rfl)
      | some found =>
        obtain ⟨replacement, length⟩ := found
        obtain ⟨values, spelled, rest, htext, hspells, rfl, rfl⟩ :=
          AssetEntry.replacementAt?_eq_some_iff.mp hfound
        obtain ⟨d, hhead, -⟩ := hspells.head? hpath
        obtain ⟨spelled, rfl⟩ := List.head?_eq_some_iff.mp hhead
        obtain ⟨rfl, rfl⟩ : c = d ∧ text = spelled ++ rest := List.cons.inj htext
        have hreplaced : entry.replaceAll (c :: (spelled ++ rest)) =
            (entry.lookupText (values.map String.ofList)).toList ++ entry.replaceAll rest := by
          simp [AssetEntry.replaceAll, substitute, stretches, stretchesFrom, hfound, Stretch.after,
            stretchesFrom_append]
        have hshorter : rest.length < (c :: (spelled ++ rest)).length := by
          simp only [List.length_cons, List.length_append]
          omega
        rw [hreplaced]
        exact .lookup hspells (ih _ hshorter rest rfl)

end Replaced

section Changes

/-- Where the two texts first differ, the second one has an underscore. -/
def Diverges (text changed : List Char) : Prop :=
  ∃ start c rest rest', text = start ++ c :: rest ∧ changed = start ++ '_' :: rest' ∧ c ≠ '_'

theorem Diverges.ne {text changed : List Char} (h : Diverges text changed) : changed ≠ text := by
  obtain ⟨start, c, rest, rest', rfl, rfl, hc⟩ := h
  intro heq
  exact hc (List.cons.inj (List.append_cancel_left heq)).1.symm

/-- A further change of this kind does not take the first one back. -/
theorem Diverges.trans {text changed again : List Char} (h : Diverges text changed)
    (h' : Diverges changed again) : Diverges text again := by
  obtain ⟨start, c, rest, rest', rfl, rfl, hc⟩ := h
  obtain ⟨start', c', rest₁, rest₂, heq, rfl, hc'⟩ := h'
  rcases List.append_eq_append_iff.mp heq with ⟨middle, rfl, hmiddle⟩ | ⟨middle, rfl, hmiddle⟩
  · cases middle with
    | nil =>
      obtain ⟨rfl, -⟩ := List.cons.inj hmiddle
      exact absurd rfl hc'
    | cons d middle =>
      obtain ⟨rfl, rfl⟩ := List.cons.inj hmiddle
      exact ⟨start, c, rest, middle ++ '_' :: rest₂, rfl, by simp, hc⟩
  · cases middle with
    | nil =>
      obtain ⟨rfl, -⟩ := List.cons.inj hmiddle
      exact absurd rfl hc'
    | cons d middle =>
      obtain ⟨rfl, rfl⟩ := List.cons.inj hmiddle
      exact ⟨start', c', middle ++ c :: rest, rest₂, by simp, rfl, hc'⟩

theorem head?_lookupText (entry : AssetEntry) (values : List String) :
    ∃ rest, (entry.lookupText values).toList = '_' :: rest := by
  simp [AssetEntry.lookupText, assetTable]

/-- Replacing one entry changes nothing if the text does not spell its path; otherwise the text first
    changes at an underscore. -/
theorem AssetEntry.Replaced.unchanged_or_diverges {entry : AssetEntry}
    (hpath : entry.reference.IsProper) {text changed : List Char} (h : entry.Replaced text changed) :
    (¬ entry.reference.SpelledIn text ∧ changed = text) ∨
      (entry.reference.SpelledIn text ∧ Diverges text changed) := by
  induction h with
  | nil => exact .inl ⟨AssetPath.not_spelledIn_nil hpath, rfl⟩
  | @kept c text changed hhead _ ih =>
    rcases ih with ⟨hspelled, rfl⟩ | ⟨hspelled, start, d, rest, rest', rfl, rfl, hd⟩
    · exact .inl ⟨fun h => (AssetPath.spelledIn_cons h).elim hhead hspelled, rfl⟩
    · exact .inr ⟨hspelled.append_left [c], c :: start, d, rest, rest', rfl, rfl, hd⟩
  | @lookup values spelled rest changed hspells =>
    obtain ⟨c, hhead, hc⟩ := hspells.head? hpath
    obtain ⟨spelled, rfl⟩ := List.head?_eq_some_iff.mp hhead
    obtain ⟨more, hlookup⟩ := head?_lookupText entry (values.map String.ofList)
    rw [hlookup]
    exact .inr ⟨AssetPath.SpelledAtHead.spelledIn ⟨values, c :: spelled, rest, rfl, hspells⟩,
      [], c, spelled ++ rest, more ++ changed, rfl, rfl, hc⟩

/-- Replacing assets changes nothing, or the text first changes at an underscore; and it changes if the
    text spells a path. -/
theorem foldl_replaceAll_unchanged_or_diverges {entries : List AssetEntry}
    (hpaths : ∀ entry ∈ entries, entry.reference.IsProper) (text : List Char) :
    ((∀ entry ∈ entries, ¬ entry.reference.SpelledIn text) ∧
      entries.foldl (fun text entry => entry.replaceAll text) text = text) ∨
    ((∃ entry ∈ entries, entry.reference.SpelledIn text) ∧
      Diverges text (entries.foldl (fun text entry => entry.replaceAll text) text)) := by
  induction entries generalizing text with
  | nil => exact .inl ⟨List.forall_mem_nil _, rfl⟩
  | cons entry entries ih =>
    obtain ⟨hpath, hpaths⟩ := List.forall_mem_cons.mp hpaths
    rw [List.foldl_cons]
    rcases (replaced_replaceAll hpath text).unchanged_or_diverges hpath with
      ⟨hspelled, hsame⟩ | ⟨hspelled, hfirst⟩
    · rw [hsame]
      rcases ih hpaths text with ⟨hnone, hsame⟩ | ⟨⟨later, hlater, hspelled⟩, hdiverges⟩
      · exact .inl ⟨List.forall_mem_cons.mpr ⟨hspelled, hnone⟩, hsame⟩
      · exact .inr ⟨⟨later, List.mem_cons_of_mem _ hlater, hspelled⟩, hdiverges⟩
    · refine .inr ⟨⟨entry, List.mem_cons_self, hspelled⟩, ?_⟩
      rcases ih hpaths (entry.replaceAll text) with ⟨-, hsame⟩ | ⟨-, hlater⟩
      · rwa [hsame]
      · exact hfirst.trans hlater

theorem toList_replaceAssets (entries : List AssetEntry) (text : String) :
    (replaceAssets entries text).toList =
      entries.foldl (fun text entry => entry.replaceAll text) text.toList := by
  rw [replaceAssets, String.toList_ofList]

/-- Replacing assets leaves a text as it is exactly when the text spells none of the paths. -/
theorem replaceAssets_eq_self_iff {entries : List AssetEntry}
    (hpaths : ∀ entry ∈ entries, entry.reference.IsProper) (text : String) :
    replaceAssets entries text = text ↔
      ∀ entry ∈ entries, ¬ entry.reference.SpelledIn text.toList := by
  rw [← String.toList_inj, toList_replaceAssets]
  rcases foldl_replaceAll_unchanged_or_diverges hpaths text.toList with
    ⟨hnone, hsame⟩ | ⟨⟨entry, hentry, hspelled⟩, hdiverges⟩
  · exact iff_of_true hsame hnone
  · exact iff_of_false hdiverges.ne fun hnone => hnone entry hentry hspelled

end Changes

end TemplateManifest
