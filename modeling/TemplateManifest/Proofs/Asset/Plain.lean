import TemplateManifest.Proofs.Asset.Occurrence
import TemplateManifest.Proofs.Asset.SumCode
import TemplateManifest.Proofs.Script.Balanced

/-!
Plain assets: those whose paths and keys have no quotes and no parentheses, and whose variables end in
word characters. What is spelled for such a path can be told from the text of a lookup.
-/

namespace TemplateManifest

open Text Vocabulary Script

/-- The text has no double quote and no parenthesis. -/
def IsPlain (text : List Char) : Prop :=
  ∀ c ∈ text, c ∉ ['"', '(', ')']

/-- The variable of a path has a name that ends in a word character and not in the table of assets. -/
structure IsPlainName (name : String) : Prop where
  isName : IsNameText name
  endsInWord : (Variable.param name).endsInWord = true
  notTable : ¬ assetTable.toList <:+ (Variable.param name).text.toList

namespace Fragment

/-- The fragment is a literal without quotes and parentheses in it or a plain name. -/
def IsPlain : Fragment → Prop
  | literal (.str text) => TemplateManifest.IsPlain text.toList
  | literal _ => True
  | symbol name => IsPlainName name

end Fragment

/-- The path is a plain text or a sum of plain fragments. -/
def AssetPath.IsPlain : AssetPath → Prop
  | static path => TemplateManifest.IsPlain path.toList
  | dynamic fragments => ∀ fragment ∈ fragments, fragment.IsPlain

/-- The path of the entry is plain, and so is its key, which has no plus sign either. -/
structure AssetEntry.IsPlain (entry : AssetEntry) : Prop where
  id : TemplateManifest.IsPlain entry.id.toList
  noPlus : '+' ∉ entry.id.toList
  reference : entry.reference.IsPlain

section Characters

/-- An escape has letters, digits and backslashes, and otherwise only what is escaped. -/
theorem mem_escapeChar {c d : Char} (h : d ∈ escapeChar c) :
    d = c ∨ d = '\\' ∨ d.isAlphanum = true := by
  have hhex : ∀ n < 16, (hexDigit n).isAlphanum = true := by decide
  have hshort {escape : Char} (hc : escape = c ∨ escape = '\\' ∨ escape.isAlphanum = true)
      (h : d ∈ ['\\', escape]) : d = c ∨ d = '\\' ∨ d.isAlphanum = true := by
    rcases List.mem_cons.mp h with rfl | h
    · exact .inr (.inl rfl)
    · exact List.mem_singleton.mp h ▸ hc
  unfold escapeChar at h
  split at h
  · exact hshort (.inl rfl) h
  · exact hshort (.inl rfl) h
  iterate 5 exact hshort (.inr (.inr (by decide))) h
  split at h
  · next hcontrol =>
    have hdigits : ∀ e ∈ ['u', '0', '0', hexDigit (c.toNat / 16), hexDigit (c.toNat % 16)],
        e.isAlphanum = true := by
      simp only [List.forall_mem_cons, List.not_mem_nil, false_implies, implies_true, and_true]
      exact ⟨by decide, by decide, by decide, hhex _ (by omega), hhex _ (by omega)⟩
    rcases List.mem_cons.mp h with rfl | h
    · exact .inr (.inl rfl)
    · exact .inr (.inr (hdigits d h))
  · exact .inl (List.mem_singleton.mp h)

theorem mem_escaped {text : List Char} {d : Char} (h : d ∈ text.flatMap escapeChar) :
    d ∈ text ∨ d = '\\' ∨ d.isAlphanum = true := by
  obtain ⟨c, hc, hd⟩ := List.mem_flatMap.mp h
  rcases mem_escapeChar hd with rfl | hd
  · exact .inl hc
  · exact .inr hd

theorem isPlain_escaped {text : List Char} (h : IsPlain text) : IsPlain (text.flatMap escapeChar) := by
  intro d hd hmark
  have hmarks : ∀ mark ∈ ['"', '(', ')'], ¬ (mark = '\\' ∨ mark.isAlphanum = true) :=
    List.forall_iff_forall_mem.mp (by decide)
  rcases mem_escaped hd with hd | hd
  · exact h d hd hmark
  · exact hmarks d hmark hd

/-- A plain text in quotes has no parenthesis. -/
theorem not_mem_quoteChars {text : List Char} (h : IsPlain text) :
    ∀ c ∈ ['(', ')'], c ∉ quoteChars text := by
  intro c hc hmem
  rcases List.mem_cons.mp hmem with rfl | hmem
  · exact absurd hc (by decide)
  · rcases List.mem_append.mp hmem with hmem | hmem
    · exact isPlain_escaped h c hmem (List.mem_cons_of_mem _ hc)
    · obtain rfl := List.mem_singleton.mp hmem
      exact absurd hc (by decide)

/-- Names have none of the characters that stand between the words of a lookup. -/
theorem not_mem_of_isNameText {name : String} (h : IsNameText name) :
    ∀ c ∈ ['"', '(', ')', '+', '.', ' '], c ∉ name.toList := by
  have hmarks : ∀ c ∈ ['"', '(', ')', '+', '.', ' '], Code.continuesName c = false :=
    List.forall_iff_forall_mem.mp (by decide +kernel)
  exact fun c hc hmem => Bool.false_ne_true ((hmarks c hc).symm.trans (h c hmem))

end Characters

section Splits

variable {α : Type} {marks start front rest back : List α} {x y : α}

/-- A character that does not stand in the front of a text stands in the back of it. -/
theorem split_of_not_mem (hx : x ∉ front) (h : start ++ x :: rest = front ++ back) :
    ∃ more, start = front ++ more ∧ back = more ++ x :: rest := by
  rcases List.append_eq_append_iff.mp h with ⟨middle, rfl, hmiddle⟩ | hsplit
  · cases middle with
    | nil => exact ⟨[], by simp, hmiddle.symm⟩
    | cons c middle =>
      obtain ⟨rfl, -⟩ := List.cons.inj hmiddle
      exact absurd (List.mem_append_right _ List.mem_cons_self) hx
  · exact hsplit

/-- If the front of a text does not have a character, the place of the character is the one after the
    front or a later one. -/
theorem same_or_later_split (hx : x ∉ front) (h : start ++ x :: rest = front ++ y :: back) :
    (start = front ∧ x = y ∧ rest = back) ∨
      ∃ more, start = front ++ y :: more ∧ back = more ++ x :: rest := by
  obtain ⟨more, rfl, hmore⟩ := split_of_not_mem hx h
  cases more with
  | nil =>
    obtain ⟨rfl, rfl⟩ := List.cons.inj hmore
    exact .inl ⟨List.append_nil _, rfl, rfl⟩
  | cons c more =>
    obtain ⟨rfl, rfl⟩ := List.cons.inj hmore
    exact .inr ⟨more, rfl, rfl⟩

/-- The start of a text ends before a place in it or goes on after that place. -/
theorem ends_or_passes_split (h : front ++ y :: back = start ++ rest) :
    (∃ more, front = start ++ more ∧ rest = more ++ y :: back) ∨ ∃ more, start = front ++ y :: more := by
  rcases List.append_eq_append_iff.mp h with ⟨middle, rfl, hmiddle⟩ | hends
  · cases middle with
    | nil => exact .inl ⟨[], by simp, hmiddle.symm⟩
    | cons c middle =>
      obtain ⟨rfl, -⟩ := List.cons.inj hmiddle
      exact .inr ⟨middle, rfl⟩
  · exact .inl hends

/-- A text is split at its first mark in one way only. -/
theorem first_mark_unique (hstart : ∀ c ∈ start, c ∉ marks) (hfront : ∀ c ∈ front, c ∉ marks)
    (hx : x ∈ marks) (hy : y ∈ marks) (h : start ++ x :: rest = front ++ y :: back) :
    start = front ∧ x = y ∧ rest = back := by
  rcases same_or_later_split (fun hmem => hfront x hmem hx) h with hsame | ⟨more, rfl, -⟩
  · exact hsame
  · exact absurd hy (hstart y (List.mem_append_right _ List.mem_cons_self))

end Splits

section Lookups

/-- The function that looks a variable up in the context. -/
def contextCallee : List Char := "runtime.contextOrFrameLookup".toList

/-- The arguments of a lookup in the context before the quoted name. -/
def contextArguments : List Char := "context, frame, ".toList

theorem toList_contextLookup (name : String) : (contextLookup name).text.toList =
    contextCallee ++ '(' :: (contextArguments ++ (quoteChars name.toList ++ [')'])) := by
  have hcallee : (Expr.member (Vocabulary.name "runtime") "contextOrFrameLookup").text.toList =
      contextCallee := by
    decide
  have hcontext : (Vocabulary.name "context").text.toList ++ ([',', ' '] ++
      ((Vocabulary.name "frame").text.toList ++ [',', ' '])) = contextArguments := by
    decide
  rw [contextLookup, runtime, method, Expr.text, Expr.texts, Expr.texts, Expr.texts, Expr.texts]
  simp only [String.toList_append, hcallee, toList_commaJoin, ← hcontext, List.map_cons, List.map_nil,
    List.intercalate_cons_cons, List.intercalate_singleton, List.append_assoc]
  rw [Expr.text, toList_quote]
  rfl

/-- The function that looks an asset up in the table. -/
def tableCallee : List Char := assetTable.toList ++ ".get".toList

/-- The values that a lookup of an asset passes on, with commas before them. -/
def arguments (values : List (List Char)) : List Char :=
  values.flatMap fun value => ',' :: ' ' :: value

theorem intercalate_cons (first : List Char) (texts : List (List Char)) :
    List.intercalate [',', ' '] (first :: texts) = first ++ arguments texts := by
  induction texts generalizing first with
  | nil => simp [arguments]
  | cons second texts ih =>
    rw [List.intercalate_cons_cons, ih]
    simp [arguments]

/-- The lookup of an asset by its key, which passes on values. -/
def lookupChars (id : List Char) (values : List (List Char)) : List Char :=
  tableCallee ++ '(' :: (quoteChars id ++ (arguments values ++ [')']))

theorem toList_lookupText (entry : AssetEntry) (values : List (List Char)) :
    (entry.lookupText (values.map String.ofList)).toList = lookupChars entry.id.toList values := by
  have htable : assetTable.toList ++ ".get(".toList = tableCallee ++ ['('] := by decide
  have hvalues : (values.map String.ofList).map String.toList = values := by
    simp [Function.comp_def]
  simp only [AssetEntry.lookupText, String.toList_append, toList_commaJoin, List.map_cons, hvalues,
    toList_quote, intercalate_cons, htable]
  simp [lookupChars]

end Lookups

section Pieces

variable {name : String} {rest value text : List Char} {values : List (List Char)}

/-- The text is not empty and has neither quotes and parentheses nor what stands between words. -/
def IsBare (text : List Char) : Prop :=
  text ≠ [] ∧ ∀ c ∈ text, c ∉ ['"', '(', ')', '+', '.', ' ']

theorem IsBare.isPlain (h : IsBare text) : IsPlain text :=
  fun c hc hmark => h.2 c hc (List.mem_append_left ['+', '.', ' '] hmark)

theorem isBare_temp {digits : List Char} (hdigits : ∀ c ∈ digits, c.isDigit) :
    IsBare ('t' :: '_' :: digits) := by
  have hmarks : ∀ c ∈ ['"', '(', ')', '+', '.', ' '], c.isDigit = false :=
    List.forall_iff_forall_mem.mp (by decide)
  refine ⟨List.cons_ne_nil _ _, List.forall_mem_cons.mpr ⟨by decide,
    List.forall_mem_cons.mpr ⟨by decide, fun c hc hmark => ?_⟩⟩⟩
  exact Bool.false_ne_true ((hmarks c hmark).symm.trans (hdigits c hc))

theorem isBare_param (h : IsNameText name) : IsBare (Variable.param name).text.toList := by
  have htext : (Variable.param name).text.toList = 'l' :: '_' :: name.toList := by
    simp [Variable.text]
  rw [htext]
  exact ⟨List.cons_ne_nil _ _, List.forall_mem_cons.mpr ⟨by decide,
    List.forall_mem_cons.mpr ⟨by decide, fun c hc hmark => not_mem_of_isNameText h c hmark hc⟩⟩⟩

theorem IsPlainName.isPlain (h : IsPlainName name) : IsPlain name.toList :=
  fun c hc hmark => not_mem_of_isNameText h.isName c (List.mem_append_left ['+', '.', ' '] hmark) hc

/-- The value of a plain name: a lookup of one in the context or a bare word. -/
def IsPlainValue (value : List Char) : Prop :=
  (∃ name, IsPlainName name ∧ value = (contextLookup name).text.toList) ∨ IsBare value

theorem Fragment.SpellsValue.isPlainValue (hname : IsPlainName name)
    (h : Fragment.SpellsValue name rest value) : IsPlainValue value := by
  cases h with
  | lookup => exact .inl ⟨name, hname, rfl⟩
  | temp hne hdigits hend => exact .inr (isBare_temp hdigits)
  | param hend => exact .inr (isBare_param hname.isName)

/-- What spells a plain fragment is a lookup in the context, a plain text in quotes or a plain text. -/
theorem Fragment.Spells.cases_plain {fragment : Fragment} (hplain : fragment.IsPlain)
    (h : fragment.Spells rest values text) :
    (∃ name, IsPlainName name ∧ text = (contextLookup name).text.toList) ∨
      (∃ value, TemplateManifest.IsPlain value ∧ text = quoteChars value) ∨ TemplateManifest.IsPlain text := by
  cases h with
  | literal value =>
    rcases literal_text value with ⟨text, rfl⟩ | ⟨-, hchars⟩
    · exact .inr (.inl ⟨text.toList, hplain, by simp [Vocabulary.literal, Expr.text]⟩)
    · have hmarks : ∀ c ∈ ['"', '(', ')'], isLiteralCharacter c = false :=
        List.forall_iff_forall_mem.mp (by decide)
      exact .inr (.inr fun c hc hmark =>
        Bool.false_ne_true ((hmarks c hmark).symm.trans (hchars c hc)))
  | symbol hvalue =>
    rcases hvalue.isPlainValue hplain with hlookup | hbare
    · exact .inl hlookup
    · exact .inr (.inr hbare.isPlain)

/-- The values of a plain path are plain and stand in what spells it. -/
theorem Fragment.Spells.values_plain {fragment : Fragment} (hplain : fragment.IsPlain)
    (h : fragment.Spells rest values text) : ∀ value ∈ values, IsPlainValue value ∧ value <:+: text := by
  cases h with
  | literal => exact List.forall_mem_nil _
  | symbol hvalue => exact List.forall_mem_singleton.mpr ⟨hvalue.isPlainValue hplain, List.infix_refl _⟩

theorem Fragment.SpellsSum.values_plain {fragments : List Fragment}
    (hplain : ∀ fragment ∈ fragments, fragment.IsPlain) (h : SpellsSum rest fragments values text) :
    ∀ value ∈ values, IsPlainValue value ∧ value <:+: text := by
  induction h with
  | nil => exact List.forall_mem_nil _
  | last h => exact h.values_plain (hplain _ List.mem_cons_self)
  | @cons fragment next fragments values more text following h hrest ih =>
    obtain ⟨hfirst, hplain⟩ := List.forall_mem_cons.mp hplain
    refine List.forall_mem_append.mpr ⟨fun value hvalue => ?_, fun value hvalue => ?_⟩
    · obtain ⟨hv, hin⟩ := h.values_plain hfirst value hvalue
      exact ⟨hv, hin.trans ⟨[], [' ', '+', ' '] ++ following, by simp⟩⟩
    · obtain ⟨hv, hin⟩ := ih hplain value hvalue
      exact ⟨hv, hin.trans (List.suffix_append _ _).isInfix⟩

theorem AssetPath.Spells.values_plain {path : AssetPath} (hplain : path.IsPlain)
    (h : path.Spells rest values text) : ∀ value ∈ values, IsPlainValue value ∧ value <:+: text := by
  cases h with
  | static => exact List.forall_mem_nil _
  | dynamic h => exact h.values_plain hplain

end Pieces

end TemplateManifest
