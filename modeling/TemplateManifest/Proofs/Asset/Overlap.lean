import TemplateManifest.Proofs.Asset.Plain

/-!
What the lookup of an asset can share with a text that spells a plain path. No such text begins before
a lookup and runs into it, and none begins inside one, but for a quoted text that stands in a value or is
the quoted key.
-/

namespace TemplateManifest

open Text Vocabulary Script

variable {values : List (List Char)} {text start rest more following : List Char}

theorem quoteChars_injective {text text' : List Char} (h : quoteChars text = quoteChars text') :
    text = text' := by
  have hstrings := (Balanced.quote text).strings?_eq
  rw [h, (Balanced.quote text').strings?_eq] at hstrings
  exact (List.cons.inj (Option.some.inj hstrings)).1.symm

section NextMark

/-- The text has a quote or a parenthesis, and if the first of them is a quote, `quoted` holds of what
    stands before it. -/
def NextMark (quoted : List Char → Prop) (text : List Char) : Prop :=
  ∃ front c back, text = front ++ c :: back ∧ IsPlain front ∧ c ∈ ['"', '(', ')'] ∧
    (c = '"' → quoted front)

variable {quoted : List Char → Prop}

theorem NextMark.append (h : NextMark quoted text) (more : List Char) : NextMark quoted (text ++ more) := by
  obtain ⟨front, c, back, rfl, hfront, hc, hquoted⟩ := h
  exact ⟨front, c, back ++ more, by simp, hfront, hc, hquoted⟩

theorem NextMark.mono {quoted' : List Char → Prop} (h : NextMark quoted text)
    (himp : ∀ front, quoted front → quoted' front) : NextMark quoted' text := by
  obtain ⟨front, c, back, htext, hfront, hc, hquoted⟩ := h
  exact ⟨front, c, back, htext, hfront, hc, fun hquote => himp front (hquoted hquote)⟩

theorem NextMark.of_quote (h : NextMark quoted text) {front : List Char} (hfront : IsPlain front)
    (htext : text = front ++ '"' :: rest) : quoted front := by
  obtain ⟨front', c, back, rfl, hfront', hc, hquoted⟩ := h
  obtain ⟨rfl, rfl, -⟩ := first_mark_unique hfront' hfront hc (by decide) htext
  exact hquoted rfl

/-- After a quote inside a call with a quoted argument follows the argument, or what follows the argument,
    or the quote stands later. -/
theorem quote_in_call {front back : List Char} (hfront : '"' ∉ front) {value : List Char}
    (hvalue : IsPlain value) (h : start ++ '"' :: rest = front ++ (quoteChars value ++ back)) :
    rest = value.flatMap escapeChar ++ '"' :: back ∨ rest = back ∨
      ∃ more, back = more ++ '"' :: rest := by
  have hescaped : '"' ∉ value.flatMap escapeChar := fun hmem =>
    isPlain_escaped hvalue _ hmem (by decide)
  have hcall : start ++ '"' :: rest = front ++ '"' :: (value.flatMap escapeChar ++ '"' :: back) := by
    rw [h, quoteChars, List.cons_append, List.append_assoc, List.singleton_append]
  rcases same_or_later_split hfront hcall with ⟨-, -, hrest⟩ | ⟨more, -, hlater⟩
  · exact .inl hrest
  · rcases same_or_later_split hescaped hlater.symm with ⟨-, -, hrest⟩ | ⟨more', -, hlater⟩
    · exact .inr (.inl hrest)
    · exact .inr (.inr ⟨more', hlater⟩)

end NextMark

section Arguments

theorem plus_not_mem_quoteChars {text : List Char} (h : '+' ∉ text) : '+' ∉ quoteChars text := by
  intro hmem
  have hescaped : '+' ∈ text.flatMap escapeChar := by simpa [quoteChars] using hmem
  rcases mem_escaped hescaped with hmem | hmem
  · exact h hmem
  · exact absurd hmem (by decide)

theorem IsPlainValue.plus_not_mem {value : List Char} (h : IsPlainValue value) : '+' ∉ value := by
  rcases h with ⟨name, hname, hvalue⟩ | hbare
  · have hquoted := plus_not_mem_quoteChars (not_mem_of_isNameText hname.isName '+' (by decide))
    have hcallee : '+' ∉ contextCallee := by decide
    have harguments : '+' ∉ contextArguments := by decide
    simp [hvalue, toList_contextLookup, hquoted, hcallee, harguments]
  · exact fun hmem => hbare.2 _ hmem (by decide)

theorem IsPlainValue.getLast? {value : List Char} (h : IsPlainValue value) :
    ∃ c, value.getLast? = some c ∧ c ≠ '"' := by
  rcases h with ⟨name, hname, hvalue⟩ | ⟨hne, hchars⟩
  · exact ⟨')', by simp [hvalue, toList_contextLookup, List.getLast?_append, List.getLast?_cons], by decide⟩
  · refine ⟨value.getLast hne, List.getLast?_eq_some_getLast hne, fun hquote => ?_⟩
    exact hchars '"' (hquote ▸ List.getLast_mem hne) (by decide)

theorem arguments_cons (value : List Char) (values : List (List Char)) :
    arguments (value :: values) = ',' :: ' ' :: (value ++ arguments values) := by
  simp [arguments]

theorem plus_not_mem_arguments (h : ∀ value ∈ values, IsPlainValue value) : '+' ∉ arguments values := by
  intro hmem
  obtain ⟨value, hvalue, hmem⟩ := List.mem_flatMap.mp hmem
  exact (h value hvalue).plus_not_mem (by simpa using hmem)

/-- The first quote or parenthesis from the arguments on is a parenthesis. -/
theorem nextMark_arguments (h : ∀ value ∈ values, IsPlainValue value) :
    NextMark (fun _ => False) (arguments values ++ [')']) := by
  have hcallee : IsPlain (',' :: ' ' :: contextCallee) := List.forall_iff_forall_mem.mp (by decide)
  have hcomma : IsPlain [',', ' '] := List.forall_iff_forall_mem.mp (by decide)
  induction values with
  | nil => exact ⟨[], ')', [], rfl, List.forall_mem_nil _, by decide, by decide⟩
  | cons value values ih =>
    obtain ⟨hvalue, hvalues⟩ := List.forall_mem_cons.mp h
    rw [arguments_cons]
    rcases hvalue with ⟨name, -, hvalue⟩ | hbare
    · rw [hvalue, toList_contextLookup]
      exact ⟨',' :: ' ' :: contextCallee, '(',
        contextArguments ++ (quoteChars name.toList ++ ')' :: (arguments values ++ [')'])), by simp,
        hcallee, by decide, by decide⟩
    · obtain ⟨front, c, back, htext, hfront, hc, hquoted⟩ := ih hvalues
      refine ⟨[',', ' '] ++ (value ++ front), c, back, ?_, List.forall_mem_append.mpr ⟨hcomma,
        List.forall_mem_append.mpr ⟨hbare.isPlain, hfront⟩⟩, hc, hquoted⟩
      rw [List.cons_append, List.cons_append, List.append_assoc, htext]
      simp

/-- After a quote in the arguments, the next quote or parenthesis is a parenthesis, or what stands
    between two quotes stands so in a value. -/
theorem nextMark_of_quote_in_arguments (h : ∀ value ∈ values, IsPlainValue value)
    (htext : start ++ '"' :: rest = arguments values ++ [')']) :
    NextMark (fun front => ∃ value ∈ values, '"' :: (front ++ ['"']) <:+: value) rest := by
  induction values generalizing start with
  | nil =>
    obtain ⟨more, -, hmore⟩ := split_of_not_mem (show '"' ∉ arguments [] ++ [')'] by decide)
      (htext.trans (List.append_nil _).symm)
    exact absurd hmore.symm (List.append_ne_nil_of_right_ne_nil _ (List.cons_ne_nil _ _))
  | cons value values ih =>
    obtain ⟨hvalue, hvalues⟩ := List.forall_mem_cons.mp h
    have hlater {start : List Char} (htext : start ++ '"' :: rest = arguments values ++ [')']) :
        NextMark (fun front => ∃ v ∈ value :: values, '"' :: (front ++ ['"']) <:+: v) rest :=
      (ih hvalues htext).mono fun front ⟨v, hv, hin⟩ => ⟨v, List.mem_cons_of_mem _ hv, hin⟩
    rw [arguments_cons] at htext
    rcases hvalue with ⟨name, hname, hvalue⟩ | hbare
    · have hfront : '"' ∉ ',' :: ' ' :: (contextCallee ++ '(' :: contextArguments) := by decide
      have hcall : start ++ '"' :: rest = (',' :: ' ' :: (contextCallee ++ '(' :: contextArguments)) ++
          (quoteChars name.toList ++ ')' :: (arguments values ++ [')'])) := by
        rw [htext, hvalue, toList_contextLookup]
        simp
      rcases quote_in_call hfront hname.isPlain hcall with rfl | rfl | ⟨more, hmore⟩
      · refine ⟨_, '"', _, rfl, isPlain_escaped hname.isPlain, by decide, fun _ =>
          ⟨_, List.mem_cons_self, contextCallee ++ '(' :: contextArguments, [')'], ?_⟩⟩
        rw [hvalue, toList_contextLookup]
        simp [quoteChars]
      · exact ⟨[], ')', _, rfl, List.forall_mem_nil _, by decide, fun hc => absurd hc (by decide)⟩
      · obtain ⟨more, -, hmore⟩ := split_of_not_mem (show '"' ∉ [')'] by decide) hmore.symm
        exact hlater hmore.symm
    · have hfront : '"' ∉ ',' :: ' ' :: value := fun hmem =>
        hbare.2 '"' (by simpa using hmem) (by decide)
      have hsplit : start ++ '"' :: rest = (',' :: ' ' :: value) ++ (arguments values ++ [')']) := by
        rw [htext]
        simp
      obtain ⟨more, -, hmore⟩ := split_of_not_mem hfront hsplit
      exact hlater hmore.symm

end Arguments

section Inside

variable {id : List Char}

/-- After a quote in a lookup, the next quote or parenthesis is a parenthesis, or what stands between
    two quotes is the escaped key or stands so in a value. -/
theorem nextMark_of_quote_in_lookup (hid : IsPlain id) (h : ∀ value ∈ values, IsPlainValue value)
    (htext : start ++ '"' :: rest = lookupChars id values) :
    NextMark (fun front => front = id.flatMap escapeChar ∨
      ∃ value ∈ values, '"' :: (front ++ ['"']) <:+: value) rest := by
  have hfront : '"' ∉ tableCallee ++ ['('] := by decide
  have hcall : start ++ '"' :: rest =
      (tableCallee ++ ['(']) ++ (quoteChars id ++ (arguments values ++ [')'])) := by
    rw [htext, lookupChars]
    simp
  rcases quote_in_call hfront hid hcall with rfl | rfl | ⟨more, hmore⟩
  · exact ⟨_, '"', _, rfl, isPlain_escaped hid, by decide, fun _ => .inl rfl⟩
  · exact (nextMark_arguments h).mono fun _ => False.elim
  · exact (nextMark_of_quote_in_arguments h hmore.symm).mono fun _ => .inr

/-- A plain text in quotes that begins in a lookup is the quoted key or stands in a value. -/
theorem quoted_in_lookup (hid : IsPlain id) (h : ∀ value ∈ values, IsPlainValue value)
    {path : List Char} (hpath : IsPlain path) {middle : List Char} (hmiddle : middle ≠ [])
    (hlookup : lookupChars id values = start ++ middle)
    (htext : middle ++ following = quoteChars path ++ rest) :
    path = id ∨ ∃ value ∈ values, quoteChars path <:+: value := by
  obtain ⟨c, middle, rfl⟩ := List.exists_cons_of_ne_nil hmiddle
  obtain ⟨rfl, hafter⟩ : c = '"' ∧ middle ++ following = path.flatMap escapeChar ++ '"' :: rest := by
    simpa [quoteChars] using htext
  have hnext := (nextMark_of_quote_in_lookup hid h hlookup.symm).append following
  rcases hnext.of_quote (isPlain_escaped hpath) hafter with hkey | hvalue
  · exact .inl (quoteChars_injective (by rw [quoteChars, hkey, quoteChars]))
  · exact .inr hvalue

/-- A closing parenthesis in what spells a plain fragment ends a lookup in the context. -/
theorem Fragment.Spells.of_closing {fragment : Fragment} (hplain : fragment.IsPlain) {back : List Char}
    (h : fragment.Spells rest values (start ++ ')' :: back)) :
    back = [] ∧ ∃ name, start ++ [')'] = (contextLookup name).text.toList := by
  have hparen : ')' ∈ start ++ ')' :: back := List.mem_append_right _ List.mem_cons_self
  rcases h.cases_plain hplain with ⟨name, hname, htext⟩ | ⟨value, hvalue, htext⟩ | hbare
  · have hquoted : ')' ∉ quoteChars name.toList := not_mem_quoteChars hname.isPlain _ (by decide)
    have hcallee : ')' ∉ contextCallee := by decide
    have harguments : ')' ∉ contextArguments := by decide
    have hbefore : ')' ∉ contextCallee ++ '(' :: (contextArguments ++ quoteChars name.toList) := by
      simp [hquoted, hcallee, harguments]
    have hlookup : start ++ ')' :: back =
        (contextCallee ++ '(' :: (contextArguments ++ quoteChars name.toList)) ++ [')'] := by
      rw [htext, toList_contextLookup]
      simp
    obtain ⟨more, rfl, hmore⟩ := split_of_not_mem hbefore hlookup
    cases more with
    | nil =>
      obtain rfl := (List.cons.inj hmore).2
      exact ⟨rfl, name, by rw [← htext]⟩
    | cons c more => simp at hmore
  · exact absurd (htext ▸ hparen) (not_mem_quoteChars hvalue _ (by decide))
  · exact absurd (by decide) (hbare _ hparen)

theorem lookupChars_eq_concat (id : List Char) (values : List (List Char)) : lookupChars id values =
    (tableCallee ++ '(' :: (quoteChars id ++ arguments values)) ++ [')'] := by
  simp [lookupChars]

/-- The last argument of a lookup ends in a quote only if it is the key. -/
theorem arguments_eq_nil_of_getLast? (h : ∀ value ∈ values, IsPlainValue value)
    (hlast : (start ++ arguments values).getLast? = some '"') : values = [] := by
  rcases List.eq_nil_or_concat values with rfl | ⟨before, value, rfl⟩
  · rfl
  · obtain ⟨c, hc, hquote⟩ := (h value (by simp)).getLast?
    have hvalue : (start ++ arguments (before.concat value)).getLast? = some c := by
      simp [arguments, List.getLast?_append, List.getLast?_cons, hc]
    rw [hlast] at hvalue
    exact absurd (Option.some.inj hvalue).symm hquote

theorem contextCallee_not_suffix (start : List Char) : ¬ contextCallee <:+ start ++ tableCallee := by
  rintro ⟨front, hsame⟩
  have hletter := congrArg List.getLast? hsame
  rw [List.getLast?_append_of_ne_nil _ (by decide), List.getLast?_append_of_ne_nil _ (by decide)] at hletter
  exact absurd hletter (by decide)

/-- No lookup of a plain asset ends in a lookup in the context. -/
theorem contextLookup_not_suffix (hid : IsPlain id) (h : ∀ value ∈ values, IsPlainValue value)
    {name : String} : ¬ (contextLookup name).text.toList <:+ lookupChars id values := by
  rintro ⟨start, htext⟩
  have hbefore : start ++ (contextCallee ++ '(' :: (contextArguments ++ quoteChars name.toList)) =
      tableCallee ++ '(' :: (quoteChars id ++ arguments values) := by
    refine List.append_cancel_right (Eq.trans ?_ (htext.trans (lookupChars_eq_concat id values)))
    simp [toList_contextLookup]
  have hlast : ((tableCallee ++ '(' :: quoteChars id) ++ arguments values).getLast? = some '"' := by
    rw [List.append_assoc, List.cons_append, ← hbefore]
    simp [quoteChars, List.getLast?_append, List.getLast?_cons]
  obtain rfl := arguments_eq_nil_of_getLast? h hlast
  have hsplit : (start ++ contextCallee) ++ '(' :: (contextArguments ++ quoteChars name.toList) =
      tableCallee ++ '(' :: quoteChars id := by
    simpa [arguments] using hbefore
  rcases same_or_later_split (show '(' ∉ tableCallee by decide) hsplit with ⟨hsame, -⟩ | ⟨more, -, hmore⟩
  · exact contextCallee_not_suffix [] ⟨start, hsame⟩
  · exact not_mem_quoteChars hid '(' (by decide) (hmore ▸ List.mem_append_right _ List.mem_cons_self)

theorem plus_not_mem_lookupChars (hplus : '+' ∉ id) (h : ∀ value ∈ values, IsPlainValue value) :
    '+' ∉ lookupChars id values := by
  have hcallee : '+' ∉ tableCallee := by decide
  simp [lookupChars, hcallee, plus_not_mem_quoteChars hplus, plus_not_mem_arguments h]

/-- No sum of two or more plain fragments begins in a lookup. -/
theorem sum_not_in_lookup (hid : IsPlain id) (hplus : '+' ∉ id)
    (h : ∀ value ∈ values, IsPlainValue value) {fragments : List Fragment}
    (hlength : 2 ≤ fragments.length) (hplain : ∀ fragment ∈ fragments, fragment.IsPlain)
    {found : List (List Char)} {spelled middle : List Char} (hmiddle : middle ≠ [])
    (hlookup : lookupChars id values = start ++ middle)
    (hspells : Fragment.SpellsSum rest fragments found spelled) :
    middle ++ following ≠ spelled ++ rest := by
  intro htext
  cases hspells with
  | nil => simp at hlength
  | last => simp at hlength
  | @cons fragment next fragments _ _ first later hfirst hlater =>
    -- The sign is not in the lookup, so that the lookup ends in the first fragment.
    have hsign : '+' ∉ middle := fun hmem =>
      plus_not_mem_lookupChars hplus h (hlookup ▸ List.mem_append_right _ hmem)
    have hsplit : (first ++ [' ']) ++ '+' :: ([' '] ++ later ++ rest) = middle ++ following := by
      rw [htext]
      simp
    obtain ⟨more, hmore, -⟩ := split_of_not_mem hsign hsplit
    obtain ⟨middle, rfl⟩ : ∃ before, middle = before ++ [')'] := by
      obtain ⟨before, c, rfl⟩ := (List.eq_nil_or_concat middle).resolve_left hmiddle
      rw [lookupChars_eq_concat, List.concat_eq_append, ← List.append_assoc] at hlookup
      exact ⟨before, by rw [List.concat_eq_append, (List.append_inj' hlookup rfl).2]⟩
    rcases List.eq_nil_or_concat more with rfl | ⟨more, c, rfl⟩
    · have hlast := congrArg List.getLast? hmore
      simp at hlast
    · obtain ⟨rfl, -⟩ : first = middle ++ ')' :: more ∧ [' '] = [c] :=
        List.append_inj' (by rw [hmore]; simp) rfl
      obtain ⟨rfl, name, hname⟩ := hfirst.of_closing (hplain _ List.mem_cons_self)
      exact contextLookup_not_suffix hid h ⟨start, by rw [← hname, hlookup]⟩

end Inside

section Before

variable {found : List (List Char)} {front back spelled kept : List Char}

/-- Before an opening parenthesis in what spells a plain fragment stands the function that looks a
    variable up in the context. -/
theorem Fragment.Spells.of_opening {fragment : Fragment} (hplain : fragment.IsPlain)
    (h : fragment.Spells rest found (front ++ '(' :: back)) : front = contextCallee := by
  have hparen : '(' ∈ front ++ '(' :: back := List.mem_append_right _ List.mem_cons_self
  rcases h.cases_plain hplain with ⟨name, hname, htext⟩ | ⟨value, hvalue, htext⟩ | hbare
  · have hquoted : '(' ∉ quoteChars name.toList := not_mem_quoteChars hname.isPlain _ (by decide)
    have harguments : '(' ∉ contextArguments := by decide
    rw [toList_contextLookup] at htext
    rcases same_or_later_split (show '(' ∉ contextCallee by decide) htext with ⟨hsame, -⟩ | ⟨more, -, hmore⟩
    · exact hsame
    · have hmem : '(' ∈ contextArguments ++ (quoteChars name.toList ++ [')']) :=
        hmore ▸ List.mem_append_right _ List.mem_cons_self
      simp [hquoted, harguments] at hmem
  · exact absurd (htext ▸ hparen) (not_mem_quoteChars hvalue _ (by decide))
  · exact absurd (by decide) (hbare _ hparen)

theorem Fragment.SpellsSum.of_opening {fragments : List Fragment}
    (hplain : ∀ fragment ∈ fragments, fragment.IsPlain)
    (h : Fragment.SpellsSum rest fragments found spelled) (htext : front ++ '(' :: back = spelled) :
    contextCallee <:+ front := by
  induction h generalizing front with
  | nil => simp at htext
  | last h =>
    obtain rfl := (htext ▸ h).of_opening (hplain _ List.mem_cons_self)
    exact List.suffix_rfl
  | @cons _ _ _ _ _ first later h hlater ih =>
    obtain ⟨hfirst, hplain⟩ := List.forall_mem_cons.mp hplain
    rw [List.append_assoc] at htext
    rcases List.append_eq_append_iff.mp htext with ⟨middle, rfl, hmiddle⟩ | ⟨middle, rfl, hmiddle⟩
    · cases middle with
      | nil => exact absurd (List.cons.inj hmiddle).1 (by decide)
      | cons c middle =>
        obtain ⟨rfl, -⟩ := List.cons.inj hmiddle
        obtain rfl := h.of_opening hfirst
        exact List.suffix_rfl
    · obtain ⟨more, rfl, hmore⟩ := split_of_not_mem (show '(' ∉ [' ', '+', ' '] by decide) hmiddle.symm
      exact (ih hplain hmore.symm).trans ⟨first ++ [' ', '+', ' '], by simp⟩

/-- What spells a sum ends in what spells one of its fragments, after a blank or nothing. -/
theorem Fragment.SpellsSum.exists_last {fragments : List Fragment} (hne : fragments ≠ [])
    (h : Fragment.SpellsSum rest fragments found spelled) :
    ∃ before fragment values last, spelled = before ++ last ∧ fragment ∈ fragments ∧
      fragment.Spells rest values last ∧ (before = [] ∨ ∃ start, before = start ++ [' ']) := by
  induction h with
  | nil => exact absurd rfl hne
  | last h => exact ⟨[], _, _, _, rfl, List.mem_cons_self, h, .inl rfl⟩
  | @cons _ _ _ _ _ first later h hlater ih =>
    obtain ⟨before, fragment, values, last, rfl, hmem, hspells, hbefore⟩ := ih (List.cons_ne_nil _ _)
    refine ⟨first ++ [' ', '+', ' '] ++ before, fragment, values, last, by simp,
      List.mem_cons_of_mem _ hmem, hspells, .inr ?_⟩
    rcases hbefore with rfl | ⟨start, rfl⟩
    · exact ⟨first ++ [' ', '+'], by simp⟩
    · exact ⟨first ++ [' ', '+', ' '] ++ start, by simp⟩

/-- The variable of a plain name does not run into the function that looks an asset up: no word ends
    inside the name of the table. -/
theorem param_not_into_lookup {name : String} (hname : IsPlainName name)
    (hcallee : tableCallee = front ++ back)
    (hend : isWordBoundary (Variable.param name).text.toList.getLast? (back ++ '(' :: following).head?) :
    ¬ front <:+ (Variable.param name).text.toList := by
  intro hsuffix
  have hdot : '.' ∉ front := fun hmem =>
    (isBare_param hname.isName).2 '.' (hsuffix.mem hmem) (by decide)
  have hsplit : assetTable.toList ++ '.' :: "get".toList = front ++ back := by
    rw [← hcallee]
    decide
  obtain ⟨more, htable, rfl⟩ := split_of_not_mem hdot hsplit
  cases more with
  | nil =>
    rw [List.append_nil] at htable
    exact hname.notTable (htable ▸ hsuffix)
  | cons c more =>
    have hwords : ∀ c ∈ assetTable.toList, isWordCharacter c = true :=
      List.forall_iff_forall_mem.mp (by decide +kernel)
    have hc : isWordCharacter c = true :=
      hwords c (htable ▸ List.mem_append_right _ List.mem_cons_self)
    have hword : (Variable.param name).text.toList.getLast?.any isWordCharacter = true :=
      hname.endsInWord
    simp [isWordBoundary, hword, hc] at hend

/-- What spells a plain fragment does not run into the function that looks an asset up. -/
theorem Fragment.Spells.not_into_lookup {fragment : Fragment} (hplain : fragment.IsPlain)
    (hne : front ≠ []) (hcallee : tableCallee = front ++ back)
    (h : fragment.Spells (back ++ '(' :: following) found spelled) : ¬ front <:+ spelled := by
  intro hsuffix
  have hlast : ∀ c, spelled.getLast? = some c → c ∈ tableCallee := by
    obtain ⟨before, rfl⟩ := hsuffix
    intro c hc
    rw [List.getLast?_append_of_ne_nil _ hne] at hc
    exact hcallee ▸ List.mem_append_left _ (List.mem_of_getLast? hc)
  cases h with
  | literal value =>
    rcases literal_text value with ⟨text, rfl⟩ | ⟨-, hchars⟩
    · have hquote : '"' ∈ tableCallee :=
        hlast '"' (by simp [Vocabulary.literal, Expr.text, quoteChars, List.getLast?_append, List.getLast?_cons])
      exact absurd hquote (by decide)
    · obtain ⟨c, front, rfl⟩ := List.exists_cons_of_ne_nil hne
      have htable : tableCallee = '_' :: tableCallee.tail := by decide
      obtain rfl : '_' = c := (List.cons.inj (htable.symm.trans hcallee)).1
      exact absurd (hchars '_' (hsuffix.mem List.mem_cons_self)) (by decide)
  | symbol hvalue =>
    cases hvalue with
    | lookup =>
      have hparen : ')' ∈ tableCallee :=
        hlast ')' (by simp [toList_contextLookup, List.getLast?_append, List.getLast?_cons])
      exact absurd hparen (by decide)
    | @temp digits hdigit hdigits hend =>
      have hletters : ∀ c ∈ tableCallee, c.isDigit = false := List.forall_iff_forall_mem.mp (by decide)
      have hlastDigit : digits.getLast hdigit ∈ tableCallee := by
        refine hlast _ ?_
        rw [show 't' :: '_' :: digits = ['t', '_'] ++ digits from rfl,
          List.getLast?_append_of_ne_nil _ hdigit, List.getLast?_eq_some_getLast hdigit]
      exact Bool.false_ne_true ((hletters _ hlastDigit).symm.trans (hdigits _ (List.getLast_mem hdigit)))
    | param hend => exact param_not_into_lookup hplain hcallee hend hsuffix

/-- What spells a sum of plain fragments does not run into the function that looks an asset up. -/
theorem Fragment.SpellsSum.not_into_lookup {fragments : List Fragment} (hfragments : fragments ≠ [])
    (hplain : ∀ fragment ∈ fragments, fragment.IsPlain) (hne : front ≠ [])
    (hcallee : tableCallee = front ++ back)
    (h : Fragment.SpellsSum (back ++ '(' :: following) fragments found spelled) : ¬ front <:+ spelled := by
  rintro ⟨kept, htext⟩
  obtain ⟨before, fragment, values, last, rfl, hmem, hspells, hbefore⟩ := h.exists_last hfragments
  have hlast := hspells.not_into_lookup (hplain fragment hmem) hne hcallee
  rcases List.append_eq_append_iff.mp htext with ⟨more, hmore, rfl⟩ | ⟨more, -, rfl⟩
  · rcases List.eq_nil_or_concat more with rfl | ⟨more, c, rfl⟩
    · exact hlast List.suffix_rfl
    · -- The blank before the last fragment would stand in the name of the function.
      rw [List.concat_eq_append, ← List.append_assoc] at hmore
      rcases hbefore with rfl | ⟨start, rfl⟩
      · simp at hmore
      · obtain ⟨-, hc⟩ := List.append_inj' hmore rfl
        have hblank : ' ' ∈ tableCallee := by
          rw [hcallee, (List.cons.inj hc).1]
          simp
        exact absurd hblank (by decide)
  · exact hlast ⟨more, rfl⟩

/-- What spells a plain path and begins before a lookup ends before it. -/
theorem AssetPath.Spells.ends_before_lookup {path : AssetPath} (hproper : path.IsProper)
    (hplain : path.IsPlain)
    (h : path.Spells rest found spelled) {id : List Char}
    (htext : kept ++ (lookupChars id values ++ following) = spelled ++ rest) :
    ∃ more, kept = spelled ++ more := by
  rcases List.append_eq_append_iff.mp htext with ⟨front, rfl, hfront⟩ | ⟨more, rfl, -⟩
  · by_cases hne : front = []
    · exact ⟨[], by simp [hne]⟩
    · exfalso
      have hcall : tableCallee ++ '(' :: (quoteChars id ++ (arguments values ++ [')']) ++ following) =
          front ++ rest := by
        rw [← hfront, lookupChars]
        simp
      rcases ends_or_passes_split hcall with ⟨back, hcallee, rfl⟩ | ⟨more, rfl⟩
      · generalize hspelled : kept ++ front = spelled at h
        have hsuffix : front <:+ spelled := ⟨kept, hspelled⟩
        cases h with
        | static path =>
          have hquote : front.getLast? = some '"' := by
            rw [← List.getLast?_append_of_ne_nil kept hne, hspelled, quoteChars]
            simp [List.getLast?_cons]
          have hmem : '"' ∈ tableCallee :=
            hcallee ▸ List.mem_append_left _ (List.mem_of_getLast? hquote)
          exact absurd hmem (by decide)
        | dynamic h =>
          exact h.not_into_lookup hproper.fragments_ne_nil hplain hne hcallee hsuffix
      · generalize hspelled : kept ++ (tableCallee ++ '(' :: more) = spelled at h
        cases h with
        | static path =>
          exact not_mem_quoteChars hplain '(' (by decide) (by simp [← hspelled])
        | dynamic h =>
          rw [← List.append_assoc] at hspelled
          exact contextCallee_not_suffix kept (h.of_opening hplain hspelled)
  · exact ⟨more, rfl⟩

end Before

end TemplateManifest
