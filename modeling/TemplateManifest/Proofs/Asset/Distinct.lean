import TemplateManifest.Proofs.Asset.Entries
import TemplateManifest.Proofs.Asset.Twice
import TemplateManifest.Proofs.Template.ExpressionReading
import TemplateManifest.Proofs.Template.Naming

/-!
Equal expressions are the expressions of equal assets: what the expression of an asset spells can be read
in one way only, so that assets are told apart by their expressions. Floating-point numbers are left out:
a whole one is written as an integer is. Main statement: `Template.eq_of_expression_eq`.
-/

namespace TemplateManifest

open Text Vocabulary Script

namespace Fragment

/-- The fragment is no floating-point number. -/
def IsExact : Fragment → Prop
  | literal (.float _) => False
  | _ => True

instance : DecidablePred IsExact
  | literal (.float _) => .isFalse id
  | literal (.str _) | literal (.int _) | literal (.bool _) | literal .none | symbol _ => .isTrue trivial

/-- A variable has a name, and not one that stands for a value. -/
def IsWorded : Fragment → Prop
  | literal _ => True
  | symbol name => IsName name ∧ name ∉ valueWords

/-- The fragment is one in quotes. -/
def IsQuoted : Fragment → Prop
  | literal (.str _) => True
  | _ => False

/-- The fragment that a word without quotes spells: an integer, a constant or a variable. -/
def ofWord (word : String) : Fragment :=
  match readInteger? word.toList with
  | some n => literal (.int n)
  | none =>
    if word = "true" then literal (.bool true)
    else if word = "false" then literal (.bool false)
    else if word = "null" then literal .none
    else symbol word

/-- What follows the first operand of a sum. -/
def furtherText (fragments : List Fragment) : List Char :=
  fragments.flatMap fun fragment => ' ' :: '+' :: ' ' :: fragment.text.toList

end Fragment

namespace AssetPath

/-- The operands of the expression of a path. -/
def operands : AssetPath → List Fragment
  | static path => [.literal (.str path)]
  | dynamic fragments => fragments

/-- The path has no floating-point number. -/
def IsExact (path : AssetPath) : Prop :=
  ∀ fragment ∈ path.operands, fragment.IsExact

instance : DecidablePred IsExact := fun path =>
  inferInstanceAs (Decidable (∀ fragment ∈ path.operands, fragment.IsExact))

/-- The variables of the path are named as in templates. -/
def IsWorded (path : AssetPath) : Prop :=
  ∀ fragment ∈ path.operands, fragment.IsWorded

end AssetPath

section Words

theorem startsName_of_isDigit {c : Char} (h : c.isDigit = true) : Code.startsName c = false := by
  have hsmall : ∀ n < 58, 48 ≤ n → Code.startsName (Char.ofNat n) = false := by decide +kernel
  have hbounds : 48 ≤ c.toNat ∧ c.toNat ≤ 57 := by
    simpa [Char.isDigit, UInt32.le_iff_toNat_le] using h
  have hdigit := hsmall c.toNat (by omega) hbounds.1
  rwa [Char.ofNat_toNat] at hdigit

/-- A name is not read as a number. -/
theorem IsName.readInteger? {name : String} (h : IsName name) : readInteger? name.toList = none := by
  obtain ⟨-, c, rest, hname, hstart⟩ := h
  have hsigns : ∀ d ∈ ['-', '+'], Code.startsName d = false :=
    List.forall_iff_forall_mem.mp (by decide +kernel)
  have hother {d : Char} (hd : Code.startsName d = false) : c ≠ d := by
    rintro rfl
    exact Bool.false_ne_true (hd.symm.trans hstart)
  have hsign : splitSign (c :: rest) = (false, c :: rest) := by
    unfold splitSign
    split
    · next heq => exact absurd (List.cons.inj heq).1 (hother (hsigns _ (by decide)))
    · next heq => exact absurd (List.cons.inj heq).1 (hother (hsigns _ (by decide)))
    · rfl
  have hdigit : c.isDigit = false := by
    rw [← Bool.not_eq_true]
    exact fun hdigit => hother (startsName_of_isDigit hdigit) rfl
  rw [hname, TemplateManifest.readInteger?, hsign]
  simp [hdigit]

end Words

namespace Fragment

variable {fragment fragment' : Fragment} {fragments fragments' : List Fragment} {rest rest' : List Char}

/-- A fragment without quotes is read back from its text. -/
theorem ofWord_text (hexact : fragment.IsExact) (hworded : fragment.IsWorded)
    (hbare : ¬ fragment.IsQuoted) : ofWord fragment.text = fragment := by
  cases fragment with
  | literal value =>
    cases value with
    | str => exact absurd trivial hbare
    | int n =>
      change ofWord (integerText n) = _
      rw [ofWord, readInteger?_integerText]
    | float => exact absurd hexact id
    | bool value => cases value <;> decide
    | none => decide
  | symbol name =>
    obtain ⟨hname, hvalue⟩ := hworded
    have hother : ∀ word ∈ valueWords, name ≠ word := fun word hword heq => hvalue (heq ▸ hword)
    change ofWord name = _
    simp only [ofWord, hname.readInteger?]
    rw [if_neg (hother _ (by decide)), if_neg (hother _ (by decide)), if_neg (hother _ (by decide))]

/-- The text of a fragment without quotes is one word. -/
theorem not_mem_text (hworded : fragment.IsWorded) (hbare : ¬ fragment.IsQuoted) :
    ∀ c ∈ ['"', ' '], c ∉ fragment.text.toList := by
  intro c hc hmem
  cases fragment with
  | literal value =>
    rcases literal_text value with ⟨text, rfl⟩ | ⟨-, hchars⟩
    · exact hbare trivial
    · have hmarks : ∀ c ∈ ['"', ' '], isLiteralCharacter c = false :=
        List.forall_iff_forall_mem.mp (by decide)
      exact Bool.false_ne_true ((hmarks c hc).symm.trans (hchars c hmem))
  | symbol name =>
    have hmarks : ['"', ' '] ⊆ ['"', '(', ')', '+', '.', ' '] := by decide
    exact not_mem_of_isNameText hworded.1.1 c (hmarks hc) hmem

theorem toList_text_str (path : String) : (literal (.str path)).text.toList = quoteChars path.toList :=
  toList_quote path

theorem text_ne_nil (hworded : fragment.IsWorded) : fragment.text.toList ≠ [] := by
  cases fragment with
  | literal value =>
    rcases literal_text value with ⟨path, rfl⟩ | ⟨hne, -⟩
    · rw [toList_text_str, quoteChars]
      exact List.cons_ne_nil _ _
    · exact hne
  | symbol name =>
    obtain ⟨-, c, rest, hname, -⟩ := hworded.1
    change name.toList ≠ []
    exact hname ▸ List.cons_ne_nil _ _

theorem IsQuoted.exists_text (h : fragment.IsQuoted) : ∃ text, fragment = literal (.str text) := by
  unfold IsQuoted at h
  split at h
  · exact ⟨_, rfl⟩
  · exact h.elim

/-- Strings end where their quotes end, whatever stands between and after them. -/
theorem quoteChars_append_inj {text text' : List Char}
    (h : quoteChars text ++ rest = quoteChars text' ++ rest') : text = text' ∧ rest = rest' := by
  have hbody : text.flatMap escapeChar ++ '"' :: rest = text'.flatMap escapeChar ++ '"' :: rest' := by
    simpa [quoteChars] using h
  have hlength := congrArg Lexeme.stringLength? hbody
  rw [Lexeme.stringLength?_flatMap_escapeChar, Lexeme.stringLength?_flatMap_escapeChar] at hlength
  obtain ⟨hescaped, hrest⟩ := List.append_inj hbody (Nat.succ.inj (Option.some.inj hlength))
  exact ⟨quoteChars_injective (by rw [quoteChars, hescaped, quoteChars]), (List.cons.inj hrest).2⟩

/-- A fragment without quotes ends before the next blank. -/
theorem takeWhile_text (hworded : fragment.IsWorded) (hbare : ¬ fragment.IsQuoted)
    (hrest : ∀ c ∈ rest.head?, c = ' ') :
    (fragment.text.toList ++ rest).takeWhile (· ≠ ' ') = fragment.text.toList := by
  have hblank := not_mem_text hworded hbare ' ' (by decide)
  refine takeWhile_append_of_head? (fun c hc => decide_eq_true fun heq => hblank (heq ▸ hc)) ?_
  exact fun c hc => decide_eq_false (not_not.mpr (hrest c hc))

/-- Where a blank or nothing follows, a text is that of one fragment only. -/
theorem text_append_inj (hexact : fragment.IsExact) (hexact' : fragment'.IsExact)
    (hworded : fragment.IsWorded) (hworded' : fragment'.IsWorded)
    (hrest : ∀ c ∈ rest.head?, c = ' ') (hrest' : ∀ c ∈ rest'.head?, c = ' ')
    (h : fragment.text.toList ++ rest = fragment'.text.toList ++ rest') :
    fragment = fragment' ∧ rest = rest' := by
  -- A word does not begin with a quote, so that it is not the text of a string.
  have hquote {fragment : Fragment} {text : String} {rest rest' : List Char} (hworded : fragment.IsWorded)
      (hbare : ¬ fragment.IsQuoted) :
      fragment.text.toList ++ rest ≠ (literal (.str text)).text.toList ++ rest' := by
    intro h
    obtain ⟨c, word, hword⟩ := List.exists_cons_of_ne_nil (text_ne_nil hworded)
    have hnot := not_mem_text hworded hbare '"' (by decide)
    rw [hword] at h hnot
    rw [toList_text_str, quoteChars] at h
    exact hnot ((List.cons.inj h).1 ▸ List.mem_cons_self)
  by_cases hbare : fragment.IsQuoted
  · obtain ⟨text, rfl⟩ := hbare.exists_text
    by_cases hbare' : fragment'.IsQuoted
    · obtain ⟨text', rfl⟩ := hbare'.exists_text
      have htexts : quoteChars text.toList ++ rest = quoteChars text'.toList ++ rest' := by
        rwa [← toList_text_str, ← toList_text_str]
      obtain ⟨htext, hrest⟩ := quoteChars_append_inj htexts
      exact ⟨by rw [String.toList_inj.mp htext], hrest⟩
    · exact absurd h.symm (hquote hworded' hbare')
  · by_cases hbare' : fragment'.IsQuoted
    · obtain ⟨text', rfl⟩ := hbare'.exists_text
      exact absurd h (hquote hworded hbare)
    · have hword := congrArg (List.takeWhile (· ≠ ' ')) h
      rw [takeWhile_text hworded hbare hrest, takeWhile_text hworded' hbare' hrest'] at hword
      refine ⟨?_, List.append_cancel_left (hword ▸ h)⟩
      rw [← ofWord_text hexact hworded hbare, String.toList_inj.mp hword,
        ofWord_text hexact' hworded' hbare']

theorem furtherText_cons (fragment : Fragment) (fragments : List Fragment) :
    furtherText (fragment :: fragments) =
      ' ' :: '+' :: ' ' :: (fragment.text.toList ++ furtherText fragments) :=
  rfl

theorem head?_furtherText (fragments : List Fragment) : ∀ c ∈ (furtherText fragments).head?, c = ' ' := by
  cases fragments with
  | nil => exact fun c hc => absurd hc (by simp [furtherText])
  | cons fragment fragments =>
    rintro c ⟨⟩
    rfl

/-- What follows the first operand of a sum tells the other operands. -/
theorem furtherText_inj (hexact : ∀ fragment ∈ fragments, fragment.IsExact)
    (hexact' : ∀ fragment ∈ fragments', fragment.IsExact)
    (hworded : ∀ fragment ∈ fragments, fragment.IsWorded)
    (hworded' : ∀ fragment ∈ fragments', fragment.IsWorded)
    (h : furtherText fragments = furtherText fragments') : fragments = fragments' := by
  induction fragments generalizing fragments' with
  | nil =>
    cases fragments' with
    | nil => rfl
    | cons fragment' fragments' => cases h
  | cons fragment fragments ih =>
    cases fragments' with
    | nil => cases h
    | cons fragment' fragments' =>
      obtain ⟨hfirst, hexact⟩ := List.forall_mem_cons.mp hexact
      obtain ⟨hfirst', hexact'⟩ := List.forall_mem_cons.mp hexact'
      obtain ⟨hname, hworded⟩ := List.forall_mem_cons.mp hworded
      obtain ⟨hname', hworded'⟩ := List.forall_mem_cons.mp hworded'
      have htexts : fragment.text.toList ++ furtherText fragments =
          fragment'.text.toList ++ furtherText fragments' := by
        simpa [furtherText_cons] using h
      obtain ⟨hsame, hrest⟩ := text_append_inj hfirst hfirst' hname hname' (head?_furtherText _)
        (head?_furtherText _) htexts
      rw [hsame, ih hexact hexact' hworded hworded' hrest]

theorem toList_intercalate_text (fragment : Fragment) (fragments : List Fragment) :
    (String.intercalate " + " ((fragment :: fragments).map text)).toList =
      fragment.text.toList ++ furtherText fragments := by
  induction fragments generalizing fragment with
  | nil => simp [furtherText]
  | cons next fragments ih =>
    have hnext := ih next
    rw [String.toList_intercalate, List.map_cons, List.map_cons] at hnext ⊢
    rw [List.map_cons, List.map_cons, List.intercalate_cons_cons, hnext, List.append_assoc]
    rfl

end Fragment

namespace AssetPath

variable {path path' : AssetPath}

theorem eq_of_operands_eq (hproper : path.IsProper) (hproper' : path'.IsProper)
    (h : path.operands = path'.operands) : path = path' := by
  cases path with
  | static text =>
    cases path' with
    | static text' => simpa [operands] using h
    | dynamic fragments' =>
      obtain rfl : _ = fragments' := h
      exact absurd hproper' (by simp [IsProper, operands])
  | dynamic fragments =>
    cases path' with
    | static text' =>
      obtain rfl : fragments = _ := h
      exact absurd hproper (by simp [IsProper, operands])
    | dynamic fragments' => exact congrArg dynamic h

theorem exists_operands (hproper : path.IsProper) : ∃ first others, path.operands = first :: others := by
  cases path with
  | static text => exact ⟨_, _, rfl⟩
  | dynamic fragments => exact List.exists_cons_of_ne_nil (IsProper.fragments_ne_nil hproper)

theorem expression_eq (path : AssetPath) :
    path.expression = String.intercalate " + " (path.operands.map Fragment.text) := by
  cases path <;> rfl

/-- Paths with the same expression are the same. -/
theorem expression_inj (hproper : path.IsProper) (hproper' : path'.IsProper) (hworded : path.IsWorded)
    (hworded' : path'.IsWorded) (hexact : path.IsExact) (hexact' : path'.IsExact)
    (h : path.expression = path'.expression) : path = path' := by
  refine eq_of_operands_eq hproper hproper'
    (Fragment.furtherText_inj hexact hexact' hworded hworded' ?_)
  obtain ⟨first, others, hoperands⟩ := exists_operands hproper
  obtain ⟨first', others', hoperands'⟩ := exists_operands hproper'
  have htexts := congrArg String.toList h
  rw [expression_eq, expression_eq, hoperands, hoperands', Fragment.toList_intercalate_text,
    Fragment.toList_intercalate_text] at htexts
  rw [hoperands, hoperands', Fragment.furtherText_cons, Fragment.furtherText_cons, htexts]

end AssetPath

namespace Node

/-- The operands of a sum in a tree are named as the tree is. -/
theorem isWorded_of_fragments {node : Node} {fragments : List Fragment} (hnode : node.IsWorded IsName)
    (h : node.fragments = .ok fragments) : ∀ fragment ∈ fragments, fragment.IsWorded := by
  fun_induction Node.fragments node generalizing fragments with
  | case1 => cases h
  | case2 => cases h
  | case3 pos left right before hleft after hright ihleft ihright =>
    cases h
    have hchildren := (isWorded_iff.mp hnode).2
    exact List.forall_mem_append.mpr
      ⟨ihleft (hchildren left (by simp [children])) hleft,
        ihright (hchildren right (by simp [children])) hright⟩
  | case4 pos value =>
    cases h
    exact List.forall_mem_singleton.mpr trivial
  | case5 pos name =>
    cases h
    exact List.forall_mem_singleton.mpr ((isWorded_iff.mp hnode).1.symbols name rfl)
  | case6 => cases h

theorem isWorded_of_assetPath? {node : Node} {path : AssetPath} (hnode : node.IsWorded IsName)
    (h : node.assetPath? = some path) : path.IsWorded := by
  unfold assetPath? at h
  split at h
  · cases h
    exact List.forall_mem_singleton.mpr trivial
  · split at h
    · next hfragments =>
      cases h
      exact isWorded_of_fragments hnode hfragments
    · cases h
  · cases h

end Node

/-- Only comparisons of the items with each other count. -/
theorem eraseDupsBy_congr {α : Type} {same same' : α → α → Bool} (items : List α)
    (h : ∀ a ∈ items, ∀ b ∈ items, same a b = same' a b) :
    items.eraseDupsBy same = items.eraseDupsBy same' := by
  induction hlength : items.length using Nat.strong_induction_on generalizing items with
  | _ length ih =>
    cases items with
    | nil => rfl
    | cons item items =>
      obtain ⟨hitem, hitems⟩ := List.forall_mem_cons.mp h
      have hothers : items.filter (fun other => same other item = false) =
          items.filter fun other => same' other item = false :=
        List.filter_congr fun other hother => by rw [hitems other hother item List.mem_cons_self]
      rw [List.eraseDupsBy_cons, List.eraseDupsBy_cons, hothers]
      refine congrArg _ (ih _ ?_ _ (fun a ha b hb => ?_) rfl)
      · exact hlength ▸ Nat.lt_succ_of_le (List.length_filter_le _ _)
      · exact hitems a (List.mem_of_mem_filter ha) b (List.mem_cons_of_mem _ (List.mem_of_mem_filter hb))

namespace Template

variable {env : Environment} {name source : String} {template : Template} {paths : List AssetPath}

theorem isWorded_of_assetPaths (hparse : Template.parse env name source = .ok template)
    (hpaths : template.assetPaths = .ok paths) : ∀ path ∈ paths, path.IsWorded := by
  intro path hpath
  rw [(assetPaths_eq_ok_iff.mp hpaths).2] at hpath
  obtain ⟨node, hwalk, hextracted⟩ := List.mem_filterMap.mp hpath
  obtain ⟨call, hcall, hgives⟩ := Option.bind_eq_some_iff.mp hextracted
  obtain rfl : call = .asset path := by
    cases call with
    | asset _ => exact congrArg _ (Option.some.inj hgives)
    | skipped _ | refused _ => cases hgives
  obtain ⟨pos, p, arg, args, kwargs, rfl, harg⟩ := Node.assetCall?_eq_asset hcall
  obtain ⟨root, hroot, hwithin⟩ := Node.among_of_mem_walk hwalk
  refine Node.isWorded_of_assetPath? (fun inner hinner => ?_) harg
  refine isWorded_of_parse hparse root hroot inner ((hinner.trans ?_).trans hwithin)
  exact .child (by simp [Node.children]) .self

/-- Assets of one template that have the same expression, and no floating-point number in it, are the
    same asset: the same directory is looked up for them, and they have the same variables. If no asset
    has such a number, keeping one asset of each expression keeps all assets, each of them once. -/
theorem eq_of_expression_eq (hparse : Template.parse env name source = .ok template)
    (hpaths : template.assetPaths = .ok paths) :
    (∀ path ∈ paths, ∀ path' ∈ paths, path.IsExact → path'.IsExact →
      path.expression = path'.expression →
        path = path' ∧ path.lookupName = path'.lookupName ∧ path.variableNames = path'.variableNames) ∧
    ((∀ path ∈ paths, path.IsExact) →
      distinctBy AssetPath.expression paths = paths.eraseDups ∧
        ∀ path, path ∈ distinctBy AssetPath.expression paths ↔ path ∈ paths) := by
  have hproper := isProper_of_assetPaths hpaths
  have hworded := isWorded_of_assetPaths hparse hpaths
  have hsame : ∀ path ∈ paths, ∀ path' ∈ paths, path.IsExact → path'.IsExact →
      path.expression = path'.expression → path = path' :=
    fun path hpath path' hpath' => AssetPath.expression_inj (hproper path hpath) (hproper path' hpath')
      (hworded path hpath) (hworded path' hpath')
  constructor
  · intro path hpath path' hpath' hexact hexact' h
    obtain rfl := hsame path hpath path' hpath' hexact hexact' h
    exact ⟨rfl, rfl, rfl⟩
  · intro hexact
    have hdistinct : distinctBy AssetPath.expression paths = paths.eraseDups := by
      rw [distinctBy_eq_eraseDupsBy]
      refine eraseDupsBy_congr paths fun path hpath path' hpath' => ?_
      rw [Bool.eq_iff_iff, beq_iff_eq, beq_iff_eq]
      exact ⟨hsame path hpath path' hpath' (hexact path hpath) (hexact path' hpath'), congrArg _⟩
    exact ⟨hdistinct, fun path => hdistinct ▸ List.mem_eraseDups⟩

/-- Quotes and plus signs in strings, digits and keywords do not make two assets look the same; two ways
    of quoting a string are two mentions of one asset. -/
theorem eq_of_expression_eq_quotes_and_signs :
    let source := "\x7b\x7b static('a\" + \"b') \x7d\x7d\x7b\x7b static('a' + 'b') \x7d\x7d" ++
      "\x7b\x7b static(\"a\\\" + \\\"b\") \x7d\x7d\x7b\x7b static('' + nullx + 1 + true) \x7d\x7d" ++
      "\x7b\x7b static('' + nullx + '1' + true) \x7d\x7d"
    let paths : List AssetPath := [.static "a\" + \"b", .dynamic [.literal (.str "a"), .literal (.str "b")],
      .static "a\" + \"b",
      .dynamic [.literal (.str ""), .symbol "nullx", .literal (.int 1), .literal (.bool true)],
      .dynamic [.literal (.str ""), .symbol "nullx", .literal (.str "1"), .literal (.bool true)]]
    ∃ template, Template.parse {} "t.njk" source = .ok template ∧ template.assetPaths = .ok paths ∧
      (∀ path ∈ paths, path.IsExact) ∧ distinctBy AssetPath.expression paths = paths.eraseDups ∧
      paths.eraseDups.length = 4 := by
  intro source paths
  have hfound : (Template.parse {} "t.njk" source).toOption.any fun template =>
      template.assetPaths.toOption.any fun found => found = paths := by
    decide +kernel
  obtain ⟨template, hparse, hfound⟩ := exists_eq_ok_of_any hfound
  obtain ⟨_, hpaths, hfound⟩ := exists_eq_ok_of_any hfound
  obtain rfl := of_decide_eq_true hfound
  have hexact : ∀ path ∈ paths, path.IsExact := by decide
  exact ⟨template, hparse, hpaths, hexact, ((eq_of_expression_eq hparse hpaths).2 hexact).1, by decide⟩

end Template

end TemplateManifest
