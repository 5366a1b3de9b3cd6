import TemplateManifest.Proofs.Asset.Overlap
import TemplateManifest.Proofs.Process.References

/-!
Replacing assets a second time. Main statement: the second time changes nothing exactly when the text that
has been rewritten spells none of the paths, and it spells none if all assets are plain and no path is the
key of an asset.
-/

namespace TemplateManifest

open Text Vocabulary Script

section Replanted

variable {name : String} {rest rest' value spelled : List Char} {found : List (List Char)}

/-- Whether a text spells a value depends on the next character only. -/
theorem Fragment.SpellsValue.congr (h : Fragment.SpellsValue name rest value)
    (hhead : rest.head? = rest'.head?) : Fragment.SpellsValue name rest' value := by
  cases h with
  | lookup => exact .lookup
  | temp hne hdigits hend => exact .temp hne hdigits (hhead ▸ hend)
  | param hend => exact .param (hhead ▸ hend)

theorem Fragment.Spells.congr {fragment : Fragment} (h : fragment.Spells rest found spelled)
    (hhead : rest.head? = rest'.head?) : fragment.Spells rest' found spelled := by
  cases h with
  | literal value => exact .literal value
  | symbol hvalue => exact .symbol (hvalue.congr hhead)

/-- What spells a plain fragment before an underscore is the start of what spells it before any other text:
    no name ends there, and a number goes on with the digits that follow. -/
theorem Fragment.Spells.replanted {fragment : Fragment} (hplain : fragment.IsPlain)
    (h : fragment.Spells rest found spelled)
    (hhead : rest.head? = rest'.head? ∨ rest.head? = some '_') :
    ∃ found' spelled' rest'', spelled ++ rest' = spelled' ++ rest'' ∧
      fragment.Spells rest'' found' spelled' := by
  rcases hhead with hsame | hunderscore
  · exact ⟨found, spelled, rest', rfl, h.congr hsame⟩
  · cases h with
    | literal value => exact ⟨_, _, rest', rfl, .literal value⟩
    | symbol hvalue =>
      cases hvalue with
      | lookup => exact ⟨_, _, rest', rfl, .symbol .lookup⟩
      | @temp digits hne hdigits _ =>
        refine ⟨_, 't' :: '_' :: (digits ++ rest'.takeWhile Char.isDigit), rest'.dropWhile Char.isDigit, ?_,
          .symbol (.temp (List.append_ne_nil_of_left_ne_nil hne _) ?_ ?_)⟩
        · simp [List.takeWhile_append_dropWhile]
        · exact List.forall_mem_append.mpr ⟨hdigits, fun c hc => List.mem_takeWhile_imp hc⟩
        · intro c hc hdigit
          have hstop := List.head?_dropWhile_not Char.isDigit rest'
          rw [Option.mem_def.mp hc] at hstop
          exact absurd hdigit (by simpa using hstop)
      | @param hend =>
        have hword := hplain.endsInWord
        have hnext : isWordCharacter '_' = true := by decide +kernel
        rw [Variable.endsInWord] at hword
        rw [isWordBoundary, hword, hunderscore, Option.any_some, hnext] at hend
        cases hend

theorem Fragment.SpellsSum.replanted {fragments : List Fragment}
    (hplain : ∀ fragment ∈ fragments, fragment.IsPlain) (h : SpellsSum rest fragments found spelled)
    (hhead : rest.head? = rest'.head? ∨ rest.head? = some '_') :
    ∃ found' spelled' rest'', spelled ++ rest' = spelled' ++ rest'' ∧
      SpellsSum rest'' fragments found' spelled' := by
  induction h with
  | nil => exact ⟨[], [], rest', rfl, .nil⟩
  | last h =>
    obtain ⟨found', spelled', rest'', htext, hspells⟩ := h.replanted (hplain _ List.mem_cons_self) hhead
    exact ⟨found', spelled', rest'', htext, .last hspells⟩
  | @cons _ _ _ _ _ first later h _ ih =>
    obtain ⟨_, hplain⟩ := List.forall_mem_cons.mp hplain
    obtain ⟨found', spelled', rest'', htext, hspells⟩ := ih hplain
    refine ⟨_, first ++ [' ', '+', ' '] ++ spelled', rest'', ?_, .cons (h.congr rfl) hspells⟩
    rw [List.append_assoc, htext, List.append_assoc _ spelled']

/-- What spells a plain path before an underscore is the start of what spells it before any other text. -/
theorem AssetPath.Spells.replanted {path : AssetPath} (hplain : path.IsPlain)
    (h : path.Spells rest found spelled)
    (hhead : rest.head? = rest'.head? ∨ rest.head? = some '_') :
    path.SpelledAtHead (spelled ++ rest') := by
  cases h with
  | static text => exact ⟨_, _, rest', rfl, .static text⟩
  | dynamic h =>
    obtain ⟨found', spelled', rest'', htext, hspells⟩ := h.replanted hplain hhead
    exact ⟨found', spelled', rest'', htext, .dynamic hspells⟩

end Replanted

section OneEntry

variable {entry other : AssetEntry} {text changed : List Char}

/-- Up to the first lookup in it, or up to its end, a changed text is as it was. -/
theorem AssetEntry.Replaced.exists_front (h : entry.Replaced text changed) :
    ∃ front, text = front ∧ changed = front ∨ ∃ values rest following, text = front ++ rest ∧
      changed = front ++ (lookupChars entry.id.toList values ++ following) := by
  induction h with
  | nil => exact ⟨[], .inl ⟨rfl, rfl⟩⟩
  | @kept c _ _ _ _ ih =>
    rcases ih with ⟨front, ⟨rfl, rfl⟩ | ⟨values, rest, following, rfl, rfl⟩⟩
    · exact ⟨_, .inl ⟨rfl, rfl⟩⟩
    · exact ⟨c :: front, .inr ⟨values, rest, following, rfl, rfl⟩⟩
  | @lookup values spelled rest changed =>
    exact ⟨[], .inr ⟨values, spelled ++ rest, changed, rfl, by rw [toList_lookupText]; rfl⟩⟩

/-- A plain path that is spelled after the change at a character that was kept was spelled there before. -/
theorem AssetEntry.Replaced.spelledAtHead {path : AssetPath} (hproper : path.IsProper)
    (hpath : path.IsPlain) {c : Char} (h : entry.Replaced text changed)
    (hhead : path.SpelledAtHead (c :: changed)) :
    path.SpelledAtHead (c :: text) := by
  rcases h.exists_front with ⟨front, ⟨rfl, rfl⟩ | ⟨values, rest, following, rfl, rfl⟩⟩
  · exact hhead
  · obtain ⟨found, spelled, rest', htext, hspells⟩ := hhead
    rw [← List.cons_append] at htext
    obtain ⟨more, hfront⟩ := hspells.ends_before_lookup hproper hpath htext
    rw [hfront, List.append_assoc] at htext
    obtain rfl := List.append_cancel_left htext
    rw [← List.cons_append, hfront, List.append_assoc]
    refine hspells.replanted hpath ?_
    cases more with
    | nil => exact .inr rfl
    | cons d more => exact .inl rfl

/-- A plain path that a text spells from inside a lookup on is the key or stands in one of the values. -/
theorem AssetEntry.static_of_lookup {path : AssetPath} (hentry : entry.IsPlain)
    (hproper : path.IsProper) (hpath : path.IsPlain) (hkey : path ≠ .static entry.id)
    {values : List (List Char)} (hvalues : ∀ value ∈ values, IsPlainValue value) {start middle following : List Char}
    (hmiddle : middle ≠ []) (hlookup : lookupChars entry.id.toList values = start ++ middle)
    (hhead : path.SpelledAtHead (middle ++ following)) :
    ∃ text, path = .static text ∧ ∃ value ∈ values, quoteChars text.toList <:+: value := by
  obtain ⟨found, spelled, rest, htext, hspells⟩ := hhead
  cases hspells with
  | static text =>
    rcases quoted_in_lookup hentry.id hvalues hpath hmiddle hlookup htext with hsame | hvalue
    · exact absurd (congrArg AssetPath.static (String.toList_inj.mp hsame)) hkey
    · exact ⟨text, rfl, hvalue⟩
  | dynamic h =>
    exact absurd htext (sum_not_in_lookup hentry.id hentry.noPlus hvalues hproper hpath hmiddle hlookup h)

theorem AssetPath.spelledIn_static {path : String} {text : List Char}
    (h : quoteChars path.toList <:+: text) : (AssetPath.static path).SpelledIn text := by
  obtain ⟨start, rest, rfl⟩ := h
  exact ⟨start, quoteChars path.toList ++ rest, List.append_assoc _ _ _, _, _, rest, rfl, .static path⟩

/-- Replacing one entry leaves nowhere its own path, nor the path of another entry that was not there
    before. -/
theorem AssetEntry.Replaced.not_spelledIn (hentry : entry.IsPlain)
    (hproper : other.reference.IsProper) (hother : other.reference.IsPlain)
    (hkey : other.reference ≠ .static entry.id) (h : entry.Replaced text changed)
    (hbefore : other = entry ∨ ¬ other.reference.SpelledIn text) :
    ¬ other.reference.SpelledIn changed := by
  induction h with
  | nil => exact AssetPath.not_spelledIn_nil hproper
  | @kept c text changed hhead hrest ih =>
    have hlater := ih (hbefore.imp_right fun h hin => h (hin.append_left [c]))
    intro hin
    rcases AssetPath.spelledIn_cons hin with hin | hin
    · have hwas := hrest.spelledAtHead hproper hother hin
      rcases hbefore with rfl | hbefore
      · exact hhead hwas
      · exact hbefore hwas.spelledIn
    · exact hlater hin
  | @lookup values spelled rest changed hspells _ ih =>
    have hlater := ih (hbefore.imp_right fun h hin => h (hin.append_left spelled))
    have hvalues := hspells.values_plain hentry.reference
    rintro ⟨start, after, htext, hin⟩
    rw [toList_lookupText] at htext
    rcases List.append_eq_append_iff.mp htext with ⟨more, -, rfl⟩ | ⟨middle, hlookup, rfl⟩
    · exact hlater ⟨more, after, rfl, hin⟩
    · by_cases hmiddle : middle = []
      · rw [hmiddle] at hin
        exact hlater hin.spelledIn
      · obtain ⟨path, hpath, value, hvalue, hquoted⟩ := AssetEntry.static_of_lookup hentry hproper hother
          hkey (fun value hvalue => (hvalues value hvalue).1) hmiddle hlookup hin
        rcases hbefore with rfl | hbefore
        · rw [hpath] at hspells
          cases hspells
          cases hvalue
        · refine hbefore (hpath ▸ AssetPath.spelledIn_static (hquoted.trans ?_))
          exact (hvalues value hvalue).2.trans (List.prefix_append _ _).isInfix

end OneEntry

section AllEntries

variable {entries : List AssetEntry}

/-- Replacing plain assets leaves none of their paths in a text if no path is a key: only the paths of
    entries whose turn is still to come may be spelled before. -/
theorem foldl_replaceAll_not_spelledIn (hproper : ∀ entry ∈ entries, entry.reference.IsProper)
    (hplain : ∀ entry ∈ entries, entry.IsPlain)
    (hkeys : ∀ entry ∈ entries, ∀ other ∈ entries, other.reference ≠ .static entry.id)
    {turns : List AssetEntry} (hturns : turns ⊆ entries) {text : List Char}
    (hbefore : ∀ other ∈ entries, other ∈ turns ∨ ¬ other.reference.SpelledIn text) :
    ∀ other ∈ entries, ¬ other.reference.SpelledIn
      (turns.foldl (fun text entry => entry.replaceAll text) text) := by
  induction turns generalizing text with
  | nil => exact fun other hother => (hbefore other hother).resolve_left List.not_mem_nil
  | cons entry turns ih =>
    obtain ⟨hentry, hturns⟩ := List.cons_subset.mp hturns
    have hreplaced := replaced_replaceAll (hproper entry hentry) text
    refine ih hturns fun other hother => ?_
    have hgone := hreplaced.not_spelledIn (hplain entry hentry) (hproper other hother)
      (hplain other hother).reference (hkeys entry hentry other hother)
    rcases hbefore other hother with hturn | hbefore
    · rcases List.mem_cons.mp hturn with rfl | hturn
      · exact .inr (hgone (.inl rfl))
      · exact .inl hturn
    · exact .inr (hgone (.inr hbefore))

/-- Replacing plain assets a second time changes nothing if no path is a key. -/
theorem replaceAssets_twice_of_isPlain (hproper : ∀ entry ∈ entries, entry.reference.IsProper)
    (hplain : ∀ entry ∈ entries, entry.IsPlain)
    (hkeys : ∀ entry ∈ entries, ∀ other ∈ entries, other.reference ≠ .static entry.id) (text : String) :
    replaceAssets entries (replaceAssets entries text) = replaceAssets entries text := by
  rw [replaceAssets_eq_self_iff hproper, toList_replaceAssets]
  exact foldl_replaceAll_not_spelledIn hproper hplain hkeys (List.Subset.refl entries)
    fun other hother => .inl hother

end AllEntries

section OwnAssets

/-- A sum has at least two operands. -/
theorem Node.two_le_length_of_fragments {pos : Position} {left right : Node} {fragments : List Fragment}
    (h : (Node.binary pos .add left right).fragments = .ok fragments) : 2 ≤ fragments.length := by
  rw [Node.fragments] at h
  split at h
  · cases h
  · next before hleft =>
    split at h
    · cases h
    · next after hright =>
      obtain rfl := Except.ok.inj h
      have hbefore := List.length_pos_iff.mpr (Node.fragments_ne_nil hleft)
      have hafter := List.length_pos_iff.mpr (Node.fragments_ne_nil hright)
      rw [List.length_append]
      omega

theorem Node.isProper_of_assetCall? {node : Node} {template : String} {path : AssetPath}
    (h : node.assetCall? template = some (.asset path)) : path.IsProper := by
  unfold Node.assetCall? at h
  split at h
  · split at h
    · cases h
    · split at h
      · cases h
      · cases h
        trivial
      · split at h
        · next hfragments =>
          cases h
          exact Node.two_le_length_of_fragments hfragments
        · cases h
      · cases h
  · cases h

/-- The paths of a template's assets are strings and sums of at least two operands. -/
theorem Template.isProper_of_assetPaths {template : Template} {paths : List AssetPath}
    (h : template.assetPaths = .ok paths) : ∀ path ∈ paths, path.IsProper := by
  intro path hpath
  rw [(Template.assetPaths_eq_ok_iff.mp h).2] at hpath
  obtain ⟨node, -, hnode⟩ := List.mem_filterMap.mp hpath
  obtain ⟨call, hcall, hextracted⟩ := Option.bind_eq_some_iff.mp hnode
  cases call with
  | asset found =>
    obtain rfl := Option.some.inj hextracted
    exact Node.isProper_of_assetCall? hcall
  | skipped _ | refused _ => cases hextracted

/-- Replacing the assets of a template a second time changes nothing exactly when the rewritten text spells
    none of their paths. It spells none if the assets are plain and no path is a key. -/
theorem Template.replaceAssets_twice {template : Template} {paths : List AssetPath}
    (hpaths : template.assetPaths = .ok paths) {entries : List AssetEntry}
    (hentries : ∀ entry ∈ entries, entry.reference ∈ paths) (text : String) :
    (replaceAssets entries (replaceAssets entries text) = replaceAssets entries text ↔
      ∀ entry ∈ entries, ¬ entry.reference.SpelledIn (replaceAssets entries text).toList) ∧
    ((∀ entry ∈ entries, entry.IsPlain) →
      (∀ entry ∈ entries, ∀ other ∈ entries, other.reference ≠ .static entry.id) →
      replaceAssets entries (replaceAssets entries text) = replaceAssets entries text) := by
  have hproper : ∀ entry ∈ entries, entry.reference.IsProper := fun entry hentry =>
    Template.isProper_of_assetPaths hpaths _ (hentries entry hentry)
  exact ⟨replaceAssets_eq_self_iff hproper _, fun hplain hkeys =>
    replaceAssets_twice_of_isPlain hproper hplain hkeys text⟩

/-- A string and a sum, each with a key of its own. -/
theorem Template.replaceAssets_twice_string_and_sum :
    let source := "\x7b\x7b static('a.png') \x7d\x7d\x7b\x7b static('a/' + x) \x7d\x7d"
    let entries : List AssetEntry := [⟨⟨"/a/a.png"⟩, "0", .static "a.png"⟩,
      ⟨⟨"/a/a"⟩, "1", .dynamic [.literal (.str "a/"), .symbol "x"]⟩]
    ∃ template module, Template.parse {} "t.njk" source = .ok template ∧
      template.compile {} "template" = .ok module ∧
      template.assetPaths = .ok (entries.map AssetEntry.reference) ∧
      replaceAssets entries module.text ≠ module.text ∧
      replaceAssets entries (replaceAssets entries module.text) = replaceAssets entries module.text := by
  intro source entries
  have hfound : (Template.parse {} "t.njk" source).toOption.any fun template =>
      (template.compile {} "template").toOption.any fun module =>
        template.assetPaths.toOption.any fun paths => paths = entries.map AssetEntry.reference ∧
          entries.foldl (fun text entry => entry.replaceAll text) (module.traced entries).chars ≠
            (module.traced entries).chars := by
    decide +kernel
  obtain ⟨template, hparse, hfound⟩ := exists_eq_ok_of_any hfound
  obtain ⟨module, hmodule, hfound⟩ := exists_eq_ok_of_any hfound
  obtain ⟨_, hpaths, hfound⟩ := exists_eq_ok_of_any hfound
  obtain ⟨rfl, hchanged⟩ := of_decide_eq_true hfound
  have hstring : IsPlain "a.png".toList := List.forall_iff_forall_mem.mp (by decide)
  have hstart : IsPlain "a/".toList := List.forall_iff_forall_mem.mp (by decide)
  have hvariable : IsPlainName "x" :=
    ⟨List.forall_iff_forall_mem.mp (by decide +kernel), by decide +kernel, by decide⟩
  have hfirst : IsPlain "0".toList := List.forall_iff_forall_mem.mp (by decide)
  have hsecond : IsPlain "1".toList := List.forall_iff_forall_mem.mp (by decide)
  have hplain : ∀ entry ∈ entries, entry.IsPlain :=
    List.forall_mem_cons.mpr ⟨⟨hfirst, by decide, hstring⟩,
      List.forall_mem_singleton.mpr ⟨hsecond, by decide, List.forall_mem_cons.mpr
        ⟨hstart, List.forall_mem_singleton.mpr hvariable⟩⟩⟩
  have hkeys : ∀ entry ∈ entries, ∀ other ∈ entries, other.reference ≠ .static entry.id := by
    decide
  refine ⟨template, module, hparse, hmodule, hpaths, ?_, ?_⟩
  · rw [chars_traced, ← toList_replaceAssets] at hchanged
    exact fun hsame => hchanged (congrArg String.toList hsame)
  · exact (Template.replaceAssets_twice hpaths (fun entry => List.mem_map_of_mem) module.text).2
      hplain hkeys

/-- The key of an asset, what follows it and the next string spell the path of the asset again: a further
    rewriting replaces that too. -/
theorem Template.exists_path_spelled_by_lookup :
    let source := "\x7b\x7b static(\"), \", \"x\") \x7d\x7d"
    ∃ template module paths entries, Template.parse {} "t.njk" source = .ok template ∧
      template.compile {} "template" = .ok module ∧ template.assetPaths = .ok paths ∧
      entries.map AssetEntry.reference = distinctBy AssetPath.expression paths ∧
      (entries.map AssetEntry.id).Nodup ∧
      (∀ entry ∈ entries, ¬ entry.id.toList <:+: module.text.toList ∧
        ∀ path ∈ paths, ¬ entry.id.toList <:+: path.expression.toList) ∧
      replaceAssets entries (replaceAssets entries module.text) ≠ replaceAssets entries module.text := by
  intro source
  let entries : List AssetEntry := [⟨⟨"/a/), "⟩, "asset-1", .static "), "⟩]
  have hfound : (Template.parse {} "t.njk" source).toOption.any fun template =>
      (template.compile {} "template").toOption.any fun module =>
        template.assetPaths.toOption.any fun paths =>
          let compiled := (module.traced entries).chars
          let rewrite := fun text : List Char =>
            entries.foldl (fun text entry => entry.replaceAll text) text
          entries.map AssetEntry.reference = distinctBy AssetPath.expression paths ∧
          (∀ entry ∈ entries, ¬ entry.id.toList <:+: compiled ∧
            ∀ path ∈ paths, ¬ entry.id.toList <:+: path.expression.toList) ∧
          rewrite (rewrite compiled) ≠ rewrite compiled := by
    decide +kernel
  obtain ⟨template, hparse, hfound⟩ := exists_eq_ok_of_any hfound
  obtain ⟨module, hmodule, hfound⟩ := exists_eq_ok_of_any hfound
  obtain ⟨paths, hpaths, hfound⟩ := exists_eq_ok_of_any hfound
  obtain ⟨hreferences, hkeys, hchanged⟩ := of_decide_eq_true hfound
  rw [chars_traced] at hkeys hchanged
  refine ⟨template, module, paths, entries, hparse, hmodule, hpaths, hreferences, by decide, hkeys,
    fun hsame => hchanged ?_⟩
  have hsame := congrArg String.toList hsame
  simpa only [toList_replaceAssets] using hsame

end OwnAssets

end TemplateManifest
