import TemplateManifest.Proofs.Process.Pairing

/-!
The directory that is looked up for a computed path. Whatever its variables stand for when the template
runs, the path lies in that directory, and what is known of the path tells no longer one. Main statement:
`AssetPath.lookupName_longest`.
-/

namespace TemplateManifest

section Text

variable {path directory name : List Char}

/-- The directory ends at the last slash. -/
theorem directoryText?_append (hname : '/' ∉ name) :
    directoryText? (directory ++ '/' :: name) = if directory = [] then none else some directory := by
  have hdrop : (directory ++ '/' :: name).reverse.dropWhile (· ≠ '/') = '/' :: directory.reverse := by
    rw [List.reverse_append, List.reverse_cons, List.append_assoc, List.dropWhile_append_of_pos]
    · rfl
    · intro c hc
      exact decide_eq_true fun heq => hname (heq ▸ List.mem_reverse.mp hc)
  rw [directoryText?, hdrop]
  cases hdirectory : directory.reverse with
  | nil => simp [List.reverse_eq_nil_iff.mp hdirectory]
  | cons c rest =>
    have hne : directory ≠ [] := by
      rintro rfl
      cases hdirectory
    simp [hne, ← hdirectory]

theorem directoryText?_of_notMem (h : '/' ∉ path) : directoryText? path = none := by
  have hdrop : path.reverse.dropWhile (· ≠ '/') = [] :=
    List.dropWhile_eq_nil_iff.mpr fun c hc =>
      decide_eq_true fun heq => h (heq ▸ List.mem_reverse.mp hc)
  rw [directoryText?, hdrop]

/-- A text has no slash, or it has a last one. -/
theorem notMem_or_exists_last_slash (path : List Char) :
    '/' ∉ path ∨ ∃ directory name, path = directory ++ '/' :: name ∧ '/' ∉ name := by
  by_cases h : '/' ∈ path
  · obtain ⟨after, before, heq, hafter⟩ := List.eq_append_cons_of_mem (List.mem_reverse.mpr h)
    refine .inr ⟨before.reverse, after.reverse, ?_, fun hmem => hafter (List.mem_reverse.mp hmem)⟩
    rw [← List.reverse_reverse path, heq]
    simp
  · exact .inl h

theorem directoryText?_eq_some_iff :
    directoryText? path = some directory ↔
      directory ≠ [] ∧ ∃ name, path = directory ++ '/' :: name ∧ '/' ∉ name := by
  constructor
  · intro h
    rcases notMem_or_exists_last_slash path with hnone | ⟨before, name, rfl, hname⟩
    · rw [directoryText?_of_notMem hnone] at h
      cases h
    · rw [directoryText?_append hname] at h
      split at h
      · cases h
      · next hne =>
        cases h
        exact ⟨hne, name, rfl, hname⟩
  · rintro ⟨hne, name, rfl, hname⟩
    rw [directoryText?_append hname, if_neg hne]

theorem directoryText?_eq_none_iff : directoryText? path = none ↔ '/' ∉ path.tail := by
  rcases notMem_or_exists_last_slash path with hnone | ⟨before, name, rfl, hname⟩
  · exact iff_of_true (directoryText?_of_notMem hnone) fun hmem => hnone (List.mem_of_mem_tail hmem)
  · rw [directoryText?_append hname]
    cases before with
    | nil => exact iff_of_true rfl hname
    | cons c before => simp

/-- No other directory of the path is longer. -/
theorem length_le_of_directoryText? {other : List Char} (h : directoryText? path = some directory)
    (hother : other ++ ['/'] <+: path) : other.length ≤ directory.length := by
  obtain ⟨-, name, rfl, hname⟩ := directoryText?_eq_some_iff.mp h
  obtain ⟨rest, hrest⟩ := hother
  rw [List.append_assoc, List.singleton_append, List.append_eq_append_iff] at hrest
  obtain ⟨more, rfl, -⟩ | ⟨more, rfl, hmore⟩ := hrest
  · exact List.length_append ▸ Nat.le_add_right _ _
  · -- A slash of `other` that is later than the last one would stand in the name.
    cases more with
    | nil => rw [List.append_nil]
    | cons c more =>
      obtain ⟨-, rfl⟩ := List.cons.inj hmore
      exact absurd (List.mem_append_right more List.mem_cons_self) hname

end Text

section Fragments

/-- The text of a fragment when the variables have the given values. -/
def Fragment.textUnder (value : String → String) : Fragment → String
  | literal known => known.asText
  | symbol name => value name

/-- The path when the variables have the given values. -/
def AssetPath.textUnder (value : String → String) : AssetPath → String
  | static path => path
  | dynamic fragments => String.join (fragments.map (Fragment.textUnder value))

namespace AssetPath

/-- The path starts with the directory and a slash, whatever its variables stand for. -/
def StartsIn (asset : AssetPath) (directory : String) : Prop :=
  ∀ value, (directory ++ "/").toList <+: (asset.textUnder value).toList

variable {fragments : List Fragment}

theorem knownStart_literal (known : Literal) (fragments : List Fragment) :
    knownStart (.literal known :: fragments) = known.asText ++ knownStart fragments := by
  refine String.toList_inj.mp ?_
  simp [knownStart, Fragment.knownText?]

theorem toList_textUnder_cons (value : String → String) (fragment : Fragment)
    (fragments : List Fragment) :
    ((dynamic (fragment :: fragments)).textUnder value).toList =
      (fragment.textUnder value).toList ++ ((dynamic fragments).textUnder value).toList := by
  simp [textUnder]

/-- A computed path is its known start, or goes on from there with the value of a variable. -/
theorem textUnder_dynamic (fragments : List Fragment) :
    (∀ value, ((dynamic fragments).textUnder value).toList = (knownStart fragments).toList) ∨
      ∃ name later, ∀ value, ((dynamic fragments).textUnder value).toList =
        (knownStart fragments).toList ++
          ((value name).toList ++ ((dynamic later).textUnder value).toList) := by
  induction fragments with
  | nil => exact .inl fun _ => rfl
  | cons fragment fragments ih =>
    cases fragment with
    | symbol name => exact .inr ⟨name, fragments, fun value => toList_textUnder_cons value _ _⟩
    | literal known =>
      have hstart (value : String → String) :
          ((dynamic (.literal known :: fragments)).textUnder value).toList =
            known.asText.toList ++ ((dynamic fragments).textUnder value).toList :=
        toList_textUnder_cons value _ _
      simp only [hstart, knownStart_literal, String.toList_append, List.append_assoc,
        List.append_right_inj]
      exact ih

theorem knownStart_isPrefix (fragments : List Fragment) (value : String → String) :
    (knownStart fragments).toList <+: ((dynamic fragments).textUnder value).toList := by
  rcases textUnder_dynamic fragments with h | ⟨name, later, h⟩
  · exact (h value).symm ▸ List.prefix_rfl
  · exact (h value).symm ▸ List.prefix_append _ _

/-- What all values of the variables leave at the front is known without them. -/
theorem isPrefix_knownStart {text : List Char}
    (h : ∀ value, text <+: ((dynamic fragments).textUnder value).toList) :
    text <+: (knownStart fragments).toList := by
  rcases textUnder_dynamic fragments with hall | ⟨name, later, hall⟩
  · exact hall (fun _ => "") ▸ h _
  · -- Two values that differ in their first character leave no more than the known start.
    have hone := h fun _ => "a"
    have hother := h fun _ => "b"
    rw [hall] at hone hother
    rcases List.prefix_or_prefix_of_prefix hone (List.prefix_append _ _) with hle | ⟨more, rfl⟩
    · exact hle
    · rw [List.prefix_append_right_inj] at hone hother
      cases more with
      | nil => exact List.append_nil _ ▸ List.prefix_rfl
      | cons c more =>
        have hc : c = 'a' := (List.cons_prefix_cons.mp hone).1
        have hc' : c = 'b' := (List.cons_prefix_cons.mp hother).1
        exact absurd (hc.symm.trans hc') (by decide)

end AssetPath

end Fragments

section Candidates

/-- The text of the path is that of the directory or goes on from there, from a slash on unless the
    directory ends with one or has no text. -/
def Path.LiesIn (path directory : Path) : Prop :=
  ∃ rest, path.text.toList = directory.text.toList ++ rest ∧
    (rest = [] ∨ rest.head? = some '/' ∨ directory.text.toList.getLast? = some '/' ∨
      directory.text.toList = [])

namespace Path

theorem liesIn_self (path : Path) : path.LiesIn path :=
  ⟨[], (List.append_nil _).symm, .inl rfl⟩

/-- Joining puts one and the same text before every relative path. -/
theorem exists_toList_join (directory : Path) :
    ∃ lead, (∀ name : Path, name.isAbsolute = false →
        (directory.join name).text.toList = directory.text.toList ++ lead ++ name.text.toList) ∧
      (lead = ['/'] ∨ lead = [] ∧
        (directory.text.toList.getLast? = some '/' ∨ directory.text.toList = [])) := by
  by_cases hempty : directory.text.toList = []
  · refine ⟨[], fun name hname => ?_, .inr ⟨rfl, .inr hempty⟩⟩
    simp [join, String.toList_eq_nil_iff.mp hempty]
  · have hne : directory.text.isEmpty = false := by simpa using hempty
    by_cases hslash : directory.text.toList.getLast? = some '/'
    · exact ⟨[], fun name hname => by simp [join, hname, hne, hslash], .inr ⟨rfl, .inl hslash⟩⟩
    · exact ⟨['/'], fun name hname => by simp [join, hname, hne, hslash], .inl rfl⟩

theorem liesIn_join (directory : Path) {name : Path} (hname : name.isAbsolute = false) :
    (directory.join name).LiesIn directory := by
  obtain ⟨lead, hjoin, hlead⟩ := exists_toList_join directory
  refine ⟨lead ++ name.text.toList, by rw [hjoin name hname, List.append_assoc], ?_⟩
  rcases hlead with rfl | ⟨rfl, hdirectory⟩
  · exact .inr (.inl rfl)
  · exact .inr (.inr hdirectory)

/-- A name without its leading slashes. -/
def relativeText (name : List Char) : List Char :=
  name.dropWhile (· = '/')

theorem isAbsolute_relativeText (name : List Char) :
    (Path.mk (String.ofList (relativeText name))).isAbsolute = false := by
  rw [isAbsolute, String.toList_ofList, decide_eq_false_iff_not]
  intro hhead
  have hnot := List.head?_dropWhile_not (fun c => decide (c = '/')) name
  rw [relativeText] at hhead
  rw [hhead] at hnot
  cases hnot

theorem candidate_eq (directory : Path) (name : String) :
    directory.candidate name =
      if relativeText name.toList = [] ∨ relativeText name.toList = ['.'] then directory
      else directory.join ⟨String.ofList (relativeText name.toList)⟩ := by
  have hempty : String.ofList (relativeText name.toList) = "" ↔ relativeText name.toList = [] :=
    String.ofList_eq_empty_iff
  have hdot : String.ofList (relativeText name.toList) = String.ofList ['.'] ↔
      relativeText name.toList = ['.'] :=
    String.ofList_inj
  rw [show String.ofList ['.'] = "." from rfl] at hdot
  simp only [candidate, ← hempty, ← hdot]
  rfl

theorem candidate_liesIn (directory : Path) (name : String) :
    (directory.candidate name).LiesIn directory := by
  rw [candidate_eq]
  split
  · exact liesIn_self directory
  · exact liesIn_join directory (isAbsolute_relativeText _)

/-- What lies in a directory by its name is looked for in the candidates for the directory. -/
theorem candidate_liesIn_candidate (directory : Path) {name inner : String}
    (h : (name ++ "/").toList <+: inner.toList) :
    (directory.candidate inner).LiesIn (directory.candidate name) := by
  rw [candidate_eq directory name]
  split
  · exact candidate_liesIn directory inner
  · next hname =>
    obtain ⟨hnil, hdot⟩ := not_or.mp hname
    obtain ⟨rest, hrest⟩ := h
    have hinner : relativeText inner.toList = relativeText name.toList ++ '/' :: rest := by
      rw [← hrest, String.toList_append, relativeText, List.append_assoc, List.dropWhile_append,
        if_neg (by simpa [relativeText] using hnil)]
      rfl
    have hslash : '/' ∈ relativeText inner.toList := by
      rw [hinner]
      exact List.mem_append_right _ List.mem_cons_self
    obtain ⟨lead, hjoin, -⟩ := exists_toList_join directory
    rw [candidate_eq directory inner, if_neg]
    · refine ⟨'/' :: rest, ?_, .inr (.inl rfl)⟩
      rw [hjoin _ (isAbsolute_relativeText _), hjoin _ (isAbsolute_relativeText _)]
      simp [hinner]
    · rintro (heq | heq) <;> simp [heq] at hslash

theorem forall₂_candidates {R : Path → Path → Prop} {name other : String} (cwd : Path)
    (directories : List Path)
    (h : ∀ directory : Path, R (directory.candidate name) (directory.candidate other)) :
    List.Forall₂ R (candidates cwd directories name) (candidates cwd directories other) := by
  rw [candidates, candidates, List.forall₂_map_left_iff, List.forall₂_map_right_iff, List.forall₂_same]
  exact fun directory _ => h _

end Path

end Candidates

namespace AssetPath

/-- What is looked up for a computed path is the directory that its known start spells, or the asset
    directory if there is none. -/
theorem lookupName_dynamic (fragments : List Fragment) :
    directoryText? (knownStart fragments).toList = some (dynamic fragments).lookupName.toList ∨
      directoryText? (knownStart fragments).toList = none ∧ (dynamic fragments).lookupName = "." := by
  rw [lookupName]
  cases directoryText? (knownStart fragments).toList with
  | none => exact .inr ⟨rfl, rfl⟩
  | some directory => exact .inl (congrArg some String.toList_ofList.symm)

/-- The directory that is looked up for a computed path, if it is not the asset directory itself, is the
    longest one that the path starts in whatever its variables stand for. All such directories are told by
    the text before the first variable. That text tells none for the asset directory, unless it
    spells this one as a dot. Where the path is in the end, it lies in the candidates for what is looked
    up. -/
theorem lookupName_longest (fragments : List Fragment) :
    let asset := dynamic fragments
    let start := (knownStart fragments).toList
    (asset.lookupName ≠ "." → asset.StartsIn asset.lookupName ∧
      ∀ directory, asset.StartsIn directory → directory.length ≤ asset.lookupName.length) ∧
    (∀ directory, asset.StartsIn directory ↔ (directory ++ "/").toList <+: start) ∧
    (asset.lookupName = "." →
      '/' ∉ start.tail ∨ ∃ name, start = '.' :: '/' :: name ∧ '/' ∉ name) ∧
    ∀ cwd directories value, List.Forall₂ (fun inner probed => inner.LiesIn probed)
      (Path.candidates cwd directories (asset.textUnder value))
      (Path.candidates cwd directories asset.lookupName) := by
  intro asset start
  have hstarts (directory : String) : asset.StartsIn directory ↔ (directory ++ "/").toList <+: start :=
    ⟨isPrefix_knownStart, fun h value => h.trans (knownStart_isPrefix fragments value)⟩
  have hlongest (h : directoryText? start = some asset.lookupName.toList) :
      asset.StartsIn asset.lookupName ∧ ∀ directory,
        asset.StartsIn directory → directory.length ≤ asset.lookupName.length := by
    refine ⟨(hstarts _).mpr ?_, fun directory hdirectory => ?_⟩
    · obtain ⟨-, name, heq, -⟩ := directoryText?_eq_some_iff.mp h
      exact ⟨name, by simp [heq]⟩
    · rw [hstarts, String.toList_append] at hdirectory
      simpa only [String.length_toList] using length_le_of_directoryText? h hdirectory
  rcases lookupName_dynamic fragments with hsome | ⟨hnone, hdot⟩
  · refine ⟨fun _ => hlongest hsome, hstarts, fun hdot => ?_, fun cwd directories value => ?_⟩
    · obtain ⟨-, name, heq, hname⟩ := directoryText?_eq_some_iff.mp hsome
      rw [hdot] at heq
      exact .inr ⟨name, heq, hname⟩
    · exact Path.forall₂_candidates cwd directories fun directory =>
        directory.candidate_liesIn_candidate ((hlongest hsome).1 value)
  · refine ⟨fun hne => absurd hdot hne, hstarts, fun _ => .inl (directoryText?_eq_none_iff.mp hnone),
      fun cwd directories value => Path.forall₂_candidates cwd directories fun directory => ?_⟩
    rw [hdot]
    exact directory.candidate_liesIn _

/-- The known start is made of three literals, and has two slashes at its front and a variable after its last
    one. -/
theorem lookupName_longest_several_literals :
    let fragments : List Fragment :=
      [.literal (.str "//img-"), .literal (.int 2), .literal (.str "/a"), .symbol "x"]
    (dynamic fragments).lookupName = "//img-2" ∧
      (∀ value, "//img-2/".toList <+: ((dynamic fragments).textUnder value).toList) ∧
      ∀ cwd directories value, List.Forall₂ (fun inner probed => inner.LiesIn probed)
        (Path.candidates cwd directories ((dynamic fragments).textUnder value))
        (Path.candidates cwd directories "//img-2") := by
  intro fragments
  have hname : (dynamic fragments).lookupName = "//img-2" := by decide +kernel
  obtain ⟨hlongest, -, -, hcandidates⟩ := lookupName_longest fragments
  rw [hname] at hlongest hcandidates
  exact ⟨hname, (hlongest (by decide)).1, hcandidates⟩

end AssetPath

end TemplateManifest
