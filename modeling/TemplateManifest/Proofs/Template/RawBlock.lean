import TemplateManifest.Proofs.Template.Span

/-!
Raw blocks: which tag opens one, and that its body ends with the first tag that could close it.
-/

namespace TemplateManifest

open Text

variable {d : Delimiters} {text rest word : List Char}

theorem exists_dash (text : List Char) :
    ∃ opened rest, text = dash opened ++ rest ∧ (opened = false → rest.head? ≠ some '-') := by
  by_cases hdash : text.head? = some '-'
  · obtain ⟨rest, rfl⟩ := List.head?_eq_some_iff.mp hdash
    exact ⟨true, rest, rfl, fun heq => by cases heq⟩
  · exact ⟨false, text, rfl, fun _ => hdash⟩

theorem dashLength_append {opened : Bool} (h : opened = false → rest.head? ≠ some '-') :
    Segment.dashLength (dash opened ++ rest) = (dash opened).length := by
  cases opened with
  | true => rfl
  | false =>
    unfold Segment.dashLength
    split
    · next heq => exact absurd (congrArg List.head? heq) (h rfl)
    · rfl

theorem decide_length_dash (opened : Bool) : decide ((dash opened).length = 1) = opened := by
  cases opened <;> rfl

theorem head?_append_ne_dash {before named : List Char}
    (hbefore : ∀ c ∈ before, isWhiteSpace c = true) (hnamed : named.head? ≠ some '-') :
    (before ++ named).head? ≠ some '-' := by
  cases before with
  | nil => exact hnamed
  | cons c before =>
    intro hc
    obtain rfl : c = '-' := Option.some.inj hc
    exact absurd (hbefore '-' List.mem_cons_self) (by decide)

/-- The words that open raw blocks are plain. -/
theorem forall_mem_rawWords : ∀ name ∈ Segment.rawWords,
    name.toList ≠ [] ∧ ∀ c ∈ name.toList,
      (c.isAlphanum || c = '_') = true ∧ isWhiteSpace c = false ∧ c ≠ '-' := by
  -- As one computation, since `decide` would enumerate all the characters there are.
  have hall : Segment.rawWords.all (fun name => !name.toList.isEmpty && name.toList.all fun c =>
      (c.isAlphanum || c = '_') && (!isWhiteSpace c && c != '-')) = true := rfl
  simpa only [List.all_eq_true, Bool.and_eq_true, Bool.not_eq_true', List.isEmpty_eq_false_iff,
    bne_iff_ne] using hall

theorem isLead_of_mem_rawWords {before : List Char} (hword : String.ofList word ∈ Segment.rawWords)
    (hbefore : ∀ c ∈ before, isWhiteSpace c = true) : IsLead isWhiteSpace before (word ++ rest) := by
  obtain ⟨hne, hplain⟩ := forall_mem_rawWords _ hword
  rw [String.toList_ofList] at hne hplain
  cases word with
  | nil => exact absurd rfl hne
  | cons first word =>
    refine ⟨hbefore, fun c hc => ?_⟩
    obtain rfl : first = c := Option.some.inj hc
    exact (hplain first List.mem_cons_self).2.1

/-- What `rawOpening?` finds is the tag of a raw block. -/
theorem exists_opensRaw_of_rawOpening? {closed : Bool} {name : String} {count : Nat}
    (h : Segment.rawOpening? d.blockEnd.toList text = some (name, closed, count)) :
    ∃ before after rest,
      text = before ++ (name.toList ++ (after ++ (dash closed ++ d.blockEnd.toList ++ rest))) ∧
      count = (before ++ (name.toList ++ (after ++ (dash closed ++ d.blockEnd.toList)))).length ∧
      ∀ opened, RawTag.OpensRaw d ⟨opened, before, after, closed⟩ name.toList rest := by
  obtain ⟨before, named, rfl, hbefore⟩ := exists_isLead isWhiteSpace text
  obtain ⟨word, tail, rfl, hword⟩ := exists_isLead (fun c => c.isAlphanum || c = '_') named
  obtain ⟨after, ending, rfl, hafter⟩ := exists_isLead isWhiteSpace tail
  rw [Segment.rawOpening?, hbefore.takeWhile_eq, List.drop_left] at h
  dsimp only at h
  rw [hword.takeWhile_eq, List.drop_left, hafter.takeWhile_eq, List.drop_left] at h
  split at h
  · next hname =>
    obtain ⟨⟨closed', length⟩, hmark, heq⟩ := Option.map_eq_some_iff.mp h
    cases heq
    obtain ⟨hcloses, rfl⟩ := closesAt_of_closingMark? hmark
    obtain ⟨rest, rfl⟩ := hcloses.1
    refine ⟨before, after, rest, by rw [String.toList_ofList], ?_, ?_⟩
    · simp only [String.toList_ofList, List.length_append]
      omega
    · rw [String.toList_ofList]
      exact fun _ => ⟨hname, hbefore.1, hafter, hword.2, hcloses⟩
  · cases h

/-- Every tag of a raw block is found. -/
theorem RawTag.OpensRaw.rawOpening?_ne_none {tag : RawTag} (h : tag.OpensRaw d word rest) :
    Segment.rawOpening? d.blockEnd.toList
      (tag.before ++ (word ++ (tag.after ++ (dash tag.closed ++ d.blockEnd.toList ++ rest)))) ≠
        none := by
  have hname : IsLead (fun c => c.isAlphanum || c = '_') word
      (tag.after ++ (dash tag.closed ++ d.blockEnd.toList ++ rest)) := by
    have hplain := (forall_mem_rawWords _ h.word).2
    rw [String.toList_ofList] at hplain
    exact ⟨fun c hc => (hplain c hc).1, h.whole⟩
  rw [Segment.rawOpening?, (isLead_of_mem_rawWords h.word h.before).takeWhile_eq, List.drop_left]
  dsimp only
  rw [hname.takeWhile_eq, if_pos h.word, List.drop_left, h.after.takeWhile_eq, List.drop_left,
    closingMark?_of_closesAt h.mark]
  exact Option.some_ne_none _

/-- The closing tag takes as much white space as it can. -/
theorem rawTail?_eq_some {closer : List Char} {white count : Nat} {closed : Bool}
    (h : Segment.rawTail? closer white text = some (closed, count)) :
    ∃ taken ≤ white, ClosesAt closer closed (text.drop taken) ∧
      count = taken + (dash closed ++ closer).length ∧
      ∀ more, taken < more → more ≤ white →
        ∀ closed', ¬ dash closed' ++ closer <+: text.drop more := by
  fun_induction Segment.rawTail? closer white text with
  | case1 white closed' count' hmark =>
    cases h
    obtain ⟨hcloses, rfl⟩ := closesAt_of_closingMark? hmark
    exact ⟨white, Nat.le_refl _, hcloses, rfl, fun more hlt hle => absurd hle (Nat.not_le.mpr hlt)⟩
  | case2 => cases h
  | case3 white hmark ih =>
    obtain ⟨taken, hle, hcloses, hcount, hmore⟩ := ih h
    refine ⟨taken, Nat.le_succ_of_le hle, hcloses, hcount, fun more hlt hle => ?_⟩
    rcases Nat.lt_or_eq_of_le hle with hlt' | rfl
    · exact hmore more hlt (Nat.le_of_lt_succ hlt')
    · exact closingMark?_eq_none_iff.mp hmark

theorem rawTail?_ne_none {closer : List Char} {white taken : Nat} {closed : Bool}
    (hle : taken ≤ white) (h : dash closed ++ closer <+: text.drop taken) :
    Segment.rawTail? closer white text ≠ none := by
  fun_induction Segment.rawTail? closer white text with
  | case1 => exact Option.some_ne_none _
  | case2 hmark =>
    obtain rfl := Nat.le_zero.mp hle
    exact absurd h (closingMark?_eq_none_iff.mp hmark closed)
  | case3 white hmark ih =>
    rcases Nat.lt_or_eq_of_le hle with hlt | rfl
    · exact ih (Nat.le_of_lt_succ hlt)
    · exact absurd h (closingMark?_eq_none_iff.mp hmark closed)

theorem isLead_rawEnd {before : List Char} (hbefore : ∀ c ∈ before, isWhiteSpace c = true) :
    IsLead isWhiteSpace before (rawEnd word ++ rest) :=
  ⟨hbefore, fun c hc => by
    obtain rfl : 'e' = c := Option.some.inj hc
    decide⟩

theorem exists_closesRaw_of_rawClosing? {name : String} {opened closed : Bool} {count : Nat}
    (h : Segment.rawClosing? d.blockStart.toList d.blockEnd.toList name text =
      some (opened, closed, count)) :
    ∃ before after rest,
      let tag : RawTag := ⟨opened, before, after, closed⟩
      text = tag.source d (rawEnd name.toList) ++ rest ∧
        count = (tag.source d (rawEnd name.toList)).length ∧ tag.ClosesRaw d rest := by
  simp only [Segment.rawClosing?] at h
  split at h
  · cases h
  · next inside hopener =>
    obtain rfl := after?_eq_some_iff.mp hopener
    obtain ⟨opened', spaced, rfl, hopened⟩ := exists_dash inside
    obtain ⟨before, named, rfl, hbefore⟩ := exists_isLead isWhiteSpace spaced
    rw [dashLength_append hopened, List.drop_left, hbefore.takeWhile_eq, List.drop_left] at h
    split at h
    · cases h
    · next tail hname =>
      obtain rfl := after?_eq_some_iff.mp hname
      obtain ⟨white, ending, rfl, hwhite⟩ := exists_isLead isWhiteSpace tail
      rw [hwhite.takeWhile_eq] at h
      obtain ⟨⟨closed', length⟩, htail, heq⟩ := Option.map_eq_some_iff.mp h
      obtain ⟨taken, hle, hcloses, rfl, hmore⟩ := rawTail?_eq_some htail
      rw [decide_length_dash] at heq
      obtain ⟨rfl, rfl, rfl⟩ : opened' = opened ∧ closed' = closed ∧ _ = count := by
        simpa only [Prod.mk.injEq] using heq
      obtain ⟨rest, hrest⟩ := hcloses.1
      have htaken : white ++ ending =
          white.take taken ++ (dash closed' ++ d.blockEnd.toList ++ rest) := by
        rw [hrest, List.drop_append_of_le_length hle, ← List.append_assoc, List.take_append_drop]
      rw [← hrest] at hcloses
      refine ⟨before, white.take taken, rest, ?_, ?_, ⟨hbefore.1, ?_⟩, ?_, hcloses⟩
      · simp only [RawTag.source, rawEnd, List.append_assoc] at htaken ⊢
        rw [htaken]
      · simp only [RawTag.source, rawEnd, List.length_append, List.length_take_of_le hle]
        omega
      · exact fun c hc => hwhite.1 c (List.mem_of_mem_take hc)
      · intro white' closed hwhite' hprefix
        rw [List.length_take_of_le hle]
        refine Nat.le_of_not_lt fun hlonger => ?_
        dsimp only at hprefix
        rw [← htaken] at hprefix
        obtain ⟨left, hleft⟩ := hprefix
        have hshort := hwhite.length_le hwhite' ⟨_, (List.append_assoc _ _ _).symm.trans hleft⟩
        refine hmore _ hlonger hshort closed ⟨left, ?_⟩
        rw [← hleft, List.append_assoc white', List.drop_left]

/-- Every tag that could close a raw block is found. -/
theorem RawTag.IsSpaced.rawClosing?_ne_none {tag : RawTag} {name : String} (hspaced : tag.IsSpaced)
    (h : tag.source d (rawEnd name.toList) <+: text) :
    Segment.rawClosing? d.blockStart.toList d.blockEnd.toList name text ≠ none := by
  obtain ⟨rest, rfl⟩ := h
  simp only [Segment.rawClosing?, RawTag.source, List.append_assoc]
  rw [after?_eq_some_iff.mpr rfl]
  dsimp only
  rw [dashLength_append fun _ => head?_append_ne_dash hspaced.1 (by simp [rawEnd]), List.drop_left,
    (isLead_rawEnd hspaced.1).takeWhile_eq, List.drop_left]
  obtain ⟨white, ending, hafter, hwhite⟩ := exists_isLead isWhiteSpace
    (tag.after ++ (dash tag.closed ++ (d.blockEnd.toList ++ rest)))
  have hshort := hwhite.length_le hspaced.2 (hafter ▸ List.prefix_append _ _)
  have hmark : dash tag.closed ++ d.blockEnd.toList <+: (white ++ ending).drop tag.after.length := by
    rw [← hafter, List.drop_left]
    exact ⟨rest, List.append_assoc _ _ _⟩
  rw [rawEnd, List.append_assoc, ← List.append_assoc "end".toList, after?_eq_some_iff.mpr rfl, hafter]
  dsimp only
  rw [hwhite.takeWhile_eq]
  exact fun hnone => rawTail?_ne_none hshort hmark (Option.map_eq_none_iff.mp hnone)

/-- The body of a raw block ends with the first tag that could close it. -/
theorem exists_closesRaw_of_rawBody? {name : String} {body : List Char} {opened closed : Bool}
    {count : Nat} (h : Segment.rawBody? d.blockStart.toList d.blockEnd.toList name text =
      some (body, opened, closed, count)) :
    ∃ before after rest,
      let tag : RawTag := ⟨opened, before, after, closed⟩
      text = body ++ (tag.source d (rawEnd name.toList) ++ rest) ∧
        count = (tag.source d (rawEnd name.toList)).length ∧ tag.ClosesRaw d rest ∧
        ∀ passed left, body = passed ++ left → left ≠ [] → ∀ other : RawTag, other.IsSpaced →
          ¬ other.source d (rawEnd name.toList) <+:
            left ++ (tag.source d (rawEnd name.toList) ++ rest) := by
  have hnil {tag : RawTag} {rest : List Char} :
      ∀ passed left, [] = passed ++ left → left ≠ [] → ∀ other : RawTag, other.IsSpaced →
        ¬ other.source d (rawEnd name.toList) <+:
          left ++ (tag.source d (rawEnd name.toList) ++ rest) :=
    fun passed left heq hleft => absurd (List.append_eq_nil_iff.mp heq.symm).2 hleft
  fun_induction Segment.rawBody? d.blockStart.toList d.blockEnd.toList name text
    generalizing body with
  | case1 =>
    obtain ⟨closing, hclosing, heq⟩ := Option.map_eq_some_iff.mp h
    cases heq
    obtain ⟨before, after, rest, htext, hcount, hcloses⟩ := exists_closesRaw_of_rawClosing? hclosing
    exact ⟨before, after, rest, htext, hcount, hcloses, hnil⟩
  | case2 c text closing hclosing =>
    cases h
    obtain ⟨before, after, rest, htext, hcount, hcloses⟩ := exists_closesRaw_of_rawClosing? hclosing
    exact ⟨before, after, rest, htext, hcount, hcloses, hnil⟩
  | case3 c text hclosing ih =>
    obtain ⟨⟨body', closing⟩, hbody, heq⟩ := Option.map_eq_some_iff.mp h
    cases heq
    obtain ⟨before, after, rest, htext, hcount, hcloses, hfirst⟩ := ih hbody
    refine ⟨before, after, rest, congrArg (c :: ·) htext, hcount, hcloses, ?_⟩
    intro passed left heq hleft
    cases passed with
    | nil =>
      obtain rfl : c :: body' = left := heq
      rw [List.cons_append, ← htext]
      exact fun other hspaced hother => hspaced.rawClosing?_ne_none hother hclosing
    | cons _ passed => exact hfirst passed left (List.cons.inj heq).2 hleft

end TemplateManifest
