import TemplateManifest.Proofs.Template.Layout

/-!
The words of code in a source stand one after the other, whatever its delimiters are. Main statement:
`tokenize_codePlaces`.
-/

namespace TemplateManifest

/-- Where the words of code among some tokens stand. -/
def codePlaces (tokens : List Token) : List Position :=
  (tokens.filter fun token => token.kind.isCode).map Token.pos

@[simp]
theorem codePlaces_nil : codePlaces [] = [] := rfl

theorem codePlaces_append (tokens tokens' : List Token) :
    codePlaces (tokens ++ tokens') = codePlaces tokens ++ codePlaces tokens' := by
  rw [codePlaces, List.filter_append, List.map_append, codePlaces, codePlaces]

theorem codePlaces_of_code {tokens : List Token} (h : ∀ token ∈ tokens, token.kind.isCode = true) :
    codePlaces tokens = tokens.map Token.pos := by
  rw [codePlaces, List.filter_eq_self.mpr h]

theorem codePlaces_of_marks {tokens : List Token} (h : ∀ token ∈ tokens, token.kind.isCode = false) :
    codePlaces tokens = [] := by
  rw [codePlaces, List.filter_eq_nil_iff.mpr fun token hmem => Bool.eq_false_iff.mp (h token hmem),
    List.map_nil]

theorem codePlaces_sublist {tokens tokens' : List Token} (h : tokens.Sublist tokens') :
    (codePlaces tokens).Sublist (codePlaces tokens') :=
  (h.filter _).map _

namespace Position

theorem before_after {text : List Char} (p : Position) (h : text ≠ []) : p.Before (p.after text) := by
  induction text generalizing p with
  | nil => exact absurd rfl h
  | cons c text ih =>
    rw [after_cons]
    by_cases hempty : text = []
    · rw [hempty]
      exact before_step p c
    · exact (before_step p c).trans (ih _ hempty)

/-- The place of an offset comes before those of later offsets. -/
theorem before_of_lt {source : List Char} {offset offset' : Nat} (hlt : offset < offset')
    (hin : offset < source.length) :
    (first.after (source.take offset)).Before (first.after (source.take offset')) := by
  obtain ⟨count, rfl⟩ := Nat.exists_eq_add_of_lt hlt
  rw [Nat.add_assoc, List.take_add, after_append]
  refine before_after _ fun hnil => ?_
  have hlength := congrArg List.length hnil
  rw [List.length_take, List.length_drop, List.length_nil] at hlength
  omega

end Position

/-- The places are those of growing offsets of the source, from one offset on and before another. -/
def Rises (source : List Char) (start stop : Nat) (places : List Position) : Prop :=
  ∃ offsets : List Nat, places = offsets.map (fun offset => Position.first.after (source.take offset)) ∧
    offsets.Pairwise (· < ·) ∧
    ∀ offset ∈ offsets, start ≤ offset ∧ offset < stop ∧ offset < source.length

section Rises

variable {source : List Char} {start start' middle stop stop' : Nat} {places places' : List Position}

theorem rises_nil : Rises source start stop [] :=
  ⟨[], rfl, .nil, List.forall_mem_nil _⟩

theorem Rises.mono (h : Rises source start stop places) (hstart : start' ≤ start)
    (hstop : stop ≤ stop') : Rises source start' stop' places := by
  obtain ⟨offsets, hplaces, hascending, hbounds⟩ := h
  refine ⟨offsets, hplaces, hascending, fun offset hmem => ?_⟩
  have hoffset := hbounds offset hmem
  omega

theorem Rises.append (h : Rises source start middle places) (h' : Rises source middle stop places')
    (hstart : start ≤ middle) (hstop : middle ≤ stop) : Rises source start stop (places ++ places') := by
  obtain ⟨offsets, rfl, hascending, hbounds⟩ := h
  obtain ⟨offsets', rfl, hascending', hbounds'⟩ := h'
  refine ⟨offsets ++ offsets', (List.map_append ..).symm, List.pairwise_append.mpr
    ⟨hascending, hascending', fun offset hmem offset' hmem' => ?_⟩,
    List.forall_mem_append.mpr ⟨fun offset hmem => ?_, fun offset hmem => ?_⟩⟩
  · exact Nat.lt_of_lt_of_le (hbounds offset hmem).2.1 (hbounds' offset' hmem').1
  · have hoffset := hbounds offset hmem
    omega
  · have hoffset := hbounds' offset hmem
    omega

theorem Rises.pairwise (h : Rises source start stop places) : places.Pairwise Position.Before := by
  obtain ⟨offsets, rfl, hascending, hbounds⟩ := h
  refine List.pairwise_map.mpr (hascending.imp_of_mem fun hmem _ hlt => ?_)
  exact Position.before_of_lt hlt (hbounds _ hmem).2.2

end Rises

section Lexing

open Segment

variable {options : LanguageOptions} {source : List Char} {kind : TagKind} {offset : Nat}
  {c : Construct} {next : Cursor}

theorem Code.Words.isCode {start stop : Nat} {words : List Spot} (h : Code.Words source start words stop) :
    ∀ token ∈ words.map Spot.token, token.kind.isCode = true := by
  induction h with
  | nil => exact List.forall_mem_nil _
  | cons hle hwhite hletters hword h ih => exact List.forall_mem_cons.mpr ⟨isCode_token hword, ih⟩

/-- The words of a tag stand inside it. -/
theorem rises_readTag (h : readTag options kind (cursorAt source offset) = .ok (c, next)) :
    ∃ stop, offset ≤ stop ∧ next = cursorAt source stop ∧
      Rises source offset stop (codePlaces c.tokens) := by
  rw [readTag, skip_cursorAt] at h
  split at h
  · cases h
  · next reading hread =>
    cases h
    obtain ⟨words, stop, hwords, hexact, htokens, hfinish, hstop, hmark⟩ := Code.words_of_readFrom hread
    obtain ⟨hstart, hascending, hinside⟩ := hwords.ascending
    have hends : stop ≤ offset + ((cursorAt source offset).rest.length - reading.finish.rest.length) := by
      have hfits := hmark.length_le
      rw [List.length_drop] at hfits
      rw [hfinish]
      simp only [cursorAt, List.length_drop]
      omega
    have hopening : (openingKind kind).isCode = false := by cases kind <;> rfl
    have hclosing : (Code.closingKind kind).isCode = false := by cases kind <;> rfl
    refine ⟨_, ?_, by rw [skip_cursorAt, skip_cursorAt], words.map Spot.offset, ?_, hascending, ?_⟩
    · exact Nat.le_trans (Nat.le_add_right _ _) (Nat.le_add_right _ _)
    · rw [← List.singleton_append, htokens, codePlaces_append, codePlaces_append,
        codePlaces_of_marks (List.forall_mem_singleton.mpr hopening),
        codePlaces_of_marks (List.forall_mem_singleton.mpr hclosing), List.nil_append, List.append_nil,
        codePlaces_of_code hwords.isCode, List.map_map, List.map_map]
      exact List.map_congr_left hexact
    · refine List.forall_mem_map.mpr fun word hword => ?_
      have hbounds := hinside word hword
      omega

/-- The words of a construct stand inside it. -/
theorem rises_readConstruct (h : readConstruct options kind (cursorAt source offset) = .ok (c, next)) :
    ∃ stop, offset ≤ stop ∧ next = cursorAt source stop ∧
      Rises source offset stop (codePlaces c.tokens) := by
  have hfinish {kind : TagKind} {count : Nat} {tokens : List Token} {stripsBefore stripsAfter : Bool}
      (htokens : codePlaces tokens = [])
      (h : finish options kind (cursorAt source offset) count tokens stripsBefore stripsAfter =
        (c, next)) : ∃ stop, offset ≤ stop ∧ next = cursorAt source stop ∧
          Rises source offset stop (codePlaces c.tokens) := by
    cases h
    refine ⟨_, ?_, by rw [skip_cursorAt, skip_cursorAt], by rw [htokens]; exact rises_nil⟩
    exact Nat.le_trans (Nat.le_add_right _ _) (Nat.le_add_right _ _)
  rcases readConstruct_cases h with ⟨-, hcomment⟩ | ⟨-, hraw⟩ | ⟨-, -, htag⟩
  · simp only [readComment] at hcomment
    split at hcomment
    · cases hcomment
    · exact hfinish rfl (Except.ok.inj hcomment)
  · rw [readRaw?, Option.map_eq_some_iff] at hraw
    obtain ⟨_, -, hresult⟩ := hraw
    dsimp only at hresult
    split at hresult
    · cases hresult
    · exact hfinish rfl (Except.ok.inj hresult)
  · exact rises_readTag htag

/-- Text is no code. -/
theorem codePlaces_texts (options : LanguageOptions) (strip : Bool) {texts : List Segment}
    (htexts : ∀ segment ∈ texts, ∃ pos chars, segment = .text pos chars) (segments : List Segment) :
    ∃ strip', codePlaces (tokensAfter options strip (texts ++ segments)) =
      codePlaces (tokensAfter options strip' segments) := by
  induction texts generalizing strip with
  | nil => exact ⟨strip, rfl⟩
  | cons segment texts ih =>
    obtain ⟨⟨pos, chars, rfl⟩, hothers⟩ := List.forall_mem_cons.mp htexts
    obtain ⟨strip', hplaces⟩ := ih false hothers
    refine ⟨strip', ?_⟩
    rw [← hplaces, List.cons_append, tokensAfter]
    split
    · rfl
    · rw [← List.singleton_append, codePlaces_append]
      rfl

theorem rises_splitFrom {bound : Nat} {segments : List Segment} {finish : Position}
    (h : splitFrom options bound (cursorAt source offset) = .ok (segments, finish)) (strip : Bool) :
    ∃ stop, Rises source offset stop (codePlaces (tokensAfter options strip segments)) := by
  induction bound generalizing offset segments finish strip with
  | zero => cases h
  | succ bound ih =>
    simp only [splitFrom, skip_cursorAt] at h
    generalize htexts : (if textLength options.delimiters (cursorAt source offset).rest = 0 then []
      else [text (cursorAt source offset).pos _]) = texts at h
    have htexts' : ∀ segment ∈ texts, ∃ pos chars, segment = .text pos chars := by
      subst htexts
      split
      · exact List.forall_mem_nil _
      · exact List.forall_mem_singleton.mpr ⟨_, _, rfl⟩
    split at h
    · cases h
      exact ⟨offset, rises_nil⟩
    · split at h
      · cases h
        obtain ⟨strip', hplaces⟩ := codePlaces_texts options strip htexts' []
        rw [List.append_nil] at hplaces
        exact ⟨offset, hplaces ▸ rises_nil⟩
      · split at h
        · cases h
        · next c next hread =>
          split at h
          · cases h
          · next segments finish hrest =>
            cases h
            obtain ⟨middle, hmiddle, rfl, hconstruct⟩ := rises_readConstruct hread
            obtain ⟨stop, hsegments⟩ := ih hrest c.stripsAfter
            obtain ⟨strip', hplaces⟩ := codePlaces_texts options strip htexts' (.construct c :: segments)
            rw [hplaces, tokensAfter, codePlaces_append]
            have hstart := Nat.le_trans (Nat.le_add_right offset _) hmiddle
            exact ⟨max middle stop, (hconstruct.mono (Nat.le_add_right offset _) (Nat.le_refl _)).append
              (hsegments.mono (Nat.le_refl _) (Nat.le_max_right _ _)) hstart (Nat.le_max_left _ _)⟩

end Lexing

/-- The words of code among the tokens of a source stand one after the other. -/
theorem tokenize_codePlaces {options : LanguageOptions} {source : String} {tokens : List Token}
    (h : tokenize options source = .ok tokens) : (codePlaces tokens).Pairwise Position.Before := by
  unfold tokenize at h
  split at h
  · cases h
  · next segments finish hsplit =>
    cases h
    obtain ⟨stop, hrises⟩ := @rises_splitFrom _ source.toList 0 _ _ _ hsplit false
    rw [codePlaces_append, codePlaces_of_marks (List.forall_mem_singleton.mpr (rfl : (Token.eofAt finish).kind.isCode = false)), List.append_nil]
    exact hrises.pairwise

end TemplateManifest
