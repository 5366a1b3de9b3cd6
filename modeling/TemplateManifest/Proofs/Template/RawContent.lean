import Mathlib.Data.List.Infix
import TemplateManifest.Proofs.Template.Sentence

/-!
A raw block keeps any text in which nothing closes the block: tags, comments and quotes, and beginnings of
closing tags. Main statement: `tokenize_rawText`.
-/

namespace TemplateManifest

open Text Segment

/-- The tag of a raw block with one blank on each side of its word. -/
def plainTag : RawTag := ⟨false, [' '], [' '], false⟩

/-- No mark opens a construct in the text where other text comes after it. -/
def Delimiters.AbsentBefore (d : Delimiters) (text rest : List Char) : Prop :=
  ∀ passed left, text = passed ++ left → left ≠ [] → ∀ kind, ¬ (d.opener kind).toList <+: left ++ rest

/-- No tag in the text could close a raw block that the word has opened. -/
def Delimiters.EndAbsent (d : Delimiters) (word : String) (text : List Char) : Prop :=
  ∀ tag : RawTag, tag.IsSpaced → ¬ tag.source d (rawEnd word.toList) <:+: text

/-- A text as a token, unless it is empty. -/
def textTokens (text : String) (pos : Position) : List Token :=
  if text = "" then [] else [⟨.data, text, pos⟩]

section

variable {d : Delimiters} {word : String} {text rest body after : List Char} {pos : Position}

theorem Delimiters.AbsentBefore.tail {c : Char} (h : d.AbsentBefore (c :: text) rest) :
    d.AbsentBefore text rest :=
  fun passed left heq => h (c :: passed) left (congrArg (c :: ·) heq)

/-- A text without opening marks goes up to the next one. -/
theorem textLength_append (h : d.AbsentBefore text rest) :
    textLength d (text ++ rest) = text.length + textLength d rest := by
  induction text with
  | nil => simp
  | cons c text ih =>
    have hnone : openerAt? d (c :: (text ++ rest)) = none :=
      openerAt?_eq_none_iff.mpr (h [] (c :: text) rfl (List.cons_ne_nil _ _))
    rw [List.cons_append, textLength, hnone]
    dsimp only
    rw [ih h.tail, List.length_cons]
    omega

theorem textLength_of_openerAt? {kind : TagKind} (h : openerAt? d text = some kind) :
    textLength d text = 0 := by
  cases text with
  | nil => rfl
  | cons c text => rw [textLength, h]

theorem Delimiters.Absent.absentBefore (h : d.Absent text) : d.AbsentBefore text [] := by
  rintro passed left rfl - kind hkind
  rw [List.append_nil] at hkind
  exact h kind (hkind.isInfix.trans (List.suffix_append _ _).isInfix)

/-- A mark at the head of a text does not run into a character that can only be its first one. -/
theorem isPrefix_of_not_mem_tail {mark : List Char} {c : Char} (hmark : c ∉ mark.tail) (htext : text ≠ [])
    (h : mark <+: text ++ c :: rest) : mark <+: text := by
  rcases List.prefix_or_prefix_of_prefix h (List.prefix_append _ _) with hwhole | ⟨more, rfl⟩
  · exact hwhole
  · cases more with
    | nil => exact (List.append_nil text).symm ▸ List.prefix_rfl
    | cons first more =>
      rw [List.prefix_append_right_inj] at h
      obtain ⟨rfl, -⟩ := List.cons_prefix_cons.mp h
      rw [List.tail_append_of_ne_nil htext] at hmark
      exact absurd (List.mem_append_right _ List.mem_cons_self) hmark

theorem not_mem_tail_source (hword : word ∈ rawWords) {tag : RawTag} (hspaced : tag.IsSpaced) :
    '\x7b' ∉ (tag.source {} (rawEnd word.toList)).tail := by
  have hplain := (forall_mem_rawWords word hword).2
  have hwhite : isWhiteSpace '\x7b' = false := by decide
  have hbefore : '\x7b' ∉ tag.before :=
    fun hmem => Bool.false_ne_true (hwhite.symm.trans (hspaced.1 _ hmem))
  have hafter : '\x7b' ∉ tag.after :=
    fun hmem => Bool.false_ne_true (hwhite.symm.trans (hspaced.2 _ hmem))
  have hname : '\x7b' ∉ word.toList := fun hmem => absurd (hplain _ hmem).1 (by decide)
  have hdash (present : Bool) : '\x7b' ∉ dash present := by cases present <;> decide
  simp [RawTag.source, rawEnd, hbefore, hafter, hname, hdash]

theorem Delimiters.EndAbsent.tail {c : Char} (h : d.EndAbsent word (c :: text)) : d.EndAbsent word text :=
  fun tag hspaced hmem => h tag hspaced (hmem.trans (List.suffix_cons c text).isInfix)

/-- The first tag that closes the block is the one after the body. -/
theorem rawBody?_append (hword : word ∈ rawWords) (hbody : ({} : Delimiters).EndAbsent word body)
    (after : List Char) :
    rawBody? "\x7b%".toList "%\x7d".toList word
        (body ++ (plainTag.source {} (rawEnd word.toList) ++ after)) =
      some (body, false, false, (plainTag.source {} (rawEnd word.toList)).length) := by
  induction body with
  | nil =>
    rcases List.mem_pair.mp hword with rfl | rfl
    · rfl
    · rfl
  | cons c body ih =>
    have hnone : rawClosing? "\x7b%".toList "%\x7d".toList word
        (c :: (body ++ (plainTag.source {} (rawEnd word.toList) ++ after))) = none := by
      rw [Option.eq_none_iff_forall_ne_some]
      rintro ⟨opened, closed, count⟩ hclosing
      obtain ⟨before, white, rest, htext, -, hcloses⟩ :=
        exists_closesRaw_of_rawClosing? (d := {}) hclosing
      have hprefix : RawTag.source {} ⟨opened, before, white, closed⟩ (rawEnd word.toList) <+:
          (c :: body) ++ '\x7b' :: ((plainTag.source {} (rawEnd word.toList)).tail ++ after) :=
        ⟨rest, htext.symm⟩
      exact hbody _ hcloses.spaced (isPrefix_of_not_mem_tail (not_mem_tail_source hword hcloses.spaced)
        (List.cons_ne_nil _ _) hprefix).isInfix
    rw [List.cons_append, rawBody?, hnone, ih hbody.tail]
    rfl

theorem rawOpening?_plainTag (hword : word ∈ rawWords) (after : List Char) :
    rawOpening? "%\x7d".toList (' ' :: (word.toList ++ (' ' :: '%' :: '\x7d' :: after))) =
      some (word, false, word.length + 4) := by
  rcases List.mem_pair.mp hword with rfl | rfl
  · rfl
  · rfl

/-- The characters of a raw block. -/
def rawBlock (word : String) (body : List Char) : List Char :=
  plainTag.source {} word.toList ++ (body ++ plainTag.source {} (rawEnd word.toList))

/-- Its body is kept as it stands. -/
theorem readConstruct_rawBlock (hword : word ∈ rawWords) (hbody : ({} : Delimiters).EndAbsent word body)
    (after : List Char) (pos : Position) :
    readConstruct {} .block ⟨rawBlock word body ++ after, pos⟩ =
      .ok (⟨.block, pos, rawBlock word body, [], [⟨.raw, String.ofList body, pos⟩], false, false⟩,
        ⟨after, pos.after (rawBlock word body)⟩) := by
  have hopening := rawOpening?_plainTag hword
    (body ++ (plainTag.source {} (rawEnd word.toList) ++ after))
  have hclosing := rawBody?_append hword hbody after
  have hinside : (rawBlock word body ++ after).drop 2 =
      ' ' :: (word.toList ++ (' ' :: '%' :: '\x7d' ::
        (body ++ (plainTag.source {} (rawEnd word.toList) ++ after)))) := by
    simp [rawBlock, RawTag.source, plainTag, dash]
  have hlength : (plainTag.source {} word.toList).length = 2 + 0 + (word.length + 4) := by
    simp [RawTag.source, plainTag, dash, ← String.length_toList]
    omega
  have hrest : (rawBlock word body ++ after).drop (2 + 0 + (word.length + 4)) =
      body ++ (plainTag.source {} (rawEnd word.toList) ++ after) := by
    rw [← hlength, rawBlock, List.append_assoc, List.drop_left, List.append_assoc]
  have hcount : 2 + 0 + (word.length + 4) + body.length +
      (plainTag.source {} (rawEnd word.toList)).length = (rawBlock word body).length := by
    rw [← hlength, rawBlock, List.length_append, List.length_append, Nat.add_assoc]
  have hraw : readRaw? {} ⟨rawBlock word body ++ after, pos⟩ =
      some (.ok (finish {} .block ⟨rawBlock word body ++ after, pos⟩ (rawBlock word body).length
        [⟨.raw, String.ofList body, pos⟩] false false)) := by
    have htwo : "\x7b%".toList.length = 2 := rfl
    have hdash (text : List Char) : dashLength (' ' :: text) = 0 := rfl
    simp only [readRaw?, htwo, hinside, hdash, List.drop_zero, hopening, Option.map_some, hrest, hclosing,
      hcount]
    rfl
  rw [readConstruct, hraw, Option.getD_some, finish, Cursor.skip_append]
  simp [Cursor.skip, Position.after]

/-- Without white space control a text gives one token with all of it. -/
theorem dataTokens_eq_textTokens (text : String) (pos : Position) (next : Option Construct)
    (hnext : ∀ c ∈ next, c.stripsBefore = false) :
    dataTokens {} false pos text.toList next = textTokens text pos := by
  have hvisible : visibleText {} false pos text.toList next = text.toList := by
    cases next with
    | none => rfl
    | some c => simp [visibleText, hnext c rfl]
  simp [dataTokens, textTokens, hvisible]

/-- The end of a source without opening marks is one run of text. -/
theorem splitFrom_of_absent {bound : Nat} (h : ({} : Delimiters).Absent text) (pos : Position) :
    splitFrom {} (bound + 1) ⟨text, pos⟩ = .ok (textSegments pos text, pos.after text) := by
  cases text with
  | nil => rfl
  | cons c text =>
    have hsplit : splitFrom {} (bound + 1) ⟨(c :: text) ++ [], pos⟩ =
        .ok (textSegments pos (c :: text), pos.after (c :: text)) :=
      splitFrom_of_text (by simp) (textLength_append h.absentBefore) rfl
    rwa [List.append_nil] at hsplit

/-- The construct that a raw block is read as. -/
def rawConstruct (word : String) (body : List Char) (pos : Position) : Construct :=
  ⟨.block, pos, rawBlock word body, [], [⟨.raw, String.ofList body, pos⟩], false, false⟩

theorem splitFrom_rawBlock (hword : word ∈ rawWords)
    (htext : ({} : Delimiters).AbsentBefore text (rawBlock word body ++ after))
    (hbody : ({} : Delimiters).EndAbsent word body) (hafter : ({} : Delimiters).Absent after)
    (bound : Nat) (pos : Position) :
    splitFrom {} (bound + 2) ⟨text ++ (rawBlock word body ++ after), pos⟩ =
      .ok (textSegments pos text ++ .construct (rawConstruct word body (pos.after text)) ::
        textSegments ((pos.after text).after (rawBlock word body)) after,
        ((pos.after text).after (rawBlock word body)).after after) := by
  have hopener : openerAt? {} (rawBlock word body ++ after) = some .block := rfl
  have hlength : textLength {} (text ++ (rawBlock word body ++ after)) = text.length := by
    rw [textLength_append htext, textLength_of_openerAt? hopener, Nat.add_zero]
  have hne : text ++ (rawBlock word body ++ after) ≠ [] :=
    List.append_ne_nil_of_right_ne_nil _ (List.cons_ne_nil _ _)
  have hread := readConstruct_rawBlock hword hbody after (pos.after text)
  rw [@Segment.splitFrom_of_construct {} .block pos (bound + 1) text _ hne hlength _ _ hopener hread,
    splitFrom_of_absent hafter]
  rfl

/-- A raw block as it is written. -/
def rawText (word body : String) : String :=
  "\x7b% " ++ word ++ " %\x7d" ++ body ++ "\x7b% end" ++ word ++ " %\x7d"

theorem toList_rawText (word body : String) : (rawText word body).toList = rawBlock word body.toList := by
  simp [rawText, rawBlock, RawTag.source, plainTag, rawEnd, dash]

theorem tokensAfter_rawBlock (word text body after : String) (pos middle last : Position) :
    tokensAfter {} false (textSegments pos text.toList ++
      .construct (rawConstruct word body.toList middle) :: textSegments last after.toList) =
      textTokens text pos ++ ⟨.raw, body, middle⟩ :: textTokens after last := by
  have hafter : tokensAfter {} false (textSegments last after.toList ++ []) =
      dataTokens {} false last after.toList none ++ tokensAfter {} false [] :=
    tokensAfter_textSegments (.inl rfl)
  rw [List.append_nil, dataTokens_eq_textTokens _ _ _ (by simp)] at hafter
  rw [tokensAfter_textSegments (.inr ⟨_, _, rfl⟩), dataTokens_eq_textTokens, tokensAfter, rawConstruct,
    hafter]
  · simp [tokensAfter]
  · rintro c ⟨⟩
    rfl

/-- A raw block is read as one token with all of its body, and the texts before and after it as one token
    each. The body may hold anything in which nothing closes the block. -/
theorem tokenize_rawText {word text body after : String} (hword : word ∈ rawWords)
    (htext : ({} : Delimiters).AbsentBefore text.toList (rawText word body ++ after).toList)
    (hbody : ({} : Delimiters).EndAbsent word body.toList)
    (hafter : ({} : Delimiters).Absent after.toList) :
    let middle := Position.first.after text.toList
    let last := middle.after (rawText word body).toList
    tokenize {} (text ++ rawText word body ++ after) =
      .ok (textTokens text .first ++ ⟨.raw, body, middle⟩ :: textTokens after last ++
        [Token.eofAt (last.after after.toList)]) := by
  intro middle last
  rw [String.toList_append, toList_rawText] at htext
  have hlength : ∃ bound, (text ++ rawText word body ++ after).length = bound + 1 := by
    rw [Nat.exists_eq_add_one, ← String.length_toList, String.toList_append, String.toList_append,
      toList_rawText, List.append_assoc]
    exact List.length_pos_of_ne_nil (List.append_ne_nil_of_right_ne_nil _ (List.cons_ne_nil _ _))
  obtain ⟨bound, hbound⟩ := hlength
  have hsplit := splitFrom_rawBlock hword htext hbody hafter bound .first
  rw [tokenize, split, hbound, String.toList_append, String.toList_append, toList_rawText,
    List.append_assoc, hsplit]
  dsimp only
  rw [tokensAfter_rawBlock, ← toList_rawText]

section Checks

theorem absentBefore_of_textLength (h : textLength d (text ++ rest) = text.length) :
    d.AbsentBefore text rest := by
  obtain ⟨chars, rest', heq, hlength, -, hchars⟩ := exists_textLength d (text ++ rest)
  obtain ⟨rfl, rfl⟩ := List.append_inj heq (h.symm.trans hlength)
  exact hchars

theorem endAbsent_of_tails
    (h : ∀ left ∈ text.tails, rawClosing? d.blockStart.toList d.blockEnd.toList word left = none) :
    d.EndAbsent word text := by
  rintro tag hspaced ⟨passed, rest, rfl⟩
  refine hspaced.rawClosing?_ne_none (List.prefix_append _ rest) (h _ ?_)
  rw [List.append_assoc]
  exact (List.mem_tails _ _).mpr (List.suffix_append _ _)

end Checks

/-- A body with tags, a comment, a quote and tags that look like the end of the block, the last one right
    before the end. -/
theorem tokenize_rawText_tags_in_body :
    let body := "\x7b\x7b x \x7d\x7d\x7b% if %\x7d\x7b# '\x7b% endverbatim %\x7d" ++
      "\x7b%- endraws %\x7d\x7b% endraw \x7b%-"
    tokenize {} ("a %\x7d'" ++ rawText "raw" body ++ "\x7b c") =
      .ok [⟨.data, "a %\x7d'", ⟨1, 1⟩⟩, ⟨.raw, body, ⟨1, 6⟩⟩, ⟨.data, "\x7b c", ⟨1, 90⟩⟩,
        Token.eofAt ⟨1, 93⟩] := by
  intro body
  have htext : ({} : Delimiters).AbsentBefore "a %\x7d'".toList (rawText "raw" body ++ "\x7b c").toList :=
    absentBefore_of_textLength (by decide +kernel)
  have hbody : ({} : Delimiters).EndAbsent "raw" body.toList := endAbsent_of_tails (by decide +kernel)
  have hafter : ({} : Delimiters).Absent "\x7b c".toList :=
    absent_take_textLength (fun kind => by cases kind <;> decide) "\x7b c".toList
  refine (tokenize_rawText (by decide) htext hbody hafter).trans (congrArg Except.ok ?_)
  decide +kernel

end

end TemplateManifest
