import TemplateManifest.Proofs.Template.Grammar
import TemplateManifest.Proofs.Template.Span

/-!
The code of a tag: reading it takes all its words and ends at the mark that closes it.
-/

namespace TemplateManifest

open Text

/-- The tokens of this kind stand for words inside tags. -/
def TokenKind.isCode : TokenKind → Bool
  | data | raw | blockStart | blockEnd | variableStart | variableEnd | eof => false
  | _ => true

namespace Code

theorem length_stringBody? {quote : Char} {text value : List Char} {count : Nat}
    (h : stringBody? quote text = some (value, count)) : count ≤ text.length := by
  fun_induction stringBody? quote text generalizing value count with
  | case1 => cases h
  | case2 => cases h
  | case3 escaped text ih =>
    obtain ⟨⟨value', count'⟩, hbody, heq⟩ := Option.map_eq_some_iff.mp h
    cases heq
    exact Nat.succ_le_succ (Nat.succ_le_succ (ih hbody))
  | case4 =>
    cases h
    exact Nat.le_add_left _ _
  | case5 c text hescape hquote ih =>
    obtain ⟨⟨value', count'⟩, hbody, heq⟩ := Option.map_eq_some_iff.mp h
    cases heq
    exact Nat.succ_le_succ (ih hbody)

theorem length_number (text : List Char) : (number text).2.length ≤ text.length := by
  have hwhole : (text.takeWhile Char.isDigit).length ≤ text.length :=
    (List.takeWhile_prefix _).length_le
  rw [number]
  split
  · next c rest hpoint =>
    split
    · have hfraction : ((c :: rest).takeWhile Char.isDigit).length ≤ (c :: rest).length :=
        (List.takeWhile_prefix _).length_le
      have hrest := congrArg List.length hpoint
      simp only [List.length_drop, List.length_cons, List.length_append] at hrest hfraction ⊢
      omega
    · exact hwhole
  · exact hwhole

theorem isCode_number (text : List Char) : (number text).1.isCode = true := by
  rw [number]
  split
  · split <;> rfl
  · rfl

theorem length_pos_of_mem_operators : ∀ op ∈ operators, 0 < op.length := by
  decide

theorem continuesName_of_startsName {c : Char} (h : startsName c = true) :
    continuesName c = true := by
  unfold startsName at h
  unfold continuesName
  simp only [Bool.or_eq_true] at h ⊢
  exact .imp_left (Or.imp_left .inl) h

/-- A word has a character, and its characters are those of the text. -/
theorem length_token {c : Char} {text : List Char} {kind : TokenKind} {value : String} {count : Nat}
    (h : token c text = .ok (kind, value, count)) : 0 < count ∧ count ≤ text.length + 1 := by
  rw [token] at h
  split at h
  · split at h
    · next hbody =>
      cases h
      exact ⟨Nat.succ_pos _, Nat.succ_le_succ (length_stringBody? hbody)⟩
    · cases h
  · split at h
    · next hdigit =>
      obtain ⟨rest, hrest⟩ := number_eq_cons hdigit text
      have hlength := length_number (c :: text)
      cases hnumber : number (c :: text) with
      | mk kind digits =>
      rw [hnumber] at h hrest hlength
      cases h
      obtain rfl : digits = c :: rest := hrest
      exact ⟨Nat.succ_pos _, hlength⟩
    · split at h
      · next hname =>
        cases h
        refine ⟨?_, (List.takeWhile_prefix _).length_le⟩
        rw [List.takeWhile_cons_of_pos (continuesName_of_startsName hname)]
        exact Nat.succ_pos _
      · split at h
        · cases h
          exact ⟨Nat.one_pos, Nat.le_add_left _ _⟩
        · split at h
          · next op hop =>
            cases h
            have hprefix := startsWith_iff_isPrefix.mp
              (List.find?_some (p := fun op : String => startsWith op.toList (c :: text)) hop)
            refine ⟨length_pos_of_mem_operators _ (List.mem_of_find?_eq_some hop), ?_⟩
            have hlength := hprefix.length_le
            rwa [String.length_toList] at hlength
          · cases h

end Code

namespace Cursor

theorem skip_append (read rest : List Char) (pos : Position) :
    (Cursor.mk (read ++ rest) pos).skip read.length = ⟨rest, pos.after read⟩ := by
  rw [skip, List.drop_left, List.take_left]

theorem skip_length {cursor : Cursor} {read rest : List Char} (h : cursor.rest = read ++ rest) :
    cursor.skip read.length = ⟨rest, cursor.pos.after read⟩ := by
  rw [← skip_append, ← h]

end Cursor

namespace Code

theorem isCode_of_markKind? {c : Char} {kind : TokenKind} (h : markKind? c = some kind) :
    kind.isCode = true := by
  unfold markKind? at h
  split at h <;> cases h <;> rfl

theorem isCode_token {c : Char} {text : List Char} {kind : TokenKind} {value : String} {count : Nat}
    (h : token c text = .ok (kind, value, count)) : kind.isCode = true := by
  rw [token] at h
  split at h
  · split at h
    · cases h
      rfl
    · cases h
  · split at h
    · have hcode := isCode_number (c :: text)
      cases hnumber : number (c :: text) with
      | mk kind digits =>
      rw [hnumber] at h hcode
      cases h
      exact hcode
    · split at h
      · cases h
        rfl
      · split at h
        · next hmark =>
          cases h
          exact isCode_of_markKind? hmark
        · split at h
          · cases h
            rfl
          · cases h

/-- What is read of the code of a tag ends where the code does. -/
structure Reading.Covers (closer : List Char) (kind : TagKind) (depth : Nat) (cursor : Cursor)
    (reading : Reading) (code rest : List Char) : Prop where
  source : cursor.rest = code ++ (dash reading.stripsAfter ++ closer ++ rest)
  ends : Until closer depth code (dash reading.stripsAfter ++ closer ++ rest)
  mark : ClosesAt closer reading.stripsAfter (dash reading.stripsAfter ++ closer ++ rest)
  finish : reading.finish =
    ⟨rest, cursor.pos.after (code ++ (dash reading.stripsAfter ++ closer))⟩
  tokens : ∃ words pos, reading.tokens = words ++ [⟨closingKind kind, String.ofList closer, pos⟩] ∧
    ∀ token ∈ words, token.kind.isCode = true

theorem exists_covers_of_readFrom {closer : List Char} {kind : TagKind} {opened : Position}
    {bound depth : Nat} {cursor : Cursor} {reading : Reading}
    (h : readFrom closer kind opened bound depth cursor = .ok reading) :
    ∃ code rest, reading.Covers closer kind depth cursor code rest := by
  induction bound generalizing depth cursor reading with
  | zero => cases h
  | succ bound ih =>
    obtain ⟨white, text, htext, hwhite⟩ := exists_isLead isWhiteSpace cursor.rest
    simp only [readFrom] at h
    rw [htext, hwhite.takeWhile_eq, Cursor.skip_length htext] at h
    cases text with
    | nil => cases h
    | cons c text =>
    dsimp only at h
    split at h
    · next closed count hmark =>
      cases h
      obtain ⟨rfl, hmark⟩ : depth = 0 ∧ closingMark? closer (c :: text) = some (closed, count) := by
        split at hmark
        · next hdepth => exact ⟨hdepth, hmark⟩
        · cases hmark
      obtain ⟨hcloses, rfl⟩ := closesAt_of_closingMark? hmark
      obtain ⟨rest, hrest⟩ := hcloses.1
      rw [← hrest] at hwhite hcloses htext ⊢
      refine ⟨white, rest, htext, .mark hwhite hcloses, hcloses, ?_, [], _, rfl,
        List.forall_mem_nil _⟩
      rw [Cursor.skip_append (dash closed ++ closer)]
      simp only [Position.after_append]
    · next hopen =>
      split at h
      · cases h
      · next tokenKind value count htoken =>
        split at h
        · cases h
        · next reading' hread =>
          cases h
          obtain ⟨hpos, hle⟩ := length_token htoken
          obtain ⟨letters, after, rfl, rfl⟩ :
              ∃ letters after, text = letters ++ after ∧ count = (c :: letters).length := by
            refine ⟨text.take (count - 1), text.drop (count - 1),
              (List.take_append_drop _ _).symm, ?_⟩
            rw [List.length_cons, List.length_take]
            omega
          rw [← List.cons_append, Cursor.skip_append (c :: letters)] at hread
          obtain ⟨code, rest, hsource, hends, hmark, hfinish, words, pos, htokens, hwords⟩ :=
            ih hread
          obtain rfl : after = code ++ _ := hsource
          refine ⟨white ++ (c :: letters ++ code), rest, ?_, ?_, hmark, ?_,
            _ :: words, pos, congrArg _ htokens,
            List.forall_mem_cons.mpr ⟨isCode_token htoken, hwords⟩⟩
          · rw [htext]
            simp only [List.append_assoc, List.cons_append]
          · refine .word hwhite ⟨c, letters, value, rfl, htoken⟩ ?_ hends
            rintro rfl
            rw [if_pos rfl] at hopen
            exact closingMark?_eq_none_iff.mp hopen
          · rw [hfinish]
            simp only [Position.after_append]
end Code

end TemplateManifest
