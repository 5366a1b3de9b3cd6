import TemplateManifest.Proofs.Steps
import TemplateManifest.Proofs.Template.ByteLexer
import TemplateManifest.Proofs.Template.Shown

/-!
What the steps of the scan in bytes do where some of a source has been passed: they take slices of
whole characters, and find the openings and the visible text that the reading in characters finds.
-/

namespace TemplateManifest

open Text

namespace ByteLexer

/-- The state of a scan that has passed some of a source. -/
def stateAt (passed : List Char) (strip : Bool) (tokens : List Token) : State :=
  ⟨byteLength passed, Position.first.after passed, strip, tokens⟩

section Slices

variable {text before inside after closer white rest : List Char} {lo hi : Nat} {s : State}

theorem slice_eq (before after : List Char) (htext : text = before ++ (inside ++ after))
    (hlo : lo = byteLength before) (hhi : hi = byteLength before + byteLength inside) :
    slice text lo hi s = .ok inside s := by
  rw [slice, slice?_eq_some_iff.mpr ⟨before, after, htext, hlo, hhi⟩]
  rfl

theorem sliceFrom_eq (before : List Char) (htext : text = before ++ rest) (hlo : lo = byteLength before) :
    sliceFrom text lo s = .ok rest s :=
  slice_eq before [] (by rw [htext, List.append_nil]) hlo (by rw [htext, byteLength_append])

theorem trimStart_append (h : IsLead isWhiteSpace white rest) : trimStart (white ++ rest) = rest := by
  have hall := List.takeWhile_append_dropWhile (p := isWhiteSpace) (l := white ++ rest)
  rw [h.takeWhile_eq, List.append_cancel_left_eq] at hall
  exact hall

theorem whiteLength_eq (h : IsLead isWhiteSpace white rest) :
    whiteLength (white ++ rest) = byteLength white := by
  rw [whiteLength, trimStart_append h, byteLength_append, Nat.add_sub_cancel]

theorem closesStripped_eq :
    closesStripped closer text s = .ok (startsWith ('-' :: closer) text) s := by
  rw [closesStripped]
  by_cases hdash : startsWith ['-'] text = true
  · obtain ⟨next, rfl⟩ := startsWith_iff.mp hdash
    have hnext : sliceFrom (['-'] ++ next) 1 s = .ok next s := sliceFrom_eq ['-'] rfl rfl
    rw [if_pos hdash, bind_of_ok hnext]
    rfl
  · have hcloses : startsWith ('-' :: closer) text = false := by
      rw [← Bool.not_eq_true, startsWith_iff]
      rintro ⟨next, rfl⟩
      exact hdash (startsWith_iff.mpr ⟨closer ++ next, rfl⟩)
    rw [if_neg hdash, hcloses]
    rfl

theorem closing?_eq :
    closing? closer text s = .ok ((Code.closingMark? closer text).map Prod.fst) s := by
  rw [closing?, bind_of_ok closesStripped_eq, Code.closingMark?]
  cases startsWith ('-' :: closer) text <;> cases startsWith closer text <;> rfl

/-- The bytes of a closing mark that may have a `-` before it. -/
theorem byteLength_dash (closed : Bool) :
    byteLength (dash closed ++ closer) = byteLength closer + if closed then 1 else 0 := by
  rw [byteLength_append, Nat.add_comm]
  cases closed <;> rfl

end Slices

section Steps

variable {options : LanguageOptions} {source passed more left : List Char} {strip : Bool}
  {tokens : List Token} {count : Nat}

theorem rest_stateAt (hsource : source = passed ++ left) :
    rest source (stateAt passed strip tokens) = .ok left (stateAt passed strip tokens) :=
  sliceFrom_eq passed hsource rfl

theorem get_bind {α : Type} {next : State → Scan α} {s : State} : (get >>= next) s = next s s := rfl

theorem place_stateAt : (stateAt passed strip tokens).place = Position.first.after passed := rfl

theorem push_stateAt {token : Token} :
    push token (stateAt passed strip tokens) = .ok () (stateAt passed strip (tokens ++ [token])) := rfl

theorem setStripNext_stateAt {strip' : Bool} :
    setStripNext strip' (stateAt passed strip tokens) = .ok () (stateAt passed strip' tokens) := rfl

theorem bump_stateAt (hsource : source = passed ++ (more ++ left))
    (hcount : count = byteLength more) :
    bump source count (stateAt passed strip tokens) = .ok () (stateAt (passed ++ more) strip tokens) := by
  have hslice : slice source (byteLength passed) (byteLength passed + count)
      (stateAt passed strip tokens) = .ok more (stateAt passed strip tokens) :=
    slice_eq passed left hsource rfl (by rw [hcount])
  have hmoved : stateAt (passed ++ more) strip tokens =
      ⟨byteLength passed + count, (Position.first.after passed).after more, strip, tokens⟩ := by
    rw [stateAt, byteLength_append, Position.after_append, hcount]
  rw [hmoved]
  change (slice source (byteLength passed) (byteLength passed + count) >>= _) _ = _
  rw [bind_of_ok hslice]
  rfl

theorem skipTrimmedNewline_stateAt (hsource : source = passed ++ left) :
    skipTrimmedNewline options source (stateAt passed strip tokens) =
      .ok () (stateAt
        (passed ++ if options.trimBlocks then Segment.leadingLineBreak left else []) strip tokens) := by
  rw [skipTrimmedNewline]
  split
  · rw [bind_of_ok (rest_stateAt hsource)]
    by_cases hpair : startsWith ['\r', '\n'] left = true
    · obtain ⟨more, rfl⟩ := startsWith_iff.mp hpair
      rw [if_pos hpair]
      exact bump_stateAt hsource rfl
    · rw [if_neg hpair]
      by_cases hfeed : startsWith ['\n'] left = true
      · obtain ⟨more, rfl⟩ := startsWith_iff.mp hfeed
        rw [if_pos hfeed]
        exact bump_stateAt hsource rfl
      · have hnone : Segment.leadingLineBreak left = [] := by
          unfold Segment.leadingLineBreak
          split
          · next more => exact absurd (startsWith_iff.mpr ⟨more, rfl⟩) hpair
          · next more => exact absurd (startsWith_iff.mpr ⟨more, rfl⟩) hfeed
          · rfl
        rw [if_neg hfeed, hnone, List.append_nil]
        rfl
  · rw [List.append_nil]
    rfl

end Steps

section Openings

variable {d : Delimiters} {needle data left : List Char}

/-- Where something cannot stand it is not found. -/
theorem breakOn_append
    (h : ∀ before more, data = before ++ more → more ≠ [] → ¬ needle <+: more ++ left) :
    breakOn needle (data ++ left) =
      (breakOn needle left).map fun parts => (data ++ parts.1, parts.2) := by
  induction data with
  | nil => simp
  | cons c data ih =>
    have hnone : after? needle (c :: data ++ left) = none := by
      rw [Option.eq_none_iff_forall_ne_some]
      intro rest hrest
      exact h [] (c :: data) rfl (List.cons_ne_nil c data)
        ⟨rest, (after?_eq_some_iff.mp hrest).symm⟩
    have hdata := ih fun before more hsplit => h (c :: before) more (by rw [hsplit, List.cons_append])
    rw [List.cons_append] at hnone ⊢
    rw [breakOn, hnone, hdata]
    cases breakOn needle left <;> rfl

theorem findBytes?_append
    (h : ∀ before more, data = before ++ more → more ≠ [] → ¬ needle <+: more ++ left) :
    findBytes? needle (data ++ left) = (findBytes? needle left).map (byteLength data + ·) := by
  rw [findBytes?, breakOn_append h, findBytes?]
  cases breakOn needle left with
  | none => rfl
  | some parts => exact congrArg some byteLength_append

theorem mem_of_preferred? {a : Opening} {found : List Opening} (h : preferred? found = some a) :
    a ∈ found := by
  induction found generalizing a with
  | nil => cases h
  | cons b found ih =>
    rw [preferred?] at h
    split at h
    · cases h
      exact List.mem_cons_self
    · next c hc =>
      split at h
      · cases h
        exact List.mem_cons_of_mem b (ih hc)
      · cases h
        exact List.mem_cons_self

/-- An opening that precedes all others is preferred. -/
theorem preferred?_eq_some {a : Opening} {found : List Opening} (hmem : a ∈ found)
    (hall : ∀ b ∈ found, b = a ∨ a.Precedes b) : preferred? found = some a := by
  have hasymm {b : Opening} (hb : b = a ∨ a.Precedes b) : ¬ b.Precedes a := by
    unfold Opening.Precedes at hb ⊢
    rcases hb with rfl | hb <;> omega
  induction found with
  | nil => cases hmem
  | cons b found ih =>
    obtain ⟨hb, hfound⟩ := List.forall_mem_cons.mp hall
    rw [preferred?]
    rcases List.mem_cons.mp hmem with rfl | hmem
    · split
      · rfl
      · next c hc => rw [if_neg (hasymm (hfound c (mem_of_preferred? hc)))]
    · rw [ih hmem hfound]
      dsimp only
      split
      · rfl
      · next hnot => rw [hb.resolve_right hnot]

/-- Openings after some text without one. -/
theorem openings_append
    (h : ∀ before more, data = before ++ more → more ≠ [] →
      ∀ kind, ¬ (d.opener kind).toList <+: more ++ left) :
    openings d (data ++ left) =
      (openings d left).map fun a => { a with offset := byteLength data + a.offset } := by
  rw [openings, openings, List.map_filterMap]
  congr 1
  funext kind
  dsimp only
  rw [findBytes?_append fun before more hsplit hne => h before more hsplit hne kind]
  cases findBytes? (d.opener kind).toList left <;> rfl

theorem preferred?_map (offset : Nat) (found : List Opening) :
    preferred? (found.map fun a => { a with offset := offset + a.offset }) =
      (preferred? found).map fun a => { a with offset := offset + a.offset } := by
  have hprecedes (a b : Opening) :
      Opening.Precedes { a with offset := offset + a.offset } { b with offset := offset + b.offset } ↔
        a.Precedes b := by
    unfold Opening.Precedes
    dsimp only
    omega
  induction found with
  | nil => rfl
  | cons a found ih =>
    rw [List.map_cons, preferred?, preferred?, ih]
    cases preferred? found with
    | none => rfl
    | some b =>
      simp only [Option.map_some, hprecedes]
      split <;> rfl

theorem opener_injective (hvalid : d.Valid) {kind kind' : TagKind}
    (h : d.opener kind = d.opener kind') : kind = kind' := by
  unfold Delimiters.Valid Delimiters.fault? at hvalid
  split at hvalid
  · cases hvalid
  · split at hvalid
    · cases hvalid
    · next hdistinct =>
      simp only [not_or] at hdistinct
      obtain ⟨hblock, hcomment, hvariable⟩ := hdistinct
      cases kind <;> cases kind' <;> first
        | rfl
        | exact absurd h hblock
        | exact absurd h hcomment
        | exact absurd h hvariable
        | exact absurd h.symm hblock
        | exact absurd h.symm hcomment
        | exact absurd h.symm hvariable

theorem preferred?_of_opens (hvalid : d.Valid) {kind : TagKind} (h : d.Opens kind left) :
    preferred? (openings d left) = some ⟨0, byteLength (d.opener kind).toList, kind⟩ := by
  have hfound {other : TagKind} {offset : Nat}
      (hother : findBytes? (d.opener other).toList left = some offset) :
      offset = 0 → (d.opener other).toList <+: left := by
    rintro rfl
    obtain ⟨⟨before, after⟩, hbreak, hoffset⟩ := Option.map_eq_some_iff.mp hother
    have hbefore : before = [] := by
      by_contra hne
      exact Nat.ne_of_gt (byteLength_pos hne) hoffset
    rw [eq_append_of_breakOn hbreak, hbefore, List.nil_append]
    exact List.prefix_append _ _
  have hhere : findBytes? (d.opener kind).toList left = some 0 := by
    obtain ⟨after, hafter⟩ := h.head
    have hbreak : breakOn (d.opener kind).toList left = some ([], after) := by
      unfold breakOn
      rw [after?_eq_some_iff.mpr hafter.symm]
    rw [findBytes?, hbreak]
    rfl
  refine preferred?_eq_some (List.mem_filterMap.mpr ⟨kind, by cases kind <;> decide, ?_⟩) fun b hb => ?_
  · dsimp only
    rw [hhere]
    rfl
  · obtain ⟨other, -, hother⟩ := List.mem_filterMap.mp hb
    obtain ⟨offset, hoffset, rfl⟩ := Option.map_eq_some_iff.mp hother
    by_cases hkind : other = kind
    · subst hkind
      obtain rfl := Option.some.inj (hhere.symm.trans hoffset)
      exact .inl rfl
    · right
      by_cases hzero : offset = 0
      · -- Of two marks at one place the shorter one is the start of the longer one.
        have hprefix := List.prefix_of_prefix_length_le (hfound hoffset hzero) h.head (by
          rw [String.length_toList, String.length_toList]
          exact h.longest other (hfound hoffset hzero))
        obtain ⟨more, hmore⟩ := hprefix
        have hne : more ≠ [] := by
          rintro rfl
          rw [List.append_nil] at hmore
          exact hkind (opener_injective hvalid (String.toList_inj.mp hmore))
        refine .inr ⟨hzero.symm, ?_⟩
        rw [← hmore, byteLength_append]
        exact Nat.lt_add_of_pos_right (byteLength_pos hne)
      · exact .inl (Nat.pos_of_ne_zero hzero)

theorem openings_nil (hvalid : d.Valid) : openings d [] = [] := by
  rw [openings, List.filterMap_eq_nil_iff]
  intro kind _
  have hnone : findBytes? (d.opener kind).toList [] = none := by
    obtain ⟨c, opener, hopener⟩ := List.exists_cons_of_ne_nil (hvalid.toList_opener_ne_nil kind)
    rw [hopener]
    rfl
  dsimp only
  rw [hnone]
  rfl

variable {options : LanguageOptions} {source passed : List Char} {strip : Bool} {tokens : List Token}

/-- The next tag opens where the text without any opening ends. -/
theorem nextTag_stateAt (hvalid : options.delimiters.Valid) (hsource : source = passed ++ (data ++ left))
    (hdata : ∀ before more, data = before ++ more → more ≠ [] →
      ∀ kind, ¬ (options.delimiters.opener kind).toList <+: more ++ left)
    (hleft : left = [] ∨ ∃ kind, Segment.openerAt? options.delimiters left = some kind) :
    nextTag options source (stateAt passed strip tokens) =
      .ok ((Segment.openerAt? options.delimiters left).map fun kind =>
        (byteLength (passed ++ data), kind)) (stateAt passed strip tokens) := by
  change (rest source >>= _) (stateAt passed strip tokens) = _
  rw [bind_of_ok (rest_stateAt hsource), openings_append hdata, preferred?_map]
  rcases hleft with rfl | ⟨kind, hkind⟩
  · have hnone : Segment.openerAt? options.delimiters [] = none := by
      refine Segment.openerAt?_eq_none_iff.mpr fun kind hkind => ?_
      exact hvalid.toList_opener_ne_nil kind (List.prefix_nil.mp hkind)
    rw [openings_nil hvalid, hnone]
    rfl
  · rw [preferred?_of_opens hvalid (Segment.opens_of_openerAt? hkind), hkind, byteLength_append]
    rfl

end Openings

end ByteLexer

end TemplateManifest
