import TemplateManifest.Proofs.Asset.Origin

/-!
The watched part of a text as one piece. An entry that matches only characters of the rest leaves
the piece where it is, so that a lookup which has taken the place of the part stays whole.
-/

namespace TemplateManifest

open Text

/-- The characters of the watched part stand together, and they are `part`. -/
def TracedText.WatchedIs (text part : TracedText) : Prop :=
  ∃ before after, text = before ++ part ++ after ∧ (∀ c ∈ part, c.2.watched = some true) ∧
    ∀ c ∈ before ++ after, c.2.watched = some false

theorem TracedText.WatchedIs.except {text part : TracedText} (h : text.WatchedIs part) :
    text.except false = part := by
  obtain ⟨before, after, rfl, hpart, hrest⟩ := h
  have hbefore : TracedText.except false before = [] :=
    except_eq_nil_iff.mpr fun c hc => hrest c (List.mem_append_left _ hc)
  have hafter : TracedText.except false after = [] :=
    except_eq_nil_iff.mpr fun c hc => hrest c (List.mem_append_right _ hc)
  have hkept : TracedText.except false part = part :=
    List.filter_eq_self.mpr fun c hc => by simp [hpart c hc]
  calc TracedText.except false (before ++ part ++ after)
      = TracedText.except false before ++ TracedText.except false part ++
          TracedText.except false after := by
        simp only [TracedText.except, List.filter_append]
    _ = part := by rw [hbefore, hafter, hkept, List.nil_append, List.append_nil]

/-- Where the part changes, one stretch ends and the next one starts. -/
theorem exists_split_stretches {stretches : List (Stretch (Char × Origin))}
    {left right : TracedText} {part : Bool}
    (hpart : ∀ s ∈ stretches, ∃ p, TracedText.part? s.before = some p)
    (heq : stretches.flatMap Stretch.before = left ++ right)
    (hleft : ∀ c ∈ left, c.2.watched = some part)
    (hright : ∀ c ∈ right.head?, c.2.watched ≠ some part) :
    ∃ first last, stretches = first ++ last ∧ first.flatMap Stretch.before = left ∧
      last.flatMap Stretch.before = right := by
  induction stretches generalizing left with
  | nil =>
    obtain ⟨rfl, rfl⟩ := List.append_eq_nil_iff.mp heq.symm
    exact ⟨[], [], rfl, rfl, rfl⟩
  | cons s stretches ih =>
    obtain ⟨hs, hstretches⟩ := List.forall_mem_cons.mp hpart
    cases left with
    | nil => exact ⟨[], s :: stretches, rfl, rfl, heq⟩
    | cons c left =>
      obtain ⟨p, hp⟩ := hs
      obtain ⟨hne, hall⟩ := TracedText.part?_eq_some_iff.mp hp
      rw [List.flatMap_cons] at heq
      have hhead : p = part := by
        cases hbefore : s.before with
        | nil => exact absurd hbefore hne
        | cons d before =>
          rw [hbefore, List.cons_append, List.cons_append] at heq
          obtain ⟨rfl, _⟩ := List.cons.inj heq
          have hd := hall d (hbefore ▸ List.mem_cons_self)
          exact Option.some.inj (hd.symm.trans (hleft d List.mem_cons_self))
      have hsplit : ∃ later, c :: left = s.before ++ later ∧
          stretches.flatMap Stretch.before = later ++ right := by
        rcases List.append_eq_append_iff.mp heq with
          ⟨later, hlater, hrest⟩ | ⟨excess, hexcess, hrest⟩
        · exact ⟨later, hlater, hrest⟩
        · cases excess with
          | nil => exact ⟨[], by simpa using hexcess.symm, by simpa using hrest.symm⟩
          | cons d excess =>
            have hd : d.2.watched = some part := by
              rw [← hhead]
              exact hall d (hexcess ▸ List.mem_append_right _ List.mem_cons_self)
            exact absurd hd (hright d (by rw [hrest]; rfl))
      obtain ⟨later, hlater, hrest⟩ := hsplit
      obtain ⟨first, last, rfl, hfirst, hlast⟩ := ih hstretches hrest fun d hd =>
        hleft d (hlater ▸ List.mem_append_right _ hd)
      exact ⟨s :: first, last, rfl, by rw [List.flatMap_cons, hfirst, hlater], hlast⟩

/-- Stretches that make up a text of one part are all of that part. -/
theorem part?_before_of_mem {stretches : List (Stretch (Char × Origin))} {part : Bool}
    (hpart : ∀ s ∈ stretches, ∃ p, TracedText.part? s.before = some p)
    (hall : ∀ c ∈ stretches.flatMap Stretch.before, c.2.watched = some part) :
    ∀ s ∈ stretches, TracedText.part? s.before = some part := by
  intro s hs
  obtain ⟨p, hp⟩ := hpart s hs
  refine TracedText.part?_eq_some_iff.mpr ⟨(TracedText.part?_eq_some_iff.mp hp).1, fun c hc => ?_⟩
  exact hall c (List.mem_flatMap.mpr ⟨s, hs, hc⟩)

namespace AssetEntry

variable {entry : AssetEntry}

/-- Stretches of the rest stay in the rest. -/
theorem watched_of_mem_after {text : TracedText} {stretches : List (Stretch (Char × Origin))}
    (hsub : ∀ s ∈ stretches, s ∈ entry.stretches text)
    (hrest : ∀ s ∈ stretches, TracedText.part? s.before = some false) :
    ∀ c ∈ stretches.flatMap Stretch.after, c.2.watched = some false := by
  intro c hc
  obtain ⟨s, hs, hc⟩ := List.mem_flatMap.mp hc
  exact TracedText.except_eq_nil_iff.mp ((except_after_eq_nil_iff (hsub s hs)).mpr (hrest s hs)) c hc

/-- When one match takes up the part as a whole, its lookup is the part from then on. -/
theorem TakesWhole.watchedIs {lookup : List Char} {text : TracedText}
    (h : entry.TakesWhole lookup text) :
    (entry.trace text).WatchedIs (entry.putText (some true) lookup) := by
  obtain ⟨start, matched, rest, heq, _, hothers⟩ := h
  refine ⟨start.flatMap Stretch.after, rest.flatMap Stretch.after, ?_, ?_, ?_⟩
  · have htrace : entry.trace text = (entry.stretches text).flatMap Stretch.after := rfl
    rw [htrace, heq, List.flatMap_append, List.flatMap_cons, List.append_assoc]
    rfl
  · exact fun c hc => (exists_of_mem_putText hc).1
  · rw [← List.flatMap_append]
    have hsub : ∀ s ∈ start ++ rest, s ∈ entry.stretches text := by
      intro s hs
      rw [heq]
      exact ((List.sublist_cons_self _ _).append_left start).mem hs
    exact watched_of_mem_after hsub hothers

/-- Every stretch is of one part: a match of the rest, and a character that is kept of its own. -/
theorem MatchesOnly.exists_part?_before {text : TracedText} (h : entry.MatchesOnly false text)
    (htext : ∀ c ∈ text, ∃ p, c.2.watched = some p) :
    ∀ s ∈ entry.stretches text, ∃ p, TracedText.part? s.before = some p := by
  intro s hs
  cases s with
  | replaced matched replacement => exact ⟨false, h matched replacement hs⟩
  | kept c =>
    have hc : c ∈ text := by
      rw [← flatMap_before_stretches entry.tracedAt? text]
      exact List.mem_flatMap.mpr ⟨_, hs, List.mem_singleton_self c⟩
    rw [Stretch.before, TracedText.part?_singleton]
    exact htext c hc

/-- An entry that matches only characters of the rest leaves the part as it is. -/
theorem MatchesOnly.watchedIs {text part : TracedText} (h : entry.MatchesOnly false text)
    (hne : part ≠ []) (hwatched : text.WatchedIs part) : (entry.trace text).WatchedIs part := by
  obtain ⟨before, after, htext, hpart, hrest⟩ := hwatched
  have hhomogeneous : ∀ s ∈ entry.stretches text, ∃ p, TracedText.part? s.before = some p := by
    refine h.exists_part?_before fun c hc => ?_
    rw [htext, List.append_assoc, List.mem_append, List.mem_append] at hc
    rcases hc with hc | hc | hc
    · exact ⟨false, hrest c (List.mem_append_left _ hc)⟩
    · exact ⟨true, hpart c hc⟩
    · exact ⟨false, hrest c (List.mem_append_right _ hc)⟩
  have hwhole : (entry.stretches text).flatMap Stretch.before = before ++ (part ++ after) := by
    rw [← List.append_assoc, ← htext]
    exact flatMap_before_stretches entry.tracedAt? text
  have hbeforeRest : ∀ c ∈ before, c.2.watched = some false :=
    fun c hc => hrest c (List.mem_append_left _ hc)
  have hafterRest : ∀ c ∈ after, c.2.watched = some false :=
    fun c hc => hrest c (List.mem_append_right _ hc)
  have hpartHead : ∀ c ∈ (part ++ after).head?, c.2.watched ≠ some false := by
    intro c hc
    rw [List.head?_append_of_ne_nil _ hne] at hc
    simp [hpart c (List.mem_of_mem_head? hc)]
  have hafterHead : ∀ c ∈ after.head?, c.2.watched ≠ some true := by
    intro c hc
    simp [hafterRest c (List.mem_of_mem_head? hc)]
  obtain ⟨first, later, heq, hfirst, hlater⟩ :=
    exists_split_stretches hhomogeneous hwhole hbeforeRest hpartHead
  have hhomogeneousLater : ∀ s ∈ later, ∃ p, TracedText.part? s.before = some p :=
    fun s hs => hhomogeneous s (heq ▸ List.mem_append_right _ hs)
  obtain ⟨middle, last, rfl, hmiddle, hlast⟩ :=
    exists_split_stretches hhomogeneousLater hlater hpart hafterHead
  have hstretches : ∀ s ∈ first ++ (middle ++ last), s ∈ entry.stretches text := by
    intro s hs
    rwa [heq]
  have hmiddleKept : middle.flatMap Stretch.after = part := by
    rw [← hmiddle]
    refine List.flatMap_congr fun s hs => ?_
    have hs' : s ∈ middle ++ last := List.mem_append_left _ hs
    have htrue := part?_before_of_mem (fun s hs => hhomogeneousLater s (List.mem_append_left _ hs))
      (hmiddle ▸ hpart) s hs
    cases s with
    | kept c => rfl
    | replaced matched replacement =>
      have hfalse := h matched replacement (hstretches _ (List.mem_append_right _ hs'))
      rw [Stretch.before, hfalse] at htrue
      cases htrue
  have houter : ∀ s ∈ first ++ last, s ∈ entry.stretches text ∧
      TracedText.part? s.before = some false := by
    intro s hs
    rcases List.mem_append.mp hs with hs | hs
    · have hmem := hstretches s (List.mem_append_left _ hs)
      refine ⟨hmem, part?_before_of_mem (fun s hs => hhomogeneous s ?_) (hfirst ▸ hbeforeRest) s hs⟩
      exact hstretches s (List.mem_append_left _ hs)
    · have hmem := List.mem_append_right middle hs
      refine ⟨hstretches s (List.mem_append_right _ hmem), ?_⟩
      exact part?_before_of_mem (fun s hs => hhomogeneousLater s (List.mem_append_right _ hs))
        (hlast ▸ hafterRest) s hs
  refine ⟨first.flatMap Stretch.after, last.flatMap Stretch.after, ?_, hpart, ?_⟩
  · have htrace : entry.trace text = (entry.stretches text).flatMap Stretch.after := rfl
    rw [htrace, heq, List.flatMap_append, List.flatMap_append, hmiddleKept, List.append_assoc]
  · rw [← List.flatMap_append]
    exact watched_of_mem_after (fun s hs => (houter s hs).1) fun s hs => (houter s hs).2

end AssetEntry

theorem MatchOnly.watchedIs {entries : List AssetEntry} {text part : TracedText}
    (h : MatchOnly false entries text) (hne : part ≠ []) (hwatched : text.WatchedIs part) :
    (traceAssets entries text).WatchedIs part := by
  induction entries generalizing text with
  | nil => exact hwatched
  | cons entry entries ih => exact ih h.2 (h.1.watchedIs hne hwatched)

/-- The watched part of a text has become the lookup of an entry exactly when one match of the
    entry takes up as a whole what the earlier entries have left of the part, and no later entry
    matches any of the lookup. -/
theorem watchedIs_traceAssets_iff {earlier later : List AssetEntry} {own : AssetEntry}
    {text : TracedText} {lookup : List Char} (hfresh : ∀ c ∈ text, c.2.put = none)
    (hearlier : own ∉ earlier) (hlater : own ∉ later) (hlookup : lookup ≠ []) :
    (traceAssets (earlier ++ own :: later) text).WatchedIs (own.putText (some true) lookup) ↔
      own.TakesWhole lookup (traceAssets earlier text) ∧
        MatchOnly false later (own.trace (traceAssets earlier text)) := by
  constructor
  · intro h
    exact (except_traceAssets_eq_putText_iff hfresh hearlier hlater hlookup).mp h.except
  · rintro ⟨htakes, hmatch⟩
    rw [traceAssets_append_cons]
    exact hmatch.watchedIs (AssetEntry.putText_eq_nil_iff.not.mpr hlookup) htakes.watchedIs

end TemplateManifest
