import Mathlib.Data.List.Nodup
import TemplateManifest.Proofs.Asset.Spelling
import TemplateManifest.Proofs.Text.Stretches

/-!
Following a part of the emitted text through the replacement of assets. Each character carries
its origin: whether it belongs to the part that is watched, and which entry has put it there.
Replacing does not look at origins, so the traced text has the characters of the rewritten one.
-/

namespace TemplateManifest

open Text

/-- Where a character of a rewritten text comes from. -/
structure Origin where
  /-- The character belongs to the watched part, or to the rest; nothing if it stands in place
      of characters of both. -/
  watched : Option Bool
  /-- The entry that has put the character there and the place of the character in its lookup;
      nothing for a character of the emitted text. -/
  put : Option (AssetEntry × Nat)
deriving DecidableEq, Repr

/-- A text whose characters carry their origin. -/
abbrev TracedText := List (Char × Origin)

namespace TracedText

/-- The text without the origins. -/
def chars (text : TracedText) : List Char :=
  text.map (·.1)

/-- The part that some characters belong to, if it is one. -/
def part? : TracedText → Option Bool
  | [] => none
  | c :: text => if text.all fun d => d.2.watched = c.2.watched then c.2.watched else none

/-- The characters that do not belong to a part. -/
def except (part : Bool) (text : TracedText) : TracedText :=
  text.filter fun c => c.2.watched ≠ some part

theorem part?_eq_some_iff {text : TracedText} {part : Bool} :
    text.part? = some part ↔ text ≠ [] ∧ ∀ c ∈ text, c.2.watched = some part := by
  cases text with
  | nil => simp [part?]
  | cons c text =>
    simp only [part?, List.all_eq_true, decide_eq_true_eq, ne_eq, reduceCtorEq, not_false_eq_true,
      true_and, List.forall_mem_cons]
    constructor
    · intro h
      split at h
      · next hall => exact ⟨h, fun d hd => (hall d hd).trans h⟩
      · cases h
    · rintro ⟨hc, htext⟩
      rw [if_pos (fun d hd => (htext d hd).trans hc.symm), hc]

@[simp]
theorem part?_singleton (c : Char × Origin) : part? [c] = c.2.watched := by
  simp [part?]

theorem mem_except {part : Bool} {text : TracedText} {c : Char × Origin} :
    c ∈ text.except part ↔ c ∈ text ∧ c.2.watched ≠ some part := by
  simp [except]

theorem except_eq_nil_iff {part : Bool} {text : TracedText} :
    text.except part = [] ↔ ∀ c ∈ text, c.2.watched = some part := by
  simp [except]

end TracedText

namespace AssetEntry

/-- A lookup as the entry puts it in place of characters that belong to a part. -/
def putText (entry : AssetEntry) (part : Option Bool) (lookup : List Char) : TracedText :=
  lookup.zipIdx.map fun (c, i) => (c, ⟨part, some (entry, i)⟩)

/-- The path of the entry at the head of a traced text. -/
def tracedAt? (entry : AssetEntry) (text : TracedText) : Option (TracedText × Nat) :=
  (entry.replacementAt? text.chars).map fun (lookup, length) =>
    (entry.putText (TracedText.part? (text.take length)) lookup, length)

/-- What the entry keeps and what it replaces. -/
def stretches (entry : AssetEntry) (text : TracedText) : List (Stretch (Char × Origin)) :=
  Text.stretches entry.tracedAt? text

/-- The traced text with every occurrence of the entry's path replaced. -/
def trace (entry : AssetEntry) (text : TracedText) : TracedText :=
  substitute entry.tracedAt? text

theorem lookupText_ne_nil (entry : AssetEntry) (values : List String) :
    (entry.lookupText values).toList ≠ [] := by
  simp [lookupText, assetTable]

@[simp]
theorem chars_putText (entry : AssetEntry) (part : Option Bool) (lookup : List Char) :
    (entry.putText part lookup).chars = lookup := by
  simp only [TracedText.chars, putText, List.map_map]
  exact List.zipIdx_map_fst 0 lookup

theorem putText_eq_nil_iff {entry : AssetEntry} {part : Option Bool} {lookup : List Char} :
    entry.putText part lookup = [] ↔ lookup = [] := by
  simp [putText]

/-- A character that the entry has put somewhere. -/
theorem exists_of_mem_putText {entry : AssetEntry} {part : Option Bool} {lookup : List Char}
    {c : Char × Origin} (h : c ∈ entry.putText part lookup) :
    c.2.watched = part ∧ ∃ i, c.2.put = some (entry, i) := by
  obtain ⟨⟨d, i⟩, _, rfl⟩ := List.mem_map.mp h
  exact ⟨rfl, i, rfl⟩

theorem except_putText (entry : AssetEntry) (kept : Option Bool) (part : Bool)
    (lookup : List Char) :
    (entry.putText kept lookup).except part =
      if kept = some part then [] else entry.putText kept lookup := by
  split
  · next heq =>
    rw [TracedText.except_eq_nil_iff]
    exact fun c hc => (exists_of_mem_putText hc).1.trans heq
  · next hne =>
    refine List.filter_eq_self.mpr fun c hc => ?_
    simpa [(exists_of_mem_putText hc).1] using hne

/-- A match of the entry is spelled where it stands, and its lookup takes its place. -/
theorem exists_spells_of_replaced {entry : AssetEntry} {text matched replacement : TracedText}
    (h : .replaced matched replacement ∈ entry.stretches text) :
    ∃ start rest values, text = start ++ matched ++ rest ∧
      entry.reference.Spells rest.chars values matched.chars ∧
      replacement =
        entry.putText matched.part? (entry.lookupText (values.map String.ofList)).toList := by
  obtain ⟨start, tail, length, rfl, hmatch, rfl⟩ := exists_match_of_mem_stretches h
  obtain ⟨⟨lookup, length'⟩, hfound, heq⟩ := Option.map_eq_some_iff.mp hmatch
  obtain ⟨rfl, rfl⟩ := Prod.mk.inj heq
  obtain ⟨values, spelled, rest, htext, hspells, rfl, rfl⟩ := replacementAt?_eq_some_iff.mp hfound
  have hmatched : TracedText.chars (tail.take spelled.length) = spelled := by
    rw [TracedText.chars, List.map_take, ← TracedText.chars, htext, List.take_left]
  have hrest : TracedText.chars (tail.drop spelled.length) = rest := by
    rw [TracedText.chars, List.map_drop, ← TracedText.chars, htext, List.drop_left]
  refine ⟨start, tail.drop spelled.length, values, ?_, ?_, rfl⟩
  · rw [List.append_assoc, List.take_append_drop]
  · rw [hmatched, hrest]
    exact hspells

end AssetEntry

/-- The traced text with the paths of all entries replaced, one entry after the other. -/
def traceAssets (entries : List AssetEntry) (text : TracedText) : TracedText :=
  entries.foldl (fun text entry => entry.trace text) text

/-- The entries before one come first, then that entry, then the others. -/
theorem traceAssets_append_cons (earlier later : List AssetEntry) (entry : AssetEntry)
    (text : TracedText) :
    traceAssets (earlier ++ entry :: later) text =
      traceAssets later (entry.trace (traceAssets earlier text)) := by
  rw [traceAssets, List.foldl_append]
  rfl

theorem AssetEntry.chars_trace (entry : AssetEntry) (text : TracedText) :
    (entry.trace text).chars = entry.replaceAll text.chars := by
  refine map_substitute (fun text => ?_) text
  rw [AssetEntry.tracedAt?]
  cases hfound : entry.replacementAt? (text.map (·.1)) with
  | none => rw [TracedText.chars, hfound]; rfl
  | some found =>
    have hlookup := entry.chars_putText (TracedText.part? (text.take found.2)) found.1
    rw [TracedText.chars, hfound, Option.map_some, Option.map_some]
    exact congrArg (fun lookup => some (lookup, found.2)) hlookup.symm

/-- Tracing gives the characters of the rewritten text. -/
theorem chars_traceAssets (entries : List AssetEntry) (text : TracedText) :
    (traceAssets entries text).chars =
      (replaceAssets entries (String.ofList text.chars)).toList := by
  simp only [replaceAssets, String.toList_ofList]
  induction entries generalizing text with
  | nil => rfl
  | cons entry entries ih =>
    rw [traceAssets, List.foldl_cons, List.foldl_cons, ← entry.chars_trace]
    exact ih (entry.trace text)

namespace AssetEntry

/-- The entry matches nothing but characters of one part. -/
def MatchesOnly (entry : AssetEntry) (part : Bool) (text : TracedText) : Prop :=
  ∀ matched replacement : TracedText, .replaced matched replacement ∈ entry.stretches text →
    matched.part? = some part

/-- What the entry has put in place of characters that are not all of one part is not of that
    part either. -/
theorem exists_put_of_replaced {entry : AssetEntry} {part : Bool}
    {text matched replacement : TracedText}
    (h : .replaced matched replacement ∈ entry.stretches text)
    (hmatched : matched.part? ≠ some part) :
    ∃ c ∈ (entry.trace text).except part, ∃ i, c.2.put = some (entry, i) := by
  obtain ⟨_, _, values, _, _, rfl⟩ := exists_spells_of_replaced h
  obtain ⟨c, hc⟩ := List.exists_mem_of_ne_nil _
    (putText_eq_nil_iff.not.mpr (entry.lookupText_ne_nil (values.map String.ofList)) :
      entry.putText matched.part? _ ≠ [])
  obtain ⟨hwatched, hput⟩ := exists_of_mem_putText hc
  refine ⟨c, TracedText.mem_except.mpr ⟨?_, hwatched ▸ hmatched⟩, hput⟩
  exact List.mem_flatMap.mpr ⟨_, h, hc⟩

/-- An entry that matches something else leaves a character of its own outside the part. -/
theorem exists_put_of_not_matchesOnly {entry : AssetEntry} {part : Bool} {text : TracedText}
    (h : ¬ entry.MatchesOnly part text) :
    ∃ c ∈ (entry.trace text).except part, ∃ i, c.2.put = some (entry, i) := by
  simp only [MatchesOnly, not_forall] at h
  obtain ⟨matched, replacement, hmem, hmatched⟩ := h
  exact exists_put_of_replaced hmem hmatched

/-- A character that has been put outside a part gives way only to another such character. -/
theorem exists_put_of_put (entry : AssetEntry) {author : AssetEntry} {part : Bool}
    {text : TracedText} {c : Char × Origin} {i : Nat} (hc : c ∈ text.except part)
    (hput : c.2.put = some (author, i)) :
    ∃ d ∈ (entry.trace text).except part, ∃ author' j, d.2.put = some (author', j) ∧
      (author' = author ∨ author' = entry) := by
  obtain ⟨hmem, hpart⟩ := TracedText.mem_except.mp hc
  rw [← flatMap_before_stretches entry.tracedAt? text] at hmem
  obtain ⟨stretch, hstretch, hbefore⟩ := List.mem_flatMap.mp hmem
  cases stretch with
  | kept d =>
    obtain rfl := List.mem_singleton.mp hbefore
    refine ⟨c, TracedText.mem_except.mpr ⟨?_, hpart⟩, author, i, hput, .inl rfl⟩
    exact List.mem_flatMap.mpr ⟨.kept c, hstretch, List.mem_singleton_self c⟩
  | replaced matched replacement =>
    have hmatched : TracedText.part? matched ≠ some part := by
      intro heq
      exact hpart ((TracedText.part?_eq_some_iff.mp heq).2 c hbefore)
    obtain ⟨d, hd, j, hj⟩ := exists_put_of_replaced hstretch hmatched
    exact ⟨d, hd, entry, j, hj, .inr rfl⟩

/-- The characters outside a part after the entry, stretch by stretch. -/
theorem except_trace (entry : AssetEntry) (part : Bool) (text : TracedText) :
    (entry.trace text).except part =
      (entry.stretches text).flatMap fun stretch => TracedText.except part stretch.after :=
  List.filter_flatMap

theorem except_eq_flatMap_before (entry : AssetEntry) (part : Bool) (text : TracedText) :
    text.except part =
      (entry.stretches text).flatMap fun stretch => TracedText.except part stretch.before := by
  have hbefore := flatMap_before_stretches entry.tracedAt? text
  calc text.except part
      = TracedText.except part ((entry.stretches text).flatMap Stretch.before) := by
        rw [stretches, hbefore]
    _ = (entry.stretches text).flatMap fun stretch => TracedText.except part stretch.before :=
        List.filter_flatMap

/-- An entry that matches only characters of a part leaves all others as they are. -/
theorem MatchesOnly.except_trace {entry : AssetEntry} {part : Bool} {text : TracedText}
    (h : entry.MatchesOnly part text) : (entry.trace text).except part = text.except part := by
  rw [AssetEntry.except_trace, except_eq_flatMap_before entry part text]
  refine List.flatMap_congr fun stretch hstretch => ?_
  cases stretch with
  | kept c => rfl
  | replaced matched replacement =>
    have hmatched := h matched replacement hstretch
    obtain ⟨_, _, values, _, _, rfl⟩ := exists_spells_of_replaced hstretch
    have hbefore : TracedText.except part matched = [] :=
      TracedText.except_eq_nil_iff.mpr (TracedText.part?_eq_some_iff.mp hmatched).2
    rw [Stretch.after, Stretch.before, hbefore, except_putText, if_pos hmatched]

end AssetEntry

/-- Of some entries, each matches nothing but characters of one part when its turn comes. -/
def MatchOnly (part : Bool) : List AssetEntry → TracedText → Prop
  | [], _ => True
  | entry :: entries, text =>
    entry.MatchesOnly part text ∧ MatchOnly part entries (entry.trace text)

/-- At its turn, an entry finds what the earlier ones have left. -/
theorem matchOnly_iff {part : Bool} {entries : List AssetEntry} {text : TracedText} :
    MatchOnly part entries text ↔
      ∀ earlier entry later, entries = earlier ++ entry :: later →
        entry.MatchesOnly part (traceAssets earlier text) := by
  induction entries generalizing text with
  | nil => simp [MatchOnly]
  | cons first entries ih =>
    rw [MatchOnly, ih]
    constructor
    · rintro ⟨hfirst, hrest⟩ earlier entry later heq
      cases earlier with
      | nil =>
        obtain ⟨rfl, _⟩ := List.cons.inj heq
        exact hfirst
      | cons other earlier =>
        obtain ⟨rfl, htail⟩ := List.cons.inj heq
        exact hrest earlier entry later htail
    · intro h
      refine ⟨h [] first entries rfl, fun earlier entry later heq => ?_⟩
      exact h (first :: earlier) entry later (congrArg (first :: ·) heq)

theorem exists_put_traceAssets (entries : List AssetEntry) {author : AssetEntry} {part : Bool}
    {text : TracedText} {c : Char × Origin} {i : Nat} (hc : c ∈ text.except part)
    (hput : c.2.put = some (author, i)) :
    ∃ d ∈ (traceAssets entries text).except part, ∃ author' j, d.2.put = some (author', j) ∧
      (author' = author ∨ author' ∈ entries) := by
  induction entries generalizing text author c i with
  | nil => exact ⟨c, hc, author, i, hput, .inl rfl⟩
  | cons entry entries ih =>
    obtain ⟨d, hd, author', j, hj, hauthor⟩ := entry.exists_put_of_put hc hput
    obtain ⟨d', hd', author'', j', hj', hauthor'⟩ := ih hd hj
    refine ⟨d', hd', author'', j', hj', ?_⟩
    rcases hauthor' with rfl | hmem
    · rcases hauthor with rfl | rfl
      · exact .inl rfl
      · exact .inr List.mem_cons_self
    · exact .inr (List.mem_cons_of_mem _ hmem)

/-- Entries that match something outside a part leave a character of theirs there. -/
theorem exists_put_of_not_matchOnly {entries : List AssetEntry} {part : Bool} {text : TracedText}
    (h : ¬ MatchOnly part entries text) :
    ∃ d ∈ (traceAssets entries text).except part, ∃ author ∈ entries, ∃ j,
      d.2.put = some (author, j) := by
  induction entries generalizing text with
  | nil => exact absurd trivial h
  | cons entry entries ih =>
    by_cases hentry : entry.MatchesOnly part text
    · obtain ⟨d, hd, author, hauthor, j, hj⟩ := ih fun hrest => h ⟨hentry, hrest⟩
      exact ⟨d, hd, author, List.mem_cons_of_mem _ hauthor, j, hj⟩
    · obtain ⟨c, hc, i, hi⟩ := AssetEntry.exists_put_of_not_matchesOnly hentry
      obtain ⟨d, hd, author, j, hj, hauthor⟩ := exists_put_traceAssets entries hc hi
      refine ⟨d, hd, author, ?_, j, hj⟩
      rcases hauthor with rfl | hmem
      · exact List.mem_cons_self
      · exact List.mem_cons_of_mem _ hmem

theorem MatchOnly.except_traceAssets {entries : List AssetEntry} {part : Bool} {text : TracedText}
    (h : MatchOnly part entries text) :
    (traceAssets entries text).except part = text.except part := by
  induction entries generalizing text with
  | nil => rfl
  | cons entry entries ih => exact (ih h.2).trans h.1.except_trace

/-- Replacing assets leaves all characters outside a part as they are exactly when no entry
    matches any of them at its turn. -/
theorem except_traceAssets_eq_iff {entries : List AssetEntry} {part : Bool} {text : TracedText}
    (hfresh : ∀ c ∈ text, c.2.put = none) :
    (traceAssets entries text).except part = text.except part ↔ MatchOnly part entries text := by
  refine ⟨fun h => ?_, MatchOnly.except_traceAssets⟩
  by_contra hnot
  obtain ⟨d, hd, author, _, j, hj⟩ := exists_put_of_not_matchOnly hnot
  rw [h] at hd
  have hnone := hfresh d (TracedText.mem_except.mp hd).1
  rw [hj] at hnone
  cases hnone

namespace AssetEntry

/-- One match of the entry takes up the watched part of the text as a whole, and the lookup takes
    its place. All other stretches belong to the rest. -/
def TakesWhole (entry : AssetEntry) (lookup : List Char) (text : TracedText) : Prop :=
  ∃ start matched rest, entry.stretches text =
      start ++ .replaced matched (entry.putText (some true) lookup) :: rest ∧
    TracedText.part? matched = some true ∧
    ∀ stretch ∈ start ++ rest, TracedText.part? stretch.before = some false

/-- The first character of what the entry puts somewhere. -/
theorem exists_zero_mem_putText {entry : AssetEntry} {part : Option Bool} {lookup : List Char}
    (h : lookup ≠ []) : ∃ c ∈ entry.putText part lookup, c.2.put = some (entry, 0) := by
  cases lookup with
  | nil => exact absurd rfl h
  | cons c lookup => exact ⟨(c, ⟨part, some (entry, 0)⟩), List.mem_cons_self, rfl⟩

theorem nodup_put_putText (entry : AssetEntry) (part : Option Bool) (lookup : List Char) :
    ((entry.putText part lookup).map (·.2.put)).Nodup := by
  have hput : (entry.putText part lookup).map (·.2.put) =
      (lookup.zipIdx.map (·.2)).map fun i => some (entry, i) := by
    rw [putText, List.map_map, List.map_map]
    rfl
  rw [hput, List.zipIdx_map_snd]
  refine List.Nodup.map (fun i j hij => ?_) List.nodup_range'
  simpa using hij

/-- The stretches of the rest are those that leave nothing in the watched part. -/
theorem except_after_eq_nil_iff {entry : AssetEntry} {text : TracedText}
    {stretch : Stretch (Char × Origin)} (hmem : stretch ∈ entry.stretches text) :
    TracedText.except false stretch.after = [] ↔ TracedText.part? stretch.before = some false := by
  cases stretch with
  | kept c =>
    rw [Stretch.before, Stretch.after, TracedText.part?_singleton, TracedText.except_eq_nil_iff,
      List.forall_mem_singleton]
  | replaced matched replacement =>
    obtain ⟨_, _, values, _, _, rfl⟩ := exists_spells_of_replaced hmem
    rw [Stretch.before, Stretch.after, except_putText]
    split
    · next heq => simp only [heq]
    · next hne => exact iff_of_false (putText_eq_nil_iff.not.mpr (lookupText_ne_nil _ _)) hne

/-- Every piece that is not empty has the key, and the key occurs only once: all the pieces but one
    are empty. -/
theorem eq_nil_of_nodup_flatMap {α β γ : Type} {start rest : List α} {piece : α} {f : α → List β}
    {key : β → γ} {k : γ} (hnodup : (((start ++ piece :: rest).flatMap f).map key).Nodup)
    (hkey : ∀ other ∈ start ++ piece :: rest, f other ≠ [] → ∃ c ∈ f other, key c = k)
    (hpiece : f piece ≠ []) : ∀ other ∈ start ++ rest, f other = [] := by
  rw [List.flatMap_append, List.flatMap_cons, List.map_append, List.map_append, List.nodup_append,
    List.nodup_append] at hnodup
  obtain ⟨_, ⟨_, _, hlater⟩, hearlier⟩ := hnodup
  rw [List.forall_mem_append, List.forall_mem_cons] at hkey
  obtain ⟨hkeyStart, hkeyPiece, hkeyRest⟩ := hkey
  obtain ⟨own, hown, hownKey⟩ := hkeyPiece hpiece
  have hmem {others : List α} {other : α} (hother : other ∈ others) {c : β} (hc : c ∈ f other) :
      key c ∈ (others.flatMap f).map key :=
    List.mem_map_of_mem (List.mem_flatMap.mpr ⟨other, hother, hc⟩)
  rw [List.forall_mem_append]
  refine ⟨fun other hother => ?_, fun other hother => ?_⟩ <;> by_contra hne
  · obtain ⟨c, hc, hcKey⟩ := hkeyStart other hother hne
    exact hearlier _ (hmem hother hc) _ (List.mem_append_left _ (List.mem_map_of_mem hown))
      (hcKey.trans hownKey.symm)
  · obtain ⟨c, hc, hcKey⟩ := hkeyRest other hother hne
    exact hlater _ (List.mem_map_of_mem hown) _ (hmem hother hc) (hownKey.trans hcKey.symm)

/-- If only what the entry has put stands in the watched part, then each stretch that leaves
    something there is a match, and it leaves the whole of its lookup. -/
theorem exists_replaced_of_except_after {entry : AssetEntry} {lookup : List Char} {text : TracedText}
    (hfresh : ∀ c ∈ text, ∀ i, c.2.put ≠ some (entry, i))
    (h : ((entry.stretches text).flatMap fun stretch => TracedText.except false stretch.after) =
      entry.putText (some true) lookup)
    {stretch : Stretch (Char × Origin)} (hstretch : stretch ∈ entry.stretches text)
    (hne : TracedText.except false stretch.after ≠ []) :
    ∃ matched lookup', stretch = .replaced matched (entry.putText (some true) lookup') ∧
      TracedText.part? matched = some true ∧ lookup' ≠ [] := by
  obtain ⟨c, hc⟩ := List.exists_mem_of_ne_nil _ hne
  have hput : c ∈ entry.putText (some true) lookup :=
    h ▸ List.mem_flatMap.mpr ⟨stretch, hstretch, hc⟩
  obtain ⟨hwatched, i, hi⟩ := exists_of_mem_putText hput
  cases stretch with
  | kept d =>
    obtain rfl := List.mem_singleton.mp (TracedText.mem_except.mp hc).1
    have htext : c ∈ text := by
      rw [← flatMap_before_stretches entry.tracedAt? text]
      exact List.mem_flatMap.mpr ⟨_, hstretch, List.mem_singleton_self c⟩
    exact absurd hi (hfresh c htext i)
  | replaced matched replacement =>
    obtain ⟨_, _, values, _, _, rfl⟩ := exists_spells_of_replaced hstretch
    have hpart := (exists_of_mem_putText (TracedText.mem_except.mp hc).1).1
    rw [hwatched] at hpart
    exact ⟨matched, _, by rw [← hpart], hpart.symm, lookupText_ne_nil _ _⟩

/-- The lookup is all that stands in the watched part after the entry exactly when one match has
    taken up the part as a whole. The first character of a lookup stands for a match, and the
    lookup has only one. -/
theorem except_trace_eq_putText_iff {entry : AssetEntry} {lookup : List Char} {text : TracedText}
    (hfresh : ∀ c ∈ text, ∀ i, c.2.put ≠ some (entry, i)) (hlookup : lookup ≠ []) :
    (entry.trace text).except false = entry.putText (some true) lookup ↔
      entry.TakesWhole lookup text := by
  rw [except_trace]
  constructor
  · intro h
    obtain ⟨first, hfirst⟩ := List.exists_mem_of_ne_nil _ (putText_eq_nil_iff.not.mpr hlookup :
      entry.putText (some true) lookup ≠ [])
    rw [← h] at hfirst
    obtain ⟨stretch, hstretch, hmem⟩ := List.mem_flatMap.mp hfirst
    have hne := List.ne_nil_of_mem hmem
    obtain ⟨matched, lookup', rfl, hmatched, -⟩ :=
      exists_replaced_of_except_after hfresh h hstretch hne
    obtain ⟨start, rest, heq⟩ := List.append_of_mem hstretch
    have hzero (other : Stretch (Char × Origin)) (hother : other ∈ entry.stretches text)
        (hne : TracedText.except false other.after ≠ []) :
        ∃ c ∈ TracedText.except false other.after, c.2.put = some (entry, 0) := by
      obtain ⟨_, _, rfl, _, hlookup'⟩ := exists_replaced_of_except_after hfresh h hother hne
      rw [Stretch.after, except_putText, if_neg (by simp)]
      exact exists_zero_mem_putText hlookup'
    have hothers : ∀ other ∈ start ++ rest, TracedText.except false other.after = [] := by
      have hnodup := entry.nodup_put_putText (some true) lookup
      rw [← h, heq] at hnodup
      rw [heq] at hzero
      exact eq_nil_of_nodup_flatMap hnodup hzero hne
    rw [heq, List.flatMap_append, List.flatMap_cons, Stretch.after, except_putText,
      if_neg (by simp)] at h
    obtain ⟨hstart, hrest⟩ := List.forall_mem_append.mp hothers
    rw [List.flatMap_eq_nil_iff.mpr hstart, List.flatMap_eq_nil_iff.mpr hrest, List.nil_append,
      List.append_nil] at h
    refine ⟨start, matched, rest, by rw [heq, h], hmatched, fun other hother => ?_⟩
    have hmem : other ∈ entry.stretches text := by
      rw [heq]
      exact ((List.sublist_cons_self _ _).append_left start).mem hother
    exact (except_after_eq_nil_iff hmem).mp (hothers other hother)
  · rintro ⟨start, matched, rest, heq, hmatched, hothers⟩
    have hnil : ∀ other ∈ start ++ rest, TracedText.except false other.after = [] := by
      intro other hother
      have hmem : other ∈ entry.stretches text := by
        rw [heq]
        exact ((List.sublist_cons_self _ _).append_left start).mem hother
      exact (except_after_eq_nil_iff hmem).mpr (hothers other hother)
    obtain ⟨hstart, hrest⟩ := List.forall_mem_append.mp hnil
    rw [heq, List.flatMap_append, List.flatMap_cons, List.flatMap_eq_nil_iff.mpr hstart,
      List.flatMap_eq_nil_iff.mpr hrest, Stretch.after, except_putText]
    simp

end AssetEntry

/-- A character that has been put into a text was put by the entry, or was there before. -/
theorem AssetEntry.put_of_mem_trace {entry author : AssetEntry} {text : TracedText}
    {c : Char × Origin} {i : Nat} (hc : c ∈ entry.trace text) (hput : c.2.put = some (author, i)) :
    author = entry ∨ c ∈ text := by
  obtain ⟨stretch, hstretch, hafter⟩ := List.mem_flatMap.mp hc
  cases stretch with
  | kept d =>
    right
    obtain rfl := List.mem_singleton.mp hafter
    rw [← flatMap_before_stretches entry.tracedAt? text]
    exact List.mem_flatMap.mpr ⟨_, hstretch, List.mem_singleton_self c⟩
  | replaced matched replacement =>
    left
    obtain ⟨_, _, values, _, _, rfl⟩ := AssetEntry.exists_spells_of_replaced hstretch
    obtain ⟨_, j, hj⟩ := AssetEntry.exists_of_mem_putText hafter
    rw [hput] at hj
    exact (Prod.mk.inj (Option.some.inj hj)).1

theorem put_of_mem_traceAssets {entries : List AssetEntry} {author : AssetEntry}
    {text : TracedText} {c : Char × Origin} {i : Nat} (hc : c ∈ traceAssets entries text)
    (hput : c.2.put = some (author, i)) : author ∈ entries ∨ c ∈ text := by
  induction entries generalizing text with
  | nil => exact .inr hc
  | cons entry entries ih =>
    rcases ih hc with hmem | hmem
    · exact .inl (List.mem_cons_of_mem _ hmem)
    · rcases AssetEntry.put_of_mem_trace hmem hput with rfl | htext
      · exact .inl List.mem_cons_self
      · exact .inr htext

/-- The watched part of a text has become the lookup of an entry, and nothing else has been put in
    place of its characters, exactly when one match of the entry takes up as a whole what the
    earlier entries have left of the part, and no later entry matches any of the lookup. -/
theorem except_traceAssets_eq_putText_iff {earlier later : List AssetEntry} {own : AssetEntry}
    {text : TracedText} {lookup : List Char} (hfresh : ∀ c ∈ text, c.2.put = none)
    (hearlier : own ∉ earlier) (hlater : own ∉ later) (hlookup : lookup ≠ []) :
    (traceAssets (earlier ++ own :: later) text).except false =
        own.putText (some true) lookup ↔
      own.TakesWhole lookup (traceAssets earlier text) ∧
        MatchOnly false later (own.trace (traceAssets earlier text)) := by
  have hown : ∀ c ∈ traceAssets earlier text, ∀ i, c.2.put ≠ some (own, i) := by
    intro c hc i hput
    rcases put_of_mem_traceAssets hc hput with hmem | htext
    · exact hearlier hmem
    · rw [hfresh c htext] at hput
      cases hput
  rw [traceAssets_append_cons, ← AssetEntry.except_trace_eq_putText_iff hown hlookup]
  constructor
  · intro h
    have hmatch : MatchOnly false later (own.trace (traceAssets earlier text)) := by
      by_contra hnot
      obtain ⟨d, hd, author, hauthor, j, hj⟩ := exists_put_of_not_matchOnly hnot
      rw [h] at hd
      obtain ⟨_, i, hi⟩ := AssetEntry.exists_of_mem_putText hd
      rw [hj] at hi
      obtain ⟨rfl, _⟩ := Prod.mk.inj (Option.some.inj hi)
      exact hlater hauthor
    exact ⟨hmatch.except_traceAssets ▸ h, hmatch⟩
  · rintro ⟨htakes, hmatch⟩
    rw [hmatch.except_traceAssets, htakes]

end TemplateManifest
