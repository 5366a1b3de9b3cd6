import Mathlib.Data.List.Forall2
import TemplateManifest.Proofs.Resolve.Time
import TemplateManifest.Resolve.Join

/-!
Several lookups at once, and how far one that finds nothing ends the whole call at once. Up to
`joinLimit` lookups it always does. A longer list is awaited in order, and there it depends on
the lookups before it.
-/

namespace TemplateManifest

namespace Lookup

/-- No candidate of the lookup exists, and the last of them has answered at the time. -/
def MissingAt (probe : Probe) (l : Lookup) (time : Nat) : Prop :=
  (∀ path ∈ l.candidates, ∃ delay, probe path = .after delay false) ∧
    time = latest (l.candidates.map probe)

/-- The path is the best candidate that exists, and at the time the last answer is in that it
    takes to know this. -/
def FoundAt (probe : Probe) (l : Lookup) (path : Path) (time : Nat) : Prop :=
  ∃ before after, l.candidates = before ++ path :: after ∧
    (∀ better ∈ before, ∃ delay, probe better = .after delay false) ∧
    (∃ delay, probe path = .after delay true) ∧
    time = latest ((before ++ [path]).map probe)

theorem outcome_eq_some_iff {answer : Answer} {present : Bool} :
    answer.outcome = some present ↔ ∃ delay, answer = .after delay present := by
  cases answer <;> simp [Answer.outcome]

theorem settled_eq_missing_iff {probe : Probe} {l : Lookup} {time : Nat} :
    l.settled probe = .missing time ↔ l.MissingAt probe time := by
  rw [settled, settle_eq_missing_iff, MissingAt]
  refine and_congr_left fun _ => ?_
  simp only [Answers.AllMissing, List.length_map, List.getElem?_map, Option.map_map,
    Option.map_eq_some_iff, Function.comp_apply, outcome_eq_some_iff]
  constructor
  · intro hall path hpath
    obtain ⟨i, hi⟩ := List.mem_iff_getElem?.mp hpath
    obtain ⟨path', hget, hmissing⟩ := hall i (List.getElem?_eq_some_iff.mp hi).1
    rw [hi] at hget
    rwa [Option.some.inj hget]
  · intro hall i hi
    exact ⟨l.candidates[i], List.getElem?_eq_getElem hi, hall _ (List.getElem_mem hi)⟩

theorem foundAt_iff_settled {probe : Probe} {l : Lookup} {path : Path} {time : Nat} :
    l.FoundAt probe path time ↔
      ∃ index, l.settled probe = .found index time ∧ l.candidates[index]? = some path := by
  simp only [settled, settle_eq_found_iff, Answers.FirstPresent, List.getElem?_map,
    Option.map_map, Option.map_eq_some_iff, Function.comp_apply, outcome_eq_some_iff]
  constructor
  · rintro ⟨before, after, heq, hbefore, hpath, rfl⟩
    refine ⟨before.length, ⟨⟨⟨path, by simp [heq], hpath⟩, fun i hi => ?_⟩, ?_⟩, by simp [heq]⟩
    · refine ⟨before[i], ?_, hbefore _ (List.getElem_mem hi)⟩
      rw [heq, List.getElem?_append_left hi, List.getElem?_eq_getElem hi]
    · rw [← List.map_take, heq, List.append_cons before path after,
        List.take_left' (by simp)]
  · rintro ⟨index, ⟨⟨⟨path', hpath', hpresent⟩, hbefore⟩, rfl⟩, hpath⟩
    rw [hpath] at hpath'
    obtain rfl := Option.some.inj hpath'
    obtain ⟨hindex, hget⟩ := List.getElem?_eq_some_iff.mp hpath
    refine ⟨l.candidates.take index, l.candidates.drop (index + 1), ?_, fun better hbetter => ?_,
      hpresent, ?_⟩
    · rw [← hget, ← List.drop_eq_getElem_cons hindex, List.take_append_drop]
    · obtain ⟨i, hi⟩ := List.mem_iff_getElem?.mp hbetter
      have hlt : i < index :=
        Nat.lt_of_lt_of_le (List.getElem?_eq_some_iff.mp hi).1 (List.length_take_le _ _)
      rw [List.getElem?_take_of_lt hlt] at hi
      obtain ⟨better', hget', hmissing⟩ := hbefore i hlt
      rw [hi] at hget'
      rwa [Option.some.inj hget']
    · rw [← hget, List.take_append_getElem hindex, List.map_take]

theorem FoundAt.not_missingAt {probe : Probe} {l : Lookup} {path : Path} {time other : Nat}
    (h : l.FoundAt probe path time) : ¬ l.MissingAt probe other := by
  obtain ⟨index, hsettled, _⟩ := foundAt_iff_settled.mp h
  rw [← settled_eq_missing_iff, hsettled]
  simp

theorem MissingAt.unique {probe : Probe} {l : Lookup} {time other : Nat}
    (h : l.MissingAt probe time) (h' : l.MissingAt probe other) : time = other :=
  h.2.trans h'.2.symm

/-- A lookup that ends by finding gives the path that it finds. -/
theorem resolution_eq_found_iff {probe : Probe} {l : Lookup} {path : Path} :
    l.resolution (l.settled probe) = .found path ↔ ∃ time, l.FoundAt probe path time := by
  constructor
  · intro h
    cases hsettled : l.settled probe with
    | missing time => simp [hsettled, resolution] at h
    | never => simp [hsettled, resolution] at h
    | found index time =>
      have hfirst := (settle_eq_found_iff.mp hsettled).1
      have hinside : index < l.candidates.length := by simpa using hfirst.lt_length
      refine ⟨time, foundAt_iff_settled.mpr ⟨index, hsettled, ?_⟩⟩
      rw [hsettled, resolution, Resolution.found.injEq, List.getD_eq_getElem?_getD,
        List.getElem?_eq_getElem hinside] at h
      rw [List.getElem?_eq_getElem hinside]
      exact congrArg some h
  · rintro ⟨time, hfound⟩
    obtain ⟨index, hsettled, hpath⟩ := foundAt_iff_settled.mp hfound
    simp [hsettled, resolution, List.getD_eq_getElem?_getD, hpath]

theorem resolution_eq_missing_iff {probe : Probe} {l : Lookup} {searched : List Path} :
    l.resolution (l.settled probe) = .missing searched ↔
      (∃ time, l.MissingAt probe time) ∧ searched = l.candidates := by
  simp only [← settled_eq_missing_iff]
  cases l.settled probe <;> simp [resolution, eq_comm]

/-- The lookup of a list whose failure is known first, and when; of two at the same time the
    earlier one. -/
def FirstMissing (probe : Probe) (lookups : List Lookup) (l : Lookup) (time : Nat) : Prop :=
  ∃ before after, lookups = before ++ l :: after ∧ l.MissingAt probe time ∧
    (∀ earlier ∈ before, ∀ other, earlier.MissingAt probe other → time < other) ∧
    ∀ later ∈ after, ∀ other, later.MissingAt probe other → time ≤ other

theorem FirstMissing.le {probe : Probe} {lookups : List Lookup} {l x : Lookup}
    {time other : Nat} (h : FirstMissing probe lookups l time) (hx : x ∈ lookups)
    (hmissing : x.MissingAt probe other) : time ≤ other := by
  obtain ⟨before, after, rfl, hl, hbefore, hafter⟩ := h
  rcases List.mem_append.mp hx with hx | hx
  · exact Nat.le_of_lt (hbefore x hx other hmissing)
  · rcases List.mem_cons.mp hx with rfl | hx
    · exact Nat.le_of_eq (hl.unique hmissing)
    · exact hafter x hx other hmissing

theorem firstMissing?_eq_none_iff {probe : Probe} {lookups : List Lookup} :
    firstMissing? probe lookups = none ↔
      ∀ l ∈ lookups, ∀ time, ¬ l.MissingAt probe time := by
  induction lookups with
  | nil => simp [firstMissing?]
  | cons l lookups ih =>
    rw [List.forall_mem_cons, ← ih]
    simp only [← settled_eq_missing_iff]
    rw [firstMissing?]
    split
    · next hl hrest => split <;> simp [hl]
    · next hl hrest => simp [hl]
    · next hboth hfirst =>
      constructor
      · intro hnone
        refine ⟨fun time hl => ?_, hnone⟩
        exact hfirst time hl hnone
      · exact fun h => h.2

theorem firstMissing?_eq_some {probe : Probe} {lookups : List Lookup} {l : Lookup} {time : Nat}
    (h : firstMissing? probe lookups = some (time, l)) : FirstMissing probe lookups l time := by
  induction lookups generalizing l time with
  | nil => simp [firstMissing?] at h
  | cons x lookups ih =>
    have hlater (hrest : firstMissing? probe lookups = some (time, l))
        (hx : ∀ other, x.MissingAt probe other → time < other) :
        FirstMissing probe (x :: lookups) l time := by
      obtain ⟨before, after, rfl, hl, hbefore, hafter⟩ := ih hrest
      exact ⟨x :: before, after, rfl, hl, List.forall_mem_cons.mpr ⟨hx, hbefore⟩, hafter⟩
    unfold firstMissing? at h
    split at h
    · next t t' l' hx hrest =>
      rw [settled_eq_missing_iff] at hx
      split at h
      · next hlt =>
        obtain ⟨rfl, rfl⟩ : t' = time ∧ l' = l := by simpa using h
        refine hlater hrest fun other hother => ?_
        rwa [← hx.unique hother]
      · next hge =>
        obtain ⟨rfl, rfl⟩ : t = time ∧ x = l := by simpa using h
        refine ⟨[], lookups, rfl, hx, by simp, fun y hy other hother => ?_⟩
        have hle := (ih hrest).le hy hother
        omega
    · next t hx hrest =>
      obtain ⟨rfl, rfl⟩ : t = time ∧ x = l := by simpa using h
      refine ⟨[], lookups, rfl, settled_eq_missing_iff.mp hx, by simp, fun y hy other hother => ?_⟩
      exact absurd hother (firstMissing?_eq_none_iff.mp hrest y hy other)
    · next hboth hfirst =>
      refine hlater h fun other hother => ?_
      rw [← settled_eq_missing_iff] at hother
      exact absurd h (hboth other time l hother)

theorem FirstMissing.mem {probe : Probe} {lookups : List Lookup} {l : Lookup} {time : Nat}
    (h : FirstMissing probe lookups l time) : l ∈ lookups ∧ l.MissingAt probe time := by
  obtain ⟨before, after, rfl, hl, _⟩ := h
  exact ⟨by simp, hl⟩

theorem FirstMissing.unique {probe : Probe} {lookups : List Lookup} {l l' : Lookup}
    {time time' : Nat} (h : FirstMissing probe lookups l time)
    (h' : FirstMissing probe lookups l' time') : time = time' ∧ l = l' := by
  have htime : time = time' :=
    Nat.le_antisymm (h.le h'.mem.1 h'.mem.2) (h'.le h.mem.1 h.mem.2)
  refine ⟨htime, ?_⟩
  -- Neither of the two can stand before the other, since it would have to fail later.
  obtain ⟨before, after, heq, hl, hbefore, _⟩ := h
  obtain ⟨before', after', heq', hl', hbefore', _⟩ := h'
  rw [heq, List.append_eq_append_iff] at heq'
  rcases heq' with ⟨middle, rfl, hmiddle⟩ | ⟨middle, rfl, hmiddle⟩
  · cases middle with
    | nil => exact (List.cons.inj hmiddle).1
    | cons x middle =>
      have hlt := hbefore' l (by simp [(List.cons.inj hmiddle).1]) time hl
      omega
  · cases middle with
    | nil => exact (List.cons.inj hmiddle).1.symm
    | cons x middle =>
      have hlt := hbefore l' (by simp [(List.cons.inj hmiddle).1]) time' hl'
      omega

theorem firstMissing?_eq_some_iff {probe : Probe} {lookups : List Lookup} {l : Lookup}
    {time : Nat} :
    firstMissing? probe lookups = some (time, l) ↔ FirstMissing probe lookups l time := by
  refine ⟨firstMissing?_eq_some, fun h => ?_⟩
  cases hfirst : firstMissing? probe lookups with
  | none => exact absurd h.mem.2 (firstMissing?_eq_none_iff.mp hfirst l h.mem.1 time)
  | some found =>
    obtain ⟨rfl, rfl⟩ := (firstMissing?_eq_some hfirst).unique h
    rfl

/-- Lookups that are awaited in order are all found, and each gives its path. -/
theorem awaitInOrder_eq_found_iff {probe : Probe} {lookups : List Lookup}
    {paths : List (String × Path)} :
    awaitInOrder probe lookups = .found paths ↔
      List.Forall₂ (fun l found => found.1 = l.name ∧ ∃ time, l.FoundAt probe found.2 time)
        lookups paths := by
  simp only [← resolution_eq_found_iff]
  induction lookups generalizing paths with
  | nil => cases paths <;> simp [awaitInOrder]
  | cons l lookups ih =>
    rw [awaitInOrder]
    cases hl : l.resolution (l.settled probe) with
    | missing searched => cases paths <;> simp [hl]
    | never => cases paths <;> simp [hl]
    | found path =>
      cases hrest : awaitInOrder probe lookups with
      | missing l' => cases paths <;> simp [hl, ← ih, hrest, Joined.cons]
      | never => cases paths <;> simp [hl, ← ih, hrest, Joined.cons]
      | found rest =>
        cases paths with
        | nil => simp [Joined.cons]
        | cons entry paths =>
          simp only [Joined.cons, Joined.found.injEq, List.cons.injEq, Prod.ext_iff,
            List.forall₂_cons, hl, Resolution.found.injEq, ← ih, hrest]
          rw [eq_comm (a := l.name)]

/-- The failure of a lookup counts when all lookups before it have been found. -/
theorem awaitInOrder_eq_missing_iff {probe : Probe} {lookups : List Lookup} {l : Lookup} :
    awaitInOrder probe lookups = .missing l ↔
      ∃ before after time, lookups = before ++ l :: after ∧
        (∀ x ∈ before, ∃ path time, x.FoundAt probe path time) ∧ l.MissingAt probe time := by
  induction lookups with
  | nil => simp [awaitInOrder]
  | cons x lookups ih =>
    constructor
    · intro h
      rw [awaitInOrder] at h
      cases hx : x.resolution (x.settled probe) with
      | missing searched =>
        obtain rfl : x = l := by simpa [hx] using h
        obtain ⟨⟨time, hmissing⟩, _⟩ := resolution_eq_missing_iff.mp hx
        exact ⟨[], lookups, time, rfl, by simp, hmissing⟩
      | never => simp [hx] at h
      | found path =>
        have hrest : awaitInOrder probe lookups = .missing l := by
          rw [hx] at h
          cases hrest : awaitInOrder probe lookups <;> simp_all [Joined.cons]
        obtain ⟨before, after, time, rfl, hbefore, hl⟩ := ih.mp hrest
        obtain ⟨found, hfound⟩ := resolution_eq_found_iff.mp hx
        exact ⟨x :: before, after, time, rfl,
          List.forall_mem_cons.mpr ⟨⟨path, found, hfound⟩, hbefore⟩, hl⟩
    · rintro ⟨before, after, time, heq, hbefore, hl⟩
      rw [awaitInOrder]
      cases before with
      | nil =>
        obtain ⟨rfl, rfl⟩ := List.cons.inj heq
        simp [resolution_eq_missing_iff.mpr ⟨⟨time, hl⟩, rfl⟩]
      | cons y before =>
        obtain ⟨rfl, rfl⟩ := List.cons.inj heq
        obtain ⟨⟨path, found, hfound⟩, hbefore⟩ := List.forall_mem_cons.mp hbefore
        rw [resolution_eq_found_iff.mpr ⟨found, hfound⟩]
        simp only
        rw [ih.mpr ⟨before, after, time, rfl, hbefore, hl⟩, Joined.cons]

/-- All lookups that are awaited in order are found when each of them is. -/
theorem exists_awaitInOrder_eq_found_iff {probe : Probe} {lookups : List Lookup} :
    (∃ paths, awaitInOrder probe lookups = .found paths) ↔
      ∀ l ∈ lookups, ∃ path time, l.FoundAt probe path time := by
  simp only [awaitInOrder_eq_found_iff]
  induction lookups with
  | nil => simp
  | cons l lookups ih =>
    rw [List.forall_mem_cons, ← ih]
    constructor
    · rintro ⟨paths, h⟩
      cases h with
      | cons hl hrest => exact ⟨⟨_, hl.2⟩, _, hrest⟩
    · rintro ⟨⟨path, hl⟩, rest, hrest⟩
      exact ⟨(l.name, path) :: rest, .cons ⟨rfl, hl⟩ hrest⟩

end Lookup

/-- What a call for several lookups comes to when the first failure known ends it: all names
    with their paths in order, or the failure known first, or nothing when no lookup fails and
    some lookup never ends. -/
def Joined.FailFast (probe : Probe) (lookups : List Lookup) : Joined → Prop
  | .found paths =>
    List.Forall₂ (fun l found => found.1 = l.name ∧ ∃ time, l.FoundAt probe found.2 time)
      lookups paths
  | .missing l => ∃ time, Lookup.FirstMissing probe lookups l time
  | .never =>
    (∀ l ∈ lookups, ∀ time, ¬ l.MissingAt probe time) ∧
      ∃ l ∈ lookups, ∀ path time, ¬ l.FoundAt probe path time

namespace Lookup

theorem not_missingAt_of_awaitInOrder {probe : Probe} {lookups : List Lookup}
    {paths : List (String × Path)} (h : awaitInOrder probe lookups = .found paths) :
    ∀ l ∈ lookups, ∀ time, ¬ l.MissingAt probe time := by
  intro l hl time
  obtain ⟨path, found, hfound⟩ := exists_awaitInOrder_eq_found_iff.mp ⟨paths, h⟩ l hl
  exact hfound.not_missingAt

/-- Letting the first failure known win gives the one outcome that fits. -/
theorem failFast_eq_iff {probe : Probe} {lookups : List Lookup} {j : Joined} :
    failFast probe lookups = j ↔ j.FailFast probe lookups := by
  unfold failFast
  cases hfirst : firstMissing? probe lookups with
  | some first =>
    obtain ⟨time, l⟩ := first
    have hmissing := firstMissing?_eq_some hfirst
    obtain ⟨hmem, hl⟩ := hmissing.mem
    cases j with
    | found paths =>
      refine iff_of_false (by simp) fun hfound => ?_
      exact not_missingAt_of_awaitInOrder (awaitInOrder_eq_found_iff.mpr hfound) l hmem time hl
    | missing l' =>
      rw [Joined.missing.injEq]
      constructor
      · rintro rfl
        exact ⟨time, hmissing⟩
      · rintro ⟨other, hother⟩
        exact (hmissing.unique hother).2
    | never => exact iff_of_false (by simp) fun h => h.1 l hmem time hl
  | none =>
    have hnone := firstMissing?_eq_none_iff.mp hfirst
    cases j with
    | found paths => exact awaitInOrder_eq_found_iff
    | missing l =>
      refine iff_of_false (fun h => ?_) fun h => ?_
      · obtain ⟨before, after, time, rfl, _, hl⟩ := awaitInOrder_eq_missing_iff.mp h
        exact hnone l (by simp) time hl
      · obtain ⟨time, hl⟩ := h
        exact hnone l hl.mem.1 time hl.mem.2
    | never =>
      have hfound : (∃ paths, awaitInOrder probe lookups = .found paths) ↔ _ :=
        exists_awaitInOrder_eq_found_iff
      constructor
      · intro (hnever : awaitInOrder probe lookups = .never)
        refine ⟨hnone, ?_⟩
        by_contra hnot
        push Not at hnot
        obtain ⟨paths, hpaths⟩ := hfound.mpr hnot
        rw [hnever] at hpaths
        cases hpaths
      · rintro ⟨_, l, hmem, hl⟩
        cases hawait : awaitInOrder probe lookups with
        | never => rfl
        | found paths =>
          obtain ⟨path, time, hpath⟩ := hfound.mp ⟨paths, hawait⟩ l hmem
          exact absurd hpath (hl path time)
        | missing l' =>
          obtain ⟨before, after, time, rfl, _, hl'⟩ := awaitInOrder_eq_missing_iff.mp hawait
          exact absurd hl' (hnone l' (by simp) time)

/-- A call finds paths exactly when each lookup finds its own, however it awaits them. -/
theorem join_eq_found_iff {probe : Probe} {lookups : List Lookup}
    {paths : List (String × Path)} :
    join probe lookups = .found paths ↔
      List.Forall₂ (fun l found => found.1 = l.name ∧ ∃ time, l.FoundAt probe found.2 time)
        lookups paths := by
  unfold join
  split
  · exact failFast_eq_iff
  · exact awaitInOrder_eq_found_iff

/-- A call for several lookups ends as the first failure known demands exactly if there are at
    most `joinLimit` lookups, no lookup ever fails, or the lookups before the first failure known
    are all found. -/
theorem join_eq_failFast_iff {probe : Probe} {lookups : List Lookup} :
    join probe lookups = failFast probe lookups ↔
      lookups.length ≤ joinLimit ∨ (∀ l ∈ lookups, ∀ time, ¬ l.MissingAt probe time) ∨
        ∃ before l after time, lookups = before ++ l :: after ∧
          (∀ x ∈ before, ∃ path time, x.FoundAt probe path time) ∧ l.MissingAt probe time ∧
          ∀ later ∈ after, ∀ other, later.MissingAt probe other → time ≤ other := by
  by_cases hle : lookups.length ≤ joinLimit
  · simp [join, hle]
  · rw [join, if_neg hle]
    constructor
    · intro heq
      refine .inr ?_
      rw [← firstMissing?_eq_none_iff]
      cases hfirst : firstMissing? probe lookups with
      | none => exact .inl rfl
      | some first =>
        obtain ⟨time, l⟩ := first
        have hmissing := firstMissing?_eq_some hfirst
        rw [failFast, hfirst, awaitInOrder_eq_missing_iff] at heq
        obtain ⟨before, after, other, heq, hbefore, hl⟩ := heq
        refine .inr ⟨before, l, after, other, heq, hbefore, hl, fun later hlater t ht => ?_⟩
        rw [hl.unique hmissing.mem.2]
        exact hmissing.le (by simp [heq, hlater]) ht
    · rintro (hle' | hnone | ⟨before, l, after, time, heq, hbefore, hl, hafter⟩)
      · exact absurd hle' hle
      · rw [failFast, firstMissing?_eq_none_iff.mpr hnone]
      · have hfirst : FirstMissing probe lookups l time := by
          refine ⟨before, after, heq, hl, fun x hx other hother => ?_, hafter⟩
          obtain ⟨path, found, hpath⟩ := hbefore x hx
          exact absurd hother hpath.not_missingAt
        rw [failFast, firstMissing?_eq_some_iff.mpr hfirst]
        exact awaitInOrder_eq_missing_iff.mpr ⟨before, after, time, heq, hbefore, hl⟩

/-- A failure that is known at once leaves a first one at or before it. -/
theorem exists_first_missing_at_once {probe : Probe} (before after : List Lookup) {l : Lookup}
    (hl : l.MissingAt probe 0) :
    ∃ before' l' after', before ++ l :: after = before' ++ l' :: after' ∧
      (∀ x ∈ before', ¬ x.MissingAt probe 0) ∧ l'.MissingAt probe 0 ∧
      before' ++ [l'] <+: before ++ [l] := by
  induction before with
  | nil => exact ⟨[], l, after, rfl, by simp, hl, List.prefix_rfl⟩
  | cons x before ih =>
    by_cases hx : x.MissingAt probe 0
    · exact ⟨[], x, before ++ l :: after, rfl, by simp, hx, ⟨before ++ [l], rfl⟩⟩
    · obtain ⟨before', l', after', heq, hbefore, hl', hprefix⟩ := ih
      exact ⟨x :: before', l', after', congrArg (x :: ·) heq,
        List.forall_mem_cons.mpr ⟨hx, hbefore⟩, hl', by simpa using hprefix⟩

/-- Up to a first failure that is known at once, all lookups are started, and no other is. -/
theorem startedUntilMissing_append {probe : Probe} {before after : List Lookup} {l : Lookup}
    (hbefore : ∀ x ∈ before, ¬ x.MissingAt probe 0) (hl : l.MissingAt probe 0) :
    startedUntilMissing probe (before ++ l :: after) = before ++ [l] := by
  induction before with
  | nil => simp [startedUntilMissing, settled_eq_missing_iff.mpr hl]
  | cons x before ih =>
    obtain ⟨hx, hbefore⟩ := List.forall_mem_cons.mp hbefore
    rw [← settled_eq_missing_iff] at hx
    simp [startedUntilMissing, hx, ih hbefore]

/-- Lookups that are awaited in order are started one after the other as long as each is found
    at once. -/
theorem startedInOrder_append {probe : Probe} {before after : List Lookup} {l : Lookup}
    (hbefore : ∀ x ∈ before, ∃ path, x.FoundAt probe path 0) (hl : l.MissingAt probe 0) :
    startedInOrder probe (before ++ l :: after) = before ++ [l] := by
  induction before with
  | nil => simp [startedInOrder, settled_eq_missing_iff.mpr hl]
  | cons x before ih =>
    obtain ⟨⟨path, hx⟩, hbefore⟩ := List.forall_mem_cons.mp hbefore
    obtain ⟨index, hsettled, _⟩ := foundAt_iff_settled.mp hx
    simp [startedInOrder, hsettled, ih hbefore]

/-- A lookup that takes time lets all later ones be started. -/
theorem startedInOrder_of_not_found {probe : Probe} {before after : List Lookup} {l : Lookup}
    (hbefore : ∀ x ∈ before, ¬ x.MissingAt probe 0)
    (hwaits : ∃ x ∈ before, ∀ path, ¬ x.FoundAt probe path 0) :
    startedInOrder probe (before ++ l :: after) = before ++ l :: after := by
  induction before with
  | nil => simp at hwaits
  | cons x before ih =>
    obtain ⟨hx, hbefore⟩ := List.forall_mem_cons.mp hbefore
    rw [← settled_eq_missing_iff] at hx
    rw [List.cons_append, startedInOrder]
    split
    · next hmissing => exact absurd hmissing hx
    · next index hfound =>
      rw [ih hbefore]
      obtain ⟨y, hy, hywaits⟩ := hwaits
      rcases List.mem_cons.mp hy with rfl | hy
      · have hinside := (settle_eq_found_iff.mp hfound).1.lt_length
        simp only [List.length_map] at hinside
        exact absurd (foundAt_iff_settled.mpr ⟨index, hfound, List.getElem?_eq_getElem hinside⟩)
          (hywaits _)
      · exact ⟨y, hy, hywaits⟩
    · rfl

/-- No lookup after one that fails at once is started exactly if there are at most `joinLimit`
    lookups, or each lookup before the first that fails at once is found at once, or the later
    ones have nothing to ask for. -/
theorem asked_isPrefix_iff {probe : Probe} {lookups : List Lookup} :
    (∀ before l after, lookups = before ++ l :: after → l.MissingAt probe 0 →
      asked probe lookups <+: (before ++ [l]).flatMap candidates) ↔
    lookups.length ≤ joinLimit ∨
      ∀ before l after, lookups = before ++ l :: after → l.MissingAt probe 0 →
        (∀ x ∈ before, ¬ x.MissingAt probe 0) →
        (∀ x ∈ before, ∃ path, x.FoundAt probe path 0) ∨
          ∀ later ∈ after, later.candidates = [] := by
  constructor
  · intro hprefix
    by_cases hle : lookups.length ≤ joinLimit
    · exact .inl hle
    · refine .inr fun before l after heq hl hbefore => ?_
      by_cases hfound : ∀ x ∈ before, ∃ path, x.FoundAt probe path 0
      · exact .inl hfound
      · push Not at hfound
        have hasked := hprefix before l after heq hl
        rw [asked, if_neg hle, heq, startedInOrder_of_not_found hbefore hfound, List.append_cons,
          List.flatMap_append] at hasked
        have hlength := hasked.length_le
        rw [List.length_append] at hlength
        have hempty : after.flatMap candidates = [] := List.length_eq_zero_iff.mp (by omega)
        exact .inr (List.flatMap_eq_nil_iff.mp hempty)
  · intro hcondition before l after heq hl
    obtain ⟨before', l', after', heq', hbefore', hl', hprefix⟩ :=
      exists_first_missing_at_once before after hl
    obtain ⟨rest, hrest⟩ := hprefix
    rw [← heq] at heq'
    have hasked : asked probe lookups = (before' ++ [l']).flatMap candidates := by
      by_cases hle : lookups.length ≤ joinLimit
      · rw [asked, if_pos hle, heq', startedUntilMissing_append hbefore' hl']
      · rw [asked, if_neg hle]
        by_cases hfound : ∀ x ∈ before', ∃ path, x.FoundAt probe path 0
        · rw [heq', startedInOrder_append hfound hl']
        · have hempty := (hcondition.resolve_left hle before' l' after' heq' hl'
            hbefore').resolve_left hfound
          push Not at hfound
          rw [heq', startedInOrder_of_not_found hbefore' hfound, List.append_cons,
            List.flatMap_append, List.flatMap_eq_nil_iff.mpr hempty, List.append_nil]
    rw [hasked]
    exact ⟨rest.flatMap candidates, by rw [← List.flatMap_append, hrest]⟩

/-- How far a call for several lookups ends with the first failure known. It comes to what
    `Joined.FailFast` demands exactly if there are at most `joinLimit` lookups, or no lookup ever
    fails, or the first failure known stands behind lookups that are all found. It asks for
    nothing behind a lookup that fails at once exactly if there are at most `joinLimit` lookups,
    or each lookup before the first such one is found at once, or there is nothing to ask for. -/
theorem failFast_join_iff (probe : Probe) (lookups : List Lookup) :
    ((∀ j, join probe lookups = j ↔ j.FailFast probe lookups) ↔
      lookups.length ≤ joinLimit ∨ (∀ l ∈ lookups, ∀ time, ¬ l.MissingAt probe time) ∨
        ∃ before l after time, lookups = before ++ l :: after ∧
          (∀ x ∈ before, ∃ path time, x.FoundAt probe path time) ∧ l.MissingAt probe time ∧
          ∀ later ∈ after, ∀ other, later.MissingAt probe other → time ≤ other) ∧
    ((∀ before l after, lookups = before ++ l :: after → l.MissingAt probe 0 →
        asked probe lookups <+: (before ++ [l]).flatMap candidates) ↔
      lookups.length ≤ joinLimit ∨
        ∀ before l after, lookups = before ++ l :: after → l.MissingAt probe 0 →
          (∀ x ∈ before, ¬ x.MissingAt probe 0) →
          (∀ x ∈ before, ∃ path, x.FoundAt probe path 0) ∨
            ∀ later ∈ after, later.candidates = []) := by
  refine ⟨?_, asked_isPrefix_iff⟩
  rw [← join_eq_failFast_iff]
  simp only [← failFast_eq_iff]
  constructor
  · exact fun h => (h _).mpr rfl
  · intro h j
    rw [h]

/-- One lookup that never ends, and then thirty that fail at once. The call never ends, and asks
    for every path. -/
theorem not_failFast_join_thirty_one :
    let probe : Probe := fun path => if path = ⟨"/d/a"⟩ then .never else .after 0 false
    let lookups : List Lookup := ⟨"a", [⟨"/d/a"⟩]⟩ :: List.replicate 30 ⟨"b", [⟨"/d/b"⟩]⟩
    join probe lookups = .never ∧ (⟨"b", [⟨"/d/b"⟩]⟩ : Lookup).MissingAt probe 0 ∧
      ¬ Joined.FailFast probe lookups .never ∧
      asked probe lookups = ⟨"/d/a"⟩ :: List.replicate 30 ⟨"/d/b"⟩ := by
  intro probe lookups
  have hmissing : (⟨"b", [⟨"/d/b"⟩]⟩ : Lookup).MissingAt probe 0 := by
    constructor
    · intro path hpath
      exact ⟨0, by simp [List.mem_singleton.mp hpath, probe]⟩
    · decide
  refine ⟨by decide +kernel, hmissing, ?_, by decide +kernel⟩
  intro hfailFast
  exact hfailFast.1 _ (by simp [lookups]) 0 hmissing

end Lookup

end TemplateManifest
