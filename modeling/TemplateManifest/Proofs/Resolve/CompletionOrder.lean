import Mathlib.Data.Nat.Find
import TemplateManifest.Proofs.Resolve.Decision

/-!
The order in which probes complete. Main statement: a lookup gives the same resolution for every
order, and gives it with the first completion after which no other is possible.
-/

namespace TemplateManifest

/-- The verdict in which a choice ends; one that never ends stays pending. -/
def Settled.verdict : Settled → Verdict
  | .found index _ => .found index
  | .missing _ => .missing
  | .never => .pending

/-- The time at which a choice ends. -/
def Settled.time? : Settled → Option Nat
  | .found _ time | .missing time => some time
  | .never => none

@[simp]
theorem Settled.verdict_eq_pending {s : Settled} : s.verdict = .pending ↔ s = .never := by
  cases s <;> simp [Settled.verdict]

namespace Answers

/-- What is known after some arrivals. -/
def after (known : Answers) (arrivals : List (Nat × Completion)) : Answers :=
  arrivals.foldl (fun known arrival => known.set arrival.2.index (some arrival.2.present)) known

/-- The arrivals bring every answer that is still to come exactly once, in whatever order. A
    probe that never completes has the outcome `none` and brings no answer. -/
structure Delivers (known : Answers) (arrivals : List (Nat × Completion)) (outcomes : Answers) :
    Prop where
  told : known.Extends outcomes
  once : (arrivals.map (·.2.index)).Nodup
  due : ∀ c : Completion, c ∈ arrivals.map (·.2) ↔
    known[c.index]? = some none ∧ outcomes[c.index]? = some (some c.present)

/-- Some verdict always holds of outcomes. -/
theorem exists_decides (outcomes : Answers) : ∃ v, outcomes.Decides v := by
  by_cases hfirst : ∃ k, outcomes.FirstPresent k
  · obtain ⟨k, hk⟩ := hfirst
    exact ⟨.found k, hk⟩
  · by_cases hall : outcomes.AllMissing
    · exact ⟨.missing, hall⟩
    · exact ⟨.pending, fun k hk => hfirst ⟨k, hk⟩, hall⟩

/-- While answers are pending, a better candidate may still turn up: the first one not known to
    be missing is open, and it may yet exist. -/
theorem exists_extends_firstPresent {known : Answers} (hpending : known.Decides .pending) :
    ∃ outcomes k, known.Extends outcomes ∧ outcomes.FirstPresent k := by
  obtain ⟨hnone, hsome⟩ := hpending
  have hopen : ∃ k, k < known.length ∧ known[k]? ≠ some (some false) := by
    by_contra hnot
    refine hsome fun i hi => ?_
    by_contra hne
    exact hnot ⟨i, hi, hne⟩
  classical
  let k := Nat.find hopen
  obtain ⟨hlength, hfront⟩ := Nat.find_spec hopen
  have hpassed (i : Nat) (hi : i < k) : known[i]? = some (some false) := by
    by_contra hne
    exact Nat.find_min hopen hi ⟨by omega, hne⟩
  refine ⟨known.set k (some true), k, ⟨by simp, fun i b hi => ?_⟩, ?_, fun i hi => ?_⟩
  · have hne : k ≠ i := by
      rintro rfl
      cases b with
      | true => exact hnone k ⟨hi, hpassed⟩
      | false => exact hfront hi
    rwa [List.getElem?_set_ne hne]
  · exact List.getElem?_set_self hlength
  · rw [List.getElem?_set_ne (by omega)]
    exact hpassed i hi

/-- Answers leave one verdict exactly when they give one themselves. -/
theorem decided_iff_not_pending {known : Answers} :
    known.Decided ↔ ¬ known.Decides .pending := by
  constructor
  · rintro ⟨v, hv⟩ hpending
    obtain ⟨outcomes, k, hextends, hfirst⟩ := exists_extends_firstPresent hpending
    have heq : v = .pending := (hv known (Extends.refl known)).unique hpending
    exact (heq ▸ hv outcomes hextends).1 k hfirst
  · intro hpending
    obtain ⟨v, hv⟩ := known.exists_decides
    refine ⟨v, fun outcomes hextends => hv.of_extends ?_ hextends⟩
    rintro rfl
    exact hpending hv

/-- The first arrival answers for an open candidate, and the others bring the rest. -/
theorem delivers_cons_iff {known outcomes : Answers} {time : Nat} {c : Completion}
    {arrivals : List (Nat × Completion)} :
    known.Delivers ((time, c) :: arrivals) outcomes ↔
      known[c.index]? = some none ∧
        Delivers (known.set c.index (some c.present)) arrivals outcomes := by
  constructor
  · rintro ⟨⟨hlength, htold⟩, honce, hdue⟩
    obtain ⟨hopen, houtcome⟩ := (hdue c).mp (by simp)
    have hinside : c.index < known.length := (List.getElem?_eq_some_iff.mp hopen).1
    simp only [List.map_cons, List.nodup_cons] at honce
    refine ⟨hopen, ⟨by simpa using hlength, fun i b hi => ?_⟩, honce.2, fun d => ?_⟩
    · by_cases heq : c.index = i
      · subst heq
        rw [List.getElem?_set_self hinside] at hi
        rwa [← hi]
      · exact htold i b (by rwa [List.getElem?_set_ne heq] at hi)
    · by_cases heq : c.index = d.index
      · have habsent : d ∉ arrivals.map (·.2) := by
          intro hd
          refine honce.1 ?_
          rw [heq]
          simpa using List.mem_map_of_mem (f := Completion.index) hd
        simp [habsent, ← heq, List.getElem?_set_self hinside]
      · have hne : d ≠ c := fun h => heq (h ▸ rfl)
        rw [List.getElem?_set_ne heq, ← hdue d]
        simp [hne]
  · rintro ⟨hopen, ⟨hlength, htold⟩, honce, hdue⟩
    have hinside : c.index < known.length := (List.getElem?_eq_some_iff.mp hopen).1
    have houtcome : outcomes[c.index]? = some (some c.present) :=
      htold c.index c.present (List.getElem?_set_self hinside)
    refine ⟨⟨by simpa using hlength, fun i b hi => ?_⟩, ?_, fun d => ?_⟩
    · have hne : c.index ≠ i := by
        rintro rfl
        rw [hopen] at hi
        cases hi
      exact htold i b (by rwa [List.getElem?_set_ne hne])
    · simp only [List.map_cons, List.nodup_cons]
      refine ⟨fun hmem => ?_, honce⟩
      obtain ⟨arrival, harrival, hindex⟩ := List.mem_map.mp hmem
      obtain ⟨hagain, _⟩ := (hdue arrival.2).mp (List.mem_map_of_mem harrival)
      rw [hindex, List.getElem?_set_self hinside] at hagain
      cases hagain
    · by_cases heq : c.index = d.index
      · constructor
        · intro hd
          rcases List.mem_cons.mp hd with rfl | hd
          · exact ⟨hopen, houtcome⟩
          · obtain ⟨hagain, _⟩ := (hdue d).mp hd
            rw [← heq, List.getElem?_set_self hinside] at hagain
            cases hagain
        · rintro ⟨_, hd⟩
          rw [← heq, houtcome] at hd
          have hpresent : c.present = d.present := by simpa using hd
          have hsame : c = d := by
            cases c
            cases d
            simp_all
          simp [hsame]
      · have hne : d ≠ c := fun h => heq (h ▸ rfl)
        have hrest := hdue d
        rw [List.getElem?_set_ne heq] at hrest
        rw [← hrest]
        simp [hne]

/-- Nothing more arrives when what is known is all that there is to know. -/
theorem delivers_nil (known : Answers) : known.Delivers [] known := by
  refine ⟨Extends.refl known, List.nodup_nil, fun c => ?_⟩
  constructor
  · simp
  · rintro ⟨hopen, hknown⟩
    rw [hopen] at hknown
    cases hknown

/-- With no arrival left, the outcomes are what is known. -/
theorem Delivers.eq_of_nil {known outcomes : Answers} (h : known.Delivers [] outcomes) :
    outcomes = known := by
  obtain ⟨⟨hlength, htold⟩, _, hdue⟩ := h
  apply List.ext_getElem? fun i => ?_
  cases hknown : known[i]? with
  | none =>
    rw [List.getElem?_eq_none_iff] at hknown ⊢
    omega
  | some answer =>
    cases answer with
    | some b => exact htold i b hknown
    | none =>
      have hi : i < outcomes.length := hlength ▸ (List.getElem?_eq_some_iff.mp hknown).1
      cases houtcome : outcomes[i]? with
      | none => rw [List.getElem?_eq_none_iff] at houtcome; omega
      | some outcome =>
        cases outcome with
        | none => rfl
        | some b => exact absurd ((hdue ⟨i, b⟩).mpr ⟨hknown, houtcome⟩) (by simp)

/-- Some first arrivals deliver just what is known after them. -/
theorem Delivers.of_append {known outcomes : Answers} {before after : List (Nat × Completion)}
    (h : known.Delivers (before ++ after) outcomes) :
    known.Delivers before (known.after before) := by
  induction before generalizing known with
  | nil => exact delivers_nil known
  | cons arrival before ih =>
    obtain ⟨hopen, hrest⟩ := delivers_cons_iff.mp h
    exact delivers_cons_iff.mpr ⟨hopen, ih hrest⟩

end Answers

namespace Watch

/-- A choice ends in the verdict of the outcomes, in whatever order the answers arrive. -/
theorem Valid.decides_settle {w : Watch} (hvalid : w.Valid) {outcomes : Answers}
    {arrivals : List (Nat × Completion)} (hdelivers : w.known.Delivers arrivals outcomes)
    (now : Nat) : outcomes.Decides (w.settle now arrivals).verdict := by
  induction arrivals generalizing w now with
  | nil =>
    have hdecides := hvalid.decides_verdict
    rw [hdelivers.eq_of_nil]
    unfold settle
    split <;> simp_all [Settled.verdict]
  | cons arrival arrivals ih =>
    have hdecides := hvalid.decides_verdict
    unfold settle
    split
    · next hverdict =>
      rw [hverdict] at hdecides
      exact hdecides.of_extends (by simp) hdelivers.told
    · next hverdict =>
      rw [hverdict] at hdecides
      exact hdecides.of_extends (by simp) hdelivers.told
    · obtain ⟨hopen, hrest⟩ := Answers.delivers_cons_iff.mp hdelivers
      exact ih (hvalid.deliver hopen) hrest arrival.1

/-- A choice that has ended does not look at later arrivals. -/
theorem settle_append {w : Watch} {before : List (Nat × Completion)} {now : Nat}
    (hended : w.settle now before ≠ .never) (after : List (Nat × Completion)) :
    w.settle now (before ++ after) = w.settle now before := by
  induction before generalizing w now with
  | nil =>
    unfold settle at hended ⊢
    split <;> simp_all
  | cons arrival before ih =>
    simp only [List.cons_append]
    unfold settle at hended ⊢
    split <;> simp_all

/-- A choice that ends with one more arrival ends at the time of that arrival. -/
theorem time?_settle_append_singleton {w : Watch} {before : List (Nat × Completion)} {now : Nat}
    {arrival : Nat × Completion} (hopen : w.settle now before = .never)
    (hended : w.settle now (before ++ [arrival]) ≠ .never) :
    (w.settle now (before ++ [arrival])).time? = some arrival.1 := by
  induction before generalizing w now with
  | nil =>
    simp only [List.nil_append]
    unfold settle at hopen hended ⊢
    split at hopen
    · simp_all
    · simp_all
    · next hpending =>
      simp only [hpending] at hended ⊢
      unfold settle at hended ⊢
      split <;> simp_all [Settled.time?]
  | cons arrival before ih =>
    simp only [List.cons_append]
    unfold settle at hopen hended ⊢
    split <;> simp_all

/-- A choice has ended after some arrivals exactly when they leave one verdict. -/
theorem Valid.settle_eq_never_iff {w : Watch} (hvalid : w.Valid) {outcomes : Answers}
    {before after : List (Nat × Completion)}
    (hdelivers : w.known.Delivers (before ++ after) outcomes) (now : Nat) :
    w.settle now before = .never ↔ ¬ (w.known.after before).Decided := by
  have hdecides := hvalid.decides_settle hdelivers.of_append now
  rw [Answers.decided_iff_not_pending, not_not, ← Settled.verdict_eq_pending]
  constructor
  · intro hverdict
    rwa [hverdict] at hdecides
  · exact fun hpending => hdecides.unique hpending

end Watch

/-- A lookup ends in the verdict of the outcomes of its candidates, whatever the order in which
    the completing probes finish: it gives the candidate that exists while every better one is
    missing, lists all candidates when all are missing, and otherwise never ends. It ends with
    the first completion after which the answers leave only one verdict, at the time of that
    completion, and looks at no later one. -/
theorem Lookup.resolution_of_completion_order (l : Lookup) (outcomes : Answers)
    (arrivals : List (Nat × Completion))
    (hdelivers :
      (Watch.start l.candidates.length).known.Delivers arrivals outcomes) :
    let settle := (Watch.start l.candidates.length).settle 0
    let known := (Watch.start l.candidates.length).known
    (∀ k, (settle arrivals).verdict = .found k ↔ outcomes.FirstPresent k) ∧
    ((settle arrivals).verdict = .missing ↔ outcomes.AllMissing) ∧
    (settle arrivals = .never ↔ (∀ k, ¬ outcomes.FirstPresent k) ∧ ¬ outcomes.AllMissing) ∧
    (∀ k, outcomes.FirstPresent k → ∃ path, l.candidates[k]? = some path ∧
      l.resolution (settle arrivals) = .found path) ∧
    (outcomes.AllMissing → l.resolution (settle arrivals) = .missing l.candidates) ∧
    (∀ before after, arrivals = before ++ after →
      (settle before = .never ↔ ¬ (known.after before).Decided) ∧
      (settle before ≠ .never → settle arrivals = settle before)) ∧
    ∀ before arrival after, arrivals = before ++ arrival :: after → settle before = .never →
      settle (before ++ [arrival]) ≠ .never →
      (settle arrivals).time? = some arrival.1 := by
  intro settle known
  have hvalid := Watch.valid_start l.candidates.length
  have hdecides : outcomes.Decides (settle arrivals).verdict := hvalid.decides_settle hdelivers 0
  have hlength : outcomes.length = l.candidates.length := by
    simpa [Watch.start] using hdelivers.told.1
  have hfound (k : Nat) (hk : outcomes.FirstPresent k) : (settle arrivals).verdict = .found k :=
    hdecides.unique hk
  have hmissing (hall : outcomes.AllMissing) : (settle arrivals).verdict = .missing :=
    hdecides.unique hall
  refine ⟨fun k => ⟨fun h => ?_, hfound k⟩, ⟨fun h => ?_, hmissing⟩, ?_, fun k hk => ?_,
    fun hall => ?_, fun before after heq => ⟨?_, fun hended => ?_⟩,
    fun before arrival after heq hopen hended => ?_⟩
  · rwa [h] at hdecides
  · rwa [h] at hdecides
  · rw [← Settled.verdict_eq_pending]
    constructor
    · intro h
      rwa [h] at hdecides
    · exact fun hpending => hdecides.unique hpending
  · have hinside : k < l.candidates.length := hlength ▸ hk.lt_length
    refine ⟨l.candidates[k], List.getElem?_eq_getElem hinside, ?_⟩
    have hverdict := hfound k hk
    revert hverdict
    cases settle arrivals <;> simp_all [Settled.verdict, Lookup.resolution]
  · have hverdict := hmissing hall
    revert hverdict
    cases settle arrivals <;> simp [Settled.verdict, Lookup.resolution]
  · exact hvalid.settle_eq_never_iff (heq ▸ hdelivers) 0
  · rw [heq]
    exact Watch.settle_append hended after
  · have hsplit : arrivals = (before ++ [arrival]) ++ after := by simp [heq]
    have hsame : settle arrivals = settle (before ++ [arrival]) := by
      rw [hsplit]
      exact Watch.settle_append hended after
    rw [hsame]
    exact Watch.time?_settle_append_singleton hopen hended

/-- Three candidates of which the first is missing, the second exists and the third never
    answers. The answer of the second arrives first, and the choice waits for the first. -/
theorem Lookup.resolution_of_completion_order_late_miss :
    let l : Lookup := ⟨"a", [⟨"/x/a"⟩, ⟨"/y/a"⟩, ⟨"/z/a"⟩]⟩
    let arrivals : List (Nat × Completion) := [(5, ⟨1, true⟩), (7, ⟨0, false⟩)]
    let settled := (Watch.start 3).settle 0 arrivals
    (Watch.start 3).known.Delivers arrivals [some false, some true, none] ∧
      l.resolution settled = .found ⟨"/y/a"⟩ ∧ settled.time? = some 7 := by
  intro l arrivals settled
  have hdelivers : (Watch.start 3).known.Delivers arrivals [some false, some true, none] :=
    Answers.delivers_cons_iff.mpr ⟨rfl, Answers.delivers_cons_iff.mpr ⟨rfl, Answers.delivers_nil _⟩⟩
  have hspec := Lookup.resolution_of_completion_order l [some false, some true, none] arrivals
    hdelivers
  obtain ⟨path, hpath, hfound⟩ := hspec.2.2.2.1 1 ⟨rfl, by decide⟩
  have heq : path = ⟨"/y/a"⟩ := (Option.some.inj hpath).symm
  refine ⟨hdelivers, heq ▸ hfound, ?_⟩
  exact hspec.2.2.2.2.2.2 [(5, ⟨1, true⟩)] (7, ⟨0, false⟩) [] rfl rfl (by decide)

end TemplateManifest
