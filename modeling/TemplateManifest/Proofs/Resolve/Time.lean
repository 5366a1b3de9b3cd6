import Mathlib.Data.List.Pairwise
import TemplateManifest.Proofs.Resolve.CompletionOrder

/-!
When a choice among candidates ends. Every answer counts up to the candidate that decides, and
the choice ends when the last of them has arrived.
-/

namespace TemplateManifest

namespace Answer

/-- What asking brings in the end; nothing if no answer comes. -/
def outcome : Answer → Option Bool
  | after _ present => some present
  | never => none

/-- The time that an answer takes. -/
def delay : Answer → Nat
  | after delay _ => delay
  | never => 0

end Answer

/-- The time at which the last of some answers has arrived. -/
def latest (answers : List Answer) : Nat :=
  (answers.map Answer.delay).foldr max 0

theorem latest_le_iff {answers : List Answer} {time : Nat} :
    latest answers ≤ time ↔ ∀ answer ∈ answers, answer.delay ≤ time := by
  induction answers with
  | nil => simp [latest]
  | cons answer answers ih =>
    have hcons : latest (answer :: answers) = max answer.delay (latest answers) := rfl
    rw [hcons, Nat.max_le, List.forall_mem_cons, ih]

theorem delay_le_latest {answers : List Answer} {answer : Answer} (h : answer ∈ answers) :
    answer.delay ≤ latest answers :=
  latest_le_iff.mp (Nat.le_refl _) answer h

/-- An arrival is an answer at its place among the candidates. -/
theorem mem_arrivals {answers : List Answer} {arrival : Nat × Completion} :
    arrival ∈ arrivals answers ↔
      answers[arrival.2.index]? = some (.after arrival.1 arrival.2.present) := by
  obtain ⟨time, index, present⟩ := arrival
  simp only [arrivals, List.mem_mergeSort, List.mem_filterMap, Prod.exists]
  constructor
  · rintro ⟨answer, i, hmem, harrival⟩
    have hget := (List.mem_zipIdx_iff_getElem?).mp hmem
    cases answer with
    | never => simp [Answer.arrival?] at harrival
    | after delay present' =>
      simp only [Answer.arrival?, Option.some.injEq, Prod.mk.injEq, Completion.mk.injEq] at harrival
      obtain ⟨rfl, rfl, rfl⟩ := harrival
      exact hget
  · intro hget
    exact ⟨_, index, List.mem_zipIdx_iff_getElem?.mpr hget, rfl⟩

theorem pairwise_arrivals (answers : List Answer) :
    (arrivals answers).Pairwise fun a b => a.1 ≤ b.1 := by
  have hsorted : (arrivals answers).Pairwise fun a b => decide (a.1 ≤ b.1) = true := by
    refine List.pairwise_mergeSort (fun a b c hab hbc => ?_) (fun a b => ?_) _
    · simp only [decide_eq_true_eq] at hab hbc ⊢
      omega
    · simp only [Bool.or_eq_true, decide_eq_true_eq]
      omega
  simpa using hsorted

theorem nodup_index_arrivals (answers : List Answer) :
    ((arrivals answers).map (·.2.index)).Nodup := by
  have hperm (unsorted : List (Nat × Completion))
      (before : Nat × Completion → Nat × Completion → Bool) :=
    (List.mergeSort_perm unsorted before).map (·.2.index)
  rw [arrivals, (hperm _ _).nodup_iff, List.Nodup, List.pairwise_map, List.pairwise_filterMap]
  have hplaces : answers.zipIdx.Pairwise fun a b => a.2 < b.2 := by
    rw [← List.pairwise_map, List.zipIdx_map_snd]
    exact List.pairwise_lt_range'
  refine hplaces.imp fun {a b} hlt c hc d hd => ?_
  have hindex (a : Answer × Nat) (c : Nat × Completion) (h : a.1.arrival? a.2 = some c) :
      c.2.index = a.2 := by
    obtain ⟨answer, index⟩ := a
    cases answer with
    | never => simp [Answer.arrival?] at h
    | after delay present =>
      simp only [Answer.arrival?, Option.some.injEq] at h
      rw [← h]
  rw [hindex a c hc, hindex b d hd]
  omega

/-- Asking the candidates delivers every answer that ever comes, each once. -/
theorem delivers_arrivals (answers : List Answer) :
    (Watch.start answers.length).known.Delivers (arrivals answers)
      (answers.map Answer.outcome) := by
  refine ⟨⟨by simp [Watch.start], fun i b hi => ?_⟩, nodup_index_arrivals answers, fun c => ?_⟩
  · simp [Watch.start, List.getElem?_replicate] at hi
  · obtain ⟨index, present⟩ := c
    simp only [List.mem_map, mem_arrivals, Prod.exists, exists_eq_right, List.getElem?_map,
      Watch.start, List.getElem?_replicate, Option.map_eq_some_iff]
    constructor
    · rintro ⟨delay, hanswer⟩
      refine ⟨?_, _, hanswer, rfl⟩
      simp [(List.getElem?_eq_some_iff.mp hanswer).1]
    · rintro ⟨_, answer, hanswer, houtcome⟩
      cases answer with
      | never => simp [Answer.outcome] at houtcome
      | after delay present' =>
        simp only [Answer.outcome, Option.some.injEq] at houtcome
        exact ⟨delay, houtcome ▸ hanswer⟩

namespace Watch

theorem settle_cons_of_pending {w : Watch} (hpending : w.verdict = .pending) (now : Nat)
    (arrival : Nat × Completion) (arrivals : List (Nat × Completion)) :
    w.settle now (arrival :: arrivals) = (w.deliver arrival.2).settle arrival.1 arrivals := by
  rw [settle, hpending]

theorem settle_nil_eq_never_iff {w : Watch} {now : Nat} :
    w.settle now [] = .never ↔ w.verdict = .pending := by
  unfold settle
  split <;> simp_all

/-- A choice that is open at first and ends later ends with one of the arrivals. -/
theorem exists_deciding_arrival {w : Watch} {now : Nat} {arrivals : List (Nat × Completion)}
    (hopen : w.verdict = .pending) (hended : w.settle now arrivals ≠ .never) :
    ∃ before arrival after, arrivals = before ++ arrival :: after ∧
      w.settle now before = .never ∧ w.settle now (before ++ [arrival]) ≠ .never := by
  induction arrivals generalizing w now with
  | nil => exact absurd (settle_nil_eq_never_iff.mpr hopen) hended
  | cons arrival arrivals ih =>
    rw [settle_cons_of_pending hopen] at hended
    by_cases hstill : (w.deliver arrival.2).verdict = .pending
    · obtain ⟨before, decider, after, heq, hbefore, hdecides⟩ := ih hstill hended
      refine ⟨arrival :: before, decider, after, by simp [heq], ?_, ?_⟩
      · rwa [settle_cons_of_pending hopen]
      · rwa [List.cons_append, settle_cons_of_pending hopen]
    · refine ⟨[], arrival, arrivals, rfl, settle_nil_eq_never_iff.mpr hopen, ?_⟩
      rwa [List.nil_append, settle_cons_of_pending hopen, ne_eq, settle_nil_eq_never_iff]

end Watch

/-- How many candidates at the front a verdict on `count` candidates rests on. -/
def Verdict.span (count : Nat) : Verdict → Nat
  | .found index => index + 1
  | .missing => count
  | .pending => 0

namespace Answers

/-- All candidates that a verdict rests on have answered. -/
theorem Decides.known_of_lt_span {known : Answers} {v : Verdict} (h : known.Decides v) {i : Nat}
    (hi : i < v.span known.length) : ∃ b, known[i]? = some (some b) := by
  cases v with
  | pending => exact absurd hi (Nat.not_lt_zero i)
  | missing => exact ⟨false, h i hi⟩
  | found k =>
    rcases Nat.lt_succ_iff_lt_or_eq.mp hi with hlt | rfl
    · exact ⟨false, h.2 i hlt⟩
    · exact ⟨true, h.1⟩

/-- A verdict stands wherever the candidates that it rests on have the same outcomes. -/
theorem Decides.of_getElem?_eq {known outcomes : Answers} {v : Verdict} (h : outcomes.Decides v)
    (hlength : known.length = outcomes.length)
    (hsame : ∀ i < v.span outcomes.length, known[i]? = outcomes[i]?) (hv : v ≠ .pending) :
    known.Decides v := by
  cases v with
  | pending => exact absurd rfl hv
  | missing =>
    intro i hi
    rw [hlength] at hi
    rw [hsame i hi]
    exact h i hi
  | found k =>
    constructor
    · rw [hsame k (Nat.lt_succ_self k)]
      exact h.1
    · intro i hi
      rw [hsame i (Nat.lt_succ_of_lt hi)]
      exact h.2 i hi

theorem after_append_singleton (known : Answers) (before : List (Nat × Completion))
    (arrival : Nat × Completion) :
    known.after (before ++ [arrival]) =
      (known.after before).set arrival.2.index (some arrival.2.present) := by
  simp [after]

@[simp]
theorem length_after (known : Answers) (arrivals : List (Nat × Completion)) :
    (known.after arrivals).length = known.length := by
  induction arrivals generalizing known with
  | nil => rfl
  | cons arrival arrivals ih => exact (ih _).trans (List.length_set)

/-- What is known after some arrivals was known before, or one of them has told it. -/
theorem mem_of_known_after {known : Answers} {arrivals : List (Nat × Completion)} {i : Nat}
    {b : Bool} (h : (known.after arrivals)[i]? = some (some b)) :
    known[i]? = some (some b) ∨ ⟨i, b⟩ ∈ arrivals.map (·.2) := by
  induction arrivals generalizing known with
  | nil => exact .inl h
  | cons arrival arrivals ih =>
    have htail : (known.set arrival.2.index (some arrival.2.present))[i]? = some (some b) ∨
        ⟨i, b⟩ ∈ arrivals.map (·.2) := ih h
    rcases htail with hbefore | hmem
    · by_cases heq : arrival.2.index = i
      · have hinside := (List.getElem?_eq_some_iff.mp hbefore).1
        rw [List.length_set] at hinside
        rw [heq, List.getElem?_set_self hinside] at hbefore
        right
        have hpresent : arrival.2.present = b := by simpa using hbefore
        simp [← heq, ← hpresent]
      · left
        rwa [List.getElem?_set_ne heq] at hbefore
    · exact .inr (List.mem_cons_of_mem _ hmem)

end Answers

/-- The arrival that ends a choice answers a candidate that the verdict rests on, since otherwise
    the verdict would have stood before. All others have answered by then. -/
theorem Watch.Valid.answered_of_deciding {w : Watch} (hvalid : w.Valid) {outcomes : Answers}
    {before after : List (Nat × Completion)} {arrival : Nat × Completion} {now : Nat}
    (hdelivers : w.known.Delivers (before ++ arrival :: after) outcomes)
    (hopen : w.settle now before = .never) (hended : w.settle now (before ++ [arrival]) ≠ .never) :
    let span := (w.settle now (before ++ [arrival])).verdict.span w.known.length
    arrival.2.index < span ∧
      ∀ i < span, ∃ b, (w.known.after (before ++ [arrival]))[i]? = some (some b) := by
  intro span
  have hdecides := hvalid.decides_settle (List.append_cons .. ▸ hdelivers).of_append now
  have hknown (i : Nat) (hi : i < span) :
      ∃ b, (w.known.after (before ++ [arrival]))[i]? = some (some b) :=
    hdecides.known_of_lt_span (by rwa [Answers.length_after])
  refine ⟨?_, hknown⟩
  by_contra hbeyond
  refine (hvalid.settle_eq_never_iff hdelivers now).mp hopen ?_
  rw [Answers.decided_iff_not_pending]
  have hstands : (w.known.after before).Decides (w.settle now (before ++ [arrival])).verdict := by
    refine hdecides.of_getElem?_eq (by simp) (fun i hi => ?_) (by simpa using hended)
    rw [Answers.length_after] at hi
    have hne : arrival.2.index ≠ i := by
      rintro rfl
      exact hbeyond hi
    rw [Answers.after_append_singleton, List.getElem?_set_ne hne]
  intro hpending
  exact hended (Settled.verdict_eq_pending.mp (hstands.unique hpending))

/-- The choice among candidates ends when the last answer that its verdict rests on arrives. -/
theorem time?_settle {answers : List Answer} (hended : settle answers ≠ .never) :
    (settle answers).time? =
      some (latest (answers.take ((settle answers).verdict.span answers.length))) := by
  rcases answers.eq_nil_or_concat with rfl | ⟨_, _, hanswers⟩
  · simp [settle, arrivals, Watch.start, Watch.settle, Watch.verdict, Settled.time?, latest]
  have hopen : (Watch.start answers.length).verdict = .pending := by
    simp [hanswers, Watch.start, Watch.verdict]
  have hvalid := Watch.valid_start answers.length
  obtain ⟨before, arrival, after, heq, hbefore, hdecider⟩ :=
    Watch.exists_deciding_arrival hopen hended
  have hsame : settle answers = (Watch.start answers.length).settle 0 (before ++ [arrival]) := by
    rw [settle, heq, List.append_cons]
    exact Watch.settle_append hdecider after
  obtain ⟨hneeded, hanswered⟩ :=
    hvalid.answered_of_deciding (heq ▸ delivers_arrivals answers) hbefore hdecider
  have hlength : (Watch.start answers.length).known.length = answers.length := by
    simp [Watch.start]
  rw [hsame, Watch.time?_settle_append_singleton hbefore hdecider]
  rw [hlength] at hneeded hanswered
  generalize Verdict.span _ _ = span at hneeded hanswered ⊢
  congr 1
  apply Nat.le_antisymm
  · have hanswer := mem_arrivals.mp (heq ▸ List.mem_append_right before List.mem_cons_self :
      arrival ∈ arrivals answers)
    have hmem : Answer.after arrival.1 arrival.2.present ∈ answers.take span :=
      List.mem_of_getElem? ((List.getElem?_take_of_lt hneeded).trans hanswer)
    exact delay_le_latest hmem
  · rw [latest_le_iff]
    intro answer hmem
    obtain ⟨i, hi⟩ := List.mem_iff_getElem?.mp hmem
    have hspan : i < span :=
      Nat.lt_of_lt_of_le (List.getElem?_eq_some_iff.mp hi).1 (List.length_take_le span answers)
    rw [List.getElem?_take_of_lt hspan] at hi
    obtain ⟨b, hb⟩ := hanswered i hspan
    rcases Answers.mem_of_known_after hb with hstart | htold
    · simp [Watch.start, List.getElem?_replicate] at hstart
    · obtain ⟨⟨time, c⟩, hmem, rfl⟩ := List.mem_map.mp htold
      rw [List.append_cons] at heq
      have hanswer := mem_arrivals.mp (heq ▸ List.mem_append_left after hmem :
        (time, ⟨i, b⟩) ∈ arrivals answers)
      have hdelay : answer.delay = time := by
        rw [hi] at hanswer
        rw [Option.some.inj hanswer]
        rfl
      have hsorted := pairwise_arrivals answers
      rw [heq, List.append_assoc, List.pairwise_append] at hsorted
      rw [hdelay]
      rcases List.mem_append.mp hmem with hearlier | hlast
      · exact hsorted.2.2 _ hearlier arrival (by simp)
      · exact Nat.le_of_eq (congrArg Prod.fst (List.mem_singleton.mp hlast))

/-- The choice takes the first candidate that exists, as soon as the answers for it and for all
    before it have arrived. -/
theorem settle_eq_found_iff {answers : List Answer} {index time : Nat} :
    settle answers = .found index time ↔
      Answers.FirstPresent (answers.map Answer.outcome) index ∧
        time = latest (answers.take (index + 1)) := by
  have hdecides := (Watch.valid_start answers.length).decides_settle (delivers_arrivals answers) 0
  constructor
  · intro h
    have hended : settle answers ≠ .never := by simp [h]
    have htime := time?_settle hended
    rw [← settle, h] at hdecides
    rw [h] at htime
    exact ⟨hdecides, Option.some.inj htime⟩
  · rintro ⟨hfirst, rfl⟩
    have hverdict : (settle answers).verdict = .found index := hdecides.unique hfirst
    have hended : settle answers ≠ .never := by
      intro hnever
      simp [hnever, Settled.verdict] at hverdict
    have htime := time?_settle hended
    cases hsettled : settle answers <;>
      simp_all [Settled.verdict, Settled.time?, Verdict.span]

/-- The choice finds nothing when all candidates are missing, once all have answered. -/
theorem settle_eq_missing_iff {answers : List Answer} {time : Nat} :
    settle answers = .missing time ↔
      Answers.AllMissing (answers.map Answer.outcome) ∧ time = latest answers := by
  have hdecides := (Watch.valid_start answers.length).decides_settle (delivers_arrivals answers) 0
  constructor
  · intro h
    have hended : settle answers ≠ .never := by simp [h]
    have htime := time?_settle hended
    rw [← settle, h] at hdecides
    rw [h] at htime
    refine ⟨hdecides, ?_⟩
    simpa [Settled.time?, Settled.verdict, Verdict.span] using htime
  · rintro ⟨hall, rfl⟩
    have hverdict : (settle answers).verdict = .missing := hdecides.unique hall
    have hended : settle answers ≠ .never := by
      intro hnever
      simp [hnever, Settled.verdict] at hverdict
    have htime := time?_settle hended
    cases hsettled : settle answers <;>
      simp_all [Settled.verdict, Settled.time?, Verdict.span]

end TemplateManifest
