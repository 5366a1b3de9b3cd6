import Mathlib.Data.List.Basic
import TemplateManifest.Resolve.Lookup

/-!
What the answers for some candidates decide, and that a watch over them reads it off: the front
of a watch stands at the first candidate that is not known to be missing.
-/

namespace TemplateManifest

namespace Answers

/-- Candidate `k` exists, and every better one is missing. -/
def FirstPresent (outcomes : Answers) (k : Nat) : Prop :=
  outcomes[k]? = some (some true) ∧ ∀ i < k, outcomes[i]? = some (some false)

/-- Every candidate is missing. This holds in particular when there is none. -/
def AllMissing (outcomes : Answers) : Prop :=
  ∀ i < outcomes.length, outcomes[i]? = some (some false)

/-- What the outcomes of all candidates come to. Answers that never arrive are the outcome
    `none`, so a choice that waits for one of them stays pending. -/
def Decides (outcomes : Answers) : Verdict → Prop
  | .found k => outcomes.FirstPresent k
  | .missing => outcomes.AllMissing
  | .pending => (∀ k, ¬ outcomes.FirstPresent k) ∧ ¬ outcomes.AllMissing

/-- The outcomes bear out every answer known so far. -/
def Extends (known outcomes : Answers) : Prop :=
  outcomes.length = known.length ∧
    ∀ (i : Nat) (b : Bool), known[i]? = some (some b) → outcomes[i]? = some (some b)

/-- The answers known so far leave only one verdict, however the other probes turn out. -/
def Decided (known : Answers) : Prop :=
  ∃ v, ∀ outcomes, known.Extends outcomes → outcomes.Decides v

theorem FirstPresent.lt_length {outcomes : Answers} {k : Nat} (h : outcomes.FirstPresent k) :
    k < outcomes.length := by
  obtain ⟨hk, _⟩ := List.getElem?_eq_some_iff.mp h.1
  exact hk

theorem FirstPresent.unique {outcomes : Answers} {k k' : Nat} (h : outcomes.FirstPresent k)
    (h' : outcomes.FirstPresent k') : k = k' := by
  rcases Nat.lt_trichotomy k k' with hlt | heq | hgt
  · have hmissing := h'.2 k hlt
    rw [h.1] at hmissing
    cases hmissing
  · exact heq
  · have hmissing := h.2 k' hgt
    rw [h'.1] at hmissing
    cases hmissing

theorem AllMissing.not_firstPresent {outcomes : Answers} (h : outcomes.AllMissing) (k : Nat) :
    ¬ outcomes.FirstPresent k := by
  intro hfirst
  have hmissing := h k hfirst.lt_length
  rw [hfirst.1] at hmissing
  cases hmissing

/-- Outcomes have at most one verdict, so it is a function of the outcomes alone. -/
theorem Decides.unique {outcomes : Answers} {v v' : Verdict} (h : outcomes.Decides v)
    (h' : outcomes.Decides v') : v = v' := by
  cases v with
  | pending =>
    cases v' with
    | pending => rfl
    | found k => exact absurd h' (h.1 k)
    | missing => exact absurd h' h.2
  | found k =>
    cases v' with
    | pending => exact absurd h (h'.1 k)
    | found k' => rw [FirstPresent.unique h h']
    | missing => exact absurd h (AllMissing.not_firstPresent h' k)
  | missing =>
    cases v' with
    | pending => exact absurd h h'.2
    | found k => exact absurd h' (AllMissing.not_firstPresent h k)
    | missing => rfl

theorem Extends.refl (known : Answers) : known.Extends known :=
  ⟨rfl, fun _ _ h => h⟩

/-- A verdict other than `pending` is final: it stands whatever else becomes known. -/
theorem Decides.of_extends {known outcomes : Answers} {v : Verdict} (h : known.Decides v)
    (hv : v ≠ .pending) (hextends : known.Extends outcomes) : outcomes.Decides v := by
  obtain ⟨hlength, htold⟩ := hextends
  cases v with
  | pending => exact absurd rfl hv
  | found k => exact ⟨htold k true h.1, fun i hi => htold i false (h.2 i hi)⟩
  | missing => exact fun i hi => htold i false (h i (hlength ▸ hi))

end Answers

namespace Watch

/-- The front of the watch: all candidates before it are known to be missing, and it is not. -/
structure Valid (w : Watch) : Prop where
  passed : ∀ i < w.best, w.known[i]? = some (some false)
  front : w.known[w.best]? ≠ some (some false)

/-- Candidates that the front moves over are missing, and the one it stops at is not. -/
theorem getElem?_passMissing (known : Answers) (best : Nat) :
    (∀ i, best ≤ i → i < passMissing known best → known[i]? = some (some false)) ∧
      known[passMissing known best]? ≠ some (some false) := by
  have hsplit := List.takeWhile_append_dropWhile (p := (· = some false)) (l := known.drop best)
  have hget (i : Nat) : known[best + i]? = (known.drop best)[i]? := by simp
  constructor
  · intro i hle hlt
    obtain ⟨j, rfl⟩ := Nat.exists_eq_add_of_le hle
    have hj : j < ((known.drop best).takeWhile (· = some false)).length := by
      unfold passMissing at hlt
      omega
    have hpassed := List.all_eq_true.mp (List.all_takeWhile (p := (· = some false))
      (l := known.drop best)) _ (List.getElem_mem hj)
    rw [hget, ← hsplit, List.getElem?_append_left hj, List.getElem?_eq_getElem hj]
    simpa using hpassed
  · intro hfront
    unfold passMissing at hfront
    rw [hget, ← hsplit, List.getElem?_append_right (by simp)] at hfront
    simp only [hsplit, Nat.sub_self] at hfront
    have hhead := List.head?_dropWhile_not (· = some false) (known.drop best)
    rw [List.head?_eq_getElem?, hfront] at hhead
    simp at hhead

theorem valid_start (count : Nat) : (start count).Valid := by
  refine ⟨fun i hi => absurd hi (Nat.not_lt_zero i), ?_⟩
  simp [start, List.getElem?_replicate]

/-- An answer for a candidate that was still open keeps the front valid. The candidates before
    the front have all answered, so the answer cannot overwrite one of them. -/
theorem Valid.deliver {w : Watch} (hvalid : w.Valid) {c : Completion}
    (hopen : w.known[c.index]? = some none) : (w.deliver c).Valid := by
  have hbest : w.best ≤ c.index := by
    by_contra hlt
    have hpassed := hvalid.passed c.index (by omega)
    rw [hopen] at hpassed
    cases hpassed
  obtain ⟨hpassed, hfront⟩ := getElem?_passMissing (w.known.set c.index (some c.present)) w.best
  refine ⟨fun i hi => ?_, hfront⟩
  rcases Nat.lt_or_ge i w.best with hlt | hge
  · have hne : c.index ≠ i := by omega
    simpa [Watch.deliver, List.getElem?_set_ne hne] using hvalid.passed i hlt
  · exact hpassed i hge hi

/-- A valid watch tells exactly what its answers decide. -/
theorem Valid.decides_verdict {w : Watch} (hvalid : w.Valid) : w.known.Decides w.verdict := by
  unfold verdict
  split
  · next hend =>
    intro i hi
    have hlength : w.known.length ≤ w.best := List.getElem?_eq_none_iff.mp hend
    exact hvalid.passed i (by omega)
  · next hpresent => exact ⟨hpresent, hvalid.passed⟩
  · next answer hpresent hfront =>
    have hopen : w.known[w.best]? = some none := by
      cases answer with
      | none => exact hfront
      | some present =>
        cases present with
        | true => exact absurd rfl hpresent
        | false => exact absurd hfront hvalid.front
    have hlength : w.best < w.known.length := (List.getElem?_eq_some_iff.mp hopen).1
    constructor
    · intro k hfirst
      rcases Nat.lt_trichotomy k w.best with hlt | heq | hgt
      · have hmissing := hvalid.passed k hlt
        rw [hfirst.1] at hmissing
        cases hmissing
      · have hpresent := hfirst.1
        rw [heq, hopen] at hpresent
        cases hpresent
      · have hmissing := hfirst.2 w.best hgt
        rw [hopen] at hmissing
        cases hmissing
    · intro hall
      have hmissing := hall w.best hlength
      rw [hopen] at hmissing
      cases hmissing

end Watch

end TemplateManifest
