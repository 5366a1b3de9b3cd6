import TemplateManifest.Path

/-!
Choosing among candidates while it is not yet known which of them exist. All candidates are
asked at once. An earlier candidate beats a later one, whatever the order in which the answers
arrive, and the choice is made as soon as the answers decide it.
-/

namespace TemplateManifest

/-- What asking for a path comes to, on a clock that starts with the question. -/
inductive Answer where
  | after (delay : Nat) (present : Bool)
  | never
deriving DecidableEq, Repr, Inhabited

/-- What asking for each path comes to. -/
abbrev Probe := Path → Answer

/-- The answer for one candidate. -/
structure Completion where
  index : Nat
  present : Bool
deriving DecidableEq, Repr, Inhabited

/-- What follows from the answers so far. -/
inductive Verdict where
  | pending
  | found (index : Nat)
  | missing
deriving DecidableEq, Repr, Inhabited

/-- The answers so far, by candidate. -/
abbrev Answers := List (Option Bool)

/-- The answers so far, and how many candidates at the front are passed over as missing. -/
structure Watch where
  known : Answers
  best : Nat
deriving DecidableEq, Repr, Inhabited

namespace Watch

/-- No answer yet. -/
def start (count : Nat) : Watch := ⟨List.replicate count none, 0⟩

/-- The front after it has moved past the candidates known to be missing. -/
def passMissing (known : Answers) (best : Nat) : Nat :=
  best + ((known.drop best).takeWhile (· = some false)).length

/-- One more answer. -/
def deliver (w : Watch) (c : Completion) : Watch :=
  let known := w.known.set c.index (some c.present)
  ⟨known, passMissing known w.best⟩

/-- The candidate at the front decides. -/
def verdict (w : Watch) : Verdict :=
  match w.known[w.best]? with
  | none => .missing
  | some (some true) => .found w.best
  | some _ => .pending

end Watch

/-- How a choice ends, and when. -/
inductive Settled where
  | found (index time : Nat)
  | missing (time : Nat)
  | never
deriving DecidableEq, Repr, Inhabited

/-- How the choice ends when answers arrive at given times, the earliest first. -/
def Watch.settle (w : Watch) (now : Nat) (arrivals : List (Nat × Completion)) : Settled :=
  match w.verdict with
  | .found index => .found index now
  | .missing => .missing now
  | .pending =>
    match arrivals with
    | [] => .never
    | (time, c) :: arrivals => settle (w.deliver c) time arrivals

/-- When the answer for a candidate arrives, if it does. -/
def Answer.arrival? (answer : Answer) (index : Nat) : Option (Nat × Completion) :=
  match answer with
  | after delay present => some (delay, ⟨index, present⟩)
  | never => none

/-- The arrivals of the answers for some candidates, the earliest first; at equal times in the
    order of the candidates. -/
def arrivals (answers : List Answer) : List (Nat × Completion) :=
  (answers.zipIdx.filterMap fun (answer, index) => answer.arrival? index).mergeSort
    fun a b => decide (a.1 ≤ b.1)

/-- How the choice among candidates ends. -/
def settle (answers : List Answer) : Settled :=
  (Watch.start answers.length).settle 0 (arrivals answers)

end TemplateManifest
