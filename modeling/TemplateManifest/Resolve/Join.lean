import TemplateManifest.Resolve.Lookup

/-!
Several lookups at once. They are started in order, and one failure ends the whole call.

Up to `joinLimit` lookups the failure that is known first wins, and of two at the same time the
earlier lookup; a lookup that fails at once keeps the later ones from being started. A longer
list is awaited in order: a failure counts when everything before it has been found.
-/

namespace TemplateManifest

/-- How a join of lookups ends. -/
inductive Joined where
  | found (paths : List (String × Path))
  | missing (lookup : Lookup)
  | never
deriving DecidableEq, Repr, Inhabited

/-- The number of lookups up to which the first failure known wins. -/
def joinLimit : Nat := 30

namespace Joined

/-- A join with one more lookup found in front. -/
def cons (name : String) (path : Path) : Joined → Joined
  | found paths => found ((name, path) :: paths)
  | missing lookup => missing lookup
  | never => never

end Joined

namespace Lookup

/-- The lookup that fails first, and when; of two at the same time the earlier one. -/
def firstMissing? (probe : Probe) : List Lookup → Option (Nat × Lookup)
  | [] => none
  | l :: lookups =>
    match l.settled probe, firstMissing? probe lookups with
    | .missing time, some (time', l') => if time' < time then some (time', l') else some (time, l)
    | .missing time, none => some (time, l)
    | _, later => later

/-- What comes of lookups that are awaited in order. -/
def awaitInOrder (probe : Probe) : List Lookup → Joined
  | [] => .found []
  | l :: lookups =>
    match l.resolution (l.settled probe) with
    | .missing _ => .missing l
    | .never => .never
    | .found path => (awaitInOrder probe lookups).cons l.name path

/-- What comes of lookups of which the first failure known wins. -/
def failFast (probe : Probe) (lookups : List Lookup) : Joined :=
  match firstMissing? probe lookups with
  | some (_, l) => .missing l
  | none => awaitInOrder probe lookups

/-- What comes of some lookups. -/
def join (probe : Probe) (lookups : List Lookup) : Joined :=
  if lookups.length ≤ joinLimit then failFast probe lookups else awaitInOrder probe lookups

/-- The lookups that are started: all up to one that fails at once. -/
def startedUntilMissing (probe : Probe) : List Lookup → List Lookup
  | [] => []
  | l :: lookups =>
    if l.settled probe = .missing 0 then [l] else l :: startedUntilMissing probe lookups

/-- The lookups that are started when they are awaited in order: once one of them takes time,
    all are. -/
def startedInOrder (probe : Probe) : List Lookup → List Lookup
  | [] => []
  | l :: lookups =>
    match l.settled probe with
    | .missing 0 => [l]
    | .found _ 0 => l :: startedInOrder probe lookups
    | _ => l :: lookups

/-- The paths that are asked for, in the order of the questions. -/
def asked (probe : Probe) (lookups : List Lookup) : List Path :=
  let started :=
    if lookups.length ≤ joinLimit then startedUntilMissing probe lookups
    else startedInOrder probe lookups
  started.flatMap Lookup.candidates

end Lookup

end TemplateManifest
