/-!
Edit distance between words, and the closest of several known words.
-/

namespace TemplateManifest.Text

/-- The entries of the next row of the distance table, after its first one. `left` is the
    entry just written, and `row` the previous row from the entry above and to the left. -/
def distanceEntries (c : Char) : Nat → List Char → List Nat → List Nat
  | left, d :: word, diagonal :: above :: row =>
    let entry := min (min (left + 1) (above + 1)) (if c = d then diagonal else diagonal + 1)
    entry :: distanceEntries c entry word (above :: row)
  | _, _, _ => []

/-- The row of the distance table that belongs to one more character `c`. -/
def distanceRow (word : List Char) (row : List Nat) (c : Char) : List Nat :=
  match row with
  | [] => []
  | first :: _ => (first + 1) :: distanceEntries c (first + 1) word row

/-- The least number of insertions, deletions and replacements of one character that turn one
    word into the other. -/
def editDistance (source target : List Char) : Nat :=
  (source.foldl (distanceRow target) (List.range (target.length + 1))).getLast?.getD 0

/-- The first of the least elements by `key`. -/
def firstMinimum {α : Type} (key : α → Nat) : List α → Option α
  | [] => none
  | x :: xs =>
    match firstMinimum key xs with
    | none => some x
    | some y => if key y < key x then some y else some x

/-- The known word closest to `word`, among those that half of its length (in bytes, and at
    least one edit) reaches; the first of several equally close ones. -/
def closest? (word : String) (known : List String) : Option String :=
  let limit := max (word.utf8ByteSize * 50 / 100) 1
  let distance (other : String) := editDistance word.toList other.toList
  firstMinimum distance (known.filter fun other => distance other ≤ limit)

end TemplateManifest.Text
