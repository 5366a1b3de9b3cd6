/-!
File paths as text. Joining and taking the parent keep the text as it was written; two paths
name the same place when their components agree.
-/

namespace TemplateManifest

/-- A path, as it was written. -/
structure Path where
  text : String
deriving DecidableEq, Repr, Inhabited

namespace Path

/-- The path starts at the root. -/
def isAbsolute (p : Path) : Bool :=
  p.text.toList.head? = some '/'

/-- `p` seen from the directory `base`. An absolute path stays itself; otherwise one separator
    stands between the two. -/
def join (base p : Path) : Path :=
  if p.isAbsolute || base.text.isEmpty then p
  else if base.text.toList.getLast? = some '/' then ⟨base.text ++ p.text⟩
  else ⟨base.text ++ "/" ++ p.text⟩

/-- The parts of a text between slashes. -/
def splitSlashes : List Char → List (List Char)
  | [] => [[]]
  | c :: text =>
    if c = '/' then [] :: splitSlashes text
    else
      match splitSlashes text with
      | [] => [[c]]
      | part :: parts => (c :: part) :: parts

/-- The components of a path. Empty parts do not count, and a single dot counts only where a
    relative path starts with it. -/
def components (p : Path) : List String :=
  let parts := (splitSlashes p.text.toList).map String.ofList
  match parts with
  | "." :: rest => "." :: rest.filter fun part => part ≠ "" ∧ part ≠ "."
  | parts => parts.filter fun part => part ≠ "" ∧ part ≠ "."

/-- The two paths have the same components. -/
def sameAs (p q : Path) : Bool :=
  p.isAbsolute = q.isAbsolute && p.components = q.components

/-- A reversed path text without the separators and dots after its last component. -/
def dropTrailing : List Char → List Char
  | ['/'] => ['/']
  | '/' :: text => dropTrailing text
  | '.' :: '/' :: text => dropTrailing ('/' :: text)
  | text => text

/-- The path without its last component; none for the root and for the empty path. -/
def parent? (p : Path) : Option Path :=
  match dropTrailing p.text.toList.reverse with
  | [] => none
  | ['/'] => none
  | text => some ⟨String.ofList (dropTrailing (text.dropWhile (· ≠ '/'))).reverse⟩

/-- The path seen from the working directory `cwd`. -/
def absolute (p cwd : Path) : Path :=
  if p.isAbsolute then p else cwd.join p

theorem isAbsolute_join {base p : Path} (h : base.isAbsolute = true) :
    (base.join p).isAbsolute = true := by
  unfold join
  split
  · next hp =>
    cases hbase : p.isAbsolute with
    | true => rfl
    | false => simp_all [isAbsolute]
  · split <;> simp_all [isAbsolute, List.head?_append]

end Path

end TemplateManifest
