import TemplateManifest.Resolve.Race

/-!
Looking a name up in directories: each directory gives one candidate, and the first candidate
that exists is the one.
-/

namespace TemplateManifest

/-- A name and the paths under which it may exist, the best first. -/
structure Lookup where
  name : String
  candidates : List Path
deriving DecidableEq, Repr, Inhabited

/-- The candidate for a name in a directory. Leading slashes do not count, so that every name
    stays below the directory; a name without more to it stands for the directory. -/
def Path.candidate (directory : Path) (name : String) : Path :=
  let relative := String.ofList (name.toList.dropWhile (· = '/'))
  if relative = "" ∨ relative = "." then directory else directory.join ⟨relative⟩

/-- What a lookup comes to. -/
inductive Resolution where
  | found (path : Path)
  /-- No candidate exists; all of them are listed. -/
  | missing (searched : List Path)
  | never
deriving DecidableEq, Repr, Inhabited

namespace Lookup

/-- The lookup of a name in some directories, seen from the working directory. -/
def inDirectories (cwd : Path) (directories : List Path) (name : String) : Lookup :=
  ⟨name, directories.map fun directory => (directory.absolute cwd).candidate name⟩

/-- How the lookup ends. -/
def settled (l : Lookup) (probe : Probe) : Settled :=
  settle (l.candidates.map probe)

/-- What a lookup that has ended gives: the candidate found, or all that were searched. -/
def resolution (l : Lookup) : Settled → Resolution
  | .found index _ => .found (l.candidates.getD index default)
  | .missing _ => .missing l.candidates
  | .never => .never

/-- The text of a lookup that found nothing. -/
def missingText (l : Lookup) : String :=
  "none of " ++ toString l.candidates.length ++ " candidate paths exist"

end Lookup

end TemplateManifest
