import TemplateManifest.Disk.Basic

/-!
A disk held in memory: some files and directories below the root. Paths are followed component
by component, so that `..` goes back only from a directory that exists.
-/

namespace TemplateManifest

/-- The places of some files and directories, as lists of names below the root. -/
structure FileTree where
  files : List (List String × ByteArray) := []
  directories : List (List String) := []

namespace FileTree

/-- The tree with a file. -/
def addFile (tree : FileTree) (path : Path) (content : ByteArray) : FileTree :=
  { tree with files := (path.components, content) :: tree.files }

/-- The tree with a directory. -/
def addDirectory (tree : FileTree) (path : Path) : FileTree :=
  { tree with directories := path.components :: tree.directories }

/-- A directory stands at a place: one of its own, or one above something else. -/
def isDirectory (tree : FileTree) (place : List String) : Bool :=
  place.isEmpty || (tree.directories.any fun directory => place.isPrefixOf directory) ||
    tree.files.any fun file => place.isPrefixOf file.1 && place.length < file.1.length

/-- What stands at a place. -/
def entryAt (tree : FileTree) (place : List String) : FileEntry :=
  match tree.files.find? fun file => file.1 = place with
  | some file => .file file.2
  | none => if tree.isDirectory place then .directory else .absent .missing

/-- What stands at the end of some components that are followed from a place. -/
def follow (tree : FileTree) (place : List String) : List String → FileEntry
  | [] => tree.entryAt place
  | name :: names =>
    match tree.entryAt place with
    | .directory =>
      tree.follow (if name = ".." then place.dropLast else place ++ [name]) names
    | .file _ => .absent .notADirectory
    | .absent error => .absent error

/-- The path ends in a way that only a directory can. -/
def endsAsDirectory (path : Path) : Bool :=
  match path.text.toList.reverse with
  | '/' :: _ | '.' :: '/' :: _ => true
  | _ => false

/-- The tree as a disk. -/
def disk (tree : FileTree) : Disk := fun path =>
  match tree.follow [] path.components with
  | .file content =>
    if endsAsDirectory path then .absent .notADirectory else .file content
  | entry => entry

end FileTree

end TemplateManifest
