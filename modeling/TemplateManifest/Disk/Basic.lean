import TemplateManifest.Failure
import TemplateManifest.Resolve.Race

/-!
What a program sees of a file system: what stands at each path. A session is a program that
looks at paths one after the other, whatever answers the looks.
-/

namespace TemplateManifest

/-- What stands at a path. -/
inductive FileEntry where
  | directory
  | file (content : ByteArray)
  | absent (error : FileError)
deriving Inhabited

namespace FileError

/-- Nothing stands at the path. -/
def missing : FileError := ⟨.notFound, "No such file or directory (os error 2)"⟩

/-- The path goes on below a file. -/
def notADirectory : FileError := ⟨.other, "Not a directory (os error 20)"⟩

/-- The content of a directory was asked for. -/
def isADirectory : FileError := ⟨.other, "Is a directory (os error 21)"⟩

/-- The content of a file is no text. -/
def invalidText : FileError := ⟨.other, "stream did not contain valid UTF-8"⟩

end FileError

namespace FileEntry

/-- Something stands at the path. -/
def isPresent : FileEntry → Bool
  | directory | file _ => true
  | absent _ => false

/-- The content of a file as text. -/
def text : FileEntry → Except FileError String
  | directory => .error .isADirectory
  | absent error => .error error
  | file content =>
    match String.fromUTF8? content with
    | some text => .ok text
    | none => .error .invalidText

end FileEntry

/-- What stands at each absolute path. -/
abbrev Disk := Path → FileEntry

namespace Disk

/-- Asking a disk for a path is answered at once. -/
def probe (disk : Disk) : Probe := fun path => .after 0 (disk path).isPresent

/-- The disk of which only some paths are known. -/
def ofEntries (entries : List (Path × FileEntry)) : Disk := fun path =>
  ((entries.find? fun entry => entry.1 = path).map (·.2)).getD (.absent .missing)

end Disk

/-- A program that looks at paths. -/
inductive Session (α : Type) where
  | done (value : α)
  | look (path : Path) (next : FileEntry → Session α)

namespace Session

/-- Goes on with the value of a session. -/
def bind {α β : Type} : Session α → (α → Session β) → Session β
  | done value, next => next value
  | look path rest, next => look path fun entry => (rest entry).bind next

instance : Monad Session where
  pure := done
  bind := bind

/-- The value of a session on a disk. -/
def run {α : Type} (disk : Disk) : Session α → α
  | done value => value
  | look path next => (next (disk path)).run disk

@[simp]
theorem run_done {α : Type} (disk : Disk) (value : α) : (done value).run disk = value := rfl

@[simp]
theorem run_bind {α β : Type} (disk : Disk) (s : Session α) (next : α → Session β) :
    (s.bind next).run disk = (next (s.run disk)).run disk := by
  induction s with
  | done value => rfl
  | look path rest ih => exact ih (disk path)

/-- What stands at a path. -/
def entry (path : Path) : Session FileEntry := look path done

/-- What stands at some paths. -/
def gather : List Path → Session (List (Path × FileEntry))
  | [] => done []
  | path :: paths =>
    look path fun found => (gather paths).bind fun entries => done ((path, found) :: entries)

end Session

end TemplateManifest
