import TemplateManifest.Config
import TemplateManifest.Process

/-!
Addons that are described by files. A file says which tags an extension has, whether it takes a
body, how its calls name it, and whether calls are asynchronous; for a filter only the last
counts.
-/

namespace TemplateManifest

/-- The description of an addon. -/
structure AddonFile where
  tags : List String := []
  hasBody : Bool := false
  identity : Identity := .name
  isAsync : Bool := false
deriving DecidableEq, Repr, Inhabited

/-- The identity that a word names. -/
def Identity.ofName? : String → Option Identity
  | "name" => some .name
  | "instance" => some .handle
  | _ => none

/-- The identity that a value names: by a word, or by a table with an empty entry for it. -/
def Identity.ofValue? : Toml.Value → Option Identity
  | .string word => ofName? word
  | .table [(word, .table [])] | .table [(word, .array [])] => ofName? word
  | _ => none

namespace AddonFile

/-- The description with the value of one key. -/
def withKey? (f : AddonFile) (key : String) (value : Toml.Value) : Option AddonFile :=
  match key with
  | "tags" => value.texts?.map fun tags => { f with tags := tags }
  | "body" => value.boolean?.map fun flag => { f with hasBody := flag }
  | "identity" => (Identity.ofValue? value).map fun identity => { f with identity := identity }
  | "async" => value.boolean?.map fun flag => { f with isAsync := flag }
  | _ => none

/-- The description that a document gives. -/
def ofDocument (source : String) : Except Toml.Fault AddonFile := do
  let entries ← Toml.parse source
  Toml.expected (entries.foldlM (fun f (key, value) => f.withKey? key value) {})

/-- The addon of a description. An extension without tags has its declared name as its tag. -/
def addon (f : AddonFile) (name : String) : AddonKind → Addon
  | .extension =>
    .extension (if f.tags.isEmpty then [name] else f.tags)
      (.standard f.hasBody f.identity f.isAsync)
  | .filter => .filter f.isAsync

/-- The description in the file at a path, given what stands there. -/
def ofEntry (path : Path) (entry : FileEntry) : Except Trouble AddonFile :=
  match entry.text with
  | .error error => .error ⟨["Failed to read addon descriptor " ++ path.text], .file error⟩
  | .ok source =>
    (ofDocument source).mapError (Config.parseTrouble ("Invalid addon descriptor " ++ path.text))

/-- Loads addons from their files; relative paths count from the directory `base`. -/
def loader (disk : Disk) (base : Path) : Loader := fun kind name modulePath =>
  let path := base.join modulePath
  match ofEntry path (disk path) with
  | .error t => .error t.text
  | .ok f => .ok (f.addon name kind)

end AddonFile

end TemplateManifest
