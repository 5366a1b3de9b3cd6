import TemplateManifest.Path

/-!
The arguments of the command line. Flags for the whole program may stand before or after the
command. An option keeps its value until the next argument is read, so of several mistakes the
first one that is noticed counts.
-/

namespace TemplateManifest

/-- Why the arguments start no run. -/
inductive ArgumentStop where
  | help
  | version
  /-- Without any argument the usage is shown, but as a mistake. -/
  | usage
  | noCommand
  | unknownCommand
  | unknownArgument
  | noTemplate
  /-- A flag that got a value. -/
  | needlessValue
  /-- An option without its value, or with an empty path. -/
  | missingValue
  /-- An argument given twice, or two that exclude each other. -/
  | conflict
deriving DecidableEq, Repr, Inhabited

/-- The program ends successfully. -/
def ArgumentStop.isSuccess : ArgumentStop → Bool
  | help | version => true
  | _ => false

/-- The level at which an argument stands. -/
inductive Level where
  | program
  | command
deriving DecidableEq, Repr

/-- What an argument is about. -/
inductive Argument where
  | verbose
  | quiet
  | help
  | version
  | manifestOnly
  | config
  | searchPath
  | assetsPath
  | moduleVar
  | template
deriving DecidableEq, Repr

namespace Argument

/-- The argument takes a value. -/
def takesValue : Argument → Bool
  | config | searchPath | assetsPath | moduleVar | template => true
  | verbose | quiet | help | version | manifestOnly => false

/-- The value of the argument is a path. -/
def isPath : Argument → Bool
  | config | searchPath | assetsPath | template => true
  | _ => false

/-- The arguments known at a level by their long names. -/
def longNames : Level → List (String × Argument)
  | .program =>
    [("verbose", verbose), ("quiet", quiet), ("config", config), ("help", help),
     ("version", version)]
  | .command =>
    [("search-path", searchPath), ("assets-path", assetsPath), ("module-var", moduleVar),
     ("manifest-only", manifestOnly), ("verbose", verbose), ("quiet", quiet),
     ("config", config), ("help", help)]

/-- The arguments known at a level by a letter. -/
def letters : Level → List (Char × Argument)
  | .program => [('v', verbose), ('q', quiet), ('h', help), ('V', version)]
  | .command => [('v', verbose), ('q', quiet), ('h', help)]

end Argument

/-- The arguments of one level as far as they have been read. -/
structure Given where
  level : Level
  /-- The arguments that are settled, with their values, the latest first. -/
  settled : List (Argument × String) := []
  /-- The argument that is not settled yet, with its value, if it has come. -/
  pending : Option (Argument × Option String) := none
  /-- The template has been named. -/
  hasTemplate : Bool := false
deriving Repr

namespace Given

/-- The argument has been settled. -/
def has (g : Given) (a : Argument) : Bool :=
  g.settled.any fun entry => entry.1 = a

/-- The values of an argument in their order. -/
def values (g : Given) (a : Argument) : List String :=
  (g.settled.reverse.filter fun entry => entry.1 = a).map (·.2)

/-- The value of an argument. -/
def value? (g : Given) (a : Argument) : Option String :=
  (g.values a).head?

/-- Settles an argument. Only directories may be given several times. -/
def settle (g : Given) (a : Argument) (value : Option String) : Except ArgumentStop Given :=
  match a with
  | .help => .error .help
  | .version => .error .version
  | .searchPath | .assetsPath | .config | .moduleVar | .template =>
    match value with
    | none => .error .missingValue
    | some text =>
      if g.has a && !(a = .searchPath || a = .assetsPath) then .error .conflict
      else if a.isPath && text.isEmpty then .error .missingValue
      else .ok { g with settled := (a, text) :: g.settled }
  | .verbose | .quiet | .manifestOnly =>
    if g.has a then .error .conflict else .ok { g with settled := (a, "") :: g.settled }

/-- Settles the pending argument. -/
def settlePending (g : Given) : Except ArgumentStop Given :=
  match g.pending with
  | none => .ok g
  | some (a, value) => { g with pending := none }.settle a value

/-- Reads an argument that starts with two dashes: its name and a value after `=`. The flag
    says that the argument waits for its value. -/
def readLong (g : Given) (name : String) (value : Option String) :
    Except ArgumentStop (Given × Bool) :=
  match (Argument.longNames g.level).lookup name with
  | none => .error .unknownArgument
  | some a =>
    if a.takesValue then do
      let g ← g.settlePending
      match value with
      | some text => return (← g.settle a (some text), false)
      | none => return ({ g with pending := some (a, none) }, true)
    else
      match value with
      | some _ => .error .needlessValue
      | none => do
        let g ← g.settlePending
        return (← g.settle a none, false)

/-- Reads the letters after one dash. -/
def readLetters (g : Given) : List Char → Except ArgumentStop Given
  | [] => .ok g
  | letter :: rest =>
    match (Argument.letters g.level).lookup letter with
    | none => .error .unknownArgument
    | some a => do
      let g ← g.settlePending
      (← g.settle a none).readLetters rest

/-- Reads an argument that is neither an option nor the value of one. -/
def readPlain (g : Given) (afterDashes : Bool) (text : String) : Except ArgumentStop Given :=
  match g.level with
  | .program =>
    if afterDashes && (text = "process" || text = "help") then .error .unknownArgument
    else .error .unknownCommand
  | .command =>
    if g.hasTemplate then .error .unknownArgument
    else do
      let g ← g.settlePending
      return { g with pending := some (.template, some text), hasTemplate := true }

end Given

/-- The name of an option and its value after `=`. -/
def splitOption (text : List Char) : String × Option String :=
  let name := String.ofList (text.takeWhile (· ≠ '='))
  match text.dropWhile (· ≠ '=') with
  | [] => (name, none)
  | _ :: value => (name, some (String.ofList value))

/-- The words after `help`: at most the name of a command. -/
def stopForHelp : List String → ArgumentStop
  | [] | ["process"] | ["help"] => .help
  | _ => .unknownCommand

/-- Reads the arguments of a level, and gives those after the name of a command. The flags say
    that a value is awaited, and that everything stands after a pair of dashes. -/
def readLevel (g : Given) (awaited afterDashes : Bool) :
    List String → Except ArgumentStop (Given × Option (List String))
  | [] => .ok (g, none)
  | text :: rest =>
    if afterDashes then do
      readLevel (← g.readPlain true text) false true rest
    else if !awaited && g.level = .program && text = "process" then .ok (g, some rest)
    else if !awaited && g.level = .program && text = "help" then .error (stopForHelp rest)
    else
      match text.toList with
      | ['-', '-'] => readLevel g awaited true rest
      | '-' :: '-' :: chars => do
        let (name, value) := splitOption chars
        let (g, awaited) ← g.readLong name value
        readLevel g awaited false rest
      | '-' :: letter :: letters => do
        readLevel (← g.readLetters (letter :: letters)) false false rest
      | _ =>
        match awaited, g.pending with
        | true, some (a, _) =>
          readLevel { g with pending := some (a, some text) } false false rest
        | _, _ => do
          readLevel (← g.readPlain false text) false false rest

/-- What the program is asked to do. -/
structure Invocation where
  verbose : Bool
  quiet : Bool
  config : Option Path
  template : Path
  searchPaths : List Path
  assetsPaths : List Path
  moduleVar : Option String
  manifestOnly : Bool
deriving DecidableEq, Repr, Inhabited

namespace Given

/-- Settles what is pending at the end of a level. The configuration named by the environment
    counts where none is given, and must not be empty. -/
def finish (g : Given) (environment : Option String) : Except ArgumentStop Given := do
  let g ← g.settlePending
  if !g.has .config && environment = some "" then throw .missingValue
  return g

/-- Refuses flags that exclude each other. -/
def checkFlags (g : Given) : Except ArgumentStop Unit :=
  if g.has .verbose && g.has .quiet then .error .conflict else .ok ()

end Given

/-- Reads the arguments of the program, given the configuration that its environment names. The
    arguments of the command are checked before those of the program. -/
def Invocation.read (environment : Option String) (arguments : List String) :
    Except ArgumentStop Invocation := do
  let (program, rest) ← readLevel { level := .program } false false arguments
  match rest with
  | none =>
    let program ← program.finish environment
    if program.settled.isEmpty && environment.isNone then throw .usage
    throw .noCommand
  | some arguments =>
    let (command, _) ← readLevel { level := .command } false false arguments
    let command ← command.finish environment
    command.checkFlags
    match command.value? .template with
    | none => throw .noTemplate
    | some template =>
      let program ← program.finish environment
      program.checkFlags
      return {
        verbose := program.has .verbose || command.has .verbose
        quiet := program.has .quiet || command.has .quiet
        config :=
          (((command.value? .config).or (program.value? .config)).or environment).map Path.mk
        template := ⟨template⟩
        searchPaths := (command.values .searchPath).map Path.mk
        assetsPaths := (command.values .assetsPath).map Path.mk
        moduleVar := command.value? .moduleVar
        manifestOnly := command.has .manifestOnly }

/-- The level of messages that are logged; quiet programs log none. -/
def Invocation.logLevel (i : Invocation) : Option String :=
  if i.verbose then some "debug" else if i.quiet then none else some "info"

end TemplateManifest
