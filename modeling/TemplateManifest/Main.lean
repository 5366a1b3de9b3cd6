import TemplateManifest.CommandLine.Command
import TemplateManifest.Uuid

/-!
The program: it reads its arguments, looks at the file system, and prints.
-/

namespace TemplateManifest

/-- What the program is for and how it is called. -/
def usageText : String :=
  "Resolve template dependencies and precompile templates for bundlers\n\n" ++
  "Usage: tmpldeps [OPTIONS] process [OPTIONS] <TEMPLATE>\n\n" ++
  "Options of the program:\n" ++
  "  -v, --verbose            Log every message\n" ++
  "  -q, --quiet              Log nothing\n" ++
  "      --config <FILE>      Use this configuration file [env: TMPLDEPS_CONFIG]\n" ++
  "  -h, --help               Print this help\n" ++
  "  -V, --version            Print the version\n\n" ++
  "Options of the command:\n" ++
  "      --search-path <DIR>  Search this directory for templates\n" ++
  "      --assets-path <DIR>  Search this directory for assets\n" ++
  "      --module-var <NAME>  Bind the compiled module to this variable\n" ++
  "      --manifest-only      Leave the compiled text out\n"

/-- The name of the program and its version. -/
def versionText : String := "tmpldeps 0.1.0\n"

/-- What is wrong with the arguments. -/
def ArgumentStop.text : ArgumentStop → String
  | .help | .usage => usageText
  | .version => versionText
  | .noCommand => "error: a command is missing\n"
  | .unknownCommand => "error: unknown command\n"
  | .unknownArgument => "error: unexpected argument\n"
  | .noTemplate => "error: the template is missing\n"
  | .needlessValue => "error: a flag takes no value\n"
  | .missingValue => "error: a value is missing\n"
  | .conflict => "error: arguments exclude each other\n"

/-- A refusal of the operating system. -/
def fileErrorOf : IO.Error → FileError
  | .noFileOrDirectory .. => .missing
  | .permissionDenied .. => ⟨.permissionDenied, "Permission denied (os error 13)"⟩
  | .inappropriateType .. => .notADirectory
  | e => ⟨.other, toString e⟩

/-- What stands at an absolute path. -/
def lookAt (path : Path) : IO FileEntry := do
  let place := (← IO.currentDir) / path.text
  try
    let _ ← place.metadata
    if ← place.isDir then return .directory
    return .file (← IO.FS.readBinFile place)
  catch e => return .absent (fileErrorOf e)

/-- Carries a session out. -/
def perform {α : Type} : Session α → IO α
  | .done value => return value
  | .look path next => do
    perform (next (← lookAt path))

/-- A random number below `256 ^ count`. -/
def randomNumber (count : Nat) : IO Nat := do
  let bytes ← IO.getRandomBytes count.toUSize
  return bytes.toList.foldl (fun n byte => 256 * n + byte.toNat) 0

/-- Messages in colour go to terminals only. -/
def wantsColour : IO Bool := do
  return (← (← IO.getStdout).isTty) && (← IO.getEnv "NO_COLOR").isNone

/-- Runs the program and gives its exit code. -/
def runProgram (arguments : List String) : IO UInt32 := do
  match Invocation.read (← IO.getEnv "TMPLDEPS_CONFIG") arguments with
  | .error stop =>
    if stop.isSuccess then
      IO.print stop.text
      return 0
    IO.eprint stop.text
    return 2
  | .ok i =>
    let cwd : Path := ⟨(← IO.currentDir).toString⟩
    let ending ← perform (i.run (.ofSeed (← randomNumber 16)) cwd)
    if i.logLevel.isSome then
      for warning in ending.warnings do
        IO.eprintln ("WARN " ++ warning.message)
    match ending.result with
    | .ok text =>
      IO.print text
      return 0
    | .error t =>
      IO.eprint ((Diagnosis.ofTrouble t).terminalText (← wantsColour))
      return 1

end TemplateManifest

/-- The entry point of the program. -/
def main (arguments : List String) : IO UInt32 :=
  TemplateManifest.runProgram arguments
