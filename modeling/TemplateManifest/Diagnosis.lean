import TemplateManifest.Failure

/-!
How a failed command is reported to a user: a message, further details, and a suggestion.
-/

namespace TemplateManifest

/-- What went wrong first. -/
inductive Cause where
  | failure (failure : Failure)
  | file (error : FileError)
  | note (text : String)
deriving DecidableEq, Repr, Inhabited

/-- The text of a cause. -/
def Cause.text : Cause → String
  | .failure f => f.message
  | .file e => e.text
  | .note words => words

/-- A cause and what was being done when it struck, the outermost activity first. -/
structure Trouble where
  activities : List String := []
  cause : Cause
deriving DecidableEq, Repr, Inhabited

namespace Trouble

/-- The trouble seen from an activity around it. -/
def during (activity : String) (t : Trouble) : Trouble :=
  { t with activities := activity :: t.activities }

/-- The activities and the cause on one line. -/
def text (t : Trouble) : String :=
  String.intercalate ": " (t.activities ++ [t.cause.text])

/-- A failure without any activity around it. -/
def ofFailure (failure : Failure) : Trouble :=
  ⟨[], .failure failure⟩

end Trouble

/-- A report for a user. -/
structure Diagnosis where
  message : String
  details : Option String := none
  suggestion : Option String := none
  /-- The failure that is reported, if it is to be kept. -/
  failure : Option Failure := none
deriving DecidableEq, Repr, Inhabited

namespace Diagnosis

/-- The option that lists the directories for a kind of reference. -/
def directoryOption : ReferenceKind → String
  | .template => "search_paths"
  | .asset => "assets_paths"

/-- What a user should know about a failure besides its message. -/
def detailsFor : Failure → Option String
  | .parse _ _ _ _ =>
    some "The template could not be parsed, so none of its dependencies were resolved"
  | .notFound kind _ [] => some ("`" ++ directoryOption kind ++ "` is empty")
  | .notFound _ _ (path :: paths) =>
    some ("Searched:\n" ++
      String.intercalate "\n" ((path :: paths).map fun candidate => "  " ++ candidate.text))
  | .addonLoad kind _ _ _ => some ("Every declared " ++ kind.label ++ " is loaded before parsing")
  | .unsupported _ _ _ | .compile _ _ | .config _ | .file _ => none

/-- What a user should try after a failure. -/
def suggestionFor : Failure → Option String
  | .parse _ _ _ _ =>
    some "Check tag delimiters, unclosed blocks and custom tags registered as extensions"
  | .notFound kind _ _ =>
    some ("Add the directory containing it to `" ++ directoryOption kind ++
      "`, or fix the reference")
  | .unsupported _ _ _ =>
    some "Build dynamic asset paths only from string literals and plain variables joined with `+`"
  | .addonLoad _ _ _ _ => some "Check the module path in the configuration"
  | .compile _ _ => some "Declare every filter and extension the template uses"
  | .config _ => some "Check the syntax of the tmpldeps.toml configuration file"
  | .file _ => none

/-- What a user should try when a file cannot be used. -/
def suggestionForFile : FileFault → Option String
  | .notFound => some "Check that the file or directory exists and the path is correct"
  | .permissionDenied => some "Check file ownership and permissions"
  | .other => none

/-- The report of a failure alone, which keeps it. -/
def ofFailure (failure : Failure) : Diagnosis :=
  { message := failure.message, failure := some failure }

/-- The report of a trouble. A failure speaks for itself; any other cause is shown with the
    activities around it. -/
def ofTrouble (t : Trouble) : Diagnosis :=
  match t.cause with
  | .failure failure =>
    { message := failure.message, details := detailsFor failure,
      suggestion := suggestionFor failure }
  | .file error => { message := t.text, suggestion := suggestionForFile error.fault }
  | .note _ => { message := t.text }

/-- The report as plain text. -/
def text (d : Diagnosis) : String :=
  d.message ++ (d.details.elim "" fun details => "\nDetails: " ++ details) ++
    (d.suggestion.elim "" fun suggestion => "\nSuggestion: " ++ suggestion)

/-- A label of the report in a colour, or plain. -/
def label (coloured : Bool) (colour name : String) : String :=
  if coloured then "\x1b[" ++ colour ++ "m" ++ name ++ "\x1b[0m: " else name ++ ": "

/-- The report as a terminal shows it: bold red for the message's label, yellow for that of the
    details, green for that of the suggestion. -/
def terminalText (coloured : Bool) (d : Diagnosis) : String :=
  label coloured "1;31" "error" ++ d.message ++ "\n" ++
    (d.details.elim "" fun details => label coloured "33" "details" ++ details ++ "\n") ++
    (d.suggestion.elim "" fun suggestion =>
      label coloured "32" "suggestion" ++ suggestion ++ "\n")

end Diagnosis

end TemplateManifest
