import EntityScaffold.Value.Basic

/-!
# Issues

What validation finds: errors, warnings and remarks, with a code, a wording and what they are
about; and the report that lists them.
-/

set_option autoImplicit false

namespace EntityScaffold.Validation

open Text

/-- How serious an issue is. -/
inductive Severity where
  | error
  | warning
  | info
  deriving DecidableEq, Repr

def Severity.name : Severity → Text
  | .error => "error"
  | .warning => "warning"
  | .info => "info"

/-- The sign of a severity in a report. -/
def Severity.sign : Severity → Text
  | .error => "❌"
  | .warning => "⚠️"
  | .info => "ℹ️"

/-- Something that validation finds. -/
structure Issue where
  severity : Severity
  code : Text
  message : Text
  /-- What it is about, by name. -/
  context : List (Text × Value) := []

def Issue.isError (i : Issue) : Bool := i.severity = .error

def Issue.isWarning (i : Issue) : Bool := i.severity = .warning

/-- An issue on one line. -/
def Issue.line (i : Issue) : Text :=
  "[" ++ (match i.severity with
    | .error => ("ERROR" : Text)
    | .warning => "WARNING"
    | .info => "INFO") ++ "] " ++ i.code ++ ": " ++ i.message

abbrev Issues := List Issue

namespace Issues

def errors (is : Issues) : Issues := is.filter (·.isError)

def warnings (is : Issues) : Issues := is.filter (·.isWarning)

/-- Whether there are no errors. -/
def isValid (is : Issues) : Bool := !is.any (·.isError)

/-- The codes that occur, in order. -/
def codes (is : Issues) : List Text := Text.sort (Text.distinct (is.map (·.code)))

def summary (is : Issues) : Text :=
  "Validation: " ++ ofNat (errors is).length ++ " error(s), " ++ ofNat (warnings is).length ++
    " warning(s), " ++ ofNat is.length ++ " total item(s)."

def describe (is : Issues) : Text := "<ValidationResult " ++ summary is ++ ">"

/-- The lines of an issue in a report. -/
def reportLines (i : Issue) : List Text :=
  ("  " ++ i.severity.sign ++ " [" ++ i.code ++ "] " ++ i.message) ::
    i.context.map fun (k, v) => "       " ++ k ++ ": " ++ v.message

/-- The report, with or without remarks. -/
def report (is : Issues) (withRemarks : Bool) : Text :=
  ofLines (summary is :: [] ::
    (is.filter fun i => withRemarks || i.severity != .info).flatMap reportLines)

end Issues

end EntityScaffold.Validation
