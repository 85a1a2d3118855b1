/-!
# Diagnostics

Problems in a form that can be shown to a user: a severity, an error code, a name, and labels that
say what the problem is about.

## Main definitions

* `Diagnostic` — a problem and its labels.
* `Diagnostic.render` — its text, with one line for each label.
-/

namespace AsnModel

/-- How serious a problem is. -/
inductive Severity where
  /-- A fatal problem. -/
  | error
  /-- A problem that should be fixed, but that does not stop processing. -/
  | warning
  /-- A remark. -/
  | note
deriving DecidableEq

/-- The word that introduces a diagnostic of this severity. -/
def Severity.word : Severity → String
  | error => "Error"
  | warning => "Warning"
  | note => "Note"

/-- One piece of information attached to a diagnostic. -/
structure Label where
  /-- The definition or node that the message is about, if any. -/
  subject : Option String
  message : String
deriving DecidableEq

/-- A problem, ready to be shown to a user. -/
structure Diagnostic where
  severity : Severity
  code : String
  name : String
  labels : List Label
deriving DecidableEq

namespace Diagnostic

/-- The line of a label, indented below the diagnostic's own line. -/
def labelLine (severity : Severity) (label : Label) : String :=
  match label.subject with
  | some subject => "\t" ++ severity.word ++ " [" ++ subject ++ "]: " ++ label.message
  | none => "\t" ++ severity.word ++ ": " ++ label.message

/-- The text of a diagnostic, without a line feed at its end. -/
def render (d : Diagnostic) : String :=
  "\n".intercalate
    ((d.severity.word ++ " " ++ d.code ++ ": " ++ d.name) :: d.labels.map (labelLine d.severity))

end Diagnostic

end AsnModel
