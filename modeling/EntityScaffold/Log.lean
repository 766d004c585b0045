import EntityScaffold.Text.Basic

/-!
# Log records

What a run tells about itself beside its result: records with a level, the topic they belong
to, and a message.
-/

set_option autoImplicit false

namespace EntityScaffold.Log

/-- How much a record matters. -/
inductive Level where
  | debug
  | info
  | warning
  | error
  deriving DecidableEq, Repr

def Level.name : Level → Text
  | .debug => "DEBUG"
  | .info => "INFO"
  | .warning => "WARNING"
  | .error => "ERROR"

def Level.rank : Level → Nat
  | .debug => 0
  | .info => 1
  | .warning => 2
  | .error => 3

/-- What a record is about. -/
inductive Topic where
  | program
  | files
  | source
  | templates
  | editing
  | relations
  | inverseSides
  | storage
  | validation
  | generation
  deriving DecidableEq, Repr

def Topic.name : Topic → Text
  | .program => "entigen"
  | .files => "entigen.utils"
  | .source => "entigen.source"
  | .templates => "entigen.templates"
  | .editing => "entigen.mutators"
  | .relations => "entigen.resolver"
  | .inverseSides => "entigen.inverse_queue"
  | .storage => "entigen.storage"
  | .validation => "entigen.validators"
  | .generation => "entigen.generator"

/-- A record of the log. -/
structure Record where
  level : Level
  topic : Topic
  message : Text
  deriving DecidableEq, Repr

/-- Whether a log that begins at a level holds the record. -/
def Record.isShownFrom (least : Level) (r : Record) : Bool := least.rank ≤ r.level.rank

end EntityScaffold.Log
