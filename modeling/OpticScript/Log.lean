/-!
# Log records

What is told to a log while a script is read : a message at a level.
-/

namespace OpticScript

/-- How detailed a record is. -/
inductive LogLevel where
  | debug
  | trace
  deriving DecidableEq, Inhabited

def LogLevel.label : LogLevel → String
  | debug => "DEBUG"
  | trace => "TRACE"

/-- A message for a log. -/
structure LogRecord where
  level : LogLevel
  message : String
  deriving DecidableEq, Inhabited

/-- The level and the message. -/
def LogRecord.render (entry : LogRecord) : String :=
  entry.level.label ++ " " ++ entry.message

end OpticScript
