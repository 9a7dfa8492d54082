/-!
Log records.
-/

namespace Patchbay

inductive LogLevel where
  | info
  | warning
deriving DecidableEq, Repr

def LogLevel.name : LogLevel → String
  | .info => "INFO"
  | .warning => "WARNING"

structure LogRecord where
  level : LogLevel
  logger : String
  message : String
deriving DecidableEq, Repr

def LogRecord.line (r : LogRecord) : String :=
  r.level.name ++ " " ++ r.logger ++ ": " ++ r.message

end Patchbay
