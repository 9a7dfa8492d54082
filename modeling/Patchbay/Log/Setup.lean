import Patchbay.Document
import Patchbay.Log

/-!
The set-up of logging: a built-in one, over which a file may lay sections of its own.
-/

namespace Patchbay
namespace LogSetup

/-- Records go to the error stream, from the level `INFO` on. -/
def standard : List (Value × Value) :=
  [(.str "version", .int 1),
    (.str "disable_existing_loggers", .bool false),
    (.str "formatters", .record [("plain",
      .record [("format", .str "%(levelname)s %(name)s: %(message)s")])]),
    (.str "handlers", .record [("stderr",
      .record [("class", .str "logging.StreamHandler"), ("stream", .str "ext://sys.stderr"),
        ("formatter", .str "plain")])]),
    (.str "loggers", .record [("flowtypes",
      .record [("level", .str "INFO"), ("handlers", .list [.str "stderr"]),
        ("propagate", .bool false)])])]

def sections : List String :=
  ["version", "disable_existing_loggers", "formatters", "filters", "handlers", "root", "loggers"]

def isSection : Value → Bool
  | .str s => sections.contains s
  | _ => false

/-- The built-in set-up with the sections of a file laid over it. -/
def ofFields (fields : List (Value × Value)) : List (Value × Value) :=
  Value.putFields standard (fields.filter fun (k, _) => isSection k)

def ignoredRecord (path : Path) (f : Fault) : LogRecord :=
  { level := .warning
    logger := "flowtypes.telemetry"
    message := "ignoring " ++ path.name ++ ": " ++ f.message }

/-- The set-up by what stands at a path.  A file with an unusable document is passed over and that
is logged; where there is no file nothing is. -/
def load (path : Path) (entry : FileEntry) :
    Except Fault (List (Value × Value) × List LogRecord) :=
  match entry with
  | .missing => .ok (standard, [])
  | .blocked => .ok (standard, [])
  | entry =>
    match Document.load path entry with
    | .ok fields => .ok (ofFields fields, [])
    | .error f => if f.kind.isInvalid then .ok (standard, [ignoredRecord path f]) else .error f

/-- The name of a logger is a text that is not empty. -/
def loggerName : Value → Except Fault String
  | .str s => if s = "" then .error .loggerName else .ok s
  | _ => .error .loggerName

end LogSetup
end Patchbay
