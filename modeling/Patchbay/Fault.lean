import Patchbay.Json.Reader
import Patchbay.Text.Utf8
import Patchbay.TypeTree.Document
import Patchbay.TypeTree.Parser
import Patchbay.Value.Convert

/-!
All that can go wrong, by cause.  `Fault.message` holds the wording; `Fault.kind` says to which
family a fault belongs, since some operations turn whole families into another fault.
-/

namespace Patchbay

inductive CatalogFault where
  | notMapping
  | declarationNotMapping (nodeType : String)
  | portsNotList (nodeType : String)
  | portIncomplete (nodeType : String)
deriving DecidableEq, Repr

def CatalogFault.message : CatalogFault → String
  | .notMapping => "node metadata must be a mapping of node type to declaration"
  | .declarationNotMapping t => "metadata for " ++ Text.quote t ++ " must be a mapping"
  | .portsNotList t => "ports of " ++ Text.quote t ++ " must be a list"
  | .portIncomplete t => "port declarations of " ++ Text.quote t ++ " need 'name' and 'type'"

inductive FlowFault where
  | notObject
  | notList (name : String)
  | bindingsNotObject (id : Value)
  | notJson (fault : Json.Fault)
  | notJsonFile

def FlowFault.message : FlowFault → String
  | .notObject => "flow document must be a JSON object"
  | .notList name => "'" ++ name ++ "' must be a list"
  | .bindingsNotObject id => "generic_types of node " ++ id.shown ++ " must be an object"
  | .notJson f => "flow is not valid JSON: " ++ f.message
  | .notJsonFile => "only .json flow files can be imported"

inductive EditFault where
  | unknownNode (id : String)
  | unknownNodeType (nodeType : String)
  | startDuplicated
  | startDeleted
  | startMode
deriving DecidableEq, Repr

def EditFault.message : EditFault → String
  | .unknownNode id => "unknown node: " ++ id
  | .unknownNodeType t => "unknown node type: " ++ t
  | .startDuplicated => "start node cannot be duplicated"
  | .startDeleted => "start node cannot be deleted"
  | .startMode => "start node can only use triggered execution mode"

inductive FileFault where
  /-- A settings or metadata file that is not there. -/
  | noConfig (path : String)
  /-- Any other file that is not there. -/
  | missing (path : String)
  | directory
  /-- A path that leads through a file. -/
  | notDirectory
  | undecodable (fault : Text.Utf8.Fault)
  | badJson (name : String) (fault : Json.Fault)
  | badYaml (name : String)
  | rootNotMapping (name : String)
deriving DecidableEq, Repr

def FileFault.message : FileFault → String
  | .noConfig path => "configuration file not found: " ++ path
  | .missing path => "[Errno 2] No such file or directory: " ++ Text.quote path
  | .directory => "[Errno 21] Is a directory"
  | .notDirectory => "[Errno 20] Not a directory"
  | .undecodable f => f.message
  | .badJson name f => "failed to parse " ++ name ++ ": " ++ f.message
  | .badYaml name => "failed to parse " ++ name ++ ": the document is malformed"
  | .rootNotMapping name => "root of " ++ name ++ " must be a mapping"

inductive OverrideFault where
  | noEquals (item : String)
  | noKey
  | conflict (key : String)
deriving DecidableEq, Repr

def OverrideFault.message : OverrideFault → String
  | .noEquals item => "override '" ++ item ++ "' is missing '='"
  | .noKey => "override key must not be empty"
  | .conflict key => "override '" ++ key ++ "' conflicts with an existing value"

inductive Fault where
  | expression (fault : TypeTree.SyntaxFault)
  | shape (fault : TypeTree.ShapeFault)
  | value (mismatch : Value.Mismatch)
  /-- No mode of execution has this name. -/
  | mode (given : Value)
  | catalog (fault : CatalogFault)
  | flow (fault : FlowFault)
  /-- A part of a flow document cannot be used. -/
  | flowPart (cause : Fault)
  | edit (fault : EditFault)
  | file (fault : FileFault)
  | override (fault : OverrideFault)
  /-- A command needs metadata and none is named. -/
  | noCatalogPath
  /-- A value that is no path. -/
  | notPath (kind : Value.Kind)
  | metricName
  | metricValue (given : Value)
  | loggerName
  /-- A whole number with more digits than are written. -/
  | integerText

inductive Fault.Kind where
  | expression
  | invalid
  | flow
  | edit
  | undecodable
  | missingFile
  | directory
  | notDirectory
  | mistyped
  | noMember
  | missingKey
  | overflow
deriving DecidableEq, Repr

namespace Fault

def mismatchKind : Value.Mismatch → Kind
  | .notIterable _ | .notSubscriptable _ | .listIndex _ | .textIndex | .notPair _
  | .unhashable _ | .notReal _ | .notInteger _ | .noParts _ => .mistyped
  | .noMember _ _ => .noMember
  | .missing _ => .missingKey
  | .pairLength _ _ | .badReal _ | .badInteger _ | .longInteger _ | .undefinedInteger
  | .tooFew _ | .tooMany => .invalid
  | .infiniteInteger | .tooLarge => .overflow

def fileKind : FileFault → Kind
  | .noConfig _ | .missing _ => .missingFile
  | .directory => .directory
  | .notDirectory => .notDirectory
  | .undecodable _ => .undecodable
  | .badJson _ _ | .badYaml _ | .rootNotMapping _ => .invalid

def kind : Fault → Kind
  | .expression _ => .expression
  | .value m => mismatchKind m
  | .flow _ | .flowPart _ => .flow
  | .edit _ => .edit
  | .file f => fileKind f
  | .notPath _ | .metricValue _ => .mistyped
  | .shape _ | .mode _ | .catalog _ | .override _ | .noCatalogPath | .metricName | .loggerName
  | .integerText => .invalid

def message : Fault → String
  | .expression f => f.message
  | .shape f => f.message
  | .value m => m.message
  | .mode v => v.shown ++ " is not a valid ExecutionType"
  | .catalog f => f.message
  | .flow f => f.message
  | .flowPart cause => "invalid flow document: " ++ cause.message
  | .edit f => f.message
  | .file f => f.message
  | .override f => f.message
  | .noCatalogPath => "node metadata path required (--metas or node_metas_path)"
  | .notPath k => "a path must be a text, not " ++ k.name
  | .metricName => "metric name must be a non-empty string"
  | .metricValue v => "metric value for " ++ v.shown ++ " must be numeric"
  | .loggerName => "logger name must be a non-empty string"
  | .integerText =>
    "Exceeds the limit (" ++ toString Number.maxIntegerDigits ++
      " digits) for integer string conversion; use sys.set_int_max_str_digits() to increase " ++
      "the limit"

end Fault

/-- Whether a fault is one of unusable values in the wide sense: undecodable text, unusable flow
documents and forbidden changes are such. -/
def Fault.Kind.isInvalid : Fault.Kind → Bool
  | .invalid | .flow | .edit | .undecodable => true
  | _ => false

end Patchbay
