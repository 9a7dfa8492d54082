import Patchbay.Command.Grammar
import Patchbay.Flow
import Patchbay.Settings
import Patchbay.Settings.Override
import Patchbay.Value.Literal

/-!
The commands: parse type expressions, resolve one type against another, and check the edges of a
flow.
-/

namespace Patchbay
namespace Command

inductive Request where
  | parse (expressions : List String) (asJson : Bool)
  | resolve (unresolved concrete : String) (params : List String)
  | check (flow : Path) (catalog : Option Path)
deriving DecidableEq, Repr

/-- A request with the settings that it is to run by. -/
structure Invocation where
  settings : Option Path
  overrides : List String
  request : Request
deriving DecidableEq, Repr

/-! ### Arguments -/

def helpFlag : Flag := { names := ["-h", "--help"], effect := .help }

def grammar : Grammar :=
  { program := "flowtypes"
    flags := [helpFlag, { names := ["--config"], effect := .value },
      { names := ["--set"], effect := .value }]
    places := [{ name := "command", extent := .rest }] }

def parseGrammar : Grammar :=
  { program := "flowtypes parse"
    flags := [helpFlag, { names := ["--json"], effect := .switch }]
    places := [{ name := "expressions", extent := .many }] }

def resolveGrammar : Grammar :=
  { program := "flowtypes resolve"
    flags := [helpFlag, { names := ["--param"], effect := .value, required := true }]
    places := [{ name := "unresolved", extent := .one }, { name := "concrete", extent := .one }] }

def checkGrammar : Grammar :=
  { program := "flowtypes check"
    flags := [helpFlag, { names := ["--metas"], effect := .value }]
    places := [{ name := "flow", extent := .one }] }

def commands : List String := ["parse", "resolve", "check"]

def argument (r : Reading) (place : String) : String := (r.arguments place).headD ""

/-- The request of a command, with the arguments that it does not know. -/
def requestOf (name : String) (arguments : List String) : Except Stop (Request × List String) :=
  match name with
  | "parse" => do
    let r ← parseGrammar.read arguments
    return (.parse (r.arguments "expressions") (r.value? "--json").isSome, r.extras)
  | "resolve" => do
    let r ← resolveGrammar.read arguments
    return (.resolve (argument r "unresolved") (argument r "concrete") (r.values "--param"),
      r.extras)
  | "check" => do
    let r ← checkGrammar.read arguments
    return (.check (.ofText (argument r "flow")) ((r.value? "--metas").map .ofText), r.extras)
  | other => .error (.refused grammar.program (.unknownCommand other commands))

/-- What a command line asks for.  Arguments that are unknown are told last. -/
def Invocation.read (arguments : List String) : Except Stop Invocation := do
  let r ← grammar.read arguments
  let command := r.arguments "command"
  let (request, extras) ← requestOf (command.headD "") command.tail
  match r.extras ++ extras with
  | [] =>
    return {
      settings := (r.value? "--config").map .ofText
      overrides := r.values "--set"
      request }
  | extras => throw (.refused grammar.program (.unrecognized extras))

/-! ### Running -/

structure Result where
  exitCode : Nat
  output : String := ""
  errors : String := ""
deriving DecidableEq, Repr

def lines (ls : List String) : String := String.join (ls.map (· ++ "\n"))

def runParse (expressions : List String) (asJson : Bool) : Except Fault Result := do
  let trees ← expressions.mapM fun s => (TypeTree.parse s).mapError .expression
  if asJson then
    let document := Value.list (trees.map TypeTree.toValue)
    return { exitCode := 0, output := lines [Json.writeIndented 0 document] }
  else return { exitCode := 0, output := lines (trees.map TypeTree.format) }

def bindingLines (b : Bindings) : List String :=
  (b.entries.mergeSort fun x y => x.1 ≤ y.1).map fun (name, t) => name ++ " = " ++ t.format

def runResolve (unresolved concrete : String) (params : List String) : Except Fault Result := do
  let u ← (TypeTree.parse unresolved).mapError .expression
  let c ← (TypeTree.parse concrete).mapError .expression
  match TypeTree.resolve params u c with
  | .ok b => return { exitCode := 0, output := lines (bindingLines b) }
  | .error o =>
    return { exitCode := 1, errors := lines ["[flowtypes] unresolvable: " ++ o.message] }

def auditResult (catalog : Catalog) (nodes : List Node) (edges : List Edge) :
    Except Fault Result := do
  let issues ← (Audit.ofGraph catalog (Nodes.ofList nodes) edges).issues
  let summary := "[flowtypes] checked " ++ toString edges.length ++ " edge(s), " ++
    toString issues.length ++ " issue(s)"
  return {
    exitCode := if issues.isEmpty then 0 else 1
    output := lines (issues.map (fun (id, reason) => id ++ ": " ++ reason.name) ++ [summary]) }

/-- Check a flow with what stands at the paths of the catalog and the flow. -/
def checkEntries (s : Settings) (catalogPath : Path) (catalogEntry : FileEntry) (flowPath : Path)
    (flowEntry : FileEntry) : Except Fault Result := do
  let catalog ← Catalog.load catalogPath catalogEntry
  let (nodes, edges) ← Flow.ofEntry catalog (.ofColors s.palette) flowPath flowEntry
  auditResult catalog nodes edges

def runCheck {m : Type → Type} [Monad m] (files : FileSource m) (s : Settings) (flow : Path)
    (catalog : Option Path) : m (Except Fault Result) :=
  match catalog <|> s.catalogPath with
  | none => pure (.error .noCatalogPath)
  | some catalogPath => do
    let catalogEntry ← files.entry catalogPath
    let flowEntry ← files.entry flow
    return checkEntries s catalogPath catalogEntry flow flowEntry

def runRequest {m : Type → Type} [Monad m] (files : FileSource m) (s : Settings) :
    Request → m (Except Fault Result)
  | .parse expressions asJson => pure (runParse expressions asJson)
  | .resolve unresolved concrete params => pure (runResolve unresolved concrete params)
  | .check flow catalog => runCheck files s flow catalog

/-- Faults that are told to the user; all others are defects of what was given to the program. -/
def isReported (f : Fault) : Bool :=
  match f.kind with
  | .expression => true
  | .missingFile => true
  | k => k.isInvalid

def report : Except Fault Result → Except Fault Result
  | .ok r => .ok r
  | .error f =>
    if isReported f then .ok { exitCode := 1, errors := lines ["[flowtypes] error: " ++ f.message] }
    else .error f

/-- The value of an override: a literal, or else the text itself. -/
def overrideValue (text : String) : Except Fault Value := (Literal.coerce text).mapError .value

/-- Run a request by the settings that are named, with the overrides laid over them. -/
def Invocation.run {m : Type → Type} [Monad m] (files : FileSource m) (i : Invocation) :
    m (Except Fault Result) := do
  match Override.ofItems overrideValue i.overrides with
  | .error f => return report (.error f)
  | .ok overrides =>
    match ← Settings.load files i.settings (.dict overrides) with
    | .error f => return report (.error f)
    | .ok s => return report (← runRequest files s i.request)

end Command
end Patchbay
