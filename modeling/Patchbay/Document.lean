import Patchbay.Catalog
import Patchbay.Path
import Patchbay.Yaml.Reader

/-!
Documents in files.  Whoever reads a file gives what stands at its path; this module says what
document that is.
-/

namespace Patchbay

inductive FileEntry where
  | file (octets : List Nat)
  | directory
  | missing
  /-- The path leads through something that is no directory. -/
  | blocked
deriving DecidableEq, Repr

structure FileSource (m : Type → Type) where
  entry : Path → m FileEntry

/-! ### Files in memory -/

/-- Files by the parts of their paths, below the directory that relative paths start in. -/
structure FileTree where
  files : List (List String × List Nat)

namespace FileTree

/-- What stands at the parts of a path below the directory, double dots left out. -/
def at? (t : FileTree) (parts : List String) : FileEntry :=
  match t.files.find? fun f => f.1 == parts with
  | some (_, octets) => .file octets
  | none =>
    if parts = [] ∨ t.files.any (fun f => parts.isPrefixOf f.1) then .directory else .missing

/-- Follow the parts of a path from the directory `here`, the innermost name first.  `above` counts
the steps out of the tree. -/
def walk (t : FileTree) : Nat → List String → List String → FileEntry
  | 0, here, [] => t.at? here.reverse
  | _ + 1, _, [] => .directory
  | above + 1, here, part :: rest =>
    if part = ".." then walk t (above + 2) here rest else .missing
  | 0, here, part :: rest =>
    if part = ".." then
      match here with
      | [] => walk t 1 [] rest
      | _ :: outer => walk t 0 outer rest
    else
      let inner := part :: here
      match t.at? inner.reverse with
      | .directory => walk t 0 inner rest
      | .file octets => if rest = [] then .file octets else .blocked
      | e => e

def entry (t : FileTree) (p : Path) : FileEntry :=
  match p.root, p.parts with
  | .relative, parts => t.walk 0 [] parts
  | _, [] => .directory
  | _, _ :: _ => .missing

def source (t : FileTree) : FileSource Id := ⟨t.entry⟩

end FileTree

namespace Document

/-- The text of a file, with every line break a line feed. -/
def text (path : Path) : FileEntry → Except FileFault String
  | .missing => .error (.missing path.text)
  | .blocked => .error .notDirectory
  | .directory => .error .directory
  | .file octets =>
    match Text.Utf8.decode octets with
    | .ok s => .ok (String.ofList (Text.unixLines s.toList))
    | .error f => .error (.undecodable f)

/-- JSON by the name of the file; blank text is no document. -/
def parse (path : Path) (text : String) : Except Fault Value :=
  if path.isJson then
    if Text.strip text.toList = [] then .ok .null
    else
      match Json.parse text with
      | .ok v => .ok v
      | .error (.longInteger n) => .error (.value (.longInteger n))
      | .error f => .error (.file (.badJson path.name f))
  else
    match Yaml.parse text with
    | some v => .ok v
    | none => .error (.file (.badYaml path.name))

/-- The root of a document is a dictionary; an empty document has an empty one. -/
def fields (path : Path) : Value → Except Fault (List (Value × Value))
  | .null => .ok []
  | .dict fs => .ok fs
  | _ => .error (.file (.rootNotMapping path.name))

def load (path : Path) : FileEntry → Except Fault (List (Value × Value))
  | .missing => .error (.file (.noConfig path.text))
  | .blocked => .error (.file (.noConfig path.text))
  | entry => do
    let s ← (text path entry).mapError .file
    let v ← parse path s
    fields path v

end Document

def Catalog.load (path : Path) (entry : FileEntry) : Except Fault Catalog := do
  let fs ← Document.load path entry
  Catalog.ofValue (.dict fs)

end Patchbay
