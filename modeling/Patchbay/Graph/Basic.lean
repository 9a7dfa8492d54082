import Patchbay.Catalog
import Patchbay.TypeTree.Binding

/-!
Placed nodes and the wires between their handles.
-/

namespace Patchbay

/-- The handle at which routes arrive at a node and leave it. -/
def triggerHandle : String := "_"

structure Position where
  x : Float
  y : Float

namespace Position

def zero : Position := ⟨0.0, 0.0⟩

def shifted (p : Position) (dx dy : Float) : Position := ⟨p.x + dx, p.y + dy⟩

end Position

/-- A node on the canvas.  `bindings` gives types to those parameters of its node type that are
resolved; `width` and `height` are `null` where none is set. -/
structure Node where
  id : String
  nodeType : String
  mode : Mode := .triggered
  inputs : List (Value × Value) := []
  bindings : Bindings := ∅
  position : Position := .zero
  width : Value := .null
  height : Value := .null

abbrev Nodes := Table Node

/-- Each node under its id.  Of two with one id the later counts, at the place of the first. -/
def Nodes.ofList (nodes : List Node) : Nodes := Table.ofList (nodes.map fun n => (n.id, n))

/-- Two handles, from an output to an input.  A handle may be missing. -/
structure Wire where
  source : String
  sourceHandle : Option String
  target : String
  targetHandle : Option String
deriving DecidableEq, Repr

/-- A wire in the graph.  `animated` and `stroke` say how it is drawn. -/
structure Edge where
  id : String
  wire : Wire
  animated : Bool := false
  stroke : Option String := none
deriving DecidableEq, Repr

namespace Edge

/-- Edges into a trigger are routes, all others carry data. -/
def isRoute (e : Edge) : Bool := e.wire.targetHandle == some triggerHandle

def leaves (e : Edge) (node : String) (handle : Option String) : Bool :=
  e.wire.source == node && e.wire.sourceHandle == handle

def enters (e : Edge) (node : String) (handle : Option String) : Bool :=
  e.wire.target == node && e.wire.targetHandle == handle

def touches (e : Edge) (node : String) (handle : Option String) : Bool :=
  e.leaves node handle || e.enters node handle

def meets (e : Edge) (node : String) : Bool := e.wire.source == node || e.wire.target == node

end Edge
end Patchbay
