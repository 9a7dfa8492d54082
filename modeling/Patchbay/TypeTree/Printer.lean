import Patchbay.TypeTree.Basic

/-!
The canonical spelling of a type: `label<first, second>`.
-/

namespace Patchbay
namespace TypeTree

mutual

def format : TypeTree → String
  | .node l [] => l
  | .node l (a :: as) => l ++ "<" ++ format a ++ formatRest as ++ ">"

/-- Arguments after the first, each behind a comma and a space. -/
def formatRest : List TypeTree → String
  | [] => ""
  | a :: as => ", " ++ format a ++ formatRest as

end

end TypeTree
end Patchbay
