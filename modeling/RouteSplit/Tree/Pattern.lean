import RouteSplit.Tree.Basic

/-!
# Names that a target binds

- `Tree.boundNames`: the names in a declaration's target, each with its place.
-/

namespace RouteSplit.Tree

mutual

/-- The names that a target binds, with their places, from left to right. -/
def boundNames : Tree → List (String × Span)
  | .node (.pattern (.binding name)) span _ => [(name, span)]
  | .node (.pattern (.property _)) _ [_, t] => boundNames t
  | .node (.pattern .withDefault) _ (t :: _) => boundNames t
  | .node (.pattern .object) _ parts => boundNamesAll parts
  | .node (.pattern .array) _ parts => boundNamesAll parts
  | .node (.pattern .rest) _ [t] => boundNames t
  | _ => []

def boundNamesAll : List Tree → List (String × Span)
  | [] => []
  | t :: ts => boundNames t ++ boundNamesAll ts

end

end RouteSplit.Tree
