import RouteSplit.Binding.Basic

/-!
# Places of removable names

A binding goes by the place of the name that it is known by.

- `targetSites`, `statementSites`: the places of the names that a declarator's target and a
  statement give up;
- `sites`: those of a whole tree, a list before the lists inside it.
-/

namespace RouteSplit.Binding

/-- The places of the names that the target of a declarator binds. A target of a shape that is not
understood gives none. -/
def targetSites (target : Tree) : List Span :=
  match declaratorTargets target with
  | .ok targets => targets.map (·.2)
  | .error _ => []

def importSites (specifiers : List Tree) : List Span :=
  specifiers.flatMap fun s => (nameOf (s.child 0)).toList.map (·.2)

/-- The places of the names that the parts of a statement go by. -/
def statementSites : Tree → List Span
  | .node (.function (.function .declaration false _)) _ [name, _, _, _, body] =>
    if body.isAbsent then [] else (nameOf name).toList.map (·.2)
  | .node (.statement (.variableList _ _)) _ declarators =>
    declarators.flatMap fun d => targetSites (d.child 0)
  | .node (.statement .expression) _ [e] => (assignedFunction? e).toList.map (·.2.1)
  | .node (.module (.importDeclaration _ _)) _
      (.node (.module .importClause) _ specifiers :: _) => importSites specifiers
  | _ => []

def listSites (label : Label) (parts : List Tree) : List Span :=
  if label == .module .statements then parts.flatMap statementSites else []

mutual

/-- The places of the names that the statements in a tree go by, where it is searched. -/
def sites : Tree → List Span
  | .node label _ parts => listSites label parts ++ sitesAll (Scope.searches label) parts

def sitesAll (searched : Label → Bool) : List Tree → List Span
  | [] => []
  | t :: ts => (if searched t.label then sites t else []) ++ sitesAll searched ts

end

end RouteSplit.Binding
