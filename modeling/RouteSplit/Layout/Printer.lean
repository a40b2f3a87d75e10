import RouteSplit.Layout.Elements
import RouteSplit.Layout.Modules
import RouteSplit.Module.Basic

/-!
# Printing modules

- `Layout.step`: the layout of a node from its parts;
- `Module.print`: the text of a module.
-/

namespace RouteSplit

/-- The text of a node, computed from its parts. -/
def Layout.step (label : Label) (span : Span) (parts : List Layout.Part) : Layout.Printer :=
  match label with
  | .absent => fun _ => ""
  | .module form => Layout.moduleForm form span parts
  | .statement form => Layout.statement form span parts
  | .function form => Layout.function form span parts
  | .classes form => Layout.classes form parts
  | .expression form => Layout.expression form span parts
  | .pattern form => Layout.pattern form parts
  | .jsx form => Layout.jsx form span parts
  | .type form => Layout.type form span parts

def Module.print (m : Module) (indent : String) : String :=
  (m.root.fold Layout.step { indent := indent, dialect := m.dialect }).render m.comments

end RouteSplit
