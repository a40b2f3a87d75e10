import RouteSplit.Tree.Basic

/-!
# Wrappers around expressions

Parentheses and type annotations change nothing about the value of an expression.

- `Tree.peel`: an expression without its wrappers;
- `Tree.isFunctionLike`: whether an expression is, apart from wrappers, a function.
-/

namespace RouteSplit.Tree

/-- The expression inside all wrappers: parentheses, type assertions of every form, and the mark
that a value is there. -/
def peel : Tree → Tree
  | .node (.expression .paren) _ [e] => peel e
  | .node (.expression .asType) _ [e, _] => peel e
  | .node (.expression .satisfiesType) _ [e, _] => peel e
  | .node (.expression .nonNull) _ [e] => peel e
  | .node (.expression .typeAssertion) _ [_, e] => peel e
  | t => t

def isFunctionLike (t : Tree) : Bool :=
  match t.peel.label with
  | .function (.function .value _ _) => true
  | .function (.arrow _) => true
  | _ => false

end RouteSplit.Tree
