import RouteSplit.Binding.Basic

/-!
# The state of a transform

- `Context`: what a transform of one module has found out and done so far;
- `Context.track`: adding a binding to those that may be removed.
-/

namespace RouteSplit

/-- What a transform of one module has found out and done so far. -/
structure Context where
  /-- Names of the bindings that were read when the module was first seen. Only they may go. -/
  refs : List Span := []
  /-- The module exported server data. -/
  hasServerExport : Bool := false
  /-- The marker is there. -/
  done : Bool := false
  /-- Passes taken, the last one without a removal included. -/
  passes : Nat := 0
  /-- The bindings that went, in order. -/
  removed : List Removed := []
deriving DecidableEq, Repr, Inhabited

namespace Context

def isTracked (c : Context) (site : Span) : Bool := c.refs.contains site

def track (c : Context) (site : Span) : Context :=
  if c.isTracked site then c else { c with refs := c.refs ++ [site] }

end Context

end RouteSplit
