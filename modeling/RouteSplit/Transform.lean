import RouteSplit.Export.Record
import RouteSplit.Layout.Printer
import RouteSplit.Sweep.Basic

/-!
# The transform of a module

The bindings in use are noted first; then exports go that the bundle does not need, then whatever
they alone kept in use; and a module that had server data is marked.

- `Report`, `Output`: what a transform did, and what it gives;
- `Tree.split`: the transform of a tree;
- `transform`: that of a text.
-/

namespace RouteSplit

structure Report where
  hasServerExport : Bool
  markerInjected : Bool
  passes : Nat
  removed : List Removed
deriving DecidableEq, Repr, Inhabited

/-- A module's new text, its source map if one was asked for, and what was done. The map is known
by the text that it refers to. -/
structure Output where
  code : String
  map : Option (String × String)
  report : Report
deriving DecidableEq, Repr, Inhabited

def Tree.split (o : Options) (root : Tree) : Except PassError (Tree × Report) := do
  -- Noted before the exports go: what was in use then may go later, what was not stays.
  let seeded ← Sweep.seed root {}
  let (resolved, c) := Export.resolve o root seeded
  let swept := Sweep.sweep o resolved c
  swept.result
  let (marked, c, injected) := Export.decorate o swept.root swept.context
  return (marked, ⟨c.hasServerExport, injected, c.passes, c.removed⟩)

def transform (o : Options) (source : String) : Except PassError Output :=
  match Module.parse? (Dialect.ofFilename o.filename) source with
  | none => .error (.hostFailure ("failed to parse " ++ o.filename ++ ": "))
  | some m => do
    let (root, report) ← m.root.split o
    return {
      code := { m with root }.print "  "
      map := if o.sourceMap then some (o.filename, source) else none
      report }

def transformBatch (o : Options) (modules : List (String × String)) :
    List (Except PassError Output) :=
  modules.map fun (filename, source) => transform { o with filename } source

end RouteSplit
