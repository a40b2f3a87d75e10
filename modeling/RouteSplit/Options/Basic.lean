/-!
# Options

- `BundleMode`: the bundle that a module is prepared for;
- `Options`: what a transform is told;
- `Options.client`, `Options.server`: the two usual ones.
-/

namespace RouteSplit

inductive BundleMode where
  | client
  | server
deriving DecidableEq, Repr, Inhabited

namespace BundleMode

/-- The mode of a bundle that keeps the server's side of a module, or does not. -/
def ofKeepsServer (keeps : Bool) : BundleMode := if keeps then .server else .client

def keepsServer : BundleMode → Bool
  | .client => false
  | .server => true

def name : BundleMode → String
  | .client => "client"
  | .server => "server"

@[simp] theorem ofKeepsServer_keepsServer (m : BundleMode) : ofKeepsServer m.keepsServer = m := by
  cases m <;> rfl

end BundleMode

/-- What a transform is told. -/
structure Options where
  mode : BundleMode := .client
  filename : String := "input.jsx"
  sourceMap : Bool := false
  /-- The export that loads a route's data. -/
  serverExportName : String := "routeData"
  /-- The export that marks a module which had one. -/
  markerName : String := "__has_server"
  /-- The passes that a sweep may take; any number if none is given. -/
  maxPasses : Option Nat := none
deriving DecidableEq, Repr, Inhabited

namespace Options

def client : Options := {}

def server : Options := { mode := .server }

def isServerExport (o : Options) (name : String) : Bool := o.serverExportName == name

def isMarker (o : Options) (name : String) : Bool := o.markerName == name

end Options

end RouteSplit
