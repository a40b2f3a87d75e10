import RouteSplit.Transform

/-!
# Sessions

A session takes the steps of a transform one at a time, on one module and one context.

- `Session`: a module as it is now, and the context of its steps;
- `seed`, `resolve`, `sweep`, `decorate`: the steps of a transform;
- `bindings`, `exports`: what can be seen of the module;
- `cut`, `track`: changes by hand.
-/

namespace RouteSplit

/-- A module as it is now, and the context of its steps. -/
structure Session where
  module : Module
  context : Context := {}

namespace Session

def start? (filename source : String) : Option Session :=
  (Module.parse? (Dialect.ofFilename filename) source).map fun m => { module := m }

def withRoot (s : Session) (root : Tree) : Session := { s with module := { s.module with root } }

def code (s : Session) : String := s.module.print "\t"

def refs (s : Session) : List Span := s.context.refs.mergeSort Span.before

def seed (s : Session) : Session × Except PassError Unit :=
  match Sweep.seed s.module.root s.context with
  | .ok c => ({ s with context := c }, .ok ())
  | .error e => (s, .error e)

def resolve (o : Options) (s : Session) : Session :=
  let (root, c) := Export.resolve o s.module.root s.context
  { s.withRoot root with context := c }

def sweep (o : Options) (s : Session) : Session × Except PassError Unit :=
  let r := Sweep.sweep o s.module.root s.context
  ({ s.withRoot r.root with context := r.context }, r.result)

def decorate (o : Options) (s : Session) : Session × Bool :=
  let (root, c, injected) := Export.decorate o s.module.root s.context
  ({ s.withRoot root with context := c }, injected)

/-- What can be seen of a binding. -/
structure View where
  binding : Binding
  reads : List Span
  referenced : Bool
  tracked : Bool

def bindings (s : Session) : Except PassError (List View) := do
  let found ← Binding.collect s.module.root
  let reads := Binding.readsIn s.module.root
  return found.map fun b =>
    { binding := b
      reads := Scope.readsOf reads b.symbol
      referenced := Binding.isReferenced reads b
      tracked := s.context.isTracked b.site }

def exports (s : Session) : List (Option Export.Record) := s.module.body.map Export.Record.classify

def cut (i : Nat) (s : Session) : Session × Bool :=
  let statements := s.module.body
  if i < statements.length then
    (s.withRoot (Module.withStatements s.module.root (statements.eraseIdx i)), true)
  else (s, false)

/-- Adds a place to those that are tracked. Tells whether it was new. -/
def track (site : Span) (s : Session) : Session × Bool :=
  ({ s with context := s.context.track site }, !s.context.isTracked site)

end Session

/-! ## Wrappers -/

/-- An expression as it is judged: its place, that of what its wrappers hold, and whether that is
a function. -/
structure Judged where
  span : Span
  peeled : Span
  functionLike : Bool
deriving DecidableEq, Repr, Inhabited

def declaredValues : Tree → List Tree
  | .node (.statement (.variableList _ _)) _ declarators =>
    (declarators.map (·.child 2)).filter (!·.isAbsent)
  | _ => []

def topExpressions : Tree → List Tree
  | .node (.module (.exportNamed _)) _ (declaration :: _) => declaredValues declaration
  | .node (.statement .expression) _ [e] => [e]
  | t => declaredValues t

/-- The expressions at the top of a module, each as it is judged. -/
def Module.judged (m : Module) : List Judged :=
  m.body.flatMap fun t => (topExpressions t).map fun e => ⟨e.span, e.peel.span, e.isFunctionLike⟩

end RouteSplit
