import RouteSplit.Scope.Declarations

/-!
# Reads

- `Read`: a use of a name that takes what the name stands for, and the symbol it means;
- `reads`: all of them, in the order of the tree;
- `readsOf`: where one symbol is read.
-/

namespace RouteSplit.Scope

/-- A use that takes what a name stands for. -/
structure Read where
  site : Span
  name : String
  usage : Usage
  symbol : Symbol
deriving DecidableEq, Repr, Inhabited

/-- Whether the use takes what the name stands for. Types count: an import that only types use is
in use. -/
def isRead : Usage → Bool
  | .write => false
  | _ => true

def ownRead (table : Table) (env : Env) (label : Label) (span : Span) : List Read :=
  match label with
  | .expression (.reference name usage) =>
    if isRead usage then
      (table.resolve env name usage).toList.map fun symbol => ⟨span, name, usage, symbol⟩
    else []
  | _ => []

mutual

/-- The reads in a tree that stands in the scopes `env`. -/
def reads (table : Table) (env : Env) : Tree → List Read
  | .node label span parts =>
    ownRead table env label span ++
      readsAll table (fun i => opened label span parts i ++ env) 0 parts

/-- The reads in the parts of a node, the one at place `i` in the scopes `env i`. -/
def readsAll (table : Table) (env : Nat → Env) (i : Nat) : List Tree → List Read
  | [] => []
  | t :: ts => reads table (env i) t ++ readsAll table env (i + 1) ts

end

def readsOf (all : List Read) (symbol : Symbol) : List Span :=
  (all.filter (·.symbol == symbol)).map (·.site)

end RouteSplit.Scope
