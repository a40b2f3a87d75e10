import RouteSplit.Scope.Basic

/-!
# Tables of symbols

Declarations of one name in one scope are one symbol. A `var` joins a symbol of its name that a
block on its way already knows, and takes it along if nothing of that name is declared where it
goes; it leaves its mark on all the blocks on its way, so that a later declaration of the same name
in one of them joins it.

- `Table`: which scope knows which name as which symbol;
- `Table.declare`, `Table.ofDeclarations`: the table of a list of declarations;
- `Table.resolve`: the symbol that a use of a name means;
- `Table.declared`: the symbol that a declaration belongs to.
-/

namespace RouteSplit.Scope

/-- A symbol in the scope that it belongs to. -/
structure Bound where
  scope : ScopeId
  symbol : Symbol
  meaning : Meaning
deriving DecidableEq, Repr, Inhabited

/-- Which scope knows which name as which symbol. -/
structure Table where
  /-- The symbols, each in the scope that it belongs to. -/
  bound : List Bound := []
  /-- The symbols that passed through a scope on their way out, the latest first. -/
  passed : List (ScopeId × Symbol) := []
  /-- The symbol that the declaration at a place belongs to, the latest first. -/
  sites : List (Span × Symbol) := []
deriving DecidableEq, Repr, Inhabited

namespace Table

/-! ## Looking names up -/

def boundIn (t : Table) (scope : ScopeId) (name : String) : Option Bound :=
  t.bound.find? fun b => b.symbol.name == name && b.scope == scope

/-- The symbol of that name which passed through `scope`. -/
def passedBy (t : Table) (scope : ScopeId) (name : String) : Option Symbol :=
  (t.passed.find? fun p => p.2.name == name && p.1 == scope).map (·.2)

/-- The symbol that another declaration of `name` in `scope` joins. -/
def known (t : Table) (scope : ScopeId) (name : String) : Option Symbol :=
  match t.boundIn scope name with
  | some b => some b.symbol
  | none => t.passedBy scope name

/-- The symbol that a use of `name` in `scope` itself means, if the scope has one that serves. -/
def serving (t : Table) (scope : ScopeId) (name : String) (usage : Usage) : Option Symbol :=
  ((t.boundIn scope name).filter (·.meaning.serves usage)).map (·.symbol)

/-- The symbol that a use of `name` means: that of the innermost scope which has one that
serves. -/
def resolve (t : Table) (env : Env) (name : String) (usage : Usage) : Option Symbol :=
  env.findSome? fun scope => t.serving scope name usage

def declared (t : Table) (site : Span) : Option Symbol :=
  (t.sites.find? (·.1 == site)).map (·.2)

/-! ## Adding declarations -/

/-- Gives `symbol` another meaning. The head of a function keeps to what its own declarations
say. -/
def widen (t : Table) (scope : ScopeId) (symbol : Symbol) (meaning : Meaning) : Table :=
  { t with
    bound := t.bound.map fun b =>
      if b.symbol == symbol && (b.scope == scope || b.scope.kind != .head) then
        { b with meaning := b.meaning.union meaning }
      else b }

/-- Moves what `source` binds `name` to over to `scope`, unless that binds the name already. -/
def move (t : Table) (source scope : ScopeId) (name : String) : Table :=
  if (t.boundIn scope name).isSome then t
  else
    { t with
      bound := t.bound.map fun b =>
        if b.symbol.name == name && b.scope == source then { b with scope } else b }

/-- Notes that `d` belongs to `symbol`, also in the scopes on its way. -/
def note (t : Table) (d : Declaration) (symbol : Symbol) : Table :=
  { t with
    passed := d.through.map (·, symbol) ++ t.passed
    sites := (d.site, symbol) :: t.sites }

/-- The first scope on the way of `d` that knows its name, and the symbol it knows. -/
def onTheWay (t : Table) (d : Declaration) : Option (ScopeId × Symbol) :=
  d.through.findSome? fun scope => (t.known scope d.name).map (scope, ·)

def declare (t : Table) (d : Declaration) : Table :=
  match t.onTheWay d with
  | some (source, symbol) => (t.move source d.scope d.name).note d symbol
  | none =>
    match t.known d.scope d.name with
    | some symbol => (t.widen d.scope symbol d.meaning).note d symbol
    | none =>
      let symbol : Symbol := ⟨d.name, d.site⟩
      { t with bound := ⟨d.scope, symbol, d.meaning⟩ :: t.bound }.note d symbol

def ofDeclarations (ds : List Declaration) : Table := ds.foldl declare {}

end Table

end RouteSplit.Scope
