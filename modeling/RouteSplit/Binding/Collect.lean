import RouteSplit.Binding.Basic

/-!
# Collecting bindings

Only statement lists are searched: what stands in the head of a loop or behind `export` is no
binding.

- `ofStatement`: the bindings of one statement;
- `keyed`: bindings as a table, one for each place of a name;
- `collect`: those of a whole tree, a list before the lists inside it;
- `isReferenced`: whether something outside a binding reads it.
-/

namespace RouteSplit.Binding

/-! ## Bindings of a statement -/

def declaredAs (table : Scope.Table) (kind : BindingKind) (self : Span)
    (target : String × Span) : List Binding :=
  (table.declared target.2).toList.map fun symbol => ⟨target.1, kind, target.2, self, symbol⟩

/-- The bindings of one declarator. A name whose value is a function is a function. -/
def ofDeclarator (table : Scope.Table) (d : Tree) : Except PassError (List Binding) := do
  let targets ← declaratorTargets (d.child 0)
  match d.child 0 with
  | .node (.pattern (.binding name)) site _ =>
    if (d.child 2).isFunctionLike then return declaredAs table .function d.span (name, site)
    else return declaredAs table .variable site (name, site)
  | _ => return targets.flatMap fun t => declaredAs table .variable t.2 t

def ofImport (table : Scope.Table) (specifiers : List Tree) : List Binding :=
  specifiers.flatMap fun s =>
    (nameOf (s.child 0)).toList.flatMap fun t => declaredAs table .imported t.2 t

def ofStatement (table : Scope.Table) (env : Env) : Tree → Except PassError (List Binding)
  | .node (.function (.function .declaration false _)) span [name, _, _, _, body] =>
    -- A signature without a body only adds to a function that stands elsewhere.
    if body.isAbsent then .ok []
    else .ok ((nameOf name).toList.flatMap (declaredAs table .function span))
  | .node (.statement (.variableList _ _)) _ declarators => do
    return (← declarators.mapM (ofDeclarator table)).flatten
  | .node (.statement .expression) _ [e] =>
    match assignedFunction? e with
    | some (name, site, span) =>
      .ok ((table.resolve env name .write).toList.map fun symbol =>
        ⟨name, .function, site, span, symbol⟩)
    | none => .ok []
  | .node (.module (.importDeclaration _ _)) _
      (.node (.module .importClause) _ specifiers :: _) => .ok (ofImport table specifiers)
  | _ => .ok []

/-- The bindings of a node itself, if it is a statement list that is searched. -/
def ofList (table : Scope.Table) (around : Scope.Around) (label : Label) (parts : List Tree) :
    Except PassError (List Binding) :=
  if label == .module .statements && around.searched then do
    return (← parts.mapM (ofStatement table around.env)).flatten
  else .ok []

/-! ## Bindings of a tree -/

mutual

def collectIn (table : Scope.Table) (around : Scope.Around) :
    Tree → Except PassError (List Binding)
  | .node label span parts => do
    let own ← ofList table around label parts
    let inner ← collectAll table (around.inside label span parts) 0 parts
    return own ++ inner

/-- The bindings in the parts of a node, the one at place `i` in what `around i` says. -/
def collectAll (table : Scope.Table) (around : Nat → Scope.Around) (i : Nat) :
    List Tree → Except PassError (List Binding)
  | [] => .ok []
  | t :: ts => do
    let first ← collectIn table (around i) t
    let rest ← collectAll table around (i + 1) ts
    return first ++ rest

end

/-! ## The table of a tree -/

/-- A table with one more binding, which takes the place of an older one for the same name. -/
def insert (table : List Binding) (b : Binding) : List Binding :=
  if table.any (·.site == b.site) then table.map fun old => if old.site == b.site then b else old
  else table ++ [b]

/-- The table of bindings in the order in which they are met. -/
def keyed (bindings : List Binding) : List Binding := bindings.foldl insert []

def collect (root : Tree) : Except PassError (List Binding) :=
  (collectIn (Scope.tableOf root) {} root).map keyed

/-- The reads of a module's tree. -/
def readsIn (root : Tree) : List Scope.Read := Scope.reads (Scope.tableOf root) [] root

def isReferenced (reads : List Scope.Read) (b : Binding) : Bool :=
  (Scope.readsOf reads b.symbol).any fun site => !b.self.encloses site

end RouteSplit.Binding
