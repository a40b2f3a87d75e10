import RouteSplit.Module.Basic
import RouteSplit.Options.Basic
import RouteSplit.Sweep.Context

/-!
# Export records

- `Record`: what one statement exports, as far as the transform cares;
- `excise`: a statement without one exported name;
- `resolve`: a module's exports as the bundle needs them.
-/

namespace RouteSplit.Export

/-- What one statement exports. -/
inductive Record where
  | default
  /-- The names that a declaration behind `export` gives directly, and those in braces. -/
  | named (declared : List String) (hasDeclaration : Bool) (specifiers : List String)
deriving DecidableEq, Repr, Inhabited

/-- The name that a node binds, if it is nothing but a name. -/
def plainName (t : Tree) : Option String :=
  match t.label with
  | .pattern (.binding name) => some name
  | _ => none

/-- The names that a declaration gives directly: those of functions, classes and plain
variables. -/
def plainNames : Tree → List String
  | .node (.function (.function _ _ _)) _ (name :: _) => (plainName name).toList
  | .node (.classes (.definition _ _ _)) _ (_ :: name :: _) => (plainName name).toList
  | .node (.statement (.variableList _ _)) _ declarators =>
    declarators.filterMap fun d => plainName (d.child 0)
  | _ => []

def specifierExport (t : Tree) : Option String :=
  match t.label with
  | .module (.exportSpecifier _ exported _) => some exported.text
  | _ => none

namespace Record

/-- What a statement exports, if it is an export of its own. -/
def classify : Tree → Option Record
  | .node (.module .exportDefault) _ _ => some .default
  | .node (.module (.exportNamed _)) _ (declaration :: specifiers :: _) =>
    some (.named (plainNames declaration) (!declaration.isAbsent)
      (specifiers.children.filterMap specifierExport))
  | _ => none

/-- The names that the statement adds to the module's interface, besides the default. -/
def names : Record → List String
  | .default => []
  | .named declared _ specifiers => declared ++ specifiers

def exportsName (r : Record) (name : String) : Bool := r.names.contains name

end Record

def isDefault (t : Tree) : Bool := t.label == .module .exportDefault

def exciseNamed (name : String) (typeOnly : Bool) (span : Span) (declaration specifiers : Tree)
    (rest : List Tree) : Option Tree :=
  let build (d s : Tree) := Tree.node (.module (.exportNamed typeOnly)) span (d :: s :: rest)
  let listed := specifiers.children
  if !listed.isEmpty then
    let kept := listed.filter fun s => specifierExport s != some name
    if kept.isEmpty then none
    else some (build declaration (.node specifiers.label specifiers.span kept))
  else
    match declaration with
    | .node (.function (.function _ _ _)) _ (id :: _) =>
      if plainName id == some name then none else some (build declaration specifiers)
    | .node (.statement (.variableList kind declared)) inner declarators =>
      let kept := declarators.filter fun d => plainName (d.child 0) != some name
      -- The declaration goes with its last variable; one that had none stays.
      if kept.isEmpty && kept.length != declarators.length then none
      else some (build (.node (.statement (.variableList kind declared)) inner kept) specifiers)
    | _ => some (build declaration specifiers)

/-- What is left of a statement without the export `name`, if anything. -/
def excise (name : String) : Tree → Option Tree
  | .node (.module (.exportNamed typeOnly)) span (declaration :: specifiers :: rest) =>
    exciseNamed name typeOnly span declaration specifiers rest
  | t => some t

/-- The statements that the bundle keeps: the client's has no default export, the server's no
server export. -/
def keepStatements (o : Options) (statements : List Tree) : List Tree :=
  match o.mode with
  | .client => statements.filter fun t => !isDefault t
  | .server => statements.filterMap (excise o.serverExportName)

def records (statements : List Tree) : List Record := statements.filterMap Record.classify

/-- What the exports of a module tell. -/
def observe (o : Options) (statements : List Tree) (c : Context) : Context :=
  let names := (records statements).flatMap Record.names
  { c with
    hasServerExport := c.hasServerExport || names.any o.isServerExport
    done := c.done || names.any o.isMarker }

/-- The module's tree with the exports that the bundle keeps, and what its exports told. -/
def resolve (o : Options) (root : Tree) (c : Context) : Tree × Context :=
  let statements := Module.statementsOf root
  (Module.withStatements root (keepStatements o statements), observe o statements c)

/-! ## The marker -/

/-- The statement that marks a module: it exports `name` as true. -/
def marker (name : String) : Tree :=
  let leaf (label : Label) := Tree.node label .empty []
  let declarator := Tree.node (.statement (.declarator false)) .empty
    [leaf (.pattern (.binding name)), .absent, leaf (.expression (.boolean true))]
  let declaration := Tree.node (.statement (.variableList .varVariable false)) .empty [declarator]
  .node (.module (.exportNamed false)) .empty
    [declaration, leaf (.module .exportSpecifiers), .absent, .absent]

def insertBeforeDefault (m : Tree) : List Tree → Option (List Tree)
  | [] => none
  | t :: ts => if isDefault t then some (m :: t :: ts) else (insertBeforeDefault m ts).map (t :: ·)

/-- Marks a module that exported server data, unless it is marked already or has no default
export. Tells whether it did. -/
def decorate (o : Options) (root : Tree) (c : Context) : Tree × Context × Bool :=
  if c.done || !c.hasServerExport then (root, c, false)
  else
    match insertBeforeDefault (marker o.markerName) (Module.statementsOf root) with
    | none => (root, c, false)
    | some statements => (Module.withStatements root statements, { c with done := true }, true)

end RouteSplit.Export
