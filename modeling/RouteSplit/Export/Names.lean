import RouteSplit.Scope.Declarations

/-!
# Values that a module exports

- `Value`: an exported value, told by its name and by what may be declared beside it;
- `declaredValues`, `exportedValues`: the values that a declaration binds, and those that a
  statement exports;
- `distinct`: no two statements export a value under one name, unless they declare parts of it.
-/

namespace RouteSplit.Export

/-- How a value is declared. Enumerations may be declared in several parts, and namespaces add to
what has their name already. -/
inductive ValueForm where
  /-- A variable, an import, a name in braces, a whole module: it has its name for itself. -/
  | single
  /-- A function or a class. -/
  | host
  | enumeration
  | namespaceBlock
deriving DecidableEq, Repr, Inhabited

structure Value where
  name : String
  form : ValueForm
deriving DecidableEq, Repr, Inhabited

/-- Whether declarations of two forms and of one name are parts of one value. -/
def ValueForm.joins : ValueForm → ValueForm → Bool
  | .single, _ | _, .single => false
  | .namespaceBlock, _ | _, .namespaceBlock => true
  | .enumeration, .enumeration => true
  | _, _ => false

def valuesOf (form : ValueForm) (target : Tree) : List Value :=
  target.boundNames.map fun x => ⟨x.1, form⟩

/-- The values that a declaration binds. A signature without a body binds none, and neither does a
namespace without a value. -/
def declaredValues : Tree → List Value
  | .node (.statement (.variableList _ _)) _ declarators =>
    declarators.flatMap fun d => valuesOf .single (d.child 0)
  | .node (.function (.function _ _ _)) _ (name :: parts) =>
    if parts.getLast?.any Tree.isAbsent then [] else valuesOf .host name
  | .node (.classes (.definition _ _ _)) _ (_ :: name :: _) => valuesOf .host name
  | .node (.type (.enum _ _)) _ (name :: _) => valuesOf .enumeration name
  | .node (.type (.namespaceBlock _ _)) _ [name, body] =>
    if Scope.hasValue body then valuesOf .namespaceBlock name else []
  | .node (.module (.importEquals false)) _ (name :: _) => valuesOf .single name
  | _ => []

def specifierValue (t : Tree) : List Value :=
  match t.label with
  | .module (.exportSpecifier _ exported false) => [⟨exported.text, .single⟩]
  | _ => []

def isSignature : Tree → Bool
  | .node (.function (.function _ _ _)) _ parts => parts.getLast?.any Tree.isAbsent
  | .node (.type (.interface _)) _ _ => true
  | _ => false

def exportedValues : Tree → List Value
  | .node (.module .exportDefault) _ [given] =>
    if isSignature given then [] else [⟨"default", .single⟩]
  | .node (.module (.exportNamed false)) _ (declaration :: specifiers :: _) =>
    declaredValues declaration ++ specifiers.children.flatMap specifierValue
  | .node (.module (.exportAll (some name) false)) _ _ => [⟨name.text, .single⟩]
  | _ => []

def Value.compatible (a b : Value) : Bool := a.name != b.name || a.form.joins b.form

/-- Whether no two statements export a value under one name that are not parts of one value. -/
def distinct (statements : List Tree) : Bool :=
  decide ((statements.flatMap exportedValues).Pairwise fun a b => a.compatible b)

end RouteSplit.Export
