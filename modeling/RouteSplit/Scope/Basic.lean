import RouteSplit.Tree.Basic

/-!
# Scopes

- `Meaning`: what a declared name can be used as;
- `ScopeId`, `Env`: a construct that declares names of its own, and those around a node;
- `Symbol`: what a name stands for, told by its first declaration;
- `Declaration`: a name on its way to the scope that it is declared in.
-/

namespace RouteSplit

namespace Scope

/-- What a declared name can be used as. -/
structure Meaning where
  /-- Its value can be read and assigned. -/
  value : Bool := false
  /-- It names a type. -/
  type : Bool := false
  /-- It can stand left of the dot in a type's name. -/
  container : Bool := false
  /-- The type of its value can be taken. -/
  query : Bool := false
deriving DecidableEq, Repr, Inhabited

namespace Meaning

/-- Variables, parameters and functions. -/
def ofValue : Meaning := { value := true, query := true }

/-- Interfaces, type aliases and type parameters. -/
def ofType : Meaning := { type := true }

/-- Classes and the members of enumerations. -/
def ofClass : Meaning := { value := true, type := true, query := true }

/-- Enumerations and what other modules give. -/
def ofAnything : Meaning := ⟨true, true, true, true⟩

/-- What other modules give for use in types only. -/
def ofTypeImport : Meaning := { type := true, container := true, query := true }

/-- Namespaces. One that holds nothing but types has no value. -/
def ofNamespace (hasValue : Bool) : Meaning :=
  { value := hasValue, container := true, query := hasValue }

/-- What a name with both meanings can be used as. -/
def union (a b : Meaning) : Meaning :=
  ⟨a.value || b.value, a.type || b.type, a.container || b.container, a.query || b.query⟩

def serves (m : Meaning) : Usage → Bool
  | .read | .write | .readWrite => m.value
  | .typeName => m.type
  | .typeQualifier => m.container
  | .typeQuery => m.query
  | .exported => m.value || m.type

/-- What a name with both meanings serves is what one of them serves. -/
theorem serves_union (a b : Meaning) (u : Usage) :
    (a.union b).serves u = (a.serves u || b.serves u) := by
  cases u <;> simp [union, serves]
  cases a.value <;> cases a.type <;> cases b.value <;> simp

end Meaning

/-- The kinds of constructs that declare names of their own. -/
inductive Kind where
  | module
  /-- A function: its parameters, and what its body declares. -/
  | function
  /-- A function as its parameters and its result type see it: without what its body declares. -/
  | head
  /-- The name of a function that is a value, around the function. -/
  | ownName
  | block
  | loop
  | switch
  | handler
  | classBody
  | staticBlock
  | namespaceBlock
  | enumBody
  | signature
  | conditional
  | typeBody
deriving DecidableEq, Repr, Inhabited

/-- Whether a `var` goes no further than a construct of this kind. -/
def Kind.holdsVars : Kind → Bool
  | .module | .function | .staticBlock | .namespaceBlock => true
  | _ => false

end Scope

/-- The construct that declares a name, told by its kind and its place. -/
structure ScopeId where
  kind : Scope.Kind
  span : Span
deriving DecidableEq, Repr, Inhabited

/-- The scopes around a node, innermost first. -/
abbrev Env := List ScopeId

/-- What a name stands for, told by the place of its first declaration. -/
structure Symbol where
  name : String
  site : Span
deriving DecidableEq, Repr, Inhabited

structure Declaration where
  name : String
  site : Span
  meaning : Scope.Meaning
  /-- The scopes that the name leaves behind on its way out, innermost first. -/
  through : List ScopeId
  /-- Where the name is meant to be declared. -/
  scope : ScopeId
deriving DecidableEq, Repr, Inhabited

end RouteSplit
