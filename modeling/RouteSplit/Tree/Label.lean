import RouteSplit.Source.Span

/-!
# Labels of tree nodes

A module is a tree whose nodes carry a label. A label says which construct a node is and holds
the data that no child stands for; the parts of a construct are the node's children, in the order
in which they are visited. An optional part that is missing is a child labelled `Label.absent`.

- `ModuleForm`: the module itself, its imports and exports;
- `StatementForm`, `FunctionForm`, `ClassForm`: statements, functions and classes;
- `ExpressionForm`, `PatternForm`, `JsxForm`: expressions, destructuring and elements;
- `TypeForm`: types and the declarations that only bind types.

Beside each constructor stand its children; `x?` may be absent and `x*` is any number of them.
-/

namespace RouteSplit

/-- One character of a string literal, or half of a surrogate pair that stands alone. -/
inductive TextUnit where
  | char (c : Char)
  | surrogate (code : Nat)
deriving DecidableEq, Repr, Inhabited

/-- The name of an import or an export: an identifier, or any text in quotes. -/
structure ExportName where
  text : String
  quoted : Bool
deriving DecidableEq, Repr, Inhabited

/-- What an identifier does with the binding that it names. -/
inductive Usage where
  /-- Its value is taken. -/
  | read
  /-- It is assigned to and not read. -/
  | write
  /-- It is read, and then assigned to. -/
  | readWrite
  /-- It stands for a type. -/
  | typeName
  /-- It stands left of the dot in a type's name. -/
  | typeQualifier
  /-- The type of its value is taken. -/
  | typeQuery
  /-- Whatever it stands for is exported. -/
  | exported
deriving DecidableEq, Repr, Inhabited

inductive VariableKind where
  | varVariable
  | letVariable
  | constVariable
  | usingVariable
  | awaitUsingVariable
deriving DecidableEq, Repr, Inhabited

/-- Whether what is declared is a resource, to be given back at the end of its block. -/
def VariableKind.isUsing : VariableKind → Bool
  | .usingVariable | .awaitUsingVariable => true
  | .varVariable | .letVariable | .constVariable => false

inductive DefinitionForm where
  | declaration
  | value
deriving DecidableEq, Repr, Inhabited

/-- What a property or a class member defines. -/
inductive MemberKind where
  | plain
  | getter
  | setter
deriving DecidableEq, Repr, Inhabited

/-- How a mapped type treats a modifier of the properties that it ranges over. -/
inductive MappedModifier where
  | keep
  | set
  | add
  | remove
deriving DecidableEq, Repr, Inhabited

structure Modifiers where
  declared : Bool := false
  access : Option String := none
  abstract : Bool := false
  static : Bool := false
  override : Bool := false
  readonly : Bool := false
  accessor : Bool := false
  /-- The member is marked as asynchronous, which counts for methods only. -/
  isAsync : Bool := false
  /-- The member may be missing: `name?`. -/
  optional : Bool := false
deriving DecidableEq, Repr, Inhabited

/-- The module itself, its statement lists, imports and exports. -/
inductive ModuleForm where
  /-- prologue, statements -/
  | program (hashbang : Option String) (isModule : Bool)
  /-- directive* -/
  | prologue
  | directive (raw : String)
  /-- statement* -/
  | statements
  /-- clause?, source, attributes? -/
  | importDeclaration (typeOnly : Bool) (phase : Option String)
  /-- specifier* -/
  | importClause
  /-- binding -/
  | importNamed (imported : ExportName) (typeOnly : Bool)
  /-- binding -/
  | importDefault
  /-- binding -/
  | importNamespace
  /-- attribute* -/
  | importAttributes (keyword : String)
  /-- value -/
  | importAttribute (key : ExportName)
  /-- declaration?, specifiers, source?, attributes? -/
  | exportNamed (typeOnly : Bool)
  /-- specifier* -/
  | exportSpecifiers
  /-- reference? -/
  | exportSpecifier (localName exported : ExportName) (typeOnly : Bool)
  /-- declaration or expression -/
  | exportDefault
  /-- source, attributes? -/
  | exportAll (exported : Option ExportName) (typeOnly : Bool)
  /-- binding, target -/
  | importEquals (typeOnly : Bool)
  /-- source -/
  | externalModule
  /-- expression -/
  | exportAssignment
  | exportAsNamespace (name : String)
deriving DecidableEq, Repr, Inhabited

inductive StatementForm where
  /-- statements -/
  | block
  | empty
  /-- expression -/
  | expression
  /-- test, consequent, alternate? -/
  | ifElse
  /-- initial?, test?, update?, body -/
  | forLoop
  /-- left, right, body -/
  | forIn
  /-- left, right, body -/
  | forOf (awaits : Bool)
  /-- test, body -/
  | whileLoop
  /-- body, test -/
  | doWhile
  | continueTo (target : Option String)
  | breakTo (target : Option String)
  /-- value? -/
  | returnValue
  /-- value -/
  | throwValue
  | debugger
  /-- object, body -/
  | withObject
  /-- discriminant, case* -/
  | switch
  /-- test?, statements -/
  | switchCase
  /-- body -/
  | labeled (name : String)
  /-- block, handler?, finalizer? -/
  | tryCatch
  /-- parameter?, block -/
  | catchClause
  /-- target, type? -/
  | catchParameter
  /-- declarator* -/
  | variableList (kind : VariableKind) (declared : Bool)
  /-- target, type?, value? -/
  | declarator (definite : Bool)
deriving DecidableEq, Repr, Inhabited

/-- What a function is besides its parts. -/
structure FunctionTraits where
  isAsync : Bool := false
  isGenerator : Bool := false
  /-- An arrow function has an expression for its body. -/
  isExpression : Bool := false
  /-- A comment before the function says that calling it has no effect. -/
  effectFree : Bool := false
deriving DecidableEq, Repr, Inhabited

inductive FunctionForm where
  /-- binding?, type parameters?, parameters, result type?, body? -/
  | function (form : DefinitionForm) (declared : Bool) (traits : FunctionTraits)
  /-- type parameters?, parameters, result type?, body -/
  | arrow (traits : FunctionTraits)
  /-- parameter* -/
  | parameters
  /-- decorators, target, type?, default? -/
  | parameter (modifiers : Modifiers)
  /-- decorators, rest, type? -/
  | restParameter
  /-- type? -/
  | thisParameter
  /-- prologue, statements -/
  | body
  /-- expression -/
  | expressionBody
deriving DecidableEq, Repr, Inhabited

inductive ClassForm where
  /-- decorators, binding?, type parameters?, base?, base type arguments?, implemented, body -/
  | definition (form : DefinitionForm) (declared abstract : Bool)
  /-- decorator* -/
  | decorators
  /-- expression -/
  | decorator
  /-- heritage* -/
  | implemented
  /-- member* -/
  | body
  /-- decorators, key, function -/
  | method (kind : MemberKind) (computed : Bool) (modifiers : Modifiers)
  /-- decorators, key, type?, value? -/
  | field (computed : Bool) (modifiers : Modifiers)
  /-- statements -/
  | staticBlock
deriving DecidableEq, Repr, Inhabited

inductive ExpressionForm where
  | reference (name : String) (usage : Usage)
  | thisValue
  | superValue
  | null
  | boolean (value : Bool)
  | number (raw : String)
  | bigint (raw : String)
  | string (value : List TextUnit)
  | regex (raw : String)
  /-- expression*, one between each two neighbouring texts -/
  | template (texts : List String)
  /-- tag, type arguments?, template -/
  | taggedTemplate
  /-- element*, each an expression, a spread or a hole -/
  | array
  | hole
  /-- expression; `comma` if one follows, so that no target can end here -/
  | spread (comma : Bool)
  /-- property* -/
  | object
  /-- key, value -/
  | property (kind : MemberKind) (method shorthand computed : Bool)
  /-- reference, default: a shorthand with a default, which only a target may hold -/
  | shorthandDefault
  | name (text : String)
  | privateName (text : String)
  /-- operand -/
  | unary (op : String)
  /-- operand -/
  | update (op : String) (before : Bool)
  /-- left, right -/
  | binary (op : String)
  /-- target, value -/
  | assign (op : String)
  /-- test, consequent, alternate -/
  | conditional
  /-- callee, type arguments?, arguments; `pure` if a comment before it says so -/
  | call (optional pure : Bool)
  /-- callee, type arguments?, arguments; `pure` if a comment before it says so -/
  | new (pure : Bool)
  /-- argument* -/
  | arguments
  /-- object -/
  | member (name : String) (optional : Bool)
  /-- object -/
  | privateMember (name : String) (optional : Bool)
  /-- object, index -/
  | index (optional : Bool)
  /-- expression -/
  | chain
  /-- expression* -/
  | sequence
  /-- expression -/
  | paren
  /-- value? -/
  | yield (delegate : Bool)
  /-- value -/
  | await
  /-- argument* -/
  | importCall (phase : Option String)
  | importMeta
  | newTarget
  /-- expression, type -/
  | asType
  /-- expression, type -/
  | satisfiesType
  /-- expression -/
  | nonNull
  /-- type, expression -/
  | typeAssertion
  /-- expression, type arguments -/
  | instantiation
deriving DecidableEq, Repr, Inhabited

inductive PatternForm where
  | binding (name : String)
  /-- property*, rest? at the end -/
  | object
  /-- key, target -/
  | property (computed : Bool)
  /-- target or hole, any number; rest? at the end -/
  | array
  /-- target, default -/
  | withDefault
  /-- target -/
  | rest
  /-- property*, rest? at the end -/
  | objectTarget
  /-- reference, default? -/
  | targetShorthand
  /-- key, target -/
  | targetProperty (computed : Bool)
  /-- target or hole, any number; rest? at the end -/
  | arrayTarget
  /-- target, default -/
  | targetWithDefault
  /-- target -/
  | targetRest
deriving DecidableEq, Repr, Inhabited

inductive JsxForm where
  /-- opening, children, closing name? -/
  | element
  /-- children -/
  | fragment
  /-- name, type arguments?, attribute* -/
  | opening (selfClosing : Bool)
  /-- child* -/
  | children
  /-- a name that is no reference, as it is written -/
  | name (text : String)
  /-- object -/
  | member (property : String)
  /-- value? -/
  | attr (name : String)
  /-- expression -/
  | spreadAttr
  | string (raw : String)
  | text (raw : String)
  /-- expression or nothing -/
  | container
  | nothing
  /-- expression -/
  | spreadChild
deriving DecidableEq, Repr, Inhabited

inductive TypeForm where
  | keyword (name : String)
  /-- name, type arguments? -/
  | reference
  /-- qualifier -/
  | qualified (name : String)
  /-- name or import, type arguments? -/
  | query
  /-- argument, options?, type arguments? -/
  | importType (qualifier : List String)
  /-- type* -/
  | union
  /-- type* -/
  | intersection
  /-- element -/
  | array
  /-- object, index -/
  | indexed
  /-- member* -/
  | tuple
  /-- type -/
  | tupleMember (name : String) (optional : Bool)
  /-- type -/
  | optional
  /-- type -/
  | rest
  /-- member* -/
  | object
  /-- type parameters?, parameters, result -/
  | function
  /-- type parameters?, parameters, result -/
  | constructor (abstract : Bool)
  /-- type, with a question mark before or behind it -/
  | nullable (behind : Bool)
  /-- type, with an exclamation mark before or behind it -/
  | nonNullable (behind : Bool)
  /-- type -/
  | operator (op : String)
  /-- type parameter -/
  | infer
  /-- checked, bound, consequent, alternate -/
  | conditional
  /-- binding, constraint, renaming?, type? -/
  | mapped (readonly optional : MappedModifier)
  /-- literal -/
  | literal
  /-- type*, one between each two neighbouring texts -/
  | template (texts : List String)
  /-- type -/
  | paren
  /-- type? -/
  | predicate (asserts : Bool) (subject : String)
  /-- type parameter* -/
  | parameters
  /-- binding, constraint?, default? -/
  | parameter (modifiers : List String)
  /-- type* -/
  | arguments
  /-- key, type? -/
  | property (computed optional readonly : Bool)
  /-- key, type parameters?, parameters, result type? -/
  | method (kind : MemberKind) (computed optional : Bool)
  /-- type parameters?, parameters, result type? -/
  | callSignature
  /-- type parameters?, parameters, result type? -/
  | constructSignature
  /-- binding, key type, type -/
  | indexSignature (static readonly : Bool)
  /-- expression, type arguments? -/
  | heritage
  /-- heritage* -/
  | heritages
  /-- binding, type parameters?, heritages, body -/
  | interface (declared : Bool)
  /-- binding, type parameters?, type -/
  | alias (declared : Bool)
  /-- binding, member* -/
  | enum (isConst declared : Bool)
  /-- key, value? -/
  | enumMember (computed : Bool)
  /-- name, body? -/
  | namespaceBlock (keyword : String) (declared : Bool)
  /-- body -/
  | globalScope (declared : Bool)
  /-- prologue, statements -/
  | moduleBlock
deriving DecidableEq, Repr, Inhabited

/-- What a node of the tree is. -/
inductive Label where
  | absent
  | module (form : ModuleForm)
  | statement (form : StatementForm)
  | function (form : FunctionForm)
  | classes (form : ClassForm)
  | expression (form : ExpressionForm)
  | pattern (form : PatternForm)
  | jsx (form : JsxForm)
  | type (form : TypeForm)
deriving DecidableEq, Repr, Inhabited

end RouteSplit
