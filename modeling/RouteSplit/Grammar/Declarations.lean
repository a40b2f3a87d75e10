import RouteSplit.Grammar.Expressions

/-!
# Declarations

- `variableList`: variable declarations, also in the head of a loop;
- `interface`, `typeAlias`, `enum`, `namespaceBlock`: the declarations of the type layer;
- `declarationStatement?`, `exportableDeclaration`: whatever declaration stands ahead.
-/

namespace RouteSplit.Grammar

/-! ## Variables -/

def variableKind? : Parser (Option VariableKind) := do
  if ← isWord "var" then return some .varVariable
  if ← isWord "const" then return some .constVariable
  if (← isWord "let") && (← beforeTarget) then return some .letVariable
  let plain ← looking do
    expectWord "using"
    return !(← onNewLine) && (← isIdentifier) && !(← isWord "of")
  if plain then return some .usingVariable
  let awaited ← looking do
    expectWord "await"
    require !(← onNewLine)
    expectWord "using"
    return !(← onNewLine) && (← isIdentifier)
  return if awaited then some .awaitUsingVariable else none

def variableKeyword (k : VariableKind) : Parser Unit := do
  advance
  if k == .awaitUsingVariable then advance

/-- A target with its type and its value. A name that is given its value elsewhere has a type, and
no value here. -/
def declarator (rules : Rules) : Parser Tree := do
  let start ← position
  let t ← rules .target
  let mayMark := isPlainName t && (← hasTypes) && !(← onNewLine)
  let definite ← if mayMark then accept "!" else pure false
  let type ← typeAnnotation rules
  let value ← if ← accept "=" then rules .assignment else pure .absent
  require !(definite && (type.isAbsent || !value.isAbsent))
  node start (.statement (.declarator definite)) [t, type, value]

/-- Constants and patterns need a value. -/
def hasNeededValue (k : VariableKind) (d : Tree) : Bool :=
  let needs :=
    match k, (d.child 0).label with
    | .constVariable, _ | .usingVariable, _ | .awaitUsingVariable, _ => true
    | _, .pattern (.binding _) => false
    | _, _ => true
  !needs || !(d.child 2).isAbsent

/-- The variables of a declaration, behind its keyword. Resources have plain names. -/
def declarators (rules : Rules) (k : VariableKind) : Parser (List Tree) := do
  let found ← separatedBy "," (declarator rules)
  require (!k.isUsing || found.all fun d => isPlainName (d.child 0))
  return found

def variableList (rules : Rules) (start : Nat) (k : VariableKind) (declared : Bool) :
    Parser Tree := do
  variableKeyword k
  let found ← declarators rules k
  unless declared || (← read).ambient do require (found.all (hasNeededValue k))
  semicolon
  node start (.statement (.variableList k declared)) found

/-! ## Types -/

def interface (rules : Rules) (start : Nat) (declared : Bool) : Parser Tree := do
  expectWord "interface"
  let name ← bindingName
  let generics ← typeParameters? rules
  let extendStart ← position
  let extended ← if ← acceptWord "extends" then separatedBy "," (heritage rules .typeName)
    else pure []
  let extended := Tree.node (.type .heritages) ⟨extendStart, (← get).last⟩ extended
  let body ← typeMembers rules
  node start (.type (.interface declared)) [name, generics, extended, body]

def typeAlias (rules : Rules) (start : Nat) (declared : Bool) : Parser Tree := do
  expectWord "type"
  let name ← bindingName
  let generics ← typeParameters? rules
  expect "="
  let typeStart ← position
  -- Before a dot `intrinsic` is the name of a namespace.
  let isIntrinsic ← looking do
    expectWord "intrinsic"
    return !(← isPunct ".")
  let type ← if isIntrinsic then
      advance
      node typeStart (.type (.keyword "intrinsic")) []
    else rules .type
  semicolon
  node start (.type (.alias declared)) [name, generics, type]

def isFixedKey (key : Tree) (computed : Bool) : Bool :=
  match key.label with
  | .expression (.name _) | .expression (.string _) => true
  | .expression (.template [_]) => computed
  | _ => false

def enumMember (rules : Rules) : Parser Tree := do
  let start ← position
  let (key, computed) ← propertyKey rules
  require (isFixedKey key computed)
  let value ← if ← accept "=" then rules .assignment else pure .absent
  node start (.type (.enumMember computed)) [key, value]

def enum (rules : Rules) (start : Nat) (declared : Bool) : Parser Tree := do
  let isConst ← acceptWord "const"
  expectWord "enum"
  let name ← bindingName
  expect "\x7b"
  let members ← commaSeparated "\x7d" (enumMember rules)
  node start (.type (.enum isConst declared)) (name :: members)

def moduleBlock (rules : Rules) (declared : Bool) : Parser Tree := do
  let start ← position
  expect "\x7b"
  let inside (m : Mode) : Mode :=
    { m with
      ambient := m.ambient || declared
      allowReturn := false
      atTop := false }
  let parts ← within inside (statementsUntil rules (isPunct "\x7d"))
  expect "\x7d"
  node start (.type .moduleBlock) parts

/-- The inner namespaces of a dotted name, outermost first, around `body`. -/
def nestNamespaces (keyword : String) (stop : Nat) : List Tree → Tree → Tree
  | [], body => body
  | name :: rest, body =>
    .node (.type (.namespaceBlock keyword false)) ⟨name.span.start, stop⟩
      [name, nestNamespaces keyword stop rest body]

def namespaceBlock (rules : Rules) (start : Nat) (declared : Bool) : Parser Tree := do
  let keyword ← anyWord
  match ← kind with
  | .string _ _ =>
    require (keyword == "module")
    let name ← stringLiteral
    if ← isPunct "\x7b" then
      let body ← moduleBlock rules declared
      node start (.type (.namespaceBlock keyword declared)) [name, body]
    else
      semicolon
      node start (.type (.namespaceBlock keyword declared)) [name, .absent]
  | _ =>
    let name ← bindingName
    let inner ← many do
      if ← accept "." then return some (← bindingName)
      return none
    let body ← moduleBlock rules declared
    let body := nestNamespaces keyword (← get).last inner body
    node start (.type (.namespaceBlock keyword declared)) [name, body]

/-- Declarations for every module. -/
def globalScope (rules : Rules) (start : Nat) (declared : Bool) : Parser Tree := do
  expectWord "global"
  let body ← moduleBlock rules declared
  node start (.type (.globalScope declared)) [body]

/-! ## Any declaration -/

/-- The word `w` ahead, and behind it on the same line what `next` looks for. -/
def isWordBefore (w : String) (next : Parser Bool) : Parser Bool := do
  unless ← isWord w do return false
  looking do
    advance
    if ← onNewLine then return false
    next

def isString : Parser Bool := do
  match ← kind with
  | .string _ _ => return true
  | _ => return false

/-- The variables, the function or the class that are declared ahead, if any are. Resources are not
only declared. -/
def valueDeclaration? (rules : Rules) (start : Nat) (declared : Bool) : Parser (Option Tree) := do
  if let some k ← variableKind? then
    require !(declared && k.isUsing)
    return some (← variableList rules start k declared)
  if ← isFunction then return some (← function rules start .declaration declared true)
  if ← isWord "class" then
    let plain := Tree.node (.classes .decorators) ⟨start, start⟩ []
    return some (← classDefinition rules start plain .declaration declared false)
  return none

/-- What the type layer declares ahead, if it does. Where nothing but a declaration can stand, its
first word settles which one it is; elsewhere the word may be a name. -/
def typeDeclaration? (rules : Rules) (start : Nat) (declared settled : Bool) :
    Parser (Option Tree) := do
  let opens (w : String) (next : Parser Bool) : Parser Bool :=
    if settled then isWord w else isWordBefore w next
  if ← isWord "enum" then return some (← enum rules start declared)
  if ← opens "interface" isIdentifier then return some (← interface rules start declared)
  if ← opens "type" isIdentifier then return some (← typeAlias rules start declared)
  if ← opens "namespace" isIdentifier then return some (← namespaceBlock rules start declared)
  if ← opens "module" (do return (← isIdentifier) || (← isString)) then
    return some (← namespaceBlock rules start declared)
  if ← opens "global" (isPunct "\x7b") then return some (← globalScope rules start declared)
  return none

/-- The declaration ahead that a word marks as abstract or constant, if there is one. -/
def markedDeclaration? (rules : Rules) (start : Nat) (declared : Bool) : Parser (Option Tree) := do
  if ← isWordBefore "const" (isWord "enum") then return some (← enum rules start declared)
  if ← isWordBefore "abstract" (isWord "class") then
    advance
    let plain := Tree.node (.classes .decorators) ⟨start, start⟩ []
    return some (← classDefinition rules start plain .declaration declared true)
  return none

def ambientDeclaration? (rules : Rules) (start : Nat) : Parser (Option Tree) := do
  unless ← isWord "declare" do return none
  attempt do
    advance
    require !(← onNewLine)
    within ({ · with ambient := true }) do
      if let some t ← markedDeclaration? rules start true then return t
      if let some t ← typeDeclaration? rules start true false then return t
      let some t ← valueDeclaration? rules start true | failure
      return t

/-- A class behind its decorators. It starts with its keyword. -/
def decoratedClass (rules : Rules) (decorated : Tree) : Parser Tree := do
  let typed ← hasTypes
  let declared ← if typed then acceptWord "declare" else pure false
  let abstract ← if typed then acceptWord "abstract" else pure false
  classDefinition rules (← position) decorated .declaration declared abstract

/-- The declaration that stands ahead as a statement, if one does. In those of the type layer
`await` is a name. -/
def declarationStatement? (rules : Rules) : Parser (Option Tree) := do
  let start ← position
  if ← hasTypes then
    let found ← within ({ · with allowAwait := false }) do
      if let some t ← ambientDeclaration? rules start then return some t
      if let some t ← markedDeclaration? rules start false then return some t
      typeDeclaration? rules start false false
    if found.isSome then return found
  valueDeclaration? rules start false

/-- The declaration that is exported ahead. Those of the type layer are read in every dialect,
unless a word marks them. -/
def exportableDeclaration (rules : Rules) : Parser Tree := do
  let start ← position
  if ← hasTypes then
    if let some t ← ambientDeclaration? rules start then return t
    if let some t ← markedDeclaration? rules start false then return t
  if let some t ← typeDeclaration? rules start false true then return t
  let some t ← valueDeclaration? rules start false | failure
  return t

end RouteSplit.Grammar
