import RouteSplit.Grammar.Functions

/-!
# Classes

- `modifiers`: the words before a member's key;
- `classMember`: methods, fields, static blocks and index signatures;
- `classDefinition`: a class from its keyword on.
-/

namespace RouteSplit.Grammar

def addModifier? (m : Modifiers) (w : String) : Option Modifiers :=
  let fresh (present : Bool) (m : Modifiers) := if present then none else some m
  match w with
  | "declare" => fresh m.declared { m with declared := true }
  | "abstract" => fresh m.abstract { m with abstract := true }
  | "static" => fresh m.static { m with static := true }
  | "override" => fresh m.override { m with override := true }
  | "readonly" => fresh m.readonly { m with readonly := true }
  | "accessor" => fresh m.accessor { m with accessor := true }
  | "async" => fresh m.isAsync { m with isAsync := true }
  | _ => fresh m.access.isSome { m with access := some w }

def modifierWords : List String :=
  ["static", "accessor", "async", "declare", "abstract", "override", "readonly", "public",
    "private", "protected"]

/-- The words before a member's key, in any order. A word that no key follows is itself the key, and
so is a second `static`. -/
def modifiers : Parser Modifiers := do
  iterate ({} : Modifiers) fun m => do
    match ← kind with
    | .word w false =>
      unless modifierWords.contains w && !(w == "static" && m.static) do return none
      let follows ← looking do
        advance
        if (← onNewLine) && w != "static" then return false
        return (← isKeyStart) || (← isPunct "*") || (w == "static" && (← isPunct "\x7b"))
      unless follows do return none
      advance
      some <$> orFail (addModifier? m w)
    | _ => return none

def isAsyncMember : Parser Bool := do
  unless ← isWord "async" do return false
  looking do
    advance
    return !(← onNewLine) && ((← isKeyStart) || (← isPunct "*"))

def spelledKey? (key : Tree) (computed : Bool) : Option String :=
  match computed, key.label with
  | false, .expression (.name w) => some w
  | false, .expression (.string units) => some (textOf units)
  | _, _ => none

/-- Whether a member may have its key. The constructor is a plain method, no static member is the
prototype, and no private one is called a constructor. -/
def mayHaveKey (key : Tree) (computed static isMethod isPlain : Bool) : Bool :=
  match spelledKey? key computed with
  | some "constructor" => isMethod && (static || isPlain)
  | some "prototype" => !static
  | _ => key.label != .expression (.privateName "constructor")

def fitsIndexSignature (m : Modifiers) : Bool :=
  m == { static := m.static, readonly := m.readonly }

def fieldValue (rules : Rules) : Parser Tree := do
  unless ← accept "=" do return .absent
  within ({ Mode.inFunction false false · with allowReturn := false }) (rules .expression)

/-- A member of a class. An abstract one has neither body nor value, only fields are `readonly` or
without a definition of their own, unless they have accessors, and a constructor has neither type
parameters nor a `this` of its own. A method that is decorated has a body. Where there are types, a
private key needs no word to make it private. -/
def classMember (rules : Rules) : Parser Tree := do
  let start ← position
  let decorated ← decorators rules
  let m ← modifiers
  if m.static && (← isPunct "\x7b") then
    require (decorated.children.isEmpty && m == { static := true })
    expect "\x7b"
    let inside ← within ({ Mode.inFunction true false · with allowReturn := false })
      (statementList rules (isPunct "\x7d"))
    expect "\x7d"
    node start (.classes .staticBlock) [inside]
  else if (← hasTypes) && (← isIndexSignature) then
    require (fitsIndexSignature m && decorated.children.isEmpty)
    let signature ← indexSignature rules start m.static m.readonly
    semicolon
    return signature
  else
    let isAsync := m.isAsync
    let isGenerator ← accept "*"
    let getter ← if isAsync || isGenerator then pure false else isModifier "get"
    let setter ← if isAsync || isGenerator || getter then pure false else isModifier "set"
    if getter || setter then advance
    let memberKind : MemberKind := if getter then .getter else if setter then .setter else .plain
    let (key, computed) ← propertyKey rules
    let typed ← hasTypes
    require !(typed && !computed && isPrivateKey key && m.access.isSome)
    let isOptional ← if memberKind == .plain then accept "?" else pure false
    let m := { m with optional := isOptional }
    let isPlain := memberKind == .plain && !isAsync && !isGenerator
    let isMethod ← isPunctIn ["(", "<"]
    require (mayHaveKey key computed m.static isMethod isPlain)
    if isMethod then
      require !(m.readonly || m.declared)
      let constructs := isPlain && !m.static && spelledKey? key computed == some "constructor"
      let place : ParameterPlace := if constructs then .constructor else .method
      let f ← methodFunction rules isAsync isGenerator place
      require !(constructs && (hasThis (f.child 2) || !(f.child 1).isAbsent))
      let isSignature := (f.child 4).isAbsent
      require (fitsKind typed memberKind f && !(m.abstract && !isSignature))
      require !(isSignature && !decorated.children.isEmpty)
      node start (.classes (.method memberKind computed m)) [decorated, key, f]
    else
      require (memberKind == .plain && !isGenerator)
      let definite ← accept "!"
      require !(isOptional && (definite || m.accessor))
      require !(m.accessor && (m.readonly || m.declared || m.isAsync))
      let type ← typeAnnotation rules
      let value ← fieldValue rules
      require !(m.abstract && !value.isAbsent)
      semicolon
      node start (.classes (.field computed m)) [decorated, key, type, value]

def classBody (rules : Rules) : Parser Tree := do
  let start ← position
  expect "\x7b"
  let members ← many do
    let _ ← many (do if ← accept ";" then return some () else return none)
    if ← isPunct "\x7d" then return none
    return some (← classMember rules)
  expect "\x7d"
  node start (.classes .body) members

/-- One of the types that a class implements or an interface extends. What stands left of a dot is
put to the use `qualifier`. -/
def heritage (rules : Rules) (qualifier : Usage) : Parser Tree := do
  let start ← position
  let name ← typeName .typeName qualifier
  let arguments ← typeArguments? rules
  node start (.type .heritage) [name, arguments]

/-- The class that a class extends, apart from the types given to it. -/
def splitInstantiation : Tree → Tree × Tree
  | .node (.expression .instantiation) _ [e, arguments] => (e, arguments)
  | t => (t, .absent)

/-- A class from its keyword on. The types given to the class that it extends, and those that it
implements, are read in every dialect. -/
def classDefinition (rules : Rules) (start : Nat) (decorated : Tree) (form : DefinitionForm)
    (declared abstract : Bool) : Parser Tree := do
  expectWord "class"
  let name ←
    if (← isIdentifier) && !(← isWord "implements") then bindingName
    else pure .absent
  let generics ← typeParameters? rules
  let (base, arguments) ←
    if ← acceptWord "extends" then
      let (base, arguments) := splitInstantiation (← bracketed (rules .leftHand))
      let arguments ← if arguments.isAbsent then withTypes (typeArguments? rules)
        else pure arguments
      pure (base, arguments)
    else pure (.absent, .absent)
  let implStart ← position
  let implemented ←
    if ← acceptWord "implements" then
      withTypes (separatedBy "," (heritage rules .typeQualifier))
    else pure []
  let implemented := Tree.node (.classes .implemented) ⟨implStart, (← get).last⟩ implemented
  let body ← classBody rules
  node start (.classes (.definition form declared abstract))
    [decorated, name, generics, base, arguments, implemented, body]

end RouteSplit.Grammar
