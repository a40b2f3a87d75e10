import RouteSplit.Grammar.Targets

/-!
# Parameters

- `decorators`: what stands before a class, a member or a parameter;
- `typeAnnotation`: the type behind a colon;
- `ParameterPlace`, `hasThis`, `parameters`: the parameters of a function in their parentheses.
-/

namespace RouteSplit.Grammar

def decorators (rules : Rules) : Parser Tree := do
  let start ← position
  let found ← many do
    unless ← isPunct "@" do return none
    let start ← position
    advance
    let e ← within ({ · with inDecorator := true }) (rules .leftHand)
    return some (← node start (.classes .decorator) [e])
  if found.isEmpty then return Tree.node (.classes .decorators) ⟨start, start⟩ []
  node start (.classes .decorators) found

def typeAnnotation (rules : Rules) : Parser Tree := do
  if (← hasTypes) && (← isPunct ":") then
    advance
    inType (rules .type)
  else return .absent

def beforeTarget : Parser Bool :=
  looking do
    advance
    return (← isIdentifier) || (← isPunctIn ["\x7b", "["])

/-- Whether what stands behind the word ahead, on the same line, begins a target. -/
def beforeTargetOnLine : Parser Bool := do
  if ← looking do advance; onNewLine then return false
  beforeTarget

/-- The modifiers that make a parameter a property, each at most once. -/
def parameterModifiers : Parser Modifiers := do
  unless ← hasTypes do return {}
  iterate ({} : Modifiers) fun m => do
    match ← kind with
    | .word w false =>
      unless ["public", "private", "protected", "readonly", "override"].contains w do return none
      unless ← beforeTargetOnLine do return none
      advance
      match w with
      | "readonly" =>
        require !m.readonly
        return some { m with readonly := true }
      | "override" =>
        require !m.override
        return some { m with override := true }
      | _ =>
        require m.access.isNone
        return some { m with access := some w }
    | _ => return none

inductive ParameterPlace where
  /-- a function, or a method of an object -/
  | plain
  /-- a method of a class -/
  | method
  /-- the constructor of a class -/
  | constructor
deriving DecidableEq, Repr, Inhabited

/-- One parameter. Only those of classes may be decorated, only those of a constructor may be
properties, which are plain names, and one that may be left out has no default. -/
def parameter (rules : Rules) (place : ParameterPlace) : Parser Tree := do
  let start ← position
  let decorated ← decorators rules
  require (place != .plain || decorated.children.isEmpty)
  if ← isPunct "..." then
    require decorated.children.isEmpty
    let restStart ← position
    advance
    let t ← rules .target
    let rest ← node restStart (.pattern .rest) [t]
    let type ← typeAnnotation rules
    require (← isPunct ")")
    node start (.function .restParameter) [decorated, rest, type]
  else if (← hasTypes) && (← isWord "this") then
    advance
    let type ← typeAnnotation rules
    node start (.function .thisParameter) [type]
  else
    let modifiers ← parameterModifiers
    require (place == .constructor || modifiers == {})
    let t ← rules .target
    require (modifiers == {} || isPlainName t)
    let isOptional ← if ← hasTypes then accept "?" else pure false
    let type ← typeAnnotation rules
    let value ← if ← accept "=" then within ({ · with allowIn := true }) (rules .assignment)
      else pure .absent
    require !(isOptional && !value.isAbsent)
    node start (.function (.parameter { modifiers with optional := isOptional }))
      [decorated, t, type, value]

def isThisParameter (t : Tree) : Bool := t.label == .function .thisParameter

/-- Whether one of the parameters in a list says what `this` stands for. -/
def hasThis (params : Tree) : Bool :=
  params.label == .function .parameters && params.children.any isThisParameter

/-- The parameters of a function. Only the first one says what `this` stands for. -/
def parameters (rules : Rules) (place : ParameterPlace) : Parser Tree := do
  let start ← position
  expect "("
  let found ← commaSeparated ")" (parameter rules place)
  require !((found.drop 1).any isThisParameter)
  node start (.function .parameters) found

end RouteSplit.Grammar
