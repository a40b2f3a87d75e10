import RouteSplit.Grammar.Types

/-!
# Functions

- `statementsUntil`: the directives and statements of a body;
- `functionBody`, `functionParts`: what follows a function's name;
- `arrow?`: an arrow function, if one stands ahead.
-/

namespace RouteSplit.Grammar

/-! ## Bodies -/

/-- The beginning of a body: its directives, the last one first, and the statement that shows that
they have ended, if it had to be read for that. -/
structure Prologue where
  directives : List Tree := []
  behind : Option Tree := none

/-- Reads one more directive: a statement that is nothing but a string literal. -/
def moreDirectives (rules : Rules) (p : Prologue) : Parser (Option Prologue) := do
  if p.behind.isSome then return none
  match ← kind with
  | .string _ raw =>
    match ← rules .statement with
    | .node (.statement .expression) span [.node (.expression (.string _)) _ _] =>
      return some { directives := .node (.module (.directive raw)) span [] :: p.directives }
    | t => return some { p with behind := some t }
  | _ => return none

/-- Statements up to where `stop` holds, behind those that have been read already. -/
def statementListBehind (rules : Rules) (read : List Tree) (stop : Parser Bool) : Parser Tree := do
  let start ← position
  let found ← many do
    if ← stop then return none
    return some (← rules .statement)
  return Tree.node (.module .statements) ⟨start, (← get).last⟩ (read ++ found)

def statementList (rules : Rules) (stop : Parser Bool) : Parser Tree :=
  statementListBehind rules [] stop

def statementsUntil (rules : Rules) (stop : Parser Bool) : Parser (List Tree) := do
  let start ← position
  let p ← iterate {} (moreDirectives rules)
  let prologue := Tree.node (.module .prologue) ⟨start, start⟩ p.directives.reverse
  let rest ← statementListBehind rules p.behind.toList stop
  return [prologue, rest]

def Mode.inFunction (isAsync isGenerator : Bool) (m : Mode) : Mode :=
  { m with
    allowIn := true
    allowAwait := isAsync
    allowYield := isGenerator
    allowReturn := true
    atTop := false
    allowArrowType := true
    allowConditionalType := true
    inDecorator := false }

def functionBody (rules : Rules) (isAsync isGenerator : Bool) : Parser Tree := do
  let start ← position
  expect "\x7b"
  let parts ← within (Mode.inFunction isAsync isGenerator)
    (statementsUntil rules (isPunct "\x7d"))
  expect "\x7d"
  node start (.function .body) parts

/-- Type parameters, parameters, result type and body. A signature has no body. -/
def functionParts (rules : Rules) (isAsync isGenerator : Bool) (place : ParameterPlace) :
    Parser (List Tree) := do
  let generics ← typeParameters? rules
  let params ← within (Mode.inFunction isAsync isGenerator) (parameters rules place)
  let result ← resultAnnotation rules
  if ← isPunct "\x7b" then
    let body ← functionBody rules isAsync isGenerator
    return [generics, params, result, body]
  else
    require (← hasTypes)
    semicolon
    return [generics, params, result, .absent]

/-- The name of a function. That of a value is known inside only, and so may be a word that the
function's own body could not use as an operator. -/
def functionName (form : DefinitionForm) (isAsync isGenerator named : Bool) : Parser Tree := do
  let change (m : Mode) : Mode :=
    if form == .value then { m with allowAwait := isAsync, allowYield := isGenerator } else m
  within change do
    let isWord ← match ← kind with
      | .word _ _ => pure true
      | _ => pure false
    if named || isWord then bindingName else return .absent

/-- A function from its keyword on. Only a value, or the default export, may be without a name, and
one that is only declared has no body and is no generator. -/
def function (rules : Rules) (start : Nat) (form : DefinitionForm) (declared named : Bool) :
    Parser Tree := do
  let isAsync ← acceptWord "async"
  expectWord "function"
  let isGenerator ← accept "*"
  let name ← functionName form isAsync isGenerator named
  let parts ← functionParts rules isAsync isGenerator .plain
  if form == .value then require !(parts.getLast?.any Tree.isAbsent)
  if declared then require (parts.getLast?.any Tree.isAbsent && !isAsync)
  if form == .declaration && (← read).ambient then require !isGenerator
  node start (.function (.function form declared { isAsync, isGenerator })) (name :: parts)

def isFunction : Parser Bool := do
  if ← isWord "function" then return true
  looking do
    expectWord "async"
    return !(← onNewLine) && (← isWord "function")

def methodFunction (rules : Rules) (isAsync isGenerator : Bool) (place : ParameterPlace) :
    Parser Tree := do
  let start ← position
  let parts ← functionParts rules isAsync isGenerator place
  node start (.function (.function .value false { isAsync, isGenerator })) (.absent :: parts)

/-- Whether a function can be a method of its kind: one that gets takes nothing, and one that sets
takes exactly one value, for which it has no default where there are types. -/
def fitsKind (typed : Bool) (memberKind : MemberKind) (f : Tree) : Bool :=
  let given := (f.child 2).children.filter fun p => p.label != .function .thisParameter
  let isRest (p : Tree) : Bool := p.label == .function .restParameter
  let hasDefault (p : Tree) : Bool := !(p.child 3).isAbsent
  match memberKind with
  | .plain => true
  | .getter => given.all isRest
  | .setter => given.length == 1 && !given.any isRest && !(typed && given.any hasDefault)

/-! ## Arrow functions -/

/-- What stands left of the arrow: whether the function is asynchronous, and its type parameters,
parameters and result type. -/
structure ArrowHead where
  isAsync : Bool
  parts : List Tree

def arrowName (isAsync : Bool) : Parser ArrowHead := do
  let start ← position
  let name ← bindingName
  let plain := Tree.node (.classes .decorators) ⟨start, start⟩ []
  let p ← node start (.function (.parameter {})) [plain, name, .absent, .absent]
  let params ← node start (.function .parameters) [p]
  return ⟨isAsync, [.absent, params, .absent]⟩

/-- Parameters in parentheses, perhaps with types. They belong to what stands around the function,
except that `await` is an operator in those of an asynchronous one. -/
def arrowParameters (rules : Rules) (isAsync : Bool) : Parser ArrowHead := do
  let generics ← typeParameters? rules
  let inside (m : Mode) : Mode :=
    { Mode.inFunction (m.allowAwait || isAsync) m.allowYield m with
      allowReturn := m.allowReturn
      atTop := m.atTop }
  let params ← within inside (parameters rules .plain)
  require !(hasThis params)
  let result ← resultAnnotation rules
  return ⟨isAsync, [generics, params, result]⟩

def isGenericArrow : Parser Bool := do
  unless (← hasTypes) && (← isPunct "<") do return false
  unless ← hasJsx do return true
  looking do
    advance
    discard (acceptWord "const")
    discard identifier
    -- An element may have an attribute called `extends`.
    if ← acceptWord "extends" then return !(← isPunctIn ["=", ">", "/"])
    isPunctIn [",", "="]

def arrowHead (rules : Rules) : Parser ArrowHead := do
  let head ←
    if ← isPunct "(" then
      require !(← looking do advance; isPunct "@")
      arrowParameters rules false
    else if ← isGenericArrow then arrowParameters rules false
    else
      require (← isIdentifier)
      let isAsync ← looking do
        expectWord "async"
        return !(← onNewLine) && ((← isIdentifier) || (← isPunctIn ["(", "<"]))
      if isAsync then
        advance
        if ← isIdentifier then arrowName true else arrowParameters rules true
      else arrowName false
  require ((← isPunct "=>") && !(← onNewLine))
  return head

def arrowBody (rules : Rules) (start : Nat) (head : ArrowHead) : Parser Tree := do
  expect "=>"
  let body ←
    if ← isPunct "\x7b" then functionBody rules head.isAsync false
    else
      let bodyStart ← position
      let e ←
        within ({ · with allowAwait := head.isAsync, allowYield := false, atTop := false })
          (rules .assignment)
      node bodyStart (.function .expressionBody) [e]
  let isExpression := body.label == .function .expressionBody
  node start (.function (.arrow { isAsync := head.isAsync, isExpression })) (head.parts ++ [body])

/-- The token ahead can begin an arrow function. -/
def mayBeArrow : Parser Bool := do
  if ← isPunctIn ["(", "<"] then return true
  unless ← isIdentifier do return false
  looking do
    let first ← anyWord
    return (← isPunct "=>") || (first == "async" && ((← isIdentifier) || (← isPunctIn ["(", "<"])))

/-- Takes note that no arrow function begins at `start`. -/
def noteNoArrow (start : Nat) : Parser Unit :=
  modifyThe Findings fun f => { f with notArrow := start :: f.notArrow }

/-- An arrow function, if one stands ahead. Where a colon separates alternatives, a result type is
read as one only if the colon still follows. -/
def arrow? (rules : Rules) : Parser (Option Tree) := do
  unless ← mayBeArrow do return none
  let start ← position
  if (← getThe Findings).notArrow.contains start then return none
  let before ← get
  match ← attempt (arrowHead rules) with
  | none =>
    noteNoArrow start
    return none
  | some head =>
    let typed := head.parts.getLast?.any (!·.isAbsent)
    if typed && !(← read).allowArrowType then
      let found ← attempt do
        let t ← arrowBody rules start head
        require (← isPunct ":")
        return t
      if found.isNone then
        noteNoArrow start
        set before
      return found
    else return some (← arrowBody rules start head)

end RouteSplit.Grammar
