import RouteSplit.Grammar.Declarations

/-!
# Statements

- `block`, `forStatement`, `switchStatement`, `tryStatement`: the larger ones;
- `mayStandAlone`: what may be part of another statement without a block around it;
- `plainStatement`: any statement but imports, exports and decorated classes.
-/

namespace RouteSplit.Grammar

def block (rules : Rules) : Parser Tree := do
  let start ← position
  expect "\x7b"
  let inside ← statementList rules (isPunct "\x7d")
  expect "\x7d"
  node start (.statement .block) [inside]

def parenthesized (rules : Rules) : Parser Tree := do
  expect "("
  let e ← bracketed (rules .expression)
  expect ")"
  return e

def ifStatement (rules : Rules) : Parser Tree := do
  let start ← position
  expectWord "if"
  let test ← parenthesized rules
  let consequent ← rules .body
  let alternate ← if ← acceptWord "else" then rules .body else pure .absent
  node start (.statement .ifElse) [test, consequent, alternate]

def forEach (rules : Rules) (start : Nat) (awaits : Bool) (left : Tree) : Parser Tree := do
  if ← acceptWord "of" then
    let right ← bracketed (rules .assignment)
    expect ")"
    let body ← rules .body
    node start (.statement (.forOf awaits)) [left, right, body]
  else
    require !awaits
    expectWord "in"
    let right ← bracketed (rules .expression)
    expect ")"
    let body ← rules .body
    node start (.statement .forIn) [left, right, body]

/-- What stands behind the first semicolon of a loop. -/
def forRest (rules : Rules) (start : Nat) (initial : Tree) : Parser Tree := do
  expect ";"
  let test ← optional (!(← isPunct ";")) (bracketed (rules .expression))
  expect ";"
  let update ← optional (!(← isPunct ")")) (bracketed (rules .expression))
  expect ")"
  let body ← rules .body
  node start (.statement .forLoop) [initial, test, update, body]

/-- The word `async` left of `of` would be taken for the beginning of a function. -/
def isAsyncName (t : Tree) : Bool := t.label == .expression (.reference "async" .read)

/-- A loop over the values or the keys of something, or until a test fails. -/
def forStatement (rules : Rules) : Parser Tree := do
  let start ← position
  expectWord "for"
  let awaits ← acceptWord "await"
  expect "("
  let noIn {α : Type} (p : Parser α) : Parser α := within ({ · with allowIn := false }) p
  let headStart ← position
  if awaits then useAwait
  let counting (initial : Tree) : Parser Tree := do
    require !awaits
    forRest rules start initial
  if ← isPunct ";" then counting .absent
  else if let some k ← variableKind? then
    variableKeyword k
    let found ← noIn (declarators rules k)
    let left ← node headStart (.statement (.variableList k false)) found
    if ← isWordIn ["of", "in"] then
      -- A resource cannot be a key.
      require !(k.isUsing && (← isWord "in"))
      forEach rules start awaits left
    else
      require (found.all (hasNeededValue k))
      counting left
  else
    let left ← noIn (rules .expression)
    if ← isWordIn ["of", "in"] then
      require !(isAsyncName left && !awaits && (← isWord "of"))
      let t ← orFail (target left)
      forEach rules start awaits t
    else counting left

def declaresResources (t : Tree) : Bool :=
  match t.label with
  | .statement (.variableList k _) => k.isUsing
  | _ => false

/-- A case of a switch. It declares resources in a block only. -/
def switchCase (rules : Rules) : Parser Tree := do
  let start ← position
  let test ← if ← acceptWord "case" then bracketed (rules .expression)
    else
      expectWord "default"
      pure .absent
  expect ":"
  let inside ← statementList rules do
    return (← isWordIn ["case", "default"]) || (← isPunct "\x7d")
  require !(inside.children.any declaresResources)
  node start (.statement .switchCase) [test, inside]

def switchStatement (rules : Rules) : Parser Tree := do
  let start ← position
  expectWord "switch"
  let subject ← parenthesized rules
  expect "\x7b"
  let cases ← many do
    if ← isPunct "\x7d" then return none
    return some (← switchCase rules)
  expect "\x7d"
  node start (.statement .switch) (subject :: cases)

def catchClause (rules : Rules) : Parser Tree := do
  let start ← position
  expectWord "catch"
  let parameter ← if ← accept "(" then
      let paramStart ← position
      let t ← rules .target
      let type ← typeAnnotation rules
      let p ← node paramStart (.statement .catchParameter) [t, type]
      expect ")"
      pure p
    else pure .absent
  let body ← rules .block
  node start (.statement .catchClause) [parameter, body]

def tryStatement (rules : Rules) : Parser Tree := do
  let start ← position
  expectWord "try"
  let body ← rules .block
  let handler ← optional (← isWord "catch") (catchClause rules)
  let finalizer ← if ← acceptWord "finally" then rules .block else pure .absent
  require (!handler.isAbsent || !finalizer.isAbsent)
  node start (.statement .tryCatch) [body, handler, finalizer]

def jump (form : Option String → StatementForm) : Parser Tree := do
  let start ← position
  advance
  let target ← if !(← onNewLine) && (← isIdentifier) then some <$> identifier else pure none
  semicolon
  node start (.statement (form target)) []

/-- The value that a statement takes on its own line. -/
def valueStatement (rules : Rules) (form : StatementForm) (needed : Bool) : Parser Tree := do
  let start ← position
  advance
  let ends := (← onNewLine) || (← isPunctIn [";", "\x7d"]) || (← kind) == .endOfInput
  require !(needed && ends)
  let e ← optional (!ends) (rules .expression)
  semicolon
  node start (.statement form) [e]

def expressionStatement (rules : Rules) : Parser Tree := do
  let start ← position
  let e ← rules .expression
  semicolon
  node start (.statement .expression) [e]

/-- The word `let` ahead is an operand, since an operator follows it. -/
def isLetOperand : Parser Bool :=
  looking do
    expectWord "let"
    match ← kind with
    | .punct p => return (levelOf p).isSome || assignmentOperators.contains p
    | .word w false => return w == "in" || w == "instanceof"
    | _ => return false

/-- A statement that begins with the word `let` as a name. Before an operator the statement holds
no comma, and before a property or a call it ends without a semicolon. As a body of another
statement it may be the word alone. -/
def letStatement (rules : Rules) (isBody : Bool) : Parser Tree := do
  let start ← position
  if ← isLetOperand then
    let e ← rules .assignment
    semicolon
    node start (.statement .expression) [e]
  else if ← looking do advance; isPunctIn [".", "("] then
    let e ← rules .expression
    node start (.statement .expression) [e]
  else
    let before (p : String) : Parser Bool := looking do advance; isPunct p
    require ((← before ";") || (isBody && !(← before "[")))
    let e ← reference .read
    semicolon
    node start (.statement .expression) [e]

def otherStatement (rules : Rules) : Parser Tree := do
  let start ← position
  if let some t ← declarationStatement? rules then return t
  if ← isWord "let" then return ← letStatement rules false
  let labelled ← looking do
    require !((← isWord "await") && (← read).allowAwait)
    discard identifier
    isPunct ":"
  if labelled then
    let name ← identifier
    expect ":"
    let body ← rules .body
    node start (.statement (.labeled name)) [body]
  else expressionStatement rules

/-- Whether a statement may be part of another one without a block around it. Only variables of the
whole function, plain functions, and what the type layer adds may be declared so. -/
def mayStandAlone (t : Tree) : Bool :=
  match t.label with
  | .statement (.variableList kind declared) => declared || kind == .varVariable
  | .classes (.definition _ declared abstract) => declared || abstract
  | .function (.function _ declared traits) =>
    declared || (!traits.isAsync && !traits.isGenerator)
  | _ => true

def plainStatement (rules : Rules) : Parser Tree := do
  let start ← position
  match ← kind with
  | .punct "\x7b" => block rules
  | .punct ";" =>
    advance
    node start (.statement .empty) []
  | .word w false =>
    match w with
    | "if" => ifStatement rules
    | "for" => forStatement rules
    | "while" =>
      advance
      let test ← parenthesized rules
      let body ← rules .body
      node start (.statement .whileLoop) [test, body]
    | "do" =>
      advance
      let body ← rules .body
      expectWord "while"
      let test ← parenthesized rules
      discard (accept ";")
      node start (.statement .doWhile) [body, test]
    | "continue" => jump .continueTo
    | "break" => jump .breakTo
    | "return" =>
      require (← read).allowReturn
      valueStatement rules .returnValue false
    | "throw" => valueStatement rules .throwValue true
    | "debugger" =>
      advance
      semicolon
      node start (.statement .debugger) []
    | "with" =>
      advance
      let e ← parenthesized rules
      let body ← rules .body
      node start (.statement .withObject) [e, body]
    | "switch" => switchStatement rules
    | "try" => tryStatement rules
    | _ => otherStatement rules
  | _ => otherStatement rules

end RouteSplit.Grammar
