import RouteSplit.Grammar.Classes
import RouteSplit.Grammar.Elements

/-!
# Expressions

- `primary`: literals, names, functions, and what stands in brackets;
- `leftHand`, `callee`: calls and properties;
- `unary`, `binary`, `conditional`: operators;
- `assignment`, `expression`: the widest expressions.
-/

namespace RouteSplit.Grammar

/-! ## Literals -/

def templateLiteral (rules : Rules) : Parser Tree := do
  let start ← position
  let (texts, holes) ← templateParts (bracketed (rules .expression))
  node start (.expression (.template texts)) holes

/-- Whether every escape in a template stands for something. Behind a tag it need not. -/
def hasPlainEscapes (t : Tree) : Bool :=
  match t.label with
  | .expression (.template texts) => texts.all fun s => Token.escapesAreValid s.toList
  | _ => false

def spreadable (rules : Rules) : Parser Tree := do
  let start ← position
  if ← accept "..." then
    let e ← rules .assignment
    node start (.expression (.spread (← isPunct ","))) [e]
  else rules .assignment

def arrayLiteral (rules : Rules) : Parser Tree := do
  let start ← position
  expect "["
  let parts ← bracketed <| many do
    if ← isPunct "]" then return none
    let place ← position
    -- A comma with nothing before it stands for an element that is missing.
    if ← accept "," then return some (Tree.node (.expression .hole) ⟨place, place⟩ [])
    let part ← spreadable rules
    unless ← isPunct "]" do expect ","
    return some part
  expect "]"
  node start (.expression .array) parts

def objectProperty (rules : Rules) : Parser Tree := do
  let start ← position
  if ← isPunct "..." then spreadable rules
  else
    let isAsync ← isAsyncMember
    if isAsync then advance
    let isGenerator ← accept "*"
    let getter ← if isAsync || isGenerator then pure false else isModifier "get"
    let setter ← if isAsync || isGenerator || getter then pure false else isModifier "set"
    if getter || setter then advance
    let memberKind : MemberKind := if getter then .getter else if setter then .setter else .plain
    let short ← isIdentifier
    -- Without a value the key is itself a name that is read, so its token is remembered.
    let name ← kind
    let (key, computed) ← publicKey rules
    if ← isPunctIn ["(", "<"] then
      let f ← methodFunction rules isAsync isGenerator .plain
      require (!(f.child 4).isAbsent && fitsKind (← hasTypes) memberKind f)
      node start (.expression (.property memberKind (memberKind == .plain) false computed)) [key, f]
    else
      require (memberKind == .plain && !isAsync && !isGenerator)
      if ← accept ":" then
        let value ← rules .assignment
        node start (.expression (.property .plain false false computed)) [key, value]
      else
        require short
        let .word w _ := name | failure
        noteName w
        let value := Tree.node (.expression (.reference w .read)) key.span []
        if ← accept "=" then
          let d ← rules .assignment
          node start (.expression .shorthandDefault) [value, d]
        else node start (.expression (.property .plain false true false)) [key, value]

def objectLiteral (rules : Rules) : Parser Tree := do
  let start ← position
  expect "\x7b"
  let parts ← bracketed (commaSeparated "\x7d" (objectProperty rules))
  node start (.expression .object) parts

def callArguments (rules : Rules) : Parser Tree := do
  let start ← position
  expect "("
  let found ← bracketed (commaSeparated ")" (spreadable rules))
  node start (.expression .arguments) found

/-! ## Primary expressions -/

/-- `import` as an expression: a call, or what the module knows of itself. -/
def importExpression (rules : Rules) : Parser Tree := do
  let start ← position
  expectWord "import"
  if ← accept "." then
    if ← acceptWord "meta" then
      modify fun s => { s with moduleSyntax := true }
      node start (.expression .importMeta) []
    else
      let phase ← anyWord
      require (phase == "source" || phase == "defer")
      importCall start (some phase)
  else importCall start none
where
  /-- The module to import, and how. -/
  importCall (start : Nat) (phase : Option String) : Parser Tree := do
    expect "("
    let found ← bracketed (commaSeparated ")" (rules .assignment))
    require (found.length == 1 || found.length == 2)
    node start (.expression (.importCall phase)) found

def wordExpression (rules : Rules) (w : String) : Parser Tree := do
  let start ← position
  let leaf (form : ExpressionForm) : Parser Tree := do
    advance
    node start (.expression form) []
  match w with
  | "this" => leaf .thisValue
  | "null" => leaf .null
  | "true" => leaf (.boolean true)
  | "false" => leaf (.boolean false)
  | "super" =>
    advance
    require (← isPunctIn ["(", ".", "["])
    node start (.expression .superValue) []
  | "class" =>
    let plain := Tree.node (.classes .decorators) ⟨start, start⟩ []
    classDefinition rules start plain .value false false
  | "import" => importExpression rules
  | _ =>
    if ← isFunction then function rules start .value false false
    else reference .read

/-- An expression without operators. -/
def primary (rules : Rules) : Parser Tree := do
  let start ← position
  match ← kind with
  | .word w escaped => if escaped then reference .read else wordExpression rules w
  | .number raw =>
    advance
    node start (.expression (.number raw)) []
  | .bigint raw =>
    advance
    node start (.expression (.bigint raw)) []
  | .string _ _ => stringLiteral
  | .template _ _ =>
    let t ← templateLiteral rules
    require (hasPlainEscapes t)
    return t
  | .punct "(" =>
    advance
    let e ← bracketed (rules .expression)
    expect ")"
    node start (.expression .paren) [e]
  | .punct "[" => arrayLiteral rules
  | .punct "\x7b" => objectLiteral rules
  | .punct "/" | .punct "/=" =>
    rescan Token.regex
    match ← kind with
    | .regex raw =>
      advance
      node start (.expression (.regex raw)) []
    | _ => failure
  | .punct "<" => if ← hasJsx then rules (.element false) else failure
  | .punct "@" =>
    let decorated ← decorators rules
    classDefinition rules start decorated .value false false
  | _ => failure

/-! ## Properties and calls -/

/-- The words that can begin an expression although they name nothing. -/
def expressionWords : List String :=
  ["this", "super", "null", "true", "false", "function", "class", "new", "typeof", "void", "delete"]

/-- The token ahead can stand behind type arguments: it opens a call or a template, it is an
operator between two operands, or it begins no expression. The operator `in` counts as the beginning
of one. -/
def mayFollowTypeArguments : Parser Bool := do
  match ← kind with
  | .punct "(" | .template _ _ | .endOfInput => return true
  | .punct p =>
    -- An operand could begin here, and then the bracket was an operator.
    if ["<", ">", "+", "-"].contains p then return false
    if ["[", "\x7b", "!", "~", "++", "--", "@", "/="].contains p then onNewLine
    else return true
  | .word "as" false | .word "satisfies" false => return true
  | .word "in" false => return !(← read).allowIn || (← onNewLine)
  | .word w escaped =>
    if !escaped && reserved.contains w && !expressionWords.contains w then return true
    else onNewLine
  | _ => onNewLine

/-- The closing bracket just read and the equals sign ahead make up one operator. -/
def isPartOfOperator : Parser Bool := do
  match ← kind with
  | .punct p => return p.toList.head? == some '=' && (← position) == (← get).last
  | _ => return false

/-- Type arguments behind an expression, if what follows them shows that they are some. -/
def expressionTypeArguments (rules : Rules) : Parser (Option Tree) := do
  unless (← hasTypes) && (← isPunctIn ["<", "<<"]) do return none
  attempt do
    let arguments ← typeArguments rules
    require !(← isPartOfOperator)
    require (← mayFollowTypeArguments)
    return arguments

/-- What an expression is followed by: a property, an index or a call. The flag tells whether a
link of the chain so far is optional. -/
def suffix (rules : Rules) (calls : Bool) (start : Nat) (e : Tree) (chained : Bool) :
    Parser (Option (Tree × Bool)) := do
  let named (isOptional : Bool) : Parser (Option (Tree × Bool)) := do
    match ← kind with
    | .privateWord w =>
      advance
      return some (← node start (.expression (.privateMember w isOptional)) [e],
        chained || isOptional)
    | _ =>
      let w ← anyWord
      return some (← node start (.expression (.member w isOptional)) [e], chained || isOptional)
  let indexed (isOptional : Bool) : Parser (Option (Tree × Bool)) := do
    expect "["
    let i ← bracketed (rules .expression)
    expect "]"
    return some (← node start (.expression (.index isOptional)) [e, i], chained || isOptional)
  let called (isOptional : Bool) (arguments : Tree) : Parser (Option (Tree × Bool)) := do
    let found ← callArguments rules
    return some (← node start (.expression (.call isOptional false)) [e, arguments, found],
      chained || isOptional)
  match ← kind with
  | .punct "." =>
    advance
    named false
  | .punct "?." =>
    unless calls do failure
    advance
    if ← isPunct "[" then indexed true
    else if ← isPunct "(" then called true .absent
    else
      match ← expressionTypeArguments rules with
      | some arguments => called true arguments
      | none => named true
  -- Behind a decorator the bracket opens the key of what is decorated.
  | .punct "[" => if (← read).inDecorator then return none else indexed false
  | .punct "(" => if calls then called false .absent else return none
  | .template _ _ =>
    require !chained
    let t ← templateLiteral rules
    return some (← node start (.expression .taggedTemplate) [e, .absent, t], chained)
  | .punct "!" =>
    if (← hasTypes) && !(← onNewLine) then
      advance
      return some (← node start (.expression .nonNull) [e], chained)
    return none
  | .punct "<" | .punct "<<" =>
    match ← expressionTypeArguments rules with
    | none => return none
    | some arguments =>
      match ← kind with
      | .punct "(" =>
        if calls then called false arguments
        else return some (← node start (.expression .instantiation) [e, arguments], chained)
      | .template _ _ =>
        let t ← templateLiteral rules
        return some (← node start (.expression .taggedTemplate) [e, arguments, t], chained)
      | _ => return some (← node start (.expression .instantiation) [e, arguments], chained)
  | _ => return none

def isImportCall (t : Tree) : Bool :=
  match t.label with
  | .expression (.importCall _) => true
  | _ => false

def newExpression (rules : Rules) : Parser Tree := do
  let start ← position
  expectWord "new"
  if ← accept "." then
    expectWord "target"
    node start (.expression .newTarget) []
  else
    let (callee, arguments) := splitInstantiation (← rules .callee)
    require !(isImportCall callee)
    let found ←
      if ← isPunct "(" then callArguments rules
      else node (← get).last (.expression .arguments) []
    node start (.expression (.new false)) [callee, arguments, found]

/-- A primary expression or a construction. -/
def base (rules : Rules) : Parser Tree := do
  if ← isWord "new" then newExpression rules else primary rules

/-- The operand of `new`. -/
def callee (rules : Rules) : Parser Tree := do
  let start ← position
  let first ← base rules
  let r ← iterate (first, false) fun (e, chained) => suffix rules false start e chained
  return r.1

/-- Properties and calls. A chain with an optional link is a node of its own. -/
def leftHand (rules : Rules) : Parser Tree := do
  let start ← position
  let first ← base rules
  let (e, chained) ← iterate (first, false) fun (e, chained) => suffix rules true start e chained
  if chained then node start (.expression .chain) [e] else return e

/-! ## Operators -/

def isNamedElement : Parser Bool := do
  unless ← hasJsx do return false
  looking do
    expect "<"
    discard anyWord
    return true

/-- An operand that is counted up or down, or nothing more than a left-hand side. Nothing belongs
to an element behind its end. -/
def counted (rules : Rules) : Parser Tree := do
  if ← isNamedElement then return ← rules (.element false)
  let start ← position
  let e ← leftHand rules
  if (← isPunctIn ["++", "--"]) && !(← onNewLine) then
    let .punct op ← kind | failure
    let t ← orFail (simpleTarget .readWrite e)
    advance
    node start (.expression (.update op false)) [t]
  else return e

/-- The word `await` ahead is an operator. Where it may be a name, the beginning of an operand on
the same line shows that it is none. -/
def isAwaitOperator : Parser Bool := do
  unless ← isWord "await" do return false
  let always := (← read).allowAwait
  looking do
    advance
    if always then return !(← isPunct "=>")
    if ← onNewLine then return false
    match ← kind with
    | .word w _ => return !(["in", "instanceof", "of"].contains w)
    | .number _ | .bigint _ | .string _ _ => return true
    | _ => return false

/-- A value that is waited for. Inside the operand `await` is an operator. -/
def awaitExpression (rules : Rules) : Parser Tree := do
  let start ← position
  useAwait
  expectWord "await"
  let e ← within ({ · with allowAwait := true }) (rules .unary)
  node start (.expression .await) [e]

def unary (rules : Rules) : Parser Tree := do
  let start ← position
  let operator (op : String) : Parser Tree := do
    advance
    let e ← rules .unary
    node start (.expression (.unary op)) [e]
  match ← kind with
  | .punct p =>
    if ["+", "-", "~", "!"].contains p then operator p
    else if p == "++" || p == "--" then
      advance
      let e ← rules .unary
      let t ← orFail (simpleTarget .readWrite e)
      node start (.expression (.update p true)) [t]
    else if p == "<" && (← hasTypes) && !(← hasJsx) then
      advance
      let type ← if ← isWord "const" then
          advance
          node start (.type (.keyword "const")) []
        else rules .type
      expect ">"
      let e ← rules .unary
      node start (.expression .typeAssertion) [type, e]
    else counted rules
  | .word w false =>
    if ["delete", "void", "typeof"].contains w then operator w
    else if ← isAwaitOperator then awaitExpression rules
    else counted rules
  | _ => counted rules

/-- How tightly an operator between two operands binds. -/
def levelOf (op : String) : Option Nat :=
  match op with
  | "??" => some 1
  | "||" => some 2
  | "&&" => some 3
  | "|" => some 4
  | "^" => some 5
  | "&" => some 6
  | "==" | "!=" | "===" | "!==" => some 7
  | "<" | ">" | "<=" | ">=" | "instanceof" | "in" => some 8
  | "<<" | ">>" | ">>>" => some 9
  | "+" | "-" => some 10
  | "*" | "/" | "%" => some 11
  | "**" => some 12
  | _ => none

def operator? : Parser (Option String) := do
  rescanAngle
  match ← kind with
  | .punct p => return if (levelOf p).isSome then some p else none
  | .word "instanceof" false => return some "instanceof"
  | .word "in" false => return if (← read).allowIn then some "in" else none
  | _ => return none

def mayJoin (op : String) (left right : Tree) : Bool :=
  let logical (ops : List String) (t : Tree) : Bool :=
    match t.label with
    | .expression (.binary o) => ops.contains o
    | _ => false
  let isUnary : Bool :=
    match left.label with
    | .expression (.unary _) | .expression .await => true
    | _ => false
  match op with
  | "??" => !logical ["||", "&&"] left && !logical ["||", "&&"] right
  | "||" | "&&" => !logical ["??"] left && !logical ["??"] right
  | "**" => !isUnary
  | _ => true

def ascribedType (rules : Rules) : Parser Tree := do
  if ← isWord "const" then
    let start ← position
    advance
    node start (.type (.keyword "const")) []
  else inType (rules .type)

/-- Marks the call that is made first in an expression as one without effects. -/
def markPure : Tree → Tree
  | .node (.expression (.call isOptional _)) span parts =>
    .node (.expression (.call isOptional true)) span parts
  | .node (.expression (.new _)) span parts => .node (.expression (.new true)) span parts
  | .node (.expression (.binary op)) span (left :: rest) =>
    .node (.expression (.binary op)) span (markPure left :: rest)
  | .node (.expression .conditional) span (test :: rest) =>
    .node (.expression .conditional) span (markPure test :: rest)
  | .node (.expression .chain) span [.node (.expression (.call isOptional _)) inner parts] =>
    .node (.expression .chain) span [.node (.expression (.call isOptional true)) inner parts]
  | .node (.expression .paren) span [e] => .node (.expression .paren) span [markPure e]
  | t => t

/-- The first operand among operators that bind at least as tightly as `level`: a private name may
stand left of `in`. -/
def firstOperand (rules : Rules) (level : Nat) : Parser Tree := do
  match ← kind with
  | .privateWord w =>
    let start ← position
    advance
    require ((← isWord "in") && (← read).allowIn && level ≤ 8)
    node start (.expression (.privateName w)) []
  | _ =>
    let promised ← promise
    let e ← unary rules
    return if promised.pure then markPure e else e

/-- Operators that bind at least as tightly as `level`. -/
def binary (rules : Rules) (level : Nat) : Parser Tree := do
  let start ← position
  let first ← firstOperand rules level
  iterate first fun left => do
    if (← hasTypes) && level ≤ 8 && !(← onNewLine) && (← isWordIn ["as", "satisfies"]) then
      let form : ExpressionForm := if ← isWord "as" then .asType else .satisfiesType
      advance
      let type ← ascribedType rules
      return some (← node start (.expression form) [left, type])
    let some op ← operator? | return none
    let some bind := levelOf op | return none
    if bind < level then return none
    advance
    -- Only powers group to the right.
    let right ← rules (.binary (if op == "**" then bind else bind + 1))
    require (mayJoin op left right)
    return some (← node start (.expression (.binary op)) [left, right])

/-- A choice between two expressions, or an expression with operators. -/
def conditional (rules : Rules) : Parser Tree := do
  let start ← position
  let test ← rules (.binary 1)
  if ← accept "?" then
    let consequent ←
      -- The colon that follows belongs to the choice and gives no function its result type.
      within ({ · with allowIn := true, allowArrowType := false }) (rules .assignment)
    expect ":"
    let alternate ← rules .assignment
    node start (.expression .conditional) [test, consequent, alternate]
  else return test

/-! ## Assignments and sequences -/

def assignmentOperators : List String :=
  ["=", "+=", "-=", "*=", "/=", "%=", "**=", "<<=", ">>=", ">>>=", "&=", "|=", "^=", "&&=",
    "||=", "??="]

def yieldExpression (rules : Rules) : Parser Tree := do
  let start ← position
  expectWord "yield"
  if !(← onNewLine) && (← isPunct "*") then
    advance
    let e ← rules .assignment
    node start (.expression (.yield true)) [e]
  else
    let ends ← isPunctIn [")", "]", "\x7d", ",", ";", ":"]
    let e ← optional (!ends && !(← onNewLine) && (← kind) != .endOfInput && !(← isWord "in"))
      (rules .assignment)
    node start (.expression (.yield false)) [e]

def markEffectFree : Tree → Tree
  | .node (.function (.function form declared traits)) span parts =>
    .node (.function (.function form declared { traits with effectFree := true })) span parts
  | .node (.function (.arrow traits)) span parts =>
    .node (.function (.arrow { traits with effectFree := true })) span parts
  | t => t

/-- An expression without commas, as it is written. -/
def plainAssignment (rules : Rules) : Parser Tree := do
  if (← read).allowYield && (← isWord "yield") then yieldExpression rules
  else
    match ← arrow? rules with
    | some t => return t
    | none =>
      let start ← position
      let left ← conditional rules
      rescanAngle
      match ← kind with
      | .punct op =>
        if assignmentOperators.contains op then
          -- What was read as a value turns out to be a target; a pattern it may be for `=` only.
          let t ← orFail (if op == "=" then target left else simpleTarget .readWrite left)
          advance
          let value ← rules .assignment
          node start (.expression (.assign op)) [t, value]
        else return left
      | _ => return left

/-- An expression without commas. -/
def assignment (rules : Rules) : Parser Tree := do
  let promised ← promise
  let e ← plainAssignment rules
  return if promised.effectFree then markEffectFree e else e

/-- Any expression. -/
def expression (rules : Rules) : Parser Tree := do
  let start ← position
  let found ← separatedBy "," (rules .assignment)
  match found with
  | [e] => return e
  | _ => node start (.expression .sequence) found

end RouteSplit.Grammar
