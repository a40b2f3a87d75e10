import RouteSplit.Layout.Classes
import RouteSplit.Number.Literal
import RouteSplit.Text.Quoted

/-!
# Layout of expressions

- `operatorLevel`: how tightly an operator binds;
- `binary`: operators between two operands;
- `object`, `property`: object literals;
- `expression`: any expression.
-/

namespace RouteSplit.Layout

/-! ## Operators -/

def operatorLevel (op : String) : Nat :=
  match op with
  | "??" => Level.coalesce
  | "||" => Level.or
  | "&&" => Level.and
  | "|" => Level.bitOr
  | "^" => Level.bitXor
  | "&" => Level.bitAnd
  | "==" | "!=" | "===" | "!==" => Level.equals
  | "<" | ">" | "<=" | ">=" | "instanceof" | "in" => Level.compare
  | "<<" | ">>" | ">>>" => Level.shift
  | "+" | "-" => Level.add
  | "*" | "/" | "%" => Level.multiply
  | _ => Level.power

def isLogical (op : String) : Bool := op == "??" || op == "||" || op == "&&"

/-- An expression without the parentheses around it. -/
def bare : Tree → Tree
  | .node (.expression .paren) _ [e] => bare e
  | t => t

def operator? (t : Tree) : Option String :=
  match (bare t).label with
  | .expression (.binary op) => some op
  | _ => none

/-- Whether an operand left of a power needs parentheses whatever its level. -/
def isUnary (t : Tree) : Bool :=
  match (bare t).label with
  | .expression (.unary _) => true
  | _ => false

/-- The levels that the two operands of `op` have to exceed. Logical operators associate either
way and are not mixed with `??`; a power associates to the right. -/
def operandLevels (op : String) (left right : Tree) : Nat × Nat :=
  let own := operatorLevel op
  let mixed (t : Tree) : Bool :=
    match operator? t with
    | some o =>
      (op == "??" && (o == "||" || o == "&&")) || (o == "??" && (op == "||" || op == "&&"))
    | none => false
  let guarded (t : Tree) (level : Nat) : Nat := if mixed t then Level.unary else level
  if op == "**" then (if isUnary left then Level.call else own, own - 1)
  else if isLogical op then
    (guarded left (own - 1), guarded right (if operator? right == some op then own - 1 else own))
  else (own - 1, own)

/-- The test for a private name. Behind its operator only another `in` needs parentheses. -/
def privateTest (left right : Part) (place : Place) : Writer :=
  parens (place.level ≥ Level.compare) place fun p =>
    left.2 p ++ " in " ++ right.2 { p.fresh Level.equals with noIn := true }

/-- Operators between two operands. -/
def binary (op : String) (left right : Part) (place : Place) : Writer :=
  let wrap := place.level ≥ operatorLevel op || (op == "in" && place.noIn)
  let place := if wrap then { place with noIn := false } else place
  let (l, r) := operandLevels op left.1 right.1
  parens wrap place fun p => left.2 (p.leftmost l) ++ " " ++ op ++ " " ++ right.2 (p.inner r)

/-- Whether the sign `op` and the operator that its operand begins with would run together. -/
def runsTogether (op : String) (operand : Tree) : Bool :=
  match (bare operand).label with
  | .expression (.unary inner) => (op == "+" || op == "-") && inner == op
  | .expression (.update inner true) => inner == op ++ op
  | _ => false

/-- Whether an operand is a number beyond all others, which is written as a name. -/
def isTooLarge (t : Tree) : Bool :=
  match t.label with
  | .expression (.number raw) => (Number.Literal.value? raw).isNone
  | _ => false

/-- Operators before an operand. What is deleted is never a bare name that stands for a number. -/
def unary (op : String) (operand : Part) (place : Place) : Writer :=
  parens (place.level ≥ Level.unary) place fun p =>
    let isWord := op.toList.head?.any Char.isAlpha
    let gap := if isWord || runsTogether op operand.1 then " " else ""
    let text := operand.2 (p.inner Level.power)
    op ++ gap ++ if op == "delete" && isTooLarge operand.1 then "(0, " ++ text ++ ")" else text

/-! ## Literals -/

def templateText : List String → List Writer → Writer
  | [], _ => ""
  | [last], _ => last
  | t :: ts, h :: hs => t ++ "$" ++ openBrace ++ h ++ closeBrace ++ templateText ts hs
  | t :: ts, [] => t ++ templateText ts []

def template (texts : List String) (holes : List Writer) : Writer :=
  "\x60" ++ templateText (texts.map fun t => String.ofList (Text.guardScript t.toList)) holes ++
    "\x60"

def regexText (raw : String) : String :=
  let flags := (raw.toList.reverse.takeWhile (· != '/')).mergeSort fun a b => a ≤ b
  String.ofList (raw.toList.take (raw.length - flags.length) ++ flags)

/-- An array literal: up to two elements on one line, more on lines of their own. -/
def array (parts : List Part) (place : Place) : Writer :=
  let isLong := parts.length > 2
  let inner := (if isLong then place.deeper else place).fresh Level.comma
  let endsInHole := parts.getLast?.any fun p => isHole p.1
  let written := parts.map fun p => p.2 inner
  let tail := if endsInHole then "," else ""
  if isLong then "[" ++ listLines place written ++ tail ++ "\n" ++ indent place ++ "]"
  else "[" ++ Writer.intercalate ", " written ++ tail ++ "]"

/-- A property of an object literal. A value that spells its key stands alone. -/
def property (kind : MemberKind) (method shorthand computed : Bool) (key value : Part)
    (place : Place) : Writer :=
  if method || kind != .plain then
    kindWord kind ++ methodWords value.1 ++ propertyKey computed key place ++
      value.2 { place.withCalls Level.lowest with asMethod := true, inObject := true }
  else
    let name? := keyName? key.1
    let spells :=
      match name?, (bare value.1).label with
      | some name, .expression (.reference r _) =>
        -- This key sets the prototype unless it stands alone, so it is not drawn together.
        if name == "__proto__" then shorthand else !computed && name == r
      | _, _ => false
    let text := value.2 (place.fresh Level.comma)
    if spells then text
    else propertyKey (computed || isTooLarge key.1) key place ++ ": " ++ text

/-- An object literal: a single property on one line, more on lines of their own. -/
def object (parts : List Part) (place : Place) : Writer :=
  let wrap := place.opens == .statement || place.opens == .arrowBody
  parens wrap place fun place =>
    let isLong := parts.length > 1
    let inner := (if isLong then place.deeper else place).withCalls Level.comma
    let written := parts.map fun p => p.2 inner
    if isLong then openBrace ++ listLines place written ++ "\n" ++ indent place ++ closeBrace
    else if parts.isEmpty then openBrace ++ closeBrace
    else openBrace ++ " " ++ Writer.join written ++ " " ++ closeBrace

/-! ## Calls and properties -/

/-- What stands before a dot. A number without a point gets a space. -/
def objectText (e : Part) (place : Place) : Writer :=
  let text := e.2 { place.leftmost Level.update with noIn := false }
  match (bare e.1).label with
  | .expression (.number raw) =>
    if Number.Literal.takesPoint (Number.Literal.write raw) then text ++ " " else text
  | _ => text

/-- What is written of the promise that a call has no effect. -/
def pureMark (pure : Bool) : String := word pure "/* @__PURE__ */"

/-- The parts of a call. What the call begins, its callee begins, behind a promise too. -/
def call (isOptional pure : Bool) (callee arguments found : Part) (place : Place) : Writer :=
  let wrap := place.level ≥ Level.new || place.noCall || (pure && place.level ≥ Level.update)
  let opens := if (wrap || pure) && place.opens == .arrowBody then .nothing else place.opens
  parens wrap place fun p =>
    pureMark pure ++
      callee.2 { p.leftmost Level.update with opens := opens, noIn := false, noCall := false } ++
      (if isOptional then "?." else "") ++ arguments.2 p.type ++ found.2 (p.fresh Level.comma)

def construction (pure : Bool) (callee arguments found : Part) (place : Place) : Writer :=
  parens (place.level ≥ Level.member || (pure && place.level ≥ Level.update)) place fun p =>
    pureMark pure ++ "new " ++ callee.2 { p.fresh Level.new with noCall := true } ++
      arguments.2 p.type ++ found.2 (p.fresh Level.comma)

/-! ## Expressions -/

/-- Whether an assignment to `t` would be taken for a block where a statement begins. -/
def isObjectTarget (t : Tree) : Bool := t.label == .pattern .objectTarget

/-- The layout of an expression. -/
def expression (form : ExpressionForm) (span : Span) (parts : List Part) (place : Place) :
    Writer :=
  let first := part parts 0
  let second := part parts 1
  let third := part parts 2
  match form with
  | .reference name _ => name
  | .thisValue => "this"
  | .superValue => "super"
  | .null => "null"
  | .boolean value => if value then "true" else "false"
  | .number raw => if place.inType then raw else Number.Literal.write raw
  | .bigint raw => Number.Literal.writeInteger raw
  | .string value => Text.quote value
  | .regex raw => regexText raw
  | .template texts => template texts (parts.map fun p => p.2 (place.fresh Level.lowest))
  | .taggedTemplate =>
    first.2 { place.leftmost Level.update with noIn := false, noCall := false } ++
      second.2 place.type ++ third.2 place
  | .array => array parts place
  | .hole => ""
  | .spread _ => "..." ++ first.2 (place.fresh Level.comma)
  | .object => object parts place
  | .property kind method shorthand computed =>
    property kind method shorthand computed first second place
  | .shorthandDefault => first.2 place ++ " = " ++ second.2 (place.fresh Level.comma)
  | .name text => text
  | .privateName text => "#" ++ text
  | .unary op => unary op first place
  | .update op before =>
    if before then
      parens (place.level ≥ Level.unary) place fun p => op ++ first.2 (p.inner Level.unary)
    else
      parens (place.level ≥ Level.update) place fun p => first.2 (p.leftmost Level.update) ++ op
  | .binary op =>
    match first.1.label with
    | .expression (.privateName _) => privateTest first second place
    | _ => binary op first second place
  | .assign op =>
    let opened := place.opens == .statement || place.opens == .arrowBody
    let wrap := (opened && isObjectTarget first.1) || place.level ≥ Level.assign
    parens wrap place fun p =>
      first.2 (p.leftmost Level.comma) ++ " " ++ op ++ " " ++ second.2 (p.inner Level.comma)
  | .conditional =>
    parens (place.level ≥ Level.conditional) place fun p =>
      first.2 { p.leftmost Level.conditional with noCall := false } ++ " ? " ++
        second.2 (p.fresh Level.yield) ++ " : " ++
        third.2 { p.inner Level.yield with noCall := false }
  | .call isOptional pure => call isOptional pure first second third place
  | .new pure => construction pure first second third place
  | .arguments => argumentList parts (span.stop - 1) (place.fresh Level.comma)
  | .member name isOptional =>
    let object : Writer :=
      if isOptional then first.2 { place.leftmost Level.update with noIn := false } ++ "?"
      else objectText first place
    object ++ "." ++ name
  | .privateMember name isOptional =>
    first.2 { place.leftmost Level.update with noIn := false } ++
      (if isOptional then "?" else "") ++ ".#" ++ name
  | .index isOptional =>
    first.2 { place.leftmost Level.update with noIn := false } ++
      (if isOptional then "?." else "") ++ "[" ++ second.2 (place.fresh Level.lowest) ++ "]"
  | .chain => parens (place.level ≥ Level.update) place fun p => first.2 (p.leftmost place.level)
  | .sequence =>
    parens (place.level ≥ Level.comma) place fun p =>
      match parts with
      | [] => ""
      | e :: rest =>
        e.2 { p.leftmost Level.lowest with noCall := false } ++
          Writer.join (rest.map fun e => ", " ++ e.2 { p.inner Level.lowest with noCall := false })
  | .paren => first.2 { place with inParens := true }
  | .yield delegate =>
    parens (place.level ≥ Level.assign) place fun p =>
      "yield" ++ (if delegate then "*" else "") ++ first.around " " "" (p.fresh Level.yield)
  | .await =>
    parens (place.level ≥ Level.unary) place fun p => "await " ++ first.2 (p.inner Level.power)
  | .importCall phase =>
    parens (place.level ≥ Level.new || place.noCall) place fun p =>
      "import" ++ String.join (phase.toList.map ("." ++ ·)) ++
        argumentList parts (span.stop - 1) (p.fresh Level.comma)
  | .importMeta => "import.meta"
  | .newTarget => "new.target"
  | .asType =>
    parens (place.level ≥ Level.shift) place fun p =>
      first.2 (p.leftmost Level.power) ++ " as " ++ second.2 p.type
  | .satisfiesType =>
    parens (place.level ≥ Level.shift) place fun p =>
      first.2 (p.leftmost Level.power) ++ " satisfies " ++ second.2 p.type
  | .nonNull =>
    parens (first.1.label == .expression .paren) place
      (fun p => first.2 (p.leftmost place.level)) ++ "!"
  | .typeAssertion =>
    parens true place fun p =>
      let gap := if first.1.label == .type .function then " " else ""
      "<" ++ gap ++ first.2 p.type ++ ">" ++ second.2 (p.inner Level.member)
  | .instantiation => first.2 (place.leftmost place.level) ++ second.2 place.type

end RouteSplit.Layout
