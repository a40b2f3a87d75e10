import RouteSplit.Layout.Expressions

/-!
# Layout of statements

- `endsInOpenIf`: the statements that an `else` behind them would join;
- `body`: a statement behind the head of another;
- `statement`: any statement but imports and exports.
-/

namespace RouteSplit.Layout

/-- Whether a statement ends in an `if` that has no alternative, so that an `else` behind it would
join that one. -/
def endsInOpenIf : Tree → Bool
  | .node (.statement .ifElse) _ [_, _, alternate] =>
    alternate.isAbsent || endsInOpenIf alternate
  | .node (.statement .forLoop) _ [_, _, _, body] => endsInOpenIf body
  | .node (.statement .forIn) _ [_, _, body] => endsInOpenIf body
  | .node (.statement (.forOf _)) _ [_, _, body] => endsInOpenIf body
  | .node (.statement .whileLoop) _ [_, body] => endsInOpenIf body
  | .node (.statement .withObject) _ [_, body] => endsInOpenIf body
  | .node (.statement (.labeled _)) _ [body] => endsInOpenIf body
  | _ => false

def isBlock (t : Tree) : Bool := t.label == .statement .block

/-- A function or class as a statement, and any other statement as it is. That a function has no
effect is said on a line of its own. -/
def listed (s : Part) (place : Place) : Writer :=
  match s.1.label with
  | .function (.function _ _ traits) =>
    let text := indent place ++ s.2 place.goingOn ++ "\n"
    let mark : Writer :=
      if traits.effectFree then indent place ++ effectFreeMark ++ "\n" else ""
    commentsAt place s.1.span.start ++ mark ++ text
  | .classes _ => line place s.1.span (s.2 place.goingOn ++ "\n")
  | _ => s.2 place

/-- The statement behind the head of another, up to the end of its last line. -/
def body (s : Part) (place : Place) : Writer :=
  match s.1.label with
  | .statement .block => " " ++ s.2 place.goingOn ++ "\n"
  | .statement .empty => ";\n"
  | _ => Writer.space true ++ listed s place.onLine

def ifElse (test consequent alternate : Part) (place : Place) : Writer :=
  let head := "if (" ++ test.2 (place.fresh Level.lowest) ++ ")"
  let closing := if alternate.isAbsent then "\n" else " "
  let first : Writer :=
    if isBlock consequent.1 then " " ++ consequent.2 place.goingOn ++ closing
    else if endsInOpenIf consequent.1 then
      " " ++ braces place false (fun p => listed consequent p.onLine) ++ closing
    else body consequent place ++ if alternate.isAbsent then Writer.empty else indent place
  let second : Writer :=
    if alternate.isAbsent then ""
    else
      match alternate.1.label with
      | .statement .ifElse => "else " ++ alternate.2 place.goingOn
      | _ => "else" ++ body alternate place
  head ++ first ++ second

def variableWord : VariableKind → String
  | .varVariable => "var"
  | .letVariable => "let"
  | .constVariable => "const"
  | .usingVariable => "using"
  | .awaitUsingVariable => "await using"

def variableList (kind : VariableKind) (declared : Bool) (parts : List Part) (place : Place) :
    Writer :=
  word declared "declare" ++ variableWord kind ++ " " ++ commas parts (place.inner Level.comma)

def loopHead (s : Part) (place : Place) : Writer :=
  s.2 { place.goingOn with noIn := true }

/-- The target of a loop. A name that could open a function there stands in parentheses. -/
def loopTarget (s : Part) (place : Place) : Writer :=
  let isAsync :=
    match s.1.label with
    | .expression (.reference "async" _) => true
    | _ => false
  parens isAsync place (loopHead s)

def jumpText (word : String) (target : Option String) : String :=
  word ++ String.join (target.toList.map (" " ++ ·)) ++ ";\n"

/-- A case: a single statement stands on its line, more on lines of their own. -/
def switchCase (test : Part) (statements : Part) (place : Place) : Writer :=
  let head : Writer :=
    if test.isAbsent then "default:" else "case " ++ test.2 (place.fresh Level.lowest) ++ ":"
  match statements.1.children with
  | [.node (.statement .block) _ _] => head ++ " " ++ statements.2 place.goingOn ++ "\n"
  | [.node (.statement .empty) _ _] => head ++ ";\n"
  | [_] => head ++ Writer.space true ++ statements.2 place.onLine
  | _ => head ++ "\n" ++ statements.2 place.deeper.onLine

/-- The handler of a `try`. Comments before it leave their space before its block. -/
def catchClause (span : Span) (parameter block : Part) (place : Place) : Writer :=
  let gap : Writer := .choose fun sheet => if sheet.spaced then " " ++ Writer.space false else ""
  commentsAt place span.start ++ "catch " ++
    parameter.around "(" ") " (place.fresh Level.lowest) ++ gap ++ block.2 place.goingOn

/-- The layout of statements. A variable declaration that goes on with the head of a loop or an
export has no end of line. -/
def statement (form : StatementForm) (span : Span) (parts : List Part) (place : Place) : Writer :=
  let first := part parts 0
  let second := part parts 1
  let third := part parts 2
  let fourth := part parts 3
  let value := place.fresh Level.lowest
  let put := line place span
  match form with
  | .block =>
    let text := braces place first.1.children.isEmpty fun p => first.2 p.onLine
    if place.bare then text else put (text ++ "\n")
  | .empty => put ";\n"
  | .expression =>
    if place.guardString && isStringIn first.1 then "(" ++ first.2 value ++ ");\n"
    else put (first.2 { value with opens := .statement } ++ ";\n")
  | .ifElse => put (ifElse first second third place)
  | .forLoop =>
    put ("for (" ++ loopHead first place ++ ";" ++ second.around " " "" value ++ ";" ++
      third.around " " "" value ++ ")" ++ body fourth place)
  | .forIn =>
    put ("for (" ++ loopTarget first place ++ " in " ++ second.2 value ++ ")" ++ body third place)
  | .forOf awaits =>
    put ("for " ++ word awaits "await" ++ "(" ++ loopTarget first place ++ " of " ++
      second.2 (place.fresh Level.comma) ++ ")" ++ body third place)
  | .whileLoop => put ("while (" ++ first.2 value ++ ")" ++ body second place)
  | .doWhile =>
    let inside : Writer :=
      match first.1.label with
      | .statement .block => " " ++ first.2 place.goingOn ++ " "
      | .statement .empty => ";\n" ++ indent place
      | _ => "\n" ++ listed first { place.deeper.onLine with noIn := false } ++ indent place
    put ("do" ++ inside ++ "while (" ++ second.2 value ++ ");\n")
  | .continueTo target => put (jumpText "continue" target)
  | .breakTo target => put (jumpText "break" target)
  | .returnValue => put ("return" ++ first.around " " "" value ++ ";\n")
  | .throwValue => put ("throw " ++ first.2 value ++ ";\n")
  | .debugger => put "debugger;\n"
  | .withObject => put ("with(" ++ first.2 value ++ ")" ++ body second place)
  | .switch =>
    let cases := parts.drop 1
    put ("switch (" ++ first.2 value ++ ") " ++
      (braces place cases.isEmpty fun p => .join (cases.map fun c => c.2 p.onLine)) ++ "\n")
  | .switchCase => indent place ++ switchCase first second place
  | .labeled name => put (name ++ ":" ++ body first place)
  | .tryCatch =>
    put ("try " ++ first.2 place.goingOn ++ second.around " " "" place.goingOn ++
      third.around " finally " "" place.goingOn ++ "\n")
  | .catchClause => catchClause span first second place
  | .catchParameter => first.2 value ++ second.around ": " "" place.type
  | .variableList kind declared =>
    let text := variableList kind declared parts place
    if place.bare then text else put (text ++ ";\n")
  | .declarator definite =>
    first.2 value ++ (if definite then "!" else "") ++ second.around ": " "" place.type ++
      third.around " = " "" (place.inner Level.comma)

end RouteSplit.Layout
