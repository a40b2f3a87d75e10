import RouteSplit.Source.Dialect
import RouteSplit.Token.Lexer
import RouteSplit.Tree.Basic

/-!
# Parsers

A parser looks at one token, and may turn back to any place where it has been. It fails without a
reason, since nothing that the library says depends on one.

- `Mode`: what the surrounding constructs allow;
- `Place`, `State`: where a parser stands, and what it has met on the way there;
- `Findings`: what is known of the text itself;
- `Parser`: a computation that consumes tokens;
- `Goal`, `Rules`: the constructs that hold one another, tied together in `Grammar.Module`;
- the small parsers that all the grammar is made of.
-/

namespace RouteSplit.Grammar

/-- What the surrounding constructs allow. -/
structure Mode where
  dialect : Dialect
  /-- The length of the input, which bounds every repetition. -/
  size : Nat
  /-- `in` is an operator here. -/
  allowIn : Bool := true
  /-- `await` is an operator here. -/
  allowAwait : Bool := true
  /-- What is bound here may be called `await` although it is an operator. -/
  mayNameAwait : Bool := false
  /-- No function, class member or namespace stands around this place. -/
  atTop : Bool := true
  /-- `yield` is an operator here. -/
  allowYield : Bool := false
  /-- `return` may stand here. -/
  allowReturn : Bool := false
  /-- An arrow function may give its result type here. -/
  allowArrowType : Bool := true
  /-- `extends` opens a conditional type here. -/
  allowConditionalType : Bool := true
  /-- Declarations have no values here. -/
  ambient : Bool := false
  /-- A bracket belongs to what is decorated rather than to the decorator. -/
  inDecorator : Bool := false

/-- Where a parser stands: the token ahead with the input at it and behind it, the end of the last
token consumed, and the comments passed, the last one first. -/
structure Place where
  token : Token
  here : Cursor
  after : Cursor
  last : Nat
  comments : List Comment

/-- Where a parser stands, and what it has met on the way there. -/
structure State extends Place where
  /-- The text imports or exports something, or asks what a module knows of itself. -/
  moduleSyntax : Bool := false
  /-- `await` was put to a use that it has in modules only. -/
  awaitUsed : Bool := false
  /-- `await` was a name where modules have an operator. -/
  awaitNamed : Bool := false
  /-- The statements at the top in which `await` was a name, the last one first, and where each of
  them begins. -/
  unsettled : List (Span × Place) := []

/-- What has been found out about the text itself. -/
structure Findings where
  /-- Where no arrow function begins, although at first it looks as if one did. -/
  notArrow : List Nat := []

/-- A computation that consumes tokens or fails. What it finds out outlives its failure. -/
abbrev Parser := ReaderT Mode (StateT State (OptionT (StateM Findings)))

def run {α : Type} (p : Parser α) (mode : Mode) (state : State) : Option (α × State) :=
  (((p.run mode).run state).run.run {}).run.1

/-- The constructs that hold one another. -/
inductive Goal where
  | expression
  | assignment
  /-- Operators that bind at least as tightly as the level. -/
  | binary (level : Nat)
  | unary
  /-- A name, a call or a property. -/
  | leftHand
  /-- The operand of `new`: a name or a property, but no call. -/
  | callee
  /-- An identifier or a destructuring pattern that a declaration binds. -/
  | target
  | statement
  /-- A statement that is part of another one. -/
  | body
  | block
  | type
  /-- A type without operators. -/
  | primaryType
  /-- An element; `nested` ones stand among the children of another. -/
  | element (nested : Bool)

/-- A parser for every construct. -/
abbrev Rules := Goal → Parser Tree

/-! ## The token ahead -/

def token : Parser Token := return (← get).token

def kind : Parser TokenKind := return (← get).token.kind

def position : Parser Nat := return (← get).token.span.start

def onNewLine : Parser Bool := return (← get).token.newlineBefore

/-- What the comments before the token ahead promise. -/
def promise : Parser Promise := return (← get).token.promise

def isPunct (p : String) : Parser Bool := return (← kind) == .punct p

def isPunctIn (ps : List String) : Parser Bool := do
  match ← kind with
  | .punct p => return ps.contains p
  | _ => return false

def isWord (w : String) : Parser Bool := return (← kind) == .word w false

def isWordIn (ws : List String) : Parser Bool := do
  match ← kind with
  | .word w false => return ws.contains w
  | _ => return false

def hasTypes : Parser Bool := return (← read).dialect.types

def hasJsx : Parser Bool := return (← read).dialect.jsx

/-! ## Moving on -/

def State.move (s : State) (r : Token.Read) : State :=
  { s with
    token := r.token, here := r.here, after := r.after, last := s.token.span.stop
    comments := r.comments ++ s.comments }

def advanceWith (reader : List Char → TokenKind × List Char) : Parser Unit :=
  modify fun s =>
    -- Behind these a comment belongs to the value that is to come.
    let waiting := s.token.kind == .punct "=" || s.token.kind == .punct "("
    s.move (Token.readNext reader false waiting s.after)

def advance : Parser Unit := advanceWith Token.unit

def rescan (reader : List Char → Option (TokenKind × List Char)) : Parser Unit := do
  let s ← get
  match reader s.here.rest with
  | some result =>
    let r := Token.readAt (fun _ => result) s.token.newlineBefore s.here
    -- The comments before the token are not read again, so their promise is handed on.
    set { s with token := { r.token with promise := s.token.promise }, after := r.after }
  | none => failure

/-- Reads a closing angle bracket together with the punctuation that it begins. -/
def rescanAngle : Parser Unit := do
  if ← isPunct ">" then rescan (Token.firstOf Token.anglePunctuators)

/-- Consumes the text token ahead directly behind the last one, blanks included. -/
def advanceRaw (reader : List Char → TokenKind × List Char) : Parser Unit :=
  modify fun s => s.move (Token.readAt reader false s.after)

/-- Consumes the punctuator `p` if it stands ahead. -/
def accept (p : String) : Parser Bool := do
  if ← isPunct p then
    advance
    return true
  return false

def expect (p : String) : Parser Unit := do
  unless ← accept p do failure

def acceptWord (w : String) : Parser Bool := do
  if ← isWord w then
    advance
    return true
  return false

def expectWord (w : String) : Parser Unit := do
  unless ← acceptWord w do failure

/-- Fails unless `b`. -/
def require (b : Bool) : Parser Unit := do
  unless b do failure

/-- What `p` would give here; nothing is consumed. -/
def ahead {α : Type} (p : Parser α) : Parser (Option α) := do
  let s ← get
  let r ← (some <$> p) <|> pure none
  set s
  return r

/-- Whether `p` would succeed and answer yes here; nothing is consumed. -/
def looking (p : Parser Bool) : Parser Bool := return (← ahead p) == some true

/-- What `p` gives; if it fails, nothing is consumed. -/
def attempt {α : Type} (p : Parser α) : Parser (Option α) := (some <$> p) <|> pure none

/-- Runs `p` where `change` holds. -/
def within {α : Type} (change : Mode → Mode) (p : Parser α) : Parser α := withReader change p

/-- Runs `p` between brackets, where operators and types mean what they usually mean. -/
def bracketed {α : Type} (p : Parser α) : Parser α :=
  within ({ · with allowIn := true, allowArrowType := true, inDecorator := false }) p

/-- Runs `p` inside a type, where `extends` opens a conditional type again. -/
def inType {α : Type} (p : Parser α) : Parser α :=
  within ({ · with allowConditionalType := true }) p

def withTypes {α : Type} (p : Parser α) : Parser α :=
  within (fun m => { m with dialect := { m.dialect with types := true } }) p

/-! ## Modules and scripts -/

/-- Takes note of what only a module holds. At the top of a text it makes the text a module. -/
def noteModuleSyntax : Parser Unit := do
  if (← read).atTop then modify fun s => { s with moduleSyntax := true }

/-- Takes note that `await` is a name, where that may have to be settled later. -/
def noteAwaitNamed : Parser Unit := do
  if (← read).atTop || (← read).allowAwait then modify fun s => { s with awaitNamed := true }

/-- Lets `await` be put to the use that it has in modules. A text that may be one is allowed to at
first. -/
def useAwait : Parser Unit := do
  unless (← read).allowAwait do
    unless (← read).dialect.kind == .either do failure
    modify fun s => { s with awaitUsed := true }

/-! ## Repetition -/

/-- Goes on from `x` as long as `step` gives a next value, at most `n` times. -/
def iterateN {α : Type} (step : α → Parser (Option α)) : Nat → α → Parser α
  | 0, x => return x
  | n + 1, x => do
    match ← step x with
    | some y => iterateN step n y
    | none => return x

def iterate {α : Type} (x : α) (step : α → Parser (Option α)) : Parser α := do
  iterateN step ((← read).size + 1) x

/-- The values that `item` gives until it gives none. -/
def many {α : Type} (item : Parser (Option α)) : Parser (List α) := do
  let found ← iterate [] fun acc => return (← item).map (· :: acc)
  return found.reverse

/-- Items with commas between them, and perhaps behind the last, up to `close`. -/
def commaSeparated (close : String) (item : Parser Tree) : Parser (List Tree) := do
  let items ← many do
    if ← isPunct close then return none
    let t ← item
    unless ← isPunct close do expect ","
    return some t
  expect close
  return items

def separatedBy (separator : String) (item : Parser Tree) : Parser (List Tree) := do
  let first ← item
  let rest ← many do
    if ← accept separator then return some (← item)
    return none
  return first :: rest

/-! ## Building nodes -/

/-- A node from `start` up to the end of the last token consumed. -/
def node (start : Nat) (label : Label) (children : List Tree) : Parser Tree := do
  return .node label ⟨start, (← get).last⟩ children

def optional (present : Bool) (p : Parser Tree) : Parser Tree :=
  if present then p else pure .absent

/-- The end of a statement: a semicolon, or a place where one may be left out. -/
def semicolon : Parser Unit := do
  if ← accept ";" then return
  if (← isPunct "\x7d") || (← kind) == .endOfInput || (← onNewLine) then return
  failure

end RouteSplit.Grammar
