import RouteSplit.Export.Names
import RouteSplit.Grammar.Statements

/-!
# Modules

- `importDeclaration`, `exportDeclaration`: what a module takes and gives;
- `parse`: the grammar tied together, each construct to a bounded depth;
- `secondReadings`: statements that turn out to mean something else in a module;
- `program`: all the statements of a text.
-/

namespace RouteSplit.Grammar

/-! ## Imports -/

def moduleSource : Parser Tree := stringLiteral

def importAttribute : Parser Tree := do
  let start ← position
  let key ← exportName
  expect ":"
  let value ← stringLiteral
  node start (.module (.importAttribute key)) [value]

def attributeKey (t : Tree) : String :=
  match t.label with
  | .module (.importAttribute key) => key.text
  | _ => ""

/-- The attributes of an import or export, where it has some. Each key stands once. -/
def importAttributes : Parser Tree := do
  let start ← position
  let present := (← isWord "with") || ((← isWord "assert") && !(← onNewLine))
  unless present do return .absent
  let keyword ← anyWord
  expect "\x7b"
  let found ← commaSeparated "\x7d" importAttribute
  require (decide (found.map attributeKey).Nodup)
  node start (.module (.importAttributes keyword)) found

/-- The word `type` ahead marks the name behind it rather than being a name. -/
def isTypeMarker : Parser Bool := do
  unless (← hasTypes) && (← isWord "type") do return false
  looking do
    advance
    match ← kind with
    | .word "as" false =>
      advance
      match ← kind with
      -- With one more word behind it the second `as` renames the first, which is then the name.
      | .word "as" false =>
        advance
        match ← kind with
        | .word _ _ => return true
        | _ => return false
      | .word _ _ => return false
      | _ => return true
    | .word _ _ | .string _ _ => return true
    | _ => return false

/-- A name that is imported, and the name that it is bound to. Where all are types, none is marked
as one. -/
def importSpecifier (allTypes : Bool) : Parser Tree := do
  let start ← position
  let typeOnly ← isTypeMarker
  require !(allTypes && typeOnly)
  if typeOnly then advance
  let nameStart ← position
  let short ← isIdentifier
  let imported ← exportName
  if ← acceptWord "as" then
    let bound ← bindingName
    node start (.module (.importNamed imported typeOnly)) [bound]
  else
    require short
    noteName imported.text
    let bound ← node nameStart (.pattern (.binding imported.text)) []
    node start (.module (.importNamed imported typeOnly)) [bound]

def namedImports (allTypes : Bool) : Parser (List Tree) := do
  expect "\x7b"
  commaSeparated "\x7d" (importSpecifier allTypes)

def namespaceImport : Parser Tree := do
  let start ← position
  expect "*"
  expectWord "as"
  let bound ← bindingName
  node start (.module .importNamespace) [bound]

/-- What an import binds. One of types only has either a default or other names. -/
def importClause (allTypes : Bool) : Parser Tree := do
  let start ← position
  let found ←
    if ← isPunct "\x7b" then namedImports allTypes
    else if ← isPunct "*" then return ← node start (.module .importClause) [← namespaceImport]
    else
      let bound ← bindingName
      let first ← node start (.module .importDefault) [bound]
      if ← accept "," then
        require !allTypes
        if ← isPunct "*" then pure [first, ← namespaceImport]
        else pure (first :: (← namedImports false))
      else pure [first]
  node start (.module .importClause) found

def importEquals (start : Nat) (typeOnly : Bool) : Parser Tree := do
  let bound ← bindingName
  expect "="
  let targetStart ← position
  let external ← looking do
    expectWord "require"
    isPunct "("
  let aim ← if external then
      advance
      expect "("
      let source ← moduleSource
      expect ")"
      node targetStart (.module .externalModule) [source]
    else typeName .read .read
  semicolon
  node start (.module (.importEquals typeOnly)) [bound, aim]

/-- The word ahead is a modifier of the import, since a clause follows it. -/
def isImportModifier (w : String) : Parser Bool := do
  unless ← isWord w do return false
  looking do
    advance
    if ← isPunctIn ["\x7b", "*"] then return true
    unless ← isIdentifier do return false
    if ← isWord "from" then
      advance
      -- One `from` alone opens the name of the module.
      return (← isWord "from") || (← isPunct "=")
    return true

/-- The word ahead that says how far a module is to be loaded, where it stands before all that the
module gives, or before a single name. -/
def importPhase? : Parser (Option String) := do
  if ← isWord "defer" then
    if ← looking do advance; isPunct "*" then return some (← anyWord)
  if ← isImportModifier "source" then
    if ← looking do advance; isIdentifier then return some (← anyWord)
  return none

def importDeclaration : Parser Tree := do
  let start ← position
  expectWord "import"
  if ← isString then
    noteModuleSyntax
    let source ← moduleSource
    let attributes ← importAttributes
    semicolon
    node start (.module (.importDeclaration false none)) [.absent, source, attributes]
  else
    let typeOnly ← if ← hasTypes then isImportModifier "type" else pure false
    if typeOnly then advance
    let phase ← if typeOnly then pure none else importPhase?
    let equals ← looking do
      discard identifier
      isPunct "="
    if equals then
      require (← hasTypes)
      importEquals start typeOnly
    else
      noteModuleSyntax
      let clause ← importClause typeOnly
      expectWord "from"
      let source ← moduleSource
      let attributes ← importAttributes
      semicolon
      node start (.module (.importDeclaration typeOnly phase)) [clause, source, attributes]

/-! ## Exports -/

/-- A name that is exported, and the name that it is exported under. Where all are types, none is
marked as one. -/
def exportSpecifier (typeOnly : Bool) : Parser Tree := do
  let start ← position
  let marked ← isTypeMarker
  require !(typeOnly && marked)
  if marked then advance
  let nameStart ← position
  let localName ← exportName
  let usage : Usage := if typeOnly || marked then .typeName else .exported
  let used ← node nameStart (.expression (.reference localName.text usage)) []
  let exported ← if ← acceptWord "as" then exportName else pure localName
  node start (.module (.exportSpecifier localName exported marked)) [used]

/-- A specifier of an export from another module refers to nothing here. -/
def withoutReference : Tree → Tree
  | .node label span _ => .node label span [.absent]

/-- The words that no name may be spelled like in the code of a module. -/
def strictlyReserved : List String :=
  ["await", "implements", "interface", "package", "private", "protected", "public", "static",
    "yield"]

/-- Whether a specifier names something that a module can bind. -/
def namesBinding : Tree → Bool
  | .node (.module (.exportSpecifier name _ _)) _ _ =>
    !name.quoted && !reserved.contains name.text && !strictlyReserved.contains name.text
  | _ => false

def exportNames (start : Nat) (typeOnly : Bool) : Parser Tree := do
  let listStart ← position
  expect "\x7b"
  let found ← commaSeparated "\x7d" (exportSpecifier typeOnly)
  let span : Span := ⟨listStart, (← get).last⟩
  let list (cs : List Tree) := Tree.node (.module .exportSpecifiers) span cs
  if ← acceptWord "from" then
    let source ← moduleSource
    let attributes ← importAttributes
    semicolon
    node start (.module (.exportNamed typeOnly))
      [.absent, list (found.map withoutReference), source, attributes]
  else
    require (found.all namesBinding)
    semicolon
    node start (.module (.exportNamed typeOnly)) [.absent, list found, .absent, .absent]

/-- All that another module gives, under its own names or under one. -/
def exportAll (start : Nat) (typeOnly : Bool) : Parser Tree := do
  expect "*"
  let exported ← if ← acceptWord "as" then some <$> exportName else pure none
  expectWord "from"
  let source ← moduleSource
  let attributes ← importAttributes
  semicolon
  node start (.module (.exportAll exported typeOnly)) [source, attributes]

/-- An expression that is given to other modules. A name stands for whatever it is bound to, a type
included. -/
def asExported : Tree → Tree
  | .node (.expression (.reference name .read)) span parts =>
    .node (.expression (.reference name .exported)) span parts
  | t => t

def exportDefault (rules : Rules) (start : Nat) : Parser Tree := do
  let declStart ← position
  let given ←
    if ← isFunction then function rules declStart .declaration false false
    else if ← isPunctIn ["@"] then
      decoratedClass rules (← decorators rules)
    else if (← isWord "class") ||
        ((← hasTypes) && (← isWordBefore "abstract" (isWord "class"))) then
      let abstract ← acceptWord "abstract"
      let plain := Tree.node (.classes .decorators) ⟨declStart, declStart⟩ []
      classDefinition rules declStart plain .declaration false abstract
    else if (← hasTypes) && (← isWordBefore "interface" isIdentifier) then
      interface rules declStart false
    else
      let e ← bracketed (rules .assignment)
      semicolon
      pure (asExported e)
  node start (.module .exportDefault) [given]

def exportOf (start : Nat) (given : Tree) : Parser Tree := do
  let here := (← get).last
  let unlisted := Tree.node (.module .exportSpecifiers) ⟨here, here⟩ []
  node start (.module (.exportNamed false)) [given, unlisted, .absent, .absent]

/-- Whether a declaration may be exported. What is to be disposed of where it is declared may
not. -/
def mayBeExported (t : Tree) : Bool :=
  match t.label with
  | .statement (.variableList k _) => k != .usingVariable && k != .awaitUsingVariable
  | _ => true

def exportedDeclaration (rules : Rules) (start : Nat) : Parser Tree := do
  let given ← if ← isPunct "@" then decoratedClass rules (← decorators rules)
    else
      let t ← exportableDeclaration rules
      require (mayBeExported t)
      pure t
  exportOf start given

def exportDeclaration (rules : Rules) : Parser Tree := do
  let start ← position
  expectWord "export"
  noteModuleSyntax
  let typed ← hasTypes
  if ← acceptWord "default" then exportDefault rules start
  else if ← isPunct "*" then exportAll start false
  else if ← isPunct "\x7b" then exportNames start false
  else if typed && (← isWordBefore "type" (isPunct "\x7b")) then
    advance
    exportNames start true
  else if typed && (← isWordBefore "type" (isPunct "*")) then
    advance
    exportAll start true
  else if typed && (← isPunct "=") then
    advance
    let e ← rules .expression
    semicolon
    node start (.module .exportAssignment) [asExported e]
  else if typed && (← isWordBefore "as" (isWord "namespace")) then
    advance
    advance
    let name ← identifier
    semicolon
    node start (.module (.exportAsNamespace name)) []
  else if typed && (← isWord "import") then
    let declStart ← position
    advance
    let typeOnly ← isImportModifier "type"
    if typeOnly then advance
    let given ← importEquals declStart typeOnly
    exportOf start given
  else exportedDeclaration rules start

/-- A class with decorators, which may stand before the word that exports it. -/
def decoratedStatement (rules : Rules) : Parser Tree := do
  let decorated ← decorators rules
  let start ← position
  if ← acceptWord "export" then
    noteModuleSyntax
    let isDefault ← acceptWord "default"
    let given ← decoratedClass rules decorated
    if isDefault then node start (.module .exportDefault) [given]
    else exportOf start given
  else decoratedClass rules decorated

def writtenStatement (rules : Rules) : Parser Tree := do
  if ← isWord "import" then
    let isCall ← looking do
      advance
      isPunctIn ["(", "."]
    if isCall then plainStatement rules else importDeclaration
  else if ← isWord "export" then exportDeclaration rules
  else if ← isPunct "@" then decoratedStatement rules
  else plainStatement rules

def markFirstValue : Tree → Tree
  | .node (.statement (.variableList .constVariable declared)) span
      (.node label inner [name, type, value] :: rest) =>
    .node (.statement (.variableList .constVariable declared)) span
      (.node label inner [name, type, markEffectFree value] :: rest)
  | t => markEffectFree t

/-- Marks the function that a statement declares as one whose calls have no effects. -/
def markStatement : Tree → Tree
  | .node (.module .exportDefault) span [given] =>
    .node (.module .exportDefault) span [markEffectFree given]
  | .node (.module (.exportNamed typeOnly)) span (declaration :: rest) =>
    .node (.module (.exportNamed typeOnly)) span (markFirstValue declaration :: rest)
  | .node (.function form) span parts => markEffectFree (.node (.function form) span parts)
  | .node (.statement form) span parts => markFirstValue (.node (.statement form) span parts)
  | t => t

def statement (rules : Rules) : Parser Tree := do
  let promised ← promise
  let t ← writtenStatement rules
  return if promised.effectFree then markStatement t else t

/-- A statement that is part of another one. The word `let` is a name there. -/
def bodyStatement (rules : Rules) : Parser Tree := do
  if ← isWord "let" then letStatement rules true
  else
    let t ← statement rules
    require (mayStandAlone t)
    return t

/-! ## The whole grammar -/

/-- One construct, given parsers for all of them. -/
def step (rules : Rules) : Goal → Parser Tree
  | .expression => expression rules
  | .assignment => assignment rules
  | .binary level => binary rules level
  | .unary => unary rules
  | .leftHand => leftHand rules
  | .callee => callee rules
  | .target => bindingTarget rules
  | .statement => statement rules
  | .body => bodyStatement rules
  | .block => block rules
  | .type => type rules
  | .primaryType => primaryType rules
  | .element nested => element rules nested

def parse : Nat → Rules
  | 0, _ => failure
  | depth + 1, goal => step (parse depth) goal

/-- A depth that no text of the given length can exceed: between two constructs on a path at least
one token is consumed or the construct is of a narrower kind, and there are fewer than sixteen
kinds. -/
def depthFor (length : Nat) : Nat := 16 * (length + 2)

/-! ## Programs -/

/-- Parsers that take note of a statement at the top in which `await` is a name. -/
def topRules (rules : Rules) : Rules
  | .statement => do
    let before ← get
    set { before with awaitNamed := false }
    let t ← rules .statement
    modify fun s =>
      if s.awaitNamed then { s with unsettled := (t.span, before.toPlace) :: s.unsettled } else s
    return t
  | goal => rules goal

/-- The statement at `place` as a module has it, where `await` is an operator. -/
def readAgain (rules : Rules) (place : Place) : Parser Tree := do
  -- What was found where `await` was a name need not hold where it is an operator.
  modifyThe Findings fun _ => {}
  modify fun s => { s with toPlace := place, awaitNamed := false }
  within ({ · with allowAwait := true, mayNameAwait := true, atTop := false }) (rules .statement)

/-- The statements in which `await` was a name as a module has them, each under the span that it had
before. Only in the last of them is it an error if something is called `await`. -/
def secondReadings (rules : Rules) : List (Span × Place) → Parser (List (Span × Tree))
  | [] => return []
  | (span, place) :: rest => do
    let t ← readAgain rules place
    if rest.isEmpty then require !(← get).awaitNamed
    return (span, t) :: (← secondReadings rules rest)

/-- The program that a text holds. A text that may be a module is one if it holds what only modules
hold, and otherwise `await` has none of the uses that it has in them. In a module the statements in
which `await` was a name are read again; what stands behind them stays as it was read. No statement
exports a value under a name that was exported before; where there are types, that is not looked
into. -/
def program (rules : Rules) (start : Nat) (hashbang : Option String) : Parser Tree := do
  let [prologue, body] ← statementsUntil (topRules rules) (return (← kind) == .endOfInput)
    | failure
  require ((← kind) == .endOfInput)
  let stop ← position
  let met ← get
  let mayBeModule := (← read).dialect.kind == .either
  let isModule := (← read).dialect.kind == .module || (mayBeModule && met.moduleSyntax)
  require (isModule || !met.awaitUsed)
  let again ← if mayBeModule && isModule then secondReadings rules met.unsettled.reverse
    else pure []
  set met
  unless ← hasTypes do require (Export.distinct (body.children ++ again.map (·.2)))
  let statements := body.children.map fun t => (again.lookup t.span).getD t
  let body := Tree.node (.module .statements) body.span statements
  return .node (.module (.program hashbang isModule)) ⟨start, stop⟩ [prologue, body]

end RouteSplit.Grammar
