import RouteSplit.Grammar.Parser

/-!
# Names and keys

- `reserved`: the words that name nothing;
- `identifier`, `bindingName`, `reference`: names of bindings;
- `exportName`: the name of an import or export;
- `propertyKey`: the key of a property or a class member.
-/

namespace RouteSplit.Grammar

def reserved : List String :=
  ["break", "case", "catch", "class", "const", "continue", "debugger", "default", "delete",
    "do", "else", "enum", "export", "extends", "false", "finally", "for", "function", "if",
    "import", "in", "instanceof", "new", "null", "return", "super", "switch", "this", "throw",
    "true", "try", "typeof", "var", "void", "while", "with"]

def anyWord : Parser String := do
  match ← kind with
  | .word w _ =>
    advance
    return w
  | _ => failure

/-- Whether a word can name a binding. Where `await` and `yield` are operators, they cannot. -/
def Mode.allowsName (m : Mode) (w : String) : Bool :=
  !reserved.contains w && !(m.allowAwait && !m.mayNameAwait && w == "await") &&
    !(m.allowYield && w == "yield")

def isIdentifier : Parser Bool := do
  match ← kind with
  | .word w _ => return (← read).allowsName w
  | _ => return false

/-- Takes note of what a word names. -/
def noteName (w : String) : Parser Unit := do
  if w == "await" then noteAwaitNamed

def identifier : Parser String := do
  require (← isIdentifier)
  let w ← anyWord
  noteName w
  return w

def bindingName : Parser Tree := do
  let start ← position
  let name ← identifier
  node start (.pattern (.binding name)) []

def reference (usage : Usage) : Parser Tree := do
  let start ← position
  let name ← identifier
  node start (.expression (.reference name usage)) []

def stringLiteral : Parser Tree := do
  let start ← position
  match ← kind with
  | .string value _ =>
    advance
    node start (.expression (.string value)) []
  | _ => failure

/-- The characters of a literal. Half of a surrogate pair has none. -/
def textOf (units : List TextUnit) : String :=
  String.ofList (units.filterMap fun u => match u with
    | .char c => some c
    | .surrogate _ => none)

/-- Whether a literal is a text: no half of a surrogate pair stands alone in it. -/
def isText (units : List TextUnit) : Bool :=
  units.all fun u => match u with
    | .char _ => true
    | .surrogate _ => false

def exportName : Parser ExportName := do
  match ← kind with
  | .word w _ =>
    advance
    return ⟨w, false⟩
  | .string value _ =>
    require (isText value)
    advance
    return ⟨textOf value, true⟩
  | _ => failure

def nameKey : Parser Tree := do
  let start ← position
  let w ← anyWord
  node start (.expression (.name w)) []

/-- The key of a property or a class member, and whether it is computed. -/
def propertyKey (rules : Rules) : Parser (Tree × Bool) := do
  let start ← position
  match ← kind with
  | .word _ _ => return (← nameKey, false)
  | .privateWord w =>
    advance
    return (← node start (.expression (.privateName w)) [], false)
  | .string _ _ => return (← stringLiteral, false)
  | .number raw =>
    advance
    return (← node start (.expression (.number raw)) [], false)
  | .bigint raw =>
    advance
    return (← node start (.expression (.bigint raw)) [], false)
  | .punct "[" =>
    advance
    let key ← within ({ · with allowIn := true }) (rules .assignment)
    expect "]"
    return (key, true)
  | _ => failure

def isPrivateKey (key : Tree) : Bool :=
  match key.label with
  | .expression (.privateName _) => true
  | _ => false

/-- The key of a property outside classes, where no name is private. -/
def publicKey (rules : Rules) : Parser (Tree × Bool) := do
  let (key, computed) ← propertyKey rules
  require (computed || !isPrivateKey key)
  return (key, computed)

def isKeyStart : Parser Bool := do
  match ← kind with
  | .word _ _ | .privateWord _ | .string _ _ | .number _ | .bigint _ | .punct "[" => return true
  | _ => return false

end RouteSplit.Grammar
