import RouteSplit.Grammar.Types

/-!
# Elements

- `elementName`: the name in a tag, which may refer to a binding;
- `elementAttribute`, `elementChildren`: what stands in a tag and between tags;
- `element`: an element or a fragment.
-/

namespace RouteSplit.Grammar

/-! ## Reading inside elements -/

/-- What stands between two tags: text, or the bracket that opens a tag or an expression. -/
def childUnit (text : List Char) : TokenKind × List Char :=
  match text with
  | [] => (.endOfInput, [])
  | '<' :: rest => (.punct "<", rest)
  | '\x7b' :: rest => (.punct "\x7b", rest)
  | _ => (Token.jsxText text).getD (.invalid, text)

def attributeUnit (text : List Char) : TokenKind × List Char :=
  match text with
  | '\x22' :: rest => (Token.jsxString '\x22' rest).getD (.invalid, text)
  | '\x27' :: rest => (Token.jsxString '\x27' rest).getD (.invalid, text)
  | _ => Token.unit text

/-- Consumes the last token of a tag. Behind a tag among children, text follows. -/
def closeTag (nested : Bool) (p : String) : Parser Unit := do
  require (← isPunct p)
  if nested then advanceRaw childUnit else advance

def tagWord : Parser String := do
  match ← kind with
  | .word _ _ =>
    rescan fun text =>
      let (run, rest) := Token.jsxNameRest text
      if run.isEmpty then none else some (.word (String.ofList run) false, rest)
    anyWord
  | _ => failure

def namespacedWord : Parser String := do
  let first ← tagWord
  if ← accept ":" then return first ++ ":" ++ (← tagWord)
  return first

/-- A word of a dotted name has no hyphen and no colon. -/
def isPlainTagWord (name : String) : Bool := !name.toList.any fun c => c == '-' || c == ':'

/-- A tag name that begins like a component refers to a binding. -/
def isComponentName (name : String) : Bool :=
  match name.toList with
  | [] => false
  | c :: _ =>
    ((c ≥ 'A' && c ≤ 'Z') || c == '_' || c == '$' || c.toNat ≥ 0x80) && isPlainTagWord name

/-- The name in a tag. A dotted name refers to its first word. -/
def elementName : Parser Tree := do
  let start ← position
  let name ← namespacedWord
  let dotted ← isPunct "."
  require !(dotted && !isPlainTagWord name)
  let head ←
    if name == "this" then node start (.expression .thisValue) []
    else if isComponentName name || dotted then
      node start (.expression (.reference name .read)) []
    else node start (.jsx (.name name)) []
  iterate head fun left => do
    unless ← accept "." do return none
    let property ← tagWord
    require (isPlainTagWord property)
    return some (← node start (.jsx (.member property)) [left])

/-! ## Parts of an element -/

/-- An expression in braces. Among children there may be nothing in them, or a spread. -/
def container (rules : Rules) (close : Parser Unit) (child : Bool) : Parser Tree := do
  let start ← position
  expect "\x7b"
  if child && (← isPunct "\x7d") then
    let inner := Tree.node (.jsx .nothing) ⟨start + 1, ← position⟩ []
    close
    node start (.jsx .container) [inner]
  else if child && (← isPunct "...") then
    advance
    let e ← bracketed (rules .expression)
    close
    node start (.jsx .spreadChild) [e]
  else
    let e ← bracketed (rules .expression)
    require (e.label != .expression .sequence)
    close
    node start (.jsx .container) [e]

def elementAttribute (rules : Rules) : Parser Tree := do
  let start ← position
  if ← isPunct "\x7b" then
    advance
    expect "..."
    let e ← bracketed (rules .assignment)
    expect "\x7d"
    node start (.jsx .spreadAttr) [e]
  else
    let name ← namespacedWord
    unless ← isPunct "=" do return ← node start (.jsx (.attr name)) [.absent]
    advanceWith attributeUnit
    let valueStart ← position
    let value ← match ← kind with
      | .jsxString raw =>
        advance
        node valueStart (.jsx (.string raw)) []
      | .punct "\x7b" => container rules (expect "\x7d") false
      | .punct "<" => rules (.element false)
      | _ => failure
    node start (.jsx (.attr name)) [value]

def elementChildren (rules : Rules) : Parser Tree := do
  let start := (← get).last
  let found ← many do
    let childStart ← position
    match ← kind with
    | .jsxText raw =>
      advanceRaw childUnit
      return some (← node childStart (.jsx (.text raw)) [])
    | .punct "\x7b" => return some (← container rules (closeTag true "\x7d") true)
    | .punct "<" =>
      if ← looking do advance; isPunct "/" then return none
      return some (← rules (.element true))
    | _ => failure
  return Tree.node (.jsx .children) ⟨start, (← get).last⟩ found

def tagText : Tree → List String
  | .node (.expression (.reference name _)) _ _ => [name]
  | .node (.expression .thisValue) _ _ => ["this"]
  | .node (.jsx (.name name)) _ _ => [name]
  | .node (.jsx (.member property)) _ [left] => tagText left ++ [property]
  | _ => []

def element (rules : Rules) (nested : Bool) : Parser Tree := do
  let start ← position
  expect "<"
  if ← isPunct ">" then
    closeTag true ">"
    let inside ← elementChildren rules
    expect "<"
    expect "/"
    closeTag nested ">"
    node start (.jsx .fragment) [inside]
  else
    let name ← elementName
    let arguments ← if ← hasTypes then typeArguments? rules else pure .absent
    let attributes ← many do
      if ← isPunctIn [">", "/"] then return none
      return some (← elementAttribute rules)
    if ← accept "/" then
      closeTag nested ">"
      let opening ← node start (.jsx (.opening true)) (name :: arguments :: attributes)
      let inside := Tree.node (.jsx .children) ⟨(← get).last, (← get).last⟩ []
      node start (.jsx .element) [opening, inside, .absent]
    else
      closeTag true ">"
      let opening ← node start (.jsx (.opening false)) (name :: arguments :: attributes)
      let inside ← elementChildren rules
      expect "<"
      expect "/"
      let closing ← elementName
      require (tagText name == tagText closing)
      closeTag nested ">"
      node start (.jsx .element) [opening, inside, closing]

end RouteSplit.Grammar
