import RouteSplit.Grammar.Parameters

/-!
# Types

- `typeParameters`, `typeArguments`: the lists in angle brackets;
- `resultType`: the type behind a function's parameters, which may be a predicate;
- `typeName`: dotted names;
- `type`: any type.
-/

namespace RouteSplit.Grammar

/-! ## Lists in angle brackets -/

/-- Splits a doubled opening bracket, so that the first one stands alone. -/
def openAngle : Parser Unit := do
  if ← isPunct "<<" then rescan fun text => some (.punct "<", text.drop 1)
  expect "<"

def typeArguments (rules : Rules) : Parser Tree := do
  let start ← position
  openAngle
  let found ← inType (commaSeparated ">" (rules .type))
  require !found.isEmpty
  node start (.type .arguments) found

def typeArguments? (rules : Rules) : Parser Tree := do
  optional ((← isPunct "<") && !(← onNewLine)) (typeArguments rules)

def typeParameter (rules : Rules) : Parser Tree := do
  let start ← position
  let modifiers ← many do
    match ← kind with
    | .word w false =>
      if ["const", "in", "out"].contains w then
        -- A parameter may itself be called `out`.
        if w != "out" || (← looking do advance; isIdentifier) then
          advance
          return some w
      return none
    | _ => return none
  let name ← bindingName
  let constraint ← if ← acceptWord "extends" then rules .type else pure .absent
  let value ← if ← accept "=" then rules .type else pure .absent
  node start (.type (.parameter modifiers)) [name, constraint, value]

def typeParameters (rules : Rules) : Parser Tree := do
  let start ← position
  expect "<"
  let found ← inType (commaSeparated ">" (typeParameter rules))
  require !found.isEmpty
  node start (.type .parameters) found

def typeParameters? (rules : Rules) : Parser Tree := do
  optional ((← hasTypes) && (← isPunct "<")) (typeParameters rules)

/-! ## Names -/

/-- A dotted name. What stands alone is put to `usage`, and what stands left of a dot to
`qualifier`. -/
def typeName (usage qualifier : Usage) : Parser Tree := do
  let start ← position
  let isThis ← isWord "this"
  let first ← anyWord
  let head (u : Usage) : Parser Tree :=
    if isThis then node start (.expression .thisValue) []
    else node start (.expression (.reference first u)) []
  let qualified ← looking do accept "."
  let left ← head (if qualified then qualifier else usage)
  iterate left fun left => do
    unless ← accept "." do return none
    let name ← anyWord
    return some (← node start (.type (.qualified name)) [left])

def typeReference (rules : Rules) : Parser Tree := do
  let start ← position
  let name ← typeName .typeName .typeQualifier
  let arguments ← typeArguments? rules
  node start (.type .reference) [name, arguments]

/-! ## Results -/

/-- A type that says what a function finds out about one of its parameters. -/
def typePredicate (rules : Rules) : Parser Tree := do
  let start ← position
  -- Before `is` the word `asserts` is the subject.
  let asserts ← looking do
    expectWord "asserts"
    return !(← onNewLine) && ((← isWord "this") || (← isIdentifier) && !(← isWord "is"))
  if asserts then advance
  let subject ← anyWord
  let about ← if (← isWord "is") && !(← onNewLine) then
      advance
      rules .type
    else
      require asserts
      pure .absent
  node start (.type (.predicate asserts subject)) [about]

def resultType (rules : Rules) : Parser Tree := do
  match ← kind with
  | .word _ _ =>
    match ← attempt (typePredicate rules) with
    | some t => return t
    | none => rules .type
  | _ => rules .type

def resultAnnotation (rules : Rules) : Parser Tree := do
  if (← hasTypes) && (← isPunct ":") then
    advance
    inType (resultType rules)
  else return .absent

/-! ## Function types -/

def functionTypeParts (rules : Rules) : Parser (List Tree) := do
  let generics ← typeParameters? rules
  let params ← parameters rules .plain
  expect "=>"
  let result ← resultType rules
  return [generics, params, result]

def functionType (rules : Rules) : Parser Tree := do
  let start ← position
  let parts ← functionTypeParts rules
  node start (.type .function) parts

def constructorType (rules : Rules) : Parser Tree := do
  let start ← position
  let abstract ← acceptWord "abstract"
  expectWord "new"
  let parts ← functionTypeParts rules
  require !(parts.any hasThis)
  node start (.type (.constructor abstract)) parts

/-! ## Members of object types -/

/-- The end of a member: a semicolon, a comma, or the end of its line. -/
def memberEnd : Parser Unit := do
  if ← isPunctIn [";", ","] then advance
  else if (← isPunct "\x7d") || (← onNewLine) then return
  else failure

def signature (rules : Rules) : Parser (List Tree) := do
  let generics ← typeParameters? rules
  let params ← parameters rules .plain
  let result ← resultAnnotation rules
  return [generics, params, result]

/-- A word ahead that is followed by a key is a modifier rather than the key itself. -/
def isModifier (w : String) : Parser Bool := do
  unless ← isWord w do return false
  looking do
    advance
    isKeyStart

/-- An index signature: a name and its type in brackets, and the type of what it gives. -/
def indexSignature (rules : Rules) (start : Nat) (static readonly : Bool) : Parser Tree := do
  expect "["
  let name ← bindingName
  expect ":"
  let key ← inType (rules .type)
  expect "]"
  let type ← typeAnnotation rules
  require !type.isAbsent
  node start (.type (.indexSignature static readonly)) [name, key, type]

def isIndexSignature : Parser Bool :=
  looking do
    expect "["
    discard identifier
    isPunct ":"

/-- A member of an object type or an interface. Only properties can be `readonly`, and what sets a
value has no result. -/
def typeMember (rules : Rules) : Parser Tree := do
  let start ← position
  if ← isPunctIn ["(", "<"] then
    let parts ← signature rules
    node start (.type .callSignature) parts
  else if (← isWord "new") && (← looking do advance; isPunctIn ["(", "<"]) then
    advance
    let parts ← signature rules
    require !(parts.any hasThis)
    node start (.type .constructSignature) parts
  else
    let readonly := (← isModifier "readonly") && !(← looking do advance; onNewLine)
    if readonly then advance
    if ← isIndexSignature then indexSignature rules start false readonly
    else
      let getter ← isModifier "get"
      let setter ← if getter then pure false else isModifier "set"
      if getter || setter then advance
      let memberKind : MemberKind := if getter then .getter else if setter then .setter else .plain
      let (key, computed) ← publicKey rules
      let isOptional ← if memberKind == .plain then accept "?" else pure false
      if ← isPunctIn ["(", "<"] then
        require !readonly
        let parts ← signature rules
        require !(setter && parts.getLast?.any (!·.isAbsent))
        node start (.type (.method memberKind computed isOptional)) (key :: parts)
      else
        require (memberKind == .plain)
        let type ← typeAnnotation rules
        node start (.type (.property computed isOptional readonly)) [key, type]

def typeMembers (rules : Rules) : Parser Tree := do
  let start ← position
  expect "\x7b"
  let members ← many do
    if ← isPunct "\x7d" then return none
    let m ← typeMember rules
    memberEnd
    return some m
  expect "\x7d"
  node start (.type .object) members

/-! ## Mapped types -/

def mappedModifier (present : Parser Bool) : Parser MappedModifier := do
  if (← isPunct "+") && (← looking do advance; present) then
    advance
    discard present
    return .add
  if (← isPunct "-") && (← looking do advance; present) then
    advance
    discard present
    return .remove
  return if ← present then .set else .keep

def mappedType (rules : Rules) : Parser Tree := do
  let start ← position
  expect "\x7b"
  let readonly ← mappedModifier (acceptWord "readonly")
  expect "["
  let name ← bindingName
  expectWord "in"
  let constraint ← inType (rules .type)
  let renamed ← if ← acceptWord "as" then inType (rules .type) else pure .absent
  expect "]"
  let isOptional ← mappedModifier (accept "?")
  let type ← typeAnnotation rules
  discard (accept ";")
  expect "\x7d"
  node start (.type (.mapped readonly isOptional)) [name, constraint, renamed, type]

def isMappedType : Parser Bool :=
  looking do
    expect "\x7b"
    if ← isPunctIn ["+", "-"] then
      advance
      return ← isWord "readonly"
    discard (acceptWord "readonly")
    expect "["
    discard identifier
    isWord "in"

/-! ## Tuples, literals and imports -/

/-- A type with a question mark behind it is, as a place of a tuple, one that may be missing. -/
def asTuplePlace : Tree → Tree
  | .node (.type (.nullable true)) span parts => .node (.type .optional) span parts
  | t => t

def tupleMember (rules : Rules) : Parser Tree := do
  let start ← position
  let spread ← accept "..."
  let inner ← position
  let named ← looking do
    discard anyWord
    discard (accept "?")
    isPunct ":"
  let member ← if named then
      let name ← anyWord
      let isOptional ← accept "?"
      require !(spread && isOptional)
      expect ":"
      let type ← rules .type
      node inner (.type (.tupleMember name isOptional)) [type]
    else
      let type ← rules .type
      pure (if spread then type else asTuplePlace type)
  if spread then node start (.type .rest) [member] else return member

def mayBeMissing (t : Tree) : Bool :=
  match t.label with
  | .type .optional | .type (.tupleMember _ true) => true
  | _ => false

def isTupleRest (t : Tree) : Bool := t.label == .type .rest

/-- Whether every place behind one that may be missing may be missing, too. -/
def missingComeLast (places : List Tree) : Bool :=
  (places.dropWhile (!mayBeMissing ·)).all fun t => mayBeMissing t || isTupleRest t

def tupleType (rules : Rules) : Parser Tree := do
  let start ← position
  expect "["
  let members ← inType (commaSeparated "]" (tupleMember rules))
  require (missingComeLast members)
  node start (.type .tuple) members

def templateParts (hole : Parser Tree) : Parser (List String × List Tree) := do
  let piece : Parser (String × Bool) := do
    match ← kind with
    | .template raw last => return (Token.templateText raw, last)
    | _ => failure
  let (first, done) ← piece
  let r ← iterate ([first], ([] : List Tree), done) fun (texts, holes, done) => do
    if done then return none
    advance
    let t ← hole
    require (← isPunct "\x7d")
    -- Behind the closing brace the text of the template goes on.
    rescan fun text => Token.template (text.drop 1)
    let (raw, last) ← piece
    return some (raw :: texts, t :: holes, last)
  advance
  return (r.1.reverse, r.2.1.reverse)

def literalType : Parser Tree := do
  let start ← position
  let negative ← accept "-"
  let inner ← position
  let value ← match ← kind with
    | .string value _ =>
      require !negative
      advance
      node inner (.expression (.string value)) []
    | .number raw =>
      advance
      node inner (.expression (.number raw)) []
    | .bigint raw =>
      advance
      node inner (.expression (.bigint raw)) []
    | .word "true" false =>
      advance
      node inner (.expression (.boolean true)) []
    | .word "false" false =>
      advance
      node inner (.expression (.boolean false)) []
    | _ => failure
  let value ← if negative then node start (.expression (.unary "-")) [value] else pure value
  node start (.type .literal) [value]

def isTextType (t : Tree) : Bool :=
  match (t.child 0).label with
  | .expression (.string _) => true
  | _ => false

/-- A type taken from another module. How it is to be loaded is told by an object. -/
def importType (rules : Rules) : Parser Tree := do
  let start ← position
  expectWord "import"
  expect "("
  let source ← literalType
  require (isTextType source)
  let options ← if ← accept "," then
      let e ← rules .assignment
      require (e.label == .expression .object)
      pure e
    else pure .absent
  discard (accept ",")
  expect ")"
  let qualifier ← many do
    if ← accept "." then return some (← anyWord)
    return none
  let arguments ← typeArguments? rules
  node start (.type (.importType qualifier)) [source, options, arguments]

def typeQuery (rules : Rules) : Parser Tree := do
  let start ← position
  expectWord "typeof"
  let subject ← if ← isWord "import" then importType rules else typeName .typeQuery .typeQuery
  let arguments ← typeArguments? rules
  node start (.type .query) [subject, arguments]

def typeKeywords : List String :=
  ["any", "unknown", "string", "number", "boolean", "bigint", "symbol", "object", "void",
    "undefined", "never", "null", "this"]

/-! ## Types -/

/-- A type with a question mark or an exclamation mark before it. A question mark that nothing
follows is a type by itself. -/
def markedType (rules : Rules) : Parser Tree := do
  let start ← position
  if ← accept "?" then
    if ← isPunctIn [",", "\x7d", ")", ">", "=", "|"] then
      node start (.type (.keyword "unknown")) []
    else
      let t ← rules .type
      node start (.type (.nullable false)) [t]
  else
    expect "!"
    let t ← rules .primaryType
    node start (.type (.nonNullable false)) [t]

/-- A predicate stands ahead that can be told from a type by its first words. -/
def isPredicate : Parser Bool :=
  looking do
    if ← acceptWord "asserts" then
      return !(← onNewLine) && ((← isWord "this") || (← isIdentifier))
    expectWord "this"
    return !(← onNewLine) && (← isWord "is")

def primaryType (rules : Rules) : Parser Tree := do
  let start ← position
  match ← kind with
  | .word w escaped =>
    if escaped then typeReference rules
    else if ← isPredicate then typePredicate rules
    else if w == "true" || w == "false" then literalType
    else if w == "typeof" then typeQuery rules
    else if w == "import" then importType rules
    -- Before a dot such a word is the name of a namespace.
    else if typeKeywords.contains w && !(← looking do advance; isPunct ".") then
      advance
      node start (.type (.keyword w)) []
    else typeReference rules
  | .string _ _ | .number _ | .bigint _ | .punct "-" => literalType
  | .template _ _ =>
    let (texts, holes) ← templateParts (inType (rules .type))
    node start (.type (.template texts)) holes
  | .punct "\x7b" => if ← isMappedType then mappedType rules else typeMembers rules
  | .punct "[" => tupleType rules
  | .punct "(" =>
    advance
    let t ← inType (rules .type)
    expect ")"
    node start (.type .paren) [t]
  | .punct "?" | .punct "!" => markedType rules
  | _ => failure

/-- The token ahead can begin a type that is not in parentheses. -/
def isPlainTypeStart : Parser Bool := do
  match ← kind with
  | .word w _ =>
    return (← isIdentifier) ||
      ["void", "null", "typeof", "new", "true", "false", "import", "this", "function"].contains w
  | .string _ _ | .number _ | .bigint _ | .template _ _ => return true
  | .punct "-" =>
    looking do
      advance
      match ← kind with
      | .number _ | .bigint _ => return true
      | _ => return false
  | .punct p => return ["\x7b", "[", "<", "|", "&", "*", "?", "!", "..."].contains p
  | _ => return false

def isTypeStart : Parser Bool := do
  unless ← isPunct "(" do return ← isPlainTypeStart
  looking do
    advance
    return (← isPunctIn [")", "@"]) || (← isPlainTypeStart)

/-- A type with brackets or marks behind it. A question mark before another type belongs to a
choice between types. -/
def suffixedType (rules : Rules) : Parser Tree := do
  let start ← position
  let first ← rules .primaryType
  iterate first fun t => do
    if ← onNewLine then return none
    match ← kind with
    | .punct "!" =>
      advance
      return some (← node start (.type (.nonNullable true)) [t])
    | .punct "?" =>
      if ← looking do advance; isTypeStart then return none
      advance
      return some (← node start (.type (.nullable true)) [t])
    | .punct "[" =>
      advance
      if ← accept "]" then return some (← node start (.type .array) [t])
      let index ← inType (rules .type)
      expect "]"
      return some (← node start (.type .indexed) [t, index])
    | _ => return none

/-- The constraint of an inferred type. It is not mistaken for the bound of a conditional type. -/
def inferConstraint (rules : Rules) : Parser Tree := do
  let found ← attempt do
    expectWord "extends"
    let bound ← within ({ · with allowConditionalType := false }) (rules .type)
    -- A question mark shows that what was read is the bound of a conditional type.
    if (← read).allowConditionalType then require !(← isPunct "?")
    return bound
  return found.getD .absent

/-- The operators that stand before a type, outermost first, each with its start. -/
def typeOperators : Parser (List (Nat × String)) :=
  many do
    let start ← position
    match ← kind with
    | .word w false =>
      unless ["keyof", "unique", "readonly"].contains w do return none
      advance
      return some (start, w)
    | _ => return none

def isListType (t : Tree) : Bool := t.label == .type .array || t.label == .type .tuple

/-- A type with operators before it. Only lists can be `readonly`. -/
def operatorType (rules : Rules) : Parser Tree := do
  let operators ← typeOperators
  let start ← position
  let inner ← if ← isWord "infer" then
      advance
      let nameStart ← position
      let name ← bindingName
      let constraint ← inferConstraint rules
      let p ← node nameStart (.type (.parameter [])) [name, constraint, .absent]
      node start (.type .infer) [p]
    else suffixedType rules
  require (operators.getLast?.all fun o => o.2 != "readonly" || isListType inner)
  require (operators.dropLast.all fun o => o.2 != "readonly")
  let stop := (← get).last
  return operators.foldr (fun o t => .node (.type (.operator o.2)) ⟨o.1, stop⟩ [t]) inner

/-- Types joined by `separator`, which may also stand before the first one. -/
def joinedTypes (separator : String) (form : TypeForm) (item : Parser Tree) : Parser Tree := do
  let start ← position
  discard (accept separator)
  let found ← separatedBy separator item
  match found with
  | [t] => return t
  | _ => node start (.type form) found

/-- A function type stands ahead: what follows the parenthesis could only be a parameter. -/
def isFunctionType (rules : Rules) : Parser Bool := do
  if ← isPunct "<" then return true
  unless ← isPunct "(" do return false
  looking do
    advance
    if ← isPunctIn [")", "..."] then return true
    discard parameterModifiers
    if (← isIdentifier) || (← isWord "this") then advance
    else
      require (← isPunctIn ["\x7b", "["])
      discard (rules .target)
    if ← isPunctIn [":", ",", "?", "="] then return true
    expect ")"
    isPunct "=>"

def isConstructorType : Parser Bool :=
  looking do
    discard (acceptWord "abstract")
    expectWord "new"
    isPunctIn ["(", "<"]

/-- Any type. Behind `|` and `&` a function type needs parentheses. -/
def type (rules : Rules) : Parser Tree := do
  if ← isFunctionType rules then functionType rules
  else if ← isConstructorType then constructorType rules
  else
    let start ← position
    let checked ← joinedTypes "|" .union (joinedTypes "&" .intersection (operatorType rules))
    if (← read).allowConditionalType && !(← onNewLine) && (← isWord "extends") then
      advance
      let bound ← within ({ · with allowConditionalType := false }) (rules .type)
      expect "?"
      let consequent ← inType (rules .type)
      expect ":"
      let alternate ← inType (rules .type)
      node start (.type .conditional) [checked, bound, consequent, alternate]
    else return checked

end RouteSplit.Grammar
