import RouteSplit.Layout.Expressions

/-!
# Layout of types

- `typeMembers`: the members of an object type, one a line;
- `type`: types and the declarations of the type layer.
-/

namespace RouteSplit.Layout

def typeMembers (parts : List Part) (place : Place) : Writer :=
  braces place parts.isEmpty fun p =>
    .join (parts.map fun m => line { p with bare := false } m.1.span (m.2 p ++ ";\n"))

def enumMembers : List Part → Place → Writer
  | [], _ => ""
  | m :: rest, place =>
    line place m.1.span (m.2 place ++ if rest.isEmpty then "\n" else ",\n") ++
      enumMembers rest place

def mappedModifier (m : MappedModifier) (word : String) : String :=
  match m with
  | .keep => ""
  | .set => word
  | .add => "+" ++ word
  | .remove => "-" ++ word

/-- Type parameters: one on a line with the rest, more on lines of their own. Where elements are
read, a comma tells a single one from a tag. -/
def typeParameters (parts : List Part) (place : Place) : Writer :=
  if parts.length > 1 then
    let written := parts.map fun p => p.2 place.deeper
    "<" ++ listLines place written ++ "\n" ++ indent place ++ ">"
  else
    "<" ++ commas parts place ++ (if place.dialect.jsx then "," else "") ++ ">"

/-! ## Declarations -/

/-- The name and the body of a namespace, inner ones behind a dot. -/
def namespaceText (name body : Part) (place : Place) : Writer :=
  let behind : Writer :=
    match body.1.label with
    | .absent => ";"
    | .type (.namespaceBlock _ _) => "." ++ body.2 { place with asMethod := true }
    | _ => " " ++ body.2 place.goingOn
  name.2 place ++ behind

/-- A declaration on a line of its own, unless it goes on with an export. -/
def declarationLine (place : Place) (span : Span) (text : Writer) : Writer :=
  if place.bare then text else line place span (text ++ "\n")

/-- A declaration on a line of its own, with its comments behind the indentation, unless it goes
on with an export. -/
def typeLine (place : Place) (span : Span) (text : Writer) (ending : String) : Writer :=
  if place.bare then text
  else indent place ++ commentsAt place span.start ++ text ++ ending

/-- An enumeration. Its text begins with an indentation of its own. -/
def enumText (isConst declared : Bool) (name : Part) (members : List Part) (place : Place) :
    Writer :=
  indent place ++ word declared "declare" ++ word isConst "const" ++ "enum " ++
    name.2 place.type ++ " " ++
    braces place members.isEmpty fun p => enumMembers members p.onLine

def type (form : TypeForm) (span : Span) (parts : List Part) (outer : Place) : Writer :=
  let first := part parts 0
  let second := part parts 1
  let third := part parts 2
  let fourth := part parts 3
  let place := outer.type
  let value := { place with inType := false }
  let member := { place with inType := outer.inType }
  match form with
  | .keyword name => name
  | .reference => first.2 place ++ second.2 place
  | .qualified name => first.2 place ++ "." ++ name
  | .query => "typeof " ++ first.2 place ++ second.2 place
  | .importType qualifier =>
    "import(" ++ first.2 place ++ second.around ", " "" value ++ ")" ++
      String.join (qualifier.map ("." ++ ·)) ++ third.2 place
  | .union => .intercalate " | " (parts.map fun p => p.2 place)
  | .intersection => .intercalate " & " (parts.map fun p => p.2 place)
  | .array => first.2 place ++ "[]"
  | .indexed => first.2 place ++ "[" ++ second.2 place ++ "]"
  | .tuple => "[" ++ commas parts place ++ "]"
  | .tupleMember name isOptional =>
    name ++ (if isOptional then "?" else "") ++ ": " ++ first.2 place
  | .optional => first.2 place ++ "?"
  | .rest => "..." ++ first.2 place
  | .nullable behind => if behind then first.2 place ++ "?" else "?" ++ first.2 place
  | .nonNullable behind => if behind then first.2 place ++ "!" else "!" ++ first.2 place
  | .object => typeMembers parts member
  | .function => first.2 place ++ second.2 place ++ " => " ++ third.2 place
  | .constructor abstract =>
    word abstract "abstract" ++ "new " ++ first.2 place ++ second.2 place ++ " => " ++
      third.2 place
  | .operator op => op ++ " " ++ first.2 place
  | .infer => "infer " ++ first.2 place
  | .conditional =>
    first.2 place ++ " extends " ++ second.2 place ++ " ? " ++ third.2 place ++ " : " ++
      fourth.2 place
  | .mapped readonly isOptional =>
    openBrace ++ " " ++ mappedModifier readonly "readonly" ++
      (if readonly == .keep then "" else " ") ++ "[" ++ first.2 place ++ " in " ++ second.2 place ++
      third.around " as " "" place ++ "]" ++ mappedModifier isOptional "?" ++
      fourth.around " : " "" place ++ " " ++ closeBrace
  | .literal => first.2 place
  | .template texts => template texts (parts.map fun p => p.2 place)
  | .paren => "(" ++ first.2 place ++ ")"
  | .predicate asserts subject =>
    word asserts "asserts" ++ subject ++ first.around " is " "" place
  | .parameters => typeParameters parts place
  | .parameter modifiers =>
    String.join (modifiers.map (· ++ " ")) ++ first.2 place ++ second.around " extends " "" place ++
      third.around " = " "" place
  | .arguments => "<" ++ commas parts place ++ ">"
  | .property computed isOptional readonly =>
    word readonly "readonly" ++ propertyKey computed first member ++
      (if isOptional then "?" else "") ++ second.around ": " "" place
  | .method kind computed isOptional =>
    kindWord kind ++ propertyKey computed first member ++ (if isOptional then "?" else "") ++
      second.2 place ++ third.2 place ++ fourth.around ": " "" place
  | .callSignature => first.2 place ++ second.2 place ++ third.around ": " "" place
  | .constructSignature => "new " ++ first.2 place ++ second.2 place ++ third.around ": " "" place
  | .indexSignature _ readonly =>
    word readonly "readonly" ++ "[" ++ first.2 place ++ ": " ++ second.2 place ++ "]" ++
      third.around ": " "" place
  | .heritage => first.2 place ++ second.2 place
  | .heritages => if parts.isEmpty then "" else " extends " ++ commas parts place
  | .interface _ =>
    let text :=
      "interface " ++ first.2 place ++ second.2 place ++ third.2 place ++ " " ++ fourth.2 value
    typeLine outer span text "\n"
  | .alias declared =>
    let text :=
      word declared "declare" ++ "type " ++ first.2 place ++ second.2 place ++ " = " ++
        third.2 place
    typeLine outer span text ";\n"
  | .enum isConst declared =>
    typeLine outer span (enumText isConst declared first (parts.drop 1) outer) "\n"
  | .enumMember computed =>
    propertyKey computed first value ++ second.around " = " "" (value.fresh Level.lowest)
  | .namespaceBlock keyword declared =>
    let text := namespaceText first second { value with bare := true }
    if outer.asMethod then text
    else declarationLine outer span (word declared "declare" ++ keyword ++ " " ++ text)
  | .globalScope declared =>
    declarationLine outer span (word declared "declare" ++ "global " ++ first.2 value)
  | .moduleBlock =>
    braces outer (first.1.children.isEmpty && second.1.children.isEmpty)
      (statementLines first second)

end RouteSplit.Layout
