import RouteSplit.Layout.Statements
import RouteSplit.Layout.Types

/-!
# Layout of modules

- `directiveText`: a directive in the quotes that it can stand in;
- `importClause`: what an import binds;
- `moduleForm`: the module itself, its imports and exports.
-/

namespace RouteSplit.Layout

/-- Whether a double quote stands in the text before any single one. Escaped characters do not
count. -/
def doubleQuoteFirst : List Char → Bool
  | [] => false
  | '\\' :: _ :: rest => doubleQuoteFirst rest
  | c :: rest => if c == '\x22' then true else if c == '\x27' then false else doubleQuoteFirst rest

def directiveText (raw : String) : String :=
  let mark := if doubleQuoteFirst raw.toList then "'" else "\""
  mark ++ raw ++ mark

def exportNameText (name : ExportName) : String :=
  if name.quoted then Text.quoteString name.text else name.text

def inBraces (parts : List Part) (place : Place) : Writer :=
  if parts.isEmpty then openBrace ++ closeBrace
  else openBrace ++ " " ++ commas parts place ++ " " ++ closeBrace

def isNamedImport (t : Tree) : Bool :=
  match t.label with
  | .module (.importNamed _ _) => true
  | _ => false

/-- What an import binds: the names in braces come last. -/
def importClause (parts : List Part) (place : Place) : Writer :=
  let named := parts.filter fun p => isNamedImport p.1
  let others := parts.filter fun p => !isNamedImport p.1
  let list := if named.isEmpty then [] else [inBraces named place]
  if parts.isEmpty then openBrace ++ closeBrace
  else .intercalate ", " (others.map (fun p => p.2 place) ++ list)

/-- A name and, if it differs, the name that it goes under. Quotes make no difference. -/
def renamed (name other : ExportName) : String :=
  if name.text == other.text then exportNameText name
  else exportNameText name ++ " as " ++ exportNameText other

def isDefinition (t : Tree) : Bool :=
  match t.label with
  | .function (.function .declaration _ _) => true
  | .classes (.definition .declaration _ _) => true
  | .type (.interface _) => true
  | _ => false

def exported (declaration : Part) (place : Place) : Writer :=
  let ending :=
    match declaration.1.label with
    | .statement (.variableList _ _) | .type (.alias _) | .module (.importEquals _) => ";\n"
    | _ => "\n"
  declaration.2 place.goingOn ++ ending

/-- What is exported as the default, if it is a definition. -/
def defaultDefinition (definition : Part) (place : Place) : Writer :=
  let text := definition.2 place.goingOn
  match definition.1.label with
  | .function (.function _ _ traits) => word traits.effectFree effectFreeMark ++ text ++ "\n"
  | .type _ => text
  | _ => text ++ "\n"

/-- The line before an exported function that says that it has no effect. -/
def exportedMark (declaration : Part) : String :=
  match declaration.1.label with
  | .function (.function _ _ traits) => if traits.effectFree then effectFreeMark ++ "\n" else ""
  | _ => ""

/-- The word before what is only of use for types. -/
def typeWord (typeOnly : Bool) : String := word typeOnly "type"

/-- Statements, the first of which is given its own place. -/
def listedAll (statements : List Part) (place : Place) : Writer :=
  match statements with
  | [] => ""
  | s :: rest =>
    listed s place ++ Writer.join (rest.map fun s => listed s { place with guardString := false })

def moduleForm (form : ModuleForm) (span : Span) (parts : List Part) (place : Place) : Writer :=
  let first := part parts 0
  let second := part parts 1
  let third := part parts 2
  let value := place.fresh Level.lowest
  let put := line place span
  match form with
  | .program hashbang _ =>
    String.join (hashbang.toList.map (· ++ "\n")) ++ statementLines first second place ++
      commentsAt place.onLine span.stop
  | .prologue => .join (parts.map fun p => p.2 place)
  | .directive raw => put (directiveText raw ++ ";\n")
  | .statements => listedAll parts place
  | .importDeclaration typeOnly phase =>
    let words := "import " ++ typeWord typeOnly ++ String.join (phase.toList.map (· ++ " "))
    put (words ++ first.around "" " from " value ++ second.2 value ++ third.2 value ++ ";\n")
  | .importClause => importClause parts value
  | .importNamed imported typeOnly =>
    typeWord typeOnly ++ renamed imported ⟨(targetName? first.1).getD "", false⟩
  | .importDefault => first.2 value
  | .importNamespace => "* as " ++ first.2 value
  | .importAttributes keyword =>
    " " ++ keyword ++ " " ++ inBraces parts value
  | .importAttribute key => exportNameText key ++ ": " ++ first.2 value
  | .exportNamed typeOnly =>
    if first.isAbsent then
      put ("export " ++ typeWord typeOnly ++ second.2 value ++ third.around " from " "" value ++
        ";\n")
    else put (exportedMark first ++ "export " ++ exported first place)
  | .exportSpecifiers => inBraces parts value
  | .exportSpecifier localName exportedAs typeOnly =>
    typeWord typeOnly ++ renamed localName exportedAs
  | .exportDefault =>
    if isDefinition first.1 then put ("export default " ++ defaultDefinition first place)
    else
      put ("export default " ++ first.2 { place.fresh Level.comma with opens := .defaultExport } ++
        ";\n")
  | .exportAll name typeOnly =>
    put ("export " ++ typeWord typeOnly ++ "*" ++
      String.join (name.toList.map fun n => " as " ++ exportNameText n) ++ " from " ++
      first.2 value ++ second.2 value ++ ";\n")
  | .importEquals _ =>
    typeLine place span ("import " ++ first.2 value ++ " = " ++ second.2 value) ";\n"
  | .externalModule => "require(" ++ first.2 value ++ ")"
  | .exportAssignment => put ("export = " ++ first.2 value ++ ";\n")
  | .exportAsNamespace name => put ("export as namespace " ++ name ++ ";\n")

end RouteSplit.Layout
