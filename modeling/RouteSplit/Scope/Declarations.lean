import RouteSplit.Scope.Table
import RouteSplit.Tree.Pattern

/-!
# Names that constructs declare

A `var` belongs to the function around it, everything else to the construct it stands in.

- `opened`: the scopes that a node opens around each of its parts;
- `introduced`: the names that a node declares in the scopes that it opens;
- `Around`, `placed`: what a node stands in, and the names that it declares there;
- `declarations`, `tableOf`: those of a whole tree, and the table that they make.
-/

namespace RouteSplit.Scope

/-! ## Names and their meanings -/

/-- A name at its place, with what it can be used as. -/
structure Entry where
  name : String
  site : Span
  meaning : Meaning
deriving DecidableEq, Repr, Inhabited

def entriesOf (meaning : Meaning) (target : Tree) : List Entry :=
  target.boundNames.map fun (name, site) => ⟨name, site, meaning⟩

def variableEntries (declarators : List Tree) : List Entry :=
  declarators.flatMap fun d => entriesOf .ofValue (d.child 0)

def importEntries (typeOnly : Bool) (clause : Tree) : List Entry :=
  clause.children.flatMap fun s =>
    let meaning : Meaning :=
      match s.label with
      | .module (.importNamed _ true) => .ofTypeImport
      | _ => if typeOnly then .ofTypeImport else .ofAnything
    entriesOf meaning (s.child 0)

def typeParameterEntries (generics : Tree) : List Entry :=
  generics.children.flatMap fun p => entriesOf .ofType (p.child 0)

def parameterEntries (parameters : Tree) : List Entry :=
  parameters.children.flatMap fun p => entriesOf .ofValue (p.child 1)

/-- The characters of a literal. Half of a surrogate pair has none. -/
def literalText (units : List TextUnit) : String :=
  String.ofList (units.filterMap fun u => match u with
    | .char c => some c
    | .surrogate _ => none)

def memberName? (key : Tree) : Option String :=
  match key.label with
  | .expression (.name text) => some text
  | .expression (.string units) => some (literalText units)
  | .expression (.template [text]) => some text
  | _ => none

def enumEntries (members : List Tree) : List Entry :=
  members.flatMap fun m =>
    ((memberName? (m.child 0)).map fun text => Entry.mk text (m.child 0).span .ofClass).toList

/-! ## Namespaces with a value -/

mutual

/-- Whether a statement of a namespace gives the namespace a value: interfaces, type aliases and
imports do not. -/
def givesValue : Tree → Bool
  | .node (.type (.interface _)) _ _ => false
  | .node (.type (.alias _)) _ _ => false
  | .node (.module (.importDeclaration _ _)) _ _ => false
  | .node (.module (.importEquals _)) _ _ => false
  | .node (.module (.exportNamed _)) _ (.node (.type (.interface _)) _ _ :: _) => false
  | .node (.module (.exportNamed _)) _ (.node (.type (.alias _)) _ _ :: _) => false
  | .node (.module (.exportNamed _)) _
      (.node (.type (.namespaceBlock _ _)) _ [_, body] :: _) => hasValue body
  | .node (.type (.namespaceBlock _ _)) _ [_, body] => hasValue body
  | _ => true

/-- Whether a namespace with this body has a value. One without a body does. -/
def hasValue : Tree → Bool
  | .node (.type .moduleBlock) _ [_, .node _ _ statements] => anyGivesValue statements
  | .node (.type (.namespaceBlock _ _)) _ [_, body] => hasValue body
  | _ => true

def anyGivesValue : List Tree → Bool
  | [] => false
  | t :: ts => givesValue t || anyGivesValue ts

end

/-! ## Scopes around the parts of a node -/

/-- Whether a parameter is one that a caller gives a value to. -/
def isGiven (p : Tree) : Bool := p.label != .function .thisParameter

/-- Whether the head of a function is looked at before its body: it has parameters or a result
type. -/
def headComesFirst (parameters result : Tree) : Bool :=
  parameters.children.any isGiven || !result.isAbsent

/-- The scope of a function around its head. -/
def headScope (span : Span) (parameters result : Tree) : ScopeId :=
  if headComesFirst parameters result then ⟨.head, span⟩ else ⟨.function, span⟩

/-- The scopes that a node opens around its part at place `i`, innermost first. -/
def opened (label : Label) (span : Span) (parts : List Tree) (i : Nat) : List ScopeId :=
  match label, parts with
  | .module (.program _ _), _ => [⟨.module, span⟩]
  | .function (.function form _ _), [_, _, parameters, result, _] =>
    if i == 0 then []
    else
      (if i == 4 then ⟨.function, span⟩ else headScope span parameters result) ::
        (if form == .value then [⟨.ownName, span⟩] else [])
  | .function (.arrow _), [_, parameters, result, _] =>
    [if i == 3 then ⟨.function, span⟩ else headScope span parameters result]
  | .statement .block, _ => [⟨.block, span⟩]
  | .statement .forLoop, _ | .statement .forIn, _ | .statement (.forOf _), _ => [⟨.loop, span⟩]
  | .statement .switch, _ => if i == 0 then [] else [⟨.switch, span⟩]
  | .statement .catchClause, _ => [⟨.handler, span⟩]
  -- Decorators and the name itself are outside.
  | .classes (.definition _ _ _), _ => if i < 2 then [] else [⟨.classBody, span⟩]
  | .classes .staticBlock, _ => [⟨.staticBlock, span⟩]
  | .type (.namespaceBlock _ _), _ => if i == 0 then [] else [⟨.namespaceBlock, span⟩]
  | .type (.globalScope _), _ => [⟨.namespaceBlock, span⟩]
  | .type (.enum _ _), _ => if i == 0 then [] else [⟨.enumBody, span⟩]
  | .type (.interface _), _ | .type (.alias _), _ | .type (.mapped _ _), _ => [⟨.typeBody, span⟩]
  | .type .function, _ | .type (.constructor _), _ | .type .callSignature, _
  | .type .constructSignature, _ | .type (.method _ _ _), _ => [⟨.signature, span⟩]
  -- What the bound infers is known in the bound and where it is met.
  | .type .conditional, _ => if i == 1 || i == 2 then [⟨.conditional, span⟩] else []
  | _, _ => []

/-! ## Declarations of a node -/

def Entry.inScope (scope : ScopeId) (e : Entry) : Declaration :=
  ⟨e.name, e.site, e.meaning, [], scope⟩

/-- The declarations of a function's type parameters and parameters, as its head and as its body
see them, and that of its own name. -/
def functionNames (span : Span) (own : List Entry) (generics parameters : Tree) :
    List Declaration :=
  -- Head and body are two scopes, and what the head declares is known in both.
  let entries := typeParameterEntries generics ++ parameterEntries parameters
  own.map (·.inScope ⟨.ownName, span⟩) ++ entries.map (·.inScope ⟨.head, span⟩) ++
    entries.map (·.inScope ⟨.function, span⟩)

/-- The name of a definition that is a value is known inside it only. -/
def ownName (form : DefinitionForm) (meaning : Meaning) (name : Tree) : List Entry :=
  if form == .value then entriesOf meaning name else []

def signatureNames (span : Span) (generics parameters : Tree) : List Declaration :=
  (typeParameterEntries generics ++ parameterEntries parameters).map
    (·.inScope ⟨.signature, span⟩)

/-- The declarations that a node makes in the scopes that it opens itself. -/
def introduced (label : Label) (span : Span) (parts : List Tree) : List Declaration :=
  match label, parts with
  | .function (.function form _ _), name :: generics :: parameters :: _ =>
    functionNames span (ownName form .ofValue name) generics parameters
  | .function (.arrow _), generics :: parameters :: _ => functionNames span [] generics parameters
  | .statement .catchClause, parameter :: _ =>
    (entriesOf .ofValue (parameter.child 0)).map (·.inScope ⟨.handler, span⟩)
  | .classes (.definition form _ _), _ :: name :: generics :: _ =>
    (ownName form .ofClass name ++ typeParameterEntries generics).map
      (·.inScope ⟨.classBody, span⟩)
  | .type (.enum _ _), _ :: members => (enumEntries members).map (·.inScope ⟨.enumBody, span⟩)
  | .type (.interface _), _ :: generics :: _ | .type (.alias _), _ :: generics :: _ =>
    (typeParameterEntries generics).map (·.inScope ⟨.typeBody, span⟩)
  | .type (.mapped _ _), name :: _ => (entriesOf .ofType name).map (·.inScope ⟨.typeBody, span⟩)
  | .type .function, generics :: parameters :: _
  | .type (.constructor _), generics :: parameters :: _
  | .type .callSignature, generics :: parameters :: _
  | .type .constructSignature, generics :: parameters :: _
  | .type (.method _ _ _), _ :: generics :: parameters :: _ =>
    signatureNames span generics parameters
  | _, _ => []

def lexicalEntries (label : Label) (parts : List Tree) : List Entry :=
  match label, parts with
  | .statement (.variableList kind _), declarators =>
    if kind == .varVariable then [] else variableEntries declarators
  | .function (.function .declaration _ _), name :: _ => entriesOf .ofValue name
  | .classes (.definition .declaration _ _), _ :: name :: _ => entriesOf .ofClass name
  | .module (.importDeclaration typeOnly _), clause :: _ => importEntries typeOnly clause
  | .module (.importEquals typeOnly), name :: _ =>
    entriesOf (if typeOnly then .ofTypeImport else .ofAnything) name
  | .type (.interface _), name :: _ | .type (.alias _), name :: _ => entriesOf .ofType name
  | .type (.enum _ _), name :: _ => entriesOf .ofAnything name
  | .type (.namespaceBlock _ _), [name, body] => entriesOf (.ofNamespace (hasValue body)) name
  | _, _ => []

/-- The declaration of a `var`: it passes through the scopes that hold none. -/
def outward (env : Env) (e : Entry) : List Declaration :=
  ((env.find? (·.kind.holdsVars)).map fun scope =>
    Declaration.mk e.name e.site e.meaning (env.takeWhile fun s => !s.kind.holdsVars) scope).toList

/-- The declaration of an inferred type: it is known in the conditional type around it. -/
def inferred (env : Env) (e : Entry) : List Declaration :=
  (((env.find? (·.kind == .conditional)).or env.head?).map fun scope => e.inScope scope).toList

/-- What a node stands in. -/
structure Around where
  env : Env := []
  /-- Its statement lists are searched for bindings. -/
  searched : Bool := true
  /-- The code is strict. -/
  strict : Bool := false
  /-- The node is a branch of an `if`. -/
  isBranch : Bool := false
deriving DecidableEq, Repr, Inhabited

def isFunctionDeclaration : Label → Bool
  | .function (.function .declaration _ _) => true
  | _ => false

/-- The declarations that a node makes around itself. Outside strict code a function that is a
branch of an `if` is known nowhere. -/
def placed (around : Around) (label : Label) (span : Span) (parts : List Tree) :
    List Declaration :=
  match label, parts with
  | .statement (.variableList .varVariable _), declarators =>
    (variableEntries declarators).flatMap (outward around.env)
  | .type .infer, [p] => (entriesOf .ofType (p.child 0)).flatMap (inferred around.env)
  | _, _ =>
    let scope? :=
      if around.isBranch && !around.strict && isFunctionDeclaration label then
        some ⟨.ownName, span⟩
      else around.env.head?
    (lexicalEntries label parts).flatMap fun e => (scope?.map fun scope => e.inScope scope).toList

/-! ## Strict code -/

def asksStrict (body : Tree) : Bool :=
  (body.child 0).children.any (·.label == .module (.directive "use strict"))

/-- Whether a node makes the code in it strict: modules and classes do, and bodies that ask
for it. -/
def makesStrict (label : Label) (span : Span) (parts : List Tree) : Bool :=
  match label, parts with
  | .module (.program _ isModule), _ => isModule || asksStrict (.node label span parts)
  | .function (.function _ _ _), [_, _, _, _, body] => asksStrict body
  | .function (.arrow _), [_, _, _, body] => asksStrict body
  | .type .moduleBlock, _ => asksStrict (.node label span parts)
  | .classes (.definition _ _ _), _ => true
  | _, _ => false

/-! ## Searched parts -/

/-- Whether a part of a node is searched for bindings. Of an arrow function that has an expression for
its body only the parameters and the body are, not the types around them. -/
def searches : (whole part : Label) → Bool
  | .function (.arrow traits), part =>
    !traits.isExpression || part == .function .parameters || part == .function .expressionBody
  | _, _ => true

/-- Of anything but an arrow function every part is searched. -/
@[simp] theorem searches_of_ne {whole : Label} (h : ∀ traits, whole ≠ .function (.arrow traits))
    (part : Label) : searches whole part = true := by
  rw [searches]
  exact h

/-- What the part at place `i` of a node stands in. -/
def Around.inside (around : Around) (label : Label) (span : Span) (parts : List Tree) (i : Nat) :
    Around where
  env := opened label span parts i ++ around.env
  searched := around.searched && parts[i]?.all fun part => searches label part.label
  strict := around.strict || makesStrict label span parts
  isBranch := label == .statement .ifElse

/-! ## Declarations of a tree -/

mutual

def declarations (around : Around) : Tree → List Declaration
  | .node label span parts =>
    placed around label span parts ++ introduced label span parts ++
      declarationsAll (around.inside label span parts) 0 parts

/-- The declarations in the parts of a node, the one at place `i` in what `around i` says. -/
def declarationsAll (around : Nat → Around) (i : Nat) : List Tree → List Declaration
  | [] => []
  | t :: ts => declarations (around i) t ++ declarationsAll around (i + 1) ts

end

def tableOf (root : Tree) : Table := .ofDeclarations (declarations {} root)

end RouteSplit.Scope
