import RouteSplit.Layout.Functions

/-!
# Layout of classes

- `memberWords`, `accessorWords`: the modifiers of a member in their fixed order;
- `classes`: classes and their parts.
-/

namespace RouteSplit.Layout

def accessWord (m : Modifiers) : String := String.join (m.access.toList.map (· ++ " "))

/-- The modifiers of a method or a field. That it overrides another is not written. -/
def memberWords (m : Modifiers) : String :=
  word m.declared "declare" ++ accessWord m ++ word m.abstract "abstract" ++
    word m.static "static" ++ word m.readonly "readonly"

def accessorWords (m : Modifiers) : String :=
  word m.abstract "abstract" ++ accessWord m ++ word m.static "static" ++
    word m.override "override" ++ "accessor "

def kindWord : MemberKind → String
  | .plain => ""
  | .getter => "get "
  | .setter => "set "

def optionalMark (m : Modifiers) : String := if m.optional then "?" else ""

/-- The marks of a function before its name, as a method has them. -/
def methodWords (f : Tree) : String :=
  match f.label with
  | .function (.function _ _ traits) =>
    word traits.isAsync "async" ++ (if traits.isGenerator then "*" else "")
  | _ => ""

def classMember (member : Part) (place : Place) : Writer :=
  let ending :=
    match member.1.label with
    | .classes (.method _ _ _) | .classes .staticBlock => "\n"
    | _ => ";\n"
  line place member.1.span (member.2 place ++ ending)

/-- Decorators that need no parentheses: names, properties, and calls of those. -/
def isPlainDecorator : Tree → Bool
  | .node (.expression form) _ parts =>
    match form, parts with
    | .reference _ _, _ | .member _ false, _ | .privateMember _ false, _ => true
    | .call false _, e :: _ => isPlainDecorator e
    | _, _ => false
  | _ => false

def fieldKey (computed : Bool) (m : Modifiers) (key : Part) (place : Place) : Writer :=
  if m.accessor then
    accessorWords m ++ propertyKey computed key place
  else memberWords m ++ propertyKey computed key place ++ optionalMark m

/-- The layout of classes and their parts. A class without a name has no type parameters. -/
def classes (form : ClassForm) (parts : List Part) (place : Place) : Writer :=
  match form with
  | .definition kind declared abstract =>
    let name := part parts 1
    let wrap := kind == .value && (place.opens == .statement || place.opens == .defaultExport)
    parens wrap { place with noCall := false } fun p =>
      let inner := p.withCalls Level.lowest
      let named : Writer :=
        if name.isAbsent then "" else " " ++ name.2 inner ++ (part parts 2).2 inner.type
      decoratorsText (part parts 0) inner ++ word declared "declare" ++ word abstract "abstract" ++
        "class" ++ named ++ (part parts 3).around " extends " "" (inner.fresh Level.update) ++
        (part parts 4).2 inner.type ++ (part parts 5).2 inner ++ " " ++ (part parts 6).2 inner
  | .decorators => .join (parts.map fun p => p.2 place ++ " ")
  | .decorator =>
    let e := part parts 0
    "@" ++ parens (!isPlainDecorator e.1) (place.fresh Level.lowest) e.2
  | .implemented => if parts.isEmpty then "" else " implements " ++ commas parts place.type
  | .body =>
    braces place parts.isEmpty fun p => .join (parts.map fun m => classMember m p.onLine)
  | .method kind computed modifiers =>
    let f := part parts 2
    decoratorsText (part parts 0) place ++ memberWords modifiers ++ kindWord kind ++
      methodWords f.1 ++ propertyKey computed (part parts 1) place ++ optionalMark modifiers ++
      f.2 { place.withCalls Level.lowest with asMethod := true }
  | .field computed modifiers =>
    decoratorsText (part parts 0) place ++ fieldKey computed modifiers (part parts 1) place ++
      (part parts 2).around ": " "" place.type ++
      (part parts 3).around " = " "" (place.fresh Level.comma)
  | .staticBlock =>
    "static " ++ braces place (part parts 0).1.children.isEmpty fun p => (part parts 0).2 p.onLine

end RouteSplit.Layout
