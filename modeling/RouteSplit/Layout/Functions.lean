import RouteSplit.Layout.Patterns

/-!
# Layout of functions

- `statementLines`: the lines of a body, directives first;
- `signature`: type parameters, parameters and result type;
- `function`: functions and their parts.
-/

namespace RouteSplit.Layout

def isStringIn : Tree → Bool
  | .node (.expression (.string _)) _ _ => true
  | .node (.expression .paren) _ [e] => isStringIn e
  | _ => false

/-- The lines of a body: its directives and its statements. Without directives, a string that
stands first must not be taken for one. -/
def statementLines (prologue statements : Part) (place : Place) : Writer :=
  let guarded := prologue.1.children.isEmpty
  prologue.2 place.onLine ++ statements.2 { place.onLine with guardString := guarded }

def decoratorsText (decorators : Part) (place : Place) : Writer :=
  decorators.2 (place.fresh Level.lowest)

def parameterWords (m : Modifiers) : String :=
  String.join (m.access.toList.map (· ++ " ")) ++ word m.override "override" ++
    word m.readonly "readonly"

def signature (generics parameters result : Part) (place : Place) : Writer :=
  generics.2 place.type ++ parameters.2 place ++ result.around ": " "" place.type

/-- A body in braces. Comments before the closing brace are kept. -/
def functionBody (span : Span) (prologue statements : Part) (place : Place) : Writer :=
  let place := place.onLine
  let isEmpty := prologue.1.children.isEmpty && statements.1.children.isEmpty
  takingComments (span.stop - 1) fun cs =>
    let apart := cs.any fun c => c.newlineBefore || c.newlineAfter
    let closing (p : Place) : Writer :=
      if cs.isEmpty then "" else Writer.join (cs.map (comment p)) ++ Writer.space false
    if isEmpty && !apart then openBrace ++ closing place ++ closeBrace
    else braces place false fun p => statementLines prologue statements p ++ closing p

/-- What is written of the promise that calls of a function have no effect. -/
def effectFreeMark : String := "/* @__NO_SIDE_EFFECTS__ */"

def valueMark (kind : DefinitionForm) (traits : FunctionTraits) : String :=
  word (kind == .value && traits.effectFree) effectFreeMark

/-- The parameters of a method. One of an object literal has no `this` among them. -/
def parameterList (parts : List Part) (place : Place) : Writer :=
  let shown := parts.filter fun p => !(place.inObject && p.1.label == .function .thisParameter)
  "(" ++ commas shown (place.withCalls Level.lowest) ++ ")"

def function (form : FunctionForm) (span : Span) (parts : List Part) (place : Place) : Writer :=
  match form with
  | .function kind declared traits =>
    let name := part parts 0
    let body := part parts 4
    let inner := place.withCalls Level.lowest
    let mark := valueMark kind traits
    let opens := (place.opens == .statement || place.opens == .defaultExport) && mark.isEmpty
    let wrap := kind == .value && (opens || place.inParens)
    let ending : Writer := if body.isAbsent then ";" else " " ++ body.2 inner
    let behindName :=
      signature (part parts 1) (part parts 2) (part parts 3)
        { inner with inObject := place.inObject } ++ ending
    if place.asMethod then behindName
    else
      let gap := if traits.isGenerator then "* " else if name.isAbsent then "" else " "
      mark ++ parens wrap inner fun _ =>
        word declared "declare" ++ word traits.isAsync "async" ++ "function" ++ gap ++
          name.2 inner ++ behindName
  | .arrow traits =>
    valueMark .value traits ++
      parens (place.level ≥ Level.assign || place.inParens) place fun p =>
        word traits.isAsync "async" ++
          signature (part parts 0) (part parts 1) (part parts 2) (p.withCalls Level.lowest) ++
          " => " ++ (part parts 3).2 { p.inner Level.comma with opens := .arrowBody }
  | .parameters => parameterList parts place
  | .parameter modifiers =>
    decoratorsText (part parts 0) place ++ parameterWords modifiers ++
      (part parts 1).2 { place.fresh Level.comma with inType := false } ++
      (if modifiers.optional then "?" else "") ++
      (part parts 2).around ": " "" place.type ++
      (part parts 3).around " = " "" { place.withCalls Level.comma with inType := false }
  | .restParameter =>
    decoratorsText (part parts 0) place ++ (part parts 1).2 (place.fresh Level.comma) ++
      (part parts 2).around ": " "" place.type
  | .thisParameter => "this" ++ (part parts 0).around ": " "" place.type
  | .body => functionBody span (part parts 0) (part parts 1) place
  | .expressionBody => (part parts 0).2 place

end RouteSplit.Layout
