import RouteSplit.Layout.Basic

/-!
# Layout of targets

- `propertyKey`: a key, in brackets if it is computed;
- `arrayParts`: the places of an array pattern with its holes and its rest;
- `pattern`: any target.
-/

namespace RouteSplit.Layout

/-- A key of a property. One that is computed is an expression like any other. -/
def propertyKey (computed : Bool) (key : Part) (place : Place) : Writer :=
  if computed then "[" ++ key.2 { place.fresh Level.comma with inType := false } ++ "]"
  else key.2 (place.fresh Level.comma)

def keyName? (key : Tree) : Option String :=
  match key.label with
  | .expression (.name text) => some text
  | _ => none

def targetName? : Tree → Option String
  | .node (.pattern (.binding name)) _ _ => some name
  | .node (.pattern .withDefault) _ (.node (.pattern (.binding name)) _ _ :: _) => some name
  | _ => none

def isRest (t : Tree) : Bool :=
  match t.label with
  | .pattern .rest | .pattern .targetRest => true
  | _ => false

def isHole (t : Tree) : Bool := t.label == .expression .hole

/-- The places of an array pattern. A comma follows the last one if it is a hole or if a rest
comes behind it; `gap` stands before a rest that is alone. -/
def arrayParts (parts : List Part) (gap : String) (place : Place) : Writer :=
  let rest := parts.filter fun p => isRest p.1
  let elements := parts.filter fun p => !isRest p.1
  let lastIsHole := elements.getLast?.any fun p => isHole p.1
  let comma := if !elements.isEmpty && (lastIsHole || !rest.isEmpty) then "," else ""
  let before := if elements.isEmpty then gap else " "
  "[" ++ commas elements place ++ comma ++ Writer.join (rest.map fun p => before ++ p.2 place) ++
    "]"

/-- A key with what it binds. The key is left out where the target spells it. -/
def keyed (computed : Bool) (key target : Part) (place : Place) : Writer :=
  let short := !computed && (keyName? key.1).isSome && keyName? key.1 == targetName? target.1
  if short then target.2 place else propertyKey computed key place ++ ": " ++ target.2 place

def pattern (form : PatternForm) (parts : List Part) (place : Place) : Writer :=
  let place := place.fresh Level.comma
  match form with
  | .binding name => name
  | .object =>
    if parts.isEmpty then openBrace ++ closeBrace
    else openBrace ++ " " ++ commas parts place ++ " " ++ closeBrace
  | .property computed => keyed computed (part parts 0) (part parts 1) place
  | .array => arrayParts parts " " place
  | .withDefault => (part parts 0).2 place ++ " = " ++ (part parts 1).2 place
  | .rest => "..." ++ (part parts 0).2 place
  | .objectTarget => openBrace ++ commas parts place ++ closeBrace
  | .targetShorthand => (part parts 0).2 place ++ (part parts 1).around " = " "" place
  | .targetProperty computed =>
    propertyKey computed (part parts 0) place ++ ": " ++ (part parts 1).2 place
  | .arrayTarget => arrayParts parts "" place
  | .targetWithDefault => (part parts 0).2 place ++ " = " ++ (part parts 1).2 place
  | .targetRest => "..." ++ (part parts 0).2 place

end RouteSplit.Layout
