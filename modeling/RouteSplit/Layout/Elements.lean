import RouteSplit.Layout.Basic

/-!
# Layout of elements

- `quoted`: the value of an attribute in the quotes that it does not hold;
- `jsx`: elements and their parts.
-/

namespace RouteSplit.Layout

/-- The value of an attribute as it is written, in double quotes unless it holds one. -/
def quoted (raw : String) : String :=
  let mark := if raw.toList.contains '\x22' then "'" else "\""
  mark ++ raw ++ mark

/-- The layout of elements and their parts. Types that are given to an element are left out. -/
def jsx (form : JsxForm) (span : Span) (parts : List Part) (place : Place) : Writer :=
  let first := part parts 0
  let place := place.fresh Level.lowest
  match form with
  | .element =>
    first.2 place ++ (part parts 1).2 place ++ (part parts 2).around "</" ">" place
  | .fragment => "<>" ++ first.2 place ++ "</>"
  | .opening selfClosing =>
    "<" ++ first.2 place ++ Writer.join ((parts.drop 2).map fun p => " " ++ p.2 place) ++
      (if selfClosing then " />" else ">")
  | .children => .join (parts.map fun p => p.2 place)
  | .name text => text
  | .member property => first.2 place ++ "." ++ property
  | .attr name => name ++ first.around "=" "" place
  | .spreadAttr => openBrace ++ "..." ++ first.2 (place.fresh Level.comma) ++ closeBrace
  | .string raw => quoted raw
  | .text raw => raw
  | .container => openBrace ++ first.2 place ++ closeBrace
  | .nothing => commentsAt place span.stop
  | .spreadChild => openBrace ++ "..." ++ first.2 place ++ closeBrace

end RouteSplit.Layout
