import RouteSplit.Grammar.Names

/-!
# Targets

A declaration binds the names in its pattern. An assignment is read as an expression first, and
what stands left of its operator then becomes a target.

- `bindingTarget`, `bindingElement`: patterns that declarations bind;
- `simpleTarget`, `target`: the target that an expression stands for.
-/

namespace RouteSplit.Grammar

/-! ## Patterns of declarations -/

def bindingElement (rules : Rules) : Parser Tree := do
  let start ← position
  let t ← rules .target
  if ← accept "=" then
    let value ← within ({ · with allowIn := true }) (rules .assignment)
    node start (.pattern .withDefault) [t, value]
  else return t

/-- The rest of a pattern: the last thing in it. -/
def bindingRest (rules : Rules) (close : String) : Parser Tree := do
  let start ← position
  expect "..."
  let t ← rules .target
  let rest ← node start (.pattern .rest) [t]
  require (← isPunct close)
  return rest

def bindingProperty (rules : Rules) : Parser Tree := do
  let start ← position
  let short ← isIdentifier
  let name ← kind
  let (key, computed) ← publicKey rules
  if ← accept ":" then
    let value ← bindingElement rules
    node start (.pattern (.property computed)) [key, value]
  else
    require short
    let .word w _ := name | failure
    noteName w
    let bound := Tree.node (.pattern (.binding w)) key.span []
    if ← accept "=" then
      let value ← within ({ · with allowIn := true }) (rules .assignment)
      let withDefault ← node start (.pattern .withDefault) [bound, value]
      node start (.pattern (.property false)) [key, withDefault]
    else node start (.pattern (.property false)) [key, bound]

def isPlainName (t : Tree) : Bool :=
  match t.label with
  | .pattern (.binding _) => true
  | _ => false

/-- A name, or a pattern in braces or brackets. The rest of an object pattern is a name. -/
def bindingTarget (rules : Rules) : Parser Tree := do
  let start ← position
  if ← accept "\x7b" then
    let parts ← commaSeparated "\x7d" do
      if ← isPunct "..." then
        let rest ← bindingRest rules "\x7d"
        require (isPlainName (rest.child 0))
        return rest
      bindingProperty rules
    node start (.pattern .object) parts
  else if ← accept "[" then
    let parts ← many do
      if ← isPunct "]" then return none
      let at? ← position
      if ← accept "," then return some (Tree.node (.expression .hole) ⟨at?, at?⟩ [])
      let part ← if ← isPunct "..." then bindingRest rules "]" else bindingElement rules
      unless ← isPunct "]" do expect ","
      return some part
    expect "]"
    node start (.pattern .array) parts
  else bindingName

/-! ## Targets of assignments -/

def mentionsName : Tree → Bool :=
  Tree.fold fun label _ parts =>
    (match label with
      | .expression (.reference _ _) => true
      | _ => false) || parts.any (·.2)

/-- The target that `t` stands for where only a name or a property may stand. A name is put to
`usage`; but behind a type that names something, which comes first, it is read. -/
def simpleTarget (usage : Usage) : Tree → Option Tree
  | .node (.expression form) span children =>
    match form, children with
    | .reference name _, _ => some (.node (.expression (.reference name usage)) span [])
    | .member _ false, _ | .privateMember _ false, _ | .index false, _ =>
      some (.node (.expression form) span children)
    | .paren, [e] => simpleTarget usage e
    | .nonNull, [e] => (simpleTarget usage e).map fun e => .node (.expression form) span [e]
    | .asType, [e, type] =>
      (simpleTarget usage e).map fun e => .node (.expression form) span [e, type]
    | .satisfiesType, [e, type] =>
      (simpleTarget usage e).map fun e => .node (.expression form) span [e, type]
    | .typeAssertion, [type, e] =>
      (simpleTarget (if mentionsName type then .read else usage) e).map fun e =>
        .node (.expression form) span [type, e]
    | _, _ => none
  | _ => none

mutual

def target : Tree → Option Tree
  | .node (.expression .object) span parts =>
    (targetProperties parts).map (.node (.pattern .objectTarget) span)
  | .node (.expression .array) span parts =>
    (targetElements parts).map (.node (.pattern .arrayTarget) span)
  | t => simpleTarget .write t

def targetElement : Tree → Option Tree
  | .node (.expression (.assign "=")) span [left, value] =>
    some (.node (.pattern .targetWithDefault) span [left, value])
  | .node (.expression .object) span parts =>
    (targetProperties parts).map (.node (.pattern .objectTarget) span)
  | .node (.expression .array) span parts =>
    (targetElements parts).map (.node (.pattern .arrayTarget) span)
  | t => simpleTarget .write t

/-- The parts of an object target. Its rest comes last. -/
def targetProperties : List Tree → Option (List Tree)
  | [] => some []
  | [.node (.expression (.spread false)) span [e]] =>
    (simpleTarget .write e).map fun e => [.node (.pattern .targetRest) span [e]]
  | .node (.expression (.property .plain false true computed)) span [_, value] :: rest =>
    if computed then none
    else
      (simpleTarget .write value).bind fun v =>
        (targetProperties rest).map (.node (.pattern .targetShorthand) span [v, .absent] :: ·)
  | .node (.expression (.property .plain false false computed)) span [key, value] :: rest =>
    (targetElement value).bind fun v =>
      (targetProperties rest).map (.node (.pattern (.targetProperty computed)) span [key, v] :: ·)
  | .node (.expression .shorthandDefault) span [name, value] :: rest =>
    (simpleTarget .write name).bind fun v =>
      (targetProperties rest).map (.node (.pattern .targetShorthand) span [v, value] :: ·)
  | _ => none

/-- The parts of an array target. Its rest comes last. -/
def targetElements : List Tree → Option (List Tree)
  | [] => some []
  | [.node (.expression (.spread false)) span [e]] =>
    (target e).map fun e => [.node (.pattern .targetRest) span [e]]
  | .node (.expression .hole) span [] :: rest =>
    (targetElements rest).map (.node (.expression .hole) span [] :: ·)
  | e :: rest =>
    (targetElement e).bind fun v => (targetElements rest).map (v :: ·)

end

/-- What `r` holds, if it holds anything. -/
def orFail {α : Type} (r : Option α) : Parser α :=
  match r with
  | some a => pure a
  | none => failure

end RouteSplit.Grammar
