import RouteSplit.Scope.Reads
import RouteSplit.Tree.Wrapper

/-!
# Bindings

- `Binding`: a declaration that may be removed once nothing reads it;
- `PassError`: what can go wrong, and `PassError.message`: what is said then;
- `elementTarget`, `restTarget`, `declaratorTargets`: the target shapes that are understood;
- `assignedFunction?`: an assignment of a function to a name.
-/

namespace RouteSplit

/-- What a binding was declared as. -/
inductive BindingKind where
  | function
  | variable
  | imported
deriving DecidableEq, Repr, Inhabited

/-- A declaration that may be removed once nothing reads it. -/
structure Binding where
  name : String
  kind : BindingKind
  /-- The identifier that names it. -/
  site : Span
  /-- The text whose own reads do not keep the binding alive. -/
  self : Span
  symbol : Symbol
deriving DecidableEq, Repr, Inhabited

/-- A binding that was removed. -/
structure Removed where
  name : String
  kind : BindingKind
deriving DecidableEq, Repr, Inhabited

/-- What can go wrong. -/
inductive PassError where
  /-- A target of a shape that is not understood. -/
  | unsupportedPattern (shape : String) (span : Span)
  /-- Two parts of the library disagree. -/
  | inconsistency (detail : String)
  /-- The text could not be read. -/
  | hostFailure (message : String)
  /-- More passes were needed than allowed. -/
  | passLimitExceeded (limit : Nat)
deriving DecidableEq, Repr, Inhabited

def PassError.message : PassError → String
  | .unsupportedPattern shape span =>
    "unsupported " ++ shape ++ " at " ++ toString span.start ++ ".." ++ toString span.stop
  | .inconsistency detail => "structural inconsistency: " ++ detail
  | .hostFailure message => "host primitive failure: " ++ message
  | .passLimitExceeded limit =>
    "dead-code sweep did not converge within " ++ toString limit ++ " passes"

namespace Binding

/-! ## Targets -/

/-- The name that a target is, if it is nothing but a name, and its place. -/
def nameOf : Tree → Option (String × Span)
  | .node (.pattern (.binding name)) span _ => some (name, span)
  | _ => none

/-- The name that an element of a pattern binds directly, with or without a default. -/
def elementTarget : Tree → Except PassError (String × Span)
  | .node (.pattern (.binding name)) span _ => .ok (name, span)
  | .node (.pattern .withDefault) span (t :: _) =>
    match nameOf t with
    | some target => .ok target
    | none => .error (.unsupportedPattern "nested destructuring with default" span)
  | .node (.pattern .object) span _ =>
    .error (.unsupportedPattern "nested object destructuring" span)
  | t => .error (.unsupportedPattern "nested array destructuring" t.span)

def restTarget (t : Tree) : Except PassError (String × Span) :=
  match nameOf (t.child 0) with
  | some target => .ok target
  | none => .error (.unsupportedPattern "rest element target" t.span)

def isRest (t : Tree) : Bool := t.label == .pattern .rest

def isHole (t : Tree) : Bool := t.label == .expression .hole

def objectPartTarget (t : Tree) : Except PassError (String × Span) :=
  if isRest t then restTarget t else elementTarget (t.child 1)

def arrayPartTarget (t : Tree) : Except PassError (String × Span) :=
  if isRest t then restTarget t else elementTarget t

def declaratorTargets : Tree → Except PassError (List (String × Span))
  | .node (.pattern (.binding name)) span _ => .ok [(name, span)]
  | .node (.pattern .object) _ parts => parts.mapM objectPartTarget
  | .node (.pattern .array) _ parts => (parts.filter fun t => !isHole t).mapM arrayPartTarget
  | t => .error (.unsupportedPattern "declarator target" t.span)

/-- The name to which a statement's expression assigns a function, with its place and that of the
assignment. -/
def assignedFunction? : Tree → Option (String × Span × Span)
  | .node (.expression (.assign "=")) span
      [.node (.expression (.reference name _)) site _, value] =>
    if value.isFunctionLike then some (name, site, span) else none
  | _ => none

end Binding

end RouteSplit
