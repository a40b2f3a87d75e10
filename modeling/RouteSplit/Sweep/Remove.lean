import RouteSplit.Binding.Collect

/-!
# Removing bindings

A removal works on statement lists, inner lists first. What a declaration loses is decided by the
places of its names alone.

- `keepTarget`, `keepDeclarator`, `keepStatement`: what is left of a construct, if anything;
- `removeIn`: a tree without some of its bindings, and the record of what went.
-/

namespace RouteSplit.Sweep

/-- The record for the binding at `site`, if it is one of `dead`. -/
def taken (dead : List Binding) (site : Span) : List Removed :=
  ((dead.find? (·.site == site)).map fun b => Removed.mk b.name b.kind).toList

def isDead (dead : List Binding) (site : Span) : Bool := dead.any (·.site == site)

/-- What is left of a construct, if anything, and the record of what it lost. -/
abbrev Left (α : Type) := Option α × List Removed

/-! ## Targets -/

/-- The place of the name that a part binds. A part that binds no name directly has none. -/
def siteOf (t : Except PassError (String × Span)) : Option Span :=
  match t with
  | .ok (_, site) => some site
  | .error _ => none

/-- Whether a part with this name goes. -/
def goes (dead : List Binding) (site : Option Span) : Bool := site.any (isDead dead)

/-- The record of the part with this name. -/
def record (dead : List Binding) (site : Option Span) : List Removed :=
  site.toList.flatMap (taken dead)

def keepObjectParts (dead : List Binding) (parts : List Tree) : List Tree :=
  parts.filter fun t => !goes dead (siteOf (Binding.objectPartTarget t))

/-- A hole where `t` stood. -/
def holeAt (t : Tree) : Tree := .node (.expression .hole) ⟨t.span.start, t.span.start⟩ []

/-- The places of an array pattern. A name that goes leaves a hole, so that those behind it keep
their places; a rest that goes leaves nothing. -/
def keepArrayParts (dead : List Binding) (parts : List Tree) : List Tree :=
  parts.filterMap fun t =>
    if Binding.isHole t then some t
    else if goes dead (siteOf (Binding.arrayPartTarget t)) then
      if Binding.isRest t then none else some (holeAt t)
    else some t

def trimHoles (parts : List Tree) : List Tree :=
  (parts.reverse.dropWhile Binding.isHole).reverse

def objectRecord (dead : List Binding) (parts : List Tree) : List Removed :=
  parts.flatMap fun t => record dead (siteOf (Binding.objectPartTarget t))

def arrayRecord (dead : List Binding) (parts : List Tree) : List Removed :=
  (parts.filter fun t => !Binding.isHole t).flatMap fun t =>
    record dead (siteOf (Binding.arrayPartTarget t))

/-- What is left of a declarator's target. A pattern goes when it loses its last name; one that
had none to lose stays. -/
def keepTarget (dead : List Binding) : Tree → Left Tree
  | .node (.pattern (.binding name)) span parts =>
    if isDead dead span then (none, taken dead span)
    else (some (.node (.pattern (.binding name)) span parts), [])
  | .node (.pattern .object) span parts =>
    let lost := objectRecord dead parts
    let kept := keepObjectParts dead parts
    (if kept.isEmpty && !lost.isEmpty then none else some (.node (.pattern .object) span kept),
      lost)
  | .node (.pattern .array) span parts =>
    let lost := arrayRecord dead parts
    -- Nothing goes, so the holes at the end that were written stay, too.
    if lost.isEmpty then (some (.node (.pattern .array) span parts), [])
    else
      let kept := trimHoles (keepArrayParts dead parts)
      (if kept.isEmpty then none else some (.node (.pattern .array) span kept), lost)
  | t => (some t, [])

/-! ## Statements -/

def keepUnless (dead : List Binding) (target : Option (String × Span)) (t : Tree) : Left Tree :=
  let site := target.map (·.2)
  if goes dead site then (none, record dead site) else (some t, [])

def keepDeclarator (dead : List Binding) : Tree → Left Tree
  | .node label span (target :: rest) =>
    let (kept, lost) := keepTarget dead target
    (kept.map fun t => .node label span (t :: rest), lost)
  | t => (some t, [])

/-- The items that stay, as they are left, and the record of all. -/
def keepAll (keep : Tree → Left Tree) (items : List Tree) : List Tree × List Removed :=
  (items.filterMap fun t => (keep t).1, items.flatMap fun t => (keep t).2)

def keepSpecifier (dead : List Binding) (s : Tree) : Left Tree :=
  keepUnless dead (Binding.nameOf (s.child 0)) s

/-- What is left of a construct whose items go one by one. It goes with its last item; one that
had none to lose stays. -/
def keepItems (keep : Tree → Left Tree) (items : List Tree) (rebuild : List Tree → Tree) :
    Left Tree :=
  let (kept, lost) := keepAll keep items
  (if kept.isEmpty && !lost.isEmpty then none else some (rebuild kept), lost)

def keepStatement (dead : List Binding) : Tree → Left Tree
  | .node (.function (.function .declaration false traits)) span
      [name, generics, parameters, result, body] =>
    let target := if body.isAbsent then none else Binding.nameOf name
    keepUnless dead target
      (.node (.function (.function .declaration false traits)) span
        [name, generics, parameters, result, body])
  | .node (.statement (.variableList kind declared)) span declarators =>
    keepItems (keepDeclarator dead) declarators
      (.node (.statement (.variableList kind declared)) span)
  | .node (.statement .expression) span [e] =>
    let target := (Binding.assignedFunction? e).map fun (name, site, _) => (name, site)
    keepUnless dead target (.node (.statement .expression) span [e])
  | .node (.module (.importDeclaration typeOnly phase)) span
      (.node (.module .importClause) clauseSpan specifiers :: rest) =>
    keepItems (keepSpecifier dead) specifiers fun kept =>
      .node (.module (.importDeclaration typeOnly phase)) span
        (.node (.module .importClause) clauseSpan kept :: rest)
  | t => (some t, [])

/-! ## Trees -/

mutual

/-- A tree without the bindings `dead`, and the record of those that went. -/
def removeIn (dead : List Binding) : Tree → Tree × List Removed
  | .node label span parts =>
    let (inner, lost) := removeAll dead (Scope.searches label) parts
    if label == .module .statements then
      let (kept, lost') := keepAll (keepStatement dead) inner
      (.node label span kept, lost ++ lost')
    else (.node label span inner, lost)

/-- The parts of a node without the bindings `dead`. Those that are not searched stay as they are. -/
def removeAll (dead : List Binding) (searched : Label → Bool) :
    List Tree → List Tree × List Removed
  | [] => ([], [])
  | t :: ts =>
    let (t', lost) := if searched t.label then removeIn dead t else (t, [])
    let (ts', lost') := removeAll dead searched ts
    (t' :: ts', lost ++ lost')

end

end RouteSplit.Sweep
