import RouteSplit.Grammar.Module

/-!
# Modules

- `Module`: the tree of a module together with its comments;
- `Module.body`: its top-level statements;
- `Module.parse?`: the module that a text holds.
-/

namespace RouteSplit

/-- A module: its tree, its comments, and the dialect that it is written in. -/
structure Module where
  root : Tree
  comments : List Comment
  dialect : Dialect
deriving DecidableEq, Repr, Inhabited

namespace Module

def statementsOf (root : Tree) : List Tree := (root.child 1).children

def withStatements (root : Tree) (statements : List Tree) : Tree :=
  match root with
  | .node label span [prologue, .node inner innerSpan _] =>
    .node label span [prologue, .node inner innerSpan statements]
  | t => t

def body (m : Module) : List Tree := statementsOf m.root

/-- Whether a shorthand with a default is left over where no target stands. -/
def hasStrayDefault : Tree → Bool :=
  Tree.fold fun label _ parts =>
    label == .expression .shorthandDefault || parts.any (·.2)

/-- The first line of a text, if it names an interpreter, and the cursor behind it. -/
def hashbang (text : List Char) : Option String × Cursor :=
  let start : Cursor := ⟨0, text⟩
  -- A mark of the byte order may stand before.
  let behindMark := text.dropWhile (·.toNat == 0xfeff)
  match behindMark with
  | '#' :: '!' :: rest =>
    let line := rest.takeWhile fun c => !Text.isLineBreak c
    (some (String.ofList ('#' :: '!' :: line)), start.moveTo (rest.drop line.length))
  | _ => (none, start)

/-- The module that a text in `dialect` holds, or nothing if it holds none. -/
def parse? (dialect : Dialect) (source : String) : Option Module :=
  let text := source.toList
  let (line, cursor) := hashbang text
  let first := Token.readNext Token.unit true false cursor
  let state : Grammar.State :=
    { token := first.token, here := first.here, after := first.after, last := cursor.offset,
      comments := first.comments }
  let mode : Grammar.Mode :=
    { dialect, size := text.length, allowAwait := dialect.kind == .module,
      allowReturn := dialect.kind == .functionBody, ambient := dialect.ambient }
  let rules := Grammar.parse (Grammar.depthFor text.length)
  match Grammar.run (Grammar.program rules 0 line) mode state with
  | some (root, final) =>
    if hasStrayDefault root then none else some ⟨root, final.comments.reverse, dialect⟩
  | none => none

end Module

end RouteSplit
