import RouteSplit.Layout.Writer
import RouteSplit.Source.Dialect
import RouteSplit.Text.Class
import RouteSplit.Text.Quoted
import RouteSplit.Tree.Basic

/-!
# Laying out text

The text of a node is computed from the texts of its parts, which depend on where they stand.

- `Level`: how tightly a construct binds, from a sequence to a property;
- `Place`: where a node stands;
- `Part`: a part of a node together with its text at every place;
- `commentsAt`, `line`: the comments and the indentation before a statement.
-/

namespace RouteSplit.Layout

/-! ## Levels -/

namespace Level

def lowest : Nat := 0
def comma : Nat := 1
def yield : Nat := 3
def assign : Nat := 4
def conditional : Nat := 5
def coalesce : Nat := 6
def or : Nat := 7
def and : Nat := 8
def bitOr : Nat := 9
def bitXor : Nat := 10
def bitAnd : Nat := 11
def equals : Nat := 12
def compare : Nat := 13
def shift : Nat := 14
def add : Nat := 15
def multiply : Nat := 16
def power : Nat := 17
def unary : Nat := 18
def update : Nat := 19
def new : Nat := 20
def call : Nat := 21
def member : Nat := 22

end Level

/-! ## Places -/

/-- The text that an expression begins, if it begins any. There some expressions would be taken
for something else. -/
inductive Opens where
  | nothing
  | statement
  | arrowBody
  | defaultExport
deriving DecidableEq, Repr, Inhabited

/-- Where a node stands. -/
structure Place where
  /-- One level of indentation. -/
  indent : String
  dialect : Dialect
  depth : Nat := 0
  /-- Expressions that bind no more tightly than this need parentheses. -/
  level : Nat := Level.lowest
  opens : Opens := .nothing
  /-- A statement goes on with what stands before it: no comments, no indentation and no end of
  line belong to it. -/
  bare : Bool := false
  /-- The operator `in` needs parentheses. -/
  noIn : Bool := false
  /-- A call needs parentheses. -/
  noCall : Bool := false
  /-- The node stands directly in parentheses in the source. -/
  inParens : Bool := false
  /-- Numbers belong to a type and are left as they are. -/
  inType : Bool := false
  /-- A string that stands alone here would be taken for a directive. -/
  guardString : Bool := false
  /-- A function is written as a method, without its keyword and its name; a namespace is written
  without its keyword. -/
  asMethod : Bool := false
  /-- The method belongs to an object literal, where its `this` is not declared. -/
  inObject : Bool := false

/-- The text of a node at every place. -/
abbrev Printer := Place → Writer

/-- A part of a node and its text. -/
abbrev Part := Tree × Printer

namespace Place

def deeper (p : Place) : Place := { p with depth := p.depth + 1 }

def indentation (p : Place) : String := String.join (List.replicate p.depth p.indent)

/-- Behind other text of the same expression. -/
def inner (p : Place) (level : Nat) : Place :=
  { p with
    level := level
    opens := .nothing
    inParens := false
    guardString := false
    asMethod := false
    inObject := false }

/-- At the beginning of the same expression. -/
def leftmost (p : Place) (level : Nat) : Place :=
  { p.inner level with opens := p.opens }

/-- Where calls need no parentheses. -/
def withCalls (p : Place) (level : Nat) : Place := { p.inner level with noCall := false }

/-- Inside brackets, or where nothing outside matters. -/
def fresh (p : Place) (level : Nat) : Place := { p.withCalls level with noIn := false }

/-- A statement on a line of its own. Whether `in` needs parentheses in its variables is up to what
stands around it. -/
def onLine (p : Place) : Place :=
  { p.withCalls Level.lowest with bare := false, inType := false }

/-- A statement that goes on with what stands before it. -/
def goingOn (p : Place) : Place := { p.onLine with bare := true }

def type (p : Place) : Place := { p.fresh Level.lowest with inType := true }

end Place

/-! ## Parts -/

def part (parts : List Part) (i : Nat) : Part := parts[i]?.getD (.absent, fun _ => "")

def Part.isAbsent (p : Part) : Bool := p.1.isAbsent

/-- The part's text, with what stands around it if the part is there. -/
def Part.around (p : Part) (before behind : String) (place : Place) : Writer :=
  if p.isAbsent then "" else before ++ p.2 place ++ behind

/-- The parts with commas between them. -/
def commas (parts : List Part) (place : Place) : Writer :=
  .intercalate ", " (parts.map fun p => p.2 place)

/-- The text in parentheses if `needed`; what it begins is then hidden from the outside. -/
def parens (needed : Bool) (place : Place) (text : Place → Writer) : Writer :=
  if needed then "(" ++ text { place with opens := .nothing } ++ ")" else text place

/-- A word and the space behind it, if it is to stand there. -/
def word (present : Bool) (w : String) : String := if present then w ++ " " else ""

def openBrace : String := "\x7b"
def closeBrace : String := "\x7d"

/-! ## Lines -/

/-- The indentation of a line, or the space that stands in for it. -/
def indent (place : Place) : Writer :=
  .choose fun sheet => if sheet.spaced then " " ++ Writer.space false else place.indentation

def braces (place : Place) (isEmpty : Bool) (lines : Place → Writer) : Writer :=
  if isEmpty then openBrace ++ closeBrace
  else openBrace ++ "\n" ++ lines place.deeper ++ indent place ++ closeBrace

/-- Texts on lines of their own, with commas between them, one level deeper than what encloses
them. -/
def listLines (place : Place) (texts : List Writer) : Writer :=
  .intercalate "," (texts.map fun t => "\n" ++ indent place.deeper ++ t)

/-! ## Comments -/

/-- The lines of a text. A carriage return with its line feed ends one line. -/
def splitLines : List Char → List (List Char)
  | [] => [[]]
  | '\r' :: '\n' :: rest => [] :: splitLines rest
  | c :: rest =>
    if Text.isLineBreak c then [] :: splitLines rest
    else
      match splitLines rest with
      | [] => [[c]]
      | l :: ls => (c :: l) :: ls

/-- A line of a comment without the blanks before it. Nothing in it can end a script in a page. -/
def commentLine (l : List Char) : String :=
  String.ofList (Text.guardScript (l.dropWhile Text.isSpace))

/-- A comment, each further line of it at the indentation of the place. A line that itself opens a
comment is not indented. -/
def commentText (place : Place) (c : Comment) : Writer :=
  if c.isLine then String.ofList (Text.guardScript c.raw.toList)
  else
    match splitLines c.raw.toList with
    | [] => ""
    | first :: rest =>
      let further (l : List Char) : Writer :=
        let lead : Writer := if "/*".toList.isPrefixOf l then "" else indent place
        "\n" ++ lead ++ commentLine l
      commentLine first ++ Writer.join (rest.map further)

/-- The line before a comment that stood on a line of its own. It is not begun anew where nothing
or only an indentation by tabs has been written. -/
def beforeComment (place : Place) (c : Comment) : Writer :=
  if c.newlineBefore then
    .choose fun sheet =>
      match sheet.text.back? with
      | none | some '\t' => ""
      | some '\n' => indent place
      | some _ => "\n" ++ indent place
  else indent place

/-- A comment before other text. One that ended its line still does; behind another one the text
goes on after a space. -/
def comment (place : Place) (c : Comment) : Writer :=
  let behind : Writer := if c.isLine || c.newlineAfter then "\n" else Writer.space true
  beforeComment place c ++ commentText place c ++ behind

/-- Takes the comments that belong to the token at `position`, and writes what they ask for. -/
def takingComments (position : Nat) (write : List Comment → Writer) : Writer :=
  ⟨fun sheet =>
    let (here, others) := sheet.comments.partition (·.position == position)
    (write here).run { sheet with comments := others }⟩

def commentsAt (place : Place) (position : Nat) : Writer :=
  takingComments position fun cs => .join (cs.map (comment place))

def line (place : Place) (span : Span) (text : Writer) : Writer :=
  if place.bare then text else commentsAt place span.start ++ indent place ++ text

/-! ## Lists with comments -/

/-- The comments before the token at `position`, each on a line of its own. Behind them, or where
there are none, a new line begins. -/
def commentLinesAt (place : Place) (position : Nat) : Writer :=
  takingComments position fun cs =>
    Writer.join (cs.map fun c => "\n" ++ indent place ++ commentText place c) ++ "\n"

/-- Parts in parentheses, the closing one at `close`. If there are comments among them, each stands
on lines of its own. -/
def argumentList (parts : List Part) (close : Nat) (place : Place) : Writer :=
  .choose fun sheet =>
    let starts := close :: parts.map fun p => p.1.span.start
    let inner := place.deeper
    if sheet.comments.any fun c => starts.contains c.position then
      let item (p : Part) : Writer :=
        commentLinesAt inner p.1.span.start ++ indent inner ++ p.2 inner
      "(" ++ Writer.intercalate "," (parts.map item) ++ commentLinesAt inner close ++
        indent place ++ ")"
    else "(" ++ commas parts place ++ ")"

end RouteSplit.Layout
