import RouteSplit.Token.Basic

/-!
# Writers

Text is written from left to right. Three things are carried along: what has been written, the
comments that still wait for their place, and whether the next line goes on behind a space.

- `Sheet`: the text so far;
- `Writer`: something that is written behind it;
- `Writer.join`, `Writer.intercalate`: several of them in a row.
-/

namespace RouteSplit.Layout

/-- The text so far, and what it depends on how it goes on. -/
structure Sheet where
  text : String
  /-- The comments that have not been written yet. -/
  comments : List Comment
  /-- The next indentation is a single space: the text goes on behind a head or a comment. -/
  spaced : Bool
deriving DecidableEq, Repr, Inhabited

/-- Something that is written behind other text. -/
structure Writer where
  run : Sheet → Sheet

namespace Writer

def text (s : String) : Writer :=
  ⟨fun ⟨before, comments, spaced⟩ => ⟨before ++ s, comments, spaced⟩⟩

instance : Coe String Writer := ⟨text⟩

instance : Append Writer := ⟨fun a b => ⟨fun sheet => b.run (a.run sheet)⟩⟩

def empty : Writer := ⟨id⟩

instance : Inhabited Writer := ⟨empty⟩

def join : List Writer → Writer
  | [] => empty
  | w :: ws => w ++ join ws

def intercalate (separator : String) : List Writer → Writer
  | [] => empty
  | [w] => w
  | w :: ws => w ++ separator ++ intercalate separator ws

/-- The writer that the sheet asks for. -/
def choose (f : Sheet → Writer) : Writer := ⟨fun sheet => (f sheet).run sheet⟩

/-- From here on the next indentation is a single space, or is not. -/
def space (spaced : Bool) : Writer := ⟨fun ⟨text, comments, _⟩ => ⟨text, comments, spaced⟩⟩

/-- The text that is written on an empty sheet with the given comments. -/
def render (w : Writer) (comments : List Comment) : String := (w.run ⟨"", comments, false⟩).text

end Writer

end RouteSplit.Layout
