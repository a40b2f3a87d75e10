import RouteSplit.Tree.Label

/-!
# Tokens

- `TokenKind`, `Token`: a lexical unit and where it stands;
- `Promise`: what comments say about the effects of a call;
- `Comment`: a comment that belongs to the token behind it;
- `Cursor`: the input from some position on.
-/

namespace RouteSplit

/-- The lexical units. A word is an identifier or a keyword; which one the grammar decides. -/
inductive TokenKind where
  | endOfInput
  | word (text : String) (escaped : Bool)
  | privateWord (text : String)
  | punct (text : String)
  | number (raw : String)
  | bigint (raw : String)
  | string (value : List TextUnit) (raw : String)
  /-- A piece of a template literal: up to the next substitution, or up to its end. -/
  | template (raw : String) (last : Bool)
  | regex (raw : String)
  | jsxText (raw : String)
  | jsxString (raw : String)
  /-- Text that is no token. -/
  | invalid
deriving DecidableEq, Repr, Inhabited

/-- What comments promise of the expression behind them. -/
structure Promise where
  /-- The call has no effect. -/
  pure : Bool := false
  /-- No call of the function has an effect. -/
  effectFree : Bool := false
deriving DecidableEq, Repr, Inhabited

structure Token where
  kind : TokenKind
  span : Span
  /-- A line ends between the token before and this one. -/
  newlineBefore : Bool
  /-- What the comments directly before the token promise. -/
  promise : Promise := {}
deriving DecidableEq, Repr, Inhabited

/-- A comment that precedes a token and is not the rest of the line of the token before. -/
structure Comment where
  /-- The comment with its delimiters. -/
  raw : String
  isLine : Bool
  /-- Where the token behind the comment starts. -/
  position : Nat
  newlineBefore : Bool
  newlineAfter : Bool
deriving DecidableEq, Repr, Inhabited

namespace Promise

def isBlank (c : Char) : Bool :=
  c == ' ' || c == '\t' || c == '\n' || c == '\r' || c == '\x0c'

def ofText (text : List Char) : Promise :=
  match text.dropWhile isBlank with
  | c :: rest =>
    if c == '@' || c == '#' then
      { pure := "__PURE__".toList.isPrefixOf rest
        effectFree := "__NO_SIDE_EFFECTS__".toList.isPrefixOf rest }
    else {}
  | [] => {}

def isSome (p : Promise) : Bool := p.pure || p.effectFree

def join (p q : Promise) : Promise := ⟨p.pure || q.pure, p.effectFree || q.effectFree⟩

end Promise

/-- What a comment promises. -/
def Comment.promise (c : Comment) : Promise := .ofText (c.raw.toList.drop 2)

/-- The input from a position on. -/
structure Cursor where
  offset : Nat
  rest : List Char
deriving DecidableEq, Repr, Inhabited

namespace Cursor

/-- The text from `c` up to where `rest`, one of its tails, begins. -/
def textTo (c : Cursor) (rest : List Char) : List Char :=
  c.rest.take (c.rest.length - rest.length)

/-- The cursor at `rest`, one of the tails of the input of `c`. -/
def moveTo (c : Cursor) (rest : List Char) : Cursor :=
  ⟨c.offset + byteLength (c.textTo rest), rest⟩

end Cursor

end RouteSplit
