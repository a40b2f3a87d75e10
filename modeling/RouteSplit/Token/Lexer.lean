import RouteSplit.Token.Basic
import RouteSplit.Token.Escape

/-!
# Reading tokens

Each reader takes the text from a position on and gives back what it read together with the text
behind it. Slashes, braces and angle brackets mean different things in different places, so the
grammar asks for regular expressions, template pieces and JSX text by itself.

- `word`, `number`, `string`, `template`, `regex`: the units of the plain language;
- `jsxText`, `jsxString`, `jsxNameRest`: those of elements;
- `Trivia.skip`: blanks and comments;
- `unit`, `readNext`: the next unit of the plain language, and the next token behind a cursor.
-/

namespace RouteSplit.Token

/-! ## Words -/

/-- The characters of an identifier, the first of which must satisfy `first`, with its escapes
resolved, and whether there were any. -/
def nameChars (first : Char → Bool) : Nat → List Char → Option (List Char × Bool × List Char)
  | 0, rest => some ([], false, rest)
  -- That the name is spelled with an escape is told, since then it is no keyword.
  | n + 1, '\\' :: 'u' :: rest =>
    match codePoint rest with
    | some (code, rest') =>
      if first (Char.ofNat code) then
        (nameChars Text.isNamePart n rest').map fun r => (Char.ofNat code :: r.1, true, r.2.2)
      else none
    | none => none
  | n + 1, c :: rest =>
    if first c then (nameChars Text.isNamePart n rest).map fun r => (c :: r.1, r.2.1, r.2.2)
    else some ([], false, c :: rest)
  | _ + 1, [] => some ([], false, [])

/-- An identifier or a keyword. -/
def word (text : List Char) : Option (String × Bool × List Char) :=
  match nameChars Text.isNameStart text.length text with
  | some ([], _, _) => none
  | some (name, escaped, rest) => some (String.ofList name, escaped, rest)
  | none => none

/-! ## Numbers -/

/-- Digits of a base, with single underscores between them. -/
def digits (isDigit : Char → Bool) (text : List Char) : Option (List Char) :=
  let run := text.takeWhile fun c => isDigit c || c == '_'
  let wellPlaced := run.head? != some '_' && run.getLast? != some '_' &&
    !(run.zip (run.drop 1)).any fun p => p.1 == '_' && p.2 == '_'
  if wellPlaced then some (text.drop run.length) else none

def digits1 (isDigit : Char → Bool) (text : List Char) : Option (List Char) :=
  match text with
  | c :: _ => if isDigit c then digits isDigit text else none
  | [] => none

def exponent (text : List Char) : Option (List Char) :=
  match text with
  | e :: rest =>
    if e == 'e' || e == 'E' then
      match rest with
      | s :: rest' => digits1 Char.isDigit (if s == '+' || s == '-' then rest' else rest)
      | [] => none
    else some text
  | [] => some []

/-- The text behind the digits of a literal, and whether it may end in an `n`. -/
def numberEnd : List Char → Option (Bool × List Char)
  | '0' :: c :: rest =>
    if c == 'x' || c == 'X' then (digits1 (Text.hexValue? · |>.isSome) rest).map (true, ·)
    else if c == 'o' || c == 'O' then (digits1 (fun d => '0' ≤ d && d ≤ '7') rest).map (true, ·)
    else if c == 'b' || c == 'B' then (digits1 (fun d => d == '0' || d == '1') rest).map (true, ·)
    else if c.isDigit then zeroed (c :: rest)
    else if c == '_' then none
    else decimal ('0' :: c :: rest)
  | text => decimal text
where
  /-- Digits behind a leading zero. Unless one of them is an eight or a nine, nothing but digits
  belongs to the literal. -/
  zeroed (text : List Char) : Option (Bool × List Char) :=
    let behind := text.dropWhile Char.isDigit
    if (text.takeWhile Char.isDigit).any (· ≥ '8') then
      match behind with
      | '.' :: rest => (digits Char.isDigit rest).bind fun r => (exponent r).map (false, ·)
      | 'e' :: _ => (exponent behind).map (false, ·)
      | _ => some (false, behind)
    else some (false, behind)
  /-- A decimal literal: digits, a fraction and an exponent. -/
  decimal (text : List Char) : Option (Bool × List Char) :=
    match text with
    | '.' :: rest => (digits1 Char.isDigit rest).bind fun r => (exponent r).map (false, ·)
    | _ =>
      (digits Char.isDigit text).bind fun behind =>
        match behind with
        | '.' :: rest => (digits Char.isDigit rest).bind fun r => (exponent r).map (false, ·)
        -- Only digits without an exponent may be followed by an `n`.
        | _ => (exponent behind).map fun r => (r.length == behind.length, r)

/-- A numeric literal. No letter or digit may follow it directly. -/
def number (text : List Char) : Option (TokenKind × List Char) :=
  match numberEnd text with
  | none => none
  | some (integer, rest) =>
    let raw (behind : List Char) := String.ofList (text.take (text.length - behind.length))
    let apart (behind : List Char) := !(behind.head?.any fun c => Text.isNamePart c || c == '\\')
    match integer, rest with
    | true, 'n' :: behind => if apart behind then some (.bigint (raw behind), behind) else none
    | _, _ => if apart rest then some (.number (raw rest), rest) else none

/-! ## Strings, templates and regular expressions -/

/-- The value of a string literal up to its closing quote, and the text from there on. -/
def stringUnits (quote : Char) : Nat → List Char → Option (List TextUnit × List Char)
  | 0, _ => none
  | _ + 1, [] => none
  | n + 1, c :: rest =>
    if c == quote then some ([], c :: rest)
    else if c == '\\' then
      (escape rest).bind fun r => (stringUnits quote n r.2).map fun q => (r.1 ++ q.1, q.2)
    else if c == '\n' || c == '\r' then none
    else (stringUnits quote n rest).map fun q => (.char c :: q.1, q.2)

def string (quote : Char) (text : List Char) : Option (TokenKind × List Char) :=
  (stringUnits quote (text.length + 1) text).map fun r =>
    let raw := String.ofList (text.take (text.length - r.2.length))
    (.string (joinSurrogates r.1) raw, r.2.drop 1)

/-- The raw text of a template piece up to its end, whether it is the last one, and the text
behind it. -/
def templateChars : List Char → Option (List Char × Bool × List Char)
  | [] => none
  | '\\' :: c :: rest => (templateChars rest).map fun r => ('\\' :: c :: r.1, r.2)
  | '$' :: '\x7b' :: rest => some ([], false, rest)
  | '\x60' :: rest => some ([], true, rest)
  | c :: rest => (templateChars rest).map fun r => (c :: r.1, r.2)

def template (text : List Char) : Option (TokenKind × List Char) :=
  (templateChars text).map fun r => (.template (String.ofList r.1) r.2.1, r.2.2)

def regexBody (inClass : Bool) : List Char → Option (List Char)
  | [] => none
  | '\\' :: c :: rest => if Text.isLineBreak c then none else regexBody inClass rest
  | c :: rest =>
    if Text.isLineBreak c then none
    else if c == '[' then regexBody true rest
    else if c == ']' then regexBody false rest
    -- A slash in brackets is a character of the expression.
    else if c == '/' && !inClass then some rest
    else regexBody inClass rest

/-- Whether `flags` are known, none stands twice, and at most one of `u` and `v` is there. -/
def validFlags (flags : List Char) : Bool :=
  flags.all (fun c => "dgimsuvy".toList.contains c) && decide flags.Nodup &&
    !(flags.contains 'u' && flags.contains 'v')

/-- A regular expression with its flags, from its opening slash on. -/
def regex (text : List Char) : Option (TokenKind × List Char) :=
  (regexBody false (text.drop 1)).bind fun behind =>
    let flags := behind.takeWhile Text.isNamePart
    let rest := behind.drop flags.length
    if validFlags flags then
      some (.regex (String.ofList (text.take (text.length - rest.length))), rest)
    else none

/-! ## Elements -/

/-- The text between tags: everything up to the next brace or angle bracket. -/
def jsxText (text : List Char) : Option (TokenKind × List Char) :=
  let run := text.takeWhile fun c => c != '\x7b' && c != '<'
  if run.isEmpty || run.any (fun c => c == '>' || c == '\x7d') then none
  else some (.jsxText (String.ofList run), text.drop run.length)

/-- The value of an attribute in quotes; nothing in it is escaped. -/
def jsxString (quote : Char) (text : List Char) : Option (TokenKind × List Char) :=
  let run := text.takeWhile (· != quote)
  if run.length == text.length then none
  else some (.jsxString (String.ofList run), text.drop (run.length + 1))

/-- The rest of a tag or attribute name, which may hold hyphens. -/
def jsxNameRest (text : List Char) : List Char × List Char :=
  let run := text.takeWhile fun c => Text.isNamePart c || c == '-'
  (run, text.drop run.length)

/-! ## Punctuators -/

/-- The punctuators, longer ones before those that they begin with. A closing angle bracket is
always a token of its own. -/
def punctuators : List (List Char) :=
  ["...", "===", "!==", "**=", "<<=", "&&=", "||=", "??=", "=>", "==", "!=", "<=", "<<", "&&", "||",
    "??", "?.", "++", "--", "+=", "-=", "*=", "/=", "%=", "&=", "|=", "^=", "**", "\x7b", "\x7d",
    "(", ")", "[", "]", ";", ",", "<", ">", "+", "-", "*", "/", "%", "&", "|", "^", "!", "~", "?",
    ":", "=", "@", "."].map String.toList

/-- The punctuators that begin with a closing angle bracket, longer ones first. -/
def anglePunctuators : List (List Char) := [">>>=", ">>>", ">>=", ">>", ">=", ">"].map String.toList

def firstOf (table : List (List Char)) (text : List Char) : Option (TokenKind × List Char) :=
  (table.find? fun p => p.isPrefixOf text).map fun p =>
    (.punct (String.ofList p), text.drop p.length)

/-- The punctuator that `text` begins with. A question mark before a decimal fraction stands
alone. -/
def punctuator (text : List Char) : Option (TokenKind × List Char) :=
  match text with
  | '?' :: '.' :: c :: rest =>
    if c.isDigit then some (.punct "?", '.' :: c :: rest) else firstOf punctuators text
  | _ => firstOf punctuators text

/-- The unit of the plain language that `text` begins with; at the end of the input, its end. -/
def unit (text : List Char) : TokenKind × List Char :=
  let orInvalid (r : Option (TokenKind × List Char)) := r.getD (.invalid, text)
  match text with
  | [] => (.endOfInput, [])
  | '\x22' :: rest => orInvalid (string '\x22' rest)
  | '\x27' :: rest => orInvalid (string '\x27' rest)
  | '\x60' :: rest => orInvalid (template rest)
  | '#' :: rest => orInvalid ((word rest).map fun r => (.privateWord r.1, r.2.2))
  | '.' :: c :: rest => orInvalid (if c.isDigit then number text else punctuator ('.' :: c :: rest))
  | c :: _ =>
    if c.isDigit then orInvalid (number text)
    else if Text.isNameStart c || c == '\\' then
      orInvalid ((word text).map fun r => (.word r.1 r.2.1, r.2.2))
    else orInvalid (punctuator text)

/-! ## Blanks and comments -/

/-- What stands between two tokens. -/
structure Trivia where
  /-- A line has ended. -/
  newline : Bool
  /-- The comments read so far that belong to the token ahead, the last one first. -/
  comments : List Comment
  /-- The text behind what has been read. -/
  rest : List Char
  /-- A comment has no end. -/
  unclosed : Bool
  /-- What the comments promise, those included that belong to the token before. -/
  promise : Promise

namespace Trivia

/-- The text of a block comment from behind its opening delimiter up to its end. -/
def blockEnd : List Char → Option (List Char)
  | [] => none
  | '*' :: '/' :: rest => some rest
  | _ :: rest => blockEnd rest

/-- At the end of a line the last comment gets to know of it. Comments that stand behind a token
on its own line belong to that token and are dropped, unless the token is one that waits for a
value. -/
def endLine (sameLine waiting : Bool) : List Comment → List Comment
  | [] => []
  | c :: cs => if sameLine && !waiting then [] else { c with newlineAfter := true } :: cs

def freshLine (lines : Bool) (comments : List Comment) : Bool :=
  lines && comments.head?.all (·.newlineAfter)

/-- Blanks and comments. `lines` tells whether a line has ended since the token before, `newline`
whether the token ahead counts as standing on a new line, and `waiting` whether the token before
waits for a value. -/
def skip (waiting : Bool) :
    Nat → (lines newline : Bool) → Promise → List Comment → List Char → Trivia
  | 0, _, newline, promise, comments, rest => ⟨newline, comments, rest, false, promise⟩
  | n + 1, lines, newline, promise, comments, '/' :: '/' :: rest =>
    let line := rest.takeWhile fun c => !Text.isLineBreak c
    let comment := ⟨String.ofList ('/' :: '/' :: line), true, 0, freshLine lines comments, true⟩
    -- On the line of the token before it belongs to that token, unless the token waits for a value.
    let comments := if lines || waiting then comment :: comments else []
    skip waiting n lines newline (promise.join (.ofText line)) comments (rest.drop line.length)
  | n + 1, lines, newline, promise, comments, '/' :: '*' :: rest =>
    match blockEnd rest with
    | none => ⟨newline, comments, rest, true, promise⟩
    | some behind =>
      let inner := rest.take (rest.length - behind.length)
      let text := String.ofList ('/' :: '*' :: inner)
      let comment := ⟨text, false, 0, freshLine lines comments, false⟩
      -- A line that ends inside the comment counts for the token ahead, and not for the comments.
      skip waiting n lines (newline || inner.any Text.isLineBreak) (promise.join (.ofText inner))
        (comment :: comments) behind
  | n + 1, lines, newline, promise, comments, c :: rest =>
    if Text.isLineBreak c then
      skip waiting n true true promise (endLine (!lines) waiting comments) rest
    else if Text.isBlank c then skip waiting n lines newline promise comments rest
    else ⟨newline, comments, c :: rest, false, promise⟩
  | _ + 1, _, newline, promise, comments, [] => ⟨newline, comments, [], false, promise⟩

end Trivia

/-! ## The next token -/

/-- A token with the input at it and behind it, and the comments before it. -/
structure Read where
  token : Token
  here : Cursor
  after : Cursor
  /-- The last one first. -/
  comments : List Comment

def readAt (reader : List Char → TokenKind × List Char) (newline : Bool) (here : Cursor) : Read :=
  let (kind, rest) := reader here.rest
  let after := here.moveTo rest
  { token := ⟨kind, ⟨here.offset, after.offset⟩, newline, {}⟩
    here := here
    after := after
    comments := [] }

/-- The token behind `c`, past blanks and comments. A comment that makes a promise is not kept. -/
def readNext (reader : List Char → TokenKind × List Char) (start waiting : Bool) (c : Cursor) :
    Read :=
  let trivia := Trivia.skip waiting (c.rest.length + 1) start start {} [] c.rest
  let here := c.moveTo trivia.rest
  if trivia.unclosed then readAt (fun text => (.invalid, text)) trivia.newline here
  else
    let r := readAt reader trivia.newline here
    { r with
      token := { r.token with promise := trivia.promise }
      comments := (trivia.comments.filter (!·.promise.isSome)).map fun c =>
        { c with position := here.offset } }

end RouteSplit.Token
