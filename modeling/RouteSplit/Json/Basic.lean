import RouteSplit.Text.Class

/-!
# JSON values as far as they can be read

A text is read from left to right. Where it stops being JSON the value ends in `broken`, so that
what stands before can still be judged first.

- `Json`: a value, perhaps only its beginning;
- `Json.read`: the value that a text begins with, and what stands behind it;
- `Json.isWhole`: whether a value was read to its end.
-/

namespace RouteSplit

/-- A JSON value. Objects keep the order of their members and may repeat keys. -/
inductive Json where
  | null
  | bool (value : Bool)
  | number (raw : List Char)
  /-- A string, or nothing if it holds half of a surrogate pair, which no text can. -/
  | string (value : Option String)
  | array (items : List Json)
  | object (members : List (Option String × Json))
  /-- The text is no JSON from here on. -/
  | broken
deriving Repr, Inhabited

namespace Json

/-! ## Blanks and strings -/

def isBlank (c : Char) : Bool := c == ' ' || c == '\t' || c == '\n' || c == '\r'

def skipBlanks (text : List Char) : List Char := text.dropWhile isBlank

def hex4? : List Char → Option (Nat × List Char)
  | a :: b :: c :: d :: rest =>
    match Text.hexValue? a, Text.hexValue? b, Text.hexValue? c, Text.hexValue? d with
    | some w, some x, some y, some z => some (((w * 16 + x) * 16 + y) * 16 + z, rest)
    | _, _, _, _ => none
  | _ => none

/-- The lower half of a surrogate pair where its escape stands, and the text behind it. -/
def lowHalf? : List Char → Option (Nat × List Char)
  | '\\' :: 'u' :: rest => (hex4? rest).filter fun r => 0xdc00 ≤ r.1 && r.1 ≤ 0xdfff
  | _ => none

/-- The character of an escape with digits, from behind its `u`. Two halves of a surrogate pair
stand for one character, and a half alone for none. -/
def codeEscape? (text : List Char) : Option (Option Char × List Char) :=
  (hex4? text).map fun (code, rest) =>
    if code < 0xd800 || 0xdfff < code then (some (Char.ofNat code), rest)
    else if 0xdc00 ≤ code then (none, rest)
    else
      match lowHalf? rest with
      | some (low, behind) =>
        (some (Char.ofNat (0x10000 + (code - 0xd800) * 0x400 + (low - 0xdc00))), behind)
      | none => (none, rest)

def escape? : List Char → Option (Option Char × List Char)
  | '\x22' :: rest => some (some '\x22', rest)
  | '\\' :: rest => some (some '\\', rest)
  | '/' :: rest => some (some '/', rest)
  | 'b' :: rest => some (some '\x08', rest)
  | 'f' :: rest => some (some '\x0c', rest)
  | 'n' :: rest => some (some '\n', rest)
  | 'r' :: rest => some (some '\r', rest)
  | 't' :: rest => some (some '\t', rest)
  | 'u' :: rest => codeEscape? rest
  | _ => none

/-- The characters of a string up to its closing quote, and the text behind it. -/
def stringChars : Nat → List Char → Option (List (Option Char) × List Char)
  | 0, _ => none
  | _ + 1, [] => none
  | n + 1, c :: rest =>
    if c == '\x22' then some ([], rest)
    else if c == '\\' then
      (escape? rest).bind fun r => (stringChars n r.2).map fun q => (r.1 :: q.1, q.2)
    else if c.toNat < 0x20 then none
    else (stringChars n rest).map fun q => (some c :: q.1, q.2)

def string? (text : List Char) : Option (Option String × List Char) :=
  (stringChars (text.length + 1) text).map fun r => ((r.1.mapM id).map String.ofList, r.2)

/-! ## Numbers -/

def digits? (text : List Char) : Option (List Char × List Char) :=
  let run := text.takeWhile Char.isDigit
  if run.isEmpty then none else some (run, text.drop run.length)

def fraction? : List Char → Option (List Char × List Char)
  | '.' :: rest => (digits? rest).map fun r => ('.' :: r.1, r.2)
  | text => some ([], text)

def exponent? : List Char → Option (List Char × List Char)
  | e :: rest =>
    if e == 'e' || e == 'E' then
      match rest with
      | s :: rest' =>
        if s == '+' || s == '-' then (digits? rest').map fun r => (e :: s :: r.1, r.2)
        else (digits? rest).map fun r => (e :: r.1, r.2)
      | [] => none
    else some ([], e :: rest)
  | [] => some ([], [])

/-- The integer part of a number: a zero stands alone. -/
def whole? (text : List Char) : Option (List Char × List Char) :=
  match digits? text with
  | some ('0' :: _ :: _, _) => none
  | r => r

def number? (text : List Char) : Option (List Char × List Char) := do
  let (sign, text) := match text with
    | '-' :: rest => (['-'], rest)
    | _ => ([], text)
  let (whole, rest) ← whole? text
  let (fraction, rest) ← fraction? rest
  let (exponent, rest) ← exponent? rest
  return (sign ++ whole ++ fraction ++ exponent, rest)

/-! ## Values -/

/-- A value, and the text behind it if the value was read to its end. -/
abbrev Reading (α : Type) := α × Option (List Char)

def ofOption {α : Type} (build : α → Json) : Option (α × List Char) → Reading Json
  | some (a, rest) => (build a, some rest)
  | none => (.broken, none)

/-- The word `w` as the value `j`. -/
def word (w : String) (j : Json) (text : List Char) : Reading Json :=
  if w.toList.isPrefixOf text then (j, some (text.drop w.length)) else (.broken, none)

mutual

def value : Nat → List Char → Reading Json
  | 0, _ => (.broken, none)
  | n + 1, text =>
    match skipBlanks text with
    | [] => (.broken, none)
    | c :: rest =>
      if c == '\x22' then ofOption .string (string? rest)
      else if c == '[' then
        let (items, behind) := firstItem n rest
        (.array items, behind)
      else if c == '\x7b' then
        let (members, behind) := firstMember n rest
        (.object members, behind)
      else if c == 'n' then word "null" .null (c :: rest)
      else if c == 't' then word "true" (.bool true) (c :: rest)
      else if c == 'f' then word "false" (.bool false) (c :: rest)
      else ofOption .number (number? (c :: rest))

def firstItem : Nat → List Char → Reading (List Json)
  | 0, _ => ([.broken], none)
  | n + 1, text =>
    match skipBlanks text with
    | ']' :: rest => ([], some rest)
    | text => items n text

def items : Nat → List Char → Reading (List Json)
  | 0, _ => ([.broken], none)
  | n + 1, text =>
    match value n text with
    | (j, none) => ([j, .broken], none)
    | (j, some rest) =>
      match skipBlanks rest with
      | ']' :: behind => ([j], some behind)
      | ',' :: behind =>
        let (js, last) := items n behind
        (j :: js, last)
      | _ => ([j, .broken], none)

def firstMember : Nat → List Char → Reading (List (Option String × Json))
  | 0, _ => ([(none, .broken)], none)
  | n + 1, text =>
    match skipBlanks text with
    | '\x7d' :: rest => ([], some rest)
    | text => members n text

def members : Nat → List Char → Reading (List (Option String × Json))
  | 0, _ => ([(none, .broken)], none)
  | n + 1, text =>
    match skipBlanks text with
    | '\x22' :: rest =>
      match string? rest with
      | none => ([(none, .broken)], none)
      | some (key, behind) =>
        match skipBlanks behind with
        | ':' :: rest =>
          match value n rest with
          | (j, none) => ([(key, j), (none, .broken)], none)
          | (j, some rest) =>
            match skipBlanks rest with
            | '\x7d' :: behind => ([(key, j)], some behind)
            | ',' :: behind =>
              let (ms, last) := members n behind
              ((key, j) :: ms, last)
            | _ => ([(key, j), (none, .broken)], none)
        | _ => ([(key, .broken)], none)
    | _ => ([(none, .broken)], none)

end

def read (text : List Char) : Reading Json := value (4 * text.length + 4) text

mutual

def isWhole : Json → Bool
  | .broken => false
  | .array items => areWhole items
  | .object members => membersWhole members
  | _ => true

def areWhole : List Json → Bool
  | [] => true
  | j :: js => isWhole j && areWhole js

def membersWhole : List (Option String × Json) → Bool
  | [] => true
  | (_, j) :: ms => isWhole j && membersWhole ms

end

end Json

end RouteSplit
