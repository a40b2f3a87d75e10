import RouteSplit.Tree.Label

/-!
# Quoted text

- `escaped`: how a unit of text is written inside double quotes;
- `closesScript`: the text that would end a script in a page;
- `quote`: a string literal.
-/

namespace RouteSplit.Text

def hex4 (n : Nat) : List Char :=
  let digits := Nat.toDigits 16 n
  List.replicate (4 - digits.length) '0' ++ digits

/-- How one unit is written inside double quotes. The unit behind decides how a null is
written. -/
def escaped (u : TextUnit) (behind : List TextUnit) : List Char :=
  match u with
  | .surrogate code => '\\' :: 'u' :: hex4 code
  | .char c =>
    match c.toNat with
    | 0x22 => ['\\', '\x22']
    | 0x5c => ['\\', '\\']
    | 0x0a => ['\\', 'n']
    | 0x0d => ['\\', 'r']
    | 0x08 => ['\\', 'b']
    | 0x0b => ['\\', 'v']
    | 0x0c => ['\\', 'f']
    | 0x07 => "\\x07".toList
    | 0x1b => "\\x1B".toList
    | 0xa0 => "\\xA0".toList
    | 0x2028 => "\\u2028".toList
    | 0x2029 => "\\u2029".toList
    | 0x00 =>
      match behind with
      | .char d :: _ => if d.isDigit then "\\x00".toList else ['\\', '0']
      | _ => ['\\', '0']
    | _ => [c]

/-- Whether `text` begins, in any case, with what would end a script in a page. -/
def closesScript (text : List Char) : Bool :=
  (text.take 8).map Char.toLower == "</script".toList

/-- A backslash before the slash of every text that would end a script. -/
def guardScript : List Char → List Char
  | [] => []
  | c :: rest =>
    if c == '<' && closesScript (c :: rest) then '<' :: '\\' :: guardScript rest
    else c :: guardScript rest

def escapedAll : List TextUnit → List Char
  | [] => []
  | u :: rest => escaped u rest ++ escapedAll rest

def quote (units : List TextUnit) : String :=
  "\"" ++ String.ofList (guardScript (escapedAll units)) ++ "\""

def quoteString (s : String) : String := quote (s.toList.map .char)

end RouteSplit.Text
