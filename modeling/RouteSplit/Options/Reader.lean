import RouteSplit.Json.Basic
import RouteSplit.Number.Scaled
import RouteSplit.Options.Basic

/-!
# Reading options

Options are an object with a member for each of them, or an array with one value for each, in
order. Both are read from left to right, and the first problem is the one that is told.

- `OptionsError`: a value that does not fit, or a text that is no JSON;
- `Field`: the options by name;
- `Options.ofJson`: the options that a text gives.
-/

namespace RouteSplit

inductive OptionsError where
  /-- A value does not fit. -/
  | unfit (message : String)
  /-- The text is not what it should be. -/
  | malformed
deriving DecidableEq, Repr, Inhabited

namespace Options

/-! ## What was found -/

/-- A character as a message shows it: one without a picture of its own by its number. -/
def shownChar (c : Char) : List Char :=
  match c.toNat with
  | 0x22 => ['\\', '\x22']
  | 0x5c => ['\\', '\\']
  | 0x09 => ['\\', 't']
  | 0x0a => ['\\', 'n']
  | 0x0d => ['\\', 'r']
  | 0x00 => ['\\', '0']
  | n => if Text.isHidden c then "\\u\x7b".toList ++ Nat.toDigits 16 n ++ ['\x7d'] else [c]

/-- A text as a message shows it. -/
def shown (s : String) : String :=
  "\"" ++ String.ofList (s.toList.flatMap shownChar) ++ "\""

/-- Fractions in messages: always with a point or an exponent, plain up to sixteen digits. -/
def fractionFormat : Number.DecimalFormat := ⟨16, -4, true⟩

inductive NumberValue where
  | natural (n : Nat)
  | negative (n : Nat)
  | fraction (text : String)
  | tooLarge

/-- The value of a number. Integers beyond 64 bits, and a negative zero, count as fractions. -/
def numberValue (raw : List Char) : NumberValue :=
  let (isNegative, digits) := match raw with
    | '-' :: rest => (true, rest)
    | _ => (false, raw)
  let isInteger := digits.all Char.isDigit
  let n := Number.Literal.natOf 10 digits
  if isInteger && !isNegative && n < Nat.pow 2 64 then .natural n
  else if isInteger && isNegative && 0 < n && n ≤ Nat.pow 2 63 then .negative n
  else
    let (whole, fraction, e) := Number.Literal.decimalParts digits
    match Number.scaled? whole fraction e with
    | some x => .fraction ((if isNegative then "-" else "") ++ fractionFormat.write x.shortest)
    | none => .tooLarge

/-- What a message calls a value. -/
def found : Json → Except OptionsError String
  | .null => .ok "null"
  | .bool b => .ok ("boolean \x60" ++ (if b then "true" else "false") ++ "\x60")
  | .number raw =>
    match numberValue raw with
    | .natural n => .ok ("integer \x60" ++ toString n ++ "\x60")
    | .negative n => .ok ("integer \x60-" ++ toString n ++ "\x60")
    | .fraction text => .ok ("floating point \x60" ++ text ++ "\x60")
    | .tooLarge => .error .malformed
  | .string (some s) => .ok ("string " ++ shown s)
  | .string none => .error .malformed
  | .array _ => .ok "sequence"
  | .object _ => .ok "map"
  | .broken => .error .malformed

def wrongKind {α : Type} (want : String) (j : Json) : Except OptionsError α := do
  .error (.unfit ("invalid type: " ++ (← found j) ++ ", expected " ++ want))

/-! ## Values -/

def modeNamed (name : String) : Except OptionsError BundleMode :=
  match name with
  | "client" => .ok .client
  | "server" => .ok .server
  | _ =>
    .error (.unfit ("unknown variant \x60" ++ name ++
      "\x60, expected \x60client\x60 or \x60server\x60"))

/-- A mode: its name, or an object whose only key is its name. -/
def readMode : Json → Except OptionsError BundleMode
  | .string (some name) => modeNamed name
  | .object ((some key, j) :: rest) => do
    let mode ← modeNamed key
    match j, rest with
    | .null, [] => return mode
    -- The name fits and the value does, but more follows than one member.
    | .null, _ => .error .malformed
    | _, _ => wrongKind "unit" j
  | _ => .error .malformed

def readText : Json → Except OptionsError String
  | .string (some s) => .ok s
  | j => wrongKind "a string" j

def readFlag : Json → Except OptionsError Bool
  | .bool b => .ok b
  | j => wrongKind "a boolean" j

def readPasses : Json → Except OptionsError (Option Nat)
  | .null => .ok none
  | .number raw =>
    match numberValue raw with
    | .natural n => .ok (some n)
    | .negative n =>
      .error (.unfit ("invalid value: integer \x60-" ++ toString n ++ "\x60, expected usize"))
    | _ => wrongKind "usize" (.number raw)
  | j => wrongKind "usize" j

/-! ## Fields -/

inductive Field where
  | mode
  | filename
  | sourceMap
  | serverExportName
  | markerName
  | maxPasses
deriving DecidableEq, Repr, Inhabited

namespace Field

/-- All fields, in the order in which an array gives them. -/
def all : List Field := [.mode, .filename, .sourceMap, .serverExportName, .markerName, .maxPasses]

def key : Field → String
  | .mode => "mode"
  | .filename => "filename"
  | .sourceMap => "sourceMap"
  | .serverExportName => "serverExportName"
  | .markerName => "markerName"
  | .maxPasses => "maxPasses"

def ofKey? (key : String) : Option Field := all.find? (·.key == key)

/-- The options with the field's value as `j` gives it. -/
def read (f : Field) (j : Json) (o : Options) : Except OptionsError Options :=
  match f with
  | .mode => do return { o with mode := ← readMode j }
  | .filename => do return { o with filename := ← readText j }
  | .sourceMap => do return { o with sourceMap := ← readFlag j }
  | .serverExportName => do return { o with serverExportName := ← readText j }
  | .markerName => do return { o with markerName := ← readText j }
  | .maxPasses => do return { o with maxPasses := ← readPasses j }

end Field

/-! ## Whole options -/

/-- The options that members give, the fields in `seen` having been given before. -/
def readMembers : List (Option String × Json) → List Field → Options → Except OptionsError Options
  | [], _, o => .ok o
  | (none, _) :: _, _, _ => .error .malformed
  | (some key, j) :: rest, seen, o =>
    match Field.ofKey? key with
    -- An unknown key is passed over, if its value is one.
    | none => if j.isWhole then readMembers rest seen o else .error .malformed
    | some f =>
      if seen.contains f then .error (.unfit ("duplicate field \x60" ++ f.key ++ "\x60"))
      else do readMembers rest (f :: seen) (← f.read j o)

/-- The options that values give in order. There are no more values than fields. -/
def readItems : List Json → List Field → Options → Except OptionsError Options
  | [], _, o => .ok o
  | _ :: _, [], _ => .error .malformed
  | j :: js, f :: fs, o => do readItems js fs (← f.read j o)

/-- The options that a value gives; what it leaves out has its default. -/
def readValue : Json → Except OptionsError Options
  | .object members => readMembers members [] {}
  | .array items => readItems items Field.all {}
  | j => wrongKind "struct TransformOptions" j

/-- The options that a text gives. Nothing but blanks may follow the value. -/
def ofJson (text : String) : Except OptionsError Options := do
  let (j, behind) := Json.read text.toList
  let o ← readValue j
  match behind with
  | some rest => if (Json.skipBlanks rest).isEmpty then return o else .error .malformed
  | none => .error .malformed

end Options

end RouteSplit
