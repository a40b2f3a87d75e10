import RouteSplit.Options.Reader

/-!
# Writing options

- `Json.quote`: a string as JSON writes it;
- `Options.toJson`: options as an object with all six members.
-/

namespace RouteSplit

def Json.escaped (c : Char) : List Char :=
  match c.toNat with
  | 0x22 => ['\\', '\x22']
  | 0x5c => ['\\', '\\']
  | 0x08 => ['\\', 'b']
  | 0x0c => ['\\', 'f']
  | 0x0a => ['\\', 'n']
  | 0x0d => ['\\', 'r']
  | 0x09 => ['\\', 't']
  | n =>
    if n < 0x20 then
      '\\' :: 'u' :: '0' :: '0' :: Nat.digitChar (n / 16) :: [Nat.digitChar (n % 16)]
    else [c]

def Json.quote (s : String) : List Char :=
  '\x22' :: s.toList.flatMap Json.escaped ++ ['\x22']

namespace Options

def fieldText (o : Options) : Field → List Char
  | .mode => Json.quote o.mode.name
  | .filename => Json.quote o.filename
  | .sourceMap => (if o.sourceMap then "true" else "false").toList
  | .serverExportName => Json.quote o.serverExportName
  | .markerName => Json.quote o.markerName
  | .maxPasses =>
    match o.maxPasses with
    | none => "null".toList
    | some n => Nat.toDigits 10 n

def toJson (o : Options) : String :=
  let members := Field.all.map fun f => Json.quote f.key ++ ':' :: o.fieldText f
  String.ofList ('\x7b' :: ([','].intercalate members ++ ['\x7d']))

end Options

end RouteSplit
