/-!
# Dialects of a module

The name of a file decides which extensions of JavaScript its text may use.

- `ModuleKind`: what the top of a file may hold;
- `Dialect`: whether type annotations and JSX elements are read;
- `Filename.extension?`: the text behind the last dot of the last path component;
- `Filename.isAmbient`: whether a file only declares what others define;
- `Dialect.ofFilename`: the dialect that goes with a file name.
-/

namespace RouteSplit

/-- What the top of a file may hold. -/
inductive ModuleKind where
  /-- The file is a module: `await` is an operator at its top. -/
  | module
  /-- The file is the body of a function: `return` may stand at its top, and `await` is a name. -/
  | functionBody
  /-- The file is a module if it imports or exports anything, and `await` is an operator then. -/
  | either
deriving DecidableEq, Repr, Inhabited

structure Dialect where
  /-- Type annotations, interfaces, enums and namespaces are read. -/
  types : Bool
  /-- `<name>` opens an element rather than a type assertion. -/
  jsx : Bool
  kind : ModuleKind
  /-- The file declares what other files define: its constants need no values. -/
  ambient : Bool := false
deriving DecidableEq, Repr, Inhabited

namespace Filename

def components : List Char → List (List Char)
  | [] => [[]]
  | c :: rest =>
    match c == '/', components rest with
    | true, parts => [] :: parts
    | false, [] => [[c]]
    | false, part :: parts => (c :: part) :: parts

/-- The last part of `path` that names a file: empty parts and `.` are passed over. -/
def base (path : List Char) : List Char :=
  ((components path).filter fun part => !part.isEmpty && part != ['.']).getLast?.getD []

/-- The text behind the last dot of a file's own name. A name that begins with its only dot has
no extension. -/
def extension? (path : String) : Option String :=
  let name := base path.toList
  let behind := (name.reverse.takeWhile (· != '.')).reverse
  let stem := (name.reverse.dropWhile (· != '.')).drop 1
  if stem.isEmpty || name == ['.', '.'] then none else some (String.ofList behind)

def dotted (name : List Char) : List (List Char) :=
  (name.foldl (fun (parts : List (List Char)) c =>
    match c == '.', parts with
    | true, parts => [] :: parts
    | false, part :: parts => (part ++ [c]) :: parts
    | false, [] => [[c]]) [[]])

/-- Whether a `d` before its extension tells that a file holds declarations only. With the plainest
extension another part may stand between the two. -/
def isAmbient (path : String) : Bool :=
  match extension? path, dotted (base path.toList) with
  | some "ts", _ :: parts => (parts.take 2).contains ['d']
  | some "mts", _ :: part :: _ :: _ | some "cts", _ :: part :: _ :: _ => part == ['d']
  | _, _ => false

end Filename

namespace Dialect

/-- The dialect of a file whose name tells nothing: everything is read. -/
def all : Dialect := { types := true, jsx := true, kind := .module }

def ofFilename (path : String) : Dialect :=
  let plain (types jsx : Bool) (kind : ModuleKind) : Dialect :=
    { types, jsx, kind, ambient := Filename.isAmbient path }
  match Filename.extension? path with
  | some "js" => plain false false .either
  | some "mjs" => plain false false .module
  | some "cjs" => plain false false .functionBody
  | some "jsx" => plain false true .either
  | some "ts" => plain true false .either
  | some "tsx" => plain true true .either
  | some "mts" => plain true false .module
  | some "cts" => plain true false .functionBody
  | _ => all

end Dialect

end RouteSplit
