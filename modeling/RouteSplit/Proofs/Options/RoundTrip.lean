import Mathlib.Algebra.Group.Nat.Defs
import Mathlib.Data.List.Basic
import RouteSplit.Proofs.Json.Written

/-!
# Options that are written and read back

Writing gives every field a member of its own, and reading takes the members in any order that does
not repeat a key, so what is written is read field by field.

- `fieldValue`: the JSON value of a field;
- `read_toJson`: what is written is an object with all six fields;
- `Field.copy`, `Field.read_fieldValue`: reading a member sets its field and no other;
- `readMembers_fields`: members of different fields set them one by one;
- `ofJson_toJson`: options are read as what they were.
-/

namespace RouteSplit.Options

open Json

/-! ## What is written -/

/-- The JSON value of a field. -/
def fieldValue (o : Options) : Field → Json
  | .mode => .string (some o.mode.name)
  | .filename => .string (some o.filename)
  | .sourceMap => .bool o.sourceMap
  | .serverExportName => .string (some o.serverExportName)
  | .markerName => .string (some o.markerName)
  | .maxPasses =>
    match o.maxPasses with
    | none => .null
    | some n => .number (Nat.toDigits 10 n)

/-- The text of a field is read as the value of the field. -/
theorem writes_fieldText (o : Options) (f : Field) : Writes (o.fieldText f) (o.fieldValue f) := by
  cases f with
  | mode => exact writes_quote _
  | filename => exact writes_quote _
  | sourceMap => exact writes_bool _
  | serverExportName => exact writes_quote _
  | markerName => exact writes_quote _
  | maxPasses =>
      rcases o with ⟨mode, filename, sourceMap, serverExportName, markerName, maxPasses⟩
      cases maxPasses with
      | none => exact writes_null
      | some n => exact writes_toDigits n

/-- Options are written as an object with a member for each field. -/
theorem read_toJson (o : Options) :
    Json.read o.toJson.toList =
      (.object (Field.all.map fun f => (some f.key, o.fieldValue f)), some []) := by
  have hread := read_object (Field.all.map fun f => (f.key, o.fieldText f, o.fieldValue f))
    (by simp [Field.all])
    (by
      intro m hm
      rcases List.mem_map.1 hm with ⟨f, -, rfl⟩
      exact writes_fieldText o f)
    []
  have htext : o.toJson.toList =
      '\x7b' :: (membersText (Field.all.map fun f => (f.key, o.fieldText f, o.fieldValue f)) ++
        ['\x7d']) := by
    rw [toJson, String.toList_ofList, membersText, List.map_map]
    rfl
  rw [htext, hread, List.map_map]
  rfl

/-! ## What is read -/

/-- The value of an integer is told by its digits. -/
theorem natOf_toDigits (n : Nat) : Number.Literal.natOf 10 (Nat.toDigits 10 n) = n := by
  calc
    Number.Literal.natOf 10 (Nat.toDigits 10 n) = Nat.ofDigitChars 10 (Nat.toDigits 10 n) 0 := by
      refine List.foldl_ext _ _ _ fun m c hc => ?_
      have hdigit : Text.hexValue? c = some (c.toNat - '0'.toNat) :=
        if_pos (isDigit_of_toDigits hc)
      simp only [hdigit]
    _ = n := Nat.ofDigitChars_ten_toDigits

/-- The digits of a number below the limit are understood as that number. -/
theorem numberValue_toDigits {n : Nat} (h : n < 2 ^ 64) :
    numberValue (Nat.toDigits 10 n) = .natural n := by
  have hall : (Nat.toDigits 10 n).all Char.isDigit = true :=
    List.all_eq_true.2 fun c hc => isDigit_of_toDigits hc
  have hsign : ∀ tail, Nat.toDigits 10 n ≠ '-' :: tail := by
    intro tail heq
    have hdigit : ('-' : Char).isDigit = true := isDigit_of_toDigits (n := n) (by simp [heq])
    exact absurd hdigit (by decide)
  have hbound : n < Nat.pow 2 64 := h
  simp [numberValue, hall, natOf_toDigits, hbound]

/-- A limit on the passes, if there is one, fits into 64 bits. -/
def Bounded (o : Options) : Prop := ∀ n ∈ o.maxPasses, n < 2 ^ 64

namespace Field

/-- A field is found by its key. -/
theorem ofKey?_key (f : Field) : ofKey? f.key = some f := by
  cases f <;> rfl

/-- `target` with the field as `source` has it. -/
def copy (f : Field) (source target : Options) : Options :=
  match f with
  | .mode => { target with mode := source.mode }
  | .filename => { target with filename := source.filename }
  | .sourceMap => { target with sourceMap := source.sourceMap }
  | .serverExportName => { target with serverExportName := source.serverExportName }
  | .markerName => { target with markerName := source.markerName }
  | .maxPasses => { target with maxPasses := source.maxPasses }

/-- The value of a field sets the field to what it was, and no other one. -/
theorem read_fieldValue {source : Options} (h : Bounded source) (f : Field) (target : Options) :
    f.read (source.fieldValue f) target = .ok (f.copy source target) := by
  rcases source with ⟨mode, filename, sourceMap, serverExportName, markerName, maxPasses⟩
  cases f with
  | mode => cases mode <;> rfl
  | filename => rfl
  | sourceMap => rfl
  | serverExportName => rfl
  | markerName => rfl
  | maxPasses =>
      cases maxPasses with
      | none => rfl
      | some n =>
          have hvalue := numberValue_toDigits (h n rfl)
          simp only [read, fieldValue, readPasses, hvalue]
          rfl

end Field

/-- Members of different fields are read one by one, each as its own field. -/
theorem readMembers_fields {source : Options} (h : Bounded source) (fs seen : List Field)
    (hnodup : fs.Nodup) (hseen : ∀ f ∈ fs, f ∉ seen) (target : Options) :
    readMembers (fs.map fun f => (some f.key, source.fieldValue f)) seen target =
      .ok (fs.foldl (fun o f => f.copy source o) target) := by
  induction fs generalizing seen target with
  | nil => rfl
  | cons f fs ih =>
      rcases List.nodup_cons.1 hnodup with ⟨hf, hfs⟩
      have hnew : seen.contains f = false := by
        simpa using hseen f List.mem_cons_self
      have hrest : ∀ g ∈ fs, g ∉ f :: seen := by
        intro g hg hmem
        rcases List.mem_cons.1 hmem with rfl | hmem
        · exact hf hg
        · exact hseen g (List.mem_cons_of_mem _ hg) hmem
      have hread := Field.read_fieldValue h f target
      rw [List.map_cons, readMembers, Field.ofKey?_key]
      simp only [hnew, hread, Bool.false_eq_true, if_false]
      exact ih _ hfs hrest _

/-- The six fields are all that options have. -/
theorem foldl_copy_all (source target : Options) :
    Field.all.foldl (fun o f => f.copy source o) target = source := rfl

/-- Options are read as what they were written from: an object with six members, one for each
field. -/
theorem ofJson_toJson (o : Options) (h : ∀ n ∈ o.maxPasses, n < 2 ^ 64) :
    Json.read o.toJson.toList =
      (.object [
        (some "mode", .string (some o.mode.name)),
        (some "filename", .string (some o.filename)),
        (some "sourceMap", .bool o.sourceMap),
        (some "serverExportName", .string (some o.serverExportName)),
        (some "markerName", .string (some o.markerName)),
        (some "maxPasses", match o.maxPasses with
          | none => .null
          | some n => .number (Nat.toDigits 10 n))], some []) ∧
      ofJson o.toJson = .ok o := by
  have hread := read_toJson o
  have hmembers : readValue (.object (Field.all.map fun f => (some f.key, o.fieldValue f))) =
      .ok o := by
    have hfields := readMembers_fields h Field.all [] (by decide)
      (fun _ _ => List.not_mem_nil) {}
    rwa [foldl_copy_all] at hfields
  refine ⟨hread, ?_⟩
  rw [ofJson, hread]
  simp only [hmembers]
  rfl

/-- Options with quotes, backslashes, control characters and letters of all kinds in their names,
and the largest limit. -/
def quotedOptions : Options where
  mode := .server
  filename := "C:\\\"routes\"\t\x01\x7fé.tsx"
  sourceMap := true
  serverExportName := "données\n\x00😀"
  markerName := ""
  maxPasses := some 18446744073709551615

theorem ofJson_toJson_quotedOptions :
    (∀ n ∈ quotedOptions.maxPasses, n < 2 ^ 64) ∧
      ofJson quotedOptions.toJson = .ok quotedOptions := by
  have hbound : ∀ n ∈ quotedOptions.maxPasses, n < 2 ^ 64 := by
    intro n hn
    rw [← Option.some.inj hn]
    decide
  exact ⟨hbound, (ofJson_toJson quotedOptions hbound).2⟩

end RouteSplit.Options
