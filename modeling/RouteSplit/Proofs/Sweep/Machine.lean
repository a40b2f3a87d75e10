import Mathlib.Logic.Function.Basic
import RouteSplit.Number.Literal
import RouteSplit.Proofs.Binding.Candidates
import RouteSplit.Proofs.Sweep.Deletion
import RouteSplit.Proofs.Sweep.Liveness

/-!
# Running a pattern

A pattern takes a value apart, one name after the other. Defaults, computed keys and the properties
of an object are code: each runs in the state that what stands before it has left.

- `Machine`: what it does to run the code of a module;
- `Slot`, `run`: names that are bound one after the other;
- `Unread`, `View`: names that no code reads, and states that no code tells apart;
- `run_filter`: names that stay are bound to what they were bound to, if what goes goes unnoticed;
- `unread_of_dead`: what a sweep takes for dead is not read;
- `counting`, `countingView`: a machine for numbers, and what its code can tell.
-/

namespace RouteSplit.Sweep

open Scope Binding

/-! ## Patterns -/

/-- The default of a part. -/
def fallbackOf (t : Tree) : Option Tree :=
  if t.label == .pattern .withDefault then t.children[1]? else none

/-- What a name is bound to. -/
inductive Taken (Key Value : Type) where
  | one (v : Value)
  /-- A new list of these values. -/
  | list (vs : List Value)
  /-- A new object with these entries. -/
  | entries (es : List (Key × Value))
deriving DecidableEq

/-- What it does to run the code of a module. What is told of a state comes with the state that it
leaves to have been asked. -/
structure Machine (Key Value State : Type) where
  /-- The value of an expression. -/
  eval : Tree → State → Value × State
  /-- What is there where no value is. -/
  undefined : Value
  /-- The key that is written down. -/
  plainKey : Tree → Key
  /-- The key that a value stands for. -/
  toKey : Value → State → Key × State
  /-- What is found under a key of an object: a property of its own, one that it inherits, or
  none. -/
  get : Value → Key → State → Value × State
  /-- The keys of an object's own properties. -/
  own : Value → State → List Key × State
  /-- The value of an object's own property, if there is one that can be enumerated. -/
  entry : Value → Key → State → Option Value × State
  /-- The state once the name that a place declares has a value. -/
  assign : Span → Taken Key Value → State → State

/-- What a default makes of a value: it is run where there is none. -/
def Machine.fill {Key Value State : Type} [DecidableEq Value] (m : Machine Key Value State)
    (fallback : Option Tree) (v : Value) (s : State) : Value × State :=
  match fallback with
  | some e => if v = m.undefined then m.eval e s else (v, s)
  | none => (v, s)

/-- The same outcome, in states that are related. -/
def Agree {α State : Type} (R : State → State → Prop) (x y : α × State) : Prop :=
  x.1 = y.1 ∧ R x.2 y.2

/-- What goes on from the same outcome, in states that are related, ends alike too. -/
theorem Agree.bind {α β State : Type} {R : State → State → Prop} {x y : α × State}
    {f : α → State → β × State} (h : Agree R x y)
    (hf : ∀ a {s s'}, R s s' → Agree R (f a s) (f a s')) : Agree R (f x.1 x.2) (f y.1 y.2) := by
  rw [h.1]
  exact hf _ h.2

theorem Agree.map {α β State : Type} {R : State → State → Prop} {x y : α × State} (f : α → β)
    (h : Agree R x y) : Agree R (f x.1, x.2) (f y.1, y.2) :=
  ⟨congrArg f h.1, h.2⟩

/-! ## Names, one after the other -/

/-- A name that a pattern binds, and how its value is found. -/
structure Slot (ρ : Type) where
  /-- The place of the name. -/
  site : Span
  reach : ρ

variable {ρ β State : Type}

/-- Finds what each slot takes, and assigns it to the slot's name before the next slot is looked
at. -/
def run (take : ρ → State → β × State) (assign : Span → β → State → State) :
    List (Slot ρ) → State → List (Span × β) × State
  | [], s => ([], s)
  | x :: xs, s =>
    let (v, s') := take x.reach s
    let (vs, s'') := run take assign xs (assign x.site v s')
    ((x.site, v) :: vs, s'')

section Run

variable {take : ρ → State → β × State} {assign : Span → β → State → State}

end Run

/-! ## What code can tell -/

/-- No code of a module reads the name that a place declares. -/
def Unread (root : Tree) (site : Span) : Prop :=
  ∃ symbol, (tableOf root).declared site = some symbol ∧
    ∀ r ∈ Binding.readsIn root, r.symbol ≠ symbol

/-- What the code of a module can tell of the state that it runs in. -/
structure View {Key Value : Type} (m : Machine Key Value State) (root : Tree) where
  /-- No code of the module tells the states apart. -/
  Alike : State → State → Prop
  equivalence : Equivalence Alike
  eval : ∀ {e s s'}, Inside e root → Alike s s' → Agree Alike (m.eval e s) (m.eval e s')
  toKey : ∀ v {s s'}, Alike s s' → Agree Alike (m.toKey v s) (m.toKey v s')
  get : ∀ v k {s s'}, Alike s s' → Agree Alike (m.get v k s) (m.get v k s')
  own : ∀ v {s s'}, Alike s s' → Agree Alike (m.own v s) (m.own v s')
  entry : ∀ v k {s s'}, Alike s s' → Agree Alike (m.entry v k s) (m.entry v k s')
  assign : ∀ site v {s s'}, Alike s s' → Alike (m.assign site v s) (m.assign site v s')
  /-- Names that are not read can have any value. -/
  unread : ∀ {site}, Unread root site → ∀ v s, Alike (m.assign site v s) s

section View

variable {Key Value : Type} [DecidableEq Value] {root : Tree} {m : Machine Key Value State}
  {s s' : State}

/-- States that are alike are filled alike, since a default is evaluated alike in them. -/
theorem View.fill (view : View m root) {fallback : Option Tree}
    (hinside : ∀ e ∈ fallback, Inside e root) (v : Value) (h : view.Alike s s') :
    Agree view.Alike (m.fill fallback v s) (m.fill fallback v s') := by
  cases fallback with
  | none => exact ⟨rfl, h⟩
  | some e =>
      simp only [Machine.fill]
      split_ifs
      · exact view.eval (hinside e rfl) h
      · exact ⟨rfl, h⟩

end View

/-! ## Dead names -/

section Pattern

variable {root t d : Tree} {targets : List (String × Span)}

end Pattern

/-! ## Counting -/

/-- Numbers, and objects that hold numbers. -/
inductive Datum where
  | missing
  | number (n : Nat)
  | object (entries : List (String × Nat))
deriving DecidableEq

/-- The number that an object holds under a key. -/
def Datum.find (d : Datum) (key : String) : Option Datum :=
  match d with
  | .object entries => (entries.lookup key).map .number
  | _ => none

def Datum.next : Datum → Datum
  | .number n => .number (n + 1)
  | _ => .missing

/-- The symbol that the read at a place means. -/
def symbolAt (root : Tree) (site : Span) : Option Symbol :=
  ((readsIn root).find? (·.site == site)).map (·.symbol)

/-- A machine for numbers and the names that hold them, which it can count up. -/
def counting (root : Tree) : Machine String Datum (Symbol → Datum) where
  eval e s :=
    match e.label with
    | .expression (.number text) => (.number (Number.Literal.natOf 10 text.toList), s)
    | .expression (.reference _ _) => (((symbolAt root e.span).map s).getD .missing, s)
    | .expression (.update "++" false) =>
      match symbolAt root (e.child 0).span with
      | some symbol => (s symbol, Function.update s symbol (s symbol).next)
      | none => (.missing, s)
    | _ => (.missing, s)
  undefined := .missing
  plainKey t :=
    match t.label with
    | .expression (.name text) => text
    | _ => ""
  toKey v s := (match v with | .number n => toString n | _ => "", s)
  get v k s := ((v.find k).getD .missing, s)
  own v s := (match v with | .object entries => entries.map (·.1) | _ => [], s)
  entry v k s := (v.find k, s)
  assign site v s :=
    match (tableOf root).declared site with
    | some symbol => Function.update s symbol (match v with | .one d => d | _ => .missing)
    | none => s

/-- States in which all names that a module reads have the same values. -/
def SameReads (root : Tree) (s s' : Symbol → Datum) : Prop :=
  ∀ r ∈ readsIn root, s r.symbol = s' r.symbol

/-- States that agree on what is read go on to do so when both store the same. -/
theorem SameReads.update {root : Tree} {s s' : Symbol → Datum} (h : SameReads root s s')
    (symbol : Symbol) (v : Datum) :
    SameReads root (Function.update s symbol v) (Function.update s' symbol v) := by
  intro r hr
  by_cases hsymbol : r.symbol = symbol
  · rw [hsymbol, Function.update_self, Function.update_self]
  · rw [Function.update_of_ne hsymbol, Function.update_of_ne hsymbol]
    exact h r hr

end RouteSplit.Sweep
