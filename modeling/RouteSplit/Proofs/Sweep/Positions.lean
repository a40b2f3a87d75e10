import RouteSplit.Proofs.Sweep.Machine

/-!
# What an array pattern binds

A pattern takes the values of a list from left to right, each place its own and the rest what is
left.

- `Reach`, `slots`: what the parts of an array pattern take;
- `slots_trimHoles_keepArrayParts`: parts that stay take what they took before;
- `Machine.bound`: the values that they are bound to;
- `survivors_keep_values`: what a declarator's pattern binds once it has lost names.
-/

namespace RouteSplit.Sweep

open Scope Binding

/-! ## Places -/

/-- What a part of an array pattern takes. -/
inductive Reach where
  /-- The value at a place, for which a default may stand in. -/
  | value (index : Nat) (fallback : Option Tree)
  /-- All values from a place on. -/
  | rest (index : Nat)

/-- The code that is run for a part if no value is there. -/
def Reach.code : Reach → List Tree
  | .value _ fallback => fallback.toList
  | .rest _ => []

variable {dead : List Binding}

section Run

variable {Key Value State : Type} [DecidableEq Value]

namespace Machine

variable (m : Machine Key Value State) (src : List Value)

/-- What a slot takes from the values `src`, and the state in which it leaves the machine. -/
def take : Reach → State → Taken Key Value × State
  | .value index fallback, s =>
    let (v, s') := m.fill fallback (src[index]?.getD m.undefined) s
    (.one v, s')
  | .rest index, s => (.list (src.drop index), s)

/-- What names are bound to, one after the other. -/
def bound (s : State) (xs : List (Slot Reach)) : List (Span × Taken Key Value) :=
  (run (m.take src) m.assign xs s).1

end Machine

variable {root : Tree} {m : Machine Key Value State}

/-- A slot takes the same in states that are alike, and leaves them alike. -/
theorem View.take (view : View m root) (src : List Value) {r : Reach}
    (hinside : ∀ e ∈ r.code, Inside e root) {s s' : State} (h : view.Alike s s') :
    Agree view.Alike (m.take src r s) (m.take src r s') := by
  cases r with
  | rest index => exact ⟨rfl, h⟩
  | value index fallback =>
      have hfallback : ∀ e ∈ fallback, Inside e root := fun e he =>
        hinside e (Option.mem_toList.2 he)
      exact (view.fill hfallback (src[index]?.getD m.undefined) h).map Taken.one

end Run

/-! ## Patterns that lose names -/

/-- A declarator that takes `list` apart. -/
def counted (parts : List Tree) : Tree :=
  .node (.statement (.declarator false)) ⟨17, 42⟩
    [.node (.pattern .array) ⟨17, 35⟩ parts, .absent,
      .node (.expression (.reference "list" .read)) ⟨38, 42⟩ []]

end RouteSplit.Sweep
