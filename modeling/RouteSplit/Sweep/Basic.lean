import RouteSplit.Binding.Sites
import RouteSplit.Options.Basic
import RouteSplit.Sweep.Context
import RouteSplit.Sweep.Remove

/-!
# Sweeping

A sweep takes passes. Each looks at the tree as it is, takes note of the bindings that may go and
that nothing reads, and only then removes them; the one that finds none is the last.

- `seed`: the bindings that are read when a module is first seen;
- `deadBindings`: those that may go and that nothing reads any more;
- `sweep`: passes until nothing is left to remove.
-/

namespace RouteSplit.Sweep

/-! ## Seeding -/

/-- Adds every binding that something outside it reads. -/
def seed (root : Tree) (c : Context) : Except PassError Context := do
  let bindings ← Binding.collect root
  let reads := Binding.readsIn root
  return (bindings.filter (Binding.isReferenced reads)).foldl (fun c b => c.track b.site) c

/-! ## Passes -/

/-- The bindings that may go and that nothing outside them reads. -/
def deadBindings (root : Tree) (c : Context) : Except PassError (List Binding) := do
  let bindings ← Binding.collect root
  let reads := Binding.readsIn root
  return bindings.filter fun b => c.isTracked b.site && !Binding.isReferenced reads b

/-- What a number of passes leads to: the tree and the context as they are then, and how it
ended. -/
structure Outcome where
  root : Tree
  context : Context
  result : Except PassError Unit

def atLimit (maxPasses : Option Nat) (passes : Nat) : Option Nat :=
  maxPasses.filter (· ≤ passes)

def passes (maxPasses : Option Nat) : (budget : Nat) → Tree → Context → Outcome
  | 0, root, c => ⟨root, c, .ok ()⟩
  | budget + 1, root, c =>
    match atLimit maxPasses c.passes with
    | some limit => ⟨root, c, .error (.passLimitExceeded limit)⟩
    | none =>
      let c := { c with passes := c.passes + 1 }
      match deadBindings root c with
      | .error e => ⟨root, c, .error e⟩
      | .ok [] => ⟨root, c, .ok ()⟩
      | .ok dead =>
        let (root', lost) := removeIn dead root
        if lost.length == dead.length then
          passes maxPasses budget root' { c with removed := c.removed ++ lost }
        else
          ⟨root', c, .error (.inconsistency (toString dead.length ++
            " dead bindings selected but " ++ toString lost.length ++ " removed"))⟩

/-- More passes than a tree can keep busy: each but the last removes a name that statements go
by. -/
def budgetFor (root : Tree) : Nat := (Binding.sites root).length + 1

/-- Removes bindings until none is left that may go and that nothing reads. -/
def sweep (options : Options) (root : Tree) (c : Context) : Outcome :=
  passes options.maxPasses (budgetFor root) root c

end RouteSplit.Sweep
