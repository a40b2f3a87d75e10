import RouteSplit.Tree.Label

/-!
# Trees

Every construct of a module is a node: a label, the source text it stands for, and its parts.

- `Tree`, `Forest`: a node, and the parts of one;
- `Tree.absent`: the part that is missing;
- `Tree.fold`: computing a value for a node from its own parts and their values.
-/

namespace RouteSplit

/-- A node with its label, its place in the source and its parts. -/
inductive Tree where
  | node (label : Label) (span : Span) (children : List Tree)
deriving Repr, Inhabited

/-- The parts of a node, in the order in which they are visited. -/
abbrev Forest := List Tree

namespace Tree

def label : Tree → Label
  | .node l _ _ => l

def span : Tree → Span
  | .node _ s _ => s

def children : Tree → Forest
  | .node _ _ cs => cs

@[simp] theorem label_node (l : Label) (s : Span) (cs : Forest) : (node l s cs).label = l := rfl

@[simp] theorem span_node (l : Label) (s : Span) (cs : Forest) : (node l s cs).span = s := rfl

@[simp] theorem children_node (l : Label) (s : Span) (cs : Forest) :
    (node l s cs).children = cs := rfl

/-- The optional part that is missing. -/
def absent : Tree := .node .absent .empty []

def isAbsent (t : Tree) : Bool := t.label == .absent

/-- The part at place `i`; a part that does not exist is missing. -/
def child (t : Tree) (i : Nat) : Tree := t.children[i]?.getD absent

mutual

def same : Tree → Tree → Bool
  | .node l s cs, .node l' s' cs' => decide (l = l') && decide (s = s') && sameAll cs cs'

def sameAll : List Tree → List Tree → Bool
  | [], [] => true
  | t :: ts, u :: us => same t u && sameAll ts us
  | _, _ => false

end

mutual

/-- The test for equal trees is right, so that trees can be compared in a computation. -/
theorem same_iff : (t u : Tree) → (same t u = true ↔ t = u)
  | .node l s cs, .node l' s' cs' => by
    simp [same, sameAll_iff cs cs', and_assoc]

theorem sameAll_iff : (ts us : List Tree) → (sameAll ts us = true ↔ ts = us)
  | [], [] => by simp [sameAll]
  | [], _ :: _ => by simp [sameAll]
  | _ :: _, [] => by simp [sameAll]
  | t :: ts, u :: us => by
    simp [sameAll, same_iff t u, sameAll_iff ts us]

end

instance : DecidableEq Tree := fun t u => decidable_of_iff _ (same_iff t u)

mutual

/-- The value of a node, computed by `step` from its parts paired with their values. -/
def fold {α : Type u} (step : Label → Span → List (Tree × α) → α) : Tree → α
  | .node l s cs => step l s (foldAll step cs)

def foldAll {α : Type u} (step : Label → Span → List (Tree × α) → α) : List Tree → List (Tree × α)
  | [] => []
  | t :: ts => (t, fold step t) :: foldAll step ts

end

end Tree

end RouteSplit
