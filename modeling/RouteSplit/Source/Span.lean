/-!
# Source spans

A position in a module is a byte offset into the UTF-8 encoding of its text.

- `Span`: a half-open range of positions;
- `Span.encloses`: one range lies within another;
- `byteLength`: the number of bytes that a list of characters takes.
-/

namespace RouteSplit

/-- The byte range from `start` up to, not including, `stop`. -/
structure Span where
  start : Nat
  stop : Nat
deriving DecidableEq, Repr, Inhabited

namespace Span

/-- The range of a node that no source text stands for. -/
def empty : Span := ⟨0, 0⟩

/-- `outer.encloses inner` holds when `inner` neither begins before nor ends after `outer`. -/
def encloses (outer inner : Span) : Bool :=
  decide (outer.start ≤ inner.start) && decide (inner.stop ≤ outer.stop)

/-- Spans in order of their start, and of their end where they start together. -/
def before (a b : Span) : Bool :=
  a.start < b.start || (a.start == b.start && a.stop ≤ b.stop)

@[simp] theorem encloses_iff (outer inner : Span) :
    outer.encloses inner = true ↔ outer.start ≤ inner.start ∧ inner.stop ≤ outer.stop := by
  simp [encloses]

end Span

def byteLength : List Char → Nat
  | [] => 0
  | c :: rest => c.utf8Size + byteLength rest

end RouteSplit
