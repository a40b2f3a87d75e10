import Mathlib.Logic.Relation
import RouteSplit.Tree.Wrapper

/-!
# Expressions in wrappers

An expression may stand in any number of wrappers. Here they are put around the values that
declarators and assignments give, anywhere in a tree, one at a time.

- `Wrapper`, `nest`: a wrapper, and an expression in a nest of them;
- `peel_nest`: peeling takes a nest away;
- `Wraps`: two trees that differ in one wrapper around a value that is given somewhere;
- `Wrapped`, `wrapped_initializer`, `wrapped_assigned`: any number of wrappers, so any nests.
-/

namespace RouteSplit.Tree

/-! ## Wrappers -/

/-- What can stand around an expression and leave its value alone: `(e)`, `e as T`, `e satisfies T`,
`e!` and `<T>e`. -/
inductive Wrapper where
  | paren (span : Span)
  | asType (span : Span) (type : Tree)
  | satisfiesType (span : Span) (type : Tree)
  | nonNull (span : Span)
  | typeAssertion (span : Span) (type : Tree)
deriving DecidableEq, Repr

namespace Wrapper

def form : Wrapper → ExpressionForm
  | paren _ => .paren
  | asType _ _ => .asType
  | satisfiesType _ _ => .satisfiesType
  | nonNull _ => .nonNull
  | typeAssertion _ _ => .typeAssertion

def span : Wrapper → Span
  | paren s | asType s _ | satisfiesType s _ | nonNull s | typeAssertion s _ => s

/-- The types that are written before the expression. -/
def before : Wrapper → List Tree
  | typeAssertion _ type => [type]
  | _ => []

/-- The types that are written behind it. -/
def after : Wrapper → List Tree
  | asType _ type | satisfiesType _ type => [type]
  | _ => []

/-- The types that the wrapper names. -/
def types (w : Wrapper) : List Tree := w.before ++ w.after

/-- The wrapper around an expression. -/
def around (w : Wrapper) (e : Tree) : Tree :=
  .node (.expression w.form) w.span (w.before ++ e :: w.after)

end Wrapper

/-- An expression in a nest of wrappers, the outermost first. -/
def nest (ws : List Wrapper) (e : Tree) : Tree := ws.foldr Wrapper.around e

/-! ## Peeling -/

/-- A wrapper is peeled off. -/
@[simp]
theorem peel_around (w : Wrapper) (e : Tree) : (w.around e).peel = e.peel := by
  cases w <;> rfl

/-- A wrapped function is a function. -/
@[simp]
theorem isFunctionLike_around (w : Wrapper) (e : Tree) :
    (w.around e).isFunctionLike = e.isFunctionLike := by
  rw [isFunctionLike, peel_around, isFunctionLike]

/-- What is inside a nest is peeled as if it stood alone. -/
theorem peel_nest (ws : List Wrapper) (e : Tree) : (nest ws e).peel = e.peel := by
  induction ws with
  | nil => rfl
  | cons w ws ih => exact (peel_around w _).trans ih

/-! ## Values that are given -/

/-- Whether a node is an expression. -/
def isExpression : Label → Bool
  | .expression .hole | .expression (.spread _) | .expression (.property _ _ _ _)
  | .expression .shorthandDefault | .expression (.name _) | .expression (.privateName _)
  | .expression .arguments => false
  | .expression _ | .function (.function .value _ _) | .function (.arrow _)
  | .classes (.definition .value _ _) | .jsx .element | .jsx .fragment => true
  | _ => false

theorem isExpression_around (w : Wrapper) (e : Tree) : isExpression (w.around e).label = true := by
  cases w <;> rfl

/-- Whether a construct gives its target a value: declarators and assignments do. -/
def givesTarget : Label → Bool
  | .statement (.declarator _) | .expression (.assign _) => true
  | _ => false

theorem givesTarget_cases {l : Label} (h : givesTarget l = true) :
    (∃ definite, l = .statement (.declarator definite)) ∨ ∃ op, l = .expression (.assign op) := by
  unfold givesTarget at h
  split at h
  · exact Or.inl ⟨_, rfl⟩
  · exact Or.inr ⟨_, rfl⟩
  · simp at h

/-- Whether a construct has names listed at place `i`: type parameters, parameters, the specifiers
of an import, and the properties of a pattern. -/
def listsNames : Label → Nat → Bool
  | .function (.function _ _ _), i | .type (.method _ _ _), i => i == 1 || i == 2
  | .function (.arrow _), i | .type .function, i | .type (.constructor _), i
  | .type .callSignature, i | .type .constructSignature, i => i == 0 || i == 1
  | .classes (.definition _ _ _), i => i == 2
  | .type (.interface _), i | .type (.alias _), i => i == 1
  | .module (.importDeclaration _ _), i => i == 0
  | .pattern .object, _ => true
  | _, _ => false

/-- The second tree is the first with one wrapper more, around the initializer of a declarator or
the right-hand side of an assignment. Neither stands where names are listed. -/
inductive Wraps (w : Wrapper) : Tree → Tree → Prop
  | initializer {definite : Bool} {s : Span} {target type e : Tree} :
      isExpression e.label = true →
      Wraps w (.node (.statement (.declarator definite)) s [target, type, e])
        (.node (.statement (.declarator definite)) s [target, type, w.around e])
  | assigned {op : String} {s : Span} {target e : Tree} :
      isExpression e.label = true →
      Wraps w (.node (.expression (.assign op)) s [target, e])
        (.node (.expression (.assign op)) s [target, w.around e])
  | inside {l : Label} {s : Span} {xs ys : List Tree} {c c' : Tree} :
      (listsNames l xs.length = true → givesTarget c.label = false) → Wraps w c c' →
      Wraps w (.node l s (xs ++ c :: ys)) (.node l s (xs ++ c' :: ys))

theorem Wraps.label_eq {w : Wrapper} {t u : Tree} (h : Wraps w t u) : u.label = t.label := by
  cases h <;> rfl

/-! ## Any number of wrappers -/

/-- The second tree is the first with any number of wrappers more, whose types are all as `P`
says. -/
def Wrapped (P : Tree → Prop) : Tree → Tree → Prop :=
  Relation.ReflTransGen fun t u => ∃ w : Wrapper, (∀ type ∈ w.types, P type) ∧ Wraps w t u

variable {P : Tree → Prop}

/-- What is wrapped in a part is wrapped in the whole, unless the part is a target. -/
theorem Wrapped.inside {l : Label} {s : Span} (xs ys : List Tree) {c c' : Tree}
    (hplace : listsNames l xs.length = true → givesTarget c.label = false) (h : Wrapped P c c') :
    Wrapped P (.node l s (xs ++ c :: ys)) (.node l s (xs ++ c' :: ys)) := by
  have hlabel : ∀ {d}, Wrapped P c d → d.label = c.label := by
    intro d hd
    induction hd with
    | refl => rfl
    | tail _ hstep ih =>
        obtain ⟨w, -, hwraps⟩ := hstep
        exact hwraps.label_eq.trans ih
  induction h with
  | refl => exact .refl
  | tail h hstep ih =>
      obtain ⟨w, htypes, hwraps⟩ := hstep
      refine ih.tail ⟨w, htypes, .inside (fun hl => ?_) hwraps⟩
      rw [hlabel h]
      exact hplace hl

theorem isExpression_nest {e : Tree} (he : isExpression e.label = true) (ws : List Wrapper) :
    isExpression (nest ws e).label = true := by
  cases ws with
  | nil => exact he
  | cons w ws => exact isExpression_around w _

/-- A nest comes around an initializer wrapper by wrapper. -/
theorem wrapped_initializer {e : Tree} (he : isExpression e.label = true) {ws : List Wrapper}
    (hws : ∀ w ∈ ws, ∀ type ∈ w.types, P type) (definite : Bool) (s : Span) (target type : Tree) :
    Wrapped P (.node (.statement (.declarator definite)) s [target, type, e])
      (.node (.statement (.declarator definite)) s [target, type, nest ws e]) := by
  induction ws with
  | nil => exact .refl
  | cons w ws ih =>
      have hinner := ih fun v hv => hws v (List.mem_cons_of_mem _ hv)
      exact hinner.tail ⟨w, hws w List.mem_cons_self, .initializer (isExpression_nest he ws)⟩

/-- A nest comes around a right-hand side wrapper by wrapper. -/
theorem wrapped_assigned {e : Tree} (he : isExpression e.label = true) {ws : List Wrapper}
    (hws : ∀ w ∈ ws, ∀ type ∈ w.types, P type) (op : String) (s : Span) (target : Tree) :
    Wrapped P (.node (.expression (.assign op)) s [target, e])
      (.node (.expression (.assign op)) s [target, nest ws e]) := by
  induction ws with
  | nil => exact .refl
  | cons w ws ih =>
      have hinner := ih fun v hv => hws v (List.mem_cons_of_mem _ hv)
      exact hinner.tail ⟨w, hws w List.mem_cons_self, .assigned (isExpression_nest he ws)⟩

end RouteSplit.Tree
