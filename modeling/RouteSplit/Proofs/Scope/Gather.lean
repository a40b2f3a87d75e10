import Mathlib.Data.List.Flatten
import Mathlib.Data.List.Lattice
import Mathlib.Data.List.Nodup
import Mathlib.Data.List.Pairwise
import RouteSplit.Scope.Reads

/-!
# Gathering over a tree

What a tree declares, mentions or opens is told node by node, each node knowing what it stands in.

- `Tree.induct`: induction over a node and its parts;
- `Rule`, `gather`: what a rule tells of every node of a tree, in the order of the tree;
- `mem_gather_node`: where an item of a tree comes from;
- `PartOf`: a node inside a tree, each with what it stands in;
- `disjoint_flatMap`: what is gone from lists that have nothing in common.
-/

namespace RouteSplit

namespace Tree

/-- Induction over a tree, with a hypothesis for each part of a node. -/
theorem induct {P : Tree → Prop}
    (node : ∀ l s ps, (∀ c ∈ ps, P c) → P (.node l s ps)) : ∀ t, P t
  | .node l s ps => node l s ps fun c _ => induct node c
termination_by t => sizeOf t
decreasing_by
  have h := List.sizeOf_lt_of_mem ‹c ∈ ps›
  simp only [Tree.node.sizeOf_spec]
  omega

end Tree

namespace Scope

variable {α β : Type}

/-! ## Rules -/

/-- What is told of a node that stands in `around`. -/
abbrev Rule (α : Type) := Around → Label → Span → List Tree → List α

mutual

/-- What `rule` tells of the nodes of a tree, in the order of the tree. -/
def gather (rule : Rule α) (around : Around) : Tree → List α
  | .node label span parts =>
    rule around label span parts ++ gatherAll rule (around.inside label span parts) 0 parts

/-- What `rule` tells of the parts of a node, the one at place `i` in what `around i` says. -/
def gatherAll (rule : Rule α) (around : Nat → Around) (i : Nat) : List Tree → List α
  | [] => []
  | t :: ts => gather rule (around i) t ++ gatherAll rule around (i + 1) ts

end

theorem gatherAll_eq_flatMap (rule : Rule α) (a : Nat → Around) (i : Nat) (ps : List Tree) :
    gatherAll rule a i ps = (ps.zipIdx i).flatMap fun x => gather rule (a x.2) x.1 := by
  induction ps generalizing i with
  | nil => rfl
  | cons t ts ih => simp [gatherAll, List.zipIdx_cons, ih]

/-- What is told of a tree: what is told of its node, and then what is told of its parts. -/
theorem gather_node (rule : Rule α) (a : Around) (l : Label) (s : Span) (ps : List Tree) :
    gather rule a (.node l s ps) =
      rule a l s ps ++ ps.zipIdx.flatMap fun x => gather rule (a.inside l s ps x.2) x.1 := by
  rw [gather, gatherAll_eq_flatMap]

/-- An item of a tree is told of its node, or comes from one of the parts. -/
theorem mem_gather_node {rule : Rule α} {a : Around} {l : Label} {s : Span} {ps : List Tree}
    {x : α} :
    x ∈ gather rule a (.node l s ps) ↔
      x ∈ rule a l s ps ∨ ∃ i c, ps[i]? = some c ∧ x ∈ gather rule (a.inside l s ps i) c := by
  simp only [gather_node, List.mem_append, List.mem_flatMap, List.mem_zipIdx_iff_getElem?,
    Prod.exists]
  constructor
  · rintro (h | ⟨c, i, hc, hx⟩)
    · exact Or.inl h
    · exact Or.inr ⟨i, c, hc, hx⟩
  · rintro (h | ⟨i, c, hc, hx⟩)
    · exact Or.inl h
    · exact Or.inr ⟨c, i, hc, hx⟩

/-- What is told of a part is told of the whole. -/
theorem gather_child_subset {rule : Rule α} {a : Around} {l : Label} {s : Span} {ps : List Tree}
    {i : Nat} {c : Tree} (hc : ps[i]? = some c) :
    gather rule (a.inside l s ps i) c ⊆ gather rule a (.node l s ps) := by
  intro x hx
  exact mem_gather_node.2 (Or.inr ⟨i, c, hc, hx⟩)

/-- A node with what it stands in, found inside a tree with what that stands in. -/
inductive PartOf (b : Around) (x : Tree) : Around → Tree → Prop
  | refl : PartOf b x b x
  | child {a : Around} {l : Label} {s : Span} {ps : List Tree} {i : Nat} {c : Tree} :
      ps[i]? = some c → PartOf b x (a.inside l s ps i) c → PartOf b x a (.node l s ps)

/-- What is told of a node inside a tree is told of the tree. -/
theorem PartOf.gather_subset {b a : Around} {x t : Tree} (h : PartOf b x a t) (rule : Rule α) :
    gather rule b x ⊆ gather rule a t := by
  induction h with
  | refl => exact List.Subset.refl _
  | child hc _ ih => exact List.Subset.trans ih (gather_child_subset hc)

theorem PartOf.trans {d b a : Around} {y x t : Tree} (hyx : PartOf d y b x)
    (hxt : PartOf b x a t) : PartOf d y a t := by
  induction hxt with
  | refl => exact hyx
  | child hc _ ih => exact .child hc ih

/-- Where all parts of a node stand in the same, their places do not matter. -/
theorem gather_node_of_const {rule : Rule α} {a b : Around} {l : Label} {s : Span}
    {ps : List Tree} (h : ∀ i, a.inside l s ps i = b) :
    gather rule a (.node l s ps) = rule a l s ps ++ ps.flatMap (gather rule b) := by
  rw [gather_node]
  simp only [h]
  rw [← List.flatMap_map, List.zipIdx_map_fst]

/-- A rule that does not ask what a node stands in tells the same of a tree everywhere. -/
theorem gather_congr_around {rule : Rule α}
    (h : ∀ a b l s ps, rule a l s ps = rule b l s ps) (a b : Around) (t : Tree) :
    gather rule a t = gather rule b t := by
  induction t using Tree.induct generalizing a b with
  | node l s ps ih =>
      rw [gather_node, gather_node, h a b]
      congr 1
      apply List.flatMap_congr
      intro x hx
      exact ih x.1 (List.mem_of_getElem? (List.mem_zipIdx_iff_getElem?.1 hx)) _ _

/-- A part is searched if the whole is, unless the whole keeps the search out of it. -/
theorem inside_searched {a : Around} {l : Label} {s : Span} {ps : List Tree} {i : Nat} {c : Tree}
    (hc : ps[i]? = some c) :
    (a.inside l s ps i).searched = (a.searched && searches l c.label) := by
  simp [Around.inside, hc]

/-- A rule that asks of what a node stands in only whether it is searched. -/
theorem gather_congr_searched {rule : Rule α}
    (h : ∀ a b l s ps, a.searched = b.searched → rule a l s ps = rule b l s ps) {a b : Around}
    (hab : a.searched = b.searched) (t : Tree) : gather rule a t = gather rule b t := by
  induction t using Tree.induct generalizing a b with
  | node l s ps ih =>
      rw [gather_node, gather_node, h a b l s ps hab]
      congr 1
      apply List.flatMap_congr
      intro x hx
      refine ih x.1 (List.mem_of_getElem? (List.mem_zipIdx_iff_getElem?.1 hx)) ?_
      simp only [Around.inside, hab]

/-- A rule that tells nothing of what is not searched. -/
theorem gather_eq_nil_of_unsearched {rule : Rule α}
    (h : ∀ a l s ps, a.searched = false → rule a l s ps = []) {a : Around}
    (ha : a.searched = false) (t : Tree) : gather rule a t = [] := by
  induction t using Tree.induct generalizing a with
  | node l s ps ih =>
      rw [gather_node, h a l s ps ha, List.nil_append, List.flatMap_eq_nil_iff]
      intro x hx
      refine ih x.1 (List.mem_of_getElem? (List.mem_zipIdx_iff_getElem?.1 hx)) ?_
      simp only [Around.inside, ha, Bool.false_and]

/-- Where a rule tells something only of what is searched, all that it tells stands there. -/
theorem searched_of_mem_gather {rule : Rule α} {x : α} {P : Prop}
    (h : ∀ a l s ps, x ∈ rule a l s ps → a.searched = true ∧ P) {a : Around} {t : Tree}
    (hx : x ∈ gather rule a t) : a.searched = true ∧ P := by
  induction t using Tree.induct generalizing a with
  | node l s ps ih =>
      rcases mem_gather_node.1 hx with hx | ⟨i, c, hc, hx⟩
      · exact h a l s ps hx
      · obtain ⟨hinside, hP⟩ := ih c (List.mem_of_getElem? hc) hx
        rw [inside_searched hc] at hinside
        exact ⟨(Bool.and_eq_true_iff.1 hinside).1, hP⟩

/-- If a rule tells no more than another one of each node, it tells no more of a tree. -/
theorem map_gather_sublist {rule : Rule α} {rule' : Rule β} (f : α → β)
    (h : ∀ a l s ps, ((rule a l s ps).map f).Sublist (rule' a l s ps)) (a : Around) (t : Tree) :
    ((gather rule a t).map f).Sublist (gather rule' a t) := by
  induction t using Tree.induct generalizing a with
  | node l s ps ih =>
      rw [gather_node, gather_node, List.map_append, List.map_flatMap]
      refine (h a l s ps).append (List.Sublist.flatMap_right _ ?_)
      intro x hx
      exact ih x.1 (List.mem_of_getElem? (List.mem_zipIdx_iff_getElem?.1 hx)) _

/-- What is made of each item that a rule tells can be made of all items of a tree. -/
theorem gather_flatMap (rule : Rule α) (f : α → List β) (a : Around) (t : Tree) :
    gather (fun a l s ps => (rule a l s ps).flatMap f) a t = (gather rule a t).flatMap f := by
  induction t using Tree.induct generalizing a with
  | node l s ps ih =>
      rw [gather_node, gather_node, List.flatMap_append, List.flatMap_assoc]
      congr 1
      apply List.flatMap_congr
      intro x hx
      exact ih x.1 (List.mem_of_getElem? (List.mem_zipIdx_iff_getElem?.1 hx)) _

/-! ## Declarations as a rule -/

/-- The declarations that a node makes, around itself and in the scopes that it opens. -/
def declarationRule : Rule Declaration := fun a l s ps => placed a l s ps ++ introduced l s ps

mutual

theorem declarations_eq_gather (a : Around) :
    (t : Tree) → declarations a t = gather declarationRule a t
  | .node l s ps => by
    rw [declarations, gather, declarationsAll_eq_gatherAll _ 0 ps]
    rfl

theorem declarationsAll_eq_gatherAll (a : Nat → Around) (i : Nat) :
    (ps : List Tree) → declarationsAll a i ps = gatherAll declarationRule a i ps
  | [] => rfl
  | t :: ts => by
    rw [declarationsAll, gatherAll, declarations_eq_gather _ t,
      declarationsAll_eq_gatherAll a (i + 1) ts]

end

end Scope

/-! ## Lists -/

section Lists

variable {α β : Type}

theorem flatMap_filterMap_eq (keep : α → Option α) (g : α → List β) (items : List α) :
    (items.filterMap keep).flatMap g = items.flatMap fun c => (keep c).toList.flatMap g := by
  rw [List.filterMap_eq_flatMap_toList, List.flatMap_assoc]

/-- Let a list of items give lists that have nothing in common, and let each item give less than it
gave. Whatever one item no longer gives is then given by none of them. -/
theorem disjoint_flatMap {items : List α} {g h : α → List β} {x : α} {lost : List β}
    (hless : ∀ y ∈ items, h y ⊆ g y) (hnodup : (items.flatMap g).Nodup) (hx : x ∈ items)
    (hlost : lost ⊆ g x) (hgone : List.Disjoint (h x) lost) :
    List.Disjoint (items.flatMap h) lost := by
  intro b hb hb'
  obtain ⟨y, hy, hby⟩ := List.mem_flatMap.1 hb
  by_cases hyx : y = x
  · subst hyx
    exact hgone hby hb'
  · have hpair := (List.nodup_flatMap.1 hnodup).2
    have hsymm : Std.Symm (Function.onFun List.Disjoint g) := ⟨fun _ _ h => List.Disjoint.symm h⟩
    have hdisj : List.Disjoint (g y) (g x) := hpair.forall hy hx hyx
    exact hdisj (hless y hy hby) (hlost hb')

/-- A list is worked through if its first item and the others are. -/
theorem mapM_cons_eq_ok {ε : Type} {f : α → Except ε β} {p : α} {ps : List α} {ts : List β} :
    (p :: ps).mapM f = .ok ts ↔ ∃ t ts', f p = .ok t ∧ ps.mapM f = .ok ts' ∧ ts = t :: ts' := by
  rw [List.mapM_cons]
  cases f p <;> cases ps.mapM f <;> simp [bind, Except.bind, pure, Except.pure, eq_comm]

end Lists

end RouteSplit
