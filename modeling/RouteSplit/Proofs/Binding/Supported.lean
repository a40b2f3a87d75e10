import RouteSplit.Proofs.Binding.Faults

/-!
# Trees whose targets are understood

Collecting fails only at a declarator whose target is not understood, and no removal makes one.

- `troubles`: the declarators of a statement that are not understood;
- `supported_iff_faults`, `collect_isOk_iff`: there are none where collecting finds no fault;
- `supported_prune`: a removal makes none.
-/

namespace RouteSplit.Binding

open Scope Sweep

/-! ## Declarators that are not understood -/

/-- Whether the target of a declarator is understood. -/
def understood (target : Tree) : Bool :=
  match declaratorTargets target with
  | .ok _ => true
  | .error _ => false

/-- The declarator itself, if its target is not understood. -/
def trouble (d : Tree) : List Span := if understood (d.child 0) then [] else [d.span]

/-- The declarators of a statement whose targets are not understood. -/
def troubles : Tree → List Span
  | .node (.statement (.variableList _ _)) _ ds => ds.flatMap trouble
  | _ => []

theorem troubles_eq_nil {t : Tree} (h : ∀ k b s ds, t ≠ .node (.statement (.variableList k b)) s ds) :
    troubles t = [] := by
  rw [troubles]
  exact h

abbrev troubleRule : Rule Span := listRule troubles

/-- All targets in the lists of a tree are understood. -/
def Supported (t : Tree) : Prop := gather troubleRule {} t = []

/-- Nothing is told of a tree if nothing is told of its own statements and of its parts that are
searched. -/
theorem gather_listRule_eq_nil_iff {α : Type} {f : Tree → List α} {l : Label} {s : Span}
    {ps : List Tree} :
    gather (listRule f) {} (.node l s ps) = [] ↔
      (l = .module .statements → ∀ c ∈ ps, f c = []) ∧
        ∀ c ∈ ps, searches l c.label = true → gather (listRule f) {} c = [] := by
  simp only [List.eq_nil_iff_forall_not_mem, mem_gather_listRule]
  constructor
  · intro h
    constructor
    · intro hl c hc x hx
      exact h x (Or.inl ⟨hl, c, hc, hx⟩)
    · intro c hc hsearched x hx
      exact h x (Or.inr ⟨c, hc, hsearched, hx⟩)
  · rintro ⟨hown, hinner⟩ x (⟨hl, c, hc, hx⟩ | ⟨c, hc, hsearched, hx⟩)
    · exact hown hl c hc x hx
    · exact hinner c hc hsearched x hx

/-- All targets of a tree are understood if those of its own statements and those of its parts that
are searched are. -/
theorem supported_node {l : Label} {s : Span} {ps : List Tree} :
    Supported (.node l s ps) ↔
      (l = .module .statements → ∀ c ∈ ps, troubles c = []) ∧
        ∀ c ∈ ps, searches l c.label = true → Supported c :=
  gather_listRule_eq_nil_iff

/-! ## Faults -/

/-- A target is understood if the names that it binds can be told. -/
theorem understood_iff {t : Tree} : understood t = true ↔ ∃ ts, declaratorTargets t = .ok ts := by
  unfold understood
  cases declaratorTargets t <;> simp

/-- A declarator is no trouble if its target has no fault. -/
theorem trouble_eq_nil_iff {d : Tree} : trouble d = [] ↔ targetFaults (d.child 0) = [] := by
  rw [← (reports_declaratorTargets (d.child 0)).isOk_iff, ← understood_iff, trouble]
  split_ifs with h <;> simp [h]

theorem troubles_eq_nil_iff {t : Tree} : troubles t = [] ↔ statementFaults t = [] := by
  by_cases hvariables : ∃ k b s ds, t = .node (.statement (.variableList k b)) s ds
  · obtain ⟨k, b, s, ds, rfl⟩ := hvariables
    rw [troubles, statementFaults, declaratorsOf, List.flatMap_eq_nil_iff, List.flatMap_eq_nil_iff]
    exact forall₂_congr fun d _ => trouble_eq_nil_iff
  · have hnone : ∀ k b s ds, t ≠ .node (.statement (.variableList k b)) s ds :=
      fun k b s ds heq => hvariables ⟨k, b, s, ds, heq⟩
    exact iff_of_true (troubles_eq_nil hnone) (statementFaults_eq_nil hnone)

/-- The targets of a tree are understood if it has no fault. -/
theorem supported_iff_faults {t : Tree} : Supported t ↔ faults t = [] := by
  induction t using Tree.induct with
  | node l s ps ih =>
      rw [supported_node, faults, gather_listRule_eq_nil_iff]
      refine and_congr (imp_congr_right fun _ => ?_) (forall₂_congr fun c hc => ?_)
      · exact forall₂_congr fun c _ => troubles_eq_nil_iff
      · exact imp_congr_right fun _ => ih c hc

/-- Collecting works where all targets are understood. -/
theorem collect_isOk_iff {root : Tree} : (∃ bs, collect root = .ok bs) ↔ Supported root := by
  rw [supported_iff_faults]
  exact (reports_collect root).isOk_iff

/-! ## Removals -/

variable {dead : List Binding}

/-- A list is worked through if and only if each of its items is. -/
theorem mapM_isOk_iff {α β ε : Type} {f : α → Except ε β} {ps : List α} :
    (∃ ts, ps.mapM f = .ok ts) ↔ ∀ p ∈ ps, ∃ t, f p = .ok t := by
  induction ps with
  | nil => simp [pure, Except.pure]
  | cons p ps ih =>
      simp only [mapM_cons_eq_ok, List.forall_mem_cons, ← ih]
      constructor
      · rintro ⟨ts, t, ts', hp, hps, -⟩
        exact ⟨⟨t, hp⟩, ts', hps⟩
      · rintro ⟨⟨t, hp⟩, ts, hps⟩
        exact ⟨t :: ts, t, ts, hp, hps, rfl⟩

/-- Whether a target is understood does not depend on what is pruned inside it. -/
theorem understood_prune {t : Tree} (ht : t.inShape = true) :
    understood (prune dead t) = understood t := by
  rw [understood, understood, declaratorTargets_prune ht]

/-- What is left of a target is understood if the target was. -/
theorem understood_keptTarget {t u : Tree} (h : keptTarget dead t = some u)
    (ht : understood t = true) : understood u = true := by
  rw [understood_iff] at ht ⊢
  rcases keptTarget_cases h with ⟨rfl, -⟩ | ⟨s, ps, rfl, rfl⟩ | ⟨s, ps, rfl, rfl⟩
  · exact ht
  · rw [declaratorTargets, mapM_isOk_iff] at ht ⊢
    exact fun c hc => ht c (List.mem_of_mem_filter hc)
  · rw [declaratorTargets, mapM_isOk_iff] at ht ⊢
    rw [keepArrayParts_places]
    exact fun c hc => ht c (List.mem_of_mem_filter hc)

/-- What is left of a declarator is no trouble that the declarator was not. -/
theorem trouble_sheds_kept (d : Tree) :
    Sheds (fun _ => True) (trouble d) ((keptDeclarator dead d).toList.flatMap trouble) := by
  cases h : keptDeclarator dead d with
  | none => exact ⟨trouble d, fun _ _ => trivial, List.Perm.refl _⟩
  | some d' =>
      rw [Option.toList_some, List.flatMap_singleton]
      rcases keptDeclarator_cases h with rfl | ⟨l, s, target, target', rest, rfl, htarget, rfl⟩
      · exact Sheds.refl _
      · have hchild : (Tree.node l s (target :: rest)).child 0 = target := rfl
        have hchild' : (Tree.node l s (target' :: rest)).child 0 = target' := rfl
        rw [trouble, trouble, hchild, hchild', Tree.span_node, Tree.span_node]
        by_cases hu : understood target = true
        · rw [if_pos hu, if_pos (understood_keptTarget htarget hu)]
          exact Sheds.refl _
        · rw [if_neg hu]
          split_ifs
          · exact ⟨[s], fun _ _ => trivial, List.Perm.refl _⟩
          · exact Sheds.refl _

theorem troubles_prune {t : Tree} (ht : t.inShape = true) :
    troubles (prune dead t) = troubles t := by
  by_cases hvariables : ∃ k b s ds, t = .node (.statement (.variableList k b)) s ds
  · obtain ⟨k, b, s, ds, rfl⟩ := hvariables
    have hparts := fun c hc => Tree.inShape_part ht rfl (c := c) hc
    rw [prune_of_plain dead (by simp), troubles, troubles, List.flatMap_map]
    apply List.flatMap_congr
    intro d hd
    rw [trouble, trouble, child_prune dead (hparts d hd).2, prune_span,
      apply_prunePart dead (understood_prune (Tree.inShape_child (hparts d hd).1 0))]
  · rw [troubles_eq_nil, troubles_eq_nil]
    · exact fun k b s ds heq => hvariables ⟨k, b, s, ds, heq⟩
    · intro k b
      exact prune_ne_node dead (by simp) fun s ps heq => hvariables ⟨k, b, s, ps, heq⟩

/-- A removal makes no trouble. -/
theorem cuttable_troubleRule : Cuttable dead troubleRule fun _ => True := by
  refine cuttable_listRule (fun c hc => troubles_prune hc) fun t => ?_
  by_cases hvariables : ∃ k b s ds, t = .node (.statement (.variableList k b)) s ds
  · obtain ⟨k, b, s, ds, rfl⟩ := hvariables
    cases h : kept dead (.node (.statement (.variableList k b)) s ds) with
    | none => exact ⟨ds.flatMap trouble, fun _ _ => trivial, List.Perm.refl _⟩
    | some u =>
        obtain rfl := eq_of_kept_variables h
        rw [Option.toList_some, List.flatMap_singleton, troubles, troubles, flatMap_filterMap_eq]
        exact Sheds.flatMap fun d _ => trouble_sheds_kept d
  · have hnone : (kept dead t).toList.flatMap troubles = [] := by
      refine List.flatMap_eq_nil_iff.2 fun u hu => troubles_eq_nil fun k b s ds heq => ?_
      obtain ⟨l, s', ps⟩ := t
      have hlabel := kept_label (Option.mem_toList.1 hu)
      rw [heq] at hlabel
      obtain rfl : _ = l := hlabel
      exact hvariables ⟨k, b, s', ps, rfl⟩
    rw [hnone, troubles_eq_nil fun k b s ds heq => hvariables ⟨k, b, s, ds, heq⟩]
    exact Sheds.refl _

/-- A removal leaves all targets understood. -/
theorem supported_prune {t : Tree} (ht : t.inShape = true) (h : Supported t) :
    Supported (prune dead t) := by
  have hsub := gather_prune_subset (cuttable_troubleRule : Cuttable dead _ _) (a := {}) rfl ht
  rw [Supported] at h
  rw [h] at hsub
  exact List.subset_nil.1 hsub

end RouteSplit.Binding
