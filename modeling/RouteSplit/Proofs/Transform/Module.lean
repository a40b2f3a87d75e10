import RouteSplit.Proofs.Export.Stable
import RouteSplit.Proofs.Sweep.Run

/-!
# Modules through a transform

- `IsModule`: the tree of a module, its statements in a list of their own;
- `supported_withStatements`, `inShape_withStatements`: a module with other statements;
- `Settled`: a statement that the bundle keeps as it is;
- `settled_reaches`, `names_reaches`: passes leave such statements and the exported names.
-/

namespace RouteSplit.Module

open Scope Sweep Export

/-! ## The statements of a module -/

/-- The tree of a module: what stands first, and the list of its statements. -/
def IsModule (root : Tree) : Prop :=
  ∃ line strict s prologue inner ss, root =
    .node (.module (.program line strict)) s [prologue, .node (.module .statements) inner ss]

theorem statementsOf_withStatements {root : Tree} (h : IsModule root) (ss : List Tree) :
    statementsOf (withStatements root ss) = ss := by
  obtain ⟨_, _, _, _, _, _, rfl⟩ := h
  rfl

theorem withStatements_statementsOf {root : Tree} (h : IsModule root) :
    withStatements root (statementsOf root) = root := by
  obtain ⟨_, _, _, _, _, _, rfl⟩ := h
  rfl

theorem isModule_withStatements {root : Tree} (h : IsModule root) (ss : List Tree) :
    IsModule (withStatements root ss) := by
  obtain ⟨line, strict, s, prologue, inner, _, rfl⟩ := h
  exact ⟨line, strict, s, prologue, inner, ss, rfl⟩

/-- A removal leaves a module a module. -/
theorem isModule_prune {root : Tree} (h : IsModule root) (dead : List Binding) :
    IsModule (prune dead root) := by
  obtain ⟨line, strict, s, prologue, inner, ss, rfl⟩ := h
  refine ⟨line, strict, s, prune dead prologue, inner, (ss.map (prune dead)).filterMap (kept dead), ?_⟩
  rw [prune_of_plain dead (by simp), List.map_cons, List.map_cons, List.map_nil, prune_statements]

/-- A removal prunes the statements of a module inside, and then takes some of them. -/
theorem statementsOf_prune {root : Tree} (h : IsModule root) (dead : List Binding) :
    statementsOf (prune dead root) = ((statementsOf root).map (prune dead)).filterMap (kept dead) := by
  obtain ⟨line, strict, s, prologue, inner, ss, rfl⟩ := h
  rw [prune_of_plain dead (by simp), List.map_cons, List.map_cons, prune_statements]
  rfl

/-- The statements of a module in shape are in shape. -/
theorem inShape_statement {root : Tree} (h : IsModule root) (hshape : root.inShape = true) {t : Tree}
    (ht : t ∈ statementsOf root) : t.inShape = true := by
  obtain ⟨line, strict, s, prologue, inner, ss, rfl⟩ := h
  have hlist := (Tree.inShape_node.1 hshape).2 (.node (.module .statements) inner ss) (by simp)
  exact (Tree.inShape_node.1 hlist).2 t ht

/-- A module is in shape with other statements that are, each of a kind that it has already. -/
theorem inShape_withStatements {root : Tree} (h : IsModule root) (hshape : root.inShape = true)
    {ss : List Tree} (hss : ∀ t ∈ ss, t.inShape = true ∧ ∃ u ∈ statementsOf root, t.label = u.label) :
    (withStatements root ss).inShape = true := by
  obtain ⟨line, strict, s, prologue, inner, old, rfl⟩ := h
  obtain ⟨hfits, hparts⟩ := Tree.inShape_node.1 hshape
  have hlist := hparts (.node (.module .statements) inner old) (by simp)
  refine Tree.inShape_node.2 ⟨Tree.fits_of_labels hfits (by simp), ?_⟩
  simp only [List.forall_mem_cons] at hparts ⊢
  refine ⟨hparts.1, Tree.inShape_node.2 ⟨?_, fun t ht => (hss t ht).1⟩, hparts.2.2⟩
  exact Tree.fits_of_labels (Tree.inShape_node.1 hlist).1 fun t ht => (hss t ht).2

/-- All targets of a statement are understood. -/
def Understood (t : Tree) : Prop :=
  Binding.troubles t = [] ∧ gather Binding.troubleRule {} t = []

/-- A module is understood if its prologue has no trouble and its statements are understood. -/
theorem supported_iff {line : Option String} {strict : Bool} {s inner : Span} {prologue : Tree}
    {ss : List Tree} :
    Binding.Supported (.node (.module (.program line strict)) s
      [prologue, .node (.module .statements) inner ss]) ↔
      gather Binding.troubleRule {} prologue = [] ∧ ∀ t ∈ ss, Understood t := by
  have hlist : Binding.Supported (.node (.module .statements) inner ss) ↔
      ∀ t ∈ ss, Understood t := by
    rw [Binding.supported_node]
    simp [Understood, Binding.Supported, ← forall₂_and]
  rw [Binding.supported_node]
  simp only [List.forall_mem_cons, hlist]
  simp [Binding.Supported]

/-- The statements of a module that is understood are understood. -/
theorem understood_of_supported {root : Tree} (h : IsModule root) (hroot : Binding.Supported root)
    {t : Tree} (ht : t ∈ statementsOf root) : Understood t := by
  obtain ⟨line, strict, s, prologue, inner, ss, rfl⟩ := h
  exact (supported_iff.1 hroot).2 t ht

/-- A module is supported with other statements that are understood. -/
theorem supported_withStatements {root : Tree} (h : IsModule root) (hroot : Binding.Supported root)
    {ss : List Tree} (hss : ∀ t ∈ ss, Understood t) :
    Binding.Supported (withStatements root ss) := by
  obtain ⟨line, strict, s, prologue, inner, old, rfl⟩ := h
  exact supported_iff.2 ⟨(supported_iff.1 hroot).1, hss⟩

/-! ## Statements that the bundle keeps -/

/-- A statement that the bundle keeps as it is. -/
def Settled (o : Options) (t : Tree) : Prop :=
  match o.mode with
  | .client => isDefault t = false
  | .server => excise o.serverExportName t = some t

/-- A bundle keeps statements that have nothing to lose to it. -/
theorem keepStatements_eq_self {o : Options} {ss : List Tree} (h : ∀ t ∈ ss, Settled o t) :
    keepStatements o ss = ss := by
  unfold keepStatements
  unfold Settled at h
  cases hmode : o.mode with
  | client =>
      simp only [hmode] at h
      exact List.filter_eq_self.2 fun t ht => by simp [h t ht]
  | server =>
      simp only [hmode] at h
      exact (List.filterMap_congr h).trans List.filterMap_some

/-- What the bundle keeps comes from the statements of the module, and is kept again. -/
theorem settled_keepStatements {o : Options} {ss : List Tree} {u : Tree}
    (hu : u ∈ keepStatements o ss) :
    Settled o u ∧ ∃ t ∈ ss, u = t ∨ excise o.serverExportName t = some u := by
  unfold keepStatements at hu
  unfold Settled
  cases hmode : o.mode with
  | client =>
      simp only [hmode] at hu
      obtain ⟨hmem, hkeep⟩ := List.mem_filter.1 hu
      exact ⟨by simpa using hkeep, u, hmem, Or.inl rfl⟩
  | server =>
      simp only [hmode] at hu
      obtain ⟨t, ht, hex⟩ := List.mem_filterMap.1 hu
      exact ⟨excise_excise hex, t, ht, Or.inr hex⟩

/-- A statement that is kept stays so when it is pruned. -/
theorem settled_kept_prune {o : Options} {dead : List Binding} {t u : Tree}
    (ht : t.inShape = true) (hsettled : Settled o t) (hu : kept dead (prune dead t) = some u) :
    Settled o u := by
  unfold Settled at hsettled ⊢
  cases hmode : o.mode with
  | client =>
      simp only [hmode] at hsettled ⊢
      rw [isDefault, kept_label hu, prune_label]
      exact hsettled
  | server =>
      simp only [hmode] at hsettled ⊢
      rcases kept_cases hu with rfl | ⟨_, _, _, _, -, rfl⟩ | ⟨_, _, _, _, _, _, -, rfl⟩
      · rw [excise_prune _ ht, hsettled]
        rfl
      · rfl
      · rfl

/-! ## Runs -/

/-- Passes leave a module a module. -/
theorem isModule_reaches {c : Context} {t t' : Tree} (h : Reaches c t t') (ht : IsModule t) :
    IsModule t' := by
  induction h with
  | refl => exact ht
  | tail _ hpass ih =>
      obtain ⟨dead, -, -, rfl⟩ := hpass
      exact isModule_prune ih dead

/-- Passes leave a tree that is understood so. -/
theorem supported_reaches {c : Context} {t t' : Tree} (h : Reaches c t t') (hshape : t.inShape = true)
    (ht : Binding.Supported t) : Binding.Supported t' := by
  induction h with
  | refl => exact ht
  | tail hreach hpass ih =>
      obtain ⟨dead, -, -, rfl⟩ := hpass
      exact Binding.supported_prune (inShape_of_reaches hreach hshape) ih

/-- Passes leave statements that the bundle keeps. -/
theorem settled_reaches {o : Options} {c : Context} {t t' : Tree} (h : Reaches c t t')
    (hmodule : IsModule t) (hshape : t.inShape = true)
    (ht : ∀ u ∈ statementsOf t, Settled o u) : ∀ u ∈ statementsOf t', Settled o u := by
  induction h with
  | refl => exact ht
  | tail hreach hpass ih =>
      obtain ⟨dead, -, -, rfl⟩ := hpass
      have hmodule' := isModule_reaches hreach hmodule
      rw [statementsOf_prune hmodule']
      intro u hu
      obtain ⟨x, hx, hkept⟩ := List.mem_filterMap.1 hu
      obtain ⟨y, hy, rfl⟩ := List.mem_map.1 hx
      have hy' := inShape_statement hmodule' (inShape_of_reaches hreach hshape) hy
      exact settled_kept_prune hy' (ih y hy) hkept

/-! ## What statements tell -/

/-- A relation between lists that two wholes are in if their parts are. -/
structure Partwise {α : Type} (R : List α → List α → Prop) : Prop where
  refl : ∀ xs, R xs xs
  trans : ∀ {xs ys zs}, R xs ys → R ys zs → R xs zs
  append : ∀ {xs xs' ys ys'}, R xs xs' → R ys ys' → R (xs ++ ys) (xs' ++ ys')

theorem partwise_eq {α : Type} : Partwise (α := α) Eq where
  refl _ := rfl
  trans := Eq.trans
  append hxs hys := by rw [hxs, hys]

theorem partwise_subset {α : Type} : Partwise (α := α) (· ⊆ ·) where
  refl := List.Subset.refl
  trans := List.Subset.trans
  append hxs hys := List.append_subset.2
    ⟨List.Subset.trans hxs (List.subset_append_left _ _),
      List.Subset.trans hys (List.subset_append_right _ _)⟩

/-- What holds of the lists told of each item holds of all that is told. -/
theorem Partwise.flatMap {α β : Type} {R : List α → List α → Prop} (hR : Partwise R)
    {f g : β → List α} {ts : List β} (h : ∀ t ∈ ts, R (f t) (g t)) :
    R (ts.flatMap f) (ts.flatMap g) := by
  induction ts with
  | nil => exact hR.refl []
  | cons t ts ih =>
      exact hR.append (h t List.mem_cons_self) (ih fun u hu => h u (List.mem_cons_of_mem _ hu))

/-- What a removal leaves of every statement, a run leaves of a module's statements. -/
theorem flatMap_reaches {α : Type} {R : List α → List α → Prop} (hR : Partwise R)
    {f : Tree → List α} {c : Context} {t t' : Tree}
    (hf : ∀ (dead : List Binding) (u : Tree), u.inShape = true →
      R ((kept dead (prune dead u)).toList.flatMap f) (f u))
    (h : Reaches c t t') (hmodule : IsModule t) (hshape : t.inShape = true) :
    R ((statementsOf t').flatMap f) ((statementsOf t).flatMap f) := by
  induction h with
  | refl => exact hR.refl _
  | tail hreach hpass ih =>
      refine hR.trans ?_ ih
      obtain ⟨dead, -, -, rfl⟩ := hpass
      have hmodule' := isModule_reaches hreach hmodule
      rw [statementsOf_prune hmodule', flatMap_filterMap_eq, List.flatMap_map]
      exact hR.flatMap fun u hu =>
        hf dead u (inShape_statement hmodule' (inShape_of_reaches hreach hshape) hu)

/-- Passes leave the names that a module exports. -/
theorem names_reaches {c : Context} {t t' : Tree} (h : Reaches c t t') (hmodule : IsModule t)
    (hshape : t.inShape = true) :
    (statementsOf t').flatMap statementNames = (statementsOf t).flatMap statementNames :=
  flatMap_reaches partwise_eq (fun _ _ hu => names_kept_prune hu) h hmodule hshape

end RouteSplit.Module
