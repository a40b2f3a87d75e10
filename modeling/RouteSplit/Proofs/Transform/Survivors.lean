import RouteSplit.Proofs.Transform.Arrangement
import RouteSplit.Proofs.Transform.Meaning

/-!
# What is left of a module in any order

Resolving the exports of a module and pruning it both work on each statement by itself. What is left
of a statement therefore does not depend on where it stands, and a module that can be put in any
order still can afterwards: it declares nothing that it did not declare before.

- `DeclaresLess`: a tree without some declarations of another one;
- `Leaves`: what is left of a module, statement by statement, and `Leaves.arrangeable`;
- `arrangeable_prune`, `arrangeable_resolve`: what a removal and resolved exports leave;
- `prune_withStatements`, `resolve_withStatements`: they leave the same in any order;
- `Survivors`: the same statements left of two modules, in two orders.
-/

namespace RouteSplit

open Scope Sweep Export RouteSplit.Module

/-! ## Trees that declare less -/

/-- A tree declares under each name and in each scope only what another one does. -/
def Scope.DeclaresLess (a : Around) (u t : Tree) : Prop :=
  ∀ d ∈ declarations a u, ∃ e ∈ declarations a t,
    d.symbol = e.symbol ∧ d.scope = e.scope ∧ d.through = e.through

/-- What has fewer declarations declares less. -/
theorem Scope.DeclaresLess.of_subset {a : Around} {u t : Tree}
    (h : declarations a u ⊆ declarations a t) : DeclaresLess a u t :=
  fun d hd => ⟨d, h hd, rfl, rfl, rfl⟩

/-- What has fewer versions of declarations declares less. -/
theorem Scope.DeclaresLess.of_versions {a : Around} {u t : Tree}
    (h : gather versionRule a u ⊆ gather versionRule a t) : DeclaresLess a u t := by
  intro d hd
  have hself : d ∈ gather versionRule a u := by
    rw [gather_versionRule]
    exact List.mem_flatMap.2 ⟨d, hd, mem_versions.2 (Or.inl rfl)⟩
  have hbefore := h hself
  rw [gather_versionRule] at hbefore
  obtain ⟨e, he, hversion⟩ := List.mem_flatMap.1 hbefore
  exact ⟨e, he, version_key hversion⟩

namespace Module

/-- `left` tells what is left in `root'` of the statements of `root`. -/
structure Leaves (left : Tree → Option Tree) (root root' : Tree) : Prop where
  module : IsModule root'
  around : bodyAround root' = bodyAround root
  statements : statementsOf root' = (statementsOf root).filterMap left
  prologue : DeclaresLess (bodyAround root) (root'.child 0) (root.child 0)
  less : ∀ t ∈ statementsOf root, ∀ u, left t = some u → DeclaresLess (bodyAround root) u t

namespace Leaves

variable {left : Tree → Option Tree} {root root' : Tree} (h : Leaves left root root')

include h

theorem ownScope_eq : ownScope root' = ownScope root := ownScope_of_around h.around

/-- Of the same statements in another order the same is left in another order. -/
theorem perm {ss : List Tree} (hperm : (statementsOf root).Perm ss) :
    (statementsOf root').Perm (ss.filterMap left) := by
  rw [h.statements]
  exact hperm.filterMap left

/-- What is left of a block declares less than the block did. -/
theorem exists_block {b : Tree} (hb : b ∈ blocks root') :
    ∃ t ∈ blocks root, DeclaresLess (bodyAround root) b t := by
  rcases List.mem_cons.1 hb with rfl | hb
  · exact ⟨_, List.mem_cons_self, h.prologue⟩
  · rw [h.statements] at hb
    obtain ⟨t, ht, hb⟩ := List.mem_filterMap.1 hb
    exact ⟨t, List.mem_cons_of_mem _ ht, h.less t ht b hb⟩

/-- What is declared behind a phase was declared before it. -/
theorem exists_declared (hroot : IsModule root) {d : Declaration}
    (hd : d ∈ declarations {} root') : ∃ e ∈ declarations {} root,
      d.symbol = e.symbol ∧ d.scope = e.scope ∧ d.through = e.through := by
  rw [declarations_blocks h.module, h.around] at hd
  obtain ⟨b, hb, hd⟩ := List.mem_flatMap.1 hd
  obtain ⟨t, ht, hless⟩ := h.exists_block hb
  obtain ⟨e, he, hkey⟩ := hless d hd
  rw [declarations_blocks hroot]
  exact ⟨e, List.mem_flatMap.2 ⟨t, ht, he⟩, hkey⟩

/-- A name that is captured behind a phase was captured before it. -/
theorem captured (hroot : IsModule root) {name : String} (hcaptured : Captured root' name) :
    Captured root name := by
  obtain ⟨d, hd, e, he, rfl, hscope, hinside, hname, s, hs, hs'⟩ := hcaptured
  obtain ⟨d', hd', hsymbol, hscope', hthrough⟩ := h.exists_declared hroot hd
  obtain ⟨e', he', hsymbol', hinside', hthrough'⟩ := h.exists_declared hroot he
  have hdname : d.name = d'.name := congrArg Symbol.name hsymbol
  have hename : e.name = e'.name := congrArg Symbol.name hsymbol'
  rw [h.ownScope_eq] at hscope hinside
  refine ⟨d', hd', e', he', hdname.symm, hscope' ▸ hscope, hinside' ▸ hinside,
    hdname.symm.trans (hname.trans hename), s, ?_, ?_⟩
  · rw [Declaration.marks, ← hscope', ← hthrough]
    exact hs
  · rw [Declaration.marks, ← hinside', ← hthrough']
    exact hs'

/-- What is left of two blocks declares no more than they did. -/
theorem untangled (hroot : IsModule root) {b b' t t' : Tree}
    (hb : DeclaresLess (bodyAround root) b t) (hb' : DeclaresLess (bodyAround root) b' t')
    (hapart : Untangled root t t') : Untangled root' b b' := by
  intro d hd d' hd' hscope hscope' hname hcaptured
  rw [h.around] at hd hd'
  rw [h.ownScope_eq] at hscope hscope'
  obtain ⟨e, he, hsymbol, hkey, -⟩ := hb d hd
  obtain ⟨e', he', hsymbol', hkey', -⟩ := hb' d' hd'
  have hen : d.name = e.name := congrArg Symbol.name hsymbol
  have hen' : d'.name = e'.name := congrArg Symbol.name hsymbol'
  refine hapart e he e' he' (hkey ▸ hscope) (hkey' ▸ hscope') ?_ ?_
  · rw [← hen, hname, hen']
  · rw [← hen]
    exact h.captured hroot hcaptured

/-- What is left of a module can be put in any order. -/
theorem arrangeable (hroot : Arrangeable root)
    (hsites : ((mentions root').map Mention.site).Nodup) (hopened : (scopes root').Nodup) :
    Arrangeable root' where
  module := h.module
  sites := hsites
  opened := hopened
  sided := by
    intro d hd e he
    obtain ⟨d', hd', hsymbol, hscope, -⟩ := h.exists_declared hroot.module hd
    obtain ⟨e', he', hsymbol', hscope', -⟩ := h.exists_declared hroot.module he
    have hsite : d.site = d'.site := congrArg Symbol.site hsymbol
    have hsite' : e.site = e'.site := congrArg Symbol.site hsymbol'
    rw [h.ownScope_eq, hscope, hscope', hsite, hsite']
    exact hroot.sided d' hd' e' he'
  uncaptured := by
    obtain ⟨hfirst, hrest⟩ := List.pairwise_cons.1 hroot.uncaptured
    unfold Uncaptured blocks
    rw [h.statements]
    refine List.pairwise_cons.2 ⟨fun u hu => ?_, List.pairwise_filterMap.2 ?_⟩
    · obtain ⟨t, ht, hu⟩ := List.mem_filterMap.1 hu
      exact h.untangled hroot.module h.prologue (h.less t ht u hu) (hfirst t ht)
    · refine hrest.imp_of_mem fun {t t'} ht ht' hapart u hu u' hu' => ?_
      exact h.untangled hroot.module (h.less t ht u hu) (h.less t' ht' u' hu') hapart

end Leaves

/-! ## Removals -/

/-- What a removal leaves of a statement of a module. -/
def survivor (dead : List Binding) (t : Tree) : Option Tree := kept dead (prune dead t)

theorem prune_module (dead : List Binding) (line : Option String) (strict : Bool) (s inner : Span)
    (prologue : Tree) (ss : List Tree) :
    prune dead (.node (.module (.program line strict)) s
        [prologue, .node (.module .statements) inner ss]) =
      .node (.module (.program line strict)) s
        [prune dead prologue, .node (.module .statements) inner (ss.filterMap (survivor dead))] := by
  rw [prune_of_plain dead (by simp), List.map_cons, List.map_cons, List.map_nil, prune_statements,
    List.filterMap_map]
  rfl

/-- A removal leaves the same of the statements in any order. -/
theorem prune_withStatements (dead : List Binding) {root : Tree} (h : IsModule root)
    (ss : List Tree) : prune dead (withStatements root ss) =
      withStatements (prune dead root) (ss.filterMap (survivor dead)) := by
  obtain ⟨line, strict, s, prologue, inner, old, rfl⟩ := h
  rw [prune_module, withStatements, prune_module]
  rfl

/-- What is left of a statement has its label and its place. -/
theorem survivor_place {dead : List Binding} {t u : Tree} (h : survivor dead t = some u) :
    u.label = t.label ∧ u.span = t.span := by
  rw [← prune_label dead t, ← prune_span dead t]
  refine ⟨kept_label h, ?_⟩
  rcases kept_cases h with heq | ⟨_, _, _, _, heq, rfl⟩ | ⟨_, _, _, _, _, _, heq, rfl⟩ <;>
    rw [heq] <;> rfl

section Prune

variable {dead : List Binding} {root : Tree} (h : IsModule root)

include h

theorem child_prune_module : (prune dead root).child 0 = prune dead (root.child 0) := by
  obtain ⟨_, _, _, _, _, _, rfl⟩ := h
  exact child_prune_of_plain dead (by simp) 0

/-- A removal leaves what the statements of a module stand in. -/
theorem bodyAround_prune (hshape : root.inShape = true) :
    bodyAround (prune dead root) = bodyAround root := by
  obtain ⟨_, _, _, _, _, _, rfl⟩ := h
  rw [prune_node dead (by simp)]
  simp only [bodyAround, Tree.label_node, Tree.span_node, Tree.children_node,
    makesStrict_map_prunePart hshape]

/-- A removal leaves something of each statement, or takes it. -/
theorem leaves_prune (hshape : root.inShape = true) :
    Leaves (survivor dead) root (prune dead root) where
  module := isModule_prune h dead
  around := bodyAround_prune h hshape
  statements := by
    rw [statementsOf_prune h, List.filterMap_map]
    rfl
  prologue := by
    rw [child_prune_module h]
    exact .of_versions (gather_prune_subset cuttable_versionRule rfl (Tree.inShape_child hshape 0))
  less := by
    intro t ht u hu
    have ht := inShape_statement h hshape ht
    -- What is left may declare a namespace that has lost its value, so it declares versions of what
    -- the statement declared.
    have hkept : (kept dead (prune dead t)).toList.flatMap (gather versionRule (bodyAround root)) ⊆
        gather versionRule (bodyAround root) (prune dead t) :=
      gather_kept_subset cuttable_versionRule rfl (inShape_prune ht)
    have hleft : kept dead (prune dead t) = some u := hu
    rw [hleft, Option.toList_some, List.flatMap_singleton] at hkept
    exact .of_versions (List.Subset.trans hkept (gather_prune_subset cuttable_versionRule rfl ht))

end Prune

/-- A removal leaves a module that can be arranged in any order so. -/
theorem arrangeable_prune {dead : List Binding} {root : Tree} (h : Arrangeable root)
    (hshape : root.inShape = true) : Arrangeable (prune dead root) := by
  refine (leaves_prune h.module hshape).arrangeable h ?_ ?_
  · exact mentions_prune_nodup hshape h.sites
  · have hscopes : Cuttable dead scopeRule fun _ => False :=
      cuttable_of_labels (fun _ _ _ _ _ => rfl) (fun _ _ => rfl) fun _ _ _ _ => rfl
    exact ((gather_sheds_prune hscopes rfl hshape).nodup h.opened).of_append_left

/-! ## Exports -/

/-- What the bundle keeps of a statement. -/
def keepOne (o : Options) (t : Tree) : Option Tree :=
  match o.mode with
  | .client => if isDefault t then none else some t
  | .server => excise o.serverExportName t

/-- A bundle takes its statements one by one. -/
theorem keepStatements_eq_filterMap (o : Options) (ss : List Tree) :
    keepStatements o ss = ss.filterMap (keepOne o) := by
  unfold keepStatements keepOne
  cases o.mode with
  | client =>
      rw [← List.filterMap_eq_filter]
      refine List.filterMap_congr fun t _ => ?_
      cases hdefault : isDefault t <;> simp [hdefault, Option.guard]
  | server => rfl

/-- What a bundle leaves of a statement is the statement, or an export without a name. -/
theorem keepOne_cases {o : Options} {t u : Tree} (h : keepOne o t = some u) :
    u = t ∨ excise o.serverExportName t = some u := by
  unfold keepOne at h
  cases hmode : o.mode with
  | client =>
      simp only [hmode] at h
      obtain ⟨-, h⟩ := Option.ite_none_left_eq_some.1 h
      exact Or.inl (Option.some.inj h).symm
  | server =>
      simp only [hmode] at h
      exact Or.inr h

/-- What a bundle leaves of a statement has its label and its place. -/
theorem keepOne_place {o : Options} {t u : Tree} (h : keepOne o t = some u) :
    u.label = t.label ∧ u.span = t.span := by
  rcases keepOne_cases h with rfl | hexcise
  · exact ⟨rfl, rfl⟩
  · refine ⟨excise_label hexcise, ?_⟩
    rcases excise_cases hexcise with rfl | ⟨_, _, _, _, _, rfl, -, rfl⟩ |
      ⟨_, _, _, _, _, _, _, _, rfl, -, rfl⟩ <;> rfl

/-- Resolving the exports leaves something of each statement, or takes it. -/
theorem leaves_resolve (o : Options) {root : Tree} (h : IsModule root)
    (hlists : ∀ t ∈ statementsOf root, listFits t = true) (c : Context) :
    Leaves (keepOne o) root (resolve o root c).1 where
  module := isModule_withStatements h _
  around := bodyAround_withStatements h _
  statements := by
    rw [resolve, statementsOf_withStatements h, keepStatements_eq_filterMap]
  prologue := by
    obtain ⟨_, _, _, _, _, _, rfl⟩ := h
    exact .of_subset (List.Subset.refl _)
  less := by
    intro t ht u hu
    rcases keepOne_cases hu with rfl | hexcise
    · exact .of_subset (List.Subset.refl _)
    · have hparted := gather_excise shared_declarationRule.toSpread (a := bodyAround root) rfl
        o.serverExportName (hlists t ht)
      rw [hexcise, Option.toList_some, List.flatMap_singleton] at hparted
      refine .of_subset ?_
      rw [declarations_eq_gather, declarations_eq_gather]
      exact hparted.1.subset

/-- A bundle of a module that can be arranged in any order can be, too. -/
theorem arrangeable_resolve (o : Options) {root : Tree} (h : Arrangeable root)
    (hroot : IsWritten root) (c : Context) : Arrangeable (resolve o root c).1 := by
  refine (leaves_resolve o h.module hroot.lists c).arrangeable h ?_ ?_
  · exact (wellFormed_resolve hroot o c).sites
  · have hparted := gather_resolve shared_scopeRule h.module hroot.lists o c
    exact hroot.scopes.sublist hparted.1

/-- Resolved exports leave the same of the statements in any order. -/
theorem resolve_withStatements (o : Options) {root : Tree} (h : IsModule root) (ss : List Tree)
    (c c' : Context) : (resolve o (withStatements root ss) c').1 =
      withStatements (resolve o root c).1 (ss.filterMap (keepOne o)) := by
  rw [resolve, statementsOf_withStatements h, keepStatements_eq_filterMap]
  obtain ⟨_, _, _, _, _, _, rfl⟩ := h
  rfl

end Module

/-! ## The same statements in two orders -/

/-- The same is left of the statements of two modules: of those of `root` in one and of `ss` in the
other, each in its order. -/
def Survivors (root : Tree) (ss : List Tree) (left left' : Tree) : Prop :=
  ∃ f : Tree → Option Tree,
    (∀ t ∈ statementsOf root, ∀ u, f t = some u → u.label = t.label ∧ u.span = t.span) ∧
    statementsOf left = (statementsOf root).filterMap f ∧
    left' = withStatements left (ss.filterMap f)

theorem survivors_refl (root : Tree) (ss : List Tree) :
    Survivors root ss root (withStatements root ss) :=
  ⟨some, by simp, by simp, by simp⟩

theorem Survivors.trans {root mid left left' : Tree} {ss : List Tree} {f : Tree → Option Tree}
    (hf : ∀ t ∈ statementsOf root, ∀ u, f t = some u → u.label = t.label ∧ u.span = t.span)
    (hmid : statementsOf mid = (statementsOf root).filterMap f)
    (h : Survivors mid (ss.filterMap f) left left') : Survivors root ss left left' := by
  obtain ⟨g, hg, hleft, rfl⟩ := h
  refine ⟨fun t => (f t).bind g, ?_, ?_, ?_⟩
  · intro t ht v hv
    obtain ⟨u, hu, hv⟩ := Option.bind_eq_some_iff.1 hv
    have hmem : u ∈ statementsOf mid := hmid ▸ List.mem_filterMap.2 ⟨t, ht, hu⟩
    obtain ⟨hlabel, hspan⟩ := hf t ht u hu
    obtain ⟨hlabel', hspan'⟩ := hg u hmem v hv
    exact ⟨hlabel'.trans hlabel, hspan'.trans hspan⟩
  · rw [hleft, hmid, List.filterMap_filterMap]
  · rw [List.filterMap_filterMap]

end RouteSplit
