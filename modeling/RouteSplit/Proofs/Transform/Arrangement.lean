import RouteSplit.Proofs.Export.Gone
import RouteSplit.Proofs.Scope.Parts

/-!
# Lookups and the order of statements

What the statements of a module declare for themselves does not depend on where they stand, and what
they declare for the whole module is one symbol for each name in any order. Only its first
declaration changes with the order, and by that the symbol is told. So two lookups that find the same
symbol do so in every order.

That is so unless a block on the way of a `var` declares the name itself: the `var` joins that symbol
if nothing declared its name for the module before, and the module's otherwise.

- `blocks`: the prologue and the statements of a module;
- `Captured`, `Uncaptured`: a name that a block takes from a `var` of the module, and modules in which
  no two statements declare such a name;
- `OneSided`: modules in which an identifier declares on one side of the module's scope;
- `Rearranged`: two modules with the same statements;
- `Lookup.same_iff`: two lookups find the same symbol in both, or in neither.
-/

namespace RouteSplit

open Scope Sweep Export RouteSplit.Module

/-! ## Declarations on their way -/

namespace Scope

theorem meaning_of_variableEntries {ds : List Tree} {e : Entry} (he : e ∈ variableEntries ds) :
    e.meaning = .ofValue := by
  obtain ⟨d, -, he⟩ := List.mem_flatMap.1 he
  obtain ⟨x, -, rfl⟩ := List.mem_map.1 he
  rfl

/-- What passes through scopes is a variable, and the scopes hold none. -/
def Outbound (d : Declaration) : Prop :=
  (∀ s ∈ d.through, s.kind.holdsVars = false) ∧ (d.through ≠ [] → d.meaning = .ofValue)

theorem outbound_inScope (e : Entry) (scope : ScopeId) : Outbound (e.inScope scope) :=
  ⟨by simp [Entry.inScope], by simp [Entry.inScope]⟩

theorem outbound_placed {a : Around} {l : Label} {s : Span} {ps : List Tree} {d : Declaration}
    (hd : d ∈ placed a l s ps) : Outbound d := by
  unfold placed at hd
  split at hd
  · obtain ⟨e, he, hd⟩ := List.mem_flatMap.1 hd
    obtain ⟨scope, -, rfl⟩ := Option.map_eq_some_iff.1 (Option.mem_toList.1 hd)
    refine ⟨fun s hs => ?_, fun _ => meaning_of_variableEntries he⟩
    simpa using List.mem_takeWhile_imp hs
  · obtain ⟨e, -, hd⟩ := List.mem_flatMap.1 hd
    obtain ⟨scope, -, rfl⟩ := Option.map_eq_some_iff.1 (Option.mem_toList.1 hd)
    exact outbound_inScope e scope
  · obtain ⟨e, -, hd⟩ := List.mem_flatMap.1 hd
    obtain ⟨scope, -, rfl⟩ := Option.map_eq_some_iff.1 (Option.mem_toList.1 hd)
    exact outbound_inScope e scope

theorem outbound_introduced {l : Label} {s : Span} {ps : List Tree} {d : Declaration}
    (hd : d ∈ introduced l s ps) : Outbound d := by
  have hall : ∀ {es : List Entry} {scope : ScopeId}, d ∈ es.map (·.inScope scope) →
      Outbound d := by
    intro es scope hd
    obtain ⟨e, -, rfl⟩ := List.mem_map.1 hd
    exact outbound_inScope e scope
  unfold introduced at hd
  split at hd
  case h_1 =>
    rcases List.mem_append.1 hd with hd | hd
    · exact (List.mem_append.1 hd).elim hall hall
    · exact hall hd
  case h_2 => exact (List.mem_append.1 hd).elim hall hall
  case h_14 => simp at hd
  all_goals exact hall hd

/-- Every declaration of a tree goes out: what it passes through holds no variables. -/
theorem outbound_of_declaration {a : Around} {t : Tree} {d : Declaration}
    (hd : d ∈ declarations a t) : Outbound d := by
  rw [declarations_eq_gather] at hd
  induction t using Tree.induct generalizing a with
  | node l s ps ih =>
      rcases mem_gather_node.1 hd with hd | ⟨i, c, hc, hd⟩
      · exact (List.mem_append.1 hd).elim outbound_placed outbound_introduced
      · exact ih c (List.mem_of_getElem? hc) hd

end Scope

/-! ## The blocks of a module -/

namespace Module

/-- The prologue and the statements of a module. -/
def blocks (root : Tree) : List Tree := root.child 0 :: statementsOf root

/-- The scope of a module. -/
def ownScope (root : Tree) : ScopeId := ⟨.module, root.span⟩

theorem ownScope_of_around {root root' : Tree} (h : bodyAround root' = bodyAround root) :
    ownScope root' = ownScope root := by
  have henv := congrArg Around.env h
  simpa [bodyAround, ownScope] using henv

section Blocks

variable {root : Tree} (h : IsModule root)

include h

/-- What is told of a module is told of itself, of its prologue and of the list of its statements. -/
theorem gather_module_parts {α : Type} (rule : Rule α) :
    ∃ span, gather rule {} root = rule {} root.label root.span root.children ++
      (gather rule (bodyAround root) (root.child 0) ++
        gather rule (bodyAround root) (.node (.module .statements) span (statementsOf root))) := by
  obtain ⟨line, strict, s, prologue, inner, ss, rfl⟩ := h
  have hinside : ∀ i, Around.inside {} (.module (.program line strict)) s
      [prologue, .node (.module .statements) inner ss] i =
        bodyAround (.node (.module (.program line strict)) s
          [prologue, .node (.module .statements) inner ss]) := by
    intro i
    simp [Around.inside, opened, makesStrict, bodyAround]
  refine ⟨inner, ?_⟩
  rw [gather_node_of_const hinside, List.flatMap_cons, List.flatMap_singleton]
  rfl

/-- What is told of a module is told of itself and of its blocks. -/
theorem gather_blocks {α : Type} {rule : Rule α} (hrule : Shared rule) :
    gather rule {} root = rule {} root.label root.span root.children ++
      (blocks root).flatMap (gather rule (bodyAround root)) := by
  obtain ⟨span, hroot⟩ := gather_module_parts h rule
  rw [hroot, gather_statements, hrule.statements]
  rfl

/-- The declarations of a module are those of its blocks. -/
theorem declarations_blocks :
    declarations {} root = (blocks root).flatMap (declarations (bodyAround root)) := by
  have hown : declarationRule {} root.label root.span root.children = [] := by
    obtain ⟨_, _, _, _, _, _, rfl⟩ := h
    rfl
  rw [declarations_eq_gather, gather_blocks h shared_declarationRule, hown, List.nil_append]
  exact List.flatMap_congr fun b _ => (declarations_eq_gather _ b).symm

/-- The names that a module mentions are those of its blocks. -/
theorem mentions_blocks : mentions root = (blocks root).flatMap mentions := by
  have hown : mentionRule {} root.label root.span root.children = [] := by
    obtain ⟨_, _, _, _, _, _, rfl⟩ := h
    rfl
  rw [mentions, gather_blocks h shared_mentionRule, hown, List.nil_append]
  exact List.flatMap_congr fun b _ => gather_mentionRule _ b

/-- The uses of a module are those of its blocks. -/
theorem uses_blocks : uses root = (blocks root).flatMap (gather useRule (bodyAround root)) := by
  have hown : useRule {} root.label root.span root.children = [] := by
    obtain ⟨_, _, _, _, _, _, rfl⟩ := h
    rfl
  rw [uses, gather_blocks h shared_useRule, hown, List.nil_append]

/-- The scopes of a module are its own and those of its blocks. -/
theorem scopes_blocks : scopes root = ownScope root :: (blocks root).flatMap scopes := by
  have hown : scopeRule {} root.label root.span root.children = [ownScope root] := by
    obtain ⟨_, _, _, _, _, _, rfl⟩ := h
    rfl
  rw [scopes, gather_blocks h shared_scopeRule, hown, List.singleton_append]
  congr 1
  exact List.flatMap_congr fun b _ => gather_scopeRule _ b

/-- What the statements of a module stand in does not depend on them. -/
theorem bodyAround_withStatements (ss : List Tree) :
    bodyAround (withStatements root ss) = bodyAround root := by
  obtain ⟨_, _, _, _, _, _, rfl⟩ := h
  rfl

end Blocks

/-! ## Names that a block captures -/

/-- A block that declares the name itself stands on the way of a `var` of the module. -/
def Captured (root : Tree) (name : String) : Prop :=
  ∃ d ∈ declarations {} root, ∃ e ∈ declarations {} root, d.name = name ∧
    d.scope = ownScope root ∧ e.scope ≠ ownScope root ∧ d.Meets e

instance (root : Tree) (name : String) : Decidable (Captured root name) :=
  inferInstanceAs (Decidable (∃ d ∈ declarations {} root, ∃ e ∈ declarations {} root,
    d.name = name ∧ d.scope = ownScope root ∧ e.scope ≠ ownScope root ∧ d.Meets e))

/-- What two blocks both declare for the whole module, no block captures. -/
def Untangled (root b b' : Tree) : Prop :=
  ∀ d ∈ declarations (bodyAround root) b, ∀ d' ∈ declarations (bodyAround root) b',
    d.scope = ownScope root → d'.scope = ownScope root → d.name = d'.name →
      ¬ Captured root d.name

theorem Untangled.symm {root b b' : Tree} (h : Untangled root b b') : Untangled root b' b := by
  intro d hd e he hscope hscope' hname
  rw [hname]
  exact h e he d hd hscope' hscope hname.symm

/-- No two statements declare a name for the whole module that a block captures. -/
def Uncaptured (root : Tree) : Prop := (blocks root).Pairwise (Untangled root)

instance (root b b' : Tree) : Decidable (Untangled root b b') :=
  inferInstanceAs (Decidable (∀ d ∈ declarations (bodyAround root) b,
    ∀ d' ∈ declarations (bodyAround root) b', _))

instance (root : Tree) : Decidable (Uncaptured root) :=
  inferInstanceAs (Decidable ((blocks root).Pairwise (Untangled root)))

/-- No identifier declares its name both for the whole module and for something inside it. -/
def OneSided (root : Tree) : Prop :=
  ∀ d ∈ declarations {} root, ∀ e ∈ declarations {} root,
    d.scope = ownScope root → e.scope ≠ ownScope root → d.site ≠ e.site

instance (root : Tree) : Decidable (OneSided root) :=
  inferInstanceAs (Decidable (∀ d ∈ declarations {} root, ∀ e ∈ declarations {} root, _))

/-- A declaration marks scopes of its block, and the module's only if it goes there. -/
theorem mem_scopes_of_mark {root b : Tree} {d : Declaration}
    (hd : d ∈ declarations (bodyAround root) b) {s : ScopeId} (hs : s ∈ d.marks) :
    s ∈ scopes b ∨ s = ownScope root ∧ d.scope = ownScope root := by
  rcases List.mem_append.1 (marks_subset hd hs) with hmem | hmem
  · exact Or.inl hmem
  · obtain rfl : s = ownScope root := by simpa [bodyAround, ownScope] using hmem
    refine Or.inr ⟨rfl, ?_⟩
    rcases List.mem_cons.1 hs with heq | hthrough
    · exact heq.symm
    · have hnone := (outbound_of_declaration hd).1 _ hthrough
      simp [ownScope, Kind.holdsVars] at hnone

/-- A module whose statements can be put in any order. -/
structure Arrangeable (root : Tree) : Prop where
  module : IsModule root
  sites : ((mentions root).map Mention.site).Nodup
  opened : (scopes root).Nodup
  sided : OneSided root
  uncaptured : Uncaptured root

/-- Where nothing is told twice, it is told of one item. -/
theorem eq_of_nodup_flatMap {α β : Type} {xs : List α} {f : α → List β}
    (h : (xs.flatMap f).Nodup) {x y : α} (hx : x ∈ xs) (hy : y ∈ xs) {z : β} (hzx : z ∈ f x)
    (hzy : z ∈ f y) : x = y := by
  by_contra hne
  have hsymm : Std.Symm (Function.onFun List.Disjoint f) := ⟨fun _ _ h => List.Disjoint.symm h⟩
  have hdisjoint : List.Disjoint (f x) (f y) := (List.nodup_flatMap.1 h).2.forall hx hy hne
  exact hdisjoint hzx hzy

namespace Arrangeable

variable {root b b' : Tree} {d e : Declaration} (h : Arrangeable root)

include h

/-- A declaration of a module is made by one of its blocks. -/
theorem mem_blocks (hd : d ∈ declarations {} root) :
    ∃ b ∈ blocks root, d ∈ declarations (bodyAround root) b := by
  rwa [declarations_blocks h.module, List.mem_flatMap] at hd

/-- Two blocks do not declare at one place. -/
theorem block_eq_of_site (hb : b ∈ blocks root) (hb' : b' ∈ blocks root)
    (hd : d ∈ declarations (bodyAround root) b) (he : e ∈ declarations (bodyAround root) b')
    (hsite : d.site = e.site) : b = b' := by
  have hnodup := h.sites
  rw [mentions_blocks h.module, List.map_flatMap] at hnodup
  refine eq_of_nodup_flatMap hnodup hb hb' (z := d.site) ?_ ?_
  · exact List.mem_map.2 ⟨_, mention_of_declared hd, rfl⟩
  · exact List.mem_map.2 ⟨_, mention_of_declared he, hsite.symm⟩

/-- Declarations in one place are of one name. -/
theorem name_eq_of_site (hd : d ∈ declarations {} root) (he : e ∈ declarations {} root)
    (hsite : d.site = e.site) : d.name = e.name := by
  have hsame := List.inj_on_of_nodup_map h.sites (mention_of_declared hd)
    (mention_of_declared he) hsite
  exact congrArg Mention.name hsame

/-- No block opens the scope of the module. -/
theorem ownScope_notMem (hb : b ∈ blocks root) : ownScope root ∉ scopes b := by
  have hnodup := h.opened
  rw [scopes_blocks h.module, List.nodup_cons] at hnodup
  exact fun hmem => hnodup.1 (List.mem_flatMap.2 ⟨b, hb, hmem⟩)

/-- No two blocks open the same scope. -/
theorem block_eq_of_scope (hb : b ∈ blocks root) (hb' : b' ∈ blocks root) {s : ScopeId}
    (hs : s ∈ scopes b) (hs' : s ∈ scopes b') : b = b' := by
  have hnodup := h.opened
  rw [scopes_blocks h.module, List.nodup_cons] at hnodup
  exact eq_of_nodup_flatMap hnodup.2 hb hb' hs hs'

end Arrangeable

/-! ## The parts of the declarations -/

/-- Whether the declaration is for the whole module, under a name that no block captures. -/
def isShared (root : Tree) (d : Declaration) : Bool :=
  decide (d.scope = ownScope root) && !decide (Captured root d.name)

/-- Whether the declaration is one of the block, and not shared. -/
def isOf (root b : Tree) (d : Declaration) : Bool :=
  decide (d ∈ declarations (bodyAround root) b) && !isShared root d

/-- A declaration is shared if it goes to the module and no block captures its name. -/
theorem isShared_iff {root : Tree} {d : Declaration} :
    isShared root d = true ↔ d.scope = ownScope root ∧ ¬ Captured root d.name := by
  simp [isShared]

/-- A declaration belongs to a block if the block makes it and does not share it. -/
theorem isOf_iff {root b : Tree} {d : Declaration} :
    isOf root b d = true ↔ d ∈ declarations (bodyAround root) b ∧ isShared root d = false := by
  simp [isOf]

namespace Arrangeable

variable {root b b' : Tree} {d e : Declaration} (h : Arrangeable root)

include h

/-- What is shared and what is not do not meet. -/
theorem shared_apart (hd : d ∈ declarations {} root) (he : e ∈ declarations {} root)
    (hshared : isShared root d = true) (hother : isShared root e = false) :
    ¬ d.Meets e ∧ d.symbol ≠ e.symbol := by
  obtain ⟨hscope, hfree⟩ := isShared_iff.1 hshared
  -- A declaration that is not shared stands inside the module, or its name is captured.
  have hcases : e.scope ≠ ownScope root ∨ Captured root e.name := by
    by_contra hnot
    push Not at hnot
    rw [isShared_iff.2 hnot] at hother
    simp at hother
  rcases hcases with hinside | hcaptured
  · refine ⟨fun hmeets => hfree ⟨d, hd, e, he, rfl, hscope, hinside, hmeets⟩, fun hsymbol => ?_⟩
    exact h.sided d hd e he hscope hinside (congrArg Symbol.site hsymbol)
  · refine ⟨fun hmeets => hfree (hmeets.1 ▸ hcaptured), fun hsymbol => hfree ?_⟩
    have hname : d.name = e.name := congrArg Symbol.name hsymbol
    exact hname ▸ hcaptured

/-- What is shared has nothing to do with what blocks declare for themselves. -/
theorem detached_isShared : Detached (isShared root) (declarations {} root) :=
  fun _ hd _ he hshared hother => h.shared_apart hd he hshared hother

/-- The declarations of a name for the module stand in one block, if a block captures the name. -/
theorem block_eq_of_captured (hb : b ∈ blocks root) (hb' : b' ∈ blocks root)
    (hd : d ∈ declarations (bodyAround root) b) (he : e ∈ declarations (bodyAround root) b')
    (hscope : d.scope = ownScope root) (hscope' : e.scope = ownScope root) (hname : d.name = e.name)
    (hcaptured : Captured root d.name) : b = b' := by
  by_contra hne
  have hsymm : Std.Symm (Untangled root) := ⟨fun _ _ => Untangled.symm⟩
  exact h.uncaptured.forall hb hb' hne d hd e he hscope hscope' hname hcaptured

/-- What a block declares for itself has nothing to do with all other declarations. -/
theorem detached_isOf (hb : b ∈ blocks root) : Detached (isOf root b) (declarations {} root) := by
  intro d hd e he hof hother
  obtain ⟨hdb, hunshared⟩ := isOf_iff.1 hof
  cases hshared : isShared root e with
  | true =>
      obtain ⟨hmeets, hsymbol⟩ := h.shared_apart he hd hshared hunshared
      exact ⟨fun hmeets' => hmeets hmeets'.symm, hsymbol.symm⟩
  | false =>
      -- The other declaration stands in another block: it opens other scopes and has other places.
      obtain ⟨b', hb', heb'⟩ := h.mem_blocks he
      have hne : b ≠ b' := by
        rintro rfl
        rw [isOf_iff.2 ⟨heb', hshared⟩] at hother
        simp at hother
      refine ⟨fun hmeets => hne ?_, fun hsymbol => hne ?_⟩
      · obtain ⟨hname, s, hs, hs'⟩ := hmeets
        rcases mem_scopes_of_mark hdb hs with hmem | ⟨rfl, hscope⟩
        · rcases mem_scopes_of_mark heb' hs' with hmem' | ⟨rfl, -⟩
          · exact h.block_eq_of_scope hb hb' hmem hmem'
          · exact absurd hmem (h.ownScope_notMem hb)
        · rcases mem_scopes_of_mark heb' hs' with hmem' | ⟨-, hscope'⟩
          · exact absurd hmem' (h.ownScope_notMem hb')
          · have hcaptured : Captured root d.name := by
              by_contra hfree
              rw [isShared_iff.2 ⟨hscope, hfree⟩] at hunshared
              simp at hunshared
            exact h.block_eq_of_captured hb hb' hdb heb' hscope hscope' hname hcaptured
      · exact h.block_eq_of_site hb hb' hdb heb' (congrArg Symbol.site hsymbol)

end Arrangeable

/-! ## Modules with the same statements -/

/-- The second module has the statements of the first in some order. -/
structure Rearranged (root root' : Tree) : Prop where
  module : IsModule root'
  around : bodyAround root' = bodyAround root
  prologue : root'.child 0 = root.child 0
  statements : (statementsOf root).Perm (statementsOf root')

/-- Putting the statements of a module in another order rearranges it. -/
theorem rearranged_withStatements {root : Tree} {ss : List Tree} (h : IsModule root)
    (hperm : (statementsOf root).Perm ss) : Rearranged root (withStatements root ss) where
  module := isModule_withStatements h ss
  around := bodyAround_withStatements h ss
  prologue := by
    obtain ⟨_, _, _, _, _, _, rfl⟩ := h
    rfl
  statements := by rwa [statementsOf_withStatements h]

namespace Rearranged

variable {root root' b : Tree} (h : Rearranged root root')

include h

theorem ownScope_eq : ownScope root' = ownScope root := ownScope_of_around h.around

/-- A rearranged module has the same blocks in some order. -/
theorem blocks : (Module.blocks root).Perm (Module.blocks root') := by
  rw [Module.blocks, Module.blocks, h.prologue]
  exact h.statements.cons _

theorem symm (hroot : IsModule root) : Rearranged root' root :=
  ⟨hroot, h.around.symm, h.prologue.symm, h.statements.symm⟩

variable (hroot : IsModule root)

include hroot

/-- A rearranged module has the same declarations in some order. -/
theorem declarations_perm : (declarations {} root).Perm (declarations {} root') := by
  rw [declarations_blocks hroot, declarations_blocks h.module, h.around]
  exact h.blocks.flatMap_right _

theorem mentions_perm : (mentions root).Perm (mentions root') := by
  rw [mentions_blocks hroot, mentions_blocks h.module]
  exact h.blocks.flatMap_right _

/-- A rearranged module has the same uses in some order. -/
theorem uses_perm : (uses root).Perm (uses root') := by
  rw [uses_blocks hroot, uses_blocks h.module, h.around]
  exact h.blocks.flatMap_right _

theorem scopes_perm : (scopes root).Perm (scopes root') := by
  rw [scopes_blocks hroot, scopes_blocks h.module, h.ownScope_eq]
  exact (h.blocks.flatMap_right _).cons _

/-- Which names are captured does not depend on the order. -/
theorem captured_iff (name : String) : Captured root' name ↔ Captured root name := by
  simp only [Captured, h.ownScope_eq, (h.declarations_perm hroot).mem_iff]

theorem isShared_eq : isShared root' = isShared root := by
  funext d
  rw [Bool.eq_iff_iff, isShared_iff, isShared_iff, h.captured_iff hroot, h.ownScope_eq]

end Rearranged

/-- A module that can be arranged in any order stays so. -/
theorem Arrangeable.rearranged {root root' : Tree} (h : Arrangeable root)
    (hr : Rearranged root root') : Arrangeable root' where
  module := hr.module
  sites := ((hr.mentions_perm h.module).map _).nodup_iff.1 h.sites
  opened := (hr.scopes_perm h.module).nodup_iff.1 h.opened
  sided := by
    have hmem : ∀ {d}, d ∈ declarations {} root' ↔ d ∈ declarations {} root :=
      (hr.declarations_perm h.module).mem_iff.symm
    intro d hd e he
    rw [hr.ownScope_eq]
    exact h.sided d (hmem.1 hd) e (hmem.1 he)
  uncaptured := by
    have hsame : Untangled root' = Untangled root := by
      funext b b'
      simp only [Untangled, hr.around, hr.ownScope_eq, hr.captured_iff h.module]
    rw [Uncaptured, hsame]
    exact (hr.blocks.pairwise_iff Untangled.symm).1 h.uncaptured

/-! ## What tells a symbol -/

/-- A list of items, of which only `x` gives anything, gives the same in any order. -/
theorem flatMap_eq_of_perm {α β : Type} [DecidableEq α] {xs ys : List α} {g : α → List β} {x : α}
    (h : ∀ y ∈ xs, y ≠ x → g y = []) (hperm : xs.Perm ys) : xs.flatMap g = ys.flatMap g := by
  have hcount : ∀ zs : List α, (∀ y ∈ zs, y ≠ x → g y = []) →
      zs.flatMap g = (List.replicate (zs.count x) (g x)).flatten := by
    intro zs hzs
    induction zs with
    | nil => rfl
    | cons z zs ih =>
        have hrest := ih fun y hy => hzs y (List.mem_cons_of_mem _ hy)
        rw [List.flatMap_cons, hrest]
        by_cases hz : z = x
        · subst hz
          rw [List.count_cons_self, List.replicate_succ, List.flatten_cons]
        · rw [List.count_cons_of_ne hz, hzs z List.mem_cons_self hz, List.nil_append]
  rw [hcount xs h, hcount ys fun y hy => h y (hperm.mem_iff.2 hy), hperm.count_eq]

/-- What tells a symbol in every order of the statements: the module's symbols go by their names,
any other symbol by its first declaration. -/
def tell (root : Tree) (s : Symbol) : String ⊕ Symbol :=
  if (regionOf (isShared root) (declarations {} root)).symbol s then .inl s.name else .inr s

/-- What is told of a symbol without regard to its first declaration does not depend on the
order. -/
theorem tell_rearranged {root root' : Tree} (hroot : IsModule root) (hr : Rearranged root root') :
    tell root' = tell root := by
  funext s
  have hregion : (regionOf (isShared root') (declarations {} root')).symbol s =
      (regionOf (isShared root) (declarations {} root)).symbol s := by
    rw [Bool.eq_iff_iff, symbol_regionOf, symbol_regionOf, hr.isShared_eq hroot]
    simp only [(hr.declarations_perm hroot).mem_iff]
  rw [tell, tell, hregion]

/-- The declarations that are shared. -/
def sharedOf (root : Tree) : List Declaration := (declarations {} root).filter (isShared root)

/-- What is shared is joined in the scope of the module. -/
theorem joined_sharedOf (root : Tree) :
    Table.Joined (ownScope root) (sharedOf root) (.ofDeclarations (sharedOf root)) := by
  apply Table.joined_ofDeclarations
  intro d hd
  obtain ⟨hd, hshared⟩ := List.mem_filter.1 hd
  obtain ⟨hvars, hmeaning⟩ := outbound_of_declaration hd
  refine ⟨(isShared_iff.1 hshared).1, fun hmem => ?_, hmeaning⟩
  have hnone := hvars _ hmem
  simp [ownScope, Kind.holdsVars] at hnone

/-- The symbols of what is shared are told by their names. -/
theorem tell_of_shared {root : Tree} {s : Symbol}
    (hs : s ∈ (Table.ofDeclarations (sharedOf root)).symbols) : tell root s = .inl s.name := by
  obtain ⟨d, hd, rfl⟩ := (Table.traced_ofDeclarations _).symbols s hs
  obtain ⟨hd, hshared⟩ := List.mem_filter.1 hd
  rw [tell, if_pos (symbol_regionOf.2 ⟨d, hd, hshared, rfl⟩)]

section Lookups

variable {root root' : Tree} (h : Arrangeable root) (hr : Rearranged root root')

theorem sharedOf_subset : sharedOf root ⊆ declarations {} root := List.filter_subset_self _

theorem filter_sharedOf :
    (declarations {} root).filter (isShared root) = (sharedOf root).filter (isShared root) := by
  rw [sharedOf, List.filter_filter]
  simp

include h

/-- A table tells its symbols apart. -/
theorem tell_inj {s s' : Symbol} (hs : s ∈ (tableOf root).symbols)
    (hs' : s' ∈ (tableOf root).symbols) (heq : tell root s = tell root s') : s = s' := by
  have hjoined := joined_sharedOf root
  unfold tell at heq
  split_ifs at heq with hregion hregion'
  · have hmem := Table.mem_symbols_of_part h.detached_isShared sharedOf_subset filter_sharedOf hs
      hregion
    have hmem' := Table.mem_symbols_of_part h.detached_isShared sharedOf_subset filter_sharedOf hs'
      hregion'
    obtain ⟨b, hb, rfl⟩ := List.mem_map.1 hmem
    obtain ⟨b', hb', rfl⟩ := List.mem_map.1 hmem'
    rw [hjoined.single b hb b' hb' (Sum.inl.inj heq)]
  · exact Sum.inr.inj heq

/-- What the module's scope binds a name to that no block captures. -/
theorem tell_serving {name : String} (hfree : ¬ Captured root name) (usage : Usage) :
    ((tableOf root).serving (ownScope root) name usage).map (tell root) =
      if (sharedOf root).any (fun d => d.name == name && d.meaning.serves usage)
        then some (.inl name) else none := by
  have hshared : ∀ d ∈ declarations {} root, d.scope = ownScope root → d.name = name →
      isShared root d = true := by
    intro d _ hscope hname
    exact isShared_iff.2 ⟨hscope, hname ▸ hfree⟩
  calc
    ((tableOf root).serving (ownScope root) name usage).map (tell root)
        = ((Table.ofDeclarations (sharedOf root)).serving (ownScope root) name usage).map
            (tell root) :=
          congrArg _ (Table.serving_of_part h.detached_isShared sharedOf_subset filter_sharedOf
            hshared usage)
    _ = (((Table.ofDeclarations (sharedOf root)).serving (ownScope root) name usage).map
            (·.name)).map .inl := by
          rw [Option.map_map]
          refine Option.map_congr fun s hs => tell_of_shared ?_
          exact Table.mem_symbols_of_serving (Option.mem_def.1 hs)
    _ = _ := by
          rw [(joined_sharedOf root).serving_name]
          split_ifs <;> rfl

/-- What is declared where something is declared for the module, under a name that no block
captures. -/
theorem tell_declared {d : Declaration} (hd : d ∈ sharedOf root) :
    ((tableOf root).declared d.site).map (tell root) = some (.inl d.name) := by
  obtain ⟨hdr, hshared⟩ := List.mem_filter.1 hd
  obtain ⟨hscope, hfree⟩ := isShared_iff.1 hshared
  -- What else is declared at the place has the same name, and goes to the module too.
  have hall : ∀ e ∈ declarations {} root, e.site = d.site → isShared root e = true := by
    intro e he hsite
    have hname := h.name_eq_of_site he hdr hsite
    refine isShared_iff.2 ⟨?_, hname ▸ hfree⟩
    by_contra hinside
    exact h.sided d hdr e he hscope hinside hsite.symm
  have hdeclared := Table.declared_of_part h.detached_isShared sharedOf_subset filter_sharedOf hall
  have hname : ((Table.ofDeclarations (sharedOf root)).declared d.site).map (·.name) =
      some d.name := by
    refine (joined_sharedOf root).declared_name hd (fun e he hsite => ?_)
      (Table.sites_ofDeclarations _)
    exact h.name_eq_of_site (sharedOf_subset he) hdr hsite
  obtain ⟨s, hs, hsname⟩ := Option.map_eq_some_iff.1 hname
  have hsymbol := (Table.traced_ofDeclarations _).mem_symbols_of_declared hs
  rw [tableOf, hdeclared, hs, Option.map_some, tell_of_shared hsymbol, hsname]

include hr

/-- What a block declares for itself comes in the same order wherever the block stands. -/
theorem filter_isOf {b : Tree} (hb : b ∈ blocks root) :
    (declarations {} root).filter (isOf root b) = (declarations {} root').filter (isOf root b) := by
  rw [declarations_blocks h.module, declarations_blocks hr.module, hr.around, List.filter_flatMap,
    List.filter_flatMap]
  refine flatMap_eq_of_perm (x := b) (fun b' hb' hne => ?_) hr.blocks
  rw [List.filter_eq_nil_iff]
  intro d hd hof
  exact hne (h.block_eq_of_site hb' hb hd (isOf_iff.1 hof).1 rfl)

theorem declarations_subset : declarations {} root' ⊆ declarations {} root :=
  (hr.declarations_perm h.module).symm.subset

/-- What a scope inside the module binds a name to. -/
theorem serving_inside {b : Tree} (hb : b ∈ blocks root) {scope : ScopeId} (hs : scope ∈ scopes b)
    (name : String) (usage : Usage) :
    (tableOf root).serving scope name usage = (tableOf root').serving scope name usage := by
  refine Table.serving_of_part (h.detached_isOf hb) (declarations_subset h hr) (filter_isOf h hr hb)
    (fun d hd hscope _ => ?_) usage
  have hne : d.scope ≠ ownScope root := by
    rw [hscope]
    rintro rfl
    exact h.ownScope_notMem hb hs
  obtain ⟨b', hb', hdb'⟩ := h.mem_blocks hd
  rcases mem_scopes_of_mark hdb' List.mem_cons_self with hmem | ⟨heq, -⟩
  · obtain rfl := h.block_eq_of_scope hb hb' hs (hscope ▸ hmem)
    refine isOf_iff.2 ⟨hdb', ?_⟩
    rw [← Bool.not_eq_true, isShared_iff]
    exact fun hshared => hne hshared.1
  · exact absurd heq hne

/-- A rearranged module shares the same declarations in some order. -/
theorem sharedOf_perm : (sharedOf root).Perm (sharedOf root') := by
  rw [sharedOf, sharedOf, hr.isShared_eq h.module]
  exact (hr.declarations_perm h.module).filter _

/-- What the module's scope binds a name to. -/
theorem serving_ownScope (name : String) (usage : Usage) :
    ((tableOf root).serving (ownScope root) name usage).map (tell root) =
      ((tableOf root').serving (ownScope root) name usage).map (tell root) := by
  by_cases hcaptured : Captured root name
  · -- All that is declared under the name for the module stands in one block.
    obtain ⟨d, hd, -, -, rfl, hscope, -⟩ := id hcaptured
    obtain ⟨b, hb, hdb⟩ := h.mem_blocks hd
    refine congrArg _ (Table.serving_of_part (h.detached_isOf hb) (declarations_subset h hr)
      (filter_isOf h hr hb) (fun e he hscope' hname => ?_) usage)
    obtain ⟨b', hb', heb'⟩ := h.mem_blocks he
    obtain rfl := h.block_eq_of_captured hb hb' hdb heb' hscope hscope' hname.symm hcaptured
    refine isOf_iff.2 ⟨heb', ?_⟩
    rw [← Bool.not_eq_true, isShared_iff, hname]
    exact fun hshared => hshared.2 hcaptured
  · have hfree : ¬ Captured root' name := mt (hr.captured_iff h.module name).1 hcaptured
    have hleft := tell_serving h hcaptured usage
    have hright := tell_serving (h.rearranged hr) hfree usage
    rw [hr.ownScope_eq, tell_rearranged h.module hr] at hright
    rw [hleft, hright, (sharedOf_perm h hr).any_eq]

/-- What is declared at a place. -/
theorem declared_tell (site : Span) :
    ((tableOf root).declared site).map (tell root) =
      ((tableOf root').declared site).map (tell root) := by
  by_cases hshared : ∃ d ∈ sharedOf root, d.site = site
  · obtain ⟨d, hd, rfl⟩ := hshared
    have hright := tell_declared (h.rearranged hr) ((sharedOf_perm h hr).mem_iff.1 hd)
    rw [tell_rearranged h.module hr] at hright
    rw [tell_declared h hd, hright]
  · -- Whatever is declared there stands in one block, or nothing is.
    obtain ⟨b, hb, hall⟩ : ∃ b ∈ blocks root, ∀ d ∈ declarations {} root, d.site = site →
        d ∈ declarations (bodyAround root) b := by
      by_cases hsome : ∃ d ∈ declarations {} root, d.site = site
      · obtain ⟨d, hd, rfl⟩ := hsome
        obtain ⟨b, hb, hdb⟩ := h.mem_blocks hd
        refine ⟨b, hb, fun e he hsite => ?_⟩
        obtain ⟨b', hb', heb'⟩ := h.mem_blocks he
        exact h.block_eq_of_site hb' hb heb' hdb hsite ▸ heb'
      · exact ⟨_, List.mem_cons_self, fun d hd hsite => absurd ⟨d, hd, hsite⟩ hsome⟩
    refine congrArg _ (Table.declared_of_part (h.detached_isOf hb) (declarations_subset h hr)
      (filter_isOf h hr hb) fun d hd hsite => isOf_iff.2 ⟨hall d hd hsite, ?_⟩)
    rw [← Bool.not_eq_true]
    exact fun htrue => hshared ⟨d, List.mem_filter.2 ⟨hd, htrue⟩, hsite⟩

/-- What a use means that stands in a block. -/
theorem resolve_tell {b : Tree} (hb : b ∈ blocks root) {inner : Env} (hinner : inner ⊆ scopes b)
    (name : String) (usage : Usage) :
    ((tableOf root).resolve (inner ++ [ownScope root]) name usage).map (tell root) =
      ((tableOf root').resolve (inner ++ [ownScope root]) name usage).map (tell root) := by
  have hsplit : ∀ t : Table, t.resolve (inner ++ [ownScope root]) name usage =
      (t.resolve inner name usage).or (t.serving (ownScope root) name usage) := by
    intro t
    rw [Table.resolve, List.findSome?_append]
    simp [Table.resolve]
  have hsame : (tableOf root).resolve inner name usage =
      (tableOf root').resolve inner name usage :=
    Table.findSome?_congr_of_mem fun s hs => serving_inside h hr hb (hinner hs) name usage
  rw [hsplit, hsplit, hsame]
  cases (tableOf root').resolve inner name usage with
  | some s => rfl
  | none => exact serving_ownScope h hr name usage

end Lookups

end Module

/-! ## Lookups -/

namespace Scope.Lookup

/-- The name is used in the module itself or in a block of it. -/
def Within (root : Tree) : Lookup → Prop
  | declared _ => True
  | used env _ _ => ∃ b ∈ blocks root, ∃ inner, env = inner ++ [ownScope root] ∧ inner ⊆ scopes b

variable {root root' : Tree} {x y : Lookup}

/-- A lookup finds the same in both modules, as far as it is told. -/
theorem find_tell (h : Arrangeable root) (hr : Rearranged root root') (hx : x.Within root) :
    (x.find (tableOf root)).map (tell root) = (x.find (tableOf root')).map (tell root) := by
  cases x with
  | declared site => exact declared_tell h hr site
  | used env name usage =>
      obtain ⟨b, hb, inner, rfl, hinner⟩ := hx
      exact resolve_tell h hr hb hinner name usage

/-- A lookup within a module is one within the rearranged module. -/
theorem Within.rearranged (hx : x.Within root) (hr : Rearranged root root') : x.Within root' := by
  cases x with
  | declared site => trivial
  | used env name usage =>
      obtain ⟨b, hb, inner, rfl, hinner⟩ := hx
      exact ⟨b, hr.blocks.mem_iff.1 hb, inner, by rw [hr.ownScope_eq], hinner⟩

/-- Two lookups that find the same symbol do so in the rearranged module. -/
theorem Same.rearranged (h : Arrangeable root) (hr : Rearranged root root') (hx : x.Within root)
    (hy : y.Within root) (hsame : Same (tableOf root) x y) : Same (tableOf root') x y := by
  obtain ⟨s, hxs, hys⟩ := hsame
  have hxtell := find_tell h hr hx
  have hytell := find_tell h hr hy
  rw [hxs, Option.map_some, eq_comm, Option.map_eq_some_iff] at hxtell
  rw [hys, Option.map_some, eq_comm, Option.map_eq_some_iff] at hytell
  obtain ⟨s₁, hx₁, hs₁⟩ := hxtell
  obtain ⟨s₂, hy₂, hs₂⟩ := hytell
  -- What both find in the other table is told alike, so it is the same there too.
  have heq : s₁ = s₂ := by
    refine tell_inj (h.rearranged hr) (mem_symbols_of_find hx₁) (mem_symbols_of_find hy₂) ?_
    rw [tell_rearranged h.module hr, hs₁, hs₂]
  exact ⟨s₁, hx₁, heq ▸ hy₂⟩

/-- Two lookups find the same symbol in any order of the statements, or in none. -/
theorem same_iff (h : Arrangeable root) (hr : Rearranged root root') (hx : x.Within root)
    (hy : y.Within root) : Same (tableOf root) x y ↔ Same (tableOf root') x y := by
  constructor
  · exact Same.rearranged h hr hx hy
  · exact Same.rearranged (h.rearranged hr) (hr.symm h.module) (hx.rearranged hr) (hy.rearranged hr)

end Scope.Lookup

end RouteSplit
