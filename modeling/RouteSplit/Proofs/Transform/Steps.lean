import RouteSplit.Proofs.Transform.Pruning
import RouteSplit.Proofs.Tree.Wrapping
import RouteSplit.Session

/-!
# Steps in any order

The steps of a transform can be taken in any order, each with options of its own, and a step that
fails is no reason to stop. Whatever they leave is a tree that can be written down: a construct goes
with the last of its items, and only statement lists lose anything.

- `Session.Step`, `Session.after`: steps, and a session after a number of them;
- `Tree.isWhole`: a node has the parts that it cannot do without;
- `Tree.isBare`: an import or an export without names, or a pattern without items;
- `Heir`, `Follows`: the nodes of a tree stand where nodes of another stood, and are as good;
- `follows_deletions`, `follows_resolve`, `follows_decorate`: what each kind of change leaves;
- `follows_take`, `follows_after`: what a step and what any number of steps leave;
- `steps_whole`: steps keep nodes whole, and empty no import, no export and no pattern.
-/

namespace RouteSplit

open Relation Scope Sweep Export RouteSplit.Module

/-! ## Steps -/

namespace Session

/-- A step of a transform, with the options that it is taken with. -/
inductive Step where
  | seed
  | resolve (o : Options)
  | sweep (o : Options)
  | decorate (o : Options)

/-- The session after a step, whether or not the step succeeds. -/
def take (s : Session) : Step → Session
  | .seed => s.seed.1
  | .resolve o => s.resolve o
  | .sweep o => (s.sweep o).1
  | .decorate o => (s.decorate o).1

/-- The session after a number of steps. -/
def after (s : Session) (steps : List Step) : Session := steps.foldl take s

theorem seed_root (s : Session) : s.seed.1.module.root = s.module.root := by
  unfold seed
  split <;> rfl

end Session

/-! ## Whole nodes and bare lists -/

namespace Tree

/-- The nodes of a tree. -/
def nodes (t : Tree) : List Tree := gather (fun _ l s ps => [.node l s ps]) {} t

/-- The nodes of a tree are those inside it. -/
theorem mem_nodes {x t : Tree} : x ∈ nodes t ↔ Inside x t := by
  unfold nodes
  generalize ({} : Around) = a
  induction t using Tree.induct generalizing a with
  | node l s ps ih =>
      rw [mem_gather_node]
      constructor
      · rintro (hx | ⟨i, c, hc, hx⟩)
        · obtain rfl := List.mem_singleton.1 hx
          exact .refl
        · have hmem := List.mem_of_getElem? hc
          exact .part hmem ((ih c hmem _).1 hx)
      · intro hx
        cases hx with
        | refl => exact Or.inl (List.mem_singleton_self _)
        | part hc hx =>
            rcases List.mem_iff_getElem?.1 hc with ⟨i, hi⟩
            exact Or.inr ⟨i, _, hi, (ih _ hc _).2 hx⟩

/-- Whether a node can be written with such parts: a declaration of variables has a variable, the
body of an arrow that is no block is one expression, and what an export lists is a list. -/
def allows : Label → List Label → Bool
  | .statement (.variableList _ _), parts => !parts.isEmpty
  | .function .expressionBody, [e] => isExpression e
  | .function .expressionBody, _ => false
  | .module (.exportNamed _), _ :: listed :: _ => listed == .module .exportSpecifiers
  | _, _ => true

/-- Whether a node has the parts that it cannot do without. -/
def isWhole (t : Tree) : Bool := allows t.label (t.children.map label)

/-- Whether an import or an export names nothing here: there is no list, or none with items. -/
def isBlank : Tree → Bool
  | .node .absent _ _ | .node (.module .importClause) _ []
  | .node (.module .exportSpecifiers) _ [] => true
  | _ => false

/-- Whether a node is an import or an export without names, or a pattern without items. -/
def isBare : Tree → Bool
  | .node (.module (.importDeclaration _ _)) _ (clause :: _) => clause.isBlank
  | .node (.module (.exportNamed _)) _ (declaration :: listed :: _) =>
    declaration.isAbsent && listed.isBlank
  | .node (.pattern .object) _ [] | .node (.pattern .array) _ [] => true
  | .node (.pattern .objectTarget) _ [] | .node (.pattern .arrayTarget) _ [] => true
  | _ => false

/-- Whether a node can be bare. -/
def lists : Label → Bool
  | .module (.importDeclaration _ _) | .module (.exportNamed _) | .pattern .object
  | .pattern .array | .pattern .objectTarget | .pattern .arrayTarget => true
  | _ => false

theorem lists_of_isBare {t : Tree} (h : isBare t = true) : lists t.label = true := by
  unfold isBare at h
  split at h
  all_goals first | rfl | simp at h

/-- The imports, exports and patterns of a tree, each with its place. -/
def listPlaces (t : Tree) : List (Label × Span) :=
  ((nodes t).filter fun x => lists x.label).map fun x => (x.label, x.span)

/-- Nodes that are lists are told apart by their places. -/
theorem eq_of_listPlaces {t x y : Tree} (h : (listPlaces t).Nodup) (hx : x ∈ nodes t)
    (hy : y ∈ nodes t) (hlist : lists x.label = true) (hlabel : x.label = y.label)
    (hspan : x.span = y.span) : x = y := by
  refine List.inj_on_of_nodup_map h ?_ ?_ (Prod.ext hlabel hspan)
  · exact List.mem_filter.2 ⟨hx, hlist⟩
  · exact List.mem_filter.2 ⟨hy, hlabel ▸ hlist⟩

/-- With items, only a part that stands for no list is blank. -/
theorem label_of_isBlank {l : Label} {s : Span} {ps : List Tree} (hps : ps ≠ [])
    (h : isBlank (.node l s ps) = true) : l = .absent := by
  unfold isBlank at h
  split at h
  all_goals simp_all

/-- Nodes with this label are whole and not bare with any items that they have. -/
structure IsList (l : Label) : Prop where
  body : l ≠ .function .expressionBody
  imports : ∀ b phase, l ≠ .module (.importDeclaration b phase)
  exports : ∀ b, l ≠ .module (.exportNamed b)

theorem isBare_of_items {l : Label} (himport : ∀ b phase, l ≠ .module (.importDeclaration b phase))
    (hexport : ∀ b, l ≠ .module (.exportNamed b)) (s : Span) {ps : List Tree} (hps : ps ≠ []) :
    isBare (.node l s ps) = false := by
  unfold isBare
  split
  all_goals simp_all

/-- A construct with items is whole. -/
theorem IsList.isWhole {l : Label} (hl : IsList l) (s : Span) {ps : List Tree} (hps : ps ≠ []) :
    isWhole (.node l s ps) = true := by
  have hbody := hl.body
  have hexport := hl.exports
  unfold Tree.isWhole allows
  split
  · simpa using hps
  all_goals simp_all

end Tree

/-! ## Nodes and their heirs -/

/-- `y` stands where `x` stood. It is whole if `x` was, and bare only if `x` was. -/
structure Heir (x y : Tree) : Prop where
  label : x.label = y.label
  span : x.span = y.span
  whole : x.isWhole = true → y.isWhole = true
  bare : y.isBare = true → x.isBare = true
  /-- A list of names tells whether the import or the export around it is bare. -/
  blank : y.isBlank = true → x.isBlank = true

theorem Heir.refl (x : Tree) : Heir x x := ⟨rfl, rfl, id, id, id⟩

/-- The heir of an heir is an heir. -/
theorem Heir.trans {x y z : Tree} (h : Heir x y) (h' : Heir y z) : Heir x z where
  label := h.label.trans h'.label
  span := h.span.trans h'.span
  whole hx := h'.whole (h.whole hx)
  bare hz := h.bare (h'.bare hz)
  blank hz := h.blank (h'.blank hz)

/-- A node that needs no predecessor. -/
def Fresh (y : Tree) : Prop := y.isWhole = true ∧ y.isBare = false

/-- The heir of something fresh is fresh. -/
theorem Heir.fresh {x y : Tree} (h : Heir x y) (hx : Fresh x) : Fresh y := by
  refine ⟨h.whole hx.1, ?_⟩
  by_contra hbare
  have hempty := h.bare (by simpa using hbare)
  simp [hx.2] at hempty

/-- `u` stands where `t` stood, and each node of `u` is the heir of a node of `t` or needs none. -/
structure Follows (t u : Tree) : Prop where
  heir : Heir t u
  nodes : ∀ y, Inside y u → Fresh y ∨ ∃ x, Inside x t ∧ Heir x y

theorem Follows.refl (t : Tree) : Follows t t :=
  ⟨Heir.refl t, fun y hy => Or.inr ⟨y, hy, Heir.refl y⟩⟩

/-- What follows in two steps follows in one. -/
theorem Follows.trans {t u v : Tree} (h : Follows t u) (h' : Follows u v) : Follows t v := by
  refine ⟨h.heir.trans h'.heir, fun y hy => ?_⟩
  rcases h'.nodes y hy with hfresh | ⟨x, hx, hheir⟩
  · exact Or.inl hfresh
  · rcases h.nodes x hx with hfresh | ⟨w, hw, hheir'⟩
    · exact Or.inl (hheir.fresh hfresh)
    · exact Or.inr ⟨w, hw, hheir'.trans hheir⟩

/-- What follows a tree of whole nodes is such a tree. -/
theorem Follows.whole {t u : Tree} (h : Follows t u)
    (ht : ∀ x ∈ Tree.nodes t, x.isWhole = true) : ∀ y ∈ Tree.nodes u, y.isWhole = true := by
  intro y hy
  rcases h.nodes y (Tree.mem_nodes.1 hy) with hfresh | ⟨x, hx, hheir⟩
  · exact hfresh.1
  · exact hheir.whole (ht x (Tree.mem_nodes.2 hx))

/-- Each of the trees `qs` follows one of `ps`, or has no node that needs a predecessor. -/
def FollowAll (ps qs : List Tree) : Prop :=
  ∀ q ∈ qs, (∃ p ∈ ps, Follows p q) ∨ ∀ y, Inside y q → Fresh y

section Parts

variable {l : Label} {s : Span} {ps qs before behind : List Tree} {t u : Tree}

/-- Fewer parts follow from more. -/
theorem followAll_of_subset (h : qs ⊆ ps) : FollowAll ps qs :=
  fun q hq => Or.inl ⟨q, h hq, Follows.refl q⟩

/-- What is left of an item follows it, and the others stay. -/
theorem followAll_left {left : Option Tree} (h : ∀ u ∈ left, Follows t u) :
    FollowAll (before ++ t :: behind) (before ++ left.toList ++ behind) := by
  intro q hq
  simp only [List.mem_append, Option.mem_toList] at hq
  rcases hq with (hq | hq) | hq
  · exact Or.inl ⟨q, by simp [hq], Follows.refl q⟩
  · exact Or.inl ⟨t, by simp, h q hq⟩
  · exact Or.inl ⟨q, by simp [hq], Follows.refl q⟩

/-- A node follows another if it is its heir and its parts follow parts. -/
theorem follows_node (hself : Heir (.node l s ps) (.node l s qs))
    (hparts : FollowAll ps qs) : Follows (.node l s ps) (.node l s qs) := by
  refine ⟨hself, fun y hy => ?_⟩
  cases hy with
  | refl => exact Or.inr ⟨_, .refl, hself⟩
  | part hq hy =>
      rcases hparts _ hq with ⟨p, hp, hfollows⟩ | hfresh
      · rcases hfollows.nodes y hy with hfresh | ⟨x, hx, hheir⟩
        · exact Or.inl hfresh
        · exact Or.inr ⟨x, .part hp hx, hheir⟩
      · exact Or.inl (hfresh y hy)

/-- A list may lose items as long as one is left. -/
theorem follows_items (hl : Tree.IsList l) (hqs : qs ≠ []) (hparts : FollowAll ps qs) :
    Follows (.node l s ps) (.node l s qs) := by
  refine follows_node ⟨rfl, rfl, fun _ => hl.isWhole s hqs, ?_, ?_⟩ hparts
  · intro hbare
    simp [Tree.isBare_of_items hl.imports hl.exports s hqs] at hbare
  · intro hblank
    rw [Tree.label_of_isBlank hqs hblank]
    rfl

/-- A list of statements may lose all of them. -/
theorem follows_statements (hparts : FollowAll ps qs) :
    Follows (.node (.module .statements) s ps) (.node (.module .statements) s qs) := by
  refine follows_node ⟨rfl, rfl, id, ?_, ?_⟩ hparts
  · simp [Tree.isBare]
  · simp [Tree.isBlank]

/-- With the heir of a part in its place, a node is the heir of what it was. -/
theorem heir_part (h : Heir t u) :
    Heir (.node l s (before ++ t :: behind)) (.node l s (before ++ u :: behind)) where
  label := rfl
  span := rfl
  whole hwhole := by
    simpa [Tree.isWhole, h.label] using hwhole
  bare hbare := by
    by_cases himport : ∃ b phase, l = .module (.importDeclaration b phase)
    · rcases himport with ⟨b, phase, rfl⟩
      -- The list of an import is its first part.
      cases before with
      | nil => exact h.blank hbare
      | cons clause others => exact hbare
    by_cases hexport : ∃ b, l = .module (.exportNamed b)
    · rcases hexport with ⟨b, rfl⟩
      -- The list of an export comes second, behind the declaration.
      match before, behind, hbare with
      | [], [], hbare => simp [Tree.isBare] at hbare
      | [], listed :: rest, hbare => simpa [Tree.isBare, Tree.isAbsent, h.label] using hbare
      | [d], behind, hbare =>
          rcases Bool.and_eq_true_iff.1 hbare with ⟨habsent, hblank⟩
          exact Bool.and_eq_true_iff.2 ⟨habsent, h.blank hblank⟩
      | d :: listed :: others, behind, hbare => exact hbare
    have hitems : before ++ u :: behind ≠ [] := by simp
    simp [Tree.isBare_of_items (fun b phase heq => himport ⟨b, phase, heq⟩)
      (fun b heq => hexport ⟨b, heq⟩) s hitems] at hbare
  blank hblank := by
    have hitems : before ++ u :: behind ≠ [] := by simp
    rw [Tree.label_of_isBlank hitems hblank]
    rfl

/-- A tree in which one part is followed by another is followed as a whole. -/
theorem follows_part (before behind : List Tree) (h : Follows t u) :
    Follows (.node l s (before ++ t :: behind)) (.node l s (before ++ u :: behind)) := by
  refine follows_node (heir_part h.heir) ?_
  have hparts : FollowAll (before ++ t :: behind) (before ++ (some u).toList ++ behind) :=
    followAll_left fun v hv => Option.mem_some_iff.1 hv ▸ h
  simpa using hparts

end Parts

/-! ## Deletions -/

/-- A hole that is left for a name is fresh. -/
theorem fresh_hole {place : Span} {y : Tree} (h : Inside y (.node (.expression .hole) place [])) :
    Fresh y := by
  cases h with
  | refl => exact ⟨rfl, rfl⟩
  | part hc => simp at hc

/-- What is left of a target follows from it. -/
theorem follows_target {t u : Tree} (h : TargetLoses t (some u)) : Follows t u := by
  generalize hleft : some u = left at h
  cases h with
  | name => cases hleft
  | part =>
      rcases leftOf_eq_some.1 hleft.symm with ⟨hkept, rfl⟩
      exact follows_items ⟨by simp, by simp, by simp⟩ hkept (followAll_of_subset (by simp))
  | element _ _ htrims =>
      rcases leftOf_eq_some.1 hleft.symm with ⟨hkept, rfl⟩
      refine follows_items ⟨by simp, by simp, by simp⟩ hkept fun q hq => ?_
      have hplace := htrims.subset hq
      simp only [List.mem_append, List.mem_cons] at hplace
      rcases hplace with hq | rfl | hq
      · exact Or.inl ⟨q, by simp [hq], Follows.refl q⟩
      · exact Or.inr fun y hy => fresh_hole hy
      · exact Or.inl ⟨q, by simp [hq], Follows.refl q⟩
  | rest _ htrims =>
      rcases leftOf_eq_some.1 hleft.symm with ⟨hkept, rfl⟩
      refine follows_items ⟨by simp, by simp, by simp⟩ hkept (followAll_of_subset ?_)
      exact List.Subset.trans htrims.subset (by simp)

/-- What is left of a declarator follows from it. -/
theorem follows_declarator {t u : Tree} (h : DeclaratorLoses t (some u)) : Follows t u := by
  generalize hleft : some u = left at h
  cases h with
  | target htarget =>
      rcases Option.map_eq_some_iff.1 hleft.symm with ⟨v, rfl, rfl⟩
      exact follows_part [] _ (follows_target htarget)

/-- What is left of a statement follows from it. -/
theorem follows_statement {t u : Tree} (h : StatementLoses t (some u)) : Follows t u := by
  generalize hleft : some u = left at h
  cases h with
  | function | assignment => cases hleft
  | «variables» hd =>
      rcases leftOf_eq_some.1 hleft.symm with ⟨hkept, rfl⟩
      refine follows_items ⟨by simp, by simp, by simp⟩ hkept (followAll_left ?_)
      rintro v rfl
      exact follows_declarator hd
  | specifier =>
      rcases leftOf_eq_some.1 hleft.symm with ⟨hkept, rfl⟩
      refine follows_part [] _ (follows_items ⟨by simp, by simp, by simp⟩ hkept ?_)
      exact followAll_of_subset (by simp)

/-- A deletion leaves whole what was whole, and empties no list that it leaves. -/
theorem follows_deletion {t u : Tree} (h : Deletion t u) : Follows t u := by
  induction h with
  | statement hloses =>
      refine follows_statements (followAll_left ?_)
      rintro v rfl
      exact follows_statement hloses
  | inside _ ih => exact follows_part _ _ ih

/-- What is left behind deletions follows from what was there before. -/
theorem follows_deletions {t u : Tree} (h : ReflTransGen Deletion t u) : Follows t u := by
  induction h with
  | refl => exact Follows.refl _
  | tail _ hdeletion ih => exact ih.trans (follows_deletion hdeletion)

/-! ## Exports -/

/-- A module follows another if its statements do. -/
theorem follows_withStatements {root : Tree} (h : IsModule root) {ss : List Tree}
    (hss : FollowAll (statementsOf root) ss) : Follows root (withStatements root ss) := by
  rcases h with ⟨line, strict, s, prologue, inner, old, rfl⟩
  exact follows_part [prologue] [] (follows_statements hss)

/-- What is left of an exported declaration follows from it. -/
theorem follows_exciseDeclaration {name : String} {d d' : Tree}
    (h : exciseDeclaration name d = some d') : Follows d d' := by
  revert h
  fun_cases exciseDeclaration name d with
  | case1 | case3 => simp
  | case2 kind declared span declarators hgone =>
      intro h
      obtain rfl := Option.some.inj h
      by_cases hkept : keptDeclarators name declarators = []
      · -- A declaration that is empty now was empty before.
        have hlength : 0 = declarators.length := by simpa [hkept] using hgone
        obtain rfl := List.length_eq_zero_iff.1 hlength.symm
        exact Follows.refl _
      · refine follows_items ⟨by simp, by simp, by simp⟩ hkept ?_
        exact followAll_of_subset (List.filter_subset_self declarators)
  | case4 =>
      intro h
      obtain rfl := Option.some.inj h
      exact Follows.refl _

/-- What is left of a statement without an export. -/
theorem follows_excise {name : String} {t u : Tree} (ht : t.isWhole = true)
    (h : excise name t = some u) : Follows t u := by
  cases exportForm t with
  | @listed b s d sp rest hlisted =>
      rw [excise_listed hlisted] at h
      rcases Option.ite_none_left_eq_some.1 h with ⟨hkept, hu⟩
      obtain rfl := Option.some.inj hu
      have hlabel : sp.label = .module .exportSpecifiers := by
        simpa [Tree.isWhole, Tree.allows] using ht
      rcases sp with ⟨l, inner, ts⟩
      obtain rfl : l = .module .exportSpecifiers := hlabel
      refine follows_part [d] rest
        (follows_items ⟨by simp, by simp, by simp⟩ (by simpa using hkept) ?_)
      exact followAll_of_subset (List.filter_subset_self ts)
  | @declared b s d sp rest hlisted =>
      rw [excise_declared hlisted] at h
      rcases Option.map_eq_some_iff.1 h with ⟨d', hd', rfl⟩
      exact follows_part [] _ (follows_exciseDeclaration hd')
  | other hother =>
      rw [excise_other hother] at h
      obtain rfl := Option.some.inj h
      exact Follows.refl _

theorem mem_nodes_statement {root t : Tree} (h : IsModule root) (ht : t ∈ statementsOf root) :
    t ∈ Tree.nodes root := by
  rcases h with ⟨line, strict, s, prologue, inner, ss, rfl⟩
  have hlist : Inside t (.node (.module .statements) inner ss) := .part ht .refl
  exact Tree.mem_nodes.2 (.part (by simp) hlist)

/-- Resolved exports leave whole what was whole, and empty no list that they leave. -/
theorem follows_resolve (o : Options) {root : Tree} (h : IsModule root)
    (hwhole : ∀ x ∈ Tree.nodes root, x.isWhole = true) (c : Context) :
    Follows root (resolve o root c).1 := by
  refine follows_withStatements h fun u hu => Or.inl ?_
  rcases settled_keepStatements hu with ⟨-, t, ht, rfl | hex⟩
  · exact ⟨u, ht, Follows.refl u⟩
  · exact ⟨t, ht, follows_excise (hwhole t (mem_nodes_statement h ht)) hex⟩

/-- All of the marker is fresh. -/
theorem fresh_marker {name : String} {y : Tree} (h : Inside y (marker name)) : Fresh y := by
  have hnodes : (Tree.nodes (marker name)).all (fun y => y.isWhole && !y.isBare) = true := rfl
  simpa [Fresh] using List.all_eq_true.1 hnodes y (Tree.mem_nodes.2 h)

/-- A marked module has whole nodes besides those that it had. -/
theorem follows_decorate {o : Options} {root : Tree} (h : IsModule root) (c : Context) :
    Follows root (decorate o root c).1 := by
  rcases hdecorate : decorate o root c with ⟨P, c', injected⟩
  rcases decorate_spec hdecorate with ⟨-, hmarked, hunmarked⟩
  cases injected with
  | false =>
      obtain rfl := hunmarked rfl
      exact Follows.refl _
  | true =>
      rcases hmarked rfl with ⟨before, given, behind, hfirst, rfl⟩
      refine follows_withStatements h fun q hq => ?_
      simp only [List.mem_append, List.mem_cons] at hq
      by_cases hq' : q = marker o.markerName
      · subst hq'
        exact Or.inr fun y hy => fresh_marker hy
      · refine followAll_of_subset (List.Subset.refl _) q ?_
        rw [hfirst.parts]
        simp only [List.mem_append, List.mem_cons]
        simpa [hq'] using hq

theorem isModule_decorate {o : Options} {root : Tree} (h : IsModule root) (c : Context) :
    IsModule (decorate o root c).1 := by
  rcases hdecorate : decorate o root c with ⟨P, c', injected⟩
  rcases decorate_cases hdecorate with ⟨rfl, -⟩ | ⟨-, -, -, ss, -, rfl⟩
  · exact h
  · exact isModule_withStatements h ss

/-! ## Steps in any order -/

/-- A module of whole nodes. -/
structure IsWhole (root : Tree) : Prop where
  module : IsModule root
  nodes : ∀ x ∈ Tree.nodes root, x.isWhole = true

/-- Each step leaves a module a module. -/
theorem isModule_take {s : Session} (h : IsModule s.module.root) (step : Session.Step) :
    IsModule (s.take step).module.root := by
  cases step with
  | seed =>
      rw [Session.take, Session.seed_root]
      exact h
  | resolve o => exact isModule_withStatements h _
  | sweep o => exact isModule_reaches (reaches_sweep o s.module.root s.context) h
  | decorate o => exact isModule_decorate h s.context

/-- A step leaves whole what was whole, and empties no list that it leaves. -/
theorem follows_take {s : Session} (h : IsWhole s.module.root) (step : Session.Step) :
    Follows s.module.root (s.take step).module.root := by
  cases step with
  | seed =>
      rw [Session.take, Session.seed_root]
      exact Follows.refl _
  | resolve o => exact follows_resolve o h.module h.nodes s.context
  | sweep o => exact follows_deletions (deletions_reaches (reaches_sweep o s.module.root s.context))
  | decorate o => exact follows_decorate h.module s.context

/-- Each step leaves a whole tree whole. -/
theorem isWhole_take {s : Session} (h : IsWhole s.module.root) (step : Session.Step) :
    IsWhole (s.take step).module.root :=
  ⟨isModule_take h.module step, (follows_take h step).whole h.nodes⟩

/-- Any steps leave a whole tree whole. -/
theorem isWhole_after {s : Session} (h : IsWhole s.module.root) (steps : List Session.Step) :
    IsWhole (s.after steps).module.root := by
  induction steps generalizing s with
  | nil => exact h
  | cons step steps ih => exact ih (isWhole_take h step)

/-- So do steps in any number and order. -/
theorem follows_after {s : Session} (h : IsWhole s.module.root) (steps : List Session.Step) :
    Follows s.module.root (s.after steps).module.root := by
  induction steps generalizing s with
  | nil => exact Follows.refl _
  | cons step steps ih => exact (follows_take h step).trans (ih (isWhole_take h step))

/-- Steps in any order, with any options, and whether or not they succeed, leave a module of whole
nodes so: its declarations have variables, and arrows without a block one expression. An import, an
export in braces or a pattern that is empty in the end was empty at the start. Where these have
places of their own, none of them is emptied. -/
theorem steps_whole (s : Session) (steps : List Session.Step) (h : IsWhole s.module.root) :
    IsWhole (s.after steps).module.root ∧
    (∀ y ∈ Tree.nodes (s.after steps).module.root, y.isBare = true →
      ∃ x ∈ Tree.nodes s.module.root, x.isBare = true ∧ x.label = y.label ∧ x.span = y.span) ∧
    ((Tree.listPlaces s.module.root).Nodup →
      ∀ x ∈ Tree.nodes s.module.root, x.isBare = false →
        ∀ y ∈ Tree.nodes (s.after steps).module.root, x.label = y.label → x.span = y.span →
          y.isBare = false) := by
  have hbare : ∀ y ∈ Tree.nodes (s.after steps).module.root, y.isBare = true →
      ∃ x ∈ Tree.nodes s.module.root, x.isBare = true ∧ x.label = y.label ∧ x.span = y.span := by
    intro y hy hbare
    rcases (follows_after h steps).nodes y (Tree.mem_nodes.1 hy) with hfresh | ⟨x, hx, hheir⟩
    · simp [hfresh.2] at hbare
    · exact ⟨x, Tree.mem_nodes.2 hx, hheir.bare hbare, hheir.label, hheir.span⟩
  refine ⟨isWhole_after h steps, hbare, ?_⟩
  intro hplaces x hx hitems y hy hlabel hspan
  by_contra hempty
  rcases hbare y hy (by simpa using hempty) with ⟨x', hx', hbare', hlabel', hspan'⟩
  have heq : x' = x := Tree.eq_of_listPlaces hplaces hx' hx (Tree.lists_of_isBare hbare')
    (hlabel'.trans hlabel.symm) (hspan'.trans hspan.symm)
  simp [← heq, hbare'] at hitems

/-- A module that takes apart one of the names `a` and `b` that it imports:
`const [p, q] = b; export const routeData = () => a(p), page = () => q;`. -/
def arrowModule : Tree :=
  let leaf (label : Label) (start stop : Nat) : Tree := .node label ⟨start, stop⟩ []
  let read (name : String) (place : Nat) : Tree :=
    leaf (.expression (.reference name .read)) place (place + 1)
  let specifier (name : String) (place : Nat) : Tree :=
    .node (.module (.importNamed ⟨name, false⟩ false)) ⟨place, place + 1⟩
      [leaf (.pattern (.binding name)) place (place + 1)]
  let declarator (start stop : Nat) (target value : Tree) : Tree :=
    .node (.statement (.declarator false)) ⟨start, stop⟩ [target, .absent, value]
  let arrow (start stop : Nat) (value : Tree) : Tree :=
    .node (.function (.arrow { isExpression := true })) ⟨start, stop⟩
      [.absent, leaf (.function .parameters) start (start + 2), .absent,
        .node (.function .expressionBody) ⟨start + 6, stop⟩ [value]]
  moduleOf 96
    [.node (.module (.importDeclaration false none)) ⟨0, 25⟩
        [.node (.module .importClause) ⟨7, 15⟩ [specifier "a" 9, specifier "b" 12],
          leaf (.expression (.string [.char 'm'])) 21 24, .absent],
      .node (.statement (.variableList .constVariable false)) ⟨26, 43⟩
        [declarator 32 42
          (.node (.pattern .array) ⟨32, 38⟩
            [leaf (.pattern (.binding "p")) 33 34, leaf (.pattern (.binding "q")) 36 37])
          (read "b" 41)],
      .node (.module (.exportNamed false)) ⟨44, 96⟩
        [.node (.statement (.variableList .constVariable false)) ⟨51, 96⟩
            [declarator 57 79 (leaf (.pattern (.binding "routeData")) 57 66)
                (arrow 69 79 (.node (.expression (.call false false)) ⟨75, 79⟩
                  [read "a" 75, .absent, .node (.expression .arguments) ⟨76, 79⟩ [read "p" 77]])),
              declarator 81 95 (leaf (.pattern (.binding "page")) 81 85)
                (arrow 88 95 (read "q" 94))],
          leaf (.module .exportSpecifiers) 96 96, .absent, .absent]]

/-- The server data goes, and one name each of the import and the pattern. -/
theorem steps_whole_arrowModule :
    ∃ s : Session, s.module.root = arrowModule ∧ IsWhole arrowModule ∧
      (Tree.listPlaces arrowModule).Nodup ∧
      ∃ root, root = (s.after [.seed, .resolve .server, .sweep .server]).module.root ∧
        Binding.sites root = [⟨12, 13⟩, ⟨36, 37⟩] ∧ IsWhole root ∧
        ∀ y ∈ Tree.nodes root, y.isBare = false := by
  have hwhole : IsWhole arrowModule := ⟨⟨_, _, _, _, _, _, rfl⟩, by decide⟩
  have hitems : ∀ x ∈ Tree.nodes arrowModule, x.isBare = false := by decide
  let dialect : Dialect := { types := true, jsx := false, kind := .module }
  let s : Session := { module := ⟨arrowModule, [], dialect⟩ }
  obtain ⟨hafter, hbare, -⟩ := steps_whole s [.seed, .resolve .server, .sweep .server] hwhole
  refine ⟨s, rfl, hwhole, by decide, _, rfl, by decide, hafter, ?_⟩
  intro y hy
  by_contra hempty
  rcases hbare y hy (by simpa using hempty) with ⟨x, hx, hx', -⟩
  simp [hitems x hx] at hx'

end RouteSplit
