import Mathlib.Data.List.TakeWhile
import RouteSplit.Proofs.Sweep.Prune

/-!
# What a removal leaves

- `kept_cases`, `keptDeclarator_cases`, `keptTarget_cases`: what is left of a construct is the
  construct itself, or the construct without some of its items;
- `inShape_prune`: a pruned tree is in shape;
- `inside_map_prunePart`: pruning the parts of a node changes nothing about what they stand in;
- `prune_congr`: removals that take the same names leave the same.
-/

namespace RouteSplit.Sweep

variable (dead : List Binding)

/-! ## What is left of a construct -/

theorem taken_eq_nil (site : Span) : taken dead site = [] ↔ isDead dead site = false := by
  simp [taken, isDead]

theorem record_eq_nil (site : Option Span) : record dead site = [] ↔ goes dead site = false := by
  cases site with
  | none => simp [record, goes]
  | some site => simp [record, goes, taken_eq_nil]

/-- What is left of a declarator's target, if anything. -/
def keptTarget (t : Tree) : Option Tree := (keepTarget dead t).1

/-- What is left of a declarator, if anything. -/
def keptDeclarator (t : Tree) : Option Tree := (keepDeclarator dead t).1

/-- What is left of a specifier of an import, if anything. -/
def keptSpecifier (t : Tree) : Option Tree := (keepSpecifier dead t).1

/-- Whether a part of an object pattern goes. -/
def objectPartGoes (t : Tree) : Bool := goes dead (siteOf (Binding.objectPartTarget t))

/-- Whether a place of an array pattern becomes a hole or goes. -/
def arrayPartGoes (t : Tree) : Bool :=
  !Binding.isHole t && goes dead (siteOf (Binding.arrayPartTarget t))

/-- The parts of a target that go, if the target stays. -/
def lostParts : Tree → List Tree
  | .node (.pattern .object) _ parts => parts.filter (objectPartGoes dead)
  | .node (.pattern .array) _ parts => parts.filter (arrayPartGoes dead)
  | _ => []

/-- The code that goes with a declarator or with parts of its target. -/
def lostOfDeclarator (d : Tree) : List Tree :=
  if (keptDeclarator dead d).isNone then [d] else lostParts dead (d.child 0)

/-- The code that goes with a statement or with items of it. -/
def lost : Tree → List Tree
  | .node (.statement (.variableList _ _)) _ declarators =>
    declarators.flatMap (lostOfDeclarator dead)
  | .node (.module (.importDeclaration typeOnly phase)) span
      (.node (.module .importClause) clauseSpan specifiers :: rest) =>
    let t := .node (.module (.importDeclaration typeOnly phase)) span
      (.node (.module .importClause) clauseSpan specifiers :: rest)
    if (kept dead t).isNone then [t]
    else specifiers.filter fun s => (keptSpecifier dead s).isNone
  | t => if (kept dead t).isNone then [t] else []

/-- What is left of a pruned statement is the pruned rest of the statement. -/
theorem kept_prune {gone : List Binding} {t : Tree} (ht : t.inShape = true) :
    kept gone (prune dead t) = (kept gone t).map (prune dead) := by
  rw [kept, keepStatement_prune dead ht]
  rfl

variable {dead}

theorem keepUnless_fst (target : Option (String × Span)) (t : Tree) :
    (keepUnless dead target t).1 =
      if goes dead (target.map (·.2)) then none else some t := by
  simp only [keepUnless]
  split_ifs <;> rfl

theorem eq_of_keepUnless {target : Option (String × Span)} {t u : Tree}
    (h : (keepUnless dead target t).1 = some u) : u = t := by
  rw [keepUnless_fst] at h
  obtain ⟨-, h⟩ := Option.ite_none_left_eq_some.1 h
  exact (Option.some.inj h).symm

theorem eq_rebuild_of_keepItems {keep : Tree → Left Tree} {items : List Tree}
    {rebuild : List Tree → Tree} {u : Tree} (h : (keepItems keep items rebuild).1 = some u) :
    u = rebuild (items.filterMap fun t => (keep t).1) := by
  obtain ⟨-, h⟩ := Option.ite_none_left_eq_some.1 h
  exact (Option.some.inj h).symm

/-- A construct goes with its items if none stays and something was lost. -/
theorem keepItems_eq_none_iff {keep : Tree → Left Tree} {items : List Tree}
    {rebuild : List Tree → Tree} :
    (keepItems keep items rebuild).1 = none ↔
      (items.filterMap fun t => (keep t).1) = [] ∧ (items.flatMap fun t => (keep t).2) ≠ [] := by
  have hite : (keepItems keep items rebuild).1 = none ↔
      ((keepAll keep items).1.isEmpty && !(keepAll keep items).2.isEmpty) = true := by
    simp only [keepItems]
    exact ite_eq_left_iff.trans (by simp)
  rw [hite, Bool.and_eq_true, List.isEmpty_iff, Bool.not_eq_true', ← Bool.not_eq_true,
    List.isEmpty_iff]
  rfl

/-- A target is left as it is, or it is a pattern without some of its parts. -/
theorem keptTarget_cases {t u : Tree} (h : keptTarget dead t = some u) :
    (u = t ∧ lostParts dead t = []) ∨
    (∃ s ps, t = .node (.pattern .object) s ps ∧
      u = .node (.pattern .object) s (keepObjectParts dead ps)) ∨
    (∃ s ps, t = .node (.pattern .array) s ps ∧
      u = .node (.pattern .array) s (trimHoles (keepArrayParts dead ps))) := by
  unfold keptTarget at h
  fun_cases keepTarget dead t with
  | case1 name span parts hdead =>
      rw [keepTarget, if_pos hdead] at h
      simp at h
  | case2 name span parts hdead =>
      rw [keepTarget, if_neg hdead] at h
      exact Or.inl ⟨(Option.some.inj h).symm, rfl⟩
  | case3 span parts lost left =>
      obtain ⟨-, h⟩ := Option.ite_none_left_eq_some.1 h
      exact Or.inr (Or.inl ⟨span, parts, rfl, (Option.some.inj h).symm⟩)
  | case4 span parts lost hlost =>
      -- An array pattern with nothing put down is not rebuilt, so its holes stay as they were.
      rw [keepTarget, if_pos hlost] at h
      refine Or.inl ⟨(Option.some.inj h).symm, List.filter_eq_nil_iff.2 fun c hc => ?_⟩
      have hnone := List.flatMap_eq_nil_iff.1 (List.isEmpty_iff.1 hlost) c
      simp only [List.mem_filter, record_eq_nil] at hnone
      simp only [arrayPartGoes, Bool.and_eq_true, not_and, Bool.not_eq_true]
      exact fun hhole => hnone ⟨hc, hhole⟩
  | case5 span parts lost hlost left =>
      rw [keepTarget, if_neg hlost] at h
      obtain ⟨-, h⟩ := Option.ite_none_left_eq_some.1 h
      exact Or.inr (Or.inr ⟨span, parts, rfl, (Option.some.inj h).symm⟩)
  | case6 t hbinding hobject harray =>
      -- Anything else is no target and is left alone.
      rw [keepTarget] at h
      · refine Or.inl ⟨(Option.some.inj h).symm, ?_⟩
        rw [lostParts]
        · exact fun s ps => hobject s ps
        · exact fun s ps => harray s ps
      all_goals assumption

/-- What is left of a declarator is the declarator, or the declarator with what is left of its
target. -/
theorem keptDeclarator_cases {t u : Tree} (h : keptDeclarator dead t = some u) :
    u = t ∨ ∃ l s target target' rest, t = .node l s (target :: rest) ∧
      keptTarget dead target = some target' ∧ u = .node l s (target' :: rest) := by
  obtain ⟨l, s, ps⟩ := t
  cases ps with
  | nil => exact Or.inl (Option.some.inj h).symm
  | cons target rest =>
      obtain ⟨target', htarget, hu⟩ := Option.map_eq_some_iff.1 h
      exact Or.inr ⟨l, s, target, target', rest, rfl, htarget, hu.symm⟩

/-- What is left of a declaration of variables declares what is left of them. -/
theorem eq_of_kept_variables {k : VariableKind} {b : Bool} {s : Span} {ds : List Tree} {u : Tree}
    (h : kept dead (.node (.statement (.variableList k b)) s ds) = some u) :
    u = .node (.statement (.variableList k b)) s (ds.filterMap (keptDeclarator dead)) :=
  eq_rebuild_of_keepItems h

/-- What is left of an import imports the names that stay. -/
theorem eq_of_kept_import {o : Bool} {p : Option String} {s cs : Span} {ss rest : List Tree}
    {u : Tree} (h : kept dead (.node (.module (.importDeclaration o p)) s
      (.node (.module .importClause) cs ss :: rest)) = some u) :
    u = .node (.module (.importDeclaration o p)) s
      (.node (.module .importClause) cs (ss.filterMap (keptSpecifier dead)) :: rest) :=
  eq_rebuild_of_keepItems h

/-- A statement is left as it is, or it is a declaration without some of its items. -/
theorem kept_cases {t u : Tree} (h : kept dead t = some u) :
    u = t ∨
    (∃ kind declared s ds, t = .node (.statement (.variableList kind declared)) s ds ∧
      u = .node (.statement (.variableList kind declared)) s (ds.filterMap (keptDeclarator dead))) ∨
    (∃ typeOnly phase s cs ss rest,
      t = .node (.module (.importDeclaration typeOnly phase)) s
        (.node (.module .importClause) cs ss :: rest) ∧
      u = .node (.module (.importDeclaration typeOnly phase)) s
        (.node (.module .importClause) cs (ss.filterMap (keptSpecifier dead)) :: rest)) := by
  unfold kept at h
  fun_cases keepStatement dead t with
  | case1 => exact Or.inl (eq_of_keepUnless h)
  | case2 kind declared s ds =>
      exact Or.inr (Or.inl ⟨kind, declared, s, ds, rfl, eq_of_kept_variables h⟩)
  | case3 => exact Or.inl (eq_of_keepUnless h)
  | case4 typeOnly phase s cs ss rest =>
      exact Or.inr (Or.inr ⟨typeOnly, phase, s, cs, ss, rest, rfl, eq_of_kept_import h⟩)
  | case5 t hfunction hvariables hexpression himport =>
      rw [keepStatement] at h
      · exact Or.inl (Option.some.inj h).symm
      all_goals assumption

theorem keptDeclarator_prune {gone : List Binding} {t : Tree} (ht : t.inShape = true)
    (hl : IsPlain t.label) :
    keptDeclarator gone (prune dead t) = (keptDeclarator gone t).map (prune dead) := by
  rw [keptDeclarator, keepDeclarator_prune dead ht hl]
  rfl

theorem keptSpecifier_prune {gone : List Binding} {t : Tree}
    (hl : t.label ≠ .module .statements) :
    keptSpecifier gone (prune dead t) = (keptSpecifier gone t).map (prune dead) := by
  rw [keptSpecifier, keepSpecifier_prune dead hl]
  rfl

/-- Parts can be picked before or after something is done to them that the choice does not see. -/
theorem filter_map_of_congr {P : Tree → Bool} {f : Tree → Tree} {ps : List Tree}
    (hP : ∀ c ∈ ps, P (f c) = P c) : (ps.map f).filter P = (ps.filter P).map f := by
  rw [List.filter_map]
  congr 1
  exact List.filter_congr hP

/-- What a pruned target loses is the pruned code that the target loses. -/
theorem lostParts_prune {t : Tree} (ht : t.inShape = true) :
    lostParts dead (prune dead t) = (lostParts dead t).map (prune dead) := by
  fun_cases lostParts dead t with
  | case1 span parts =>
      have hparts := fun c hc => (Tree.inShape_part ht rfl (c := c) hc).2
      rw [prune_of_plain dead (by simp), lostParts]
      refine filter_map_of_congr fun c hc => ?_
      rw [objectPartGoes, objectPartGoes, objectPartTarget_prune dead (hparts c hc)]
  | case2 span parts =>
      have hparts := fun c hc => (Tree.inShape_part ht rfl (c := c) hc).2
      rw [prune_of_plain dead (by simp), lostParts]
      refine filter_map_of_congr fun c hc => ?_
      rw [arrayPartGoes, arrayPartGoes, arrayPartTarget_prune dead (hparts c hc), isHole_prune]
  | case3 t hobject harray =>
      rw [lostParts]
      · rfl
      · exact prune_ne_node dead (by simp) hobject
      · exact prune_ne_node dead (by simp) harray

theorem lostOfDeclarator_prune {t : Tree} (ht : t.inShape = true) (hl : IsPlain t.label) :
    lostOfDeclarator dead (prune dead t) = (lostOfDeclarator dead t).map (prune dead) := by
  have hchild : (t.child 0).inShape = true := Tree.inShape_child ht 0
  unfold lostOfDeclarator
  rw [keptDeclarator_prune ht hl, Option.isNone_map, child_prune_of_plain dead hl,
    lostParts_prune hchild]
  split_ifs <;> rfl

/-- A pruned statement that has no items goes as a whole or stays. -/
theorem lost_eq_of_pruned {t : Tree}
    (hvariables : ∀ k b s ds, t = .node (.statement (.variableList k b)) s ds → False)
    (himport : ∀ o p s cs ss rest, t = .node (.module (.importDeclaration o p)) s
      (.node (.module .importClause) cs ss :: rest) → False) :
    lost dead (prune dead t) =
      if (kept dead (prune dead t)).isNone then [prune dead t] else [] := by
  rw [lost]
  · exact fun _ _ => prune_ne_node dead (by simp) (hvariables _ _)
  · intro o p s cs ss rest heq
    obtain ⟨c, cs', rfl, hc, -⟩ := eq_cons_of_prune dead heq (by simp)
    obtain ⟨qs, rfl, -⟩ := eq_node_of_prune dead hc (by simp)
    exact himport _ _ _ _ _ _ rfl

/-- The code that goes can be told before the statement is pruned. -/
theorem lost_prune {t : Tree} (ht : t.inShape = true) :
    lost dead (prune dead t) = (lost dead t).map (prune dead) := by
  fun_cases lost dead t with
  | case1 kind declared span declarators =>
      rw [prune_of_plain dead (by simp), lost, List.flatMap_map, List.map_flatMap]
      apply List.flatMap_congr
      intro c hc
      exact lostOfDeclarator_prune (Tree.inShape_part ht rfl hc).1
        (isPlain_of_isDeclarator (Tree.isDeclarator_of_inShape ht hc))
  | case2 typeOnly phase span clauseSpan specifiers rest t' hnone =>
      -- The whole import went before, and it goes after.
      have hkept : kept dead _ = _ := kept_prune dead ht
      rw [prune_import] at hkept
      rw [prune_import, lost, hkept, Option.isNone_map, if_pos hnone, ← prune_import]
      rfl
  | case3 typeOnly phase span clauseSpan specifiers rest t' hsome =>
      have hkept : kept dead _ = _ := kept_prune dead ht
      have hclause := (Tree.inShape_part ht rfl List.mem_cons_self).1
      rw [prune_import] at hkept
      rw [prune_import, lost, hkept, Option.isNone_map, if_neg hsome]
      refine filter_map_of_congr fun c hc => ?_
      rw [keptSpecifier_prune (Tree.inShape_part hclause rfl hc).2, Option.isNone_map]
  -- Without items: it goes as a whole or stays, before as after.
  | case4 t hvariables himport hnone =>
      rw [lost_eq_of_pruned hvariables himport, kept_prune dead ht, Option.isNone_map, if_pos hnone]
      rfl
  | case5 t hvariables himport hsome =>
      rw [lost_eq_of_pruned hvariables himport, kept_prune dead ht, Option.isNone_map, if_neg hsome]
      rfl

/-! ## Labels and shapes stay -/

theorem keptTarget_label {t u : Tree} (h : keptTarget dead t = some u) : u.label = t.label := by
  rcases keptTarget_cases h with ⟨rfl, -⟩ | ⟨s, ps, rfl, rfl⟩ | ⟨s, ps, rfl, rfl⟩ <;> rfl

theorem keptDeclarator_label {t u : Tree} (h : keptDeclarator dead t = some u) :
    u.label = t.label := by
  rcases keptDeclarator_cases h with rfl | ⟨l, s, target, target', rest, rfl, -, rfl⟩ <;> rfl

/-- What is left of a statement is a statement of the same kind. -/
theorem kept_label {t u : Tree} (h : kept dead t = some u) : u.label = t.label := by
  rcases kept_cases h with rfl | ⟨kind, declared, s, ds, rfl, rfl⟩ |
    ⟨typeOnly, phase, s, cs, ss, rest, rfl, rfl⟩ <;> rfl

theorem keptSpecifier_eq {t u : Tree} (h : keptSpecifier dead t = some u) : u = t :=
  eq_of_keepUnless h

/-- Only holes are trimmed. -/
theorem exists_append_trimHoles (ps : List Tree) :
    ∃ hs, (∀ c ∈ hs, Binding.isHole c = true) ∧ trimHoles ps ++ hs = ps := by
  refine ⟨(ps.reverse.takeWhile Binding.isHole).reverse, ?_, ?_⟩
  · intro c hc
    exact List.mem_takeWhile_imp (List.mem_reverse.1 hc)
  · rw [trimHoles, ← List.reverse_append, List.takeWhile_append_dropWhile, List.reverse_reverse]

theorem mem_of_mem_trimHoles {ps : List Tree} {c : Tree} (h : c ∈ trimHoles ps) : c ∈ ps := by
  obtain ⟨hs, -, happend⟩ := exists_append_trimHoles ps
  rw [← happend]
  exact List.mem_append_left _ h

/-- A place of an array pattern is left as it is or is a hole now. -/
theorem mem_keepArrayParts {ps : List Tree} {c : Tree} (h : c ∈ keepArrayParts dead ps) :
    c ∈ ps ∨ ∃ d ∈ ps, c = holeAt d := by
  obtain ⟨d, hd, hc⟩ := List.mem_filterMap.1 h
  split_ifs at hc
  · exact Or.inl (Option.some.inj hc ▸ hd)
  · exact Or.inr ⟨d, hd, (Option.some.inj hc).symm⟩
  · exact Or.inl (Option.some.inj hc ▸ hd)

theorem inShape_keptTarget {t u : Tree} (ht : t.inShape = true)
    (h : keptTarget dead t = some u) : u.inShape = true := by
  rcases keptTarget_cases h with ⟨rfl, -⟩ | ⟨s, ps, rfl, rfl⟩ | ⟨s, ps, rfl, rfl⟩
  · exact ht
  · obtain ⟨hfits, hparts⟩ := Tree.inShape_node.1 ht
    refine Tree.inShape_node.2 ⟨Tree.fits_of_labels hfits ?_, ?_⟩
    · intro c hc
      exact ⟨c, List.mem_of_mem_filter hc, rfl⟩
    · intro c hc
      exact hparts c (List.mem_of_mem_filter hc)
  · have hparts := fun c hc => Tree.inShape_part ht rfl (c := c) hc
    have hleft : ∀ c ∈ trimHoles (keepArrayParts dead ps),
        c.inShape = true ∧ c.label ≠ .module .statements := by
      intro c hc
      rcases mem_keepArrayParts (mem_of_mem_trimHoles hc) with hc | ⟨d, -, rfl⟩
      · exact hparts c hc
      · exact ⟨rfl, by simp [holeAt]⟩
    refine Tree.inShape_node.2 ⟨?_, fun c hc => (hleft c hc).1⟩
    simpa [Tree.fits, Tree.holdsList] using fun c hc => (hleft c hc).2

theorem inShape_keptDeclarator {t u : Tree} (ht : t.inShape = true)
    (h : keptDeclarator dead t = some u) : u.inShape = true := by
  rcases keptDeclarator_cases h with rfl | ⟨l, s, target, target', rest, rfl, htarget, rfl⟩
  · exact ht
  · obtain ⟨hfits, hparts⟩ := Tree.inShape_node.1 ht
    refine Tree.inShape_node.2 ⟨Tree.fits_of_labels hfits ?_, ?_⟩
    · intro c hc
      rcases List.mem_cons.1 hc with rfl | hc
      · exact ⟨target, List.mem_cons_self, keptTarget_label htarget⟩
      · exact ⟨c, List.mem_cons_of_mem _ hc, rfl⟩
    · intro c hc
      rcases List.mem_cons.1 hc with rfl | hc
      · exact inShape_keptTarget (hparts target List.mem_cons_self) htarget
      · exact hparts c (List.mem_cons_of_mem _ hc)

/-- What is left of a statement is in shape. -/
theorem inShape_kept {t u : Tree} (ht : t.inShape = true) (h : kept dead t = some u) :
    u.inShape = true := by
  rcases kept_cases h with rfl | ⟨kind, declared, s, ds, rfl, rfl⟩ |
    ⟨typeOnly, phase, s, cs, ss, rest, rfl, rfl⟩
  · exact ht
  · obtain ⟨hfits, hparts⟩ := Tree.inShape_node.1 ht
    refine Tree.inShape_node.2 ⟨Tree.fits_of_labels hfits ?_, ?_⟩
    · intro c hc
      obtain ⟨d, hd, hdc⟩ := List.mem_filterMap.1 hc
      exact ⟨d, hd, keptDeclarator_label hdc⟩
    · intro c hc
      obtain ⟨d, hd, hdc⟩ := List.mem_filterMap.1 hc
      exact inShape_keptDeclarator (hparts d hd) hdc
  · obtain ⟨hfits, hparts⟩ := Tree.inShape_node.1 ht
    obtain ⟨hclause, hspecifiers⟩ := Tree.inShape_node.1 (hparts _ List.mem_cons_self)
    have hsub : ∀ c ∈ ss.filterMap (keptSpecifier dead), c ∈ ss := by
      intro c hc
      obtain ⟨d, hd, hdc⟩ := List.mem_filterMap.1 hc
      exact keptSpecifier_eq hdc ▸ hd
    refine Tree.inShape_node.2 ⟨Tree.fits_of_labels hfits ?_, ?_⟩
    · intro c hc
      rcases List.mem_cons.1 hc with rfl | hc
      · exact ⟨_, List.mem_cons_self, rfl⟩
      · exact ⟨c, List.mem_cons_of_mem _ hc, rfl⟩
    · intro c hc
      rcases List.mem_cons.1 hc with rfl | hc
      · refine Tree.inShape_node.2 ⟨Tree.fits_of_labels hclause ?_, ?_⟩
        · exact fun c hc => ⟨c, hsub c hc, rfl⟩
        · exact fun c hc => hspecifiers c (hsub c hc)
      · exact hparts c (List.mem_cons_of_mem _ hc)

theorem inShape_lostParts {t x : Tree} (ht : t.inShape = true) (hx : x ∈ lostParts dead t) :
    x.inShape = true := by
  fun_cases lostParts dead t with
  | case1 span parts => exact (Tree.inShape_node.1 ht).2 x (List.mem_of_mem_filter hx)
  | case2 span parts => exact (Tree.inShape_node.1 ht).2 x (List.mem_of_mem_filter hx)
  | case3 t hobject harray =>
      rw [lostParts] at hx
      · simp at hx
      all_goals assumption

/-- Code that goes with a statement is in shape. -/
theorem inShape_lost {t x : Tree} (ht : t.inShape = true) (hx : x ∈ lost dead t) :
    x.inShape = true := by
  fun_cases lost dead t with
  | case1 kind declared span declarators =>
      obtain ⟨d, hd, hx⟩ := List.mem_flatMap.1 hx
      have hshape := (Tree.inShape_node.1 ht).2 d hd
      rw [lostOfDeclarator] at hx
      split_ifs at hx
      · rwa [List.mem_singleton.1 hx]
      · exact inShape_lostParts (Tree.inShape_child hshape 0) hx
  | case2 typeOnly phase span clauseSpan specifiers rest t' hnone =>
      rw [lost, if_pos hnone] at hx
      rwa [List.mem_singleton.1 hx]
  | case3 typeOnly phase span clauseSpan specifiers rest t' hsome =>
      rw [lost, if_neg hsome] at hx
      have hclause := (Tree.inShape_node.1 ht).2 _ List.mem_cons_self
      exact (Tree.inShape_node.1 hclause).2 x (List.mem_of_mem_filter hx)
  | case4 t hvariables himport hnone =>
      rw [lost, if_pos hnone] at hx
      · rwa [List.mem_singleton.1 hx]
      all_goals assumption
  | case5 t hvariables himport hsome =>
      rw [lost, if_neg hsome] at hx
      · simp at hx
      all_goals assumption

/-- A pruned tree is in shape. -/
theorem inShape_prune {t : Tree} (ht : t.inShape = true) : (prune dead t).inShape = true := by
  induction t using Tree.induct with
  | node l s ps ih =>
      obtain ⟨hfits, hparts⟩ := Tree.inShape_node.1 ht
      by_cases hl : l = .module .statements
      · subst hl
        rw [prune_statements]
        refine Tree.inShape_node.2 ⟨Tree.fits_of_labels hfits ?_, ?_⟩
        · intro c hc
          obtain ⟨d, hd, hdc⟩ := List.mem_filterMap.1 hc
          obtain ⟨e, he, rfl⟩ := List.mem_map.1 hd
          exact ⟨e, he, by rw [kept_label hdc, prune_label]⟩
        · intro c hc
          obtain ⟨d, hd, hdc⟩ := List.mem_filterMap.1 hc
          obtain ⟨e, he, rfl⟩ := List.mem_map.1 hd
          exact inShape_kept (ih e he (hparts e he)) hdc
      · rw [prune_node dead hl]
        refine Tree.inShape_node.2 ⟨Tree.fits_of_labels hfits ?_, ?_⟩
        · intro c hc
          obtain ⟨e, he, rfl⟩ := List.mem_map.1 hc
          exact ⟨e, he, prunePart_label dead l e⟩
        · intro c hc
          obtain ⟨e, he, rfl⟩ := List.mem_map.1 hc
          rcases prunePart_eq_or dead l e with heq | heq <;> rw [heq]
          · exact ih e he (hparts e he)
          · exact hparts e he

/-! ## What parts stand in -/

/-- A statement that goes is no directive. -/
theorem label_of_kept_eq_none {t : Tree} (h : kept dead t = none) (raw : String) :
    t.label ≠ .module (.directive raw) := by
  intro hl
  obtain ⟨l, s, ps⟩ := t
  obtain rfl : l = _ := hl
  simp [kept, keepStatement] at h

/-- A removal leaves the directives that ask for strictness. -/
theorem asksStrict_prune {t : Tree} (ht : t.label ≠ .module .statements) :
    Scope.asksStrict (prune dead t) = Scope.asksStrict t := by
  unfold Scope.asksStrict
  rw [child_prune dead ht]
  refine apply_prunePart dead (f := fun t => t.children.any (·.label == _)) ?_ t.label
  obtain ⟨l, s, ps⟩ := t.child 0
  by_cases hl : l = .module .statements
  · subst hl
    rw [prune_statements, Tree.children_node, Tree.children_node, Bool.eq_iff_iff, List.any_eq_true,
      List.any_eq_true]
    constructor
    · rintro ⟨c, hc, hlabel⟩
      obtain ⟨d, hd, hdc⟩ := List.mem_filterMap.1 hc
      obtain ⟨e, he, rfl⟩ := List.mem_map.1 hd
      refine ⟨e, he, ?_⟩
      rwa [kept_label hdc, prune_label] at hlabel
    · rintro ⟨e, he, hlabel⟩
      cases hk : kept dead (prune dead e) with
      | none =>
          refine absurd ?_ (label_of_kept_eq_none hk "use strict")
          rw [prune_label]
          exact beq_iff_eq.1 hlabel
      | some c =>
          refine ⟨c, List.mem_filterMap.2 ⟨_, List.mem_map_of_mem he, hk⟩, ?_⟩
          rwa [kept_label hk, prune_label]
  · exact any_label_prune dead (t := .node l s ps) hl (· == .module (.directive "use strict"))

/-- A removal leaves the scope of a function's head. -/
theorem headScope_prunePart {s : Span} {parameters result : Tree}
    (h : parameters.label ≠ .module .statements) (l : Label) :
    Scope.headScope s (prunePart dead l parameters) (prunePart dead l result) =
      Scope.headScope s parameters result := by
  have hgiven : (prune dead parameters).children.any Scope.isGiven =
      parameters.children.any Scope.isGiven :=
    any_label_prune dead h (· != .function .thisParameter)
  rw [Scope.headScope, Scope.headScope, Scope.headComesFirst, Scope.headComesFirst,
    apply_prunePart dead (f := fun t => t.children.any Scope.isGiven) hgiven,
    apply_prunePart dead (isAbsent_prune dead result)]

/-- A removal in the parts of a node leaves the scopes that it opens. -/
theorem opened_map_prunePart {l : Label} {s : Span} {ps : List Tree}
    (h : (Tree.node l s ps).inShape = true) (i : Nat) :
    Scope.opened l s (ps.map (prunePart dead l)) i = Scope.opened l s ps i := by
  -- Only functions look at their parts, to see whether they have a head.
  cases l with
  | function form =>
      cases form with
      | function form declared traits =>
          match ps with
          | [] | [_] | [_, _] | [_, _, _] | [_, _, _, _] | _ :: _ :: _ :: _ :: _ :: _ :: _ => rfl
          | [name, generics, parameters, result, body] =>
              have hparameters := (Tree.inShape_part h rfl (c := parameters) (by simp)).2
              simp only [List.map_cons, List.map_nil, Scope.opened, headScope_prunePart hparameters]
      | arrow traits =>
          match ps with
          | [] | [_] | [_, _] | [_, _, _] | _ :: _ :: _ :: _ :: _ :: _ => rfl
          | [generics, parameters, result, body] =>
              have hparameters := (Tree.inShape_part h rfl (c := parameters) (by simp)).2
              simp only [List.map_cons, List.map_nil, Scope.opened, headScope_prunePart hparameters]
      | _ => rfl
  | absent => rfl
  | module form | statement form | classes form | expression form | pattern form | jsx form
  | type form => cases form <;> rfl

/-- A removal in the parts of a node leaves whether it makes code strict. -/
theorem makesStrict_map_prunePart {l : Label} {s : Span} {ps : List Tree}
    (h : (Tree.node l s ps).inShape = true) :
    Scope.makesStrict l s (ps.map (prunePart dead l)) = Scope.makesStrict l s ps := by
  -- Directives stand in a prologue, which holds no statements.
  have hself : l ≠ .module .statements →
      Scope.asksStrict (.node l s (ps.map (prunePart dead l))) = Scope.asksStrict (.node l s ps) := by
    intro hl
    rw [← prune_node dead hl]
    exact asksStrict_prune hl
  have hpart : ∀ c ∈ ps, Tree.holdsList l = false →
      Scope.asksStrict (prunePart dead l c) = Scope.asksStrict c := fun c hc hl =>
    apply_prunePart dead (asksStrict_prune (Tree.inShape_part h hl hc).2) l
  cases l with
  | function form =>
      cases form with
      | function form declared traits =>
          match ps with
          | [] | [_] | [_, _] | [_, _, _] | [_, _, _, _] | _ :: _ :: _ :: _ :: _ :: _ :: _ => rfl
          | [name, generics, parameters, result, body] => exact hpart body (by simp) rfl
      | arrow traits =>
          match ps with
          | [] | [_] | [_, _] | [_, _, _] | _ :: _ :: _ :: _ :: _ :: _ => rfl
          | [generics, parameters, result, body] => exact hpart body (by simp) rfl
      | _ => rfl
  | module form =>
      cases form with
      | program hashbang isModule =>
          exact congrArg (isModule || ·) (hself (by simp))
      | _ => rfl
  | type form =>
      cases form with
      | moduleBlock => exact hself (by simp)
      | _ => rfl
  | absent => rfl
  | statement form | classes form | expression form | pattern form | jsx form =>
      cases form <;> rfl

/-- Pruning the parts of a node changes nothing about what they stand in. -/
theorem inside_map_prunePart {l : Label} {s : Span} {ps : List Tree}
    (h : (Tree.node l s ps).inShape = true) (a : Scope.Around) (i : Nat) :
    a.inside l s (ps.map (prunePart dead l)) i = a.inside l s ps i := by
  have hlabels : ∀ P : Label → Bool,
      ((ps.map (prunePart dead l))[i]?.all fun part => P part.label) =
        ps[i]?.all fun part => P part.label := by
    intro P
    cases hi : ps[i]? <;> simp [hi]
  simp only [Scope.Around.inside, opened_map_prunePart h, makesStrict_map_prunePart h, hlabels]

/-! ## Removals that take the same -/

/-- Bindings with the same records have the same places. -/
theorem isDead_congr {dead dead' : List Binding} (h : taken dead = taken dead') :
    isDead dead = isDead dead' := by
  funext site
  rw [Bool.eq_iff_iff, ← Bool.not_eq_false, ← Bool.not_eq_false, ← taken_eq_nil, ← taken_eq_nil, h]

/-- What is left of a statement depends on the records of the dead bindings alone. -/
theorem keepStatement_congr {dead dead' : List Binding} (h : taken dead = taken dead') :
    keepStatement dead = keepStatement dead' := by
  have hdead := isDead_congr h
  have hgoes : goes dead = goes dead' := by
    unfold goes
    rw [hdead]
  have hrecord : record dead = record dead' := by
    unfold record
    rw [h]
  have htarget : keepTarget dead = keepTarget dead' := by
    funext t
    unfold keepTarget objectRecord arrayRecord keepObjectParts keepArrayParts
    rw [h, hdead, hgoes, hrecord]
  have hunless : keepUnless dead = keepUnless dead' := by
    unfold keepUnless
    rw [hgoes, hrecord]
  funext t
  unfold keepStatement keepDeclarator keepSpecifier
  rw [htarget, hunless]

/-- A removal asks for the names that it takes and for nothing else. -/
theorem prune_congr {dead dead' : List Binding} (h : taken dead = taken dead') :
    prune dead = prune dead' := by
  have hkept : kept dead = kept dead' := by
    unfold kept
    rw [keepStatement_congr h]
  funext t
  induction t using Tree.induct with
  | node l s ps ih =>
      by_cases hl : l = .module .statements
      · subst hl
        rw [prune_statements, prune_statements, List.map_congr_left ih, hkept]
      · rw [prune_node dead hl, prune_node dead' hl, map_prunePart_congr ih]

end RouteSplit.Sweep
