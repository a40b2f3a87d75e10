import RouteSplit.Proofs.Sweep.Pieces

/-!
# Places of names in a pruned tree

- `sites_kept`, `sites_prune_alive`: the names that a statement or a tree is left with are those that
  do not go;
- `cuttable_siteRule`: a name that stays is in the pruned tree or in a piece that goes;
- `mem_sites_prune_iff`: which names a removal leaves.
-/

namespace RouteSplit.Sweep

open Scope

variable {dead : List Binding}

/-! ## Names of a statement -/

/-- A pattern goes by the names of its parts if each of them is understood, and else by none. -/
theorem partSites_eq (f : Tree → Except PassError (String × Span)) (ps : List Tree) :
    partSites f ps =
      if ∀ t ∈ ps, (siteOf (f t)).isSome then ps.filterMap (fun t => siteOf (f t)) else [] := by
  split_ifs with hsome
  · obtain ⟨ts, hts⟩ := mapM_ok_of_isSome hsome
    rw [partSites, hts]
    exact (partSites_of_ok hts).1
  · cases hts : ps.mapM f with
    | error e => rw [partSites, hts]
    | ok ts => exact absurd (partSites_of_ok hts).2 hsome

/-- Without the parts that go, a pattern goes by the names that are not dead. -/
theorem partSites_filter (f : Tree → Except PassError (String × Span)) (ps : List Tree) :
    partSites f (ps.filter fun t => !goes dead (siteOf (f t))) =
      (partSites f ps).filter fun s => !isDead dead s := by
  have hsome : (∀ t ∈ ps.filter fun t => !goes dead (siteOf (f t)), (siteOf (f t)).isSome) ↔
      ∀ t ∈ ps, (siteOf (f t)).isSome := by
    constructor
    · intro h t ht
      cases hsite : siteOf (f t) with
      | none =>
          have hstays := h t (List.mem_filter.2 ⟨ht, by simp [hsite, goes]⟩)
          simp [hsite] at hstays
      | some site => rfl
    · exact fun h t ht => h t (List.mem_of_mem_filter ht)
  rw [partSites_eq, partSites_eq]
  simp only [hsome]
  split_ifs
  · rw [List.filterMap_filter, List.filter_filterMap]
    apply List.filterMap_congr
    intro t ht
    cases siteOf (f t) with
    | none => simp [goes]
    | some site => cases hdead : isDead dead site <;> simp [goes, hdead, Option.filter]
  · rfl

theorem filter_eq_nil_of_allDead {names : List Span} (h : AllDead dead names) :
    (names.filter fun s => !isDead dead s) = [] := by
  rw [List.filter_eq_nil_iff]
  intro s hs
  simp [h.2 s hs]

/-- What is left of an array pattern holds the places that stay, holes aside. -/
theorem keepArrayParts_places (ps : List Tree) :
    ((trimHoles (keepArrayParts dead ps)).filter fun t => !Binding.isHole t) =
      (ps.filter fun t => !Binding.isHole t).filter fun t =>
        !goes dead (siteOf (Binding.arrayPartTarget t)) := by
  obtain ⟨hs, hholes, happend⟩ := exists_append_trimHoles (keepArrayParts dead ps)
  have hnone : (hs.filter fun t => !Binding.isHole t) = [] := by
    rw [List.filter_eq_nil_iff]
    intro c hc
    simp [hholes c hc]
  have htrim : ((keepArrayParts dead ps).filter fun t => !Binding.isHole t) =
      (trimHoles (keepArrayParts dead ps)).filter fun t => !Binding.isHole t := by
    conv_lhs => rw [← happend, List.filter_append, hnone, List.append_nil]
  rw [← htrim, keepArrayParts, List.filter_filterMap, List.filter_filter, ← List.filterMap_eq_filter]
  apply List.filterMap_congr
  intro t ht
  have hholeAt : Binding.isHole (holeAt t) = true := rfl
  cases hhole : Binding.isHole t <;>
    cases hgoes : goes dead (siteOf (Binding.arrayPartTarget t)) <;>
      cases hrest : Binding.isRest t <;>
        simp [Option.filter, Option.guard, hhole, hgoes, hholeAt]

theorem filter_sites_of_lostParts {t : Tree} (h : keptTarget dead t = some t)
    (hlost : lostParts dead t = []) :
    ((Binding.targetSites t).filter fun s => !isDead dead s) = Binding.targetSites t := by
  fun_cases Binding.declaratorTargets t with
  | case1 name span parts =>
      -- A name that is left as it is was not one of those that go.
      have hdead : isDead dead span = false := by
        by_contra hdead
        rw [keptTarget, keepTarget, if_pos (by simpa using hdead)] at h
        simp at h
      simp [Binding.targetSites, Binding.declaratorTargets, hdead]
  | case2 span parts =>
      rw [targetSites_object, ← partSites_filter]
      congr 1
      rw [List.filter_eq_self]
      intro t ht
      simpa [objectPartGoes] using List.filter_eq_nil_iff.1 hlost t ht
  | case3 span parts =>
      rw [targetSites_array, ← partSites_filter]
      congr 1
      rw [List.filter_eq_self]
      intro t ht
      obtain ⟨ht, hhole⟩ := List.mem_filter.1 ht
      simpa [arrayPartGoes, hhole] using List.filter_eq_nil_iff.1 hlost t ht
  | case4 t hbinding hobject harray =>
      rw [Binding.targetSites, Binding.declaratorTargets]
      · rfl
      all_goals assumption

/-- The names that a target is left with are those that do not go. -/
theorem sites_keptTarget (t : Tree) :
    (keptTarget dead t).toList.flatMap Binding.targetSites =
      (Binding.targetSites t).filter fun s => !isDead dead s := by
  cases h : keptTarget dead t with
  | none =>
      rw [filter_eq_nil_of_allDead (keptTarget_eq_none_iff.1 h)]
      rfl
  | some u =>
      rw [Option.toList_some, List.flatMap_singleton]
      rcases keptTarget_cases h with ⟨rfl, hlost⟩ | ⟨s, ps, rfl, rfl⟩ | ⟨s, ps, rfl, rfl⟩
      · exact (filter_sites_of_lostParts h hlost).symm
      · rw [targetSites_object, targetSites_object, ← partSites_filter]
        rfl
      · rw [targetSites_array, targetSites_array, ← partSites_filter, keepArrayParts_places]

/-- What is left of a declarator goes by the names that are not dead. -/
theorem sites_keptDeclarator (d : Tree) :
    ((keptDeclarator dead d).toList.flatMap fun d => Binding.targetSites (d.child 0)) =
      (Binding.targetSites (d.child 0)).filter fun s => !isDead dead s := by
  obtain ⟨l, s, ps⟩ := d
  cases ps with
  | nil => rfl
  | cons target rest =>
      have hchild : (Tree.node l s (target :: rest)).child 0 = target := rfl
      have hkept : keptDeclarator dead (.node l s (target :: rest)) =
        (keptTarget dead target).map fun t => .node l s (t :: rest) := rfl
      rw [hchild, ← sites_keptTarget, hkept]
      cases keptTarget dead target <;> rfl

/-- A construct with a single name keeps it or goes. -/
theorem filter_sites_of_keepUnless {target : Option (String × Span)} {t u : Tree}
    (h : (keepUnless dead target t).1 = some u) :
    ((target.toList.map (·.2)).filter fun s => !isDead dead s) = target.toList.map (·.2) := by
  cases target with
  | none => rfl
  | some x =>
      rw [keepUnless_fst] at h
      obtain ⟨hstays, -⟩ := Option.ite_none_left_eq_some.1 h
      simpa [goes] using hstays

/-- What is left of an imported name goes by it unless it is dead. -/
theorem sites_keptSpecifier (s : Tree) :
    (keptSpecifier dead s).toList.flatMap specifierSites =
      (specifierSites s).filter fun s => !isDead dead s := by
  cases h : keptSpecifier dead s with
  | none =>
      rw [filter_eq_nil_of_allDead (keptSpecifier_eq_none_iff.1 h)]
      rfl
  | some u =>
      obtain rfl := keptSpecifier_eq h
      rw [Option.toList_some, List.flatMap_singleton]
      exact (filter_sites_of_keepUnless h).symm

/-- The names that a statement is left with are those that do not go. -/
theorem sites_kept (t : Tree) :
    (kept dead t).toList.flatMap Binding.statementSites =
      (Binding.statementSites t).filter fun s => !isDead dead s := by
  -- Variables and imports are left with some of their items, functions and assignments as a whole
  -- or not at all.
  have hitems : ∀ {keep : Tree → Left Tree} {g : Tree → List Span} {items : List Tree}
      (rebuild : List Tree → Tree),
      (∀ ps, Binding.statementSites (rebuild ps) = ps.flatMap g) →
      (∀ c, (keep c).1.toList.flatMap g = (g c).filter fun s => !isDead dead s) →
      (keepItems keep items rebuild).1.toList.flatMap Binding.statementSites =
        (Binding.statementSites (rebuild items)).filter fun s => !isDead dead s := by
    intro keep g items rebuild hrebuild hkeep
    have hleft : (items.filterMap fun c => (keep c).1).flatMap g =
        (items.flatMap g).filter fun s => !isDead dead s := by
      rw [flatMap_filterMap_eq, List.filter_flatMap]
      exact List.flatMap_congr fun c _ => hkeep c
    rw [hrebuild, ← hleft]
    cases h : (keepItems keep items rebuild).1 with
    | none => rw [(keepItems_eq_none_iff.1 h).1]; rfl
    | some u =>
        rw [eq_rebuild_of_keepItems h, Option.toList_some, List.flatMap_singleton, hrebuild]
  have hsingle : ∀ {target : Option (String × Span)} {t : Tree},
      Binding.statementSites t = target.toList.map (·.2) →
      (keepUnless dead target t).1.toList.flatMap Binding.statementSites =
        (Binding.statementSites t).filter fun s => !isDead dead s := by
    intro target t hsites
    cases h : (keepUnless dead target t).1 with
    | none =>
        rw [hsites, filter_eq_nil_of_allDead (keepUnless_eq_none_iff.1 h)]
        rfl
    | some u =>
        obtain rfl := eq_of_keepUnless h
        rw [Option.toList_some, List.flatMap_singleton, hsites, filter_sites_of_keepUnless h]
  fun_cases keepStatement dead t with
  | case1 traits span name generics parameters result body target =>
      refine hsingle ?_
      rw [Binding.statementSites]
      split_ifs <;> rfl
  | case2 kind declared span declarators =>
      exact hitems (.node (.statement (.variableList kind declared)) span) (fun _ => rfl)
        sites_keptDeclarator
  | case3 span e target =>
      refine hsingle ?_
      rw [Binding.statementSites]
      cases Binding.assignedFunction? e <;> rfl
  | case4 o p s cs ss rest =>
      exact hitems (fun ss => .node (.module (.importDeclaration o p)) s
        (.node (.module .importClause) cs ss :: rest)) (fun _ => rfl) sites_keptSpecifier
  | case5 t hfunction hlist hexpression himports =>
      have hinert : Inert t := ⟨hfunction, hlist, hexpression, himports⟩
      rw [kept, hinert.keepStatement, hinert.statementSites]
      simp [hinert.statementSites]

/-! ## Names of a pruned statement -/

theorem mapM_map_prune {f : Tree → Except PassError (String × Span)} {ps : List Tree}
    (hf : ∀ c ∈ ps, f (prune dead c) = f c) : (ps.map (prune dead)).mapM f = ps.mapM f := by
  induction ps with
  | nil => rfl
  | cons p ps ih =>
      rw [List.map_cons, List.mapM_cons, List.mapM_cons, hf p List.mem_cons_self,
        ih fun c hc => hf c (List.mem_cons_of_mem _ hc)]

/-- A removal inside a target leaves what it binds. -/
theorem declaratorTargets_prune {t : Tree} (ht : t.inShape = true) :
    Binding.declaratorTargets (prune dead t) = Binding.declaratorTargets t := by
  fun_cases Binding.declaratorTargets t with
  | case1 name span parts => rfl
  | case2 span parts =>
      have hparts := fun c hc => (Tree.inShape_part ht rfl (c := c) hc).2
      rw [prune_of_plain dead (by simp), Binding.declaratorTargets]
      exact mapM_map_prune fun c hc => objectPartTarget_prune dead (hparts c hc)
  | case3 span parts =>
      have hparts := fun c hc => (Tree.inShape_part ht rfl (c := c) hc).2
      rw [prune_of_plain dead (by simp), Binding.declaratorTargets,
        filter_map_of_congr fun c _ => by rw [isHole_prune]]
      exact mapM_map_prune fun c hc =>
        arrayPartTarget_prune dead (hparts c (List.mem_of_mem_filter hc))
  | case4 t hbinding hobject harray =>
      rw [Binding.declaratorTargets, prune_span]
      · exact fun _ => prune_ne_node dead (by simp) (hbinding _)
      · exact prune_ne_node dead (by simp) hobject
      · exact prune_ne_node dead (by simp) harray

theorem targetSites_prune {t : Tree} (ht : t.inShape = true) :
    Binding.targetSites (prune dead t) = Binding.targetSites t := by
  rw [Binding.targetSites, Binding.targetSites, declaratorTargets_prune ht]

/-- A removal inside a statement leaves the names that it goes by. -/
theorem statementSites_prune {t : Tree} (ht : t.inShape = true) :
    Binding.statementSites (prune dead t) = Binding.statementSites t := by
  have hfunction : ∀ traits span name generics parameters result body,
      Binding.statementSites (prune dead (.node (.function (.function .declaration false traits))
        span [name, generics, parameters, result, body])) =
      Binding.statementSites (.node (.function (.function .declaration false traits))
        span [name, generics, parameters, result, body]) := by
    intro traits span name generics parameters result body
    rw [prune_of_plain dead (by simp)]
    simp only [List.map_cons, List.map_nil, Binding.statementSites, isAbsent_prune, nameOf_prune]
  fun_cases keepStatement dead t with
  | case1 => exact hfunction _ _ _ _ _ _ _
  | case2 kind declared span declarators =>
      have hparts := fun c hc => Tree.inShape_part ht rfl (c := c) hc
      rw [prune_of_plain dead (by simp), Binding.statementSites, Binding.statementSites,
        List.flatMap_map]
      apply List.flatMap_congr
      intro d hd
      rw [child_prune dead (hparts d hd).2,
        apply_prunePart dead (targetSites_prune (Tree.inShape_child (hparts d hd).1 0))]
  | case3 span e =>
      rw [prune_of_plain dead (by simp)]
      simp only [List.map_cons, List.map_nil, Binding.statementSites, assignedFunction?_prune]
  | case4 typeOnly phase span clauseSpan specifiers rest =>
      have hclause := (Tree.inShape_part ht rfl List.mem_cons_self).1
      have hparts := fun c hc => (Tree.inShape_part hclause rfl (c := c) hc).2
      rw [prune_import, Binding.statementSites, Binding.statementSites, Binding.importSites,
        Binding.importSites, List.flatMap_map]
      apply List.flatMap_congr
      intro d hd
      rw [child_prune dead (hparts d hd), apply_prunePart dead (nameOf_prune dead _)]
  | case5 t hfunction hlist hexpression himports =>
      have hinert : Inert t := ⟨hfunction, hlist, hexpression, himports⟩
      rw [(hinert.prune dead).statementSites, hinert.statementSites]

/-! ## Names of a pruned tree -/

abbrev siteRule : Rule Span := listRule Binding.statementSites

theorem sitesAll_eq_flatMap (searched : Label → Bool) (ps : List Tree) :
    Binding.sitesAll searched ps =
      ps.flatMap fun c => if searched c.label then Binding.sites c else [] := by
  induction ps with
  | nil => rfl
  | cons t ts ih => rw [Binding.sitesAll, List.flatMap_cons, ih]

/-- The tracked names of a tree are those of the statements in its lists. -/
theorem sites_eq_gather (t : Tree) : Binding.sites t = gather siteRule {} t := by
  induction t using Tree.induct with
  | node l s ps ih =>
      rw [Binding.sites, sitesAll_eq_flatMap, gather_listRule_node]
      congr 1
      · simp [Binding.listSites, listRule]
      · refine List.flatMap_congr fun c hc => ?_
        rw [ih c hc]

/-- The tracked names of a tree do not depend on what it stands in, as long as it is searched. -/
theorem sites_eq_gather_of_searched {a : Around} (ha : a.searched = true) (t : Tree) :
    Binding.sites t = gather siteRule a t :=
  (sites_eq_gather t).trans (gather_listRule_of_searched _ ha t).symm

/-- A tracked name is that of a statement of the node, or stands in a part that is searched. -/
theorem mem_sites_node {l : Label} {span : Span} {ps : List Tree} {s : Span} :
    s ∈ Binding.sites (.node l span ps) ↔
      (l = .module .statements ∧ ∃ c ∈ ps, s ∈ Binding.statementSites c) ∨
        ∃ c ∈ ps, searches l c.label = true ∧ s ∈ Binding.sites c := by
  simp only [sites_eq_gather]
  exact mem_gather_listRule

/-- A plain node has the tracked names of its parts. -/
theorem sites_of_plain {l : Label} (hl : IsPlain l) (span : Span) (ps : List Tree) :
    Binding.sites (.node l span ps) = ps.flatMap Binding.sites := by
  rw [Binding.sites, Binding.listSites, if_neg (by simpa using hl.1), List.nil_append,
    sitesAll_eq_flatMap]
  simp only [hl.2, if_true]

/-- A name that stays is in the pruned tree or in a piece that goes. -/
theorem cuttable_siteRule : Cuttable dead siteRule fun s => isDead dead s = true := by
  refine cuttable_listRule (fun c hc => statementSites_prune hc) fun c => ?_
  rw [sites_kept]
  refine ⟨(Binding.statementSites c).filter (isDead dead), ?_, ?_⟩
  · exact fun s hs => (List.mem_filter.1 hs).2
  · exact (List.filter_append_perm (isDead dead) _).symm.trans List.perm_append_comm

/-- The names that a tree is left with do not go. -/
theorem sites_prune_alive {t : Tree} (ht : t.inShape = true) {s : Span}
    (hs : s ∈ Binding.sites (prune dead t)) : isDead dead s = false := by
  induction t using Tree.induct with
  | node l span ps ih =>
      have hparts := (Tree.inShape_node.1 ht).2
      by_cases hl : l = .module .statements
      · subst hl
        rw [prune_statements, mem_sites_node] at hs
        rcases hs with ⟨-, c, hc, hs⟩ | ⟨c, hc, -, hs⟩
        · obtain ⟨d, hd, hdc⟩ := List.mem_filterMap.1 hc
          have hs : s ∈ (kept dead d).toList.flatMap Binding.statementSites := by simpa [hdc]
          rw [sites_kept] at hs
          simpa using (List.mem_filter.1 hs).2
        · obtain ⟨d, hd, hdc⟩ := List.mem_filterMap.1 hc
          obtain ⟨e, he, rfl⟩ := List.mem_map.1 hd
          refine ih e he (hparts e he) ?_
          rw [sites_eq_gather] at hs ⊢
          refine gather_kept_subset (cuttable_siteRule : Cuttable dead _ _) rfl
            (inShape_prune (hparts e he)) ?_
          simpa [hdc]
      · rw [prune_node dead hl, mem_sites_node] at hs
        rcases hs with ⟨hl', -⟩ | ⟨c, hc, hsearched, hs⟩
        · exact absurd hl' hl
        · obtain ⟨d, hd, rfl⟩ := List.mem_map.1 hc
          rw [prunePart_label] at hsearched
          rw [prunePart, if_pos hsearched] at hs
          exact ih d hd (hparts d hd) hs

/-- A removal takes the names that go and those in pieces that go. -/
theorem mem_sites_prune_iff {t : Tree} (ht : t.inShape = true)
    (hnodup : (Binding.sites t).Nodup) {s : Span} (hs : s ∈ Binding.sites t) :
    s ∉ Binding.sites (prune dead t) ↔
      isDead dead s = true ∨ ∃ p ∈ pieces t, p.Gone dead ∧ s ∈ Binding.sites p.code := by
  constructor
  · intro hgone
    rw [sites_eq_gather] at hs hgone
    rcases mem_prune_or_piece (cuttable_siteRule : Cuttable dead _ _) rfl ht hs with
      h | ⟨p, hp, hp', h⟩ | h
    · exact absurd h hgone
    · rw [← sites_eq_gather_of_searched (searched_of_piece hp).2] at h
      exact Or.inr ⟨p, hp, hp', h⟩
    · exact Or.inl h
  · rintro (hdead | ⟨p, hp, hp', h⟩) hmem
    · rw [sites_prune_alive ht hmem] at hdead
      simp at hdead
    · rw [sites_eq_gather] at hmem hnodup
      rw [sites_eq_gather_of_searched (searched_of_piece hp).2] at h
      exact disjoint_prune_of_piece cuttable_siteRule ht hnodup hp hp' hmem h

end RouteSplit.Sweep
