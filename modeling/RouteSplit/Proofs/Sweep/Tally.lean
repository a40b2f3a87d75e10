import RouteSplit.Proofs.Binding.Supported
import RouteSplit.Proofs.Sweep.Removal

/-!
# What a removal puts down

A removal puts down every name that it takes, those of inner lists first. The record is therefore no
image of the table of dead bindings, but it has the same entries.

- `record_target`, `record_statement`: what is put down for a target and for a statement;
- `record_perm_sites`: the record of a whole tree;
- `record_perm_entries`, `record_perm_dead`: it has each binding once, under its name and kind;
- `Sweepable`: a tree on which passes cannot go wrong, and `sweepable_prune`: they leave it so.
-/

namespace RouteSplit.Sweep

open Scope

variable {dead : List Binding}

/-! ## Targets and statements -/

/-- What is put down for parts that all bind a name. -/
theorem record_parts {f : Tree → Except PassError (String × Span)} {ps : List Tree}
    {ts : List (String × Span)} (h : ps.mapM f = .ok ts) :
    (ps.flatMap fun t => record dead (siteOf (f t))) = (partSites f ps).flatMap (taken dead) := by
  have hsites : partSites f ps = ps.filterMap fun t => siteOf (f t) := by
    rw [partSites, h]
    exact (partSites_of_ok h).1
  rw [hsites, List.filterMap_eq_flatMap_toList, List.flatMap_assoc]
  rfl

/-- A target that is understood has a record for each of its dead names. -/
theorem record_target {t : Tree} (h : Binding.understood t = true) :
    (keepTarget dead t).2 = (Binding.targetSites t).flatMap (taken dead) := by
  rcases Binding.understood_iff.1 h with ⟨ts, hts⟩
  fun_cases keepTarget dead t with
  | case1 name span parts hdead => simp [Binding.targetSites, Binding.declaratorTargets]
  | case2 name span parts hdead =>
      have hnone : taken dead span = [] := (taken_eq_nil dead span).2 (by simpa using hdead)
      simp [Binding.targetSites, Binding.declaratorTargets, hnone]
  | case3 span parts lost left =>
      rw [targetSites_object]
      exact record_parts hts
  | case4 span parts lost hlost =>
      have hnone : arrayRecord dead parts = [] := List.isEmpty_iff.1 hlost
      rw [targetSites_array, ← record_parts hts]
      exact hnone.symm
  | case5 span parts lost hlost left =>
      rw [targetSites_array]
      exact record_parts hts
  | case6 t hbinding hobject harray =>
      -- Any other target is not understood.
      rw [Binding.declaratorTargets] at hts
      · simp at hts
      all_goals assumption

/-- A declarator that is understood has a record for each of its dead names. -/
theorem record_declarator {d : Tree} (h : Binding.understood (d.child 0) = true) :
    (keepDeclarator dead d).2 = (Binding.targetSites (d.child 0)).flatMap (taken dead) := by
  rcases d with ⟨l, s, ps⟩
  cases ps with
  | nil => rfl
  | cons target rest => exact record_target (t := target) h

theorem record_unless (target : Option (String × Span)) (t : Tree) :
    (keepUnless dead target t).2 = (target.toList.map (·.2)).flatMap (taken dead) := by
  cases target with
  | none => rfl
  | some x =>
      cases hdead : isDead dead x.2 with
      | true => simp [keepUnless, goes, record, hdead]
      | false =>
          have hnone : taken dead x.2 = [] := (taken_eq_nil dead x.2).2 hdead
          simp [keepUnless, goes, hdead, hnone]

/-- What is put down for a statement: those of its names that are dead. -/
theorem record_statement {t : Tree} (h : Binding.troubles t = []) :
    (keepStatement dead t).2 = (Binding.statementSites t).flatMap (taken dead) := by
  fun_cases keepStatement dead t with
  | case1 traits span name generics parameters result body target =>
      rw [record_unless, Binding.statementSites]
      split_ifs <;> simp_all [target]
  | case2 kind declared span ds =>
      rw [Binding.statementSites, List.flatMap_assoc]
      apply List.flatMap_congr
      intro d hd
      apply record_declarator
      have hnone : Binding.trouble d = [] := List.flatMap_eq_nil_iff.1 h d hd
      simpa [Binding.trouble] using hnone
  | case3 span e target =>
      rw [record_unless, Binding.statementSites]
      cases hassigned : Binding.assignedFunction? e <;> simp [target, hassigned]
  | case4 typeOnly phase span clauseSpan specifiers rest =>
      rw [Binding.statementSites, Binding.importSites, List.flatMap_assoc]
      apply List.flatMap_congr
      intro s hs
      exact record_unless _ s
  | case5 t hfunction hvariables hexpression himport =>
      have hinert : Inert t := ⟨hfunction, hvariables, hexpression, himport⟩
      rw [hinert.statementSites]
      rfl

/-! ## Trees -/

theorem removeAll_record (searched : Label → Bool) (ps : List Tree) :
    (removeAll dead searched ps).2 =
      ps.flatMap fun t => if searched t.label then (removeIn dead t).2 else [] := by
  induction ps with
  | nil => rfl
  | cons t ts ih =>
      rw [removeAll, List.flatMap_cons, ← ih]
      split_ifs <;> rfl

/-- The record of a node that is no list is that of its parts. -/
theorem removeIn_record_of_ne {l : Label} (hl : l ≠ .module .statements) (s : Span)
    (ps : List Tree) :
    (removeIn dead (.node l s ps)).2 =
      ps.flatMap fun t => if searches l t.label then (removeIn dead t).2 else [] := by
  have hbeq : (l == .module .statements) = false := by simpa using hl
  rw [removeIn, ← removeAll_record]
  simp [hbeq]

/-- What statements put down can be told before they are pruned. -/
theorem flatMap_record_prune {ps : List Tree} (hps : ∀ c ∈ ps, c.inShape = true) :
    ((ps.map (prune dead)).flatMap fun t => (keepStatement dead t).2) =
      ps.flatMap fun t => (keepStatement dead t).2 := by
  rw [List.flatMap_map]
  apply List.flatMap_congr
  intro c hc
  rw [keepStatement_prune dead (hps c hc)]
  rfl

/-- The record of a list is that of the lists inside it, and then that of its statements. -/
theorem removeIn_record_list {s : Span} {ps : List Tree} (hps : ∀ c ∈ ps, c.inShape = true) :
    (removeIn dead (.node (.module .statements) s ps)).2 =
      (ps.flatMap fun t =>
        if searches (.module .statements) t.label then (removeIn dead t).2 else []) ++
        ps.flatMap fun t => (keepStatement dead t).2 := by
  rw [← removeAll_record, ← flatMap_record_prune hps,
    ← prunePart_of_searches dead (l := .module .statements) (by simp), ← removeAll_eq_map]
  rfl

/-- A removal puts down the names of the tree that are dead, as often as the tree has them. -/
theorem record_perm_sites {t : Tree} (hshape : t.inShape = true) (h : Binding.Supported t) :
    (removeIn dead t).2.Perm ((Binding.sites t).flatMap (taken dead)) := by
  induction t using Tree.induct with
  | node l s ps ih =>
      have hparts := (Tree.inShape_node.1 hshape).2
      rcases Binding.supported_node.1 h with ⟨hown, hinner⟩
      have hrest : (ps.flatMap fun t => if searches l t.label then (removeIn dead t).2 else []).Perm
          ((ps.flatMap fun t => if searches l t.label then Binding.sites t else []).flatMap
            (taken dead)) := by
        rw [List.flatMap_assoc]
        refine List.Perm.flatMap_left ps fun c hc => ?_
        split_ifs with hsearched
        · exact ih c hc (hparts c hc) (hinner c hc hsearched)
        · exact List.Perm.refl _
      rw [Binding.sites, sitesAll_eq_flatMap, List.flatMap_append]
      by_cases hl : l = .module .statements
      · subst hl
        -- The list itself comes last in the record and first in the order of the tree.
        have hlist : (ps.flatMap fun t => (keepStatement dead t).2) =
            (Binding.listSites (.module .statements) ps).flatMap (taken dead) := by
          rw [Binding.listSites, if_pos (by simp), List.flatMap_assoc]
          exact List.flatMap_congr fun c hc => record_statement (hown rfl c hc)
        rw [removeIn_record_list hparts, hlist]
        exact List.perm_append_comm.trans (hrest.append_left _)
      · rw [removeIn_record_of_ne hl, Binding.listSites, if_neg (by simpa using hl)]
        exact hrest

/-! ## Dead bindings -/

/-- The entry that a binding has in the record. -/
def entryOf (b : Binding) : Removed := ⟨b.name, b.kind⟩

/-- A dead binding is entered once. -/
theorem taken_of_mem (hunique : Binding.Unique dead) {b : Binding} (hb : b ∈ dead) :
    taken dead b.site = [entryOf b] := by
  obtain ⟨x, hx⟩ : ∃ x, dead.find? (·.site == b.site) = some x := by
    rw [← Option.isSome_iff_exists, List.find?_isSome]
    exact ⟨b, hb, by simp⟩
  have hsite : x.site = b.site := by simpa using List.find?_some hx
  obtain rfl := hunique.eq_of_site (List.mem_of_find?_eq_some hx) hb hsite
  rw [taken, hx]
  rfl

/-- Only dead names have an entry. -/
theorem flatMap_taken_filter (names : List Span) :
    names.flatMap (taken dead) = (names.filter (isDead dead)).flatMap (taken dead) := by
  induction names with
  | nil => rfl
  | cons n ns ih =>
      rw [List.flatMap_cons, ih]
      cases hdead : isDead dead n with
      | true => rw [List.filter_cons_of_pos hdead, List.flatMap_cons]
      | false =>
          rw [List.filter_cons_of_neg (by simp [hdead]), (taken_eq_nil dead n).2 hdead,
            List.nil_append]

/-- No two dead bindings have the same place. -/
theorem unique_deadBindings {t : Tree} {c : Context} (hdead : deadBindings t c = .ok dead) :
    Binding.Unique dead := by
  rcases deadBindings_eq_ok.1 hdead with ⟨bs, hbs, rfl⟩
  exact (Binding.collect_spec hbs).1.filter _

/-- Where no two names share their place, the names of a tree that go are those of the bindings. -/
theorem sites_filter_perm {t : Tree} (hsites : (Binding.sites t).Nodup)
    (hunique : Binding.Unique dead) (hmem : ∀ b ∈ dead, b.site ∈ Binding.sites t) :
    ((Binding.sites t).filter (isDead dead)).Perm (dead.map (·.site)) := by
  have hnodup : (dead.map (·.site)).Nodup := List.pairwise_map.2 hunique
  rw [List.perm_ext_iff_of_nodup (hsites.filter _) hnodup]
  intro s
  rw [List.mem_filter, isDead, List.any_eq_true, List.mem_map]
  constructor
  · rintro ⟨-, b, hb, hs⟩
    exact ⟨b, hb, beq_iff_eq.1 hs⟩
  · rintro ⟨b, hb, rfl⟩
    exact ⟨hmem b hb, b, hb, by simp⟩

/-- A tree on which passes cannot go wrong: its parts stand where they belong, all its targets are
understood, and no two names share their place. -/
structure Sweepable (t : Tree) : Prop where
  shape : t.inShape = true
  supported : Binding.Supported t
  sites : (Binding.sites t).Nodup

/-- A removal puts down each of its bindings once, under its name and kind, if the tree has them
all. -/
theorem record_perm_entries {t : Tree} (h : Sweepable t) (hunique : Binding.Unique dead)
    (hmem : ∀ b ∈ dead, b.site ∈ Binding.sites t) :
    (removeIn dead t).2.Perm (dead.map entryOf) := by
  calc
    (removeIn dead t).2.Perm ((Binding.sites t).flatMap (taken dead)) :=
      record_perm_sites h.shape h.supported
    _ = ((Binding.sites t).filter (isDead dead)).flatMap (taken dead) := flatMap_taken_filter _
    List.Perm _ ((dead.map (·.site)).flatMap (taken dead)) :=
      (sites_filter_perm h.sites hunique hmem).flatMap_right _
    _ = dead.map entryOf := by
      rw [List.flatMap_map, List.map_eq_flatMap]
      exact List.flatMap_congr fun b hb => taken_of_mem hunique hb

/-- A pass puts down each dead binding once. -/
theorem record_perm_dead {t : Tree} {c : Context} (h : Sweepable t)
    (hdead : deadBindings t c = .ok dead) : (removeIn dead t).2.Perm (dead.map entryOf) :=
  record_perm_entries h (unique_deadBindings hdead) fun _ hb => site_mem_of_dead hdead hb

/-- Passes leave a tree on which passes cannot go wrong. -/
theorem sweepable_prune {t : Tree} (h : Sweepable t) : Sweepable (prune dead t) where
  shape := inShape_prune h.shape
  supported := Binding.supported_prune h.shape h.supported
  sites := sites_nodup_prune h.shape h.sites

/-- Where all targets are understood, the dead bindings can be told. -/
theorem exists_deadBindings {t : Tree} (h : Binding.Supported t) (c : Context) :
    ∃ dead, deadBindings t c = .ok dead := by
  rcases Binding.collect_isOk_iff.2 h with ⟨bs, hbs⟩
  exact ⟨_, deadBindings_eq_ok.2 ⟨bs, hbs, rfl⟩⟩

end RouteSplit.Sweep
