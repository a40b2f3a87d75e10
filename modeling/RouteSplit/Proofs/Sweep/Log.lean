import Mathlib.Data.List.Perm.Basic
import RouteSplit.Proofs.Sweep.Limit

/-!
# The log of a sweep

A sweep makes a new table of bindings for each pass, and puts down what it removes from the table of
that pass. The name and the kind of a binding are written in its statement, though, so that they do
not change while the binding is there.

- `statementEntries`, `entries`: the names that statements go by, each with its entry in the log;
- `entry_of_binding`: a table agrees with them;
- `entries_prune_subset`: a removal changes none;
- `TakenAlong`: a name that goes with code that has other names;
- `Logged`: what the log of a run tells, and `Ends.logged`: every run has such a log.
-/

namespace RouteSplit.Sweep

open Scope

variable {dead : List Binding}

/-! ## Entries -/

/-- The name that a part binds, if it binds one directly, with its entry. -/
def entryAt (kind : BindingKind) : Except PassError (String × Span) → List (Span × Removed)
  | .ok (name, site) => [(site, ⟨name, kind⟩)]
  | .error _ => []

/-- The names that a declarator's target binds, with their entries. -/
def targetEntries (kind : BindingKind) : Tree → List (Span × Removed)
  | .node (.pattern (.binding name)) span _ => [(span, ⟨name, kind⟩)]
  | .node (.pattern .object) _ parts =>
    parts.flatMap fun t => entryAt kind (Binding.objectPartTarget t)
  | .node (.pattern .array) _ parts =>
    (parts.filter fun t => !Binding.isHole t).flatMap fun t =>
      entryAt kind (Binding.arrayPartTarget t)
  | _ => []

/-- What a declarator declares: a plain name with a function for its value is a function. -/
def declaratorKind (d : Tree) : BindingKind :=
  if (Binding.nameOf (d.child 0)).isSome && (d.child 2).isFunctionLike then .function
  else .variable

/-- The names that a statement goes by, with their entries. -/
def statementEntries : Tree → List (Span × Removed)
  | .node (.function (.function .declaration false _)) _ [name, _, _, _, body] =>
    if body.isAbsent then []
    else (Binding.nameOf name).toList.map fun t => (t.2, ⟨t.1, .function⟩)
  | .node (.statement (.variableList _ _)) _ declarators =>
    declarators.flatMap fun d => targetEntries (declaratorKind d) (d.child 0)
  | .node (.statement .expression) _ [e] =>
    (Binding.assignedFunction? e).toList.map fun t => (t.2.1, ⟨t.1, .function⟩)
  | .node (.module (.importDeclaration _ _)) _
      (.node (.module .importClause) _ specifiers :: _) =>
    specifiers.flatMap fun s =>
      (Binding.nameOf (s.child 0)).toList.map fun t => (t.2, ⟨t.1, .imported⟩)
  | _ => []

/-- The names that the statements in a tree go by, with their entries. -/
def entries (t : Tree) : List (Span × Removed) := gather (listRule statementEntries) {} t

/-! ## Entries and tables -/

theorem flatMap_entryAt {kind : BindingKind} {f : Tree → Except PassError (String × Span)}
    {ps : List Tree} {ts : List (String × Span)} (h : ps.mapM f = .ok ts) :
    (ps.flatMap fun t => entryAt kind (f t)) = ts.map fun t => (t.2, ⟨t.1, kind⟩) := by
  induction ps generalizing ts with
  | nil =>
      obtain rfl : ts = [] := by simpa [pure, Except.pure, eq_comm] using h
      rfl
  | cons p ps ih =>
      rcases mapM_cons_eq_ok.1 h with ⟨t, ts', hp, hps, rfl⟩
      rw [List.flatMap_cons, ih hps, hp, List.map_cons]
      rfl

/-- The entries of a target that is understood. -/
theorem targetEntries_of_ok {kind : BindingKind} {t : Tree} {ts : List (String × Span)}
    (h : Binding.declaratorTargets t = .ok ts) :
    targetEntries kind t = ts.map fun t => (t.2, ⟨t.1, kind⟩) := by
  fun_cases Binding.declaratorTargets t with
  | case1 name span parts =>
      obtain rfl := Except.ok.inj h
      rfl
  | case2 span parts => exact flatMap_entryAt h
  | case3 span parts => exact flatMap_entryAt h
  | case4 t hbinding hobject harray =>
      rw [Binding.declaratorTargets] at h
      · simp at h
      all_goals assumption

theorem entry_of_declaredAs {table : Table} {kind : BindingKind} {self : Span}
    {target : String × Span} {b : Binding} (hb : b ∈ Binding.declaredAs table kind self target) :
    (b.site, entryOf b) = (target.2, ⟨target.1, kind⟩) := by
  rcases List.mem_map.1 hb with ⟨symbol, -, rfl⟩
  rfl

/-- A binding of a declarator is entered as the declarator has it. -/
theorem entry_of_declarator {table : Table} {d : Tree} {bs : List Binding}
    (h : Binding.ofDeclarator table d = .ok bs) {b : Binding} (hb : b ∈ bs) :
    (b.site, entryOf b) ∈ targetEntries (declaratorKind d) (d.child 0) := by
  rcases Binding.bind_eq_ok.1 h with ⟨targets, htargets, h⟩
  rw [targetEntries_of_ok htargets]
  split at h
  · rename_i name site ps htarget
    rw [htarget] at htargets
    obtain rfl := Except.ok.inj htargets
    have hname : Binding.nameOf (d.child 0) = some (name, site) := by
      rw [htarget]
      rfl
    split_ifs at h with hfunction
    · obtain rfl := Except.ok.inj h
      simp [entry_of_declaredAs hb, declaratorKind, hname, hfunction]
    · obtain rfl := Except.ok.inj h
      simp [entry_of_declaredAs hb, declaratorKind, hname, hfunction]
  · rename_i hpattern
    obtain rfl := Except.ok.inj h
    rcases List.mem_flatMap.1 hb with ⟨target, htarget, hb⟩
    have hkind : declaratorKind d = .variable := by
      have hname : Binding.nameOf (d.child 0) = none := by
        rw [Binding.nameOf]
        exact hpattern
      simp [declaratorKind, hname]
    rw [entry_of_declaredAs hb, hkind]
    exact List.mem_map.2 ⟨target, htarget, rfl⟩

/-- A table gives a binding the name and the kind that its statement has for it. -/
theorem entry_of_mem_bindingsOf {table : Table} {env : Env} {t : Tree} {b : Binding}
    (hb : b ∈ Binding.bindingsOf table env t) : (b.site, entryOf b) ∈ statementEntries t := by
  revert hb
  unfold Binding.bindingsOf
  fun_cases Binding.ofStatement table env t with
  | case1 traits span name generics parameters result body habsent => simp
  | case2 traits span name generics parameters result body habsent =>
      intro hb
      rcases List.mem_flatMap.1 hb with ⟨target, htarget, hb⟩
      rw [statementEntries, if_neg habsent, entry_of_declaredAs hb]
      exact List.mem_map.2 ⟨target, htarget, rfl⟩
  | case3 kind declared span declarators =>
      intro hb
      cases hlists : declarators.mapM (Binding.ofDeclarator table) with
      | error e => simp [hlists, bind, Except.bind] at hb
      | ok lists =>
          simp only [hlists, bind, Except.bind, pure, Except.pure] at hb
          rcases List.mem_flatten.1 hb with ⟨bs, hbs, hb⟩
          rcases Binding.exists_of_mem_mapM hlists hbs with ⟨d, hd, hdbs⟩
          exact List.mem_flatMap.2 ⟨d, hd, entry_of_declarator hdbs hb⟩
  | case4 span e name site self hassigned =>
      intro hb
      rcases List.mem_map.1 hb with ⟨symbol, -, rfl⟩
      simp [statementEntries, hassigned, entryOf]
  | case5 span e hassigned => simp
  | case6 typeOnly phase span clauseSpan specifiers rest =>
      intro hb
      rcases List.mem_flatMap.1 hb with ⟨c, hc, hb⟩
      rcases List.mem_flatMap.1 hb with ⟨target, htarget, hb⟩
      rw [entry_of_declaredAs hb]
      exact List.mem_flatMap.2 ⟨c, hc, List.mem_map.2 ⟨target, htarget, rfl⟩⟩
  | case7 t h1 h2 h3 h4 => simp

/-- The bindings of a tree are entered as its statements have them. -/
theorem entry_of_gather {table : Table} {a : Around} {t : Tree} {b : Binding}
    (hb : b ∈ gather (Binding.bindingRule table) a t) : (b.site, entryOf b) ∈ entries t := by
  induction t using Tree.induct generalizing a with
  | node l s ps ih =>
      rcases mem_gather_node.1 hb with hb | ⟨i, c, hc, hb⟩
      · unfold Binding.bindingRule at hb
        split_ifs at hb with hl
        · rcases List.mem_flatMap.1 hb with ⟨c, hc, hb⟩
          exact mem_gather_listRule.2 (Or.inl ⟨hl.1, c, hc, entry_of_mem_bindingsOf hb⟩)
        · simp at hb
      · have hmem := List.mem_of_getElem? hc
        have hsearched := Binding.searched_of_binding hb
        rw [inside_searched hc, Bool.and_eq_true] at hsearched
        exact mem_gather_listRule.2 (Or.inr ⟨c, hmem, hsearched.2, ih c hmem hb⟩)

/-- Collected bindings are entered as their tree has them. -/
theorem entry_of_binding {t : Tree} {bs : List Binding} (h : Binding.collect t = .ok bs)
    {b : Binding} (hb : b ∈ bs) : (b.site, entryOf b) ∈ entries t :=
  entry_of_gather ((Binding.collect_spec h).2 hb)

/-! ## Entries and names -/

/-- A target that is understood has an entry for each of its names. -/
theorem fst_targetEntries {kind : BindingKind} {t : Tree} (h : Binding.understood t = true) :
    (targetEntries kind t).map Prod.fst = Binding.targetSites t := by
  rcases Binding.understood_iff.1 h with ⟨ts, hts⟩
  rw [targetEntries_of_ok hts, Binding.targetSites, hts, List.map_map]
  rfl

/-- A statement whose targets are understood has an entry for each of its names. -/
theorem fst_statementEntries {t : Tree} (h : Binding.troubles t = []) :
    (statementEntries t).map Prod.fst = Binding.statementSites t := by
  fun_cases Binding.statementSites t with
  | case1 traits span name generics parameters result body habsent =>
      rw [statementEntries, if_pos habsent, List.map_nil]
  | case2 traits span name generics parameters result body habsent =>
      rw [statementEntries, if_neg habsent, List.map_map]
      rfl
  | case3 kind declared span ds =>
      rw [statementEntries, List.map_flatMap]
      apply List.flatMap_congr
      intro d hd
      apply fst_targetEntries
      have hnone : Binding.trouble d = [] := List.flatMap_eq_nil_iff.1 h d hd
      simpa [Binding.trouble] using hnone
  | case4 span e =>
      rw [statementEntries, List.map_map]
      rfl
  | case5 typeOnly phase span clauseSpan specifiers rest =>
      rw [statementEntries, List.map_flatMap, Binding.importSites]
      apply List.flatMap_congr
      intro s hs
      rw [List.map_map]
      rfl
  | case6 t hfunction hvariables hexpression himport =>
      rw [statementEntries]
      · rfl
      all_goals assumption

/-- The entries of a tree whose targets are understood are those of its names, in their order. -/
theorem fst_entries {t : Tree} (h : Binding.Supported t) :
    (entries t).map Prod.fst = Binding.sites t := by
  induction t using Tree.induct with
  | node l s ps ih =>
      rcases Binding.supported_node.1 h with ⟨hown, hinner⟩
      have hlist : (listRule statementEntries {} l s ps).map Prod.fst =
          Binding.listSites l ps := by
        by_cases hl : l = .module .statements
        · rw [listRule, if_pos ⟨hl, rfl⟩, Binding.listSites, if_pos (by simpa using hl),
            List.map_flatMap]
          exact List.flatMap_congr fun c hc => fst_statementEntries (hown hl c hc)
        · rw [listRule, if_neg (fun h => hl h.1), Binding.listSites, if_neg (by simpa using hl),
            List.map_nil]
      rw [entries, gather_listRule_node, List.map_append, hlist, Binding.sites,
        sitesAll_eq_flatMap, List.map_flatMap]
      congr 1
      refine List.flatMap_congr fun c hc => ?_
      split_ifs with hsearched
      · exact ih c hc (hinner c hc hsearched)
      · rfl

/-- Entries stand where tracked names do. -/
theorem site_of_entry {t : Tree} (h : Binding.Supported t) {x : Span × Removed}
    (hx : x ∈ entries t) : x.1 ∈ Binding.sites t := by
  rw [← fst_entries h]
  exact List.mem_map_of_mem hx

/-- Where no two names share their place, a name has one entry. -/
theorem entry_unique {t : Tree} (h : Sweepable t) {s : Span} {e e' : Removed}
    (he : (s, e) ∈ entries t) (he' : (s, e') ∈ entries t) : e = e' := by
  have hnodup : ((entries t).map Prod.fst).Nodup := by
    rw [fst_entries h.supported]
    exact h.sites
  exact (Prod.mk.inj (List.inj_on_of_nodup_map hnodup he he' rfl)).2

/-! ## Entries and removals -/

/-- A removal inside a target leaves its entries. -/
theorem targetEntries_prune {kind : BindingKind} {t : Tree} (ht : t.inShape = true) :
    targetEntries kind (prune dead t) = targetEntries kind t := by
  fun_cases targetEntries kind t with
  | case1 name span parts => rfl
  | case2 span parts =>
      have hparts := fun c hc => (Tree.inShape_part ht rfl (c := c) hc).2
      rw [prune_of_plain dead (by simp), targetEntries, List.flatMap_map]
      apply List.flatMap_congr
      intro c hc
      rw [objectPartTarget_prune dead (hparts c hc)]
  | case3 span parts =>
      have hparts := fun c hc => (Tree.inShape_part ht rfl (c := c) hc).2
      rw [prune_of_plain dead (by simp), targetEntries,
        filter_map_of_congr fun c _ => by rw [isHole_prune], List.flatMap_map]
      apply List.flatMap_congr
      intro c hc
      rw [arrayPartTarget_prune dead (hparts c (List.mem_of_mem_filter hc))]
  | case4 t hbinding hobject harray =>
      rw [targetEntries]
      · exact fun _ => prune_ne_node dead (by simp) (hbinding _)
      · exact prune_ne_node dead (by simp) hobject
      · exact prune_ne_node dead (by simp) harray

/-- A removal inside a declarator leaves its entries. -/
theorem declaratorEntries_prune {d : Tree} (hd : d.inShape = true)
    (hl : IsPlain d.label) :
    targetEntries (declaratorKind (prune dead d)) ((prune dead d).child 0) =
      targetEntries (declaratorKind d) (d.child 0) := by
  have hkind : declaratorKind (prune dead d) = declaratorKind d := by
    rw [declaratorKind, declaratorKind, child_prune_of_plain dead hl, child_prune_of_plain dead hl,
      nameOf_prune, isFunctionLike_prune]
  rw [hkind, child_prune_of_plain dead hl, targetEntries_prune (Tree.inShape_child hd 0)]

theorem Inert.statementEntries {t : Tree} (h : Inert t) : statementEntries t = [] := by
  rw [Sweep.statementEntries]
  · exact h.notFunction
  · exact h.notVariables
  · exact h.notExpression
  · exact h.notImport

/-- A removal inside a statement leaves its names and kinds. -/
theorem statementEntries_prune {t : Tree} (ht : t.inShape = true) :
    statementEntries (prune dead t) = statementEntries t := by
  fun_cases keepStatement dead t with
  | case1 traits span name generics parameters result body =>
      rw [prune_of_plain dead (by simp)]
      simp only [List.map_cons, List.map_nil, statementEntries, isAbsent_prune, nameOf_prune]
  | case2 kind declared span declarators =>
      rw [prune_of_plain dead (by simp), statementEntries, statementEntries, List.flatMap_map]
      apply List.flatMap_congr
      intro d hd
      exact declaratorEntries_prune (Tree.inShape_part ht rfl hd).1
        (isPlain_of_isDeclarator (Tree.isDeclarator_of_inShape ht hd))
  | case3 span e =>
      rw [prune_of_plain dead (by simp)]
      simp only [List.map_cons, List.map_nil, statementEntries, assignedFunction?_prune]
  | case4 typeOnly phase span clauseSpan specifiers rest =>
      have hclause := (Tree.inShape_part ht rfl List.mem_cons_self).1
      have hparts := fun c hc => (Tree.inShape_part hclause rfl (c := c) hc).2
      rw [prune_import, statementEntries, statementEntries, List.flatMap_map]
      apply List.flatMap_congr
      intro d hd
      rw [child_prune dead (hparts d hd), apply_prunePart dead (nameOf_prune dead _)]
  | case5 t hfunction hlist hexpression himports =>
      have hinert : Inert t := ⟨hfunction, hlist, hexpression, himports⟩
      rw [(hinert.prune dead).statementEntries, hinert.statementEntries]

/-- What is left of a declarator keeps its kind, and its names are among those that it had. -/
theorem declaratorEntries_kept {d u : Tree} (h : keptDeclarator dead d = some u) :
    (targetEntries (declaratorKind u) (u.child 0)).Sublist
      (targetEntries (declaratorKind d) (d.child 0)) := by
  rcases keptDeclarator_cases h with rfl | ⟨l, s, target, target', rest, rfl, htarget, rfl⟩
  · exact List.Sublist.refl _
  · rcases keptTarget_cases htarget with ⟨rfl, -⟩ | ⟨s', ps, rfl, rfl⟩ | ⟨s', ps, rfl, rfl⟩
    · exact List.Sublist.refl _
    · exact List.filter_sublist.flatMap _
    · change (targetEntries _ (.node (.pattern .array) s' _)).Sublist
        (targetEntries _ (.node (.pattern .array) s' ps))
      rw [targetEntries, targetEntries, keepArrayParts_places]
      exact List.filter_sublist.flatMap _

/-- What is left of a statement has no entries that the statement had not. -/
theorem statementEntries_kept (t : Tree) :
    ((kept dead t).toList.flatMap statementEntries).Sublist (statementEntries t) := by
  cases h : kept dead t with
  | none => exact List.nil_sublist _
  | some u =>
      rw [Option.toList_some, List.flatMap_singleton]
      rcases kept_cases h with rfl | ⟨k, b, s, ds, rfl, rfl⟩ | ⟨o, p, s, cs, ss, rest, rfl, rfl⟩
      · exact List.Sublist.refl _
      · rw [statementEntries, statementEntries, flatMap_filterMap_eq]
        apply List.Sublist.flatMap_right
        intro d hd
        cases hd : keptDeclarator dead d with
        | none => exact List.nil_sublist _
        | some u =>
            rw [Option.toList_some, List.flatMap_singleton]
            exact declaratorEntries_kept hd
      · rw [statementEntries, statementEntries, flatMap_filterMap_eq]
        apply List.Sublist.flatMap_right
        intro d hd
        cases hd : keptSpecifier dead d with
        | none => exact List.nil_sublist _
        | some u =>
            obtain rfl := keptSpecifier_eq hd
            rw [Option.toList_some, List.flatMap_singleton]

/-- A removal takes entries and changes none. -/
theorem entries_prune_subset {t : Tree} (ht : t.inShape = true) :
    entries (prune dead t) ⊆ entries t := by
  have hcuttable : Cuttable dead (listRule statementEntries) fun _ => True := by
    refine cuttable_listRule (fun c hc => statementEntries_prune hc) fun c => ?_
    have hsub : ((kept dead c).toList.flatMap statementEntries).Sublist (statementEntries c) :=
      statementEntries_kept c
    rcases hsub.exists_perm_append with ⟨rest, hrest⟩
    exact ⟨rest, fun _ _ => trivial, hrest⟩
  exact gather_prune_subset hcuttable rfl ht

/-! ## The log of a run -/

/-- A pass of a run takes the name at `s` along with code that goes by other names, which are dead
then and are all among `names`. -/
def TakenAlong (c : Context) (root : Tree) (names : List Span) (s : Span) : Prop :=
  ∃ t t', Reaches c root t ∧ Pass c t t' ∧ ∃ p ∈ pieces t, p.names ≠ [] ∧
    (∀ n ∈ p.names, Dead t c n ∧ n ∈ names) ∧ s ∈ Binding.sites p.code

/-- What the log of a run from `root` to `final` tells: each of its entries is that of a tracked name
of `root`, no two are of one name, and all these names are gone. Any other name that is gone went
along with names in the log. -/
structure Logged (c : Context) (root final : Tree) (log : List (Span × Removed)) : Prop where
  nodup : (log.map Prod.fst).Nodup
  tracked : ∀ x ∈ log, c.isTracked x.1 = true
  entered : log ⊆ entries root
  gone : ∀ x ∈ log, x.1 ∉ Binding.sites final
  complete : ∀ s ∈ Binding.sites root, s ∉ Binding.sites final →
    s ∈ log.map Prod.fst ∨ TakenAlong c root (log.map Prod.fst) s

/-- The entries of a pass, in the order in which they are put down. -/
theorem exists_log_of_pass {root : Tree} {c : Context} (hroot : Sweepable root)
    (hdead : deadBindings root c = .ok dead) :
    ∃ taken : List Binding, taken.Perm dead ∧ taken.map entryOf = (removeIn dead root).2 := by
  have hmatch : List.Forall₂ (fun e b => e = entryOf b) (dead.map entryOf) dead :=
    List.forall₂_map_left_iff.2 (List.forall₂_same.2 fun _ _ => rfl)
  rcases List.perm_comp_forall₂ (record_perm_dead hroot hdead) hmatch with ⟨taken, htaken, hperm⟩
  refine ⟨taken, hperm, Eq.symm ?_⟩
  rw [← List.forall₂_eq_eq_eq, List.forall₂_map_right_iff]
  exact htaken

theorem TakenAlong.mono {c : Context} {root : Tree} {names names' : List Span} {s : Span}
    (h : TakenAlong c root names s) (hsub : names ⊆ names') : TakenAlong c root names' s := by
  rcases h with ⟨t, t', hreach, hpass, p, hp, hne, hall, hs⟩
  exact ⟨t, t', hreach, hpass, p, hp, hne, fun n hn => (hall n hn).imp_right (@hsub n), hs⟩

/-- What is taken along after a pass is taken along in the run that begins with the pass. -/
theorem TakenAlong.of_pass {c : Context} {root root' : Tree} {names : List Span} {s : Span}
    (hpass : Pass c root root') (h : TakenAlong c root' names s) : TakenAlong c root names s := by
  rcases h with ⟨t, t', hreach, hrest⟩
  exact ⟨t, t', .head hpass hreach, hrest⟩

/-- The log of a run that starts with a pass: the entries of the pass come first. -/
theorem Logged.of_pass {c : Context} {root final : Tree} {taken : List Binding}
    {log : List (Span × Removed)} (hroot : Sweepable root)
    (hdead : deadBindings root c = .ok dead) (hne : dead ≠ []) (htaken : taken.Perm dead)
    (hreach : Reaches c (prune dead root) final) (h : Logged c (prune dead root) final log) :
    Logged c root final (taken.map (fun b => (b.site, entryOf b)) ++ log) := by
  have hpass : Pass c root (prune dead root) := ⟨dead, hdead, hne, rfl⟩
  have hleft : Sweepable (prune dead root) := sweepable_prune hroot
  have hfirst : (taken.map fun b => (b.site, entryOf b)).map Prod.fst = taken.map (·.site) := by
    rw [List.map_map]
    rfl
  -- A name of the pass is dead, and what is left of the tree has no dead name.
  have hgone : ∀ b ∈ taken, b.site ∉ Binding.sites (prune dead root) := by
    intro b hb hleft
    have hisDead : isDead dead b.site = true :=
      List.any_eq_true.2 ⟨b, htaken.mem_iff.1 hb, by simp⟩
    exact absurd hisDead (by simp [sites_prune_alive hroot.shape hleft])
  have hnames : ∀ n, Dead root c n → n ∈ (taken.map fun b => (b.site, entryOf b)).map Prod.fst := by
    intro n hn
    rw [hfirst, (htaken.map _).mem_iff]
    rcases List.any_eq_true.1 ((isDead_iff_dead hdead n).2 hn) with ⟨b, hb, hsite⟩
    exact List.mem_map.2 ⟨b, hb, beq_iff_eq.1 hsite⟩
  constructor
  · rw [List.map_append, hfirst]
    refine List.nodup_append.2 ⟨?_, h.nodup, ?_⟩
    · rw [(htaken.map _).nodup_iff]
      exact List.pairwise_map.2 (unique_deadBindings hdead)
    · intro s hs s' hs' heq
      rcases List.mem_map.1 hs with ⟨b, hb, rfl⟩
      rcases List.mem_map.1 hs' with ⟨x, hx, rfl⟩
      exact hgone b hb (heq ▸ site_of_entry hleft.supported (h.entered hx))
  · intro x hx
    rcases List.mem_append.1 hx with hx | hx
    · rcases List.mem_map.1 hx with ⟨b, hb, rfl⟩
      exact tracked_of_dead hdead (htaken.mem_iff.1 hb)
    · exact h.tracked x hx
  · intro x hx
    rcases List.mem_append.1 hx with hx | hx
    · rcases List.mem_map.1 hx with ⟨b, hb, rfl⟩
      rcases deadBindings_eq_ok.1 hdead with ⟨bs, hbs, rfl⟩
      exact entry_of_binding hbs (List.mem_of_mem_filter (htaken.mem_iff.1 hb))
    · exact entries_prune_subset hroot.shape (h.entered hx)
  · intro x hx hfinal
    rcases List.mem_append.1 hx with hx | hx
    · rcases List.mem_map.1 hx with ⟨b, hb, rfl⟩
      exact hgone b hb (sites_reaches_subset hreach hleft.shape hfinal)
    · exact h.gone x hx hfinal
  · intro s hs hfinal
    rw [List.map_append]
    by_cases hstays : s ∈ Binding.sites (prune dead root)
    · rcases h.complete s hstays hfinal with hlogged | halong
      · exact Or.inl (List.mem_append_right _ hlogged)
      · exact Or.inr ((halong.mono (List.subset_append_right _ _)).of_pass hpass)
    · rcases (mem_sites_pass_iff hpass hroot.shape hroot.sites hs).1 hstays with
        hdeadSite | ⟨p, hp, hpne, hall, hcode⟩
      · exact Or.inl (List.mem_append_left _ (hnames s hdeadSite))
      · refine Or.inr ⟨root, _, .refl, hpass, p, hp, hpne, ?_, hcode⟩
        exact fun n hn => ⟨hall n hn, List.mem_append_left _ (hnames n (hall n hn))⟩

/-- Every run of passes has a log. It depends on what is tracked, and on nothing else that is known
when the run begins. -/
theorem Ends.logged {n : Nat} {root : Tree} {c c₀ : Context} (h : Ends n root c)
    (hroot : Sweepable root) (hrefs : c.refs = c₀.refs) :
    ∃ log, (passes none n root c).context.removed = c.removed ++ log.map Prod.snd ∧
      Logged c₀ root (passes none n root c).root log := by
  induction h with
  | @last root c hdead =>
      rw [passes_last rfl hdead]
      refine ⟨[], by simp, ⟨List.nodup_nil, by simp, by simp, by simp, ?_⟩⟩
      exact fun s hs hgone => absurd hs hgone
  | @more n root c dead hdead hne _ ih =>
      rw [passes_more hroot rfl hdead hne]
      rcases ih (sweepable_prune hroot) hrefs with ⟨log, hremoved, hlogged⟩
      rcases exists_log_of_pass hroot hdead with ⟨taken, hperm, hlost⟩
      have hsame : Pass (noted dead root c) = Pass c₀ := pass_congr hrefs
      have hreach := reaches_passes none n (prune dead root) (noted dead root c)
      rw [Reaches, hsame] at hreach
      rw [deadBindings_congr hrefs] at hdead
      refine ⟨taken.map (fun b => (b.site, entryOf b)) ++ log, ?_, ?_⟩
      · rw [hremoved, List.map_append, List.map_map, noted, List.append_assoc, ← hlost]
        rfl
      · exact hlogged.of_pass hroot hdead hne hperm hreach

/-- A sweep that ends well takes all the passes that it needs. -/
theorem Ends.sweep_eq {n : Nat} {root : Tree} {c : Context} (h : Ends n root c)
    (hroot : Sweepable root) {o : Options} (hok : (sweep o root c).result = .ok ()) :
    sweep o root c = passes none n root c := by
  have hbudget := h.le_budget hroot
  by_cases henough : ∀ limit, o.maxPasses = some limit → c.passes + n ≤ limit
  · exact h.passes_enough hroot henough hbudget
  · push Not at henough
    rcases henough with ⟨limit, hmax, hshort⟩
    have hpos := h.pos
    rw [sweep, hmax, h.passes_short hroot hshort (by omega)] at hok
    simp at hok

/-- A sweep that ends well has a log. -/
theorem logged_sweep {o : Options} {root : Tree} {c : Context} (hroot : Sweepable root)
    (hok : (sweep o root c).result = .ok ()) :
    ∃ log, (sweep o root c).context.removed = c.removed ++ log.map Prod.snd ∧
      Logged c root (sweep o root c).root log := by
  rcases exists_ends hroot c with ⟨n, hends⟩
  rw [hends.sweep_eq hroot hok]
  exact hends.logged hroot rfl

end RouteSplit.Sweep
