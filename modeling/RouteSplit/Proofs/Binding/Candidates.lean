import RouteSplit.Proofs.Binding.Supported
import RouteSplit.Proofs.Scope.Parts

/-!
# Bindings before their symbols are known

Which bindings a statement has is written in it, all but their symbols. Those a table has to tell.

- `Candidate`: a binding with the lookup of its symbol;
- `candidatesOf`, `candidates`: those of a statement and of a tree;
- `collect_eq`: the bindings of a tree are its candidates with the symbols that the table finds;
- `lookup_of_candidate`: where the symbol of a candidate is looked up;
- `isReferenced_iff`: a binding is read by uses of its symbol outside its own code.
-/

namespace RouteSplit

open Scope Sweep

/-- A binding whose symbol is still to be looked up. -/
structure Candidate where
  name : String
  kind : BindingKind
  site : Span
  self : Span
  lookup : Lookup
deriving DecidableEq, Repr

/-- The binding, if its symbol is found. -/
def Candidate.bindings (table : Table) (x : Candidate) : List Binding :=
  (x.lookup.find table).toList.map fun symbol => ⟨x.name, x.kind, x.site, x.self, symbol⟩

namespace Binding

/-! ## Candidates of a statement -/

/-- The candidate for a name that is declared where it stands. -/
def candidateAt (kind : BindingKind) (self : Span) (target : String × Span) : Candidate :=
  ⟨target.1, kind, target.2, self, .declared target.2⟩

/-- The names that a target binds, if it is understood. -/
def targetsOf (target : Tree) : List (String × Span) :=
  match declaratorTargets target with
  | .ok targets => targets
  | .error _ => []

def declaratorCandidates (d : Tree) : List Candidate :=
  match d.child 0 with
  | .node (.pattern (.binding name)) site _ =>
    if (d.child 2).isFunctionLike then [candidateAt .function d.span (name, site)]
    else [candidateAt .variable site (name, site)]
  | target => (targetsOf target).map fun t => candidateAt .variable t.2 t

/-- The bindings of a statement that stands in the scopes `env`, but for their symbols. -/
def candidatesOf (env : Env) : Tree → List Candidate
  | .node (.function (.function .declaration false _)) span [name, _, _, _, body] =>
    if body.isAbsent then [] else (nameOf name).toList.map (candidateAt .function span)
  | .node (.statement (.variableList _ _)) _ declarators => declarators.flatMap declaratorCandidates
  | .node (.statement .expression) _ [e] =>
    (assignedFunction? e).toList.map fun (name, site, span) =>
      ⟨name, .function, site, span, .used env name .write⟩
  | .node (.module (.importDeclaration _ _)) _
      (.node (.module .importClause) _ specifiers :: _) =>
    specifiers.flatMap fun s => (nameOf (s.child 0)).toList.map fun t => candidateAt .imported t.2 t
  | _ => []

def candidateRule : Rule Candidate := fun a l _ ps =>
  if l = .module .statements ∧ a.searched then ps.flatMap (candidatesOf a.env) else []

/-- The bindings of a tree, but for their symbols. -/
def candidates (root : Tree) : List Candidate := gather candidateRule {} root

/-! ## Names of candidates -/

theorem sites_declaratorCandidates (d : Tree) :
    (declaratorCandidates d).map (·.site) = targetSites (d.child 0) := by
  unfold declaratorCandidates
  split
  · rename_i name site parts htarget
    rw [htarget]
    split_ifs <;> rfl
  · rename_i target hname
    rw [targetsOf, targetSites, List.map_map]
    cases declaratorTargets (d.child 0) <;> rfl

/-- A statement has one candidate for each name that it goes by. -/
theorem sites_candidatesOf (env : Env) (t : Tree) :
    (candidatesOf env t).map (·.site) = statementSites t := by
  fun_cases candidatesOf env t with
  | case1 traits span name generics parameters result body habsent =>
      rw [statementSites, if_pos habsent, List.map_nil]
  | case2 traits span name generics parameters result body habsent =>
      rw [statementSites, if_neg habsent, List.map_map]
      rfl
  | case3 kind declared span declarators =>
      rw [statementSites, List.map_flatMap]
      exact List.flatMap_congr fun d _ => sites_declaratorCandidates d
  | case4 span e =>
      rw [statementSites, List.map_map]
      rfl
  | case5 typeOnly phase span clauseSpan specifiers rest =>
      rw [statementSites, importSites, List.map_flatMap]
      apply List.flatMap_congr
      intro c hc
      rw [List.map_map]
      rfl
  | case6 t hfunction hvariables hexpression himport =>
      rw [statementSites]
      · rfl
      all_goals assumption

/-- The candidates of a tree stand where its tracked names stand, in the same order. -/
theorem sites_candidates (t : Tree) : (candidates t).map (·.site) = sites t := by
  have hrule : siteRule = fun a l s ps => (candidateRule a l s ps).flatMap fun x => [x.site] := by
    funext a l s ps
    rw [siteRule, listRule, candidateRule]
    split_ifs
    · rw [← List.map_eq_flatMap, List.map_flatMap]
      exact List.flatMap_congr fun c _ => (sites_candidatesOf a.env c).symm
    · rfl
  rw [sites_eq_gather, hrule, gather_flatMap, List.map_eq_flatMap, candidates]

/-! ## Candidates and bindings -/

theorem bindings_candidateAt (table : Table) (kind : BindingKind) (self : Span)
    (target : String × Span) :
    (candidateAt kind self target).bindings table = declaredAs table kind self target := rfl

theorem ofDeclarator_eq {table : Table} {d : Tree} {bs : List Binding}
    (h : ofDeclarator table d = .ok bs) :
    (declaratorCandidates d).flatMap (·.bindings table) = bs := by
  obtain ⟨targets, htargets, h⟩ := bind_eq_ok.1 h
  split at h
  · rename_i name site parts htarget
    split_ifs at h with hfunction
    · obtain rfl := Except.ok.inj h
      simp [declaratorCandidates, htarget, hfunction, bindings_candidateAt]
    · obtain rfl := Except.ok.inj h
      simp [declaratorCandidates, htarget, hfunction, bindings_candidateAt]
  · rename_i target hname
    obtain rfl := Except.ok.inj h
    unfold declaratorCandidates
    split
    · rename_i name site parts htarget
      exact absurd htarget (hname name site parts)
    · rw [targetsOf, htargets, List.flatMap_map]
      rfl

/-- Where collecting a statement works, it gives the bindings of its candidates. -/
theorem ofStatement_eq {table : Table} {env : Env} {t : Tree} {bs : List Binding}
    (h : ofStatement table env t = .ok bs) : (candidatesOf env t).flatMap (·.bindings table) = bs := by
  fun_cases ofStatement table env t with
  | case1 traits span name generics parameters result body habsent =>
      -- A signature of an overload or of ambient code goes by no name on either side.
      rw [ofStatement, if_pos habsent] at h
      rw [candidatesOf, if_pos habsent]
      exact Except.ok.inj h
  | case2 traits span name generics parameters result body habsent =>
      rw [ofStatement, if_neg habsent] at h
      rw [candidatesOf, if_neg habsent, List.flatMap_map]
      exact Except.ok.inj h
  | case3 kind declared span declarators =>
      -- The bindings of all declarators are one list after the other, as the candidates are.
      obtain ⟨lists, hlists, h⟩ := bind_eq_ok.1 h
      rw [candidatesOf, List.flatMap_assoc, ← Except.ok.inj h,
        mapM_eq_map (fun d _ => ofDeclarator_eq) hlists, ← List.flatMap_def]
  | case4 span e name site self hassigned =>
      -- The only kind of statement whose name is looked up among the uses.
      rw [ofStatement, hassigned] at h
      rw [candidatesOf, hassigned]
      simpa [Candidate.bindings, Lookup.find] using Except.ok.inj h
  | case5 span e hassigned =>
      rw [ofStatement, hassigned] at h
      rw [candidatesOf, hassigned]
      exact Except.ok.inj h
  | case6 typeOnly phase span clauseSpan specifiers rest =>
      rw [candidatesOf, ← Except.ok.inj h, ofImport, List.flatMap_assoc]
      apply List.flatMap_congr
      intro c hc
      rw [List.flatMap_map]
      rfl
  | case7 t hfunction hvariables hexpression himport =>
      rw [ofStatement] at h
      · rw [candidatesOf]
        · exact Except.ok.inj h
        all_goals assumption
      all_goals assumption

/-- The bindings of a statement that is understood are its candidates. -/
theorem bindingsOf_eq (table : Table) (env : Env) {t : Tree} (h : troubles t = []) :
    bindingsOf table env t = (candidatesOf env t).flatMap (·.bindings table) := by
  obtain ⟨bs, hbs⟩ := (reports_ofStatement table env t).isOk_iff.2 (troubles_eq_nil_iff.1 h)
  rw [ofStatement_eq hbs, bindingsOf, hbs]

/-- The bindings of a tree that is understood are those of its candidates, whatever the table. -/
theorem gather_bindingRule_eq (table : Table) (a : Around) {t : Tree} (h : Supported t) :
    gather (bindingRule table) a t = (gather candidateRule a t).flatMap (·.bindings table) := by
  induction t using Tree.induct generalizing a with
  | node l s ps ih =>
      obtain ⟨hown, hinner⟩ := supported_node.1 h
      rw [gather_node, gather_node, List.flatMap_append, List.flatMap_assoc]
      congr 1
      · rw [bindingRule, candidateRule]
        split_ifs with hl
        · rw [List.flatMap_assoc]
          exact List.flatMap_congr fun c hc => bindingsOf_eq table a.env (hown hl.1 c hc)
        · rfl
      · apply List.flatMap_congr
        intro x hx
        have hpart := List.mem_zipIdx_iff_getElem?.1 hx
        have hmem := List.mem_of_getElem? hpart
        cases hsearched : searches l x.1.label with
        | true => exact ih x.1 hmem _ (hinner x.1 hmem hsearched)
        | false =>
            -- What is not searched has neither candidates nor bindings.
            have haround : (a.inside l s ps x.2).searched = false := by
              simp [inside_searched hpart, hsearched]
            rw [gather_eq_nil_of_unsearched (fun a l s ps ha => by simp [bindingRule, ha]) haround,
              gather_eq_nil_of_unsearched (fun a l s ps ha => by simp [candidateRule, ha]) haround]
            rfl

/-! ## Tables without repetitions -/

/-- No binding replaces another where no two are of one name. -/
theorem foldl_insert_eq {table bs : List Binding} (h : ((table ++ bs).map (·.site)).Nodup) :
    bs.foldl insert table = table ++ bs := by
  induction bs generalizing table with
  | nil => simp
  | cons b bs ih =>
      have hnew : table.any (·.site == b.site) = false := by
        rw [List.any_eq_false]
        intro x hx hsite
        rw [List.map_append, List.nodup_append] at h
        refine h.2.2 x.site (List.mem_map_of_mem hx) b.site ?_ (by simpa using hsite)
        simp
      have hinsert : insert table b = table ++ [b] := by simp [insert, hnew]
      rw [List.foldl_cons, hinsert, ih (by simpa using h), List.append_assoc]
      rfl

/-- Bindings of different names are their own table. -/
theorem keyed_eq_self {bs : List Binding} (h : (bs.map (·.site)).Nodup) : keyed bs = bs := by
  have hinserted : bs.foldl insert [] = [] ++ bs := foldl_insert_eq h
  exact hinserted

/-- A candidate has at most one binding, and its place is that of the candidate. -/
theorem sites_bindings_sublist (table : Table) (xs : List Candidate) :
    ((xs.flatMap (·.bindings table)).map (·.site)).Sublist (xs.map (·.site)) := by
  rw [List.map_flatMap, List.map_eq_flatMap]
  apply List.Sublist.flatMap_right
  intro x hx
  rw [Candidate.bindings, List.map_map]
  cases x.lookup.find table with
  | none => exact List.nil_sublist _
  | some symbol => exact List.Sublist.refl _

/-- The bindings of a tree are its candidates with the symbols that its table finds. -/
theorem collect_eq {root : Tree} (h : Supported root) (hsites : (sites root).Nodup) :
    collect root = .ok ((candidates root).flatMap (·.bindings (tableOf root))) := by
  obtain ⟨bs, hbs⟩ := collect_isOk_iff.2 h
  unfold collect at hbs ⊢
  cases hall : collectIn (tableOf root) {} root with
  | error e => simp [hall, Except.map] at hbs
  | ok all =>
      have heq : all = (candidates root).flatMap (·.bindings (tableOf root)) := by
        rw [collectIn_eq {} root hall]
        exact gather_bindingRule_eq _ {} h
      have hnodup : (all.map (·.site)).Nodup := by
        rw [heq]
        refine List.Nodup.sublist (sites_bindings_sublist _ _) ?_
        rw [sites_candidates]
        exact hsites
      rw [Except.map, keyed_eq_self hnodup, heq]

/-! ## Lookups of candidates -/

/-- The symbol of a candidate is that of its declaration, or the one that an assignment means. -/
theorem lookup_of_candidatesOf {env : Env} {t : Tree} {x : Candidate}
    (hx : x ∈ candidatesOf env t) :
    (∃ site, x.lookup = .declared site) ∨ x.lookup = .used env x.name .write := by
  have hat : ∀ {kind : BindingKind} {self : Span} {target : String × Span},
      candidateAt kind self target = x → ∃ site, x.lookup = .declared site := by
    rintro kind self target rfl
    exact ⟨target.2, rfl⟩
  -- All but assignments declare the name themselves.
  fun_cases candidatesOf env t with
  | case1 traits span name generics parameters result body habsent =>
      rw [candidatesOf, if_pos habsent] at hx
      simp at hx
  | case2 traits span name generics parameters result body habsent =>
      rw [candidatesOf, if_neg habsent] at hx
      obtain ⟨target, -, heq⟩ := List.mem_map.1 hx
      exact Or.inl (hat heq)
  | case3 kind declared span declarators =>
      obtain ⟨d, -, hx⟩ := List.mem_flatMap.1 hx
      unfold declaratorCandidates at hx
      split at hx
      · split_ifs at hx <;> exact Or.inl (hat (List.mem_singleton.1 hx).symm)
      · obtain ⟨target, -, heq⟩ := List.mem_map.1 hx
        exact Or.inl (hat heq)
  | case4 span e =>
      obtain ⟨assigned, -, rfl⟩ := List.mem_map.1 hx
      exact Or.inr rfl
  | case5 typeOnly phase span clauseSpan specifiers rest =>
      obtain ⟨c, -, hx⟩ := List.mem_flatMap.1 hx
      obtain ⟨target, -, heq⟩ := List.mem_map.1 hx
      exact Or.inl (hat heq)
  | case6 t hfunction hvariables hexpression himport =>
      rw [candidatesOf] at hx
      · simp at hx
      all_goals assumption

/-- The symbol of a candidate is looked up by a place, or in scopes that its tree opens and those
around it. -/
theorem lookup_of_candidate {a : Around} {t : Tree} {x : Candidate}
    (hx : x ∈ gather candidateRule a t) :
    (∃ site, x.lookup = .declared site) ∨
      ∃ inner, inner ⊆ scopes t ∧ x.lookup = .used (inner ++ a.env) x.name .write := by
  induction t using Tree.induct generalizing a with
  | node l s ps ih =>
      rcases mem_gather_node.1 hx with hx | ⟨i, c, hc, hx⟩
      · unfold candidateRule at hx
        split_ifs at hx
        · obtain ⟨c, -, hx⟩ := List.mem_flatMap.1 hx
          exact (lookup_of_candidatesOf hx).imp_right fun hused => ⟨[], List.nil_subset _, hused⟩
        · simp at hx
      · rcases ih c (List.mem_of_getElem? hc) hx with hplace | ⟨inner, hinner, hused⟩
        · exact Or.inl hplace
        · refine Or.inr ⟨inner ++ opened l s ps i, List.append_subset.2
            ⟨List.Subset.trans hinner (scopes_part_subset hc), opened_subset_scopes l s ps i⟩, ?_⟩
          rw [hused, List.append_assoc]
          rfl

/-! ## Reads -/

/-- A binding is referenced if and only if some reading use outside its own code means its
symbol. -/
theorem isReferenced_iff {root : Tree} {b : Binding} :
    isReferenced (readsIn root) b = true ↔ ∃ u ∈ uses root, isRead u.usage = true ∧
      u.resolve (tableOf root) = some b.symbol ∧ b.self.encloses u.site = false := by
  have hall : readsIn root = (uses root).flatMap (Use.reads (tableOf root)) :=
    reads_eq_flatMap (tableOf root) {} root
  rw [isReferenced, List.any_eq_true]
  constructor
  · rintro ⟨site, hsite, hout⟩
    obtain ⟨read, hread, rfl⟩ := List.mem_map.1 hsite
    obtain ⟨hread, hsymbol⟩ := List.mem_filter.1 hread
    rw [hall] at hread
    obtain ⟨u, hu, hread⟩ := List.mem_flatMap.1 hread
    unfold Use.reads at hread
    split_ifs at hread with husage
    · obtain ⟨symbol, hmeans, rfl⟩ := List.mem_map.1 hread
      obtain rfl : symbol = b.symbol := by simpa using hsymbol
      exact ⟨u, hu, husage, Option.mem_toList.1 hmeans, by simpa using hout⟩
    · simp at hread
  · rintro ⟨u, hu, husage, hmeans, hout⟩
    exact ⟨u.site, mem_readsOf hu husage hmeans, by simp [hout]⟩

end Binding

end RouteSplit
