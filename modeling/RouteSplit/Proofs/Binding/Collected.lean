import RouteSplit.Binding.Collect
import RouteSplit.Binding.Sites
import RouteSplit.Proofs.Scope.Gather

/-!
# Collected bindings

- `bindingRule`, `collectIn_eq`: the bindings of a tree, told list by list;
- `Origin`, `origin_of_mem_bindingsOf`: what a binding of a statement comes from;
- `Unique`, `collect_spec`: a table has no two bindings for one name.
-/

namespace RouteSplit.Binding

open Scope

/-! ## Bindings as a rule -/

/-- The bindings of a statement that is understood. -/
def bindingsOf (table : Table) (env : Env) (t : Tree) : List Binding :=
  match ofStatement table env t with
  | .ok bindings => bindings
  | .error _ => []

def bindingRule (table : Table) : Rule Binding := fun a l _ ps =>
  if l = .module .statements ∧ a.searched then ps.flatMap (bindingsOf table a.env) else []

theorem mapM_eq_map {α β ε : Type} {f : α → Except ε β} {g : α → β} {ps : List α} {ts : List β}
    (hg : ∀ p t, f p = .ok t → g p = t) (h : ps.mapM f = .ok ts) : ts = ps.map g := by
  induction ps generalizing ts with
  | nil => simpa [pure, Except.pure, eq_comm] using h
  | cons p ps ih =>
      obtain ⟨t, ts', hp, hps, rfl⟩ := mapM_cons_eq_ok.1 h
      rw [List.map_cons, hg p t hp, ih hps]

theorem exists_of_mem_mapM {α β ε : Type} {f : α → Except ε β} {ps : List α} {ts : List β}
    (h : ps.mapM f = .ok ts) {t : β} (ht : t ∈ ts) : ∃ p ∈ ps, f p = .ok t := by
  induction ps generalizing ts with
  | nil =>
      obtain rfl : ts = [] := by simpa [pure, Except.pure, eq_comm] using h
      simp at ht
  | cons p ps ih =>
      obtain ⟨t', ts', hp, hps, rfl⟩ := mapM_cons_eq_ok.1 h
      rcases List.mem_cons.1 ht with rfl | ht
      · exact ⟨p, List.mem_cons_self, hp⟩
      · obtain ⟨q, hq, hqt⟩ := ih hps ht
        exact ⟨q, List.mem_cons_of_mem _ hq, hqt⟩

/-- A computation of two steps works if both of them do. -/
theorem bind_eq_ok {α β ε : Type} {x : Except ε α} {f : α → Except ε β} {b : β} :
    x >>= f = .ok b ↔ ∃ a, x = .ok a ∧ f a = .ok b := by
  cases x <;> simp [bind, Except.bind]

/-- Where collecting a list works, it gives what the rule for bindings tells of the list. -/
theorem ofList_eq {table : Table} {a : Around} {l : Label} {s : Span} {ps : List Tree}
    {bs : List Binding} (h : ofList table a l ps = .ok bs) :
    bs = bindingRule table a l s ps := by
  unfold ofList at h
  unfold bindingRule
  by_cases hl : l = .module .statements ∧ a.searched
  · rw [if_pos (by simpa using hl)] at h
    obtain ⟨lists, hlists, hbs⟩ := bind_eq_ok.1 h
    have hmap := mapM_eq_map (g := bindingsOf table a.env) ?_ hlists
    · rw [if_pos hl, List.flatMap_def, ← hmap]
      exact (Except.ok.inj hbs).symm
    · intro p t hp
      rw [bindingsOf, hp]
  · rw [if_neg (by simpa using hl)] at h
    rw [if_neg hl]
    exact (Except.ok.inj h).symm

mutual

/-- What is collected from a tree is told list by list. -/
theorem collectIn_eq {table : Table} (a : Around) :
    (t : Tree) → {bs : List Binding} → collectIn table a t = .ok bs →
      bs = gather (bindingRule table) a t
  | .node l s ps, bs, h => by
    obtain ⟨own, hown, h⟩ := bind_eq_ok.1 (by rwa [collectIn] at h)
    obtain ⟨inner, hinner, h⟩ := bind_eq_ok.1 h
    rw [gather, ← ofList_eq hown, ← collectAll_eq (a.inside l s ps) 0 ps hinner]
    exact (Except.ok.inj h).symm

theorem collectAll_eq {table : Table} (a : Nat → Around) (i : Nat) :
    (ps : List Tree) → {bs : List Binding} →
      collectAll table a i ps = .ok bs →
        bs = gatherAll (bindingRule table) a i ps
  | [], bs, h => by
    rw [collectAll] at h
    exact (Except.ok.inj h).symm
  | t :: ts, bs, h => by
    obtain ⟨first, hfirst, h⟩ := bind_eq_ok.1 (by rwa [collectAll] at h)
    obtain ⟨rest, hrest, h⟩ := bind_eq_ok.1 h
    rw [gatherAll, ← collectIn_eq (a i) t hfirst, ← collectAll_eq a (i + 1) ts hrest]
    exact (Except.ok.inj h).symm

end

/-! ## Bindings of a statement -/

/-- Where a binding of a statement comes from. -/
inductive Origin (table : Table) (env : Env) (b : Binding) : Tree → Prop
  | function {traits : FunctionTraits} {span : Span} {name generics parameters result body : Tree} :
      body.isAbsent = false → nameOf name = some (b.name, b.site) → b.self = span →
      table.declared b.site = some b.symbol →
      Origin table env b (.node (.function (.function .declaration false traits)) span
        [name, generics, parameters, result, body])
  | plain {k : VariableKind} {declared : Bool} {span : Span} {ds ps : List Tree} {d : Tree} :
      d ∈ ds → d.child 0 = .node (.pattern (.binding b.name)) b.site ps →
      b.self = d.span ∨ b.self = b.site → table.declared b.site = some b.symbol →
      Origin table env b (.node (.statement (.variableList k declared)) span ds)
  | part {k : VariableKind} {declared : Bool} {span : Span} {ds : List Tree} {d : Tree}
      {targets : List (String × Span)} :
      d ∈ ds → (∀ name site ps, d.child 0 ≠ .node (.pattern (.binding name)) site ps) →
      declaratorTargets (d.child 0) = .ok targets → (b.name, b.site) ∈ targets →
      b.self = b.site → table.declared b.site = some b.symbol →
      Origin table env b (.node (.statement (.variableList k declared)) span ds)
  | assignment {span : Span} {e : Tree} :
      assignedFunction? e = some (b.name, b.site, b.self) →
      table.resolve env b.name .write = some b.symbol →
      Origin table env b (.node (.statement .expression) span [e])
  | specifier {typeOnly : Bool} {phase : Option String} {span clauseSpan : Span}
      {specifiers rest : List Tree} {s : Tree} :
      s ∈ specifiers → nameOf (s.child 0) = some (b.name, b.site) → b.self = b.site →
      table.declared b.site = some b.symbol →
      Origin table env b (.node (.module (.importDeclaration typeOnly phase)) span
        (.node (.module .importClause) clauseSpan specifiers :: rest))

/-- A declared binding has the name and the place of its target, and the symbol that the table has
for the place. -/
theorem mem_declaredAs {table : Table} {kind : BindingKind} {self : Span} {target : String × Span}
    {b : Binding} (hb : b ∈ declaredAs table kind self target) :
    (b.name, b.site) = target ∧ b.self = self ∧ table.declared b.site = some b.symbol := by
  obtain ⟨symbol, hsymbol, rfl⟩ := List.mem_map.1 hb
  exact ⟨rfl, rfl, Option.mem_toList.1 hsymbol⟩

/-- Every binding of a declarator comes from it, as a plain name or as a part of a pattern. -/
theorem origin_of_declarator {table : Table} {env : Env} {k : VariableKind} {declared : Bool}
    {span : Span} {ds : List Tree} {d : Tree} (hd : d ∈ ds) {bs : List Binding}
    (h : ofDeclarator table d = .ok bs) {b : Binding} (hb : b ∈ bs) :
    Origin table env b (.node (.statement (.variableList k declared)) span ds) := by
  obtain ⟨targets, htargets, h⟩ := bind_eq_ok.1 h
  split at h
  · rename_i name site ps heq
    split_ifs at h
    · obtain rfl := Except.ok.inj h
      obtain ⟨htarget, hself, hdeclared⟩ := mem_declaredAs hb
      obtain ⟨rfl, rfl⟩ := Prod.mk.inj htarget
      exact .plain hd heq (Or.inl hself) hdeclared
    · obtain rfl := Except.ok.inj h
      obtain ⟨htarget, hself, hdeclared⟩ := mem_declaredAs hb
      obtain ⟨rfl, rfl⟩ := Prod.mk.inj htarget
      exact .plain hd heq (Or.inr hself) hdeclared
  · rename_i hne
    obtain rfl := Except.ok.inj h
    obtain ⟨target, htarget, hb⟩ := List.mem_flatMap.1 hb
    obtain ⟨rfl, hself, hdeclared⟩ := mem_declaredAs hb
    exact .part hd hne htargets htarget hself hdeclared

/-- A binding of a statement comes from a name that the statement goes by. -/
theorem origin_of_mem_bindingsOf {table : Table} {env : Env} {t : Tree} {b : Binding}
    (hb : b ∈ bindingsOf table env t) : Origin table env b t := by
  revert hb
  unfold bindingsOf
  fun_cases ofStatement table env t with
  | case1 traits span name generics parameters result body habsent => simp
  | case2 traits span name generics parameters result body habsent =>
      -- A function with a body: it goes by its own name only.
      intro hb
      obtain ⟨target, htarget, hb⟩ := List.mem_flatMap.1 hb
      obtain ⟨rfl, hself, hdeclared⟩ := mem_declaredAs hb
      exact .function (by simpa using habsent) (Option.mem_toList.1 htarget) hself hdeclared
  | case3 kind declared span declarators =>
      -- A declarator that is no target makes the whole statement fail, and then there is no
      -- binding.
      intro hb
      cases hlists : declarators.mapM (ofDeclarator table) with
      | error e => simp [hlists, bind, Except.bind] at hb
      | ok lists =>
          simp only [hlists, bind, Except.bind, pure, Except.pure] at hb
          obtain ⟨bs, hbs, hb⟩ := List.mem_flatten.1 hb
          obtain ⟨d, hd, hdbs⟩ := exists_of_mem_mapM hlists hbs
          exact origin_of_declarator hd hdbs hb
  | case4 span e name site self hassigned =>
      intro hb
      obtain ⟨symbol, hsymbol, rfl⟩ := List.mem_map.1 hb
      exact .assignment hassigned (Option.mem_toList.1 hsymbol)
  | case5 span e hassigned => simp
  | case6 typeOnly phase span clauseSpan specifiers rest =>
      intro hb
      obtain ⟨c, hc, hb⟩ := List.mem_flatMap.1 hb
      obtain ⟨target, htarget, hb⟩ := List.mem_flatMap.1 hb
      obtain ⟨rfl, hself, hdeclared⟩ := mem_declaredAs hb
      exact .specifier hc (Option.mem_toList.1 htarget) hself hdeclared
  | case7 t h1 h2 h3 h4 => simp

/-- A binding goes by a name that its statement goes by. -/
theorem Origin.site_mem {table : Table} {env : Env} {b : Binding} {t : Tree}
    (h : Origin table env b t) : b.site ∈ statementSites t := by
  cases h with
  | function habsent hname hself hdeclared => simp [statementSites, habsent, hname]
  | plain hd hchild hself hdeclared =>
      refine List.mem_flatMap.2 ⟨_, hd, ?_⟩
      simp [hchild, targetSites, declaratorTargets]
  | part hd hne htargets htarget hself hdeclared =>
      refine List.mem_flatMap.2 ⟨_, hd, ?_⟩
      rw [targetSites, htargets]
      exact List.mem_map.2 ⟨_, htarget, rfl⟩
  | assignment hassigned hmeans => simp [statementSites, hassigned]
  | specifier hs hname hself hdeclared =>
      refine List.mem_flatMap.2 ⟨_, hs, ?_⟩
      simp [hname]

/-- A binding of a node comes from a statement of it, or is a binding of one of its parts. -/
theorem mem_bindings_node {table : Table} {a : Around} {l : Label} {s : Span} {ps : List Tree}
    {b : Binding} (hb : b ∈ gather (bindingRule table) a (.node l s ps)) :
    ((l = .module .statements ∧ a.searched) ∧ ∃ c ∈ ps, Origin table a.env b c) ∨
      ∃ i c, ps[i]? = some c ∧ b ∈ gather (bindingRule table) (a.inside l s ps i) c := by
  refine (mem_gather_node.1 hb).imp_left fun hb => ?_
  unfold bindingRule at hb
  split_ifs at hb with hl
  · obtain ⟨c, hc, hb⟩ := List.mem_flatMap.1 hb
    exact ⟨hl, c, hc, origin_of_mem_bindingsOf hb⟩
  · simp at hb

/-- Bindings stand where a tree is searched. -/
theorem searched_of_binding {table : Table} {a : Around} {t : Tree} {b : Binding}
    (hb : b ∈ gather (bindingRule table) a t) : a.searched = true := by
  refine (searched_of_mem_gather (P := True) (fun a l s ps hb => ?_) hb).1
  unfold bindingRule at hb
  split_ifs at hb with hl
  · exact ⟨hl.2, trivial⟩
  · simp at hb

/-! ## Tables -/

theorem mem_insert {table : List Binding} {b x : Binding} (hx : x ∈ insert table b) :
    x = b ∨ x ∈ table := by
  unfold insert at hx
  split_ifs at hx
  · obtain ⟨old, hold, rfl⟩ := List.mem_map.1 hx
    split_ifs
    · exact Or.inl rfl
    · exact Or.inr hold
  · rcases List.mem_append.1 hx with hx | hx
    · exact Or.inr hx
    · exact Or.inl (List.mem_singleton.1 hx)

/-- A table without two bindings for one name. -/
def Unique (table : List Binding) : Prop := table.Pairwise fun x y => x.site ≠ y.site

theorem unique_insert {table : List Binding} (h : Unique table) (b : Binding) :
    Unique (insert table b) := by
  unfold insert
  split_ifs with hany
  · refine List.Pairwise.map _ ?_ h
    intro x y hxy
    split_ifs with hx hy hy
    · rw [beq_iff_eq] at hx hy
      exact absurd (hx.trans hy.symm) hxy
    · rw [beq_iff_eq] at hx
      exact fun heq => hxy (hx.trans heq)
    · rw [beq_iff_eq] at hy
      exact fun heq => hxy (heq.trans hy.symm)
    · exact hxy
  · refine List.pairwise_append.2 ⟨h, List.pairwise_singleton _ _, ?_⟩
    intro x hx y hy heq
    obtain rfl := List.mem_singleton.1 hy
    exact hany (List.any_eq_true.2 ⟨x, hx, by simpa using heq⟩)

/-- Insertion keeps places unique and adds nothing but the bindings inserted. -/
theorem foldl_insert_spec {table : List Binding} (h : Unique table) (bs : List Binding) :
    Unique (bs.foldl insert table) ∧ ∀ x ∈ bs.foldl insert table, x ∈ table ∨ x ∈ bs := by
  induction bs generalizing table with
  | nil => exact ⟨h, fun x hx => Or.inl hx⟩
  | cons b bs ih =>
      obtain ⟨hunique, hmem⟩ := ih (unique_insert h b)
      refine ⟨hunique, fun x hx => ?_⟩
      rcases hmem x hx with hx | hx
      · rcases mem_insert hx with rfl | hx
        · exact Or.inr List.mem_cons_self
        · exact Or.inl hx
      · exact Or.inr (List.mem_cons_of_mem _ hx)

/-- A table has at most one binding for each place. -/
theorem unique_keyed (bs : List Binding) : Unique (keyed bs) :=
  (foldl_insert_spec List.Pairwise.nil bs).1

theorem keyed_subset (bs : List Binding) : keyed bs ⊆ bs := by
  intro x hx
  rcases (foldl_insert_spec List.Pairwise.nil bs).2 x hx with hx | hx
  · simp at hx
  · exact hx

/-- Bindings of a table are told apart by their places. -/
theorem Unique.eq_of_site {table : List Binding} (h : Unique table) {x y : Binding}
    (hx : x ∈ table) (hy : y ∈ table) (hsite : x.site = y.site) : x = y := by
  by_contra hne
  have hsymm : Std.Symm fun x y : Binding => x.site ≠ y.site := ⟨fun _ _ h => h.symm⟩
  exact h.forall hx hy hne hsite

/-- What collecting gives has one binding for each place, and each is a binding of the tree. -/
theorem collect_spec {root : Tree} {bs : List Binding} (h : collect root = .ok bs) :
    Unique bs ∧ bs ⊆ gather (bindingRule (tableOf root)) {} root := by
  unfold collect at h
  cases hin : collectIn (tableOf root) {} root with
  | error e => simp [hin, Except.map] at h
  | ok all =>
      rw [hin] at h
      obtain rfl := Except.ok.inj h
      rw [← collectIn_eq {} root hin]
      exact ⟨unique_keyed all, keyed_subset all⟩

end RouteSplit.Binding
