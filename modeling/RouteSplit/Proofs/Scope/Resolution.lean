import Mathlib.Data.List.Pairwise
import RouteSplit.Proofs.Scope.Mentions

/-!
# Resolution without redeclarations

Where no two declarations of a name meet in a scope, none joins another: each makes a symbol of its
own, and a use means that of the innermost scope which declares its name to serve it.

- `Declaration.Meets`, `Distinct`: two declarations of one name leave their mark on one scope;
- `Table.Represents`, `represents_ofDeclarations`: the table holds the declarations as they are;
- `serving_iff`, `resolve_iff`, `exists_of_declared`: what is looked up;
- `marks_subset`: declarations leave their marks on scopes that their tree opens, and around it.
-/

namespace RouteSplit

namespace Declaration

/-- The symbol that a declaration makes where it joins no other. -/
def symbol (d : Declaration) : Symbol := ⟨d.name, d.site⟩

/-- The scopes that a declaration leaves its mark on. -/
def marks (d : Declaration) : List ScopeId := d.scope :: d.through

/-- Two declarations of one name leave their mark on one scope. -/
def Meets (d e : Declaration) : Prop := d.name = e.name ∧ ∃ s ∈ d.marks, s ∈ e.marks

instance (d e : Declaration) : Decidable (d.Meets e) :=
  inferInstanceAs (Decidable (_ ∧ ∃ s ∈ d.marks, s ∈ e.marks))

theorem Meets.symm {d e : Declaration} (h : d.Meets e) : e.Meets d := by
  obtain ⟨hname, s, hs, hs'⟩ := h
  exact ⟨hname.symm, s, hs', hs⟩

theorem meets_of_scope {d e : Declaration} (hname : d.name = e.name) (hscope : d.scope = e.scope) :
    d.Meets e :=
  ⟨hname, d.scope, List.mem_cons_self, hscope ▸ List.mem_cons_self⟩

end Declaration

namespace Scope

/-- No two of the declarations meet. -/
def Distinct (ds : List Declaration) : Prop := ds.Pairwise fun d e => ¬ d.Meets e

instance (ds : List Declaration) : Decidable (Distinct ds) :=
  inferInstanceAs (Decidable (ds.Pairwise fun d e => ¬ d.Meets e))

/-- Of distinct declarations no two meet. -/
theorem Distinct.eq_of_meets {ds : List Declaration} (h : Distinct ds) {d e : Declaration}
    (hd : d ∈ ds) (he : e ∈ ds) (hmeets : d.Meets e) : d = e := by
  by_contra hne
  have hsymm : Std.Symm fun d e : Declaration => ¬ d.Meets e :=
    ⟨fun _ _ h hmeets => h hmeets.symm⟩
  exact List.Pairwise.forall h hd he hne hmeets

namespace Table

/-! ## The table of declarations that do not meet -/

/-- What a declaration is in a table if it joins no other. -/
def boundOf (d : Declaration) : Bound := ⟨d.scope, d.symbol, d.meaning⟩

/-- A table that holds declarations as they are. -/
structure Represents (t : Table) (ds : List Declaration) : Prop where
  bound : t.bound = (ds.map boundOf).reverse
  passed : ∀ p ∈ t.passed, ∃ d ∈ ds, p.1 ∈ d.through ∧ p.2 = d.symbol
  sites : t.sites = (ds.map fun d => (d.site, d.symbol)).reverse

variable {t : Table} {ds : List Declaration}

/-- A table knows nothing of a name in a scope that no declaration of it touches. -/
theorem Represents.known_eq_none (h : t.Represents ds) {scope : ScopeId} {name : String}
    (hnew : ∀ d ∈ ds, d.name = name → scope ∉ d.marks) : t.known scope name = none := by
  have hbound : t.boundIn scope name = none := by
    rw [boundIn, List.find?_eq_none, h.bound]
    intro b hb hfound
    obtain ⟨d, hd, rfl⟩ := List.mem_map.1 (List.mem_reverse.1 hb)
    obtain ⟨hname, hscope⟩ := by simpa using hfound
    exact hnew d hd hname (hscope ▸ List.mem_cons_self)
  have hpassed : t.passedBy scope name = none := by
    rw [passedBy, Option.map_eq_none_iff, List.find?_eq_none]
    intro p hp hfound
    obtain ⟨d, hd, hthrough, hsymbol⟩ := h.passed p hp
    obtain ⟨hname, hscope⟩ := by simpa using hfound
    refine hnew d hd ?_ (hscope ▸ List.mem_cons_of_mem _ hthrough)
    rw [← hname, hsymbol]
    rfl
  rw [known, hbound]
  exact hpassed

/-- A declaration that meets no other one is added as it is. -/
theorem Represents.declare (h : t.Represents ds) {d : Declaration}
    (hnew : ∀ e ∈ ds, ¬ e.Meets d) : (t.declare d).Represents (ds ++ [d]) := by
  -- Nothing is known of the name wherever the declaration looks, so the table takes its last branch.
  have hknown : ∀ scope ∈ d.marks, t.known scope d.name = none := by
    intro scope hscope
    refine h.known_eq_none fun e he hname hmark => ?_
    exact hnew e he ⟨hname, scope, hmark, hscope⟩
  have hway : t.onTheWay d = none := by
    rw [onTheWay, List.findSome?_eq_none_iff]
    intro scope hscope
    rw [hknown scope (List.mem_cons_of_mem _ hscope)]
    rfl
  rw [Table.declare, hway]
  dsimp only
  rw [hknown d.scope List.mem_cons_self]
  refine ⟨?_, ?_, ?_⟩
  · simp [note, h.bound, boundOf, Declaration.symbol]
  · intro p hp
    rcases List.mem_append.1 hp with hp | hp
    · obtain ⟨scope, hscope, rfl⟩ := List.mem_map.1 hp
      exact ⟨d, by simp, hscope, rfl⟩
    · obtain ⟨e, he, hpassed⟩ := h.passed p hp
      exact ⟨e, List.mem_append_left _ he, hpassed⟩
  · simp [note, h.sites, Declaration.symbol]

/-- A table goes on to represent its declarations as distinct ones are added. -/
theorem Represents.foldl (h : t.Represents ds) {es : List Declaration}
    (hdistinct : Distinct (ds ++ es)) : (es.foldl Table.declare t).Represents (ds ++ es) := by
  induction es generalizing t ds with
  | nil => simpa using h
  | cons e es ih =>
      have hnew : ∀ d ∈ ds, ¬ d.Meets e := fun d hd =>
        (List.pairwise_append.1 hdistinct).2.2 d hd e List.mem_cons_self
      have hrest := ih (h.declare hnew) (by simpa using hdistinct)
      simpa using hrest

/-- The table of declarations that do not meet holds them as they are. -/
theorem represents_ofDeclarations (h : Distinct ds) : (ofDeclarations ds).Represents ds := by
  have hempty : Represents {} [] := ⟨rfl, by simp, rfl⟩
  have hall : Distinct ([] ++ ds) := h
  exact hempty.foldl hall

/-! ## Lookups -/

/-- A scope serves a use with the symbol of the declaration that it has for the name, if that serves
it. -/
theorem serving_iff (h : t.Represents ds) (hdistinct : Distinct ds) {scope : ScopeId}
    {name : String} {usage : Usage} {s : Symbol} :
    t.serving scope name usage = some s ↔
      ∃ d ∈ ds, d.scope = scope ∧ d.name = name ∧ d.meaning.serves usage = true ∧ d.symbol = s := by
  have hbound : ∀ {b}, t.boundIn scope name = some b →
      ∃ d ∈ ds, d.scope = scope ∧ d.name = name ∧ b = boundOf d := by
    intro b hb
    have hmem := List.mem_of_find?_eq_some hb
    rw [h.bound] at hmem
    obtain ⟨d, hd, rfl⟩ := List.mem_map.1 (List.mem_reverse.1 hmem)
    obtain ⟨hname, hscope⟩ := by simpa using List.find?_some hb
    exact ⟨d, hd, hscope, hname, rfl⟩
  simp only [serving, Option.map_eq_some_iff, Option.filter_eq_some_iff]
  constructor
  · rintro ⟨b, ⟨hb, hserves⟩, rfl⟩
    obtain ⟨d, hd, hscope, hname, rfl⟩ := hbound hb
    exact ⟨d, hd, hscope, hname, hserves, rfl⟩
  · rintro ⟨d, hd, rfl, rfl, hserves, rfl⟩
    have hfound : (t.boundIn d.scope d.name).isSome := by
      rw [boundIn, List.find?_isSome, h.bound]
      exact ⟨boundOf d, List.mem_reverse.2 (List.mem_map_of_mem hd),
        by simp [boundOf, Declaration.symbol]⟩
    -- What is found is the last declaration of the name there; being distinct, it is `d` itself.
    obtain ⟨b, hb⟩ := Option.isSome_iff_exists.1 hfound
    obtain ⟨e, he, hscope, hname, rfl⟩ := hbound hb
    obtain rfl := hdistinct.eq_of_meets he hd (Declaration.meets_of_scope hname hscope)
    exact ⟨_, ⟨hb, hserves⟩, rfl⟩

/-- A use means the symbol of the innermost scope which declares its name to serve it. -/
theorem resolve_iff (h : t.Represents ds) (hdistinct : Distinct ds) {env : Env} {name : String}
    {usage : Usage} {s : Symbol} :
    t.resolve env name usage = some s ↔
      ∃ inner outer, ∃ d ∈ ds, env = inner ++ d.scope :: outer ∧ d.name = name ∧
        d.meaning.serves usage = true ∧ d.symbol = s ∧
        ∀ e ∈ ds, e.scope ∈ inner → e.name = name → e.meaning.serves usage = false := by
  have hnone : ∀ scope, t.serving scope name usage = none ↔
      ∀ e ∈ ds, e.scope = scope → e.name = name → e.meaning.serves usage = false := by
    intro scope
    rw [Option.eq_none_iff_forall_ne_some]
    constructor
    · intro hserving e he hscope hname
      rw [← Bool.not_eq_true]
      exact fun hserves =>
        hserving _ ((serving_iff h hdistinct).2 ⟨e, he, hscope, hname, hserves, rfl⟩)
    · intro hall s hs
      obtain ⟨e, he, hscope, hname, hserves, -⟩ := (serving_iff h hdistinct).1 hs
      rw [hall e he hscope hname] at hserves
      simp at hserves
  rw [resolve, List.findSome?_eq_some_iff]
  constructor
  · rintro ⟨inner, scope, outer, rfl, hserving, hinner⟩
    obtain ⟨d, hd, rfl, hname, hserves, hsymbol⟩ := (serving_iff h hdistinct).1 hserving
    refine ⟨inner, outer, d, hd, rfl, hname, hserves, hsymbol, fun e he hscope => ?_⟩
    exact (hnone e.scope).1 (hinner e.scope hscope) e he rfl
  · rintro ⟨inner, outer, d, hd, rfl, hname, hserves, hsymbol, hinner⟩
    refine ⟨inner, d.scope, outer, rfl, ?_, fun scope hscope => ?_⟩
    · exact (serving_iff h hdistinct).2 ⟨d, hd, rfl, hname, hserves, hsymbol⟩
    · exact (hnone scope).2 fun e he heq => hinner e he (heq ▸ hscope)

/-- What is declared at a place is the symbol of a declaration there. -/
theorem exists_of_declared (h : t.Represents ds) {site : Span} {s : Symbol}
    (hs : t.declared site = some s) : ∃ d ∈ ds, d.site = site ∧ d.symbol = s := by
  obtain ⟨p, hp, rfl⟩ := Option.map_eq_some_iff.1 hs
  have hmem := List.mem_of_find?_eq_some hp
  rw [h.sites] at hmem
  obtain ⟨d, hd, rfl⟩ := List.mem_map.1 (List.mem_reverse.1 hmem)
  exact ⟨d, hd, by simpa using List.find?_some hp, rfl⟩

end Table

/-! ## Scopes that declarations mark -/

/-- What a node declares for its own scopes touches no others. -/
theorem introduced_marks {l : Label} {s : Span} {ps : List Tree} {d : Declaration}
    (hd : d ∈ introduced l s ps) : d.marks ⊆ openedBy l s := by
  have hone : ∀ {es : List Entry} {scope : ScopeId}, d ∈ es.map (·.inScope scope) →
      d.marks = [scope] := by
    intro es scope hd
    obtain ⟨e, -, rfl⟩ := List.mem_map.1 hd
    rfl
  unfold introduced at hd
  split at hd
  -- A function gives its parameters to its head and to its body, and its own name to itself.
  case h_1 =>
    simp only [functionNames, List.mem_append] at hd
    rcases hd with (hd | hd) | hd <;>
      (rw [hone hd]; simp [openedBy])
  case h_2 =>
    simp only [functionNames, List.map_nil, List.nil_append, List.mem_append] at hd
    rcases hd with hd | hd <;>
      (rw [hone hd]; simp [openedBy])
  case h_14 => simp at hd
  all_goals
    rw [hone hd]
    simp [openedBy]

/-- What a node declares around itself touches its own scopes and those around it. -/
theorem placed_marks {a : Around} {l : Label} {s : Span} {ps : List Tree} {d : Declaration}
    (hd : d ∈ placed a l s ps) : d.marks ⊆ openedBy l s ++ a.env := by
  have hhere : ∀ {e : Entry} {scope : ScopeId}, scope ∈ a.env → d = e.inScope scope →
      d.marks ⊆ a.env := by
    rintro e scope hscope rfl
    simpa [Declaration.marks, Entry.inScope] using hscope
  unfold placed at hd
  split at hd
  -- A `var` marks the scopes on its way out, all of which are around the node.
  · obtain ⟨e, -, hd⟩ := List.mem_flatMap.1 hd
    obtain ⟨scope, hscope, rfl⟩ : ∃ scope, a.env.find? (·.kind.holdsVars) = some scope ∧
        Declaration.mk e.name e.site e.meaning (a.env.takeWhile fun s => !s.kind.holdsVars) scope =
          d := by
      simpa [outward] using hd
    refine List.Subset.trans ?_ (List.subset_append_right _ _)
    refine List.cons_subset.2 ⟨List.mem_of_find?_eq_some hscope, ?_⟩
    exact (List.takeWhile_sublist _).subset
  -- An inferred type goes to the conditional type around it, or else to the nearest scope.
  · obtain ⟨e, -, hd⟩ := List.mem_flatMap.1 hd
    obtain ⟨scope, hscope, rfl⟩ := Option.map_eq_some_iff.1 (Option.mem_toList.1 hd)
    refine List.Subset.trans (hhere ?_ rfl) (List.subset_append_right _ _)
    rcases Option.or_eq_some_iff.1 hscope with hfound | ⟨-, hhead⟩
    · exact List.mem_of_find?_eq_some hfound
    · exact List.mem_of_head? hhead
  -- Everything else goes to the nearest scope.
  · obtain ⟨e, -, hd⟩ := List.mem_flatMap.1 hd
    obtain ⟨scope, hscope, rfl⟩ := Option.map_eq_some_iff.1 (Option.mem_toList.1 hd)
    split_ifs at hscope with hbranch
    · -- A function that is a branch of an `if` is known by its own name only.
      obtain rfl := Option.some.inj hscope
      simp only [Bool.and_eq_true] at hbranch
      have hfunction : isFunctionDeclaration l = true := hbranch.2
      unfold isFunctionDeclaration at hfunction
      split at hfunction
      · simp [Declaration.marks, Entry.inScope, openedBy]
      · simp at hfunction
    · exact List.Subset.trans (hhere (List.mem_of_head? hscope) rfl) (List.subset_append_right _ _)

/-- A declaration leaves its marks on scopes that its tree opens or that the tree stands in. -/
theorem marks_subset {a : Around} {t : Tree} {d : Declaration} (hd : d ∈ declarations a t) :
    d.marks ⊆ scopes t ++ a.env := by
  rw [declarations_eq_gather] at hd
  induction t using Tree.induct generalizing a with
  | node l s ps ih =>
      have hown : openedBy l s ⊆ scopes (.node l s ps) := by
        intro x hx
        exact mem_gather_node.2 (Or.inl hx)
      rcases mem_gather_node.1 hd with hd | ⟨i, c, hc, hd⟩
      · rcases List.mem_append.1 hd with hd | hd
        · intro x hx
          exact (List.mem_append.1 (placed_marks hd hx)).elim
            (fun h => List.mem_append_left _ (hown h)) (List.mem_append_right _)
        · intro x hx
          exact List.mem_append_left _ (hown (introduced_marks hd hx))
      · -- What lies around a part is what its node opens for it and what lies around the node.
        intro x hx
        rcases List.mem_append.1 (ih c (List.mem_of_getElem? hc) hd hx) with h | h
        · exact List.mem_append_left _ (scopes_part_subset hc h)
        · rcases List.mem_append.1 h with h | h
          · exact List.mem_append_left _ (opened_subset_scopes l s ps i h)
          · exact List.mem_append_right _ h

end Scope

end RouteSplit
