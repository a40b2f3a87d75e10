import RouteSplit.Proofs.Sweep.Declarations
import RouteSplit.Proofs.Transform.Idempotence

/-!
# What a module gives to others

- `givenNames`: the names that a statement exports, in whatever form;
- `directNames`: those of functions, of variables that are plain names, and those in braces;
- `leftAlone`: all others, as those of patterns, classes, enumerations and whole modules;
- `mem_given_excise`, `not_mem_direct_of_excise`: what is left without a name;
- `server_interface`: a server bundle gives what its module gave, without the server data where that
  is given directly.
-/

namespace RouteSplit.Export

open Scope Sweep RouteSplit.Module

/-! ## Names in all forms -/

/-- The names that a declaration binds where it stands, as values or as types. -/
def declaredIn : Tree → List String
  | .node (.statement (.variableList _ _)) _ ds => (variableEntries ds).map (·.name)
  | .node l _ ps => (lexicalEntries l ps).map (·.name)

/-- The names that a declaration gives as a function, or as a variable that is no pattern. -/
def directIn : Tree → List String
  | .node (.function (.function _ _ _)) _ (id :: _) => (plainName id).toList
  | .node (.statement (.variableList _ _)) _ ds => ds.filterMap fun d => plainName (d.child 0)
  | _ => []

/-- The names that a declaration gives in a pattern, or as something else than a function or a
variable. -/
def aloneIn : Tree → List String
  | .node (.function (.function form declared traits)) s (id :: parts) =>
    if plainName id == none then
      declaredIn (.node (.function (.function form declared traits)) s (id :: parts))
    else []
  | .node (.statement (.variableList k e)) s ds =>
    declaredIn (.node (.statement (.variableList k e)) s
      (ds.filter fun d => plainName (d.child 0) == none))
  | t => declaredIn t

/-- The name that an export has without a declaration and without braces. -/
def bareName : Label → List String
  | .module .exportDefault => ["default"]
  | .module (.exportAll (some exported) _) => [exported.text]
  | _ => []

/-- The names under which a statement gives something to other modules. -/
def givenNames (t : Tree) : List String := bareName t.label ++ exportNames declaredIn t

/-- The names that a statement exports as functions, as plain variables or in braces. -/
def directNames (t : Tree) : List String := exportNames directIn t

/-- The names that a statement exports in a form that no bundle looks at: all but the direct. -/
def leftAlone : Tree → List String
  | .node (.module (.exportNamed _)) _ (d :: _ :: _) => aloneIn d
  | t => bareName t.label

theorem mem_declaredIn_variables {k : VariableKind} {e : Bool} {s : Span} {ds : List Tree}
    {m : String} :
    m ∈ declaredIn (.node (.statement (.variableList k e)) s ds) ↔
      ∃ d ∈ ds, ∃ x ∈ (d.child 0).boundNames, x.1 = m := by
  simp [declaredIn, variableEntries, entriesOf]

theorem boundNames_of_plainName {t : Tree} {name : String} (h : plainName t = some name) :
    t.boundNames = [(name, t.span)] := by
  obtain ⟨l, s, ps⟩ := t
  unfold plainName at h
  split at h
  · rename_i n hl
    obtain rfl : l = _ := hl
    obtain rfl := Option.some.inj h
    rfl
  · simp at h

theorem declaredIn_of_isAbsent {d : Tree} (h : d.isAbsent = true) : declaredIn d = [] := by
  obtain ⟨l, s, ps⟩ := d
  obtain rfl : l = .absent := by simpa [Tree.isAbsent] using h
  rfl

theorem directIn_of_isAbsent {d : Tree} (h : d.isAbsent = true) : directIn d = [] := by
  obtain ⟨l, s, ps⟩ := d
  obtain rfl : l = .absent := by simpa [Tree.isAbsent] using h
  rfl

theorem aloneIn_of_isAbsent {d : Tree} (h : d.isAbsent = true) : aloneIn d = [] := by
  obtain ⟨l, s, ps⟩ := d
  obtain rfl : l = .absent := by simpa [Tree.isAbsent] using h
  rfl

/-- What is left alone is declared. -/
theorem mem_declaredIn_of_alone {d : Tree} {m : String} (hm : m ∈ aloneIn d) :
    m ∈ declaredIn d := by
  fun_cases aloneIn d with
  | case1 form declared traits s id parts hplain => simpa [aloneIn, hplain] using hm
  | case2 form declared traits s id parts hplain => simp [aloneIn, hplain] at hm
  | case3 k e s ds =>
      rw [aloneIn, mem_declaredIn_variables] at hm
      obtain ⟨d, hd, hm⟩ := hm
      exact mem_declaredIn_variables.2 ⟨d, List.mem_of_mem_filter hd, hm⟩
  | case4 d hfunction hvariables =>
      rw [aloneIn] at hm
      · exact hm
      · exact hfunction
      · exact hvariables

/-- What is left alone is given to other modules. -/
theorem mem_given_of_leftAlone {t : Tree} {m : String} (hm : m ∈ leftAlone t) :
    m ∈ givenNames t := by
  fun_cases leftAlone t with
  | case1 b s d sp rest =>
      have hm : m ∈ exportNames declaredIn
          (.node (.module (.exportNamed b)) s (d :: sp :: rest)) :=
        mem_exportNames.2 (Or.inl (mem_declaredIn_of_alone hm))
      exact hm
  | case2 t hnamed =>
      rw [leftAlone] at hm
      · exact List.mem_append_left _ hm
      · exact hnamed

/-- A function gives its own name only, and directly. -/
theorem names_of_isFunctionNamed {name : String} {d : Tree} (h : isFunctionNamed name d = true) :
    (∀ m ∈ declaredIn d, m = name) ∧ aloneIn d = [] := by
  fun_cases isFunctionNamed name d with
  | case1 form declared traits s id rest =>
      have hid : plainName id = some name := by simpa [isFunctionNamed] using h
      have hnames := boundNames_of_plainName hid
      refine ⟨fun m hm => ?_, by simp [aloneIn, hid]⟩
      cases form with
      | declaration => simpa [declaredIn, lexicalEntries, entriesOf, hnames] using hm
      | value => simp [declaredIn, lexicalEntries] at hm
  | case2 d hfunction =>
      rw [isFunctionNamed] at h
      · simp at h
      · exact hfunction

/-- A name that a declaration binds is given directly or left alone. -/
theorem mem_direct_or_alone {d : Tree} {m : String} (hm : m ∈ declaredIn d) :
    m ∈ directIn d ∨ m ∈ aloneIn d := by
  fun_cases aloneIn d with
  | case1 form declared traits s id parts hplain => exact Or.inr hm
  | case2 form declared traits s id parts hplain =>
      obtain ⟨name, hname⟩ : ∃ name, plainName id = some name := by
        rw [← Option.ne_none_iff_exists']
        simpa using hplain
      have hnamed : isFunctionNamed name
          (.node (.function (.function form declared traits)) s (id :: parts)) = true := by
        simp [isFunctionNamed, hname]
      obtain rfl := (names_of_isFunctionNamed hnamed).1 m hm
      exact Or.inl (by simp [directIn, hname])
  | case3 k e s ds =>
      obtain ⟨d, hd, x, hx, rfl⟩ := mem_declaredIn_variables.1 hm
      cases hplain : plainName (d.child 0) with
      | none =>
          refine Or.inr (mem_declaredIn_variables.2 ⟨d, ?_, x, hx, rfl⟩)
          exact List.mem_filter.2 ⟨hd, by simp [hplain]⟩
      | some name =>
          rw [boundNames_of_plainName hplain, List.mem_singleton] at hx
          exact Or.inl (List.mem_filterMap.2 ⟨d, hd, by rw [hplain, hx]⟩)
  | case4 d hfunction hvariables => exact Or.inr hm

/-- The direct names and those left alone are all that a statement gives. -/
theorem mem_direct_or_leftAlone {t : Tree} {m : String} (hm : m ∈ givenNames t) :
    m ∈ directNames t ∨ m ∈ leftAlone t := by
  fun_cases leftAlone t with
  | case1 b s d sp rest =>
      have hm : m ∈ exportNames declaredIn
        (.node (.module (.exportNamed b)) s (d :: sp :: rest)) := hm
      rw [mem_exportNames] at hm
      rw [directNames, mem_exportNames]
      rcases hm with hm | hm
      · exact (mem_direct_or_alone hm).imp_left Or.inl
      · exact Or.inl (Or.inr hm)
  | case2 t hnamed =>
      rw [givenNames, exportNames] at hm
      · simpa using Or.inr hm
      · exact hnamed

/-! ## Excising a name -/

/-- The names that are bound by the declarators left: all but the excised one, which stays where it
is part of a pattern. -/
theorem mem_declared_keptDeclarators {name m : String} {k : VariableKind} {e : Bool} {s : Span}
    {ds : List Tree} (hm : m ∈ declaredIn (.node (.statement (.variableList k e)) s ds))
    (hkeep : m ≠ name ∨ m ∈ aloneIn (.node (.statement (.variableList k e)) s ds)) :
    m ∈ declaredIn (.node (.statement (.variableList k e)) s (keptDeclarators name ds)) := by
  rw [mem_declaredIn_variables] at hm ⊢
  rcases hkeep with hne | halone
  · obtain ⟨d, hd, x, hx, rfl⟩ := hm
    refine ⟨d, List.mem_filter.2 ⟨hd, ?_⟩, x, hx, rfl⟩
    rw [bne_iff_ne]
    intro hplain
    have hnames := boundNames_of_plainName hplain
    rw [hnames, List.mem_singleton] at hx
    exact hne (by rw [hx])
  · rw [aloneIn, mem_declaredIn_variables] at halone
    obtain ⟨d, hd, x, hx, rfl⟩ := halone
    obtain ⟨hd, hpattern⟩ := List.mem_filter.1 hd
    have hnone : plainName (d.child 0) = none := by simpa using hpattern
    exact ⟨d, List.mem_filter.2 ⟨hd, by simp [hnone]⟩, x, hx, rfl⟩

/-- Excising one name keeps the others, and that name itself where it is left alone. -/
theorem mem_given_excise {name m : String} {t : Tree} (ht : exportFits t = true)
    (hm : m ∈ givenNames t) (hkeep : m ≠ name ∨ m ∈ leftAlone t) :
    ∃ u, excise name t = some u ∧ m ∈ givenNames u := by
  by_cases hexport : ∃ b s d sp rest, t = .node (.module (.exportNamed b)) s (d :: sp :: rest)
  · obtain ⟨b, s, d, sp, rest, rfl⟩ := hexport
    have hkeep : m ≠ name ∨ m ∈ aloneIn d := hkeep
    -- An export that lists names declares none, so what is left alone is not among them.
    have hlisted : sp.children ≠ [] → m ∉ declaredIn d ∧ m ≠ name := by
      intro hlisted
      have habsent : d.isAbsent = true := by simpa [exportFits, hlisted] using ht
      exact ⟨by simp [declaredIn_of_isAbsent habsent],
        hkeep.resolve_right (by simp [aloneIn_of_isAbsent habsent])⟩
    have hdeclared : m ∈ declaredIn d →
        ∃ d', exciseDeclaration name d = some d' ∧ m ∈ declaredIn d' := by
      intro hdeclared
      refine exists_exciseDeclaration (fun _ _ _ => rfl) hdeclared ?_ ?_
      · rw [← Bool.not_eq_true]
        intro hnamed
        obtain ⟨hnames, halone⟩ := names_of_isFunctionNamed hnamed
        rcases hkeep with hne | hmem
        · exact hne (hnames m hdeclared)
        · simp [halone] at hmem
      · rintro k e inner ds rfl
        exact mem_declared_keptDeclarators hdeclared hkeep
    have hm : m ∈ exportNames declaredIn
        (.node (.module (.exportNamed b)) s (d :: sp :: rest)) := hm
    obtain ⟨u, hu, -, hmu⟩ := mem_exportNames_excise hm hlisted hdeclared
    exact ⟨u, hu, List.mem_append_right _ hmu⟩
  · exact ⟨t, excise_other fun b s d sp rest heq => hexport ⟨b, s, d, sp, rest, heq⟩, hm⟩

/-- Excising adds no name. -/
theorem given_of_excise {name m : String} {t u : Tree} (h : excise name t = some u)
    (hm : m ∈ givenNames u) : m ∈ givenNames t := by
  rw [givenNames, excise_label h, List.mem_append] at hm
  rcases hm with hm | hm
  · exact List.mem_append_left _ hm
  · refine List.mem_append_right _ (mem_exportNames_of_excise (fun k e s ds n hn => ?_) h hm)
    rw [mem_declaredIn_variables] at hn ⊢
    obtain ⟨d, hd, hdn⟩ := hn
    exact ⟨d, List.mem_of_mem_filter hd, hdn⟩

/-- Excising leaves no name alone that was not. -/
theorem leftAlone_of_excise {name m : String} {t u : Tree} (h : excise name t = some u)
    (hm : m ∈ leftAlone u) : m ∈ leftAlone t := by
  rcases excise_cases h with rfl | ⟨b, s, d, sp, rest, rfl, -, rfl⟩ |
    ⟨b, s, k, e, inner, ds, sp, rest, rfl, -, rfl⟩
  · exact hm
  · exact hm
  · rw [leftAlone, aloneIn, mem_declaredIn_variables] at hm ⊢
    obtain ⟨d, hd, hm⟩ := hm
    obtain ⟨hd, hpattern⟩ := List.mem_filter.1 hd
    exact ⟨d, List.mem_filter.2 ⟨List.mem_of_mem_filter hd, hpattern⟩, hm⟩

/-- What is left of a declaration without a name does not declare it directly. -/
theorem not_mem_directIn {name : String} {d d' : Tree} (h : exciseDeclaration name d = some d') :
    name ∉ directIn d' := by
  fun_cases exciseDeclaration name d with
  | case1 kind declared span declarators hnone => simp [exciseDeclaration, hnone] at h
  | case2 kind declared span declarators hsome =>
      rw [exciseDeclaration, if_neg hsome] at h
      obtain rfl := Option.some.inj h
      simp [directIn, keptDeclarators]
  | case3 d hvariables hnamed =>
      rw [exciseDeclaration, if_pos hnamed] at h
      · simp at h
      · exact hvariables
  | case4 d hvariables hnamed =>
      rw [exciseDeclaration, if_neg hnamed] at h
      · obtain rfl := Option.some.inj h
        fun_cases directIn d with
        | case1 form declared traits s id rest => simpa [isFunctionNamed, directIn] using hnamed
        | case2 k e inner ds => exact absurd rfl (hvariables k e inner ds)
        | case3 => simp
      · exact hvariables

/-- A name that was excised is given by no function, no plain variable and no braces. -/
theorem not_mem_direct_of_excise {name : String} {t u : Tree} (ht : exportFits t = true)
    (h : excise name t = some u) : name ∉ directNames u := by
  cases exportForm t with
  | @listed b s d sp rest hlisted =>
      have habsent : d.isAbsent = true := by simpa [exportFits, hlisted] using ht
      rw [excise_listed hlisted] at h
      split_ifs at h
      obtain rfl := Option.some.inj h
      rw [directNames, mem_exportNames, directIn_of_isAbsent habsent]
      simp [keptSpecifiers]
  | @declared b s d sp rest hlisted =>
      rw [excise_declared hlisted, Option.map_eq_some_iff] at h
      obtain ⟨d', hd', rfl⟩ := h
      rw [directNames, mem_exportNames, hlisted]
      simpa using not_mem_directIn hd'
  | other hother =>
      rw [excise_other hother] at h
      obtain rfl := Option.some.inj h
      rw [directNames, exportNames]
      · simp
      · exact hother

/-! ## Removals -/

section

variable {dead : List Binding}

/-- A removal inside a declaration leaves all its names. -/
theorem declaredIn_prune {d : Tree} (hd : d.inShape = true) :
    declaredIn (prune dead d) = declaredIn d := by
  obtain ⟨l, s, ps⟩ := d
  by_cases hvariables : ∃ k e, l = .statement (.variableList k e)
  · obtain ⟨k, e, rfl⟩ := hvariables
    rw [prune_of_plain dead (by simp), declaredIn, declaredIn,
      variableEntries_prune (Tree.inShape_node.1 hd).2]
  · have hdeclared : ∀ qs, declaredIn (.node l s qs) = (lexicalEntries l qs).map (·.name) := by
      intro qs
      rw [declaredIn]
      rintro k e rfl
      exact hvariables ⟨k, e, rfl⟩
    by_cases hstatements : l = .module .statements
    · subst hstatements
      rw [prune_statements, hdeclared, hdeclared]
      rfl
    rw [prune_node dead hstatements, hdeclared, hdeclared]
    cases hnamespace : isNamespace l with
    | false => rw [lexicalEntries_prune hd hnamespace]
    | true =>
        -- A namespace may lose its value, and keeps its name.
        obtain ⟨k, e, rfl⟩ := exists_of_isNamespace hnamespace
        rw [prunePart_of_searches dead (by simp)]
        rcases ps with _ | ⟨name, _ | ⟨body, _ | ⟨_, _⟩⟩⟩
        · rfl
        · rfl
        · simp only [List.map_cons, List.map_nil, lexicalEntries, entriesOf, boundNames_prune,
            List.map_map]
          rfl
        · rfl

/-- A removal inside a declaration leaves the names that it declares directly. -/
theorem directIn_prune {d : Tree} (hd : d.inShape = true) :
    directIn (prune dead d) = directIn d := by
  fun_cases directIn d with
  | case1 form declared traits s id rest =>
      rw [prune_of_plain dead (by simp), List.map_cons, directIn, plainName_prune]
  | case2 k e s ds =>
      have hvariables : plainNames (prune dead (.node (.statement (.variableList k e)) s ds)) = _ :=
        plainNames_prune hd
      rw [prune_of_plain dead (by simp)] at hvariables ⊢
      exact hvariables
  | case3 d hfunction hvariables =>
      rw [directIn]
      · exact fun _ _ _ => prune_ne_cons dead (by simp) (hfunction _ _ _)
      · exact fun _ _ => prune_ne_node dead (by simp) (hvariables _ _)

theorem bareName_of_not_export {l : Label} (h : isExport l = false) : bareName l = [] := by
  unfold bareName
  split
  · simp [isExport] at h
  · simp [isExport] at h
  · rfl

/-- A removal leaves all names that a statement gives. -/
theorem given_kept_prune {t : Tree} (ht : t.inShape = true) :
    (kept dead (prune dead t)).toList.flatMap givenNames = givenNames t := by
  refine flatMap_kept_prune (fun u hu => ?_) rfl ?_
  · rw [givenNames, bareName_of_not_export hu, exportNames_of_not_export hu]
    rfl
  · rw [givenNames, givenNames, prune_label, exportNames_prune (fun d hd => declaredIn_prune hd) ht]

/-- A pass leaves the names that a statement exports directly. -/
theorem direct_kept_prune {t : Tree} (ht : t.inShape = true) :
    (kept dead (prune dead t)).toList.flatMap directNames = directNames t :=
  flatMap_kept_prune (fun _ hu => exportNames_of_not_export hu) rfl
    (exportNames_prune (fun _ hd => directIn_prune hd) ht)

end

end RouteSplit.Export

namespace RouteSplit

open Scope Sweep Export RouteSplit.Module

/-! ## Transforms -/

/-- What a removal leaves of every statement, a sweep leaves of the statements that the bundle
keeps. -/
theorem flatMap_sweep {α : Type} {R : List α → List α → Prop} (hR : Partwise R)
    {f : Tree → List α} (hf : ∀ (dead : List Binding) (u : Tree), u.inShape = true →
      R ((kept dead (prune dead u)).toList.flatMap f) (f u))
    (o : Options) {root : Tree} (hroot : IsProgram root) (c : Context) :
    R ((statementsOf (sweep o (resolve o root c).1 (resolve o root c).2).root).flatMap f)
      ((keepStatements o (statementsOf root)).flatMap f) := by
  have hreach := reaches_sweep o (resolve o root c).1 (resolve o root c).2
  have hmodule : IsModule (resolve o root c).1 := isModule_withStatements hroot.module _
  have hshape : (resolve o root c).1.inShape = true := inShape_keepStatements hroot
  have hstatements : statementsOf (resolve o root c).1 = keepStatements o (statementsOf root) :=
    statementsOf_withStatements hroot.module _
  rw [← hstatements]
  exact flatMap_reaches hR hf hreach hmodule hshape

/-- The marker comes in addition to the statements of a module. -/
theorem mem_statements_decorate {o : Options} {root P : Tree} {c c' : Context} {injected : Bool}
    (hmodule : IsModule root) (h : decorate o root c = (P, c', injected)) :
    statementsOf root ⊆ statementsOf P ∧
      ∀ t ∈ statementsOf P, t ∈ statementsOf root ∨
        injected = true ∧ c.done = false ∧ c.hasServerExport = true ∧ t = marker o.markerName := by
  rcases decorate_cases h with ⟨rfl, -⟩ | ⟨hinjected, hdone, hserver, ss, hinsert, rfl⟩
  · exact ⟨List.Subset.refl _, fun t ht => Or.inl ht⟩
  · obtain ⟨pre, post, hpre, rfl⟩ := insertBeforeDefault_eq_some hinsert
    rw [statementsOf_withStatements hmodule, hpre]
    constructor
    · intro t ht
      simp only [List.mem_append, List.mem_cons] at ht ⊢
      tauto
    · intro t ht
      simp only [List.mem_append, List.mem_cons] at ht ⊢
      tauto

/-- A marker is put in only under a name of its own: one that is also the server export's would
have been found. -/
theorem markerName_ne_of_unmarked {o : Options} {root : Tree} {c : Context}
    (hseed : seed root {} = .ok c)
    (hdone : (sweep o (resolve o root c).1 (resolve o root c).2).context.done = false)
    (hserver : (sweep o (resolve o root c).1 (resolve o root c).2).context.hasServerExport = true) :
    o.markerName ≠ o.serverExportName := by
  intro hsame
  obtain ⟨hserver₀, hdone₀, -, -⟩ := seed_context hseed
  have hcontext := passes_context o.maxPasses (budgetFor (resolve o root c).1)
    (resolve o root c).1 (resolve o root c).2
  have hfound : o.serverExportName ∈ (statementsOf root).flatMap statementNames :=
    (observe_hasServerExport hserver₀).1 (hcontext.1 ▸ hserver)
  have hmarked : (observe o (statementsOf root) c).done = true :=
    (observe_done hdone₀).2 (hsame ▸ hfound)
  have hunmarked : (observe o (statementsOf root) c).done = false := hcontext.2 ▸ hdone
  simp [hunmarked] at hmarked

/-- A server bundle does not give the server data as a function, as a plain variable or in braces.
It gives it just where the module gave it in another form, as in a pattern or as a class. All other
names that its module gave are still given, and no name is new but that of the marker. -/
theorem server_interface (o : Options) (hmode : o.mode = .server) {root P : Tree} {r : Report}
    (hroot : IsProgram root) (h : root.split o = .ok (P, r)) :
    (∀ t ∈ statementsOf P, o.serverExportName ∉ directNames t) ∧
      (o.serverExportName ∈ (statementsOf P).flatMap givenNames ↔
        o.serverExportName ∈ (statementsOf root).flatMap leftAlone) ∧
      (∀ t ∈ statementsOf root, ∀ m ∈ givenNames t, m ≠ o.serverExportName ∨ m ∈ leftAlone t →
        m ∈ (statementsOf P).flatMap givenNames) ∧
      ∀ m ∈ (statementsOf P).flatMap givenNames,
        m ∈ (statementsOf root).flatMap givenNames ∨
          r.markerInjected = true ∧ m = o.markerName := by
  obtain ⟨c, hseed, hok, c', hdecorate⟩ := split_eq_ok h
  obtain ⟨bs, hbs, -⟩ := seed_spec.1 hseed
  have hleft := leftover_sweep o hroot (Binding.collect_isOk_iff.1 ⟨bs, hbs⟩) c
  have hgiven := flatMap_sweep partwise_eq (fun _ _ hu => given_kept_prune hu) o hroot c
  have hdirect := flatMap_sweep partwise_eq (fun _ _ hu => direct_kept_prune hu) o hroot c
  have hkeep : keepStatements o (statementsOf root) =
      (statementsOf root).filterMap (excise o.serverExportName) := by
    rw [keepStatements, hmode]
  obtain ⟨hsubset, hmem⟩ := mem_statements_decorate hleft.module hdecorate
  -- A sweep changes no name that is given, so each part is about what excising does to one
  -- statement, and about the marker.
  have hkept : ∀ t ∈ statementsOf root, ∀ m ∈ givenNames t,
      m ≠ o.serverExportName ∨ m ∈ leftAlone t → m ∈ (statementsOf P).flatMap givenNames := by
    intro t ht m hm hkept
    obtain ⟨u, hexcise, hm⟩ := mem_given_excise (hroot.exports t ht) hm hkept
    have hu : u ∈ keepStatements o (statementsOf root) :=
      hkeep ▸ List.mem_filterMap.2 ⟨t, ht, hexcise⟩
    have hm := hgiven ▸ List.mem_flatMap.2 ⟨u, hu, hm⟩
    obtain ⟨t', ht', hm⟩ := List.mem_flatMap.1 hm
    exact List.mem_flatMap.2 ⟨t', hsubset ht', hm⟩
  have hsource : ∀ m ∈ (statementsOf P).flatMap givenNames,
      (∃ t ∈ statementsOf root, ∃ u, excise o.serverExportName t = some u ∧ m ∈ givenNames u) ∨
        r.markerInjected = true ∧ m = o.markerName ∧ m ≠ o.serverExportName := by
    intro m hm
    obtain ⟨t, ht, hm⟩ := List.mem_flatMap.1 hm
    rcases hmem t ht with hswept | ⟨hinjected, hdone, hserver, rfl⟩
    · have hm := hgiven ▸ List.mem_flatMap.2 ⟨t, hswept, hm⟩
      obtain ⟨u, hu, hm⟩ := List.mem_flatMap.1 hm
      obtain ⟨t₀, ht₀, hexcise⟩ := List.mem_filterMap.1 (hkeep ▸ hu)
      exact Or.inl ⟨t₀, ht₀, u, hexcise, hm⟩
    · have hmarker : givenNames (marker o.markerName) = [o.markerName] := rfl
      rw [hmarker, List.mem_singleton] at hm
      exact Or.inr ⟨hinjected, hm, hm ▸ markerName_ne_of_unmarked hseed hdone hserver⟩
  refine ⟨fun t ht hname => ?_, ⟨fun hname => ?_, fun hname => ?_⟩, hkept, fun m hm => ?_⟩
  · rcases hmem t ht with hswept | ⟨-, hdone, hserver, rfl⟩
    · have hname := hdirect ▸ List.mem_flatMap.2 ⟨t, hswept, hname⟩
      obtain ⟨u, hu, hname⟩ := List.mem_flatMap.1 hname
      obtain ⟨t₀, ht₀, hexcise⟩ := List.mem_filterMap.1 (hkeep ▸ hu)
      exact not_mem_direct_of_excise (hroot.exports t₀ ht₀) hexcise hname
    · have hdirect : directNames (marker o.markerName) = [o.markerName] := rfl
      rw [hdirect, List.mem_singleton] at hname
      exact markerName_ne_of_unmarked hseed hdone hserver hname.symm
  · rcases hsource _ hname with ⟨t, ht, u, hexcise, hm⟩ | ⟨-, -, hne⟩
    · have hdirect := not_mem_direct_of_excise (hroot.exports t ht) hexcise
      have halone := (mem_direct_or_leftAlone hm).resolve_left hdirect
      exact List.mem_flatMap.2 ⟨t, ht, leftAlone_of_excise hexcise halone⟩
    · exact absurd rfl hne
  · obtain ⟨t, ht, halone⟩ := List.mem_flatMap.1 hname
    exact hkept t ht _ (mem_given_of_leftAlone halone) (Or.inr halone)
  · rcases hsource m hm with ⟨t, ht, u, hexcise, hm⟩ | ⟨hinjected, hname, -⟩
    · exact Or.inl (List.mem_flatMap.2 ⟨t, ht, given_of_excise hexcise hm⟩)
    · exact Or.inr ⟨hinjected, hname⟩

/-- The module of these statements. -/
def moduleOf (stop : Nat) (ss : List Tree) : Tree :=
  .node (.module (.program none true)) ⟨0, stop⟩
    [.node (.module .prologue) .empty [], .node (.module .statements) ⟨0, stop⟩ ss]

/-- A module that lists two names, and gives server data under one of them:
`const load = 1; export { load as routeData, load as page };`. -/
def listModule : Tree :=
  let leaf (label : Label) (start stop : Nat) : Tree := .node label ⟨start, stop⟩ []
  let specifier (start stop : Nat) (exported : String) : Tree :=
    .node (.module (.exportSpecifier ⟨"load", false⟩ ⟨exported, false⟩ false)) ⟨start, stop⟩
      [leaf (.expression (.reference "load" .exported)) start (start + 4)]
  moduleOf 59
    [.node (.statement (.variableList .constVariable false)) ⟨0, 15⟩
      [.node (.statement (.declarator false)) ⟨6, 14⟩
        [leaf (.pattern (.binding "load")) 6 10, .absent, leaf (.expression (.number "1")) 13 14]],
      .node (.module (.exportNamed false)) ⟨16, 59⟩
        [.absent, .node (.module .exportSpecifiers) ⟨23, 58⟩
          [specifier 25 42 "routeData", specifier 44 56 "page"], .absent, .absent]]

/-- The bundle gives one of the two names. -/
theorem server_interface_listModule :
    IsProgram listModule ∧ ∃ P r, listModule.split .server = .ok (P, r) ∧
      "routeData" ∉ (statementsOf P).flatMap directNames ∧
      "page" ∈ (statementsOf P).flatMap givenNames := by
  have hprogram : IsProgram listModule := ⟨by decide, ⟨_, _, _, _, _, _, rfl⟩, by decide⟩
  obtain ⟨hdirect, -, hgiven, -⟩ := server_interface .server rfl hprogram rfl
  refine ⟨hprogram, _, _, rfl, ?_, ?_⟩
  · intro hname
    obtain ⟨t, ht, hname⟩ := List.mem_flatMap.1 hname
    exact hdirect t ht hname
  · exact hgiven (listModule.child 1 |>.child 1) (by decide) "page" (by decide)
      (Or.inl (by decide))

/-- The export of a declaration and nothing else. -/
def exportOnly (stop : Nat) (declaration : Tree) : Tree :=
  moduleOf stop [.node (.module (.exportNamed false)) ⟨0, stop⟩
    [declaration, .node (.module .exportSpecifiers) ⟨stop, stop⟩ [], .absent, .absent]]

/-- Server data in a pattern: `export const { routeData } = loaders;`. -/
def patternModule : Tree :=
  exportOnly 37 (.node (.statement (.variableList .constVariable false)) ⟨7, 37⟩
    [.node (.statement (.declarator false)) ⟨13, 36⟩
      [.node (.pattern .object) ⟨13, 26⟩
        [.node (.pattern (.property false)) ⟨15, 24⟩
          [.node (.expression (.name "routeData")) ⟨15, 24⟩ [],
            .node (.pattern (.binding "routeData")) ⟨15, 24⟩ []]],
        .absent, .node (.expression (.reference "loaders" .read)) ⟨29, 36⟩ []]])

/-- All that another module gives: `export * as routeData from 'm';`. -/
def wholeModule : Tree :=
  moduleOf 31 [.node (.module (.exportAll (some ⟨"routeData", false⟩) false)) ⟨0, 31⟩
    [.node (.expression (.string [.char 'm'])) ⟨27, 30⟩ [], .absent]]

/-- An enumeration: `export enum routeData {}`. -/
def enumModule : Tree :=
  exportOnly 24 (.node (.type (.enum false false)) ⟨7, 24⟩
    [.node (.pattern (.binding "routeData")) ⟨12, 21⟩ []])

/-- A class: `export class routeData {}`. -/
def classModule : Tree :=
  exportOnly 25 (.node (.classes (.definition .declaration false false)) ⟨7, 25⟩
    [.node (.classes .decorators) ⟨7, 7⟩ [], .node (.pattern (.binding "routeData")) ⟨13, 22⟩ [],
      .absent, .absent, .absent, .node (.classes .implemented) ⟨23, 22⟩ [],
      .node (.classes .body) ⟨23, 25⟩ []])

/-- A module whose server bundle still gives the server data's name. -/
def KeepsServerName (root : Tree) : Prop :=
  IsProgram root ∧ ∃ P r, root.split .server = .ok (P, r) ∧
    "routeData" ∈ (statementsOf P).flatMap givenNames

/-- Patterns, classes, whole modules and enumerations are given under whatever name they have. -/
theorem server_name_left_alone :
    KeepsServerName patternModule ∧ KeepsServerName classModule ∧ KeepsServerName wholeModule ∧
      KeepsServerName enumModule :=
  ⟨⟨⟨by decide, ⟨_, _, _, _, _, _, rfl⟩, by decide⟩, _, _, rfl, by decide⟩,
    ⟨⟨by decide, ⟨_, _, _, _, _, _, rfl⟩, by decide⟩, _, _, rfl, by decide⟩,
    ⟨⟨by decide, ⟨_, _, _, _, _, _, rfl⟩, by decide⟩, _, _, rfl, by decide⟩,
    ⟨⟨by decide, ⟨_, _, _, _, _, _, rfl⟩, by decide⟩, _, _, rfl, by decide⟩⟩

end RouteSplit
