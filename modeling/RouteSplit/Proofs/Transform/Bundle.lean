import RouteSplit.Proofs.Transform.Marker

/-!
# Names that a bundle gives and binds

- `client_interface`: a client bundle gives what the statements besides default exports gave;
- `Thinned`: exported values of which namespaces may have gone;
- `thinned_kept_prune`, `values_excise_sublist`, `exists_excise_value`: exported values through
  removals and excisions;
- `topNames`, `topNames_kept_prune`: what top-level statements bind, and that removals bind nothing
  new;
- `marker_clashes_iff`: a marked bundle gives a name twice if it gives the marker's already.
-/

namespace RouteSplit.Export

open Scope Sweep RouteSplit.Module

/-! ## Exported values -/

/-- `xs` are the values `ys`, but some namespaces may be missing. -/
structure Thinned (xs ys : List Value) : Prop where
  sublist : xs.Sublist ys
  lasting : ∀ v ∈ ys, v.form ≠ .namespaceBlock → v ∈ xs

/-- Lists of values are thinned part by part. -/
theorem partwise_thinned : Partwise Thinned where
  refl xs := ⟨List.Sublist.refl xs, fun _ hv _ => hv⟩
  trans h k := ⟨h.sublist.trans k.sublist, fun v hv hform =>
    h.lasting v (k.lasting v hv hform) hform⟩
  append h k := by
    refine ⟨h.sublist.append k.sublist, fun v hv hform => ?_⟩
    rcases List.mem_append.1 hv with hv | hv
    · exact List.mem_append_left _ (h.lasting v hv hform)
    · exact List.mem_append_right _ (k.lasting v hv hform)

theorem Thinned.of_eq {xs ys : List Value} (h : xs = ys) : Thinned xs ys :=
  h ▸ partwise_thinned.refl xs

theorem form_of_mem_valuesOf {form : ValueForm} {t : Tree} {v : Value} (h : v ∈ valuesOf form t) :
    v.form = form := by
  obtain ⟨x, -, rfl⟩ := List.mem_map.1 h
  rfl

section

variable {name : String} {v : Value} {dead : List Binding}

/-- A removal leaves the values that a target binds. -/
theorem valuesOf_prune (form : ValueForm) (t : Tree) :
    valuesOf form (prune dead t) = valuesOf form t := by
  rw [valuesOf, valuesOf, boundNames_prune]

theorem getLast_isAbsent_prune (parts : List Tree) :
    (parts.map (prune dead)).getLast?.any Tree.isAbsent = parts.getLast?.any Tree.isAbsent := by
  rw [List.getLast?_map, Option.any_map]
  congr 1
  funext t
  simp [Tree.isAbsent, prune_label]

/-- A removal leaves signatures signatures. -/
theorem isSignature_prune {t : Tree} (ht : t.label ≠ .module .statements) :
    isSignature (prune dead t) = isSignature t := by
  fun_cases isSignature t with
  | case1 => rw [prune_of_plain dead (by simp), isSignature, getLast_isAbsent_prune]
  | case2 => rw [prune_of_plain dead (by simp), isSignature]
  | case3 t hfunction hinterface =>
      rw [isSignature]
      · exact fun _ _ _ => prune_ne_node dead (by simp) (hfunction _ _ _)
      · exact fun _ => prune_ne_node dead (by simp) (hinterface _)

theorem mem_declaredValues_variables {k : VariableKind} {e : Bool} {s : Span} {ds : List Tree} :
    v ∈ declaredValues (.node (.statement (.variableList k e)) s ds) ↔
      ∃ d ∈ ds, v ∈ valuesOf .single (d.child 0) := by
  simp [declaredValues]

/-- A removal leaves the values of a declaration, unless it is a namespace that keeps no value. -/
theorem declaredValues_prune {d : Tree} (hd : d.inShape = true) :
    Thinned (declaredValues (prune dead d)) (declaredValues d) := by
  fun_cases declaredValues d with
  | case1 kind declared span declarators =>
      have hds := (Tree.inShape_node.1 hd).2
      rw [prune_of_plain dead (by simp), declaredValues, List.flatMap_map]
      refine Thinned.of_eq (List.flatMap_congr fun x hx => ?_)
      rw [valuesOf, valuesOf, boundNames_child_prune (hds x hx)]
  | case2 form declared traits s id parts hsignature =>
      rw [prune_of_plain dead (by simp), List.map_cons, declaredValues, getLast_isAbsent_prune,
        if_pos hsignature]
      exact partwise_thinned.refl _
  | case3 form declared traits s id parts hsignature =>
      rw [prune_of_plain dead (by simp), List.map_cons, declaredValues, getLast_isAbsent_prune,
        if_neg hsignature, valuesOf_prune]
      exact partwise_thinned.refl _
  | case4 form declared abstract s decorators id rest =>
      rw [prune_of_plain dead (by simp), List.map_cons, List.map_cons, declaredValues, valuesOf_prune]
      exact partwise_thinned.refl _
  | case5 constant declared s id rest =>
      rw [prune_of_plain dead (by simp), List.map_cons, declaredValues, valuesOf_prune]
      exact partwise_thinned.refl _
  | case6 kind declared s id body hvalue =>
      rw [prune_of_plain dead (by simp), List.map_cons, List.map_cons, List.map_nil, declaredValues,
        valuesOf_prune]
      split
      · exact partwise_thinned.refl _
      · exact ⟨List.nil_sublist _, fun v hv hform => absurd (form_of_mem_valuesOf hv) hform⟩
  | case7 kind declared s id body hvalue =>
      have hvalue' : ¬ hasValue (prune dead body) = true := fun h => hvalue ((value_of_prune body).2 h)
      rw [prune_of_plain dead (by simp), List.map_cons, List.map_cons, List.map_nil, declaredValues,
        if_neg hvalue']
      exact partwise_thinned.refl _
  | case8 s id rest =>
      rw [prune_of_plain dead (by simp), List.map_cons, declaredValues, valuesOf_prune]
      exact partwise_thinned.refl _
  | case9 d hvariables hfunction hclass henum hnamespace himport =>
      refine Thinned.of_eq ?_
      rw [declaredValues]
      · exact fun _ _ => prune_ne_node dead (by simp) (hvariables _ _)
      · exact fun _ _ _ => prune_ne_cons dead (by simp) (hfunction _ _ _)
      · exact fun _ _ _ => prune_ne_cons_cons dead (by simp) (hclass _ _ _)
      · exact fun _ _ => prune_ne_cons dead (by simp) (henum _ _)
      · exact fun _ _ => prune_ne_pair dead (by simp) (hnamespace _ _)
      · exact prune_ne_cons dead (by simp) himport

theorem exportedValues_of_not_export {t : Tree} (h : isExport t.label = false) :
    exportedValues t = [] := by
  fun_cases exportedValues t <;> first | rfl | simp [isExport] at h

/-- A removal inside an export leaves the values that it exports, but for namespaces that lose
theirs. -/
theorem exportedValues_prune {t : Tree} (ht : t.inShape = true) :
    Thinned (exportedValues (prune dead t)) (exportedValues t) := by
  fun_cases exportedValues t with
  | case1 s given hsignature =>
      have hgiven := (Tree.inShape_part ht rfl (c := given) (by simp)).2
      rw [prune_of_plain dead (by simp), List.map_cons, List.map_nil, exportedValues,
        isSignature_prune hgiven, if_pos hsignature]
      exact partwise_thinned.refl _
  | case2 s given hsignature =>
      have hgiven := (Tree.inShape_part ht rfl (c := given) (by simp)).2
      rw [prune_of_plain dead (by simp), List.map_cons, List.map_nil, exportedValues,
        isSignature_prune hgiven, if_neg hsignature]
      exact partwise_thinned.refl _
  | case3 s d sp rest =>
      have hd := (Tree.inShape_part ht rfl (c := d) (by simp)).1
      have hsp := (Tree.inShape_part ht rfl (c := sp) (by simp)).2
      have hlisted : (prune dead sp).children.flatMap specifierValue =
          sp.children.flatMap specifierValue := by
        rw [prune_children dead hsp, List.flatMap_map]
        apply List.flatMap_congr
        intro x _
        rw [specifierValue, specifierValue, prunePart_label]
      rw [prune_of_plain dead (by simp), List.map_cons, List.map_cons, exportedValues, hlisted]
      exact partwise_thinned.append (declaredValues_prune hd) (partwise_thinned.refl _)
  | case4 exported s ps =>
      rw [prune_of_plain dead (by simp), exportedValues]
      exact partwise_thinned.refl _
  | case5 t hdefault hnamed hall =>
      refine Thinned.of_eq ?_
      rw [exportedValues]
      · exact prune_ne_singleton dead (by simp) hdefault
      · exact prune_ne_cons_cons dead (by simp) hnamed
      · exact fun _ => prune_ne_node dead (by simp) (hall _)

/-- A removal leaves the values that a statement exports, but for namespaces. -/
theorem thinned_kept_prune {t : Tree} (ht : t.inShape = true) :
    Thinned ((kept dead (prune dead t)).toList.flatMap exportedValues) (exportedValues t) :=
  flatMap_kept_prune (fun _ hu => exportedValues_of_not_export hu) (partwise_thinned.refl [])
    (exportedValues_prune ht)

/-- Excising leaves exported values in their order. -/
theorem values_excise_sublist {t u : Tree} (h : excise name t = some u) :
    (exportedValues u).Sublist (exportedValues t) := by
  rcases excise_cases h with rfl | ⟨b, s, d, sp, rest, rfl, -, rfl⟩ |
    ⟨b, s, k, e, inner, ds, sp, rest, rfl, -, rfl⟩
  · exact List.Sublist.refl _
  · cases b with
    | true => exact List.Sublist.refl _
    | false => exact (List.filter_sublist.flatMap _).append_left _
  · cases b with
    | true => exact List.Sublist.refl _
    | false => exact (List.filter_sublist.flatMap _).append_right _

theorem name_of_mem_valuesOf {form : ValueForm} {t : Tree} (hplain : plainName t = some name)
    (h : v ∈ valuesOf form t) : v.name = name := by
  rw [valuesOf, boundNames_of_plainName hplain] at h
  rw [List.mem_singleton.1 h]

/-- A declaration without one name still gives its other values. -/
theorem exists_exciseDeclaration_value (hne : v.name ≠ name) {d : Tree}
    (hv : v ∈ declaredValues d) :
    ∃ d', exciseDeclaration name d = some d' ∧ v ∈ declaredValues d' := by
  refine exists_exciseDeclaration (fun _ _ _ => rfl) hv ?_ ?_
  · rw [← Bool.not_eq_true]
    intro hnamed
    fun_cases isFunctionNamed name d with
    | case1 form declared traits s id rest =>
        have hid : plainName id = some name := by simpa [isFunctionNamed] using hnamed
        rw [declaredValues] at hv
        split_ifs at hv
        · simp at hv
        · exact hne (name_of_mem_valuesOf hid hv)
    | case2 d hfunction =>
        rw [isFunctionNamed] at hnamed
        · simp at hnamed
        · exact hfunction
  · rintro k e s ds rfl
    rw [mem_declaredValues_variables] at hv ⊢
    obtain ⟨d, hd, hv⟩ := hv
    refine ⟨d, List.mem_filter.2 ⟨hd, ?_⟩, hv⟩
    rw [bne_iff_ne]
    exact fun hplain => hne (name_of_mem_valuesOf hplain hv)

/-- Excising one name keeps the other exported values. -/
theorem exists_excise_value (hne : v.name ≠ name) {t : Tree} (ht : exportFits t = true)
    (hv : v ∈ exportedValues t) : ∃ u, excise name t = some u ∧ v ∈ exportedValues u := by
  cases exportForm t with
  | @listed b s d sp rest hlisted =>
      cases b with
      | true => simp [exportedValues] at hv
      | false =>
          -- An export with braces declares nothing, so the name stands in the braces.
          have habsent : d.isAbsent = true := by simpa [exportFits, hlisted] using ht
          have hnone : declaredValues d = [] := by
            obtain ⟨l, s', ps⟩ := d
            obtain rfl : l = .absent := by simpa [Tree.isAbsent] using habsent
            rfl
          rw [exportedValues, hnone, List.nil_append, List.mem_flatMap] at hv
          obtain ⟨x, hx, hxv⟩ := hv
          have hexport : specifierExport x = some v.name := by
            unfold specifierValue at hxv
            split at hxv
            · rename_i hlabel
              rw [specifierExport, hlabel, List.mem_singleton.1 hxv]
            · simp at hxv
          have hkept : x ∈ keptSpecifiers name sp :=
            List.mem_filter.2 ⟨hx, by simpa [hexport] using hne⟩
          rw [excise_listed hlisted, if_neg (by simp [List.ne_nil_of_mem hkept])]
          refine ⟨_, rfl, ?_⟩
          rw [exportedValues, List.mem_append, List.mem_flatMap]
          exact Or.inr ⟨x, hkept, hxv⟩
  | @declared b s d sp rest hlisted =>
      cases b with
      | true => simp [exportedValues] at hv
      | false =>
          rw [exportedValues, hlisted, List.flatMap_nil, List.append_nil] at hv
          obtain ⟨d', hd', hv'⟩ := exists_exciseDeclaration_value hne hv
          rw [excise_declared hlisted, hd']
          exact ⟨_, rfl, List.mem_append_left _ hv'⟩
  | other hother =>
      rw [excise_other hother]
      exact ⟨t, rfl, hv⟩

end

/-- A bundle exports no new value, and none twice that its module exported once. -/
theorem values_keepStatements_sublist (o : Options) (ss : List Tree) :
    ((keepStatements o ss).flatMap exportedValues).Sublist (ss.flatMap exportedValues) := by
  unfold keepStatements
  cases o.mode with
  | client => exact List.filter_sublist.flatMap _
  | server =>
      simp only
      rw [flatMap_filterMap_eq]
      refine List.Sublist.flatMap_right ss fun t _ => ?_
      cases hexcise : excise o.serverExportName t with
      | none => simp
      | some u => simpa using values_excise_sublist hexcise

/-- A server bundle exports all values of its module besides the server export. -/
theorem mem_values_keepStatements {o : Options} (hmode : o.mode = .server) {ss : List Tree}
    {v : Value} (hfits : ∀ t ∈ ss, exportFits t = true) (hne : v.name ≠ o.serverExportName)
    (hv : v ∈ ss.flatMap exportedValues) : v ∈ (keepStatements o ss).flatMap exportedValues := by
  obtain ⟨t, ht, hv⟩ := List.mem_flatMap.1 hv
  obtain ⟨u, hex, hv⟩ := exists_excise_value hne (hfits t ht) hv
  rw [keepStatements, hmode]
  exact List.mem_flatMap.2 ⟨u, List.mem_filterMap.2 ⟨t, ht, hex⟩, hv⟩

/-! ## Names bound at the top -/

/-- The names that a declaration binds where it stands and that no `var` may bind again: those of
values and of imports. -/
def lexicalNames (t : Tree) : List String :=
  ((lexicalEntries t.label t.children).filter (·.meaning.query)).map (·.name)

/-- The declaration that a top-level statement is, or that it exports. -/
def topDeclaration : Tree → Tree
  | .node (.module (.exportNamed _)) _ (d :: _ :: _) => d
  | .node (.module .exportDefault) _ [d] => d
  | t => t

/-- The names of values and imports that a top-level statement binds, but those of `var`. -/
def topNames (t : Tree) : List String := lexicalNames (topDeclaration t)

section

variable {name : String} {dead : List Binding}

theorem lexicalNames_node (l : Label) (s : Span) (ps : List Tree) :
    lexicalNames (.node l s ps) = ((lexicalEntries l ps).filter (·.meaning.query)).map (·.name) :=
  rfl

theorem lexicalNames_mono {l l' : Label} {s s' : Span} {ps qs : List Tree}
    (h : lexicalEntries l' qs ⊆ lexicalEntries l ps) :
    lexicalNames (.node l' s' qs) ⊆ lexicalNames (.node l s ps) :=
  List.map_subset _ (List.filter_subset _ h)

/-- A removal adds no value to the scope around a declaration. -/
theorem lexicalNames_prune {d : Tree} (hd : d.inShape = true) :
    lexicalNames (prune dead d) ⊆ lexicalNames d := by
  obtain ⟨l, s, ps⟩ := d
  by_cases hl : l = .module .statements
  · subst hl
    rw [prune_statements]
    exact lexicalNames_mono (List.Subset.refl _)
  rw [prune_node dead hl]
  cases hnamespace : isNamespace l with
  | false =>
      refine lexicalNames_mono ?_
      rw [lexicalEntries_prune hd hnamespace]
      exact List.Subset.refl _
  | true =>
      -- A namespace may lose its value.
      obtain ⟨k, e, rfl⟩ := exists_of_isNamespace hnamespace
      rw [prunePart_of_searches dead (by simp)]
      rcases ps with _ | ⟨id, _ | ⟨body, _ | ⟨_, _⟩⟩⟩
      · exact List.Subset.refl _
      · exact List.Subset.refl _
      · rw [List.map_cons, List.map_cons, List.map_nil, lexicalNames_node, lexicalNames_node,
          lexicalEntries, lexicalEntries, entriesOf_prune]
        cases hvalue : hasValue (prune dead body) with
        | false =>
            have hempty : (entriesOf (.ofNamespace false) id).filter (·.meaning.query) = [] := by
              rw [List.filter_eq_nil_iff]
              intro x hx
              obtain ⟨y, -, rfl⟩ := List.mem_map.1 hx
              exact Bool.false_ne_true
            rw [hempty]
            exact List.nil_subset _
        | true =>
            rw [(value_of_prune body).2 hvalue]
            exact List.Subset.refl _
      · exact List.Subset.refl _

/-- What is left of a statement adds no value to the scope around it. -/
theorem lexicalNames_kept {t u : Tree} (ht : t.inShape = true) (h : kept dead t = some u) :
    lexicalNames u ⊆ lexicalNames t := by
  rcases kept_cases h with rfl | ⟨k, e, s, ds, rfl, rfl⟩ | ⟨o, p, s, cs, ss, rest, rfl, rfl⟩
  · exact List.Subset.refl _
  · refine lexicalNames_mono ?_
    cases k with
    | varVariable => exact List.Subset.refl _
    | _ => exact (entries_shed_declarators (Tree.inShape_node.1 ht).2).subset
  · exact lexicalNames_mono (entries_shed_specifiers o cs ss).subset

theorem topDeclaration_of_not_export {t : Tree} (h : isExport t.label = false) :
    topDeclaration t = t := by
  fun_cases topDeclaration t <;> first | rfl | simp [isExport] at h

/-- The declaration behind `export` is pruned as it stands. -/
theorem topDeclaration_prune {t : Tree} (h : isExport t.label = true) :
    topDeclaration (prune dead t) = prune dead (topDeclaration t) := by
  fun_cases topDeclaration t with
  | case1 typeOnly span declaration specifiers rest => rw [prune_of_plain dead (by simp)]; rfl
  | case2 s d => rw [prune_of_plain dead (by simp)]; rfl
  | case3 t hnamed hdefault =>
      rw [topDeclaration]
      · exact ne_export_prune hnamed
      · exact prune_ne_singleton dead (by simp) hdefault

theorem inShape_topDeclaration {t : Tree} (ht : t.inShape = true) :
    (topDeclaration t).inShape = true := by
  fun_cases topDeclaration t with
  | case1 b s d sp rest => exact (Tree.inShape_node.1 ht).2 d (by simp)
  | case2 s d => exact (Tree.inShape_node.1 ht).2 d (by simp)
  | case3 => exact ht

/-- A removal makes a statement bind nothing new. -/
theorem topNames_kept_prune {t : Tree} (ht : t.inShape = true) :
    (kept dead (prune dead t)).toList.flatMap topNames ⊆ topNames t := by
  cases hlabel : isExport t.label with
  | true =>
      have hkept : kept dead (prune dead t) = some (prune dead t) :=
        kept_of_export (by rw [prune_label, hlabel])
      rw [hkept, Option.toList_some, List.flatMap_singleton, topNames, topDeclaration_prune hlabel]
      exact lexicalNames_prune (inShape_topDeclaration ht)
  | false =>
      cases hkept : kept dead (prune dead t) with
      | none => simp
      | some u =>
          have hlabel' : isExport u.label = false := by rw [kept_label hkept, prune_label, hlabel]
          rw [Option.toList_some, List.flatMap_singleton, topNames, topNames,
            topDeclaration_of_not_export hlabel, topDeclaration_of_not_export hlabel']
          exact List.Subset.trans (lexicalNames_kept (inShape_prune ht) hkept)
            (lexicalNames_prune ht)

/-- Excising makes a statement bind nothing new. -/
theorem topNames_excise {t u : Tree} (h : excise name t = some u) : topNames u ⊆ topNames t := by
  rcases excise_cases h with rfl | ⟨b, s, d, sp, rest, rfl, -, rfl⟩ |
    ⟨b, s, k, e, inner, ds, sp, rest, rfl, -, rfl⟩
  · exact List.Subset.refl _
  · exact List.Subset.refl _
  · refine lexicalNames_mono ?_
    cases k with
    | varVariable => exact List.Subset.refl _
    | _ => exact (List.filter_sublist.flatMap _).subset

/-- A bundle declares no value that the module did not. -/
theorem topNames_keepStatements (o : Options) (ss : List Tree) :
    (keepStatements o ss).flatMap topNames ⊆ ss.flatMap topNames := by
  intro n hn
  obtain ⟨u, hu, hn⟩ := List.mem_flatMap.1 hn
  obtain ⟨-, t, ht, rfl | hex⟩ := settled_keepStatements hu
  · exact List.mem_flatMap.2 ⟨u, ht, hn⟩
  · exact List.mem_flatMap.2 ⟨t, ht, topNames_excise hex hn⟩

end

end RouteSplit.Export

namespace RouteSplit

open Scope Sweep Export RouteSplit.Module

/-! ## Client bundles -/

/-- A client bundle has no default export and no marker. It gives just the names that the other
statements of its module gave, in their order, so of all names only the default may be missing. -/
theorem client_interface (o : Options) (hmode : o.mode = .client) {root P : Tree} {r : Report}
    (hroot : IsProgram root) (h : root.split o = .ok (P, r)) :
    r.markerInjected = false ∧ (∀ t ∈ statementsOf P, isDefault t = false) ∧
      (statementsOf P).flatMap givenNames =
        ((statementsOf root).filter fun t => !isDefault t).flatMap givenNames ∧
      ∀ m, m ≠ "default" →
        (m ∈ (statementsOf P).flatMap givenNames ↔ m ∈ (statementsOf root).flatMap givenNames) := by
  obtain ⟨c, hseed, -, c', hdecorate⟩ := split_eq_ok h
  obtain ⟨hiff, -, hunmarked⟩ := decorate_spec hdecorate
  have hnone : ¬ ∃ t ∈ statementsOf (sweep o (resolve o root c).1 (resolve o root c).2).root,
      isDefault t = true := by
    rw [default_sweep o hroot.module c, hmode]
    simp
  have hinjected : r.markerInjected = false := by
    rw [← Bool.not_eq_true, hiff]
    exact fun hall => hnone hall.2.2
  obtain rfl := hunmarked hinjected
  have hkeep : keepStatements o (statementsOf root) =
      (statementsOf root).filter fun t => !isDefault t := by
    rw [keepStatements, hmode]
  have hgiven := flatMap_sweep partwise_eq (fun _ _ hu => given_kept_prune hu) o hroot c
  rw [hkeep] at hgiven
  refine ⟨hinjected, fun t ht => ?_, hgiven, fun m hm => ?_⟩
  · rw [← Bool.not_eq_true]
    exact fun hdefault => hnone ⟨t, ht, hdefault⟩
  · rw [hgiven]
    simp only [List.mem_flatMap, List.mem_filter]
    constructor
    · rintro ⟨t, ⟨ht, -⟩, hmt⟩
      exact ⟨t, ht, hmt⟩
    · rintro ⟨t, ht, hmt⟩
      refine ⟨t, ⟨ht, ?_⟩, hmt⟩
      -- A default export gives nothing else.
      obtain ⟨l, s, ps⟩ := t
      rw [Bool.not_eq_true', ← Bool.not_eq_true]
      intro hdefault
      obtain rfl : l = .module .exportDefault := by simpa [isDefault] using hdefault
      exact hm (by simpa [givenNames, bareName, exportNames] using hmt)

/-- The client's bundle of `servedModule` gives the server data and has lost the page. -/
theorem client_interface_servedModule :
    IsProgram servedModule ∧ ∃ P r, servedModule.split .client = .ok (P, r) ∧
      r.markerInjected = false ∧ (statementsOf P).flatMap givenNames = ["routeData"] := by
  have hprogram : IsProgram servedModule := ⟨by decide, ⟨_, _, _, _, _, _, rfl⟩, by decide⟩
  obtain ⟨hinjected, -, hgiven, -⟩ := client_interface .client rfl hprogram rfl
  exact ⟨hprogram, _, _, rfl, hinjected, hgiven.trans (by decide)⟩

/-- A page given in braces: `const page = 1; export { page as default };`. -/
def bracedPage : Tree :=
  let leaf (label : Label) (start stop : Nat) : Tree := .node label ⟨start, stop⟩ []
  moduleOf 43
    [.node (.statement (.variableList .constVariable false)) ⟨0, 15⟩
      [.node (.statement (.declarator false)) ⟨6, 14⟩
        [leaf (.pattern (.binding "page")) 6 10, .absent, leaf (.expression (.number "1")) 13 14]],
      .node (.module (.exportNamed false)) ⟨16, 43⟩
        [.absent, .node (.module .exportSpecifiers) ⟨23, 42⟩
          [.node (.module (.exportSpecifier ⟨"page", false⟩ ⟨"default", false⟩ false)) ⟨25, 40⟩
            [leaf (.expression (.reference "page" .exported)) 25 29]], .absent, .absent]]

/-- Another module's page: `export { default } from 'm';`. -/
def foreignPage : Tree :=
  moduleOf 28
    [.node (.module (.exportNamed false)) ⟨0, 28⟩
      [.absent, .node (.module .exportSpecifiers) ⟨7, 18⟩
        [.node (.module (.exportSpecifier ⟨"default", false⟩ ⟨"default", false⟩ false)) ⟨9, 16⟩
          [.absent]],
        .node (.expression (.string [.char 'm'])) ⟨24, 27⟩ [], .absent]]

/-- A module whose client bundle still gives a default. -/
def KeepsDefault (root : Tree) : Prop :=
  IsProgram root ∧ ∃ P r, root.split .client = .ok (P, r) ∧
    "default" ∈ (statementsOf P).flatMap givenNames

/-- A default in braces is a named export to the bundle, with or without another module. -/
theorem default_left_in_braces : KeepsDefault bracedPage ∧ KeepsDefault foreignPage :=
  ⟨⟨⟨by decide, ⟨_, _, _, _, _, _, rfl⟩, by decide⟩, _, _, rfl, by decide⟩,
    ⟨⟨by decide, ⟨_, _, _, _, _, _, rfl⟩, by decide⟩, _, _, rfl, by decide⟩⟩

/-! ## Marked bundles -/

/-- The marker has its name for itself, so it clashes with every value of that name. -/
theorem distinct_marker_iff {name : String} {before behind : List Tree}
    (h : distinct (before ++ behind) = true) :
    distinct (before ++ marker name :: behind) = false ↔
      ∃ v ∈ (before ++ behind).flatMap exportedValues, v.name = name := by
  have hsymm : ∀ {a b : Value}, a.compatible b = true → b.compatible a = true := by
    rintro ⟨m, x⟩ ⟨n, y⟩ hcompatible
    simp only [Value.compatible, Bool.or_eq_true, bne_iff_ne] at hcompatible ⊢
    refine hcompatible.imp Ne.symm fun hjoins => ?_
    cases x <;> cases y <;> exact hjoins
  have hrest := of_decide_eq_true h
  have hmarker : ∀ v : Value, (Value.mk name .single).compatible v = true ↔ v.name ≠ name := by
    intro v
    rw [Value.compatible, ValueForm.joins, Bool.or_false, bne_iff_ne]
    exact ne_comm
  have hperm : ((before ++ marker name :: behind).flatMap exportedValues).Perm
      (⟨name, .single⟩ :: (before ++ behind).flatMap exportedValues) :=
    List.perm_middle.flatMap_right _
  rw [distinct, decide_eq_false_iff_not, hperm.pairwise_iff hsymm, List.pairwise_cons]
  constructor
  · intro hclash
    by_contra hnone
    exact hclash ⟨fun v hv => (hmarker v).2 fun hname => hnone ⟨v, hv, hname⟩, hrest⟩
  · rintro ⟨v, hv, hname⟩ ⟨hall, -⟩
    exact (hmarker v).1 (hall v hv) hname

/-- Let no two statements of a module export a value under one name. Then that is so of its bundle,
unless a marker was put in among statements that export its name already. These export what the
module did, but the server export and namespaces that kept no value, and bind no value and no import
which the module did not bind. So the marker redeclares a name only if the module declared that. -/
theorem marker_clashes_iff (o : Options) {root P : Tree} {r : Report} (hroot : IsProgram root)
    (hdistinct : distinct (statementsOf root) = true) (h : root.split o = .ok (P, r)) :
    (r.markerInjected = false → distinct (statementsOf P) = true) ∧
      (r.markerInjected = true → ∃ before behind,
        statementsOf P = before ++ marker o.markerName :: behind ∧
        (distinct (statementsOf P) = false ↔
          ∃ v ∈ (before ++ behind).flatMap exportedValues, v.name = o.markerName) ∧
        ((before ++ behind).flatMap exportedValues).Sublist
          ((statementsOf root).flatMap exportedValues) ∧
        (∀ v ∈ (statementsOf root).flatMap exportedValues, v.name ≠ o.serverExportName →
          v.form ≠ .namespaceBlock → v ∈ (before ++ behind).flatMap exportedValues) ∧
        (before ++ behind).flatMap topNames ⊆ (statementsOf root).flatMap topNames) := by
  obtain ⟨c, hseed, -, c', hdecorate⟩ := split_eq_ok h
  obtain ⟨hiff, hmarked, hunmarked⟩ := decorate_spec hdecorate
  have hmodule : IsModule (resolve o root c).1 := isModule_withStatements hroot.module _
  have hreach := reaches_sweep o (resolve o root c).1 (resolve o root c).2
  have hvalues := flatMap_sweep partwise_thinned (fun _ _ hu => thinned_kept_prune hu) o hroot c
  have hbound := flatMap_sweep partwise_subset (fun _ _ hu => topNames_kept_prune hu) o hroot c
  have hdefaults := default_sweep o hroot.module c
  have hswept := isModule_reaches hreach hmodule
  generalize sweep o (resolve o root c).1 (resolve o root c).2 = swept at *
  have hsublist := hvalues.sublist.trans (values_keepStatements_sublist o _)
  -- Without the marker there is no clash: what is left is part of what the module exported.
  have hleft : distinct (statementsOf swept.root) = true :=
    decide_eq_true ((of_decide_eq_true hdistinct).sublist hsublist)
  constructor
  · intro hinjected
    rw [hunmarked hinjected]
    exact hleft
  · intro hinjected
    obtain ⟨-, -, hdefault⟩ := hiff.1 hinjected
    obtain ⟨hmode, -⟩ := hdefaults.1 hdefault
    obtain ⟨before, given, behind, ⟨hparts, -, -⟩, rfl⟩ := hmarked hinjected
    have hlasting : ∀ v ∈ (statementsOf root).flatMap exportedValues,
        v.name ≠ o.serverExportName → v.form ≠ .namespaceBlock →
          v ∈ (statementsOf swept.root).flatMap exportedValues := fun v hv hne hform =>
      hvalues.lasting v (mem_values_keepStatements hmode hroot.exports hne hv) hform
    have hnames := List.Subset.trans hbound (topNames_keepStatements o (statementsOf root))
    rw [hparts] at hleft hsublist hlasting hnames
    rw [statementsOf_withStatements hswept]
    exact ⟨before, given :: behind, rfl, distinct_marker_iff hleft, hsublist, hlasting, hnames⟩

/-- A module that begins with a statement, and then gives server data and a page:
`export const routeData = 1; export default 2;`. -/
def besides (t : Tree) : Tree :=
  moduleOf 85
    [t,
      .node (.module (.exportNamed false)) ⟨40, 67⟩
        [.node (.statement (.variableList .constVariable false)) ⟨47, 67⟩
          [.node (.statement (.declarator false)) ⟨53, 66⟩
            [.node (.pattern (.binding "routeData")) ⟨53, 62⟩ [], .absent,
              .node (.expression (.number "1")) ⟨65, 66⟩ []]],
          .node (.module .exportSpecifiers) ⟨67, 67⟩ [], .absent, .absent],
      defaultNumber 68 "2"]

/-- The marker's name in a pattern: `export const { __has_server } = flags;`. -/
def patternMarker : Tree :=
  .node (.module (.exportNamed false)) ⟨0, 38⟩
    [.node (.statement (.variableList .constVariable false)) ⟨7, 38⟩
      [.node (.statement (.declarator false)) ⟨13, 37⟩
        [.node (.pattern .object) ⟨13, 29⟩
          [.node (.pattern (.property false)) ⟨15, 27⟩
            [.node (.expression (.name "__has_server")) ⟨15, 27⟩ [],
              .node (.pattern (.binding "__has_server")) ⟨15, 27⟩ []]],
          .absent, .node (.expression (.reference "flags" .read)) ⟨32, 37⟩ []]],
      .node (.module .exportSpecifiers) ⟨38, 38⟩ [], .absent, .absent]

/-- The marker's name for a whole module: `export * as __has_server from 'm';`. -/
def wholeMarker : Tree :=
  .node (.module (.exportAll (some ⟨"__has_server", false⟩) false)) ⟨0, 34⟩
    [.node (.expression (.string [.char 'm'])) ⟨30, 33⟩ [], .absent]

/-- The marker's name for an enumeration: `export enum __has_server {}`. -/
def enumMarker : Tree :=
  .node (.module (.exportNamed false)) ⟨0, 27⟩
    [.node (.type (.enum false false)) ⟨7, 27⟩
      [.node (.pattern (.binding "__has_server")) ⟨12, 24⟩ []],
      .node (.module .exportSpecifiers) ⟨27, 27⟩ [], .absent, .absent]

/-- The marker's name for a namespace with a value: `export namespace __has_server { f(); }`. -/
def namespaceMarker : Tree :=
  .node (.module (.exportNamed false)) ⟨0, 38⟩
    [.node (.type (.namespaceBlock "namespace" false)) ⟨7, 38⟩
      [.node (.pattern (.binding "__has_server")) ⟨17, 29⟩ [],
        .node (.type .moduleBlock) ⟨30, 38⟩
          [.node (.module .prologue) ⟨32, 32⟩ [],
            .node (.module .statements) ⟨32, 36⟩
              [.node (.statement .expression) ⟨32, 36⟩
                [.node (.expression (.call false false)) ⟨32, 35⟩
                  [.node (.expression (.reference "f" .read)) ⟨32, 33⟩ [], .absent,
                    .node (.expression .arguments) ⟨33, 35⟩ []]]]]],
      .node (.module .exportSpecifiers) ⟨38, 38⟩ [], .absent, .absent]

/-- The marker's name for a constant of the module's own: `const __has_server = 0;`. -/
def ownMarker : Tree :=
  .node (.statement (.variableList .constVariable false)) ⟨0, 23⟩
    [.node (.statement (.declarator false)) ⟨6, 22⟩
      [.node (.pattern (.binding "__has_server")) ⟨6, 18⟩ [], .absent,
        .node (.expression (.number "0")) ⟨21, 22⟩ []]]

/-- The marker is put in, and the pattern's name is then exported twice. -/
theorem marker_clashes_patternMarker :
    IsProgram (besides patternMarker) ∧ distinct (statementsOf (besides patternMarker)) = true ∧
      ∃ P r, (besides patternMarker).split .server = .ok (P, r) ∧
        distinct (statementsOf P) = false := by
  have hprogram : IsProgram (besides patternMarker) :=
    ⟨by decide, ⟨_, _, _, _, _, _, rfl⟩, by decide⟩
  obtain ⟨-, hmarked⟩ := marker_clashes_iff .server hprogram (by decide) rfl
  obtain ⟨before, behind, -, hclash, -, hlasting, -⟩ := hmarked rfl
  have hvalue := hlasting ⟨"__has_server", .single⟩ (by decide) (by decide) (by decide)
  exact ⟨hprogram, by decide, _, _, rfl, hclash.2 ⟨_, hvalue, rfl⟩⟩

/-- A module that exports no name twice, and whose server bundle exports the marker's name twice, or
binds it in another statement too. -/
def Clashes (root : Tree) : Prop :=
  IsProgram root ∧ distinct (statementsOf root) = true ∧
    ∃ P r before behind, root.split .server = .ok (P, r) ∧
      statementsOf P = before ++ marker "__has_server" :: behind ∧
      (distinct (statementsOf P) = false ∨ "__has_server" ∈ (before ++ behind).flatMap topNames)

/-- A marker clashes with a name in a pattern, with those of a whole module, of an enumeration and of
a namespace, and with a constant. -/
theorem marker_clashes :
    Clashes (besides patternMarker) ∧ Clashes (besides wholeMarker) ∧
      Clashes (besides enumMarker) ∧ Clashes (besides namespaceMarker) ∧
      Clashes (besides ownMarker) :=
  ⟨⟨⟨by decide, ⟨_, _, _, _, _, _, rfl⟩, by decide⟩, by decide,
      _, _, [patternMarker], [defaultNumber 68 "2"], rfl, by decide, Or.inl (by decide)⟩,
    ⟨⟨by decide, ⟨_, _, _, _, _, _, rfl⟩, by decide⟩, by decide,
      _, _, [wholeMarker], [defaultNumber 68 "2"], rfl, by decide, Or.inl (by decide)⟩,
    ⟨⟨by decide, ⟨_, _, _, _, _, _, rfl⟩, by decide⟩, by decide,
      _, _, [enumMarker], [defaultNumber 68 "2"], rfl, by decide, Or.inl (by decide)⟩,
    ⟨⟨by decide, ⟨_, _, _, _, _, _, rfl⟩, by decide⟩, by decide,
      _, _, [namespaceMarker], [defaultNumber 68 "2"], rfl, by decide, Or.inl (by decide)⟩,
    ⟨⟨by decide, ⟨_, _, _, _, _, _, rfl⟩, by decide⟩, by decide,
      _, _, [ownMarker], [defaultNumber 68 "2"], rfl, by decide, Or.inr (by decide)⟩⟩

end RouteSplit
