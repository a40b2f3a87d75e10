import RouteSplit.Export.Record
import RouteSplit.Proofs.Binding.Supported

/-!
# Exports stay as they are left

- `ExportForm`, `excise_listed`, `excise_declared`: what an excision does to an export;
- `excise_excise`, `excise_prune`: taking a name out of an export is done once and for all, and goes
  together with pruning;
- `exportNames`: the names of an export, as far as its declaration is looked at;
- `mem_names_of_excise`, `mem_names_excise`: the other names stay;
- `names_kept_prune`: a removal changes nothing about what a module exports.
-/

namespace RouteSplit.Export

open Scope Sweep

/-! ## Excising a name -/

/-- Whether an export gives a declaration or lists names, and not both. -/
def exportFits : Tree → Bool
  | .node (.module (.exportNamed _)) _ (declaration :: specifiers :: _) =>
    declaration.isAbsent || specifiers.children.isEmpty
  | _ => true

/-- The listed names without one. -/
def keptSpecifiers (name : String) (specifiers : Tree) : List Tree :=
  specifiers.children.filter fun x => specifierExport x != some name

/-- The declarators without those of one name. -/
def keptDeclarators (name : String) (ds : List Tree) : List Tree :=
  ds.filter fun x => plainName (x.child 0) != some name

/-- An export is left as it is, or without some listed names, or without some declarators. -/
theorem excise_cases {name : String} {t u : Tree} (h : excise name t = some u) :
    u = t ∨
    (∃ b s d sp rest, t = .node (.module (.exportNamed b)) s (d :: sp :: rest) ∧
      keptSpecifiers name sp ≠ [] ∧
      u = .node (.module (.exportNamed b)) s
        (d :: .node sp.label sp.span (keptSpecifiers name sp) :: rest)) ∨
    (∃ b s k e inner ds sp rest,
      t = .node (.module (.exportNamed b)) s
        (.node (.statement (.variableList k e)) inner ds :: sp :: rest) ∧ sp.children = [] ∧
      u = .node (.module (.exportNamed b)) s
        (.node (.statement (.variableList k e)) inner (keptDeclarators name ds) ::
          sp :: rest)) := by
  fun_cases excise name t with
  | case2 t hexport =>
      rw [excise] at h
      · exact Or.inl (Option.some.inj h).symm
      · exact hexport
  | case1 b s d sp rest =>
      rw [excise] at h
      -- The cases in which something is rewritten are those of braces and of variables; in all
      -- others the statement goes or stays.
      revert h
      fun_cases exciseNamed name b s d sp rest with
      | case1 | case3 | case5 => simp
      | case2 =>
          rename_i hkept
          intro h
          refine Or.inr (Or.inl ⟨b, s, d, sp, rest, rfl, ?_, (Option.some.inj h).symm⟩)
          exact fun hnil => hkept (List.isEmpty_iff.2 hnil)
      | case4 => exact fun h => Or.inl (Option.some.inj h).symm
      | case6 =>
          rename_i hlisted k e inner ds _ _
          intro h
          refine Or.inr (Or.inr ⟨b, s, k, e, inner, ds, sp, rest, rfl, ?_,
            (Option.some.inj h).symm⟩)
          simpa using hlisted
      | case7 => exact fun h => Or.inl (Option.some.inj h).symm

/-- An export of names in braces loses those that are exported as `name`, and goes with the last. -/
theorem excise_listed {name : String} {b : Bool} {s : Span} {d sp : Tree} {rest : List Tree}
    (hlisted : sp.children ≠ []) :
    excise name (.node (.module (.exportNamed b)) s (d :: sp :: rest)) =
      if (keptSpecifiers name sp).isEmpty then none
      else some (.node (.module (.exportNamed b)) s
        (d :: .node sp.label sp.span (keptSpecifiers name sp) :: rest)) := by
  have hlist : (!sp.children.isEmpty) = true := by simpa using hlisted
  simp only [excise, exciseNamed, hlist, if_true]
  rfl

/-- Whether a declaration is a function of this name. -/
def isFunctionNamed (name : String) : Tree → Bool
  | .node (.function (.function _ _ _)) _ (id :: _) => plainName id == some name
  | _ => false

/-- What is left of a declaration behind an export without `name`, if anything. -/
def exciseDeclaration (name : String) : Tree → Option Tree
  | .node (.statement (.variableList k e)) s ds =>
    if (keptDeclarators name ds).isEmpty && (keptDeclarators name ds).length != ds.length then none
    else some (.node (.statement (.variableList k e)) s (keptDeclarators name ds))
  | d => if isFunctionNamed name d then none else some d

/-- An export of a declaration loses what is declared as `name`. -/
theorem excise_declared {name : String} {b : Bool} {s : Span} {d sp : Tree} {rest : List Tree}
    (hlisted : sp.children = []) :
    excise name (.node (.module (.exportNamed b)) s (d :: sp :: rest)) =
      (exciseDeclaration name d).map fun d' =>
        .node (.module (.exportNamed b)) s (d' :: sp :: rest) := by
  have hlist : (!sp.children.isEmpty) = false := by simpa using hlisted
  simp only [excise, exciseNamed, hlist, Bool.false_eq_true, if_false]
  split
  · rw [exciseDeclaration, isFunctionNamed, apply_ite (Option.map _)]
    · rfl
    · simp
  · rw [exciseDeclaration, apply_ite (Option.map _)]
    rfl
  · rename_i hfunction hvariables
    rw [exciseDeclaration, isFunctionNamed]
    · rfl
    · exact hfunction
    · exact hvariables

/-- Statements that export nothing by name stay as they are. -/
theorem excise_other {name : String} {t : Tree}
    (h : ∀ b s d sp rest, t ≠ .node (.module (.exportNamed b)) s (d :: sp :: rest)) :
    excise name t = some t := by
  rw [excise]
  exact h

/-- The forms of a statement that excisions tell apart. -/
inductive ExportForm : Tree → Prop
  | listed {b : Bool} {s : Span} {d sp : Tree} {rest : List Tree} :
      sp.children ≠ [] → ExportForm (.node (.module (.exportNamed b)) s (d :: sp :: rest))
  | declared {b : Bool} {s : Span} {d sp : Tree} {rest : List Tree} :
      sp.children = [] → ExportForm (.node (.module (.exportNamed b)) s (d :: sp :: rest))
  | other {t : Tree} :
      (∀ b s d sp rest, t ≠ .node (.module (.exportNamed b)) s (d :: sp :: rest)) → ExportForm t

/-- A statement is an export of names in braces, an export of a declaration, or no named export. -/
theorem exportForm (t : Tree) : ExportForm t := by
  by_cases hexport : ∃ b s d sp rest, t = .node (.module (.exportNamed b)) s (d :: sp :: rest)
  · obtain ⟨b, s, d, sp, rest, rfl⟩ := hexport
    by_cases hlisted : sp.children = []
    · exact .declared hlisted
    · exact .listed hlisted
  · exact .other fun b s d sp rest heq => hexport ⟨b, s, d, sp, rest, heq⟩

/-- A name is taken out of an export once and for all. -/
theorem excise_excise {name : String} {t u : Tree} (h : excise name t = some u) :
    excise name u = some u := by
  rcases excise_cases h with rfl | ⟨b, s, d, sp, rest, rfl, hkept, rfl⟩ |
    ⟨b, s, k, e, inner, ds, sp, rest, rfl, hlisted, rfl⟩
  · exact h
  · have hagain : keptSpecifiers name (.node sp.label sp.span (keptSpecifiers name sp)) =
        keptSpecifiers name sp := by
      simp [keptSpecifiers]
    have hlisted : (Tree.node sp.label sp.span (keptSpecifiers name sp)).children ≠ [] := hkept
    rw [excise_listed hlisted, hagain, if_neg (by simpa using hkept)]
    rfl
  · have hagain : keptDeclarators name (keptDeclarators name ds) = keptDeclarators name ds := by
      simp [keptDeclarators]
    rw [excise_declared hlisted, exciseDeclaration, hagain, if_neg (by simp)]
    rfl

theorem excise_label {name : String} {t u : Tree} (h : excise name t = some u) :
    u.label = t.label := by
  rcases excise_cases h with rfl | ⟨b, s, d, sp, rest, rfl, -, rfl⟩ |
    ⟨b, s, k, e, inner, ds, sp, rest, rfl, -, rfl⟩ <;> rfl

/-- What is left of an export is in shape. -/
theorem inShape_excise {name : String} {t u : Tree} (ht : t.inShape = true)
    (h : excise name t = some u) : u.inShape = true := by
  have hfilter : ∀ {l : Label} {s : Span} {ps : List Tree} (P : Tree → Bool),
      (Tree.node l s ps).inShape = true → (Tree.node l s (ps.filter P)).inShape = true := by
    intro l s ps P hnode
    obtain ⟨hfits, hparts⟩ := Tree.inShape_node.1 hnode
    refine Tree.inShape_node.2 ⟨Tree.fits_of_labels hfits ?_, ?_⟩
    · exact fun c hc => ⟨c, List.mem_of_mem_filter hc, rfl⟩
    · exact fun c hc => hparts c (List.mem_of_mem_filter hc)
  rcases excise_cases h with rfl | ⟨b, s, d, ⟨l, s', ps⟩, rest, rfl, -, rfl⟩ |
    ⟨b, s, k, e, inner, ds, sp, rest, rfl, -, rfl⟩
  · exact ht
  · obtain ⟨hfits, hparts⟩ := Tree.inShape_node.1 ht
    refine Tree.inShape_node.2 ⟨Tree.fits_of_labels hfits ?_, ?_⟩
    · simpa using fun c hc => Or.inr (Or.inr ⟨c, hc, rfl⟩)
    · simp only [List.forall_mem_cons] at hparts ⊢
      exact ⟨hparts.1, hfilter _ hparts.2.1, hparts.2.2⟩
  · obtain ⟨hfits, hparts⟩ := Tree.inShape_node.1 ht
    refine Tree.inShape_node.2 ⟨Tree.fits_of_labels hfits ?_, ?_⟩
    · simpa using fun c hc => Or.inr (Or.inr ⟨c, hc, rfl⟩)
    · simp only [List.forall_mem_cons] at hparts ⊢
      exact ⟨hfilter _ hparts.1, hparts.2⟩

theorem plainName_prune (dead : List Binding) (t : Tree) :
    plainName (prune dead t) = plainName t := by
  rw [plainName, plainName, prune_label]

theorem specifierExport_prune (dead : List Binding) (t : Tree) :
    specifierExport (prune dead t) = specifierExport t := by
  rw [specifierExport, specifierExport, prune_label]

/-- Which of the names in braces stay does not depend on what is pruned inside them. -/
theorem keptSpecifiers_prune {dead : List Binding} (name : String) {sp : Tree}
    (hl : sp.label ≠ .module .statements) :
    keptSpecifiers name (prune dead sp) =
      (keptSpecifiers name sp).map (prunePart dead sp.label) := by
  rw [keptSpecifiers, keptSpecifiers, prune_children dead hl]
  refine filter_map_of_congr fun c _ => ?_
  rw [apply_prunePart dead (specifierExport_prune dead c)]

/-- Which declarators stay does not depend on what is pruned inside them. -/
theorem keptDeclarators_prune {dead : List Binding} (name : String) {ds : List Tree}
    (hds : ∀ d ∈ ds, d.label ≠ .module .statements) :
    keptDeclarators name (ds.map (prune dead)) = (keptDeclarators name ds).map (prune dead) := by
  refine filter_map_of_congr fun d hd => ?_
  rw [child_prune dead (hds d hd), apply_prunePart dead (plainName_prune dead _)]

theorem isFunctionNamed_prune {dead : List Binding} (name : String) (d : Tree) :
    isFunctionNamed name (prune dead d) = isFunctionNamed name d := by
  fun_cases isFunctionNamed name d with
  | case1 form declared traits span id rest =>
      rw [prune_of_plain dead (by simp), List.map_cons, isFunctionNamed, plainName_prune]
  | case2 d hfunction =>
      rw [isFunctionNamed]
      exact fun _ _ _ => prune_ne_cons dead (by simp) (hfunction _ _ _)

/-- Declarations can be taken from an export before or after a removal inside it. -/
theorem exciseDeclaration_prune {dead : List Binding} (name : String) {d : Tree}
    (hd : d.inShape = true) :
    exciseDeclaration name (prune dead d) = (exciseDeclaration name d).map (prune dead) := by
  by_cases hvariables : ∃ k e inner ds, d = .node (.statement (.variableList k e)) inner ds
  · obtain ⟨k, e, inner, ds, rfl⟩ := hvariables
    have hds := fun x hx => (Tree.inShape_part hd rfl (c := x) hx).2
    rw [prune_of_plain dead (by simp), exciseDeclaration, exciseDeclaration,
      keptDeclarators_prune name hds, List.isEmpty_map, List.length_map, List.length_map]
    split_ifs
    · rfl
    · simp [prune_of_plain]
  · rw [exciseDeclaration, exciseDeclaration, isFunctionNamed_prune]
    · split_ifs <;> rfl
    · exact fun k e inner ds heq => hvariables ⟨k, e, inner, ds, heq⟩
    · intro k e
      exact prune_ne_node dead (by simp) fun inner ps heq => hvariables ⟨k, e, inner, ps, heq⟩

theorem ne_export_prune {dead : List Binding} {t : Tree}
    (h : ∀ b s d sp rest, t ≠ .node (.module (.exportNamed b)) s (d :: sp :: rest)) :
    ∀ b s d sp rest, prune dead t ≠ .node (.module (.exportNamed b)) s (d :: sp :: rest) :=
  fun b => prune_ne_cons_cons dead (by simp) (h b)

/-- Taking a name out of an export goes together with pruning. -/
theorem excise_prune {dead : List Binding} (name : String) {t : Tree} (ht : t.inShape = true) :
    excise name (prune dead t) = (excise name t).map (prune dead) := by
  cases exportForm t with
  | @listed b s d sp rest hlisted =>
      have hsp := (Tree.inShape_part ht rfl (c := sp) (by simp)).2
      have hlisted' : (prune dead sp).children ≠ [] := by
        rw [prune_children dead hsp]
        simpa using hlisted
      rw [prune_of_plain dead (by simp), List.map_cons, List.map_cons, excise_listed hlisted,
        excise_listed hlisted', keptSpecifiers_prune name hsp, List.isEmpty_map]
      split_ifs
      · rfl
      · simp [prune_of_plain, prune_node dead hsp]
  | @declared b s d sp rest hlisted =>
      have hd := (Tree.inShape_part ht rfl (c := d) (by simp)).1
      have hsp := (Tree.inShape_part ht rfl (c := sp) (by simp)).2
      have hlisted' : (prune dead sp).children = [] := by
        rw [prune_children dead hsp, hlisted]
        rfl
      rw [prune_of_plain dead (by simp), List.map_cons, List.map_cons, excise_declared hlisted,
        excise_declared hlisted', exciseDeclaration_prune name hd, Option.map_map, Option.map_map]
      congr 1
      funext d'
      simp [prune_of_plain]
  | other hother =>
      rw [excise_other hother, excise_other (ne_export_prune hother)]
      rfl

/-- What is left of an export is no trouble that the export was not. -/
theorem excise_troubles {name : String} {t u : Tree} (h : excise name t = some u) :
    gather Binding.troubleRule {} u ⊆ gather Binding.troubleRule {} t := by
  have hmono : ∀ {l : Label} {s : Span} {ps qs : List Tree}, qs ⊆ ps →
      gather Binding.troubleRule {} (.node l s qs) ⊆
        gather Binding.troubleRule {} (.node l s ps) := by
    intro l s ps qs hsub x hx
    refine mem_gather_listRule.2 ((mem_gather_listRule.1 hx).imp ?_ ?_)
    · rintro ⟨hl, c, hc, hx⟩
      exact ⟨hl, c, hsub hc, hx⟩
    · rintro ⟨c, hc, hx⟩
      exact ⟨c, hsub hc, hx⟩
  rcases excise_cases h with rfl | ⟨b, s, d, ⟨l, s', ps⟩, rest, rfl, -, rfl⟩ |
    ⟨b, s, k, e, inner, ds, sp, rest, rfl, -, rfl⟩
  · exact List.Subset.refl _
  · intro x hx
    refine mem_gather_listRule.2 ((mem_gather_listRule.1 hx).imp (by simp) ?_)
    simp only [List.exists_mem_cons_iff]
    refine Or.imp_right (Or.imp_left (And.imp_right fun hx => ?_))
    exact hmono (fun c hc => List.mem_of_mem_filter hc) hx
  · intro x hx
    refine mem_gather_listRule.2 ((mem_gather_listRule.1 hx).imp (by simp) ?_)
    simp only [List.exists_mem_cons_iff]
    refine Or.imp_left (And.imp_right fun hx => ?_)
    exact hmono (fun c hc => List.mem_of_mem_filter hc) hx

/-! ## Names -/

/-- The names that a statement adds to the module's interface. -/
def statementNames (t : Tree) : List String :=
  match Record.classify t with
  | some r => r.names
  | none => []

/-- The names of the records of statements are those of the statements. -/
theorem flatMap_names_records (ss : List Tree) :
    (records ss).flatMap Record.names = ss.flatMap statementNames := by
  induction ss with
  | nil => rfl
  | cons t ts ih =>
      unfold records at ih ⊢
      rw [List.filterMap_cons, List.flatMap_cons, ← ih, statementNames]
      cases Record.classify t <;> rfl

/-- What `f` says of the declaration behind an export, and the names in its braces. -/
def exportNames (f : Tree → List String) : Tree → List String
  | .node (.module (.exportNamed _)) _ (d :: sp :: _) =>
    f d ++ sp.children.filterMap specifierExport
  | _ => []

theorem statementNames_eq (t : Tree) : statementNames t = exportNames plainNames t := by
  unfold statementNames
  fun_cases Record.classify t with
  | case1 span ps => rfl
  | case2 b span d sp rest => rfl
  | case3 t hdefault hnamed =>
      rw [exportNames]
      exact hnamed

section Names

variable {f : Tree → List String} {name m : String}

/-- An export gives the names of its declaration and those in its braces. -/
theorem mem_exportNames {b : Bool} {s : Span} {d sp : Tree} {rest : List Tree} :
    m ∈ exportNames f (.node (.module (.exportNamed b)) s (d :: sp :: rest)) ↔
      m ∈ f d ∨ ∃ x ∈ sp.children, specifierExport x = some m := by
  simp [exportNames]

theorem mem_plainNames_variables {k : VariableKind} {e : Bool} {s : Span} {ds : List Tree} :
    m ∈ plainNames (.node (.statement (.variableList k e)) s ds) ↔
      ∃ d ∈ ds, plainName (d.child 0) = some m := by
  simp [plainNames]

/-- Excising adds no name, if leaving out variables adds none. -/
theorem mem_exportNames_of_excise
    (hf : ∀ k e s ds, f (.node (.statement (.variableList k e)) s (keptDeclarators name ds)) ⊆
      f (.node (.statement (.variableList k e)) s ds))
    {t u : Tree} (h : excise name t = some u) (hm : m ∈ exportNames f u) : m ∈ exportNames f t := by
  rcases excise_cases h with rfl | ⟨b, s, d, sp, rest, rfl, -, rfl⟩ |
    ⟨b, s, k, e, inner, ds, sp, rest, rfl, -, rfl⟩
  · exact hm
  · rw [mem_exportNames] at hm ⊢
    refine hm.imp_right ?_
    rintro ⟨x, hx, hxm⟩
    exact ⟨x, List.mem_of_mem_filter hx, hxm⟩
  · rw [mem_exportNames] at hm ⊢
    exact hm.imp_left fun hm => hf k e inner ds hm

/-- A declaration that is not a function of the excised name still gives what its variables do. -/
theorem exists_exciseDeclaration {α : Type} {f : Tree → List α} {m : α}
    (hnil : ∀ k e s, f (.node (.statement (.variableList k e)) s []) = [])
    {d : Tree} (hm : m ∈ f d) (hnamed : isFunctionNamed name d = false)
    (hvariables : ∀ k e s ds, d = .node (.statement (.variableList k e)) s ds →
      m ∈ f (.node (.statement (.variableList k e)) s (keptDeclarators name ds))) :
    ∃ d', exciseDeclaration name d = some d' ∧ m ∈ f d' := by
  fun_cases exciseDeclaration name d with
  | case1 kind declared span declarators hnone =>
      have hm := hvariables kind declared span declarators rfl
      have hempty : keptDeclarators name declarators = [] :=
        List.isEmpty_iff.1 (Bool.and_eq_true_iff.1 hnone).1
      simp [hempty, hnil] at hm
  | case2 k e s ds hsome => exact ⟨_, rfl, hvariables k e s ds rfl⟩
  | case3 d hother htrue => simp [hnamed] at htrue
  | case4 d hother hfalse => exact ⟨d, rfl, hm⟩

/-- Excising one name keeps those of the declaration that are still declared, and the others in the
braces. -/
theorem mem_exportNames_excise {b : Bool} {s : Span} {d sp : Tree} {rest : List Tree}
    (hm : m ∈ exportNames f (.node (.module (.exportNamed b)) s (d :: sp :: rest)))
    (hlisted : sp.children ≠ [] → m ∉ f d ∧ m ≠ name)
    (hdeclared : m ∈ f d → ∃ d', exciseDeclaration name d = some d' ∧ m ∈ f d') :
    ∃ u, excise name (.node (.module (.exportNamed b)) s (d :: sp :: rest)) = some u ∧
      u.label = .module (.exportNamed b) ∧ m ∈ exportNames f u := by
  rw [mem_exportNames] at hm
  by_cases hempty : sp.children = []
  · obtain ⟨d', hd', hm'⟩ : ∃ d', exciseDeclaration name d = some d' ∧ m ∈ f d' := by
      rcases hm with hm | ⟨x, hx, -⟩
      · exact hdeclared hm
      · simp [hempty] at hx
    rw [excise_declared hempty, hd']
    exact ⟨_, rfl, rfl, mem_exportNames.2 (Or.inl hm')⟩
  · obtain ⟨hnone, hne⟩ := hlisted hempty
    obtain ⟨x, hx, hxm⟩ := hm.resolve_left hnone
    have hkept : x ∈ keptSpecifiers name sp :=
      List.mem_filter.2 ⟨hx, by simpa [hxm] using hne⟩
    rw [excise_listed hempty, if_neg (by simp [List.ne_nil_of_mem hkept])]
    exact ⟨_, rfl, rfl, mem_exportNames.2 (Or.inr ⟨x, hkept, hxm⟩)⟩

end Names

/-- Excising adds no name. -/
theorem mem_names_of_excise {name m : String} {t u : Tree} (h : excise name t = some u)
    (hm : m ∈ statementNames u) : m ∈ statementNames t := by
  rw [statementNames_eq] at hm ⊢
  refine mem_exportNames_of_excise (fun k e s ds n hn => ?_) h hm
  obtain ⟨x, hx, hxn⟩ := mem_plainNames_variables.1 hn
  exact mem_plainNames_variables.2 ⟨x, List.mem_of_mem_filter hx, hxn⟩

/-- A declaration without one name still gives the others. -/
theorem mem_plainNames_excise {name m : String} (hne : m ≠ name) {d : Tree}
    (hm : m ∈ plainNames d) : ∃ d', exciseDeclaration name d = some d' ∧ m ∈ plainNames d' := by
  refine exists_exciseDeclaration (fun _ _ _ => rfl) hm ?_ ?_
  · rw [← Bool.not_eq_true]
    intro hnamed
    fun_cases isFunctionNamed name d with
    | case1 form declared traits span id rest =>
        have hid : plainName id = some name := by simpa [isFunctionNamed] using hnamed
        exact hne (by simpa [plainNames, hid] using hm)
    | case2 d hfunction =>
        rw [isFunctionNamed] at hnamed
        · simp at hnamed
        · exact hfunction
  · rintro k e s ds rfl
    obtain ⟨x, hx, hxm⟩ := mem_plainNames_variables.1 hm
    exact mem_plainNames_variables.2 ⟨x, List.mem_filter.2 ⟨hx, by simpa [hxm] using hne⟩, hxm⟩

/-- Excising one name keeps the others. -/
theorem mem_names_excise {name m : String} (hne : m ≠ name) {t : Tree} (ht : exportFits t = true)
    (hm : m ∈ statementNames t) : ∃ u, excise name t = some u ∧ m ∈ statementNames u := by
  rw [statementNames_eq] at hm
  fun_cases exportNames plainNames t with
  | case1 typeOnly span declaration specifiers rest =>
      have hlisted : specifiers.children ≠ [] → m ∉ plainNames declaration ∧ m ≠ name := by
        intro hlisted
        have habsent : declaration.isAbsent = true := by simpa [exportFits, hlisted] using ht
        obtain ⟨l, s', ps⟩ := declaration
        obtain rfl : l = .absent := by simpa [Tree.isAbsent] using habsent
        exact ⟨by simp [plainNames], hne⟩
      obtain ⟨u, hu, -, hmu⟩ := mem_exportNames_excise hm hlisted (mem_plainNames_excise hne)
      exact ⟨u, hu, by rwa [statementNames_eq]⟩
  | case2 t hother =>
      rw [exportNames] at hm
      · simp at hm
      · exact hother

/-! ## Removals -/

variable {dead : List Binding}

/-- The names that a declaration gives do not depend on what is pruned inside it. -/
theorem plainNames_prune {t : Tree} (ht : t.inShape = true) :
    plainNames (prune dead t) = plainNames t := by
  fun_cases plainNames t with
  | case1 form declared traits span name rest =>
      rw [prune_of_plain dead (by simp), List.map_cons, plainNames, plainName_prune]
  | case2 form declared abstract span decorators name rest =>
      rw [prune_of_plain dead (by simp), List.map_cons, List.map_cons, plainNames, plainName_prune]
  | case3 kind declared span declarators =>
      have hds := fun d hd => (Tree.inShape_part ht rfl (c := d) hd).2
      rw [prune_of_plain dead (by simp), plainNames, List.filterMap_map]
      apply List.filterMap_congr
      intro d hd
      rw [Function.comp_apply, child_prune dead (hds d hd),
        apply_prunePart dead (plainName_prune dead _)]
  | case4 t hfunction hclass hvariables =>
      rw [plainNames]
      · exact fun _ _ _ => prune_ne_cons dead (by simp) (hfunction _ _ _)
      · exact fun _ _ _ => prune_ne_cons_cons dead (by simp) (hclass _ _ _)
      · exact fun _ _ => prune_ne_node dead (by simp) (hvariables _ _)

/-- A removal leaves what an export says, if it leaves what its declaration says. -/
theorem exportNames_prune {f : Tree → List String}
    (hf : ∀ d : Tree, d.inShape = true → f (prune dead d) = f d) {t : Tree}
    (ht : t.inShape = true) : exportNames f (prune dead t) = exportNames f t := by
  fun_cases exportNames f t with
  | case1 b s d sp rest =>
      have hd := (Tree.inShape_part ht rfl (c := d) (by simp)).1
      have hsp := (Tree.inShape_part ht rfl (c := sp) (by simp)).2
      have hlisted : (prune dead sp).children.filterMap specifierExport =
          sp.children.filterMap specifierExport := by
        rw [prune_children dead hsp, List.filterMap_map]
        exact List.filterMap_congr fun x _ => apply_prunePart dead (specifierExport_prune dead x) _
      rw [prune_of_plain dead (by simp), List.map_cons, List.map_cons, exportNames, hf d hd, hlisted]
  | case2 t hother =>
      rw [exportNames]
      exact ne_export_prune hother

/-- Whether a node is an export. -/
def isExport : Label → Bool
  | .module .exportDefault | .module (.exportNamed _) | .module (.exportAll _ _) => true
  | _ => false

/-- A statement that exports has no names to lose. -/
theorem inert_of_export {t : Tree} (h : isExport t.label = true) : Inert t := by
  constructor
  all_goals
    intros
    rintro rfl
    simp [isExport] at h

/-- A removal never takes an export as a whole. -/
theorem kept_of_export {t : Tree} (h : isExport t.label = true) : kept dead t = some t := by
  rw [kept, (inert_of_export h).keepStatement]

/-- What only exports tell is left of a statement as it is left of an export. -/
theorem flatMap_kept_prune {α : Type} {R : List α → List α → Prop} {f : Tree → List α} {t : Tree}
    (hexport : ∀ u : Tree, isExport u.label = false → f u = []) (hnil : R [] [])
    (hprune : R (f (prune dead t)) (f t)) :
    R ((kept dead (prune dead t)).toList.flatMap f) (f t) := by
  cases hlabel : isExport t.label with
  | true =>
      have hkept : kept dead (prune dead t) = some (prune dead t) :=
        kept_of_export (by rw [prune_label, hlabel])
      rw [hkept, Option.toList_some, List.flatMap_singleton]
      exact hprune
  | false =>
      have hnone : (kept dead (prune dead t)).toList.flatMap f = [] := by
        rw [List.flatMap_eq_nil_iff]
        intro u hu
        apply hexport u
        rw [kept_label (Option.mem_toList.1 hu), prune_label, hlabel]
      rw [hexport t hlabel, hnone]
      exact hnil

theorem exportNames_of_not_export {f : Tree → List String} {t : Tree}
    (h : isExport t.label = false) : exportNames f t = [] := by
  rw [exportNames]
  rintro b s d sp rest rfl
  simp [isExport] at h

/-- A removal changes nothing about what a statement exports. -/
theorem names_kept_prune {t : Tree} (ht : t.inShape = true) :
    (kept dead (prune dead t)).toList.flatMap statementNames = statementNames t := by
  refine flatMap_kept_prune (fun u hu => ?_) rfl ?_
  · rw [statementNames_eq, exportNames_of_not_export hu]
  · rw [statementNames_eq, statementNames_eq,
      exportNames_prune (fun d hd => plainNames_prune hd) ht]

end RouteSplit.Export
