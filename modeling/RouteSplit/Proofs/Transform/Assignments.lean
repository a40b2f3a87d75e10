import RouteSplit.Proofs.Transform.Interface
import RouteSplit.Proofs.Transform.Meaning

/-!
# Assignments to names that a module gives

A function that is assigned to a name goes by the name, as a declaration does, and is swept when
nothing reads it outside the assignment. A name in an export's braces is read there; one that is
exported where it is declared is not.

- `Assigns`: a statement that assigns a function;
- `use_or_declared`: what a binding means, its own identifier means or declares;
- `gather_decorate`: what the marker adds to a module;
- `assignment_kept`: what is assigned to a name that the bundle reads stays in it.
-/

namespace RouteSplit.Sweep

open Scope

/-! ## Statements that assign -/

/-- The statement assigns a function to a name, which stands at `site`. -/
def Assigns (name : String) (site : Span) (t : Tree) : Prop :=
  ∃ span e self, t = .node (.statement .expression) span [e] ∧
    Binding.assignedFunction? e = some (name, site, self)

variable {name : String} {site : Span} {t : Tree}

/-- The name that is assigned to is used. -/
theorem Assigns.exists_use (h : Assigns name site t) (a : Around) :
    ∃ usage, ⟨site, name, usage, a.env⟩ ∈ gather useRule a t := by
  obtain ⟨span, e, self, rfl, hassigned⟩ := h
  fun_cases Binding.assignedFunction? e with
  | case1 self name' usage site' parts value hvalue =>
      rw [Binding.assignedFunction?, if_pos hvalue] at hassigned
      obtain ⟨rfl, rfl, -⟩ := by simpa using hassigned
      refine ⟨usage, mem_gather_node.2 (Or.inr ⟨0, _, rfl, ?_⟩)⟩
      refine mem_gather_node.2 (Or.inr ⟨0, _, rfl, ?_⟩)
      exact mem_gather_node.2 (Or.inl (by simp [useRule, Around.inside, opened]))
  | case2 self name' usage site' parts value hvalue =>
      rw [Binding.assignedFunction?, if_neg hvalue] at hassigned
      simp at hassigned
  | case3 e hother =>
      rw [Binding.assignedFunction?] at hassigned
      · simp at hassigned
      · exact hother

/-- A removal leaves an assignment whose name is not dead. -/
theorem Assigns.exists_kept (h : Assigns name site t) {dead : List Binding}
    (halive : isDead dead site = false) :
    ∃ t', kept dead (prune dead t) = some t' ∧ Assigns name site t' := by
  obtain ⟨span, e, self, rfl, hassigned⟩ := h
  have hassigned' : Binding.assignedFunction? (prune dead e) = some (name, site, self) :=
    (assignedFunction?_prune dead e).trans hassigned
  rw [prune_of_plain dead (by simp), List.map_singleton]
  refine ⟨.node (.statement .expression) span [prune dead e], ?_, span, _, self, rfl, hassigned'⟩
  simp [kept, keepStatement, hassigned', keepUnless, goes, halive]

/-- A binding means what its identifier declares, or what its identifier means where it is assigned
to. -/
theorem use_or_declared {table : Table} {a : Around} {b : Binding}
    (hb : b ∈ gather (Binding.bindingRule table) a t) :
    table.declared b.site = some b.symbol ∨ ∃ w ∈ gather useRule a t, w.site = b.site ∧
      table.resolve w.env w.name .write = some b.symbol := by
  induction t using Tree.induct generalizing a with
  | node l s ps ih =>
      rcases Binding.mem_bindings_node hb with ⟨⟨rfl, -⟩, c, hc, horigin⟩ | ⟨i, c, hc, hb⟩
      · cases horigin with
        | function _ _ _ hdeclared => exact Or.inl hdeclared
        | plain _ _ _ hdeclared => exact Or.inl hdeclared
        | part _ _ _ _ _ hdeclared => exact Or.inl hdeclared
        | specifier _ _ _ hdeclared => exact Or.inl hdeclared
        | @assignment span e hassigned hresolve =>
            obtain ⟨i, hi⟩ := List.mem_iff_getElem?.1 hc
            have hassigns : Assigns b.name b.site (.node (.statement .expression) span [e]) :=
              ⟨span, e, b.self, rfl, hassigned⟩
            obtain ⟨usage, huse⟩ := hassigns.exists_use (a.inside (.module .statements) s ps i)
            exact Or.inr ⟨_, gather_child_subset hi huse, rfl, hresolve⟩
      · refine (ih c (List.mem_of_getElem? hc) hb).imp_right ?_
        rintro ⟨w, hw, hsite, hresolve⟩
        exact ⟨w, gather_child_subset hc hw, hsite, hresolve⟩

/-! ## Names at the top of a module -/

/-- Where nothing is declared twice, all uses of a name in one scope mean the same. -/
theorem resolve_singleton_unique (hdistinct : Distinct (declarations {} t)) {scope : ScopeId}
    {usage usage' : Usage} {s s' : Symbol} (h : (tableOf t).resolve [scope] name usage = some s)
    (h' : (tableOf t).resolve [scope] name usage' = some s') : s = s' := by
  have hdeclared : ∀ {usage s}, (tableOf t).resolve [scope] name usage = some s →
      ∃ d ∈ declarations {} t, d.name = name ∧ d.scope = scope ∧ d.symbol = s := by
    intro usage s h
    obtain ⟨inner, outer, d, hd, henv, hname, -, hsymbol, -⟩ :=
      (Table.resolve_iff (Table.represents_ofDeclarations hdistinct) hdistinct).1 h
    have hscope : d.scope ∈ [scope] := henv ▸ List.mem_append_right inner List.mem_cons_self
    exact ⟨d, hd, hname, List.mem_singleton.1 hscope, hsymbol⟩
  obtain ⟨d, hd, hname, hscope, rfl⟩ := hdeclared h
  obtain ⟨e, he, hname', hscope', rfl⟩ := hdeclared h'
  rw [hdistinct.eq_of_meets hd he
    (Declaration.meets_of_scope (hname.trans hname'.symm) (hscope.trans hscope'.symm))]

/-- What a use in one scope means after any number of passes, it meant before. -/
theorem resolve_of_reaches {c : Context} {t' : Tree} (h : Reaches c t t') (ht : WellFormed t)
    (hdistinct : Distinct (declarations {} t)) {u : Use} {scope : ScopeId} (henv : u.env = [scope])
    {s : Symbol} (hs : u.resolve (tableOf t') = some s) : u.resolve (tableOf t) = some s := by
  obtain ⟨inner, outer, d, hd, henv', hname, hserves, rfl, -⟩ :=
    (resolve_tableOf (distinct_reaches h ht hdistinct)).1 hs
  obtain ⟨e, he, hsymbol, hscope, hserves'⟩ := exists_declared_of_reaches h ht hd
  obtain rfl : inner = [] := by
    cases inner with
    | nil => rfl
    | cons x inner => simp [henv] at henv'
  refine (resolve_tableOf hdistinct).2
    ⟨[], outer, e, he, ?_, ?_, hserves' _ hserves, hsymbol, by simp⟩
  · rw [henv', hscope]
  · exact (congrArg Symbol.name hsymbol).trans hname

/-- A name that is assigned to in the scope in which a read means it is not dead, if the read is
left. -/
theorem not_dead_of_assigned {c : Context} {t' : Tree} (h : Pass c t t') (ht : WellFormed t)
    (hdistinct : Distinct (declarations {} t)) {u w : Use} (hu : u ∈ uses t')
    (hread : isRead u.usage = true) {scope : ScopeId} (henv : u.env = [scope]) {s : Symbol}
    (hs : u.resolve (tableOf t) = some s) (hw : w ∈ uses t) (hname : w.name = u.name)
    (hscope : w.env = [scope]) : ¬ Dead t c w.site := by
  intro hdead
  obtain ⟨bs, hbs, b, hb, hsite, -, -⟩ := id hdead
  have hsymbol : b.symbol = s := by
    rcases use_or_declared ((Binding.collect_spec hbs).2 hb) with
      hdeclared | ⟨w', hw', hsite', hmeans⟩
    · -- The identifier would both use its name and declare it.
      obtain ⟨d, hd, hdsite, -⟩ := Table.exists_of_declared
        (Table.represents_ofDeclarations hdistinct) hdeclared
      have hmention := List.inj_on_of_nodup_map ht.sites
        (mention_of_declared hd) (mention_of_use hw) (hdsite.trans hsite)
      simpa using congrArg Mention.usage hmention
    · obtain rfl := use_eq_of_site ht.sites hw' hw (hsite'.trans hsite)
      rw [hscope, hname] at hmeans
      rw [Use.resolve, henv] at hs
      exact resolve_singleton_unique hdistinct hmeans hs
  rw [← hsymbol] at hs
  refine not_dead_of_binding h ht hbs hb hu hread hs ?_
  rw [hsite]
  exact hdead

end RouteSplit.Sweep

namespace RouteSplit

open Scope Sweep Export RouteSplit.Module

/-! ## The marker -/

section Marker

variable {o : Options} {root P : Tree} {c c' : Context} {injected : Bool}

/-- What is told of a marked module is told of the module or of the marker. -/
theorem gather_decorate {α : Type} {rule : Rule α} (hrule : Shared rule) (hmodule : IsModule root)
    (h : decorate o root c = (P, c', injected)) :
    gather rule {} P = gather rule {} root ∨
      injected = true ∧ ∃ before after, gather rule {} root = before ++ after ∧
        gather rule {} P =
          before ++ (gather rule (bodyAround root) (marker o.markerName) ++ after) := by
  rcases decorate_cases h with ⟨rfl, -⟩ | ⟨hinjected, -, -, ss, hinsert, rfl⟩
  · exact Or.inl rfl
  · obtain ⟨front, back, hstatements, rfl⟩ := insertBeforeDefault_eq_some hinsert
    obtain ⟨head, hhead⟩ := gather_module hrule hmodule
    have hroot := hhead (statementsOf root)
    rw [withStatements_statementsOf hmodule, hstatements] at hroot
    refine Or.inr ⟨hinjected, head ++ front.flatMap (gather rule (bodyAround root)),
      back.flatMap (gather rule (bodyAround root)), ?_, ?_⟩
    · rw [hroot, List.flatMap_append, List.append_assoc]
    · rw [hhead, List.flatMap_append, List.flatMap_cons, List.append_assoc]

/-- The marker uses nothing. -/
theorem uses_decorate_subset (hmodule : IsModule root) (h : decorate o root c = (P, c', injected)) :
    uses P ⊆ uses root := by
  rw [uses, uses]
  rcases gather_decorate shared_useRule hmodule h with heq | ⟨-, before, after, hroot, hP⟩
  · rw [heq]
    exact List.Subset.refl _
  · have hmarker : gather useRule (bodyAround root) (marker o.markerName) = [] := by
      simp [marker, gather_node, useRule, Tree.absent]
    rw [hP, hroot, hmarker, List.nil_append]
    exact List.Subset.refl _

/-- The marker changes the meaning of no name but its own. -/
theorem resolve_decorate (hmodule : IsModule root) (h : decorate o root c = (P, c', injected))
    {u : Use} (hname : injected = true → u.name ≠ o.markerName) :
    u.resolve (tableOf P) = u.resolve (tableOf root) := by
  refine Table.resolve_congr_of_name ?_ u.env u.usage
  have hall := gather_decorate shared_declarationRule hmodule h
  simp only [← declarations_eq_gather] at hall
  rcases hall with heq | ⟨hinjected, before, after, hroot, hP⟩
  · rw [heq]
  · have hmarker : ∀ d ∈ declarations (bodyAround root) (marker o.markerName),
        ¬ (d.name == u.name) = true := by
      intro d hd hsame
      have hmention := mention_of_declared hd
      have hmarked : d.name = o.markerName := by
        simpa [mentions, marker, gather_node, mentionRule, mentionsOf, Tree.absent] using
          congrArg Mention.name (List.mem_singleton.1 hmention)
      exact hname hinjected (((beq_iff_eq).1 hsame).symm.trans hmarked)
    rw [hroot, hP, List.filter_append, List.filter_append, List.filter_append,
      List.filter_eq_nil_iff.2 hmarker, List.nil_append]

end Marker

/-! ## Assignments that stay -/

section

variable {c : Context} {t t' : Tree} {u : Use} {s : Symbol} {site : Span}

/-- A pass leaves what is assigned at the top to a name that is still read there. -/
theorem assigns_pass (h : Pass c t t') (ht : WellFormed t) (hmodule : IsModule t)
    (hdistinct : Distinct (declarations {} t)) (hu : u ∈ uses t') (hread : isRead u.usage = true)
    (henv : u.env = [⟨.module, t.span⟩]) (hs : u.resolve (tableOf t) = some s)
    (hassigns : ∃ x ∈ statementsOf t, Assigns u.name site x) :
    ∃ x ∈ statementsOf t', Assigns u.name site x := by
  obtain ⟨x, hx, hassigns⟩ := hassigns
  obtain ⟨usage, huse⟩ := hassigns.exists_use (bodyAround t)
  have hw : ⟨site, u.name, usage, [⟨.module, t.span⟩]⟩ ∈ uses t := by
    obtain ⟨head, hhead⟩ := gather_module shared_useRule hmodule
    have hall := hhead (statementsOf t)
    rw [withStatements_statementsOf hmodule] at hall
    rw [uses, hall]
    exact List.mem_append_right _ (List.mem_flatMap.2 ⟨x, hx, huse⟩)
  have halive := not_dead_of_assigned h ht hdistinct hu hread henv hs hw rfl rfl
  obtain ⟨dead, hdead, -, rfl⟩ := h
  rw [← isDead_iff_dead hdead, Bool.not_eq_true] at halive
  obtain ⟨x', hkept, hassigns'⟩ := hassigns.exists_kept halive
  refine ⟨x', ?_, hassigns'⟩
  rw [statementsOf_prune hmodule]
  exact List.mem_filterMap.2 ⟨_, List.mem_map_of_mem hx, hkept⟩

/-- So does any number of passes. -/
theorem assigns_reaches {final : Tree} (h : Reaches c t final) (ht : WellFormed t)
    (hmodule : IsModule t) (hdistinct : Distinct (declarations {} t)) (hu : u ∈ uses final)
    (hread : isRead u.usage = true) (henv : u.env = [⟨.module, t.span⟩])
    (hs : u.resolve (tableOf final) = some s)
    (hassigns : ∃ x ∈ statementsOf t, Assigns u.name site x) :
    ∃ x ∈ statementsOf final, Assigns u.name site x := by
  -- From the front: what the use means is known at the end only, and there for all passes before.
  induction h using Relation.ReflTransGen.head_induction_on with
  | refl => exact hassigns
  | @head t t' hpass hrest ih =>
      have hreach : Reaches c t t' := .single hpass
      have ht' := wellFormed_reaches hreach ht
      have hspan : t'.span = t.span := by
        obtain ⟨dead, -, -, rfl⟩ := hpass
        exact prune_span dead t
      have hmeans := resolve_of_reaches (.head hpass hrest) ht hdistinct henv hs
      refine ih ht' (isModule_reaches hreach hmodule) (distinct_reaches hreach ht hdistinct)
        (hspan ▸ henv) ?_
      exact assigns_pass hpass ht hmodule hdistinct (uses_reaches_subset hrest ht' hu) hread henv
        hmeans hassigns

end

/-- A statement that assigns is no export, and every bundle keeps it. -/
theorem mem_keepStatements_of_assigns {o : Options} {name : String} {site : Span} {ss : List Tree}
    {x : Tree} (hx : x ∈ ss) (h : Assigns name site x) : x ∈ keepStatements o ss := by
  obtain ⟨span, e, self, rfl, -⟩ := h
  unfold keepStatements
  cases o.mode with
  | client => exact List.mem_filter.2 ⟨hx, rfl⟩
  | server => exact List.mem_filterMap.2 ⟨_, hx, rfl⟩

/-- No binding that a bundle still reads is removed, be it in the braces of an export or elsewhere:
this holds of every pass of every transform. Where nothing is declared twice, all functions that a
module assigns at its top to a name that the bundle reads there are still assigned in the bundle. -/
theorem assignment_kept (o : Options) {root P : Tree} {r : Report} (hroot : IsWritten root)
    (h : root.split o = .ok (P, r)) :
    ∃ c, seed root {} = .ok c ∧
      (∀ t t' dead, PassOf (resolve o root c).2 (resolve o root c).1
          (sweep o (resolve o root c).1 (resolve o root c).2).root t t' →
        deadBindings t (resolve o root c).2 = .ok dead → ∀ b ∈ dead, ∀ u ∈ uses P,
          isRead u.usage = true → u.resolve (tableOf t) ≠ some b.symbol) ∧
      (Distinct (declarations {} root) → ∀ u ∈ uses P, isRead u.usage = true →
        u.env = [⟨.module, root.span⟩] → (r.markerInjected = true → u.name ≠ o.markerName) →
        (u.resolve (tableOf P)).isSome = true → ∀ x ∈ statementsOf root, ∀ site,
          Assigns u.name site x → ∃ x' ∈ statementsOf P, Assigns u.name site x') := by
  obtain ⟨c, hseed, hok, c', hdecorate⟩ := split_eq_ok h
  have hreach := reaches_sweep o (resolve o root c).1 (resolve o root c).2
  have hresolved := wellFormed_resolve hroot o c
  have hmodule : IsModule (resolve o root c).1 := isModule_withStatements hroot.program.module _
  have hswept := isModule_reaches hreach hmodule
  refine ⟨c, hseed, ?_, ?_⟩
  · -- A use of the bundle is one of the tree after each pass, and a read there keeps its binding.
    intro t t' dead hpass hdead b hb u hu hread hmeans
    obtain ⟨hbefore, hstep, hafter⟩ := hpass
    have ht := wellFormed_reaches hbefore hresolved
    have hu' : u ∈ uses t' :=
      uses_reaches_subset hafter (wellFormed_reaches (.single hstep) ht)
        (uses_decorate_subset hswept hdecorate hu)
    obtain ⟨bs, hbs, rfl⟩ := deadBindings_eq_ok.1 hdead
    obtain ⟨hb, hdead⟩ := List.mem_filter.1 hb
    refine not_dead_of_binding hstep ht hbs hb hu' hread hmeans ⟨bs, hbs, b, hb, rfl, ?_⟩
    simpa using hdead
  · -- The assignment is followed from the module to the bundle: no export is one, no pass takes it,
    -- and the marker adds a statement.
    intro hdistinct u hu hread henv hname hmeans x hx site hassigns
    obtain ⟨s, hs⟩ := Option.isSome_iff_exists.1 hmeans
    rw [resolve_decorate hswept hdecorate hname] at hs
    have hspan : (resolve o root c).1.span = root.span := by
      obtain ⟨_, _, _, _, _, _, rfl⟩ := hroot.program.module
      rfl
    have hx' : x ∈ statementsOf (resolve o root c).1 := by
      rw [resolve, statementsOf_withStatements hroot.program.module]
      exact mem_keepStatements_of_assigns hx hassigns
    obtain ⟨x', hx', hassigns'⟩ := assigns_reaches hreach hresolved hmodule
      (List.Pairwise.sublist (parted_declarations hroot o c).1 hdistinct)
      (uses_decorate_subset hswept hdecorate hu) hread (hspan ▸ henv) hs ⟨x, hx', hassigns⟩
    exact ⟨x', (mem_statements_decorate hswept hdecorate).1 hx', hassigns'⟩

/-- The statement that assigns a function to a name: `load = () => 1;`. -/
def loadAssignment (start : Nat) : Tree :=
  let leaf (label : Label) (start stop : Nat) : Tree := .node label ⟨start, stop⟩ []
  .node (.statement .expression) ⟨start, start + 15⟩
    [.node (.expression (.assign "=")) ⟨start, start + 14⟩
      [leaf (.expression (.reference "load" .write)) start (start + 4),
        .node (.function (.arrow { isExpression := true })) ⟨start + 7, start + 14⟩
          [.absent, leaf (.function .parameters) (start + 7) (start + 9), .absent,
            .node (.function .expressionBody) ⟨start + 13, start + 14⟩
              [leaf (.expression (.number "1")) (start + 13) (start + 14)]]]]

theorem assigns_loadAssignment (start : Nat) :
    Assigns "load" ⟨start, start + 4⟩ (loadAssignment start) :=
  ⟨_, _, _, rfl, rfl⟩

/-- The declaration of that name: `let load;`. -/
def loadDeclaration (start : Nat) : Tree :=
  .node (.statement (.variableList .letVariable false)) ⟨start, start + 9⟩
    [.node (.statement (.declarator false)) ⟨start + 4, start + 8⟩
      [.node (.pattern (.binding "load")) ⟨start + 4, start + 8⟩ [], .absent, .absent]]

/-- Server data that reads it: `export function routeData() { return load(); }`. -/
def loadReader (start : Nat) : Tree :=
  let leaf (label : Label) (first last : Nat) : Tree :=
    .node label ⟨start + first, start + last⟩ []
  let call : Tree :=
    .node (.expression (.call false false)) ⟨start + 37, start + 43⟩
      [leaf (.expression (.reference "load" .read)) 37 41, .absent,
        leaf (.expression .arguments) 41 43]
  .node (.module (.exportNamed false)) ⟨start, start + 46⟩
    [.node (.function (.function .declaration false {})) ⟨start + 7, start + 46⟩
      [leaf (.pattern (.binding "routeData")) 16 25, .absent, leaf (.function .parameters) 25 27,
        .absent, .node (.function .body) ⟨start + 28, start + 46⟩
          [leaf (.module .prologue) 30 30, .node (.module .statements) ⟨start + 30, start + 44⟩
            [.node (.statement .returnValue) ⟨start + 30, start + 44⟩ [call]]]],
      leaf (.module .exportSpecifiers) 46 46, .absent, .absent]

/-- A module that exports the name in braces, and reads it in its server data only:
`let load; load = () => 1; export { load }; export function routeData() { return load(); }`. -/
def listedModule : Tree :=
  moduleOf 89 [loadDeclaration 0, loadAssignment 10,
    .node (.module (.exportNamed false)) ⟨26, 42⟩
      [.absent, .node (.module .exportSpecifiers) ⟨33, 41⟩
        [.node (.module (.exportSpecifier ⟨"load", false⟩ ⟨"load", false⟩ false)) ⟨35, 39⟩
          [.node (.expression (.reference "load" .exported)) ⟨35, 39⟩ []]], .absent, .absent],
    loadReader 43]

/-- The server data goes, and the bundle still assigns what it exports. -/
theorem assignment_kept_listedModule :
    IsWritten listedModule ∧ ∃ P r, listedModule.split .server = .ok (P, r) ∧
      "routeData" ∉ (statementsOf P).flatMap givenNames ∧
      ∃ x ∈ statementsOf P, Assigns "load" ⟨10, 14⟩ x := by
  have hwritten : IsWritten listedModule :=
    ⟨⟨by decide, ⟨_, _, _, _, _, _, rfl⟩, by decide⟩, by decide,
      ⟨by decide, by decide, by decide, by decide⟩, by decide⟩
  obtain ⟨c, -, -, hkept⟩ := assignment_kept .server hwritten rfl
  refine ⟨hwritten, _, _, rfl, by decide, ?_⟩
  exact hkept (by decide) ⟨⟨35, 39⟩, "load", .exported, [⟨.module, ⟨0, 89⟩⟩]⟩ (by decide) rfl rfl
    (by decide) (by decide) _ (by decide) _ (assigns_loadAssignment 10)

/-- A module that exports the name where it declares it, and reads it in its server data only:
`export let load; load = () => 1; export function routeData() { return load(); }`. -/
def exportedModule : Tree :=
  moduleOf 79
    [.node (.module (.exportNamed false)) ⟨0, 16⟩
      [loadDeclaration 7, .node (.module .exportSpecifiers) ⟨16, 16⟩ [], .absent, .absent],
      loadAssignment 17, loadReader 33]

/-- The server's bundle of that module. -/
def exportedBundle : Tree :=
  match exportedModule.split .server with
  | .ok (P, _) => P
  | .error _ => .absent

/-- The bundle exports the name and does not assign to it. -/
theorem exported_assignment_swept :
    IsWritten exportedModule ∧ Distinct (declarations {} exportedModule) ∧
      (∃ x ∈ statementsOf exportedModule, Assigns "load" ⟨17, 21⟩ x) ∧
      (∃ r, exportedModule.split .server = .ok (exportedBundle, r) ∧
        r.removed = [⟨"load", .function⟩]) ∧
      "load" ∈ (statementsOf exportedBundle).flatMap givenNames ∧
      ∀ x ∈ statementsOf exportedBundle, ∀ site, ¬ Assigns "load" site x := by
  refine ⟨⟨⟨by decide, ⟨_, _, _, _, _, _, rfl⟩, by decide⟩, by decide,
    ⟨by decide, by decide, by decide, by decide⟩, by decide⟩, by decide,
    ⟨_, by decide, assigns_loadAssignment 17⟩, ⟨_, rfl, rfl⟩, by decide, ?_⟩
  rintro x hx site ⟨span, e, self, rfl, -⟩
  have hlabel : ∀ x ∈ statementsOf exportedBundle, x.label ≠ .statement .expression := by decide
  exact hlabel _ hx rfl

end RouteSplit
