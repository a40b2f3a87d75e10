import RouteSplit.Proofs.Binding.Faults
import RouteSplit.Proofs.Sweep.Limit
import RouteSplit.Proofs.Transform.Idempotence
import RouteSplit.Session

/-!
# Errors of a transform

The first step looks for faults and changes nothing. Where it finds none, no later step can: exports
and passes only take code away, so that every pass works on targets that are understood.

- `Session.run`: the steps of a transform on one module, up to the first that fails;
- `sites_resolve_sublist`, `sweepable_resolve`: resolved exports leave a tree fit for passes;
- `sweep_eq_error`: passes on such a tree fail at the limit only;
- `no_faults_reaches`: no pass and no removal meets a fault;
- `split_of_fault`, `split_of_no_fault`: transforms of modules with and without faults;
- `split_errors`: when a transform fails, and with what;
- `fault_in_type_passed`: a fault in a list that is not searched is not reported.
-/

namespace RouteSplit

open Scope Sweep Export RouteSplit.Module Binding

/-! ## Steps -/

namespace Session

/-- The steps of a transform, up to the first that fails. -/
def run (o : Options) (s : Session) : Session × Except PassError Report :=
  match s.seed with
  | (seeded, .error e) => (seeded, .error e)
  | (seeded, .ok ()) =>
    match (seeded.resolve o).sweep o with
    | (swept, .error e) => (swept, .error e)
    | (swept, .ok ()) =>
      let (marked, injected) := swept.decorate o
      (marked, .ok ⟨marked.context.hasServerExport, injected, marked.context.passes,
        marked.context.removed⟩)

/-- A run that fails at seeding leaves the session as it was. -/
theorem run_of_seed_error {o : Options} {s : Session} {e : PassError}
    (h : Sweep.seed s.module.root s.context = .error e) : s.run o = (s, .error e) := by
  simp only [run, seed, h]

/-- The transform of a tree is what the steps make of a module with that tree. -/
theorem split_eq_run (o : Options) (m : Module) :
    m.root.split o =
      ((run o { module := m }).2.map fun r => ((run o { module := m }).1.module.root, r)) := by
  unfold Tree.split
  cases hseed : Sweep.seed m.root {} with
  | error e =>
      rw [run_of_seed_error hseed]
      rfl
  | ok c =>
      simp only [run, seed, hseed, sweep, resolve, withRoot, bind, Except.bind]
      cases (Sweep.sweep o (Export.resolve o m.root c).1 (Export.resolve o m.root c).2).result with
      | error e => rfl
      | ok x => rfl

end Session

/-- Seeding reports the first fault of the module. -/
theorem reports_seed (root : Tree) (c : Context) : Reports (seed root c) (faults root) :=
  (reports_collect root).andThen fun _ _ => ⟨_, rfl⟩

/-- A transform fails as its first step or as its passes do. -/
theorem split_eq_error {o : Options} {root : Tree} {e : PassError}
    (h : root.split o = .error e) :
    seed root {} = .error e ∨ ∃ c, seed root {} = .ok c ∧
      (sweep o (resolve o root c).1 (resolve o root c).2).result = .error e := by
  unfold Tree.split at h
  cases hseed : seed root {} with
  | error e' =>
      rw [hseed] at h
      exact Or.inl (congrArg Except.error (Except.error.inj h))
  | ok c =>
      simp only [hseed, bind, Except.bind] at h
      refine Or.inr ⟨c, rfl, ?_⟩
      cases hresult : (sweep o (resolve o root c).1 (resolve o root c).2).result with
      | error e' =>
          rw [hresult] at h
          exact congrArg Except.error (Except.error.inj h)
      | ok x =>
          rw [hresult] at h
          simp [pure, Except.pure] at h

/-! ## Resolved exports -/

/-- A node that is no list goes by the names of its parts alone. -/
theorem sites_sublist_of_parts {l : Label} {s : Span} {ps qs : List Tree}
    (hl : l ≠ .module .statements) (h : qs.Sublist ps) :
    (Binding.sites (.node l s qs)).Sublist (Binding.sites (.node l s ps)) := by
  have hlist : ∀ ps, listSites l ps = [] := by
    intro ps
    rw [listSites, if_neg (by simpa using hl)]
  rw [Binding.sites, Binding.sites, sitesAll_eq_flatMap, sitesAll_eq_flatMap, hlist, hlist]
  exact h.flatMap _

/-- An export without a name goes by no name that it did not go by before. -/
theorem sites_excise_sublist {name : String} {t u : Tree} (ht : t.inShape = true)
    (h : excise name t = some u) :
    (statementSites u).Sublist (statementSites t) ∧
      (Binding.sites u).Sublist (Binding.sites t) := by
  rcases excise_cases h with rfl | ⟨b, s, d, ⟨l, s', ps⟩, rest, rfl, -, rfl⟩ |
    ⟨b, s, k, e, inner, ds, sp, rest, rfl, -, rfl⟩
  · exact ⟨List.Sublist.refl _, List.Sublist.refl _⟩
  · have hl : l ≠ .module .statements :=
      (Tree.inShape_part ht rfl (c := .node l s' ps) (by simp)).2
    refine ⟨List.Sublist.refl _, ?_⟩
    rw [sites_of_plain (by simp), sites_of_plain (by simp)]
    simp only [List.flatMap_cons]
    refine (List.Sublist.refl _).append (List.Sublist.append ?_ (List.Sublist.refl _))
    exact sites_sublist_of_parts hl List.filter_sublist
  · refine ⟨List.Sublist.refl _, ?_⟩
    rw [sites_of_plain (by simp), sites_of_plain (by simp)]
    simp only [List.flatMap_cons]
    refine List.Sublist.append ?_ (List.Sublist.refl _)
    exact sites_sublist_of_parts (by simp) List.filter_sublist

/-- What is told of the statements that a bundle keeps was told in that order of the module. -/
theorem flatMap_keepStatements_sublist {α : Type} {f : Tree → List α} {o : Options}
    {ss : List Tree}
    (hf : ∀ t ∈ ss, ∀ u, excise o.serverExportName t = some u → (f u).Sublist (f t)) :
    ((keepStatements o ss).flatMap f).Sublist (ss.flatMap f) := by
  unfold keepStatements
  cases o.mode with
  | client => exact List.filter_sublist.flatMap f
  | server =>
      simp only
      rw [flatMap_filterMap_eq]
      refine List.Sublist.flatMap_right _ fun t ht => ?_
      cases hexcise : excise o.serverExportName t with
      | none => exact List.nil_sublist _
      | some u =>
          rw [Option.toList_some, List.flatMap_singleton]
          exact hf t ht u hexcise

/-- Resolved exports leave a module's names in their order. -/
theorem sites_resolve_sublist {root : Tree} (hroot : IsProgram root) (o : Options) (c : Context) :
    (Binding.sites (resolve o root c).1).Sublist (Binding.sites root) := by
  have hexcise : ∀ t ∈ statementsOf root, ∀ u, excise o.serverExportName t = some u →
      (statementSites u).Sublist (statementSites t) ∧
        (Binding.sites u).Sublist (Binding.sites t) := by
    intro t ht u h
    exact sites_excise_sublist (inShape_statement hroot.module hroot.shape ht) h
  have hown := flatMap_keepStatements_sublist fun t ht u h => (hexcise t ht u h).1
  have hinner := flatMap_keepStatements_sublist fun t ht u h => (hexcise t ht u h).2
  rcases hroot.module with ⟨line, strict, s, prologue, inner, ss, rfl⟩
  simp only [resolve, Module.withStatements]
  rw [sites_of_plain (by simp), sites_of_plain (by simp)]
  simp only [List.flatMap_cons, List.flatMap_nil, List.append_nil, Binding.sites,
    sitesAll_eq_flatMap]
  exact (List.Sublist.refl _).append (hown.append hinner)

/-- Passes can work on a module with resolved exports. -/
theorem sweepable_resolve {root : Tree} (hroot : IsProgram root) (hsupported : Supported root)
    (hsites : (Binding.sites root).Nodup) (o : Options) (c : Context) :
    Sweepable (resolve o root c).1 where
  shape := inShape_keepStatements hroot
  supported := supported_withStatements hroot.module hsupported
    (understood_keepStatements hroot.module hsupported)
  sites := hsites.sublist (sites_resolve_sublist hroot o c)

/-! ## Passes -/

/-- Passes on a tree where they cannot go wrong fail at the limit only. -/
theorem sweep_eq_error {o : Options} {root : Tree} {c : Context} (hroot : Sweepable root)
    {e : PassError} (h : (sweep o root c).result = .error e) :
    ∃ limit, o.maxPasses = some limit ∧ e = .passLimitExceeded limit := by
  rcases exists_ends hroot c with ⟨n, hends⟩
  have hbudget := hends.le_budget hroot
  by_cases henough : ∀ limit, o.maxPasses = some limit → c.passes + n ≤ limit
  · rw [sweep, hends.passes_enough hroot henough hbudget, hends.result hroot] at h
    simp at h
  · push Not at henough
    rcases henough with ⟨limit, hmax, hshort⟩
    refine ⟨limit, hmax, ?_⟩
    have hpos := hends.pos
    rw [sweep, hmax, hends.passes_short hroot hshort (by omega)] at h
    exact (Except.error.inj h).symm

/-- A listed statement of a tree in shape is in shape. -/
theorem Binding.Listed.inShape {u t : Tree} (h : Listed u t) (ht : t.inShape = true) :
    u.inShape = true := by
  induction h with
  | here _ hlist hu => exact (Tree.inShape_node.1 ((Tree.inShape_node.1 ht).2 _ hlist)).2 u hu
  | inside hc _ _ ih => exact ih ((Tree.inShape_node.1 ht).2 _ hc)

/-- Where a module has no fault, no pass meets one, and neither does the removal inside a pass,
which looks at a statement when the lists inside it are done. -/
theorem no_faults_reaches {root t : Tree} {c : Context} (h : Reaches c root t)
    (hmodule : IsModule root) (hroot : Sweepable root) :
    faults t = [] ∧ ∀ dead u, Listed u t → statementFaults (prune dead u) = [] := by
  have hshape := inShape_of_reaches h hroot.shape
  have hnone := supported_iff_faults.1 (supported_reaches h hroot.shape hroot.supported)
  refine ⟨hnone, fun dead u hu => ?_⟩
  have hlabel : t.label ≠ .module .statements := by
    rcases isModule_reaches h hmodule with ⟨_, _, _, _, _, _, rfl⟩
    simp
  have hlisted : statementFaults u = [] :=
    statementFaults_eq_nil_iff.2 ((faults_eq_nil_iff hshape hlabel).1 hnone u hu)
  -- Pruning the lists inside a statement leaves its targets as they are.
  rw [← troubles_eq_nil_iff, troubles_prune (hu.inShape hshape), troubles_eq_nil_iff]
  exact hlisted

/-! ## Transforms -/

/-- A transform of a module with faults reports the first one and leaves the module as it was. -/
theorem split_of_fault (o : Options) {m : Module} {f : Fault} {fs : List Fault}
    (h : faults m.root = f :: fs) :
    m.root.split o = .error f.error ∧
      Session.run o { module := m } = ({ module := m }, .error f.error) := by
  -- Seeding is the first step and only reads the module.
  have hseed := reports_seed m.root {}
  rw [h] at hseed
  have hrun : Session.run o { module := m } = ({ module := m }, .error f.error) :=
    Session.run_of_seed_error hseed
  rw [Session.split_eq_run, hrun]
  exact ⟨rfl, rfl⟩

/-- A transform of a module without faults fails at the limit only. -/
theorem split_of_no_fault {o : Options} {root : Tree} (hroot : IsProgram root)
    (hsites : (Binding.sites root).Nodup) (hnone : faults root = []) {e : PassError}
    (h : root.split o = .error e) :
    ∃ limit, o.maxPasses = some limit ∧ e = .passLimitExceeded limit := by
  rcases split_eq_error h with hseed | ⟨c, -, hresult⟩
  · rcases (reports_seed root {}).isOk_iff.2 hnone with ⟨c, hok⟩
    simp [hok] at hseed
  · have hsupported := supported_iff_faults.2 hnone
    exact sweep_eq_error (sweepable_resolve hroot hsupported hsites o c) hresult

/-- A transform reports a shape that is not understood if and only if some list that is searched
declares one. It is the first fault, and the module is as it was. In every other case the only error
is that of a limit: neither collecting nor removing meets a fault in any pass. -/
theorem split_errors (o : Options) (m : Module) (hroot : IsProgram m.root)
    (hsites : (Binding.sites m.root).Nodup) :
    ((∃ shape span, m.root.split o = .error (.unsupportedPattern shape span)) ↔
      ∃ t, Listed t m.root ∧ ∃ d ∈ declaratorsOf t, ¬ SupportedTarget (d.child 0)) ∧
    (∀ f fs, faults m.root = f :: fs → m.root.split o = .error f.error ∧
      Session.run o { module := m } = ({ module := m }, .error f.error)) ∧
    (faults m.root = [] →
      (∀ e, m.root.split o = .error e →
        ∃ limit, o.maxPasses = some limit ∧ e = .passLimitExceeded limit) ∧
      ∀ c t, Reaches (resolve o m.root c).2 (resolve o m.root c).1 t →
        faults t = [] ∧ ∀ dead u, Listed u t → statementFaults (prune dead u) = []) := by
  refine ⟨?_, fun f fs => split_of_fault o, fun hnone => ⟨?_, ?_⟩⟩
  · have hlabel : m.root.label ≠ .module .statements := by
      rcases hroot.module with ⟨_, _, _, _, _, _, heq⟩
      simp [heq]
    have hnone := faults_eq_nil_iff hroot.shape hlabel
    constructor
    · rintro ⟨shape, span, he⟩
      by_contra hall
      push Not at hall
      -- Without a fault only the limit is left, and that is another error.
      rcases split_of_no_fault hroot hsites (hnone.2 hall) he with ⟨limit, -, heq⟩
      simp at heq
    · rintro ⟨t, ht, d, hd, hfault⟩
      cases hfaults : faults m.root with
      | nil => exact absurd (hnone.1 hfaults t ht d hd) hfault
      | cons f fs => exact ⟨f.shape, f.span, (split_of_fault o hfaults).1⟩
  · exact fun e he => split_of_no_fault hroot hsites hnone he
  · intro c t hreach
    have hsupported := supported_iff_faults.2 hnone
    exact no_faults_reaches hreach (isModule_withStatements hroot.module _)
      (sweepable_resolve hroot hsupported hsites o c)

/-- A pattern inside a pattern, in a function and behind it:
`function f() { const [[a]] = x; } const { b: { c } } = y;`. -/
def nestedPatterns : Tree :=
  let leaf (label : Label) (start stop : Nat) : Tree := .node label ⟨start, stop⟩ []
  let constant (start stop : Nat) (target : Tree) (value : String) : Tree :=
    .node (.statement (.variableList .constVariable false)) ⟨start, stop⟩
      [.node (.statement (.declarator false)) ⟨start + 6, stop - 1⟩
        [target, .absent, leaf (.expression (.reference value .read)) (stop - 2) (stop - 1)]]
  let property (name : String) (start stop : Nat) (target : Tree) : Tree :=
    .node (.pattern (.property false)) ⟨start, stop⟩
      [leaf (.expression (.name name)) start (start + 1), target]
  .node (.module (.program none false)) ⟨0, 57⟩
    [leaf (.module .prologue) 0 0, .node (.module .statements) ⟨0, 57⟩
      [.node (.function (.function .declaration false {})) ⟨0, 33⟩
        [leaf (.pattern (.binding "f")) 9 10, .absent, leaf (.function .parameters) 10 12, .absent,
          .node (.function .body) ⟨13, 33⟩
            [leaf (.module .prologue) 15 15, .node (.module .statements) ⟨15, 31⟩
              [constant 15 31 (.node (.pattern .array) ⟨21, 26⟩
                [.node (.pattern .array) ⟨22, 25⟩ [leaf (.pattern (.binding "a")) 23 24]]) "x"]]],
        constant 34 57 (.node (.pattern .object) ⟨40, 52⟩
          [property "b" 42 50 (.node (.pattern .object) ⟨45, 50⟩
            [property "c" 47 48 (leaf (.pattern (.binding "c")) 47 48)])]) "y"]]

/-- The pattern behind the function is reported: its list comes before the one inside the
function. -/
theorem split_errors_nestedPatterns :
    IsProgram nestedPatterns ∧ (Binding.sites nestedPatterns).Nodup ∧
      faults nestedPatterns = [⟨"nested object destructuring", ⟨45, 50⟩⟩,
        ⟨"nested array destructuring", ⟨22, 25⟩⟩] ∧
      nestedPatterns.split .server =
        .error (.unsupportedPattern "nested object destructuring" ⟨45, 50⟩) := by
  have hprogram : IsProgram nestedPatterns := ⟨by decide, ⟨_, _, _, _, _, _, rfl⟩, by decide⟩
  have hsites : (Binding.sites nestedPatterns).Nodup := by decide
  rcases split_errors .server ⟨nestedPatterns, [], .ofFilename "a.js"⟩ hprogram hsites with
    ⟨-, hfirst, -⟩
  exact ⟨hprogram, hsites, rfl, (hfirst _ _ rfl).1⟩

/-- The statements of all lists of a tree, of those in types too. -/
def listedAnywhere (root : Tree) : List Tree :=
  gather (fun _ l _ ps => if l = .module .statements then ps else []) {} root

/-- The declaration `const { a: { b } } = x;`. -/
def nestedDeclaration : Tree :=
  let leaf (label : Label) (start stop : Nat) : Tree := .node label ⟨start, stop⟩ []
  let property (name : String) (start stop : Nat) (target : Tree) : Tree :=
    .node (.pattern (.property false)) ⟨start, stop⟩
      [leaf (.expression (.name name)) start (start + 1), target]
  .node (.statement (.variableList .constVariable false)) ⟨26, 49⟩
    [.node (.statement (.declarator false)) ⟨32, 48⟩
      [.node (.pattern .object) ⟨32, 44⟩
        [property "a" 34 42 (.node (.pattern .object) ⟨37, 42⟩
          [property "b" 39 40 (leaf (.pattern (.binding "b")) 39 40)])],
        .absent, leaf (.expression (.reference "x" .read)) 47 48]]

/-- That declaration in the type of what an arrow function gives:
`const f = (): { [(() => { const { a: { b } } = x; })()]: any } => 1;`. -/
def typedArrow : Tree :=
  let leaf (label : Label) (start stop : Nat) : Tree := .node label ⟨start, stop⟩ []
  let inner : Tree :=
    .node (.function (.arrow {})) ⟨18, 51⟩
      [.absent, leaf (.function .parameters) 18 20, .absent,
        .node (.function .body) ⟨24, 51⟩
          [leaf (.module .prologue) 26 26,
            .node (.module .statements) ⟨26, 49⟩ [nestedDeclaration]]]
  let type : Tree :=
    .node (.type .object) ⟨14, 62⟩
      [.node (.type (.property true false false)) ⟨16, 60⟩
        [.node (.expression (.call false false)) ⟨17, 54⟩
          [.node (.expression .paren) ⟨17, 52⟩ [inner], .absent,
            leaf (.expression .arguments) 52 54],
          leaf (.type (.keyword "any")) 57 60]]
  .node (.module (.program none false)) ⟨0, 68⟩
    [leaf (.module .prologue) 0 0, .node (.module .statements) ⟨0, 68⟩
      [.node (.statement (.variableList .constVariable false)) ⟨0, 68⟩
        [.node (.statement (.declarator false)) ⟨6, 67⟩
          [leaf (.pattern (.binding "f")) 6 7, .absent,
            .node (.function (.arrow { isExpression := true })) ⟨10, 67⟩
              [.absent, leaf (.function .parameters) 10 12, type,
                .node (.function .expressionBody) ⟨66, 67⟩
                  [leaf (.expression (.number "1")) 66 67]]]]]]

/-- A function body in the type that stands before `=>` holds a pattern that is not understood, and
the transform works all the same, since the arrow function has an expression for its body. -/
theorem fault_in_type_passed :
    IsProgram typedArrow ∧ (Binding.sites typedArrow).Nodup ∧
      (∃ t ∈ listedAnywhere typedArrow, ∃ d ∈ declaratorsOf t, ¬ SupportedTarget (d.child 0)) ∧
      ∃ r, typedArrow.split {} = .ok (typedArrow, r) := by
  refine ⟨⟨by decide, ⟨_, _, _, _, _, _, rfl⟩, by decide⟩, by decide, ?_, ⟨_, rfl⟩⟩
  refine ⟨nestedDeclaration, by decide, _, List.mem_singleton_self _, ?_⟩
  rw [← targetFaults_eq_nil_iff]
  decide

end RouteSplit
