import RouteSplit.Proofs.Sweep.Deletion
import RouteSplit.Proofs.Transform.Marker

/-!
# A transform only deletes

Of a module's own statements a bundle leaves out exports, and a sweep deletes names from statement
lists. Nothing is moved or changed, and but for the marker nothing is added.

- `ExportLoses`: what is left of an export, if anything, when the bundle leaves out one name;
- `ExportDeletion`: one name goes from the exports of a module;
- `fades_excise`, `exportDeletions_resolve`: resolved exports are such deletions;
- `exportedNames_reaches`: passes leave what each export gives;
- `split_only_deletes`: a transform deletes, and puts in the marker.
-/

namespace RouteSplit

open Relation Scope Sweep Export RouteSplit.Module

/-! ## Exports -/

/-- What is left of an export when one name goes that the bundle does not need: the default goes
from a client's bundle, and the server export from a server's. -/
inductive ExportLoses (o : Options) : Tree → Option Tree → Prop
  | default {s : Span} {ps : List Tree} :
      o.mode = .client → ExportLoses o (.node (.module .exportDefault) s ps) none
  | specifier {typeOnly : Bool} {s inner : Span} {l : Label} {declaration t : Tree}
      {before behind rest : List Tree} {localName exported : ExportName} {asType : Bool} :
      o.mode = .server → t.label = .module (.exportSpecifier localName exported asType) →
      exported.text = o.serverExportName →
      ExportLoses o (.node (.module (.exportNamed typeOnly)) s
          (declaration :: .node l inner (before ++ t :: behind) :: rest))
        (leftOf (fun kept => .node (.module (.exportNamed typeOnly)) s
          (declaration :: .node l inner kept :: rest)) (before ++ behind))
  | function {typeOnly declared : Bool} {s inner : Span} {form : DefinitionForm}
      {traits : FunctionTraits} {id : Tree} {parts rest : List Tree} :
      o.mode = .server → id.label = .pattern (.binding o.serverExportName) →
      ExportLoses o (.node (.module (.exportNamed typeOnly)) s
        (.node (.function (.function form declared traits)) inner (id :: parts) :: rest)) none
  | variable {typeOnly declared : Bool} {s inner : Span} {k : VariableKind} {d : Tree}
      {before behind rest : List Tree} :
      o.mode = .server → (d.child 0).label = .pattern (.binding o.serverExportName) →
      ExportLoses o (.node (.module (.exportNamed typeOnly)) s
          (.node (.statement (.variableList k declared)) inner (before ++ d :: behind) :: rest))
        (leftOf (fun kept => .node (.module (.exportNamed typeOnly)) s
          (.node (.statement (.variableList k declared)) inner kept :: rest)) (before ++ behind))

/-- One name goes from the exports of a module. Everything else is as it was. -/
inductive ExportDeletion (o : Options) : Tree → Tree → Prop
  | statement {line : Option String} {strict : Bool} {s inner : Span} {prologue t : Tree}
      {before behind : List Tree} {left : Option Tree} :
      ExportLoses o t left →
      ExportDeletion o
        (.node (.module (.program line strict)) s
          [prologue, .node (.module .statements) inner (before ++ t :: behind)])
        (.node (.module (.program line strict)) s
          [prologue, .node (.module .statements) inner (before ++ left.toList ++ behind)])

theorem leftOf_map {build : List Tree → Tree} (f : Tree → Tree) (items : List Tree) :
    (leftOf build items).map f = leftOf (fun kept => f (build kept)) items := by
  unfold leftOf
  split_ifs <;> rfl

theorem label_of_plainName {t : Tree} {name : String} (h : plainName t = some name) :
    t.label = .pattern (.binding name) := by
  unfold plainName at h
  split at h
  · rename_i hlabel
    rw [hlabel, Option.some.inj h]
  · simp at h

theorem label_of_specifierExport {t : Tree} {name : String} (h : specifierExport t = some name) :
    ∃ localName exported asType,
      t.label = .module (.exportSpecifier localName exported asType) ∧ exported.text = name := by
  unfold specifierExport at h
  split at h
  · rename_i hlabel
    exact ⟨_, _, _, hlabel, Option.some.inj h⟩
  · simp at h

/-- What is left of exported variables is the declaration of those that stay, if any do. -/
theorem exciseDeclaration_variables {name : String} {k : VariableKind} {e : Bool} {s : Span}
    {ds : List Tree} (hds : ds ≠ []) :
    exciseDeclaration name (.node (.statement (.variableList k e)) s ds) =
      leftOf (.node (.statement (.variableList k e)) s) (keptDeclarators name ds) := by
  rw [exciseDeclaration]
  by_cases hnil : keptDeclarators name ds = []
  · have hlength : 0 ≠ ds.length := (List.length_pos_iff.2 hds).ne
    rw [hnil, if_pos (by simpa using hlength)]
    rfl
  · rw [if_neg (by simp [hnil]), leftOf_of_ne_nil hnil]

/-- What is left of a statement without the server export is what deletions leave. -/
theorem fades_excise {o : Options} (hmode : o.mode = .server) (t : Tree) :
    Fades (ExportLoses o) t (excise o.serverExportName t) := by
  cases exportForm t with
  | @listed b s d sp rest hlisted =>
      rcases sp with ⟨l, inner, ts⟩
      have hexcise : excise o.serverExportName
          (.node (.module (.exportNamed b)) s (d :: .node l inner ts :: rest)) =
          leftOf (fun kept => .node (.module (.exportNamed b)) s (d :: .node l inner kept :: rest))
            (keptSpecifiers o.serverExportName (.node l inner ts)) :=
        excise_listed hlisted
      rw [hexcise]
      refine fades_filter (fun kept => .node (.module (.exportNamed b)) s
        (d :: .node l inner kept :: rest)) ?_ hlisted
      -- A listed name that is filtered out is the server export.
      intro before t behind hname
      rcases label_of_specifierExport (by simpa using hname) with ⟨_, _, _, hlabel, htext⟩
      exact .specifier hmode hlabel htext
  | @declared b s d sp rest hlisted =>
      rw [excise_declared hlisted]
      by_cases hvariables : ∃ k e inner ds, d = .node (.statement (.variableList k e)) inner ds
      · rcases hvariables with ⟨k, e, inner, ds, rfl⟩
        by_cases hds : ds = []
        · -- A declaration that never had variables was not emptied.
          subst hds
          exact .stays
        · rw [exciseDeclaration_variables hds, leftOf_map]
          refine fades_filter (fun kept => .node (.module (.exportNamed b)) s
            (.node (.statement (.variableList k e)) inner kept :: sp :: rest)) ?_ hds
          intro before d behind hname
          exact .variable hmode (label_of_plainName (by simpa using hname))
      · have hexcise : exciseDeclaration o.serverExportName d =
            if isFunctionNamed o.serverExportName d then none else some d := by
          rw [exciseDeclaration]
          exact fun k e inner ds heq => hvariables ⟨k, e, inner, ds, heq⟩
        rw [hexcise, apply_ite (Option.map _), Option.map_none, Option.map_some]
        -- Of all other declarations only a function is judged by its name.
        apply fades_of_ite
        intro hnamed
        unfold isFunctionNamed at hnamed
        split at hnamed
        · exact .function hmode (label_of_plainName (by simpa using hnamed))
        · simp at hnamed
  | other hother =>
      rw [excise_other hother]
      exact .stays

/-- Resolved exports are what deletions leave. -/
theorem exportDeletions_resolve (o : Options) {root : Tree} (hroot : IsModule root) (c : Context) :
    ReflTransGen (ExportDeletion o) root (resolve o root c).1 := by
  rcases hroot with ⟨line, strict, s, prologue, inner, ss, rfl⟩
  -- Both modes treat the statements one by one, so it is enough to say how each fades.
  have hsteps : ∀ keep : Tree → Option Tree, (∀ t ∈ ss, Fades (ExportLoses o) t (keep t)) →
      ReflTransGen (ExportDeletion o)
        (.node (.module (.program line strict)) s
          [prologue, .node (.module .statements) inner ss])
        (.node (.module (.program line strict)) s
          [prologue, .node (.module .statements) inner (ss.filterMap keep)]) := by
    intro keep hkeep
    refine steps_items (fun ts => .node (.module (.program line strict)) s
      [prologue, .node (.module .statements) inner ts]) ?_ hkeep []
    exact fun _ _ _ _ h => .statement h
  have hresolve : (resolve o (.node (.module (.program line strict)) s
      [prologue, .node (.module .statements) inner ss]) c).1 =
      .node (.module (.program line strict)) s
        [prologue, .node (.module .statements) inner (keepStatements o ss)] := rfl
  rw [hresolve, keepStatements]
  cases hmode : o.mode with
  | client =>
      simp only
      rw [← List.filterMap_eq_filter]
      apply hsteps
      intro t _
      cases hdefault : isDefault t with
      | true =>
          rcases t with ⟨l, s, ps⟩
          obtain rfl : l = .module .exportDefault := by simpa [isDefault] using hdefault
          exact .goes (.default hmode)
      | false =>
          have hkept : Option.guard (fun t => !isDefault t) t = some t := by
            simp [Option.guard, hdefault]
          rw [hkept]
          exact .stays
  | server => exact hsteps _ fun t _ => fades_excise hmode t

/-! ## Exported names -/

/-- The exports among a module's own statements. -/
def exportsOf (root : Tree) : List Tree := (statementsOf root).filter fun t => isExport t.label

/-- The names that an export adds to the interface, and all that it gives to other modules. -/
def exportedNames (t : Tree) : List String × List String := (statementNames t, givenNames t)

/-- A removal inside an export leaves the names that it exports. -/
theorem exportedNames_prune {dead : List Binding} {t : Tree} (ht : t.inShape = true) :
    exportedNames (prune dead t) = exportedNames t := by
  rw [exportedNames, exportedNames, statementNames_eq, statementNames_eq, givenNames, givenNames,
    prune_label, exportNames_prune (fun d hd => plainNames_prune hd) ht,
    exportNames_prune (fun d hd => declaredIn_prune hd) ht]

/-- The exports of a module are the names of its export statements, in their order. -/
theorem map_exportsOf (root : Tree) : (exportsOf root).map exportedNames =
    (statementsOf root).flatMap fun t => if isExport t.label then [exportedNames t] else [] := by
  unfold exportsOf
  induction statementsOf root with
  | nil => rfl
  | cons t ts ih =>
      rw [List.flatMap_cons, ← ih]
      cases hexport : isExport t.label <;> simp [hexport]

/-- Passes leave the names of each export as they were. -/
theorem exportedNames_reaches {c : Context} {t t' : Tree} (h : Reaches c t t')
    (hmodule : IsModule t) (hshape : t.inShape = true) :
    (exportsOf t').map exportedNames = (exportsOf t).map exportedNames := by
  rw [map_exportsOf, map_exportsOf]
  refine flatMap_reaches partwise_eq (fun dead u hu => ?_) h hmodule hshape
  refine flatMap_kept_prune (fun x hx => ?_) rfl ?_
  · simp [hx]
  · rw [prune_label, exportedNames_prune hu]

/-! ## Transforms -/

/-- A transform deletes names, first from the exports that the bundle does not need, then from the
statement lists of what is left, and nothing else changes. The sweep leaves the names of each export
as they were. The output is what the sweep leaves, with the marker if that was put in. -/
theorem split_only_deletes (o : Options) {root P : Tree} {r : Report} (hroot : IsProgram root)
    (h : root.split o = .ok (P, r)) :
    ∃ c resolved swept, seed root {} = .ok c ∧ resolved = (resolve o root c).1 ∧
      swept = (sweep o resolved (resolve o root c).2).root ∧
      ReflTransGen (ExportDeletion o) root resolved ∧ ReflTransGen Deletion resolved swept ∧
      (exportsOf swept).map exportedNames = (exportsOf resolved).map exportedNames ∧
      (r.markerInjected = false → P = swept) ∧
      (r.markerInjected = true → ∃ before behind, statementsOf swept = before ++ behind ∧
        P = withStatements swept (before ++ marker o.markerName :: behind)) := by
  rcases split_eq_ok h with ⟨c, hseed, -, c', hdecorate⟩
  have hreach := reaches_sweep o (resolve o root c).1 (resolve o root c).2
  rcases decorate_spec hdecorate with ⟨-, hmarked, hunmarked⟩
  refine ⟨c, _, _, hseed, rfl, rfl, exportDeletions_resolve o hroot.module c,
    deletions_reaches hreach, ?_, hunmarked, ?_⟩
  · exact exportedNames_reaches hreach (isModule_withStatements hroot.module _)
      (inShape_keepStatements hroot)
  · intro hinjected
    rcases hmarked hinjected with ⟨before, given, behind, hfirst, rfl⟩
    exact ⟨before, given :: behind, hfirst.parts, rfl⟩

/-- A module that takes two values and gives one of them as server data:
`const [a, b] = f(); export const routeData = a; export default b;`. -/
def pairModule : Tree :=
  let leaf (label : Label) (start stop : Nat) : Tree := .node label ⟨start, stop⟩ []
  let constant (start stop : Nat) (target value : Tree) : Tree :=
    .node (.statement (.variableList .constVariable false)) ⟨start, stop⟩
      [.node (.statement (.declarator false)) ⟨start + 6, stop - 1⟩ [target, .absent, value]]
  moduleOf 65
    [constant 0 19
        (.node (.pattern .array) ⟨6, 12⟩
          [leaf (.pattern (.binding "a")) 7 8, leaf (.pattern (.binding "b")) 10 11])
        (.node (.expression (.call false false)) ⟨15, 18⟩
          [leaf (.expression (.reference "f" .read)) 15 16, .absent,
            leaf (.expression .arguments) 16 18]),
      .node (.module (.exportNamed false)) ⟨20, 47⟩
        [constant 27 47 (leaf (.pattern (.binding "routeData")) 33 42)
            (leaf (.expression (.reference "a" .read)) 45 46),
          leaf (.module .exportSpecifiers) 47 47, .absent, .absent],
      .node (.module .exportDefault) ⟨48, 65⟩
        [leaf (.expression (.reference "b" .exported)) 63 64]]

/-- The server data goes, then the first value, which leaves a hole. -/
theorem split_only_deletes_pairModule :
    IsProgram pairModule ∧ ∃ P r resolved swept, pairModule.split .server = .ok (P, r) ∧
      ReflTransGen (ExportDeletion .server) pairModule resolved ∧
      ReflTransGen Deletion resolved swept ∧
      (statementsOf resolved).length = 2 ∧
      ((swept.child 1).child 0 |>.child 0 |>.child 0).children =
        [.node (.expression .hole) ⟨7, 7⟩ [], .node (.pattern (.binding "b")) ⟨10, 11⟩ []] := by
  have hprogram : IsProgram pairModule := ⟨by decide, ⟨_, _, _, _, _, _, rfl⟩, by decide⟩
  obtain ⟨c, resolved, swept, hseed, hresolved, hswept, hexports, hnames, -⟩ :=
    split_only_deletes .server hprogram (P := _) (r := _) rfl
  obtain rfl := Except.ok.inj hseed
  subst hresolved hswept
  exact ⟨hprogram, _, _, _, _, rfl, hexports, hnames, by decide, by decide⟩

end RouteSplit
