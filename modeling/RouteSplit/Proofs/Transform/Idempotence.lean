import RouteSplit.Proofs.Sweep.Removal
import RouteSplit.Proofs.Transform.Module
import RouteSplit.Transform

/-!
# A transform done twice

- `seed_spec`: what a seeded context knows;
- `sweep_of_settled`: a sweep with nothing to remove takes one pass;
- `decorate_cases`: a module is left as it is, or the marker is put before its default export;
- `split_split`: a transform of its own output changes nothing.
-/

namespace RouteSplit

open Scope Sweep Export RouteSplit.Module

/-! ## Seeding and sweeping -/

theorem isTracked_track {c : Context} {s site : Span} :
    (c.track s).isTracked site = true ↔ c.isTracked site = true ∨ site = s := by
  unfold Context.track
  split_ifs with hs
  · constructor
    · exact Or.inl
    · rintro (h | rfl)
      · exact h
      · exact hs
  · simp [Context.isTracked]

/-- Tracked are the bindings that were and those that have been added. -/
theorem isTracked_foldl_track {bs : List Binding} {c : Context} {site : Span} :
    (bs.foldl (fun c b => c.track b.site) c).isTracked site = true ↔
      c.isTracked site = true ∨ ∃ b ∈ bs, site = b.site := by
  induction bs generalizing c with
  | nil => simp
  | cons b bs ih =>
      rw [List.foldl_cons, @ih (c.track b.site), isTracked_track]
      simp [or_assoc]

theorem foldl_track_eq (bs : List Binding) (c : Context) :
    bs.foldl (fun c b => c.track b.site) c =
      { c with refs := (bs.foldl (fun c b => c.track b.site) c).refs } := by
  induction bs generalizing c with
  | nil => rfl
  | cons b bs ih =>
      have htrack : c.track b.site = { c with refs := (c.track b.site).refs } := by
        unfold Context.track
        split_ifs <;> rfl
      rw [List.foldl_cons, ih, htrack]

/-- Seeding works on modules that are supported, and tracks what is read. -/
theorem seed_spec {root : Tree} {c : Context} :
    seed root {} = .ok c ↔ ∃ bs, Binding.collect root = .ok bs ∧
      c = (bs.filter (Binding.isReferenced (Binding.readsIn root))).foldl
        (fun c b => c.track b.site) {} := by
  unfold seed
  rw [Binding.bind_eq_ok]
  refine exists_congr fun bs => and_congr_right fun _ => ?_
  constructor
  · intro h
    exact (Except.ok.inj h).symm
  · rintro rfl
    rfl

/-- Seeding only tracks. -/
theorem seed_context {root : Tree} {c : Context} (h : seed root {} = .ok c) :
    c.hasServerExport = false ∧ c.done = false ∧ c.passes = 0 ∧ c.removed = [] := by
  obtain ⟨bs, -, rfl⟩ := seed_spec.1 h
  rw [foldl_track_eq]
  exact ⟨rfl, rfl, rfl, rfl⟩

/-- Right after seeding nothing is dead. -/
theorem deadBindings_seed {root : Tree} {c : Context} (h : seed root {} = .ok c) :
    deadBindings root c = .ok [] := by
  obtain ⟨bs, hbs, rfl⟩ := seed_spec.1 h
  refine deadBindings_eq_ok.2 ⟨bs, hbs, (List.filter_eq_nil_iff.2 ?_).symm⟩
  intro b hb hdead
  simp only [Bool.and_eq_true, Bool.not_eq_true', isTracked_foldl_track, List.mem_filter] at hdead
  obtain ⟨htracked | ⟨b', ⟨hb', hread⟩, hsite⟩, hunread⟩ := hdead
  · simp [Context.isTracked] at htracked
  · obtain rfl := (Binding.collect_spec hbs).1.eq_of_site hb hb' hsite
    rw [hread] at hunread
    simp at hunread

/-- Passes find out nothing about exports. -/
theorem passes_context (max : Option Nat) (budget : Nat) (root : Tree) (c : Context) :
    (passes max budget root c).context.hasServerExport = c.hasServerExport ∧
      (passes max budget root c).context.done = c.done := by
  induction budget generalizing root c with
  | zero => exact ⟨rfl, rfl⟩
  | succ budget ih =>
      rw [passes]
      split
      · exact ⟨rfl, rfl⟩
      · dsimp only
        split
        · exact ⟨rfl, rfl⟩
        · exact ⟨rfl, rfl⟩
        · split_ifs
          · exact ih _ _
          · exact ⟨rfl, rfl⟩

/-- A sweep that ends well was allowed its first pass. -/
theorem atLimit_of_sweep {o : Options} {root : Tree} {c : Context}
    (h : (sweep o root c).result = .ok ()) : atLimit o.maxPasses c.passes = none := by
  rw [sweep, budgetFor, passes] at h
  split at h
  · simp at h
  · assumption

/-- A sweep with nothing to remove takes one pass. -/
theorem sweep_of_settled {o : Options} {root : Tree} {c : Context}
    (hlimit : atLimit o.maxPasses c.passes = none) (h : deadBindings root c = .ok []) :
    sweep o root c = ⟨root, { c with passes := c.passes + 1 }, .ok ()⟩ := by
  have hdead : deadBindings root { c with passes := c.passes + 1 } = .ok [] :=
    (deadBindings_congr rfl root).trans h
  rw [sweep, budgetFor, passes, hlimit]
  simp only [hdead]

/-! ## The marker -/

/-- The marker goes somewhere among the statements. -/
theorem insertBeforeDefault_eq_some {m : Tree} {ss ss' : List Tree}
    (h : insertBeforeDefault m ss = some ss') :
    ∃ pre post, ss = pre ++ post ∧ ss' = pre ++ m :: post := by
  induction ss generalizing ss' with
  | nil => simp [insertBeforeDefault] at h
  | cons t ts ih =>
      rw [insertBeforeDefault] at h
      split_ifs at h with hdefault
      · exact ⟨[], t :: ts, rfl, (Option.some.inj h).symm⟩
      · obtain ⟨ts', hts, rfl⟩ := Option.map_eq_some_iff.1 h
        obtain ⟨pre, post, rfl, rfl⟩ := ih hts
        exact ⟨t :: pre, post, rfl, rfl⟩

theorem understood_marker (name : String) : Understood (marker name) := ⟨rfl, rfl⟩

/-- The marker exports its name. -/
theorem statementNames_marker (name : String) : statementNames (marker name) = [name] := rfl

/-- The marker is no server data, unless it has the name of that. -/
theorem excise_marker {name server : String} (h : name ≠ server) :
    excise server (marker name) = some (marker name) := by
  have hname : ∀ value : Tree, keptDeclarators server
      [.node (.statement (.declarator false)) .empty
        [.node (.pattern (.binding name)) .empty [], .absent, value]] =
      [.node (.statement (.declarator false)) .empty
        [.node (.pattern (.binding name)) .empty [], .absent, value]] := by
    intro value
    simpa [keptDeclarators, Tree.child, plainName] using h
  rw [marker, excise_declared rfl, exciseDeclaration, hname, if_neg (by simp)]
  rfl

/-- A module is not marked if it is marked already, had no server data or has no default export. -/
theorem decorate_of_skipped {o : Options} {root : Tree} {c : Context}
    (h : c.done = true ∨ c.hasServerExport = false ∨
      insertBeforeDefault (marker o.markerName) (statementsOf root) = none) :
    decorate o root c = (root, c, false) := by
  unfold decorate
  rcases h with h | h | h
  · simp [h]
  · simp [h]
  · rw [h]
    simp

/-- A module is left as it is for one of three reasons, or the marker is put in. -/
theorem decorate_cases {o : Options} {root P : Tree} {c c' : Context} {injected : Bool}
    (h : decorate o root c = (P, c', injected)) :
    (P = root ∧ (c.done = true ∨ c.hasServerExport = false ∨
      insertBeforeDefault (marker o.markerName) (statementsOf root) = none)) ∨
    (injected = true ∧ c.done = false ∧ c.hasServerExport = true ∧
      ∃ ss, insertBeforeDefault (marker o.markerName) (statementsOf root) = some ss ∧
        P = withStatements root ss) := by
  unfold decorate at h
  split_ifs at h with hskip
  · obtain ⟨rfl, -⟩ := Prod.mk.inj h
    refine Or.inl ⟨rfl, ?_⟩
    rcases Bool.or_eq_true _ _ ▸ hskip with hdone | hserver
    · exact Or.inl hdone
    · exact Or.inr (Or.inl (by simpa using hserver))
  · split at h
    · rename_i hnone
      exact Or.inl ⟨(Prod.mk.inj h).1.symm, Or.inr (Or.inr hnone)⟩
    · rename_i ss hsome
      obtain ⟨hroot, -, hinjected⟩ := Prod.mk.inj h |>.imp_right Prod.mk.inj
      exact Or.inr ⟨hinjected.symm, by simp_all, by simp_all, ss, hsome, hroot.symm⟩

/-- The marker is not put down, and no pass is taken for it. -/
theorem decorate_record {o : Options} {root P : Tree} {c c' : Context} {injected : Bool}
    (h : decorate o root c = (P, c', injected)) :
    c'.passes = c.passes ∧ c'.removed = c.removed := by
  unfold decorate at h
  split_ifs at h
  · obtain ⟨-, rfl, -⟩ := h
    exact ⟨rfl, rfl⟩
  · split at h
    · obtain ⟨-, rfl, -⟩ := h
      exact ⟨rfl, rfl⟩
    · obtain ⟨-, rfl, -⟩ := h
      exact ⟨rfl, rfl⟩

/-! ## Transforms -/

/-- A module counts as marked if one of its statements exports the name of the marker. -/
theorem observe_done {o : Options} {ss : List Tree} {c : Context} (hc : c.done = false) :
    (observe o ss c).done = true ↔ o.markerName ∈ ss.flatMap statementNames := by
  rw [← flatMap_names_records]
  simp [observe, hc, Options.isMarker]

/-- A module counts as having server data if one of its statements exports that name. -/
theorem observe_hasServerExport {o : Options} {ss : List Tree} {c : Context}
    (hc : c.hasServerExport = false) :
    (observe o ss c).hasServerExport = true ↔ o.serverExportName ∈ ss.flatMap statementNames := by
  rw [← flatMap_names_records]
  simp [observe, hc, Options.isServerExport]

/-- What a transform that succeeds does. -/
theorem split_eq_ok {o : Options} {root P : Tree} {r : Report} (h : root.split o = .ok (P, r)) :
    ∃ c, seed root {} = .ok c ∧
      (sweep o (resolve o root c).1 (resolve o root c).2).result = .ok () ∧
      ∃ c', decorate o (sweep o (resolve o root c).1 (resolve o root c).2).root
        (sweep o (resolve o root c).1 (resolve o root c).2).context = (P, c', r.markerInjected) := by
  unfold Tree.split at h
  obtain ⟨c, hseed, h⟩ := Binding.bind_eq_ok.1 h
  obtain ⟨_, hswept, h⟩ := Binding.bind_eq_ok.1 h
  obtain ⟨rfl, rfl⟩ := Prod.mk.inj (Except.ok.inj h)
  exact ⟨c, hseed, hswept, _, rfl⟩

/-- A transform whose exports all stay only has the marker to decide about. -/
theorem split_of_unchanged {o : Options} {root P : Tree} {c c' : Context} {injected : Bool}
    (hseed : seed root {} = .ok c) (hresolve : (resolve o root c).1 = root)
    (hlimit : atLimit o.maxPasses 0 = none)
    (hdecorate : decorate o root { observe o (statementsOf root) c with passes := 1 } =
      (P, c', injected)) :
    root.split o = .ok (P, ⟨c'.hasServerExport, injected, c'.passes, c'.removed⟩) := by
  have hpasses : (observe o (statementsOf root) c).passes = 0 := (seed_context hseed).2.2.1
  have hresolved : resolve o root c = (root, observe o (statementsOf root) c) :=
    Prod.ext hresolve rfl
  have hrefs : (observe o (statementsOf root) c).refs = c.refs := rfl
  have hdead : deadBindings root (observe o (statementsOf root) c) = .ok [] :=
    (deadBindings_congr hrefs root).trans (deadBindings_seed hseed)
  have hsweep := sweep_of_settled (o := o) (hpasses.symm ▸ hlimit) hdead
  rw [hpasses] at hsweep
  simp only [Tree.split, hseed, hresolved, hsweep, hdecorate, bind, Except.bind, pure, Except.pure]

/-- A transform that finds nothing to do. -/
theorem split_of_settled {o : Options} {P : Tree} {c : Context} (hmodule : IsModule P)
    (hseed : seed P {} = .ok c) (hsettled : ∀ t ∈ statementsOf P, Settled o t)
    (hlimit : atLimit o.maxPasses 0 = none)
    (hmarker : o.markerName ∈ (statementsOf P).flatMap statementNames ∨
      o.serverExportName ∉ (statementsOf P).flatMap statementNames ∨
      insertBeforeDefault (marker o.markerName) (statementsOf P) = none) :
    ∃ r, P.split o = .ok (P, r) ∧ r.removed = [] ∧ r.passes = 1 ∧ r.markerInjected = false := by
  obtain ⟨hserver, hdone, -, hremoved⟩ := seed_context hseed
  have hresolve : (resolve o P c).1 = P := by
    rw [resolve, keepStatements_eq_self hsettled, withStatements_statementsOf hmodule]
  have hskipped : (observe o (statementsOf P) c).done = true ∨
      (observe o (statementsOf P) c).hasServerExport = false ∨
      insertBeforeDefault (marker o.markerName) (statementsOf P) = none := by
    refine hmarker.imp (observe_done hdone).2 (Or.imp_left fun h => ?_)
    rw [← Bool.not_eq_true, observe_hasServerExport hserver]
    exact h
  have hdecorate := decorate_of_skipped
    (c := { observe o (statementsOf P) c with passes := 1 }) hskipped
  exact ⟨_, split_of_unchanged hseed hresolve hlimit hdecorate, hremoved, rfl, rfl⟩

/-- The tree of a module as it is written down: every node has the parts that its kind has, and an
export gives a declaration or lists names, and not both. -/
structure IsProgram (root : Tree) : Prop where
  shape : root.inShape = true
  module : IsModule root
  exports : ∀ t ∈ statementsOf root, exportFits t = true

/-- All targets in the statements that a bundle keeps are understood. -/
theorem understood_keepStatements {o : Options} {root : Tree} (h : IsModule root)
    (hroot : Binding.Supported root) :
    ∀ t ∈ keepStatements o (statementsOf root), Understood t := by
  intro u hu
  obtain ⟨-, t, ht, rfl | hex⟩ := settled_keepStatements hu
  · exact understood_of_supported h hroot ht
  · obtain ⟨htroubles, hinner⟩ := understood_of_supported h hroot ht
    refine ⟨?_, List.subset_nil.1 (hinner ▸ excise_troubles hex)⟩
    rcases excise_cases hex with rfl | ⟨_, _, _, _, _, -, -, rfl⟩ | ⟨_, _, _, _, _, _, _, _, -, -, rfl⟩
    · exact htroubles
    · rfl
    · rfl

/-- The bundle exports no name that the module did not. -/
theorem mem_names_of_keepStatements {o : Options} {ss : List Tree} {m : String}
    (hm : m ∈ (keepStatements o ss).flatMap statementNames) : m ∈ ss.flatMap statementNames := by
  obtain ⟨u, hu, hm⟩ := List.mem_flatMap.1 hm
  obtain ⟨-, t, ht, rfl | hex⟩ := settled_keepStatements hu
  · exact List.mem_flatMap.2 ⟨u, ht, hm⟩
  · exact List.mem_flatMap.2 ⟨t, ht, mem_names_of_excise hex hm⟩

/-- The bundle exports all names of the module besides the server export. -/
theorem mem_names_keepStatements {o : Options} {ss : List Tree} {m : String}
    (hfits : ∀ t ∈ ss, exportFits t = true) (hne : m ≠ o.serverExportName)
    (hm : m ∈ ss.flatMap statementNames) : m ∈ (keepStatements o ss).flatMap statementNames := by
  obtain ⟨t, ht, hm⟩ := List.mem_flatMap.1 hm
  unfold keepStatements
  cases o.mode with
  | client =>
      refine List.mem_flatMap.2 ⟨t, List.mem_filter.2 ⟨ht, ?_⟩, hm⟩
      -- The default export has no name.
      obtain ⟨l, s, ps⟩ := t
      simp only [isDefault, Bool.not_eq_true', Tree.label_node, beq_eq_false_iff_ne]
      rintro rfl
      simp [statementNames, Record.classify, Record.names] at hm
  | server =>
      obtain ⟨u, hex, hm⟩ := mem_names_excise hne (hfits t ht) hm
      exact List.mem_flatMap.2 ⟨u, List.mem_filterMap.2 ⟨t, ht, hex⟩, hm⟩

/-- The module that a bundle keeps is still in shape. -/
theorem inShape_keepStatements {o : Options} {root : Tree} (h : IsProgram root) :
    (withStatements root (keepStatements o (statementsOf root))).inShape = true := by
  refine inShape_withStatements h.module h.shape fun u hu => ?_
  obtain ⟨-, t, ht, rfl | hex⟩ := settled_keepStatements hu
  · exact ⟨inShape_statement h.module h.shape ht, u, ht, rfl⟩
  · exact ⟨inShape_excise (inShape_statement h.module h.shape ht) hex, t, ht, excise_label hex⟩

/-- What resolved exports and a sweep leave of a module. -/
structure Leftover (o : Options) (root swept : Tree) : Prop where
  module : IsModule swept
  supported : Binding.Supported swept
  settled : ∀ t ∈ statementsOf swept, Settled o t
  names : (statementsOf swept).flatMap statementNames =
    (keepStatements o (statementsOf root)).flatMap statementNames

/-- What a sweep leaves of a bundle has nothing more to lose to the bundle. -/
theorem leftover_sweep (o : Options) {root : Tree} (hroot : IsProgram root)
    (hsupported : Binding.Supported root) (c : Context) :
    Leftover o root (sweep o (resolve o root c).1 (resolve o root c).2).root := by
  have hreach := reaches_sweep o (resolve o root c).1 (resolve o root c).2
  have hmodule : IsModule (resolve o root c).1 := isModule_withStatements hroot.module _
  have hshape : (resolve o root c).1.inShape = true := inShape_keepStatements hroot
  have hkept : Binding.Supported (resolve o root c).1 :=
    supported_withStatements hroot.module hsupported
      (understood_keepStatements hroot.module hsupported)
  have hstatements : statementsOf (resolve o root c).1 = keepStatements o (statementsOf root) :=
    statementsOf_withStatements hroot.module _
  refine ⟨isModule_reaches hreach hmodule, supported_reaches hreach hshape hkept, ?_, ?_⟩
  · refine settled_reaches hreach hmodule hshape fun t ht => ?_
    rw [hstatements] at ht
    exact (settled_keepStatements ht).1
  · rw [names_reaches hreach hmodule hshape, hstatements]

/-- The marker has nothing to lose to a bundle. -/
theorem settled_marker {o : Options} (h : o.markerName ≠ o.serverExportName) :
    Settled o (marker o.markerName) := by
  unfold Settled
  cases o.mode with
  | client => rfl
  | server => exact excise_marker h

/-- Seeding works where all targets are understood. -/
theorem exists_seed {root : Tree} (h : Binding.Supported root) : ∃ c, seed root {} = .ok c := by
  obtain ⟨bs, hbs⟩ := Binding.collect_isOk_iff.2 h
  exact ⟨_, seed_spec.2 ⟨bs, hbs, rfl⟩⟩

/-- A transform finds nothing to do where it put the marker before. -/
theorem split_of_marked {o : Options} {root swept : Tree} {ss : List Tree}
    (hleft : Leftover o root swept) (hne : o.markerName ≠ o.serverExportName)
    (hlimit : atLimit o.maxPasses 0 = none)
    (hinsert : insertBeforeDefault (marker o.markerName) (statementsOf swept) = some ss) :
    ∃ r, (withStatements swept ss).split o = .ok (withStatements swept ss, r) ∧
      r.removed = [] ∧ r.passes = 1 ∧ r.markerInjected = false := by
  obtain ⟨pre, post, hpre, rfl⟩ := insertBeforeDefault_eq_some hinsert
  have hmem : ∀ t ∈ pre ++ marker o.markerName :: post,
      t = marker o.markerName ∨ t ∈ statementsOf swept := by
    intro t ht
    rw [hpre]
    simp only [List.mem_append, List.mem_cons] at ht ⊢
    tauto
  have hsupported := supported_withStatements hleft.module hleft.supported fun t ht =>
    (hmem t ht).elim (fun h => h ▸ understood_marker _)
      (understood_of_supported hleft.module hleft.supported)
  obtain ⟨c, hseed⟩ := exists_seed hsupported
  refine split_of_settled (isModule_withStatements hleft.module _) hseed ?_ hlimit (Or.inl ?_)
  · rw [statementsOf_withStatements hleft.module]
    exact fun t ht => (hmem t ht).elim (fun h => h ▸ settled_marker hne) (hleft.settled t)
  · rw [statementsOf_withStatements hleft.module]
    exact List.mem_flatMap.2 ⟨marker o.markerName, by simp, by simp [statementNames_marker]⟩

/-- A transform of its own output changes nothing: it keeps the tree, removes no binding, takes one
pass and puts in no marker. -/
theorem split_split (o : Options) {root P : Tree} {r : Report} (hroot : IsProgram root)
    (h : root.split o = .ok (P, r)) :
    ∃ r', P.split o = .ok (P, r') ∧ r'.removed = [] ∧ r'.passes = 1 ∧ r'.markerInjected = false := by
  obtain ⟨c, hseed, hok, c', hdecorate⟩ := split_eq_ok h
  obtain ⟨hserver, hdone, hpasses, -⟩ := seed_context hseed
  obtain ⟨bs, hbs, -⟩ := seed_spec.1 hseed
  have hleft := leftover_sweep o hroot (Binding.collect_isOk_iff.1 ⟨bs, hbs⟩) c
  have hcontext := passes_context o.maxPasses (budgetFor (resolve o root c).1)
    (resolve o root c).1 (resolve o root c).2
  have hmarked : (sweep o (resolve o root c).1 (resolve o root c).2).context.done = true ↔
      o.markerName ∈ (statementsOf root).flatMap statementNames :=
    hcontext.2 ▸ observe_done hdone
  have hserves : (sweep o (resolve o root c).1 (resolve o root c).2).context.hasServerExport = true ↔
      o.serverExportName ∈ (statementsOf root).flatMap statementNames :=
    hcontext.1 ▸ observe_hasServerExport hserver
  have hfirst : (resolve o root c).2.passes = 0 := hpasses
  have hlimit : atLimit o.maxPasses 0 = none := hfirst ▸ atLimit_of_sweep hok
  generalize sweep o (resolve o root c).1 (resolve o root c).2 = swept at *
  rcases decorate_cases hdecorate with ⟨rfl, hskip⟩ | ⟨-, hunmarked, hexported, ss, hinsert, rfl⟩
  · obtain ⟨c, hseed⟩ := exists_seed hleft.supported
    refine split_of_settled hleft.module hseed hleft.settled hlimit ?_
    rw [hleft.names]
    rcases hskip with hskip | hskip | hskip
    · by_cases hsame : o.markerName = o.serverExportName
      · rw [hsame]
        exact or_iff_not_imp_left.2 Or.inl
      · exact Or.inl (mem_names_keepStatements hroot.exports hsame (hmarked.1 hskip))
    · refine Or.inr (Or.inl fun hm => ?_)
      simpa [hskip] using hserves.2 (mem_names_of_keepStatements hm)
    · exact Or.inr (Or.inr hskip)
  · refine split_of_marked hleft (fun hsame => ?_) hlimit hinsert
    -- A marker with the server export's name is found wherever that is.
    have hfound := hmarked.2 (hsame ▸ hserves.1 hexported)
    simp [hunmarked] at hfound

/-- A module whose server data reads a constant: `const secret = 1; export const routeData = secret;
export default 2;`. -/
def dataModule : Tree :=
  let leaf (label : Label) (start stop : Nat) : Tree := .node label ⟨start, stop⟩ []
  let constant (span inner : Span) (parts : List Tree) : Tree :=
    .node (.statement (.variableList .constVariable false)) span
      [.node (.statement (.declarator false)) inner parts]
  .node (.module (.program none true)) ⟨0, 69⟩
    [leaf (.module .prologue) 0 0, .node (.module .statements) ⟨0, 68⟩
      [constant ⟨0, 17⟩ ⟨6, 16⟩
          [leaf (.pattern (.binding "secret")) 6 12, .absent, leaf (.expression (.number "1")) 15 16],
        .node (.module (.exportNamed false)) ⟨18, 50⟩
          [constant ⟨25, 50⟩ ⟨31, 49⟩
            [leaf (.pattern (.binding "routeData")) 31 40, .absent,
              leaf (.expression (.reference "secret" .read)) 43 49],
            leaf (.module .exportSpecifiers) 50 50, .absent, .absent],
        .node (.module .exportDefault) ⟨51, 68⟩ [leaf (.expression (.number "2")) 66 67]]]

/-- The first transform removes the constant and puts in the marker, the second one does nothing. -/
theorem split_split_dataModule :
    IsProgram dataModule ∧ ∃ P r, dataModule.split .server = .ok (P, r) ∧
      r.removed = [⟨"secret", .variable⟩] ∧ r.markerInjected = true ∧
      ∃ r', P.split .server = .ok (P, r') ∧ r'.removed = [] ∧ r'.passes = 1 ∧
        r'.markerInjected = false := by
  have hprogram : IsProgram dataModule := ⟨by decide, ⟨_, _, _, _, _, _, rfl⟩, by decide⟩
  exact ⟨hprogram, _, _, rfl, rfl, rfl, split_split .server hprogram rfl⟩

end RouteSplit
