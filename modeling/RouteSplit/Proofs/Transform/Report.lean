import RouteSplit.Proofs.Export.Gone
import RouteSplit.Proofs.Sweep.Log
import RouteSplit.Proofs.Transform.Errors
import RouteSplit.Proofs.Transform.Marker

/-!
# What a transform reports

- `split_untouched`: nothing is removed from a module whose exports all stay;
- `exists_binding_of_logged`: an entry of the log belongs to a binding of the module;
- `report_truthful`: what was removed, and what else went.
-/

namespace RouteSplit

open Scope Sweep Export RouteSplit.Module

/-! ## Modules whose exports all stay -/

/-- Where all exports stay, a transform succeeds and sweeps nothing: what is tracked is read, and
was so before. It takes one pass, and the output is the module as it was, apart from the marker. -/
theorem split_untouched (o : Options) {root : Tree} (hroot : IsModule root)
    (hsupported : Binding.Supported root) (hlimit : o.maxPasses ≠ some 0)
    (hunchanged : (resolve o root {}).1 = root) :
    ∃ P r, root.split o = .ok (P, r) ∧ r.removed = [] ∧ r.passes = 1 ∧
      (r.markerInjected = false → P = root) ∧
      (r.markerInjected = true → ∃ before given behind,
        FirstDefault (statementsOf root) before given behind ∧
        statementsOf P = before ++ marker o.markerName :: given :: behind ∧
        P = withStatements root (statementsOf P)) := by
  rcases exists_seed hsupported with ⟨c, hseed⟩
  have hfirst : atLimit o.maxPasses 0 = none := by
    apply atLimit_eq_none
    intro limit heq
    exact Nat.pos_of_ne_zero fun hzero => hlimit (hzero ▸ heq)
  rcases hdecorate : decorate o root { observe o (statementsOf root) c with passes := 1 } with
    ⟨P, c', injected⟩
  rcases decorate_record hdecorate with ⟨hpasses, hremoved⟩
  rcases decorate_spec hdecorate with ⟨-, hmarked, hunmarked⟩
  refine ⟨P, _, split_of_unchanged hseed hunchanged hfirst hdecorate, ?_, hpasses, hunmarked, ?_⟩
  · exact hremoved.trans (seed_context hseed).2.2.2
  · intro hinjected
    rcases hmarked hinjected with ⟨before, given, behind, hdefault, rfl⟩
    rw [statementsOf_withStatements hroot]
    exact ⟨before, given, behind, hdefault, rfl, rfl⟩

/-- A constant that an inner name shadows, a function that only calls itself, a variable that is
only written, and server data that is a class: `const x = 1; function f() { let x; x = 2; f(); }
export class routeData {} export default 3;`. -/
def idleModule : Tree :=
  let leaf (label : Label) (start stop : Nat) : Tree := .node label ⟨start, stop⟩ []
  let declare (kind : VariableKind) (span inner : Span) (value : Tree) : Tree :=
    .node (.statement (.variableList kind false)) span
      [.node (.statement (.declarator false)) inner
        [leaf (.pattern (.binding "x")) inner.start (inner.start + 1), .absent, value]]
  let assignment : Tree :=
    .node (.statement .expression) ⟨35, 41⟩
      [.node (.expression (.assign "=")) ⟨35, 40⟩
        [leaf (.expression (.reference "x" .write)) 35 36, leaf (.expression (.number "2")) 39 40]]
  let function : Tree :=
    .node (.function (.function .declaration false {})) ⟨13, 48⟩
      [leaf (.pattern (.binding "f")) 22 23, .absent, leaf (.function .parameters) 23 25, .absent,
        .node (.function .body) ⟨26, 48⟩
          [leaf (.module .prologue) 28 28,
            .node (.module .statements) ⟨28, 46⟩
              [declare .letVariable ⟨28, 34⟩ ⟨32, 33⟩ .absent, assignment, callOf "f" 42 43]]]
  let data : Tree :=
    .node (.classes (.definition .declaration false false)) ⟨56, 74⟩
      [leaf (.classes .decorators) 56 56, leaf (.pattern (.binding "routeData")) 62 71, .absent,
        .absent, .absent, leaf (.classes .implemented) 72 71, leaf (.classes .body) 72 74]
  moduleOf 92
    [declare .constVariable ⟨0, 12⟩ ⟨6, 11⟩ (leaf (.expression (.number "1")) 10 11), function,
      .node (.module (.exportNamed false)) ⟨49, 74⟩
        [data, leaf (.module .exportSpecifiers) 74 74, .absent, .absent],
      defaultNumber 75 "3"]

/-- Nothing goes although nothing in the module is read. The transform adds the marker, because the
class has the name of server data. -/
theorem split_untouched_idleModule :
    IsModule idleModule ∧ Binding.Supported idleModule ∧
      (resolve .server idleModule {}).1 = idleModule ∧
      ∃ P r, idleModule.split .server = .ok (P, r) ∧ r.removed = [] ∧ r.passes = 1 ∧
        ∃ before given behind, FirstDefault (statementsOf idleModule) before given behind ∧
          statementsOf P = before ++ marker "__has_server" :: given :: behind := by
  have hmodule : IsModule idleModule := ⟨_, _, _, _, _, _, rfl⟩
  have hsupported : Binding.Supported idleModule := rfl
  have hunchanged : (resolve .server idleModule {}).1 = idleModule := by decide
  rcases split_untouched .server hmodule hsupported (by decide) hunchanged with
    ⟨P, r, hsplit, hremoved, hpasses, -, hmarked⟩
  have hinjected : r.markerInjected = true := by
    have hrun : idleModule.split .server = .ok (_, ⟨true, true, 1, []⟩) := rfl
    rcases Prod.mk.inj (Except.ok.inj (hrun.symm.trans hsplit)) with ⟨-, rfl⟩
    rfl
  rcases hmarked hinjected with ⟨before, given, behind, hfirst, hstatements, -⟩
  exact ⟨hmodule, hsupported, hunchanged, P, r, hsplit, hremoved, hpasses, before, given, behind,
    hfirst, hstatements⟩

/-! ## Names through the phases -/

/-- The names of a module are those of the bundle and those in the code that it leaves out. -/
theorem parted_sites_resolve {root : Tree} (hmodule : IsModule root)
    (hlists : ∀ t ∈ statementsOf root, listFits t = true) (o : Options) (c : Context) :
    Parted (Binding.sites root) (Binding.sites (resolve o root c).1)
      ((goneCode o (statementsOf root)).flatMap Binding.sites) := by
  have hparts := parted_lists_resolve (f := Binding.statementSites)
    (fun t ht => (inert_of_export ht).statementSites) hmodule hlists o c
  have hsites : Binding.sites = gather siteRule {} := funext sites_eq_gather
  rw [hsites]
  exact hparts

/-- The marker goes by no name. -/
theorem sites_decorate {o : Options} {root P : Tree} {c c' : Context} {injected : Bool}
    (hmodule : IsModule root) (h : decorate o root c = (P, c', injected)) :
    Binding.sites P = Binding.sites root := by
  rcases decorate_cases h with ⟨rfl, -⟩ | ⟨-, -, -, ss, hinsert, rfl⟩
  · rfl
  · rcases insertBeforeDefault_eq_some hinsert with ⟨front, back, hstatements, rfl⟩
    rcases gather_lists_module (f := Binding.statementSites) hmodule with ⟨head, hhead⟩
    have hroot := hhead (statementsOf root)
    rw [withStatements_statementsOf hmodule, hstatements] at hroot
    have hmarker : gather siteRule {} (marker o.markerName) = [] := by
      rw [← sites_eq_gather]
      rfl
    have hown : Binding.statementSites (marker o.markerName) = [] := rfl
    rw [sites_eq_gather, sites_eq_gather, hroot, hhead]
    simp only [List.flatMap_append, List.flatMap_cons, hown, hmarker, List.nil_append]

/-- A transform reports what its sweep has removed. -/
theorem removed_of_split {o : Options} {root P : Tree} {r : Report} {c : Context}
    (h : root.split o = .ok (P, r)) (hseed : seed root {} = .ok c) :
    r.removed = (sweep o (resolve o root c).1 (resolve o root c).2).context.removed := by
  unfold Tree.split at h
  rcases Binding.bind_eq_ok.1 h with ⟨c', hseed', h⟩
  obtain rfl := Except.ok.inj (hseed.symm.trans hseed')
  rcases Binding.bind_eq_ok.1 h with ⟨_, _, h⟩
  rcases Prod.mk.inj (Except.ok.inj h) with ⟨-, rfl⟩
  exact (decorate_record rfl).2

/-! ## The log -/

/-- What is tracked first are the bindings that something outside them reads. -/
theorem exists_of_tracked {root : Tree} {c : Context} {bs : List Binding}
    (hseed : seed root {} = .ok c) (hbs : Binding.collect root = .ok bs) {s : Span}
    (hs : c.isTracked s = true) :
    ∃ b ∈ bs, Binding.isReferenced (Binding.readsIn root) b = true ∧ b.site = s := by
  rcases seed_spec.1 hseed with ⟨bs', hbs', rfl⟩
  obtain rfl := Except.ok.inj (hbs.symm.trans hbs')
  rcases isTracked_foldl_track.1 hs with hnone | ⟨b, hb, rfl⟩
  · simp [Context.isTracked] at hnone
  · rcases List.mem_filter.1 hb with ⟨hmem, hread⟩
    exact ⟨b, hmem, hread, rfl⟩

/-- An entry of a log belongs to a binding of the module, one that was read when the module was first
seen. -/
theorem exists_binding_of_logged {o : Options} {root final : Tree} {c : Context}
    {bs : List Binding} {log : List (Span × Removed)} (hroot : Sweepable root)
    (hmodule : IsModule root) (hlists : ∀ t ∈ statementsOf root, listFits t = true)
    (hseed : seed root {} = .ok c) (hbs : Binding.collect root = .ok bs)
    (h : Logged (resolve o root c).2 (resolve o root c).1 final log) {x : Span × Removed}
    (hx : x ∈ log) :
    ∃ b, (b ∈ bs ∧ Binding.isReferenced (Binding.readsIn root) b = true) ∧
      (b.site, entryOf b) = x := by
  rcases exists_of_tracked hseed hbs (h.tracked x hx) with ⟨b, hb, hread, hsite⟩
  have hparts := parted_lists_resolve (f := statementEntries)
    (fun t ht => (inert_of_export ht).statementEntries) hmodule hlists o c
  have hentry : (b.site, x.2) ∈ entries root := by
    rw [hsite]
    exact hparts.1.subset (h.entered hx)
  have heq := entry_unique hroot (entry_of_binding hbs hb) hentry
  exact ⟨b, ⟨hb, hread⟩, Prod.ext hsite heq⟩

theorem exists_map_eq {α β : Type} {p : α → Prop} {f : α → β} {ys : List β}
    (h : ∀ y ∈ ys, ∃ x, p x ∧ f x = y) : ∃ xs : List α, (∀ x ∈ xs, p x) ∧ xs.map f = ys := by
  induction ys with
  | nil => exact ⟨[], by simp, rfl⟩
  | cons y ys ih =>
      rcases h y List.mem_cons_self with ⟨x, hx, rfl⟩
      rcases ih fun z hz => h z (List.mem_cons_of_mem _ hz) with ⟨xs, hxs, rfl⟩
      exact ⟨x :: xs, List.forall_mem_cons.2 ⟨hx, hxs⟩, rfl⟩

/-- The report is truthful. Its entries are those of different bindings of the module, which were
read outside their own code and whose names are gone. Any other such binding whose name is gone stood
in code that went with names of the report, or in code that the bundle leaves out. -/
theorem report_truthful (o : Options) {root P : Tree} {r : Report} (hroot : IsProgram root)
    (hlists : ∀ t ∈ statementsOf root, listFits t = true) (hsites : (Binding.sites root).Nodup)
    (h : root.split o = .ok (P, r)) :
    ∃ c bs logged, seed root {} = .ok c ∧ Binding.collect root = .ok bs ∧ logged ⊆ bs ∧
      r.removed = logged.map entryOf ∧ (logged.map (·.site)).Nodup ∧
      (∀ b ∈ logged, Binding.isReferenced (Binding.readsIn root) b = true ∧
        b.site ∉ Binding.sites P) ∧
      ∀ b ∈ bs, Binding.isReferenced (Binding.readsIn root) b = true →
        b.site ∉ Binding.sites P →
        b ∈ logged ∨
        TakenAlong (resolve o root c).2 (resolve o root c).1 (logged.map (·.site)) b.site ∨
        ∃ x ∈ goneCode o (statementsOf root), b.site ∈ Binding.sites x := by
  rcases split_eq_ok h with ⟨c, hseed, hok, c', hdecorate⟩
  rcases seed_spec.1 hseed with ⟨bs, hbs, -⟩
  have hsupported : Binding.Supported root := Binding.collect_isOk_iff.1 ⟨bs, hbs⟩
  have hresolved := sweepable_resolve hroot hsupported hsites o c
  rcases logged_sweep hresolved hok with ⟨log, hremoved, hlog⟩
  have hfinal : Binding.sites P =
      Binding.sites (sweep o (resolve o root c).1 (resolve o root c).2).root := by
    refine sites_decorate ?_ hdecorate
    exact isModule_reaches (reaches_sweep o _ _) (isModule_withStatements hroot.module _)
  -- Each entry of the log belongs to a binding of the module, so the log is a list of bindings.
  rcases exists_map_eq fun x hx => exists_binding_of_logged ⟨hroot.shape, hsupported, hsites⟩
    hroot.module hlists hseed hbs hlog hx with ⟨logged, hlogged, rfl⟩
  have hnames : (logged.map fun b => (b.site, entryOf b)).map Prod.fst = logged.map (·.site) := by
    rw [List.map_map]
    rfl
  refine ⟨c, bs, logged, hseed, hbs, fun b hb => (hlogged b hb).1, ?_, ?_, ?_, ?_⟩
  · have hnone : (resolve o root c).2.removed = [] := (seed_context hseed).2.2.2
    rw [removed_of_split h hseed, hremoved, hnone, List.nil_append, List.map_map]
    rfl
  · exact hnames ▸ hlog.nodup
  · intro b hb
    refine ⟨(hlogged b hb).2, ?_⟩
    rw [hfinal]
    exact hlog.gone (b.site, entryOf b) (List.mem_map.2 ⟨b, hb, rfl⟩)
  · intro b hb hread hgone
    rw [hfinal] at hgone
    have hsite : b.site ∈ Binding.sites root :=
      site_of_entry hsupported (entry_of_binding hbs hb)
    -- A name of the module was left out with an export, or the sweep took it: by itself or with
    -- code around it.
    rcases (parted_sites_resolve hroot.module hlists o c).mem_or hsite with hkept | hleft
    · rcases hlog.complete b.site hkept hgone with hmem | halong
      · rw [hnames] at hmem
        rcases List.mem_map.1 hmem with ⟨b', hb', hsame⟩
        obtain rfl := (Binding.collect_spec hbs).1.eq_of_site (hlogged b' hb').1 hb hsame
        exact Or.inl hb'
      · exact Or.inr (Or.inl (hnames ▸ halong))
    · exact Or.inr (Or.inr (List.mem_flatMap.1 hleft))

/-- Server data that calls a function, which reads a constant of its own and one of the module:
`const key = 1; function load() { const part = 2; return part + key; } export const routeData =
() => { const data = load(); return data; };`. -/
def loaderModule : Tree :=
  let leaf (label : Label) (start stop : Nat) : Tree := .node label ⟨start, stop⟩ []
  let read (name : String) (start stop : Nat) : Tree :=
    leaf (.expression (.reference name .read)) start stop
  let constant (span inner name : Span) (text : String) (value : Tree) : Tree :=
    .node (.statement (.variableList .constVariable false)) span
      [.node (.statement (.declarator false)) inner
        [.node (.pattern (.binding text)) name [], .absent, value]]
  let body (span inner : Span) (statements : List Tree) : Tree :=
    .node (.function .body) span
      [leaf (.module .prologue) inner.start inner.start,
        .node (.module .statements) inner statements]
  let sum : Tree := .node (.expression (.binary "+")) ⟨56, 66⟩ [read "part" 56 60, read "key" 63 66]
  let load : Tree :=
    .node (.function (.function .declaration false {})) ⟨15, 69⟩
      [leaf (.pattern (.binding "load")) 24 28, .absent, leaf (.function .parameters) 28 30, .absent,
        body ⟨31, 69⟩ ⟨33, 67⟩
          [constant ⟨33, 48⟩ ⟨39, 47⟩ ⟨39, 43⟩ "part" (leaf (.expression (.number "2")) 46 47),
            .node (.statement .returnValue) ⟨49, 67⟩ [sum]]]
  let call : Tree :=
    .node (.expression (.call false false)) ⟨116, 122⟩
      [read "load" 116 120, .absent, leaf (.expression .arguments) 120 122]
  let arrow : Tree :=
    .node (.function (.arrow {})) ⟨95, 138⟩
      [.absent, leaf (.function .parameters) 95 97, .absent,
        body ⟨101, 138⟩ ⟨103, 136⟩
          [constant ⟨103, 123⟩ ⟨109, 122⟩ ⟨109, 113⟩ "data" call,
            .node (.statement .returnValue) ⟨124, 136⟩ [read "data" 131 135]]]
  moduleOf 139
    [constant ⟨0, 14⟩ ⟨6, 13⟩ ⟨6, 9⟩ "key" (leaf (.expression (.number "1")) 12 13), load,
      .node (.module (.exportNamed false)) ⟨70, 139⟩
        [constant ⟨77, 139⟩ ⟨83, 138⟩ ⟨83, 92⟩ "routeData" arrow,
          leaf (.module .exportSpecifiers) 139 139, .absent, .absent]]

/-- The function and the module's constant are reported. The function's own constant is not: it went
along with the function. That of the server data went with the export. -/
theorem report_truthful_loaderModule :
    IsProgram loaderModule ∧ (∀ t ∈ statementsOf loaderModule, listFits t = true) ∧
      (Binding.sites loaderModule).Nodup ∧
      ∃ P r c names, loaderModule.split .server = .ok (P, r) ∧ seed loaderModule {} = .ok c ∧
        r.removed = [⟨"load", .function⟩, ⟨"key", .variable⟩] ∧
        TakenAlong (resolve .server loaderModule c).2 (resolve .server loaderModule c).1 names
          ⟨39, 43⟩ ∧
        ∃ x ∈ goneCode .server (statementsOf loaderModule), ⟨109, 113⟩ ∈ Binding.sites x := by
  have hprogram : IsProgram loaderModule := ⟨by decide, ⟨_, _, _, _, _, _, rfl⟩, by decide⟩
  have hlists : ∀ t ∈ statementsOf loaderModule, listFits t = true := by decide
  have hsites : (Binding.sites loaderModule).Nodup := by decide
  have hsplit : loaderModule.split .server = .ok (moduleOf 139 [],
      ⟨true, false, 3, [⟨"load", .function⟩, ⟨"key", .variable⟩]⟩) := by rfl
  rcases report_truthful .server hprogram hlists hsites hsplit with
    ⟨c, bs, logged, hseed, hbs, -, hremoved, -, -, hcomplete⟩
  have hpart : (⟨"part", .variable, ⟨39, 43⟩, ⟨39, 43⟩, ⟨"part", ⟨39, 43⟩⟩⟩ : Binding) ∈ bs := by
    have htable : Binding.collect loaderModule = .ok
        [⟨"key", .variable, ⟨6, 9⟩, ⟨6, 9⟩, ⟨"key", ⟨6, 9⟩⟩⟩,
          ⟨"load", .function, ⟨24, 28⟩, ⟨15, 69⟩, ⟨"load", ⟨24, 28⟩⟩⟩,
          ⟨"part", .variable, ⟨39, 43⟩, ⟨39, 43⟩, ⟨"part", ⟨39, 43⟩⟩⟩,
          ⟨"data", .variable, ⟨109, 113⟩, ⟨109, 113⟩, ⟨"data", ⟨109, 113⟩⟩⟩] := by rfl
    obtain rfl := Except.ok.inj (htable.symm.trans hbs)
    simp
  refine ⟨hprogram, hlists, hsites, _, _, c, logged.map (·.site), hsplit, hseed, rfl, ?_, ?_⟩
  · rcases hcomplete _ hpart (by decide) (by decide) with hlogged | halong | ⟨x, hx, hsite⟩
    · -- Its entry would be in the report.
      have hentry := List.mem_map_of_mem (f := entryOf) hlogged
      rw [← hremoved] at hentry
      simp [entryOf] at hentry
    · exact halong
    · have hother : ∀ x ∈ goneCode .server (statementsOf loaderModule),
          (⟨39, 43⟩ : Span) ∉ Binding.sites x := by decide
      exact absurd hsite (hother x hx)
  · exact ⟨_, List.mem_singleton_self _, by decide⟩

end RouteSplit
