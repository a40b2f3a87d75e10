import RouteSplit.Proofs.Binding.Candidates
import RouteSplit.Proofs.Sweep.Log
import RouteSplit.Proofs.Transform.Errors
import RouteSplit.Proofs.Transform.Report
import RouteSplit.Proofs.Transform.Survivors

/-!
# The order of statements

A transform decides in each pass what is dead before it removes anything, and what is read does not
depend on the order of a module's statements. Its outcome therefore does not either, apart from the
order in which statements are left and removals are put down.

- `Standing`: a binding that something reads, or that nothing does, and `standing_rearranged`;
- `Context.Alike`: contexts that know the same;
- `taken_rearranged`, `noted_alike`, `prune_rearranged`: one pass on the statements in another order;
- `SameOutcome`: runs that come to the same;
- `passes_rearranged`: any number of passes;
- `order_irrelevant`: seeding, resolved exports and a sweep.

Only a block that captures a `var` of the module can tell the order: what it captures is the module's
variable too if nothing declared that before.
-/

namespace RouteSplit

open Scope Sweep Export Binding RouteSplit.Module

/-! ## Bindings in any order -/

/-- The lookup that a use makes. -/
def Scope.Use.lookup (u : Use) : Lookup := .used u.env u.name u.usage

/-- Something outside the candidate's own code reads it. -/
def Candidate.IsRead (root : Tree) (x : Candidate) : Prop :=
  ∃ u ∈ uses root, isRead u.usage = true ∧ Lookup.Same (tableOf root) x.lookup u.lookup ∧
    x.self.encloses u.site = false

/-- The name at `site` is that of a binding, and something outside reads it or nothing does. -/
def Standing (root : Tree) (site : Span) (read : Bool) : Prop :=
  ∃ bs, collect root = .ok bs ∧ ∃ b ∈ bs, b.site = site ∧ isReferenced (readsIn root) b = read

/-- The bindings that stand in a tree are its candidates whose lookups find something. -/
theorem standing_iff {root : Tree} (hroot : Sweepable root) {site : Span} {read : Bool} :
    Standing root site read ↔ ∃ x ∈ candidates root, x.site = site ∧
      Lookup.Same (tableOf root) x.lookup x.lookup ∧ (read = true ↔ x.IsRead root) := by
  have hreferenced : ∀ {x : Candidate} {s : Symbol}, x.lookup.find (tableOf root) = some s →
      (isReferenced (readsIn root) ⟨x.name, x.kind, x.site, x.self, s⟩ = read ↔
        (read = true ↔ x.IsRead root)) := by
    intro x s hs
    have hread : isReferenced (readsIn root) ⟨x.name, x.kind, x.site, x.self, s⟩ = true ↔
        x.IsRead root := by
      rw [isReferenced_iff]
      refine exists_congr fun u => and_congr_right fun _ => and_congr_right fun _ =>
        and_congr_left fun _ => ?_
      constructor
      · exact fun hmeans => ⟨s, hs, hmeans⟩
      · rintro ⟨s', hs', hmeans⟩
        obtain rfl := Option.some.inj (hs.symm.trans hs')
        exact hmeans
    rw [← hread, Bool.eq_iff_iff]
    exact Iff.comm
  constructor
  · rintro ⟨bs, hbs, b, hb, rfl, hread⟩
    obtain rfl := Except.ok.inj ((collect_eq hroot.supported hroot.sites).symm.trans hbs)
    obtain ⟨x, hx, hb⟩ := List.mem_flatMap.1 hb
    obtain ⟨s, hs, rfl⟩ := List.mem_map.1 hb
    have hs := Option.mem_toList.1 hs
    exact ⟨x, hx, rfl, ⟨s, hs, hs⟩, (hreferenced hs).1 hread⟩
  · rintro ⟨x, hx, rfl, ⟨s, hs, -⟩, hread⟩
    refine ⟨_, collect_eq hroot.supported hroot.sites, _, List.mem_flatMap.2 ⟨x, hx, ?_⟩, rfl,
      (hreferenced hs).2 hread⟩
    exact List.mem_map.2 ⟨s, Option.mem_toList.2 hs, rfl⟩

section

variable {root root' : Tree} (h : IsModule root)

include h

/-- The candidates of a module are those of its prologue, those of its statements and those inside
them. -/
theorem candidates_module :
    candidates root = gather candidateRule (bodyAround root) (root.child 0) ++
      ((statementsOf root).flatMap (candidatesOf [ownScope root]) ++
        (statementsOf root).flatMap (gather candidateRule (bodyAround root))) := by
  have hown : candidateRule {} root.label root.span root.children = [] := by
    obtain ⟨_, _, _, _, _, _, rfl⟩ := h
    rfl
  obtain ⟨span, hroot⟩ := gather_module_parts h candidateRule
  rw [candidates, hroot, hown, List.nil_append, gather_statements]
  rfl

/-- A rearranged module has the same candidates in some order. -/
theorem candidates_perm (hr : Rearranged root root') :
    (candidates root).Perm (candidates root') := by
  rw [candidates_module h, candidates_module hr.module, hr.around, hr.prologue, hr.ownScope_eq]
  exact ((hr.statements.flatMap_right _).append (hr.statements.flatMap_right _)).append_left _

theorem sites_perm (hr : Rearranged root root') :
    (Binding.sites root).Perm (Binding.sites root') := by
  rw [← sites_candidates root, ← sites_candidates root']
  exact (candidates_perm h hr).map _

theorem within_of_candidate {x : Candidate} (hx : x ∈ candidates root) : x.lookup.Within root := by
  have hblock : ∀ b ∈ blocks root, x ∈ gather candidateRule (bodyAround root) b →
      x.lookup.Within root := by
    intro b hb hx
    rcases lookup_of_candidate hx with ⟨site, heq⟩ | ⟨inner, hinner, heq⟩
    · rw [heq]
      trivial
    · rw [heq]
      exact ⟨b, hb, inner, rfl, hinner⟩
  rw [candidates_module h] at hx
  rcases List.mem_append.1 hx with hx | hx
  · exact hblock _ List.mem_cons_self hx
  · rcases List.mem_append.1 hx with hx | hx
    · obtain ⟨t, ht, hx⟩ := List.mem_flatMap.1 hx
      rcases lookup_of_candidatesOf hx with ⟨site, heq⟩ | heq
      · rw [heq]
        trivial
      · rw [heq]
        exact ⟨t, List.mem_cons_of_mem _ ht, [], rfl, List.nil_subset _⟩
    · obtain ⟨t, ht, hx⟩ := List.mem_flatMap.1 hx
      exact hblock t (List.mem_cons_of_mem _ ht) hx

theorem within_of_use {u : Use} (hu : u ∈ uses root) : u.lookup.Within root := by
  rw [uses_blocks h] at hu
  obtain ⟨b, hb, hu⟩ := List.mem_flatMap.1 hu
  obtain ⟨inner, henv, hinner⟩ := env_of_use hu
  exact ⟨b, hb, inner, henv, hinner⟩

end

section Standing

variable {root root' : Tree} (h : Arrangeable root) (hr : Rearranged root root')

include h hr

/-- A candidate is read in a module if and only if it is in the rearranged one. -/
theorem isRead_iff {x : Candidate} (hx : x ∈ candidates root) :
    x.IsRead root ↔ x.IsRead root' := by
  -- The uses are the same in any order, and so is which of them means what the candidate does.
  have huses := hr.uses_perm h.module
  refine exists_congr fun u => ?_
  rw [← huses.mem_iff]
  refine and_congr_right fun hu => and_congr_right fun _ => and_congr_left fun _ => ?_
  exact Lookup.same_iff h hr (within_of_candidate h.module hx) (within_of_use h.module hu)

/-- What is read in a module does not depend on the order of its statements. -/
theorem standing_rearranged (hroot : Sweepable root) (hroot' : Sweepable root') {site : Span}
    {read : Bool} : Standing root site read ↔ Standing root' site read := by
  -- A candidate is a binding where it finds itself: the same question as which uses read it.
  rw [standing_iff hroot, standing_iff hroot']
  refine exists_congr fun x => ?_
  rw [← (candidates_perm h.module hr).mem_iff]
  refine and_congr_right fun hx => and_congr_right fun _ => ?_
  have hwithin := within_of_candidate h.module hx
  rw [Lookup.same_iff h hr hwithin hwithin, isRead_iff h hr hx]

end Standing

/-! ## Contexts -/

/-- Two contexts know the same, though they may have put down what went in another order. -/
structure Context.Alike (c c' : Context) : Prop where
  tracked : ∀ site, c.isTracked site = c'.isTracked site
  hasServerExport : c.hasServerExport = c'.hasServerExport
  done : c.done = c'.done
  passes : c.passes = c'.passes
  removed : c.removed.Perm c'.removed

/-- Tracked behind seeding are the bindings that are read. -/
theorem tracked_of_seed {root : Tree} {c : Context} (h : seed root {} = .ok c) {site : Span} :
    c.isTracked site = true ↔ Standing root site true := by
  obtain ⟨bs, hbs, rfl⟩ := seed_spec.1 h
  rw [isTracked_foldl_track]
  constructor
  · rintro (htracked | ⟨b, hb, rfl⟩)
    · simp [Context.isTracked] at htracked
    · obtain ⟨hb, hread⟩ := List.mem_filter.1 hb
      exact ⟨bs, hbs, b, hb, rfl, hread⟩
  · rintro ⟨bs', hbs', b, hb, rfl, hread⟩
    obtain rfl := Except.ok.inj (hbs.symm.trans hbs')
    exact Or.inr ⟨b, List.mem_filter.2 ⟨hb, hread⟩, rfl⟩

/-- A tracked binding is dead if it stands and is not read. -/
theorem dead_iff_standing {root : Tree} {c : Context} {site : Span} :
    Dead root c site ↔ c.isTracked site = true ∧ Standing root site false := by
  constructor
  · rintro ⟨bs, hbs, b, hb, rfl, htracked, hunread⟩
    exact ⟨htracked, bs, hbs, b, hb, rfl, hunread⟩
  · rintro ⟨htracked, bs, hbs, b, hb, rfl, hunread⟩
    exact ⟨bs, hbs, b, hb, rfl, htracked, hunread⟩

/-- What exports tell does not depend on their order. -/
theorem observe_alike (o : Options) {ss ss' : List Tree} (hperm : ss.Perm ss') {c c' : Context}
    (h : c.Alike c') : (observe o ss c).Alike (observe o ss' c') := by
  have hnames : ((records ss).flatMap Record.names).Perm ((records ss').flatMap Record.names) :=
    (hperm.filterMap _).flatMap_right _
  refine ⟨h.tracked, ?_, ?_, h.passes, h.removed⟩
  · simp only [observe, h.hasServerExport, hnames.any_eq]
  · simp only [observe, h.done, hnames.any_eq]

/-! ## One pass -/

section Pass

variable {root : Tree} {ss : List Tree} {c c' : Context}

/-- Passes can work on a rearranged module. -/
theorem sweepable_withStatements (h : IsModule root) (hroot : Sweepable root)
    (hperm : (statementsOf root).Perm ss) : Sweepable (withStatements root ss) where
  shape := by
    refine inShape_withStatements h hroot.shape fun t ht => ?_
    have hmem := hperm.mem_iff.2 ht
    exact ⟨inShape_statement h hroot.shape hmem, t, hmem, rfl⟩
  supported := supported_withStatements h hroot.supported fun t ht =>
    understood_of_supported h hroot.supported (hperm.mem_iff.2 ht)
  sites := (sites_perm h (rearranged_withStatements h hperm)).nodup_iff.1 hroot.sites

/-- A rearranged module has the same entries in some order. -/
theorem entries_perm (h : IsModule root) (hperm : (statementsOf root).Perm ss) :
    (entries root).Perm (entries (withStatements root ss)) := by
  obtain ⟨head, hhead⟩ := gather_lists_module (f := statementEntries) h
  have hroot := hhead (statementsOf root)
  rw [withStatements_statementsOf h] at hroot
  rw [entries, entries, hroot, hhead]
  exact ((hperm.flatMap_right _).append (hperm.flatMap_right _)).append_left _

variable (h : Arrangeable root) (hroot : Sweepable root) (hperm : (statementsOf root).Perm ss)
  (hc : c.Alike c')

include h hroot hperm hc

/-- The same names are dead in both modules. -/
theorem dead_rearranged {site : Span} :
    Dead root c site ↔ Dead (withStatements root ss) c' site := by
  have hr := rearranged_withStatements h.module hperm
  have hroot' := sweepable_withStatements h.module hroot hperm
  rw [dead_iff_standing, dead_iff_standing, hc.tracked, standing_rearranged h hr hroot hroot']

variable {dead dead' : List Binding} (hdead : deadBindings root c = .ok dead)
  (hdead' : deadBindings (withStatements root ss) c' = .ok dead')

include hdead hdead'

/-- A pass takes the same names in any order of the statements, each under the same entry. -/
theorem taken_rearranged : taken dead = taken dead' := by
  funext site
  have hsame : isDead dead site = true ↔ isDead dead' site = true := by
    rw [isDead_iff_dead hdead, isDead_iff_dead hdead', dead_rearranged h hroot hperm hc]
  by_cases hsite : isDead dead site = true
  · obtain ⟨b, hb, hbsite⟩ := List.any_eq_true.1 hsite
    obtain ⟨b', hb', hbsite'⟩ := List.any_eq_true.1 (hsame.1 hsite)
    obtain rfl := beq_iff_eq.1 hbsite
    have hsites : b'.site = b.site := beq_iff_eq.1 hbsite'
    -- Both entries are the one that the statement of the name has for it.
    obtain ⟨bs, hbs, rfl⟩ := deadBindings_eq_ok.1 hdead
    obtain ⟨bs', hbs', rfl⟩ := deadBindings_eq_ok.1 hdead'
    have hentry := entry_of_binding hbs (List.mem_of_mem_filter hb)
    have hentry' := entry_of_binding hbs' (List.mem_of_mem_filter hb')
    rw [hsites, ← (entries_perm h.module hperm).mem_iff] at hentry'
    rw [taken_of_mem (unique_deadBindings hdead) hb, ← hsites,
      taken_of_mem (unique_deadBindings hdead') hb', entry_unique hroot hentry hentry']
  · have hnone : taken dead site = [] := (taken_eq_nil dead site).2 (by simpa using hsite)
    have hnone' : taken dead' site = [] :=
      (taken_eq_nil dead' site).2 (by simpa using mt hsame.2 hsite)
    rw [hnone, hnone']

/-- Nothing is dead in one module if and only if nothing is in the other. -/
theorem deadBindings_nil_iff : dead = [] ↔ dead' = [] := by
  have htaken := taken_rearranged h hroot hperm hc hdead hdead'
  have hnil : ∀ {ds : List Binding}, ds = [] ↔ ∀ site, isDead ds site = false := by
    intro ds
    cases ds with
    | nil => simp [isDead]
    | cons d ds =>
        refine iff_of_false (by simp) fun hall => ?_
        have hself := hall d.site
        simp [isDead] at hself
  rw [hnil, hnil, isDead_congr htaken]

/-- A pass leaves the same of the statements in any order, and puts down the same. -/
theorem noted_alike :
    (noted dead root c).Alike (noted dead' (withStatements root ss) c') where
  tracked := hc.tracked
  hasServerExport := hc.hasServerExport
  done := hc.done
  passes := congrArg (· + 1) hc.passes
  removed := by
    have hroot' := sweepable_withStatements h.module hroot hperm
    refine hc.removed.append ?_
    calc
      (removeIn dead root).2.Perm ((Binding.sites root).flatMap (taken dead)) :=
        record_perm_sites hroot.shape hroot.supported
      List.Perm _ ((Binding.sites (withStatements root ss)).flatMap (taken dead)) :=
        (sites_perm h.module (rearranged_withStatements h.module hperm)).flatMap_right _
      _ = (Binding.sites (withStatements root ss)).flatMap (taken dead') := by
        rw [taken_rearranged h hroot hperm hc hdead hdead']
      List.Perm _ (removeIn dead' (withStatements root ss)).2 :=
        (record_perm_sites hroot'.shape hroot'.supported).symm

/-- A pass leaves the same of each statement in both modules. -/
theorem prune_rearranged : prune dead' (withStatements root ss) =
    withStatements (prune dead root) (ss.filterMap (survivor dead)) := by
  rw [← prune_congr (taken_rearranged h hroot hperm hc hdead hdead'),
    prune_withStatements dead h.module]

end Pass

/-! ## Runs -/

/-- Two runs of passes come to the same: they end alike, know the same, and leave the same of the
statements. -/
structure SameOutcome (root : Tree) (ss : List Tree) (out out' : Outcome) : Prop where
  result : out.result = out'.result
  context : out.context.Alike out'.context
  survivors : Survivors root ss out.root out'.root

/-- Passes come to the same in any order of the statements. -/
theorem passes_rearranged (max : Option Nat) (budget : Nat) {root : Tree} {ss : List Tree}
    {c c' : Context} (h : Arrangeable root) (hroot : Sweepable root)
    (hperm : (statementsOf root).Perm ss) (hc : c.Alike c') :
    SameOutcome root ss (passes max budget root c)
      (passes max budget (withStatements root ss) c') := by
  -- By the passes that may be taken. What one of them leaves are two modules with the same
  -- statements again, and contexts that are alike.
  induction budget generalizing root ss c c' with
  | zero => exact ⟨rfl, hc, survivors_refl root ss⟩
  | succ budget ih =>
      have hroot' := sweepable_withStatements h.module hroot hperm
      cases hlimit : atLimit max c.passes with
      | some limit =>
          rw [passes_stopped hlimit, passes_stopped (hc.passes ▸ hlimit)]
          exact ⟨rfl, hc, survivors_refl root ss⟩
      | none =>
          have hlimit' : atLimit max c'.passes = none := hc.passes ▸ hlimit
          obtain ⟨dead, hdead⟩ := exists_deadBindings hroot.supported c
          obtain ⟨dead', hdead'⟩ := exists_deadBindings hroot'.supported c'
          have hnil := deadBindings_nil_iff h hroot hperm hc hdead hdead'
          by_cases hne : dead = []
          · -- The last pass of both.
            obtain rfl := hnil.1 hne
            subst hne
            rw [passes_last hlimit hdead, passes_last hlimit' hdead']
            exact ⟨rfl, { hc with passes := congrArg (· + 1) hc.passes }, survivors_refl root ss⟩
          · rw [passes_more hroot hlimit hdead hne,
              passes_more hroot' hlimit' hdead' (mt hnil.2 hne),
              prune_rearranged h hroot hperm hc hdead hdead']
            have hleaves : Leaves (survivor dead) root (prune dead root) :=
              leaves_prune h.module hroot.shape
            have hrest := ih (arrangeable_prune h hroot.shape) (sweepable_prune hroot)
              (hleaves.perm hperm) (noted_alike h hroot hperm hc hdead hdead')
            exact ⟨hrest.result, hrest.context, hrest.survivors.trans
              (fun t _ u hu => survivor_place hu) hleaves.statements⟩

/-! ## Transforms -/

/-- What `k` passes make of a module whose exports are resolved. -/
def passesOf (o : Options) (k : Nat) (root : Tree) (c : Context) : Outcome :=
  passes o.maxPasses k (resolve o root c).1 (resolve o root c).2

/-- What a sweep makes of a module whose exports are resolved. -/
def sweepOf (o : Options) (root : Tree) (c : Context) : Outcome :=
  sweep o (resolve o root c).1 (resolve o root c).2

/-- Seeding tracks the same names in both modules. -/
theorem seed_rearranged {root : Tree} {ss : List Tree} {c c' : Context} (h : Arrangeable root)
    (hroot : Sweepable root) (hperm : (statementsOf root).Perm ss) (hseed : seed root {} = .ok c)
    (hseed' : seed (withStatements root ss) {} = .ok c') : c.Alike c' := by
  have hr := rearranged_withStatements h.module hperm
  have hroot' := sweepable_withStatements h.module hroot hperm
  obtain ⟨hserver, hdone, hpasses, hremoved⟩ := seed_context hseed
  obtain ⟨hserver', hdone', hpasses', hremoved'⟩ := seed_context hseed'
  refine ⟨fun site => ?_, hserver.trans hserver'.symm, hdone.trans hdone'.symm,
    hpasses.trans hpasses'.symm, by rw [hremoved, hremoved']⟩
  rw [Bool.eq_iff_iff, tracked_of_seed hseed, tracked_of_seed hseed',
    standing_rearranged h hr hroot hroot']

/-- Any number of passes comes to the same in both modules. -/
theorem passesOf_rearranged (o : Options) (k : Nat) {root : Tree} {ss : List Tree} {c c' : Context}
    (h : Arrangeable root) (hroot : IsWritten root) (hsweep : Sweepable root)
    (hperm : (statementsOf root).Perm ss) (hc : c.Alike c') :
    SameOutcome root ss (passesOf o k root c) (passesOf o k (withStatements root ss) c') := by
  have hleaves := leaves_resolve o h.module hroot.lists c
  have hobserved : (resolve o root c).2.Alike (resolve o (withStatements root ss) c').2 := by
    have hstatements := hperm
    rw [← statementsOf_withStatements h.module ss] at hstatements
    exact observe_alike o hstatements hc
  have hrest := passes_rearranged o.maxPasses k (arrangeable_resolve o h hroot c)
    (sweepable_resolve hroot.program hsweep.supported hsweep.sites o c) (hleaves.perm hperm)
    hobserved
  rw [passesOf, passesOf, resolve_withStatements o h.module ss c c']
  exact ⟨hrest.result, hrest.context,
    hrest.survivors.trans (fun t _ u hu => keepOne_place hu) hleaves.statements⟩

/-- A transform does not depend on the order of a module's statements, as long as no block captures a
name that two of them declare for the module. Seeding tracks the same names. After any number of
passes, and none at all, the same is left of the statements, and as many passes and the same flags
are noted; what went is put down in another order, pass by pass. A sweep ends as one of the other
order does, and it fails at the limit only. -/
theorem order_irrelevant (o : Options) {root : Tree} {ss : List Tree} (hroot : IsWritten root)
    (hsupported : Supported root) (hsites : (Binding.sites root).Nodup) (hsided : OneSided root)
    (huncaptured : Uncaptured root) (hperm : (statementsOf root).Perm ss) :
    ∃ c c', seed root {} = .ok c ∧ seed (withStatements root ss) {} = .ok c' ∧ c.Alike c' ∧
      (∀ k, SameOutcome root ss (passesOf o k root c)
        (passesOf o k (withStatements root ss) c')) ∧
      SameOutcome root ss (sweepOf o root c) (sweepOf o (withStatements root ss) c') ∧
      ∀ e, (sweepOf o root c).result = .error e →
        ∃ limit, o.maxPasses = some limit ∧ e = .passLimitExceeded limit := by
  have h : Arrangeable root :=
    ⟨hroot.program.module, hroot.wellFormed.sites, hroot.scopes, hsided, huncaptured⟩
  have hsweep : Sweepable root := ⟨hroot.program.shape, hsupported, hsites⟩
  obtain ⟨c, hseed⟩ := exists_seed hsupported
  obtain ⟨c', hseed'⟩ := exists_seed (sweepable_withStatements h.module hsweep hperm).supported
  have hc := seed_rearranged h hsweep hperm hseed hseed'
  have hpasses := fun k => passesOf_rearranged o k h hroot hsweep hperm hc
  refine ⟨c, c', hseed, hseed', hc, hpasses, ?_, fun e he => ?_⟩
  · -- Both sweeps have the same number of passes to take: what is left has as many names.
    have hleaves := leaves_resolve o h.module hroot.lists c
    have hnames := sites_perm hleaves.module
      (rearranged_withStatements hleaves.module (hleaves.perm hperm))
    rw [← resolve_withStatements o h.module ss c c'] at hnames
    have hbudget : budgetFor (resolve o root c).1 =
        budgetFor (resolve o (withStatements root ss) c').1 := congrArg (· + 1) hnames.length_eq
    rw [sweepOf, sweepOf, sweep, sweep, ← hbudget]
    exact hpasses _
  · exact sweep_eq_error (sweepable_resolve hroot.program hsupported hsites o c) he

/-- The server data, what it calls and what that reads go the other way round too. -/
theorem order_irrelevant_loaderModule :
    IsWritten loaderModule ∧ Supported loaderModule ∧ (Binding.sites loaderModule).Nodup ∧
      OneSided loaderModule ∧ Uncaptured loaderModule ∧
      ∃ c', seed (withStatements loaderModule (statementsOf loaderModule).reverse) {} = .ok c' ∧
        ∃ out, out = sweepOf .server
            (withStatements loaderModule (statementsOf loaderModule).reverse) c' ∧
          out.result = .ok () ∧ out.context.passes = 3 ∧
          out.context.removed.Perm [⟨"load", .function⟩, ⟨"key", .variable⟩] ∧
          statementsOf out.root = [] := by
  have hroot : IsWritten loaderModule :=
    ⟨⟨by decide, ⟨_, _, _, _, _, _, rfl⟩, by decide⟩, by decide,
      ⟨by decide, by decide, by decide, by decide⟩, by decide⟩
  have hsupported : Supported loaderModule := rfl
  have hsites : (Binding.sites loaderModule).Nodup := by decide
  have hsided : OneSided loaderModule := by decide
  have huncaptured : Uncaptured loaderModule := by decide
  obtain ⟨c, c', hseed, hseed', -, -, hsame, -⟩ := order_irrelevant .server hroot hsupported hsites
    hsided huncaptured (List.reverse_perm _).symm
  obtain rfl : c = { refs := [⟨6, 9⟩, ⟨24, 28⟩, ⟨39, 43⟩, ⟨109, 113⟩] } :=
    Except.ok.inj (hseed.symm.trans rfl)
  obtain ⟨f, -, hleft, hleft'⟩ := hsame.survivors
  refine ⟨hroot, hsupported, hsites, hsided, huncaptured, c', hseed', _, rfl, hsame.result.symm,
    hsame.context.passes.symm, hsame.context.removed.symm, ?_⟩
  have hmodule : IsModule (sweepOf .server loaderModule
      { refs := [⟨6, 9⟩, ⟨24, 28⟩, ⟨39, 43⟩, ⟨109, 113⟩] }).root := ⟨_, _, _, _, _, _, rfl⟩
  rw [hleft', statementsOf_withStatements hmodule, List.filterMap_reverse, ← hleft]
  rfl

/-- A block that captures a variable of the module:
`try { load(); } catch (e) { var e = 1; } var e = 2; export function routeData() { return e; }`. -/
def catchModule : Tree :=
  let leaf (label : Label) (start stop : Nat) : Tree := .node label ⟨start, stop⟩ []
  let block (span inner : Span) (statements : List Tree) : Tree :=
    .node (.statement .block) span [.node (.module .statements) inner statements]
  let assigned (start : Nat) (value : String) : Tree :=
    .node (.statement (.variableList .varVariable false)) ⟨start, start + 10⟩
      [.node (.statement (.declarator false)) ⟨start + 4, start + 9⟩
        [leaf (.pattern (.binding "e")) (start + 4) (start + 5), .absent,
          leaf (.expression (.number value)) (start + 8) (start + 9)]]
  let call : Tree :=
    .node (.statement .expression) ⟨6, 13⟩
      [.node (.expression (.call false false)) ⟨6, 12⟩
        [leaf (.expression (.reference "load" .read)) 6 10, .absent,
          leaf (.expression .arguments) 10 12]]
  let handler : Tree :=
    .node (.statement .catchClause) ⟨16, 40⟩
      [.node (.statement .catchParameter) ⟨23, 24⟩ [leaf (.pattern (.binding "e")) 23 24, .absent],
        block ⟨26, 40⟩ ⟨28, 38⟩ [assigned 28 "1"]]
  let data : Tree :=
    .node (.function (.function .declaration false {})) ⟨59, 93⟩
      [leaf (.pattern (.binding "routeData")) 68 77, .absent, leaf (.function .parameters) 77 79,
        .absent, .node (.function .body) ⟨80, 93⟩
          [leaf (.module .prologue) 82 82, .node (.module .statements) ⟨82, 91⟩
            [.node (.statement .returnValue) ⟨82, 91⟩
              [leaf (.expression (.reference "e" .read)) 89 90]]]]
  moduleOf 93
    [.node (.statement .tryCatch) ⟨0, 40⟩ [block ⟨4, 15⟩ ⟨6, 13⟩ [call], handler, .absent],
      assigned 41 "2",
      .node (.module (.exportNamed false)) ⟨52, 93⟩
        [data, leaf (.module .exportSpecifiers) 93 93, .absent, .absent]]

/-- The statements of the module, with the second variable first. -/
def catchLast : List Tree :=
  match statementsOf catchModule with
  | [handled, assigned, data] => [assigned, handled, data]
  | ss => ss

/-- What the module loses depends on where the block stands. A variable behind it is the same symbol
as the one inside, so that the server data reads both and both go with it. In front of the block the
variable is a symbol of its own, and the one inside stays. -/
theorem order_matters_catchModule :
    IsWritten catchModule ∧ Supported catchModule ∧ (Binding.sites catchModule).Nodup ∧
      OneSided catchModule ∧ ¬ Uncaptured catchModule ∧
      (statementsOf catchModule).Perm catchLast ∧
      ∃ c c', seed catchModule {} = .ok c ∧
        seed (withStatements catchModule catchLast) {} = .ok c' ∧
        (sweepOf .server catchModule c).context.removed = [⟨"e", .variable⟩, ⟨"e", .variable⟩] ∧
        (sweepOf .server (withStatements catchModule catchLast) c').context.removed =
          [⟨"e", .variable⟩] ∧
        ¬ SameOutcome catchModule catchLast (sweepOf .server catchModule c)
          (sweepOf .server (withStatements catchModule catchLast) c') := by
  have hroot : IsWritten catchModule :=
    ⟨⟨by decide, ⟨_, _, _, _, _, _, rfl⟩, by decide⟩, by decide,
      ⟨by decide, by decide, by decide, by decide⟩, by decide⟩
  have hseed : seed catchModule {} = .ok { refs := [⟨45, 46⟩, ⟨32, 33⟩] } := rfl
  have hseed' : seed (withStatements catchModule catchLast) {} =
      .ok { refs := [⟨45, 46⟩] } := rfl
  have hlog : (sweepOf .server catchModule { refs := [⟨45, 46⟩, ⟨32, 33⟩] }).context.removed =
      [⟨"e", .variable⟩, ⟨"e", .variable⟩] := rfl
  have hlog' : (sweepOf .server (withStatements catchModule catchLast)
      { refs := [⟨45, 46⟩] }).context.removed = [⟨"e", .variable⟩] := rfl
  refine ⟨hroot, rfl, by decide, by decide, by decide, .swap _ _ _, _, _, hseed, hseed', hlog,
    hlog', fun hsame => ?_⟩
  have hlength := hsame.context.removed.length_eq
  rw [hlog, hlog'] at hlength
  simp at hlength

end RouteSplit
