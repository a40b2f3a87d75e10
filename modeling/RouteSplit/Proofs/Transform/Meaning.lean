import RouteSplit.Proofs.Export.Gone
import RouteSplit.Proofs.Scope.Region
import RouteSplit.Proofs.Sweep.Resolution
import RouteSplit.Proofs.Transform.Idempotence

/-!
# What names mean in a bundle

A bundle leaves code out by the name under which it is exported, whether or not something reads it.
A use that is left means what it meant, unless the code that went declared its name for the whole
module.

- `IsWritten`: a module as it is written down;
- `lostDeclarations`: the declarations of the code that went;
- `wellFormed_resolve`: what is left of a module is written down as the module is;
- `resolve_unlost`, `resolve_or_lost`: uses that keep their meaning, and uses that lose it;
- `use_left_by_export`: all of it, for every use that a bundle keeps.
-/

namespace RouteSplit

open Scope Sweep Export RouteSplit.Module

/-- A module as it is written down: every identifier and every construct has a place of its own, and
the names that an export lists stand in braces. -/
structure IsWritten (root : Tree) : Prop where
  program : IsProgram root
  lists : ∀ t ∈ statementsOf root, listFits t = true
  wellFormed : WellFormed root
  scopes : (scopes root).Nodup

/-- The declarations of the code that a bundle leaves out. -/
def lostDeclarations (o : Options) (root : Tree) : List Declaration :=
  (goneCode o (statementsOf root)).flatMap (declarations (bodyAround root))

section

variable {root : Tree} (hroot : IsWritten root) (o : Options) (c : Context)

include hroot

/-- The declarations of a module are those of its bundle and those in the code that the bundle
leaves out. -/
theorem parted_declarations : Parted (declarations {} root)
    (declarations {} (resolve o root c).1) (lostDeclarations o root) := by
  have hparted := gather_resolve shared_declarationRule hroot.program.module hroot.lists o c
  have hfun : gather declarationRule (bodyAround root) = declarations (bodyAround root) :=
    funext fun t => (declarations_eq_gather _ t).symm
  rw [hfun, ← declarations_eq_gather, ← declarations_eq_gather] at hparted
  exact hparted

/-- The scopes of the code that goes are opened nowhere else. -/
theorem scope_not_gone {s : ScopeId} (hs : s ∈ scopes (resolve o root c).1) :
    s ∉ (goneCode o (statementsOf root)).flatMap scopes := by
  have hparted := gather_resolve shared_scopeRule hroot.program.module hroot.lists o c
  rw [funext (gather_scopeRule (bodyAround root))] at hparted
  exact fun hgone => hparted.disjoint hroot.scopes hs hgone

/-- The identifiers of the code that goes stand nowhere else. -/
theorem site_not_gone {m : Mention} (hm : m ∈ mentions (resolve o root c).1) :
    m.site ∉ (goneCode o (statementsOf root)).flatMap fun t => (mentions t).map Mention.site := by
  have hparted := gather_resolve shared_mentionRule hroot.program.module hroot.lists o c
  rw [funext (gather_mentionRule (bodyAround root))] at hparted
  have hdisjoint := (hparted.map Mention.site).disjoint hroot.wellFormed.sites
  rw [List.map_flatMap] at hdisjoint
  exact fun hgone => hdisjoint (List.mem_map_of_mem hm) hgone

/-- A bundle uses nothing that the module does not. -/
theorem uses_resolve_subset : uses (resolve o root c).1 ⊆ uses root :=
  (gather_resolve shared_useRule hroot.program.module hroot.lists o c).1.subset

/-- A module that is written down stays so when its exports are resolved. -/
theorem wellFormed_resolve : WellFormed (resolve o root c).1 where
  shape := inShape_keepStatements hroot.program
  sites := by
    have hparted := gather_resolve shared_mentionRule hroot.program.module hroot.lists o c
    exact hroot.wellFormed.sites.sublist (hparted.1.map Mention.site)
  separate := separate_resolve hroot.program.module hroot.lists hroot.wellFormed.separate o c
  seen := by
    have hdeclared := (parted_declarations hroot o c).1.subset
    intro u hu d hd e he
    exact hroot.wellFormed.seen u (uses_resolve_subset hroot o c hu) d (hdeclared hd) e
      (hdeclared he)

/-- A use whose name the code that goes does not declare for the whole module means what it
meant. -/
theorem resolve_unlost {u : Use} (hu : u ∈ uses (resolve o root c).1)
    (hname : ∀ d ∈ lostDeclarations o root, d.name = u.name → ⟨.module, root.span⟩ ∉ d.marks) :
    u.resolve (tableOf (resolve o root c).1) = u.resolve (tableOf root) := by
  -- The region of the name outside the scopes that go: a declaration that goes marks scopes that go
  -- with it, and one that stays marks none of them.
  let goneScopes := (goneCode o (statementsOf root)).flatMap scopes
  let goneSites := (goneCode o (statementsOf root)).flatMap fun t => (mentions t).map Mention.site
  let region : Region :=
    { place := fun s name => name == u.name && !goneScopes.contains s
      symbol := fun s => s.name == u.name && !goneSites.contains s.site }
  have hkept : ∀ d ∈ declarations {} (resolve o root c).1, region.Sorts d := by
    intro d hd s hs
    have hscope : s ∉ goneScopes := by
      have hmem := marks_subset hd hs
      simp only [List.append_nil] at hmem
      exact scope_not_gone hroot o c hmem
    have hsite : d.site ∉ goneSites := site_not_gone hroot o c (mention_of_declared hd)
    simp [region, hscope, hsite, Declaration.symbol]
  have hlost : ∀ d ∈ lostDeclarations o root,
      region.Sorts d ∧ region.symbol d.symbol = false := by
    intro d hd
    obtain ⟨t, ht, hd'⟩ := List.mem_flatMap.1 hd
    have hsite : d.site ∈ goneSites :=
      List.mem_flatMap.2 ⟨t, ht, List.mem_map.2 ⟨_, mention_of_declared hd', rfl⟩⟩
    have hsymbol : region.symbol d.symbol = false := by
      simp [region, hsite, Declaration.symbol]
    refine ⟨fun s hs => ?_, hsymbol⟩
    rw [hsymbol]
    by_cases hsame : d.name = u.name
    · have hscope : s ∈ goneScopes := by
        rcases List.mem_append.1 (marks_subset hd' hs) with hmem | hmem
        · exact List.mem_flatMap.2 ⟨t, ht, hmem⟩
        · obtain rfl : s = ⟨.module, root.span⟩ := by simpa [bodyAround] using hmem
          exact absurd hs (hname d hd hsame)
      simp [region, hscope]
    · simp [region, hsame]
  have hparted := parted_declarations hroot o c
  have hall : ∀ d ∈ declarations {} root, region.Sorts d := by
    intro d hd
    rcases hparted.mem_or hd with hd | hd
    · exact hkept d hd
    · exact (hlost d hd).1
  have henv : ∀ s ∈ u.env, region.place s u.name = true := by
    intro s hs
    have hmem := env_subset_of_use hu hs
    simp only [List.append_nil] at hmem
    simp [region, scope_not_gone hroot o c hmem, goneScopes]
  have hfilter := hparted.filter_eq fun d hd => (hlost d hd).2
  exact Table.resolve_congr hkept hall hfilter.symm henv u.usage

/-- A use sees the module's scope last. -/
theorem outer_eq_nil {u : Use} (hu : u ∈ uses root) {inner outer : Env}
    (h : u.env = inner ++ ⟨.module, root.span⟩ :: outer) : outer = [] := by
  have hnodup := hroot.scopes
  obtain ⟨line, strict, s, prologue, span, ss, rfl⟩ := hroot.program.module
  rcases mem_gather_node.1 hu with hu | ⟨i, t, ht, hu⟩
  · simp [useRule] at hu
  · obtain ⟨front, henv, hfront⟩ := env_of_use hu
    have hnone : ⟨.module, s⟩ ∉ front := by
      intro hmem
      rw [scopes, gather_node] at hnodup
      refine List.disjoint_of_nodup_append hnodup (a := ⟨.module, s⟩)
        (by simp [scopeRule, openedBy]) (List.mem_flatMap.2 ⟨(t, i), ?_, ?_⟩)
      · exact List.mem_zipIdx_iff_getElem?.2 ht
      · rw [gather_scopeRule]
        exact hfront hmem
    have hsame : front ++ [⟨.module, s⟩] = inner ++ ⟨.module, s⟩ :: outer := henv.symm.trans h
    rcases List.append_eq_append_iff.1 hsame with ⟨rest, rfl, hrest⟩ | ⟨rest, rfl, hrest⟩
    · cases rest with
      | nil => simpa using hrest
      | cons x rest => simp at hrest
    · cases rest with
      | nil => simpa using hrest
      | cons x rest =>
          obtain ⟨rfl, -⟩ := List.cons.inj hrest
          simp at hnone

/-- Where nothing is declared twice, a use that is left means what it meant, or nothing if the code
that goes declared it. -/
theorem resolve_or_lost (hdistinct : Distinct (declarations {} root)) {u : Use}
    (hu : u ∈ uses (resolve o root c).1) {s : Symbol} (hs : u.resolve (tableOf root) = some s) :
    (u.resolve (tableOf (resolve o root c).1) = some s ∧
        ∀ d ∈ lostDeclarations o root, d.symbol ≠ s) ∨
      u.resolve (tableOf (resolve o root c).1) = none ∧
        ∃ d ∈ lostDeclarations o root, d.symbol = s := by
  have hparted := parted_declarations hroot o c
  have hdistinct' : Distinct (declarations {} (resolve o root c).1) :=
    List.Pairwise.sublist hparted.1 hdistinct
  obtain ⟨inner, outer, d, hd, henv, hname, hserves, rfl, hinner⟩ :=
    (resolve_tableOf hdistinct).1 hs
  have hdisjoint : List.Disjoint (declarations {} (resolve o root c).1)
      (lostDeclarations o root) := by
    refine hparted.disjoint (hdistinct.imp ?_)
    rintro d _ hmeets rfl
    exact hmeets (Declaration.meets_of_scope rfl rfl)
  rcases hparted.mem_or hd with hkept | hlost
  · have hmeans : u.resolve (tableOf (resolve o root c).1) = some d.symbol :=
      (resolve_tableOf hdistinct').2 ⟨inner, outer, d, hkept, henv, hname, hserves, rfl,
        fun e he => hinner e (hparted.1.subset he)⟩
    refine Or.inl ⟨hmeans, fun e he hsymbol => ?_⟩
    obtain ⟨t, ht, he⟩ := List.mem_flatMap.1 he
    refine site_not_gone hroot o c (mention_of_declared hkept) (List.mem_flatMap.2 ⟨t, ht, ?_⟩)
    exact List.mem_map.2 ⟨_, mention_of_declared he, congrArg Symbol.site hsymbol⟩
  · -- The use sees the declaration from outside, so it is one for the whole module, and nothing
    -- lies around that.
    refine Or.inr ⟨Option.eq_none_iff_forall_ne_some.2 fun s' hs' => ?_, d, hlost, rfl⟩
    obtain ⟨inner', outer', e, he, henv', hname', hserves', -, -⟩ :=
      (resolve_tableOf hdistinct').1 hs'
    have hmodule : d.scope = ⟨.module, root.span⟩ := by
      obtain ⟨t, ht, hd⟩ := List.mem_flatMap.1 hlost
      rcases List.mem_append.1 (marks_subset hd List.mem_cons_self) with hmem | hmem
      · have hseen := env_subset_of_use hu (henv ▸ List.mem_append_right inner List.mem_cons_self)
        rw [List.append_nil] at hseen
        exact absurd (List.mem_flatMap.2 ⟨t, ht, hmem⟩) (scope_not_gone hroot o c hseen)
      · simpa [bodyAround] using hmem
    have hlast : outer = [] := by
      rw [hmodule] at henv
      exact outer_eq_nil hroot (uses_resolve_subset hroot o c hu) henv
    have hscope : e.scope ∈ inner ∨ e.scope = d.scope := by
      have hmem : e.scope ∈ u.env := henv' ▸ List.mem_append_right inner' List.mem_cons_self
      simpa [henv, hlast] using hmem
    rcases hscope with hmem | hsame
    · have hfalse := hinner e (hparted.1.subset he) hmem hname'
      simp [hserves'] at hfalse
    · have hmeets := Declaration.meets_of_scope (hname'.trans hname.symm) hsame
      obtain rfl := hdistinct.eq_of_meets (hparted.1.subset he) hd hmeets
      exact hdisjoint he hlost

end

/-- A use that a bundle keeps was in the module. It means what it meant, if the code that went did
not declare its name for the whole module; and where nothing is declared twice, it does so if and
only if its own declaration did not go, and else means nothing. -/
theorem use_left_by_export (o : Options) {root : Tree} (hroot : IsWritten root) (c : Context)
    {u : Use} (hu : u ∈ uses (resolve o root c).1) :
    u ∈ uses root ∧
      ((∀ d ∈ lostDeclarations o root, d.name = u.name → ⟨.module, root.span⟩ ∉ d.marks) →
        u.resolve (tableOf (resolve o root c).1) = u.resolve (tableOf root)) ∧
      (Distinct (declarations {} root) → ∀ s, u.resolve (tableOf root) = some s →
        (u.resolve (tableOf (resolve o root c).1) = some s ∧
            ∀ d ∈ lostDeclarations o root, d.symbol ≠ s) ∨
          u.resolve (tableOf (resolve o root c).1) = none ∧
            ∃ d ∈ lostDeclarations o root, d.symbol = s) :=
  ⟨uses_resolve_subset hroot o c hu, resolve_unlost hroot o c hu,
    fun hdistinct _ hs => resolve_or_lost hroot o c hdistinct hu hs⟩

/-- A module that reads its server data and another variable:
`export const routeData = 1; const page = 2; log(page, routeData);`. -/
def readModule : Tree :=
  let leaf (label : Label) (start stop : Nat) : Tree := .node label ⟨start, stop⟩ []
  let constant (name : String) (start stop : Nat) (value : String) : Tree :=
    .node (.statement (.variableList .constVariable false)) ⟨start, stop⟩
      [.node (.statement (.declarator false)) ⟨start + 6, stop - 1⟩
        [leaf (.pattern (.binding name)) (start + 6) (stop - 5), .absent,
          leaf (.expression (.number value)) (stop - 2) (stop - 1)]]
  .node (.module (.program none true)) ⟨0, 66⟩
    [leaf (.module .prologue) 0 0, .node (.module .statements) ⟨0, 65⟩
      [.node (.module (.exportNamed false)) ⟨0, 27⟩
        [constant "routeData" 7 27 "1", leaf (.module .exportSpecifiers) 27 27, .absent, .absent],
        constant "page" 28 43 "2",
        .node (.statement .expression) ⟨44, 65⟩
          [.node (.expression (.call false false)) ⟨44, 64⟩
            [leaf (.expression (.reference "log" .read)) 44 47, .absent,
              .node (.expression .arguments) ⟨47, 64⟩
                [leaf (.expression (.reference "page" .read)) 48 52,
                  leaf (.expression (.reference "routeData" .read)) 54 63]]]]]

theorem isWritten_readModule : IsWritten readModule :=
  ⟨⟨by decide, ⟨_, _, _, _, _, _, rfl⟩, by decide⟩, by decide,
    ⟨by decide, by decide, by decide, by decide⟩, by decide⟩

/-- Its read of the other variable. -/
def pageRead : Use := ⟨⟨48, 52⟩, "page", .read, [⟨.module, ⟨0, 66⟩⟩]⟩

/-- In the server's bundle the read of the other variable means that variable. -/
theorem use_left_by_export_readModule :
    IsWritten readModule ∧ pageRead ∈ uses (resolve .server readModule {}).1 ∧
      pageRead.resolve (tableOf (resolve .server readModule {}).1) = some ⟨"page", ⟨34, 38⟩⟩ := by
  have hu : pageRead ∈ uses (resolve .server readModule {}).1 := by decide
  refine ⟨isWritten_readModule, hu, ?_⟩
  obtain ⟨-, hname, -⟩ := use_left_by_export .server isWritten_readModule {} hu
  rw [hname (by decide)]
  decide

/-- A module that reads its page: `export default function Page() {} log(Page);`. -/
def pageModule : Tree :=
  let leaf (label : Label) (start stop : Nat) : Tree := .node label ⟨start, stop⟩ []
  .node (.module (.program none true)) ⟨0, 45⟩
    [leaf (.module .prologue) 0 0, .node (.module .statements) ⟨0, 44⟩
      [.node (.module .exportDefault) ⟨0, 33⟩
        [.node (.function (.function .declaration false {})) ⟨15, 33⟩
          [leaf (.pattern (.binding "Page")) 24 28, .absent, leaf (.function .parameters) 28 30,
            .absent, .node (.function .body) ⟨31, 33⟩
              [leaf (.module .prologue) 32 32, leaf (.module .statements) 32 32]]],
        .node (.statement .expression) ⟨34, 44⟩
          [.node (.expression (.call false false)) ⟨34, 43⟩
            [leaf (.expression (.reference "log" .read)) 34 37, .absent,
              .node (.expression .arguments) ⟨37, 43⟩
                [leaf (.expression (.reference "Page" .read)) 38 42]]]]]

/-- The exports of a module are resolved, and a read is left without its declaration. -/
def LeavesDangling (o : Options) (root : Tree) : Prop :=
  IsWritten root ∧ Distinct (declarations {} root) ∧
    ∃ c, seed root {} = .ok c ∧ ∃ u ∈ uses (resolve o root c).1, isRead u.usage = true ∧
      (u.resolve (tableOf root)).isSome = true ∧ u.resolve (tableOf (resolve o root c).1) = none

/-- Server data goes while it is read, and so does the page in the other bundle. -/
theorem read_left_dangling :
    LeavesDangling .server readModule ∧ LeavesDangling {} pageModule := by
  refine ⟨⟨isWritten_readModule, by decide, _, rfl,
    ⟨⟨54, 63⟩, "routeData", .read, [⟨.module, ⟨0, 66⟩⟩]⟩, by decide, rfl, by decide, by decide⟩,
    ⟨⟨⟨by decide, ⟨_, _, _, _, _, _, rfl⟩, by decide⟩, by decide,
      ⟨by decide, by decide, by decide, by decide⟩, by decide⟩, by decide, _, rfl,
      ⟨⟨38, 42⟩, "Page", .read, [⟨.module, ⟨0, 45⟩⟩]⟩, by decide, rfl, by decide, by decide⟩⟩

end RouteSplit
