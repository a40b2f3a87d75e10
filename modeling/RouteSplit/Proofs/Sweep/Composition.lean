import RouteSplit.Proofs.Sweep.Deletion

/-!
# Removals that follow one another

Two removals in a row leave what one removal of all their names leaves. What goes is told by names
alone, so the second finds among what the first left the names that it would have found anyway; and
what the first trimmed or emptied, both together trim or empty as well.

- `Joins`: the names of two removals together;
- `keptTarget_bind`, `keptDeclarator_bind`, `kept_bind`: what two removals leave of a construct, one
  after the other;
- `prune_prune`: what they leave of a tree;
- `Takes`: the bindings that passes take, pass by pass;
- `removals_compose`: removals in a row are one, and so is a sweep.
-/

namespace RouteSplit.Sweep

/-- `both` goes for a name if and only if `first` or `second` does. -/
def Joins (first second both : List Binding) : Prop :=
  ∀ s, isDead both s = (isDead first s || isDead second s)

/-- Two lists of bindings are joined by putting one behind the other. -/
theorem joins_append (first second : List Binding) : Joins first second (first ++ second) :=
  fun _ => List.any_append

theorem Joins.symm {first second both : List Binding} (h : Joins first second both) :
    Joins second first both := by
  intro s
  rw [h s, Bool.or_comm]

/-- A part goes for the joined bindings if it goes for one of the two. -/
theorem Joins.goes {first second both : List Binding} (h : Joins first second both)
    (site : Option Span) : goes both site = (goes first site || goes second site) := by
  cases site with
  | none => rfl
  | some s => exact h s

section Items

variable {t : Tree} {items rest : List Tree} {build : List Tree → Tree} {next : Tree → Option Tree}

/-- What is left of what is left, if that goes with its last item. -/
theorem leftOf_bind (hnil : items = [] → rest = [])
    (hnext : items ≠ [] → next (build items) = leftOf build rest) :
    (leftOf build items).bind next = leftOf build rest := by
  by_cases hitems : items = []
  · rw [hitems, hnil hitems]
    rfl
  · rw [leftOf_of_ne_nil hitems, Option.bind_some]
    exact hnext hitems

end Items

variable {first second both : List Binding} (h : Joins first second both)
include h

/-- A construct that goes as a whole goes with either removal. -/
theorem whole_bind {keep : List Binding → Tree → Option Tree} (site : Option Span) {t : Tree}
    (hkeep : ∀ dead, keep dead t = if goes dead site then none else some t) :
    (keep first t).bind (keep second) = keep both t := by
  rw [hkeep first, hkeep both, h.goes site]
  cases hfirst : goes first site with
  | true => rfl
  | false => simp [hkeep second]

/-! ## Targets -/

theorem keepObjectParts_keepObjectParts (ps : List Tree) :
    keepObjectParts second (keepObjectParts first ps) = keepObjectParts both ps := by
  unfold keepObjectParts
  rw [List.filter_filter]
  refine List.filter_congr fun t _ => ?_
  rw [h.goes, Bool.not_or, Bool.and_comm]

/-- A place that the first removal left as a hole stays one. -/
theorem keepArrayParts_keepArrayParts (ps : List Tree) :
    keepArrayParts second (keepArrayParts first ps) = keepArrayParts both ps := by
  unfold keepArrayParts
  rw [List.filterMap_filterMap]
  refine List.filterMap_congr fun t _ => ?_
  have hhole : Binding.isHole (holeAt t) = true := rfl
  rw [h.goes]
  by_cases ht : Binding.isHole t = true
  · simp [ht]
  · cases hfirst : goes first (siteOf (Binding.arrayPartTarget t)) with
    | true => cases hrest : Binding.isRest t <;> simp [ht, hhole]
    | false => simp [ht]

theorem arrayPartGoes_joins (t : Tree) :
    arrayPartGoes both t = (arrayPartGoes first t || arrayPartGoes second t) := by
  rw [arrayPartGoes, arrayPartGoes, arrayPartGoes, h.goes, Bool.and_or_distrib_left]

/-- What is left of what is left of an array pattern is what is left for the joined bindings. -/
theorem keptTarget_array_bind (s : Span) (ps : List Tree) :
    (keptTarget first (.node (.pattern .array) s ps)).bind (keptTarget second) =
      keptTarget both (.node (.pattern .array) s ps) := by
  have hparts := keepArrayParts_keepArrayParts h ps
  by_cases hfirst : ∃ t ∈ ps, arrayPartGoes first t = true
  · have hboth : ∃ t ∈ ps, arrayPartGoes both t = true := by
      rcases hfirst with ⟨t, ht, hgoes⟩
      exact ⟨t, ht, by simp [arrayPartGoes_joins h, hgoes]⟩
    -- The holes that the first removal trims are at the end of what both leave, too.
    rw [keptTarget_array_of_goes hfirst, keptTarget_array_of_goes hboth, ← hparts,
      ← trimHoles_keepArrayParts_trimHoles (keepArrayParts first ps)]
    exact leftOf_bind (fun hnil => by rw [hnil]; rfl)
      fun hne => keptTarget_array_of_trimmed hne (trimHoles_trimHoles _)
  · -- The first removal leaves the pattern as it is, untrimmed, and both do what the second does.
    have hstays : ∀ t ∈ ps, arrayPartGoes first t = false := by simpa using hfirst
    have hsame : ∀ t ∈ ps, arrayPartGoes both t = arrayPartGoes second t := by
      intro t ht
      rw [arrayPartGoes_joins h, hstays t ht, Bool.false_or]
    rw [keepArrayParts_eq_self hstays] at hparts
    rw [keptTarget_array_of_stays hstays, Option.bind_some]
    by_cases hsecond : ∃ t ∈ ps, arrayPartGoes second t = true
    · have hboth : ∃ t ∈ ps, arrayPartGoes both t = true := by
        rcases hsecond with ⟨t, ht, hgoes⟩
        exact ⟨t, ht, by rw [hsame t ht, hgoes]⟩
      rw [keptTarget_array_of_goes hsecond, keptTarget_array_of_goes hboth, hparts]
    · have hstays' : ∀ t ∈ ps, arrayPartGoes second t = false := by simpa using hsecond
      have hboth : ∀ t ∈ ps, arrayPartGoes both t = false := by
        intro t ht
        rw [hsame t ht, hstays' t ht]
      rw [keptTarget_array_of_stays hstays', keptTarget_array_of_stays hboth]

/-- What is left of what is left of a target is what is left for the joined bindings. -/
theorem keptTarget_bind (t : Tree) :
    (keptTarget first t).bind (keptTarget second) = keptTarget both t := by
  fun_cases Binding.declaratorTargets t with
  | case1 name s ps => exact whole_bind h (some s) fun _ => keptTarget_name
  | case2 span parts =>
      -- An empty pattern binds nothing, so neither removal is about it; the rest is part by part.
      by_cases hps : parts = []
      · subst hps
        rfl
      · rw [keptTarget_object hps, keptTarget_object hps, ← keepObjectParts_keepObjectParts h]
        exact leftOf_bind (fun hnil => by rw [hnil]; rfl) fun hne => keptTarget_object hne
  | case3 span parts => exact keptTarget_array_bind h span parts
  | case4 t hname hobject harray =>
      rw [keptTarget_other hname hobject harray, Option.bind_some,
        keptTarget_other hname hobject harray, keptTarget_other hname hobject harray]

/-! ## Statements -/

/-- A declarator loses the same in two removals as in the joined one. -/
theorem keptDeclarator_bind (d : Tree) :
    (keptDeclarator first d).bind (keptDeclarator second) = keptDeclarator both d := by
  rcases d with ⟨l, s, ps⟩
  cases ps with
  | nil => rfl
  | cons t rest =>
      have hkept : ∀ dead u, keptDeclarator dead (.node l s (u :: rest)) =
          (keptTarget dead u).map fun u => .node l s (u :: rest) := fun _ _ => rfl
      rw [hkept, hkept, ← keptTarget_bind h t, Option.bind_map, Option.map_bind]
      rfl

theorem keptSpecifier_bind (t : Tree) :
    (keptSpecifier first t).bind (keptSpecifier second) = keptSpecifier both t :=
  whole_bind h _ fun _ => keepUnless_fst _ t

/-- A statement loses the same in two removals as in the joined one. -/
theorem kept_bind (t : Tree) : (kept first t).bind (kept second) = kept both t := by
  fun_cases keepStatement first t with
  | case1 traits s name generics parameters result body target =>
      exact whole_bind h _ fun _ => keepUnless_fst target _
  | case2 k b s ds =>
      -- A list without declarators is left as it is by both removals.
      by_cases hds : ds = []
      · subst hds
        rfl
      · have hitems : (ds.filterMap (keptDeclarator first)).filterMap (keptDeclarator second) =
            ds.filterMap (keptDeclarator both) := by
          rw [List.filterMap_filterMap]
          exact List.filterMap_congr fun d _ => keptDeclarator_bind h d
        rw [kept_variables hds, kept_variables hds, ← hitems]
        exact leftOf_bind (fun hnil => by rw [hnil]; rfl) fun hne => kept_variables hne
  | case3 s e target => exact whole_bind h _ fun _ => keepUnless_fst target _
  | case4 typeOnly phase s inner ts rest =>
      by_cases hts : ts = []
      · subst hts
        rfl
      · have hitems : (ts.filter fun t => (keptSpecifier first t).isSome).filter
              (fun t => (keptSpecifier second t).isSome) =
            ts.filter fun t => (keptSpecifier both t).isSome := by
          -- A specifier is left unchanged or not at all, so both removals see the same one.
          rw [List.filter_filter]
          refine List.filter_congr fun t _ => ?_
          rw [← keptSpecifier_bind h t]
          cases hkept : keptSpecifier first t with
          | none => simp
          | some u => simp [keptSpecifier_eq hkept]
        rw [kept_import hts, kept_import hts, ← hitems]
        exact leftOf_bind (fun hnil => by rw [hnil]; rfl) fun hne => kept_import hne
  | case5 t hfunction hvariables hexpression himport =>
      -- Nothing else goes by a name.
      have hinert : Inert t := ⟨hfunction, hvariables, hexpression, himport⟩
      simp [kept, hinert.keepStatement]

/-! ## Trees -/

/-- Two removals in a row leave what one removal of all their names leaves. -/
theorem prune_prune {t : Tree} (ht : t.inShape = true) :
    prune second (prune first t) = prune both t := by
  induction t using Tree.induct with
  | node l s ps ih =>
      have hparts := (Tree.inShape_node.1 ht).2
      have hinner : ∀ c ∈ ps, prune second (prune first c) = prune both c :=
        fun c hc => ih c hc (hparts c hc)
      by_cases hl : l = .module .statements
      · subst hl
        rw [prune_statements, prune_statements, prune_statements, List.map_filterMap,
          List.filterMap_filterMap, List.filterMap_map, List.filterMap_map]
        refine congrArg _ (List.filterMap_congr fun c hc => ?_)
        -- What the first leaves of a statement can be told after the second has pruned it inside.
        calc
          ((kept first (prune first c)).map (prune second)).bind (kept second)
              = (kept first (prune second (prune first c))).bind (kept second) := by
                rw [kept_prune second (inShape_prune (hparts c hc))]
          _ = (kept first (prune both c)).bind (kept second) := by rw [hinner c hc]
          _ = kept both (prune both c) := kept_bind h _
      · rw [prune_node first hl, prune_node second hl, prune_node both hl, List.map_map]
        refine congrArg _ (List.map_congr_left fun c hc => ?_)
        -- A part has its label before and after, so both removals look into it, or neither does.
        by_cases hsearched : Scope.searches l c.label = true
        · simp [prunePart, hsearched, hinner c hc]
        · simp [prunePart, hsearched]

omit h

/-! ## Nothing to remove -/

theorem goes_nil (site : Option Span) : goes [] site = false := by
  cases site <;> rfl

theorem keptTarget_nil (t : Tree) : keptTarget [] t = some t := by
  fun_cases Binding.declaratorTargets t with
  | case1 name s ps => exact keptTarget_name
  | case2 span parts =>
      by_cases hps : parts = []
      · subst hps
        rfl
      · have hparts : keepObjectParts [] parts = parts :=
          List.filter_eq_self.2 fun t _ => by rw [goes_nil]; rfl
        rw [keptTarget_object hps, hparts, leftOf_of_ne_nil hps]
  | case3 span parts =>
      refine keptTarget_array_of_stays fun t _ => ?_
      rw [arrayPartGoes, goes_nil, Bool.and_false]
  | case4 t hname hobject harray => exact keptTarget_other hname hobject harray

theorem keptDeclarator_nil (d : Tree) : keptDeclarator [] d = some d := by
  rcases d with ⟨l, s, ps⟩
  cases ps with
  | nil => rfl
  | cons t rest =>
      have hkept : keptDeclarator [] (.node l s (t :: rest)) =
          (keptTarget [] t).map fun u => .node l s (u :: rest) := rfl
      rw [hkept, keptTarget_nil]
      rfl

/-- A removal of nothing leaves a statement as it is. -/
theorem kept_nil (t : Tree) : kept [] t = some t := by
  have hwhole : ∀ target u, (keepUnless [] target u).1 = some u := by
    intro target u
    rw [keepUnless_fst, goes_nil]
    rfl
  fun_cases keepStatement [] t with
  | case1 traits s name generics parameters result body target => exact hwhole _ _
  | case2 kind declared span declarators =>
      by_cases hds : declarators = []
      · subst hds
        rfl
      · have hitems : declarators.filterMap (keptDeclarator []) = declarators := by
          rw [funext keptDeclarator_nil, List.filterMap_some]
        rw [kept_variables hds, hitems, leftOf_of_ne_nil hds]
  | case3 s e target => exact hwhole _ _
  | case4 typeOnly phase s inner ts rest =>
      by_cases hts : ts = []
      · subst hts
        rfl
      · have hitems : ts.filter (fun t => (keptSpecifier [] t).isSome) = ts :=
          List.filter_eq_self.2 fun t _ => by simp [keptSpecifier, keepSpecifier, hwhole]
        rw [kept_import hts, hitems, leftOf_of_ne_nil hts]
  | case5 t hfunction hvariables hexpression himport =>
      have hinert : Inert t := ⟨hfunction, hvariables, hexpression, himport⟩
      rw [kept, hinert.keepStatement]

/-- A removal of nothing leaves a tree as it is. -/
theorem prune_nil (t : Tree) : prune [] t = t := by
  induction t using Tree.induct with
  | node l s ps ih =>
      by_cases hl : l = .module .statements
      · subst hl
        rw [prune_statements, List.map_congr_left ih, List.map_id', funext kept_nil,
          List.filterMap_some]
      · have hparts : ∀ c ∈ ps, prunePart [] l c = c := fun c hc =>
          (prunePart_eq_or [] l c).elim (fun h => h.trans (ih c hc)) id
        rw [prune_node _ hl, List.map_congr_left hparts, List.map_id']

/-! ## Passes -/

/-- Passes lead from one tree to another, where nothing is dead any more. Each takes what is dead
when it begins. -/
inductive Takes (c : Context) : Tree → List (List Binding) → Tree → Prop
  | done {t : Tree} : deadBindings t c = .ok [] → Takes c t [] t
  | pass {t u : Tree} {dead : List Binding} {rest : List (List Binding)} :
      deadBindings t c = .ok dead → dead ≠ [] → Takes c (prune dead t) rest u →
      Takes c t (dead :: rest) u

/-- A run of passes to where nothing is dead takes something in each of its passes. -/
theorem exists_takes {c : Context} {t u : Tree} (h : Reaches c t u)
    (hsettled : deadBindings u c = .ok []) : ∃ taken, Takes c t taken u := by
  induction h using Relation.ReflTransGen.head_induction_on with
  | refl => exact ⟨[], .done hsettled⟩
  | head hpass _ ih =>
      rcases hpass with ⟨dead, hdead, hne, rfl⟩
      rcases ih with ⟨rest, hrest⟩
      exact ⟨dead :: rest, .pass hdead hne hrest⟩

/-- Passes leave what a removal of all that they take leaves. -/
theorem Takes.eq_prune {c : Context} {t u : Tree} {taken : List (List Binding)}
    (h : Takes c t taken u) (ht : t.inShape = true) : u = prune taken.flatten t := by
  induction h with
  | done => exact (prune_nil _).symm
  | @pass t u dead rest _ _ _ ih =>
      calc
        u = prune rest.flatten (prune dead t) := ih (inShape_prune ht)
        _ = prune (dead ++ rest.flatten) t := prune_prune (joins_append _ _) ht

/-- Removals in a row are one, in either order, and so is a sweep that ends well: it leaves what one
removal of all that its passes take leaves of the tree that it began with. -/
theorem removals_compose (root : Tree) (hshape : root.inShape = true) :
    (∀ first second both, Joins first second both →
      (removeIn second (removeIn first root).1).1 = (removeIn both root).1 ∧
      (removeIn first (removeIn second root).1).1 = (removeIn both root).1) ∧
    ∀ o c, (sweep o root c).result = .ok () →
      ∃ taken, Takes c root taken (sweep o root c).root ∧
        (sweep o root c).root = (removeIn taken.flatten root).1 := by
  constructor
  · intro first second both h
    exact ⟨prune_prune h hshape, prune_prune h.symm hshape⟩
  · intro o c hok
    rcases exists_takes (reaches_sweep o root c) (settled_sweep hshape hok) with ⟨taken, htaken⟩
    exact ⟨taken, htaken, htaken.eq_prune hshape⟩

/-- Two constants, one of them read by the other: `const b = 1; const [a, ...rest] = b;`. -/
def restModule : Tree :=
  let leaf (label : Label) (start stop : Nat) : Tree := .node label ⟨start, stop⟩ []
  let constant (start stop : Nat) (target value : Tree) : Tree :=
    .node (.statement (.variableList .constVariable false)) ⟨start, stop⟩
      [.node (.statement (.declarator false)) ⟨start + 6, stop - 1⟩ [target, .absent, value]]
  let list : Tree :=
    .node (.pattern .array) ⟨19, 31⟩
      [leaf (.pattern (.binding "a")) 20 21,
        .node (.pattern .rest) ⟨23, 30⟩ [leaf (.pattern (.binding "rest")) 26 30]]
  .node (.module (.program none false)) ⟨0, 36⟩
    [leaf (.module .prologue) 0 0,
      .node (.module .statements) ⟨0, 36⟩
        [constant 0 12 (leaf (.pattern (.binding "b")) 6 7) (leaf (.expression (.number "1")) 10 11),
          constant 13 36 list (leaf (.expression (.reference "b" .read)) 34 35)]]

/-- The pattern loses its element and then its rest, or both at once. The constant that it reads
goes a pass later, and all three would go in one removal. -/
theorem removals_compose_restModule :
    restModule.inShape = true ∧ ∃ first second,
      first = [⟨"a", .variable, ⟨20, 21⟩, ⟨20, 21⟩, ⟨"a", ⟨20, 21⟩⟩⟩] ∧
      second = [⟨"rest", .variable, ⟨26, 30⟩, ⟨26, 30⟩, ⟨"rest", ⟨26, 30⟩⟩⟩] ∧
      (removeIn second (removeIn first restModule).1).1 =
        (removeIn (first ++ second) restModule).1 ∧
      ∃ taken, Takes { refs := [⟨6, 7⟩, ⟨20, 21⟩, ⟨26, 30⟩] } restModule taken
          (sweep {} restModule { refs := [⟨6, 7⟩, ⟨20, 21⟩, ⟨26, 30⟩] }).root ∧
        (sweep {} restModule { refs := [⟨6, 7⟩, ⟨20, 21⟩, ⟨26, 30⟩] }).root =
          (removeIn taken.flatten restModule).1 := by
  have hshape : restModule.inShape = true := by decide
  refine ⟨hshape, _, _, rfl, rfl, ?_, ?_⟩
  · exact ((removals_compose restModule hshape).1 _ _ _ (joins_append _ _)).1
  · exact (removals_compose restModule hshape).2 _ _ rfl

end RouteSplit.Sweep
