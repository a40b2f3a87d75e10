import RouteSplit.Proofs.Sweep.Run

/-!
# Deletions

A removal takes all dead names of a tree at once. It can be taken apart into deletions of one name
each, and none of them touches anything else: a name goes with what it leaves empty.

- `TargetLoses`, `DeclaratorLoses`, `StatementLoses`: what is left of a construct, if anything, when
  one of its names goes;
- `Deletion`: one name goes from a statement list, wherever that stands;
- `Fades`: any number of losses;
- `fades_items`: a construct whose items go one by one goes with the last one;
- `fades_target`, `fades_kept`: what a removal leaves of a target and of a statement;
- `deletions_prune`, `deletions_reaches`: a removal and a run of passes are deletions.
-/

namespace RouteSplit.Sweep

open Relation

/-! ## Losses -/

/-- What is left of a construct that is built from these items: nothing if there are none. -/
def leftOf (build : List Tree → Tree) (items : List Tree) : Option Tree :=
  if items.isEmpty then none else some (build items)

/-- `kept` is `places` without the holes at its end. -/
structure Trims (places kept : List Tree) : Prop where
  holes : ∃ hs, places = kept ++ hs ∧ ∀ t ∈ hs, Binding.isHole t = true
  stops : ∀ t ∈ kept.getLast?, Binding.isHole t = false

theorem Trims.subset {places kept : List Tree} (h : Trims places kept) : kept ⊆ places := by
  rcases h.holes with ⟨hs, rfl, -⟩
  exact List.subset_append_left _ _

/-- What is left of a declarator's target when one of its names goes. A name goes as a whole, and a
pattern with its last name. -/
inductive TargetLoses : Tree → Option Tree → Prop
  | name {name : String} {s : Span} {ps : List Tree} :
      TargetLoses (.node (.pattern (.binding name)) s ps) none
  /-- A property or the rest of an object pattern. -/
  | part {s : Span} {before behind : List Tree} {t : Tree} :
      TargetLoses (.node (.pattern .object) s (before ++ t :: behind))
        (leftOf (.node (.pattern .object) s) (before ++ behind))
  /-- An element of an array pattern leaves a hole, so that those behind it keep their places. -/
  | element {s place : Span} {before behind kept : List Tree} {t : Tree} :
      Binding.isHole t = false → Binding.isRest t = false →
      Trims (before ++ .node (.expression .hole) place [] :: behind) kept →
      TargetLoses (.node (.pattern .array) s (before ++ t :: behind))
        (leftOf (.node (.pattern .array) s) kept)
  /-- The rest of an array pattern has nothing behind it to keep in place. -/
  | rest {s : Span} {before behind kept : List Tree} {t : Tree} :
      Binding.isRest t = true → Trims (before ++ behind) kept →
      TargetLoses (.node (.pattern .array) s (before ++ t :: behind))
        (leftOf (.node (.pattern .array) s) kept)

/-- What is left of a declarator. It goes with its target. -/
inductive DeclaratorLoses : Tree → Option Tree → Prop
  | target {l : Label} {s : Span} {t : Tree} {left : Option Tree} {rest : List Tree} :
      TargetLoses t left →
      DeclaratorLoses (.node l s (t :: rest)) (left.map fun u => .node l s (u :: rest))

/-- What is left of a statement. -/
inductive StatementLoses : Tree → Option Tree → Prop
  /-- A function that is defined here. -/
  | function {traits : FunctionTraits} {s : Span} {name generics parameters result body : Tree} :
      body.isAbsent = false →
      StatementLoses (.node (.function (.function .declaration false traits)) s
        [name, generics, parameters, result, body]) none
  /-- A function that is given to a name. -/
  | assignment {s inner site : Span} {name : String} {u : Usage} {ps : List Tree} {value : Tree} :
      value.isFunctionLike = true →
      StatementLoses (.node (.statement .expression) s [.node (.expression (.assign "=")) inner
        [.node (.expression (.reference name u)) site ps, value]]) none
  | variables {k : VariableKind} {b : Bool} {s : Span} {before behind : List Tree} {d : Tree}
      {left : Option Tree} :
      DeclaratorLoses d left →
      StatementLoses (.node (.statement (.variableList k b)) s (before ++ d :: behind))
        (leftOf (.node (.statement (.variableList k b)) s) (before ++ left.toList ++ behind))
  | specifier {typeOnly : Bool} {phase : Option String} {s inner : Span}
      {before behind rest : List Tree} {t : Tree} :
      StatementLoses (.node (.module (.importDeclaration typeOnly phase)) s
          (.node (.module .importClause) inner (before ++ t :: behind) :: rest))
        (leftOf (fun kept => .node (.module (.importDeclaration typeOnly phase)) s
          (.node (.module .importClause) inner kept :: rest)) (before ++ behind))

/-- One name goes from a statement list. Everything else is as it was. -/
inductive Deletion : Tree → Tree → Prop
  | statement {s : Span} {before behind : List Tree} {t : Tree} {left : Option Tree} :
      StatementLoses t left →
      Deletion (.node (.module .statements) s (before ++ t :: behind))
        (.node (.module .statements) s (before ++ left.toList ++ behind))
  | inside {l : Label} {s : Span} {before behind : List Tree} {t u : Tree} :
      Deletion t u →
      Deletion (.node l s (before ++ t :: behind)) (.node l s (before ++ u :: behind))

/-! ## Any number of losses -/

/-- What is left of a construct, if anything, after any number of losses. -/
inductive Fades (Loses : Tree → Option Tree → Prop) : Tree → Option Tree → Prop
  | stays {t : Tree} : Fades Loses t (some t)
  | goes {t : Tree} : Loses t none → Fades Loses t none
  | loses {t u : Tree} {left : Option Tree} :
      Loses t (some u) → Fades Loses u left → Fades Loses t left

section Fades

variable {Loses Item Whole : Tree → Option Tree → Prop} {build : List Tree → Tree}
  {t u : Tree} {left : Option Tree}

theorem leftOf_of_ne_nil {items : List Tree} (h : items ≠ []) :
    leftOf build items = some (build items) := by
  rw [leftOf, if_neg (by simpa using h)]

/-- Something is left of a construct if some of its items are. -/
theorem leftOf_eq_some {items : List Tree} :
    leftOf build items = some u ↔ items ≠ [] ∧ build items = u := by
  by_cases hitems : items = []
  · simp [leftOf, hitems]
  · rw [leftOf_of_ne_nil hitems, Option.some_inj]
    exact ⟨fun h => ⟨hitems, h⟩, And.right⟩

theorem append_filterMap_cons (keep : Tree → Option Tree) (done : List Tree) (t : Tree)
    (ts : List Tree) :
    done ++ (t :: ts).filterMap keep = done ++ (keep t).toList ++ ts.filterMap keep := by
  cases hkept : keep t <;> simp [hkept]

/-- What is left of a construct is told by when nothing is and by what it is otherwise. -/
theorem eq_leftOf {items : List Tree} (hnone : left = none ↔ items = [])
    (hsome : ∀ u, left = some u → u = build items) : left = leftOf build items := by
  by_cases hitems : items = []
  · rw [hnone.2 hitems, hitems]
    rfl
  · rw [leftOf_of_ne_nil hitems]
    cases left with
    | none => exact absurd (hnone.1 rfl) hitems
    | some u => rw [hsome u rfl]

theorem Fades.single (h : Loses t left) : Fades Loses t left := by
  cases left with
  | none => exact .goes h
  | some u => exact .loses h .stays

/-- What fades in two stages fades in one. -/
theorem Fades.trans (h : Fades Loses t (some u)) (h' : Fades Loses u left) :
    Fades Loses t left := by
  generalize hleft : some u = first at h
  induction h with
  | stays =>
      obtain rfl := Option.some.inj hleft
      exact h'
  | goes => cases hleft
  | loses hloses _ ih => exact .loses hloses (ih hleft)

/-- A construct loses what its one part does. -/
theorem Fades.map {f : Tree → Tree} (hf : ∀ t left, Item t left → Whole (f t) (left.map f))
    (h : Fades Item t left) : Fades Whole (f t) (left.map f) := by
  induction h with
  | stays => exact .stays
  | goes hgoes => exact .goes (hf _ _ hgoes)
  | loses hloses _ ih => exact .loses (hf _ _ hloses) ih

section Items

variable (build)
variable (hstep : ∀ before t behind left, Item t left →
  Whole (build (before ++ t :: behind)) (leftOf build (before ++ left.toList ++ behind)))
include hstep

/-- If an item fades among others, so does the construct, which goes with its last item. -/
theorem Fades.item (h : Fades Item t left) (before behind : List Tree) :
    Fades Whole (build (before ++ t :: behind))
      (leftOf build (before ++ left.toList ++ behind)) := by
  have hbuilt : ∀ u, leftOf build (before ++ (some u).toList ++ behind) =
      some (build (before ++ u :: behind)) := by
    intro u
    rw [Option.toList_some, List.append_assoc, List.singleton_append, leftOf_of_ne_nil (by simp)]
  induction h with
  | stays =>
      rw [hbuilt]
      exact .stays
  | goes hgoes => exact .single (hstep _ _ _ _ hgoes)
  | @loses t u left hloses _ ih =>
      have hfirst := hstep before t behind _ hloses
      rw [hbuilt] at hfirst
      exact .loses hfirst ih

/-- If each item fades by itself, the construct fades item by item from the left. -/
theorem fades_items_behind {keep : Tree → Option Tree} {items : List Tree} (done : List Tree)
    (hne : done ++ items ≠ []) (hkeep : ∀ t ∈ items, Fades Item t (keep t)) :
    Fades Whole (build (done ++ items)) (leftOf build (done ++ items.filterMap keep)) := by
  induction items generalizing done with
  | nil =>
      rw [List.filterMap_nil, leftOf_of_ne_nil hne]
      exact .stays
  | cons t ts ih =>
      have hfirst := (hkeep t List.mem_cons_self).item build hstep done ts
      have hrest := fun u hu => hkeep u (List.mem_cons_of_mem _ hu)
      rw [append_filterMap_cons]
      by_cases hnil : done ++ (keep t).toList ++ ts = []
      · -- The last item went, and the construct with it.
        rcases List.append_eq_nil_iff.1 hnil with ⟨hdone, rfl⟩
        rw [List.append_nil, hdone] at hfirst
        rw [hdone]
        exact hfirst
      · rw [leftOf_of_ne_nil hnil] at hfirst
        exact hfirst.trans (ih _ hnil hrest)

/-- A construct whose items go one by one is left with those that stay, and goes with the last
one. -/
theorem fades_items {keep : Tree → Option Tree} {items : List Tree} (hne : items ≠ [])
    (hkeep : ∀ t ∈ items, Fades Item t (keep t)) :
    Fades Whole (build items) (leftOf build (items.filterMap keep)) :=
  fades_items_behind build hstep [] hne hkeep

end Items

/-- A construct whose items go or stay as they are is left with those that stay. -/
theorem fades_filter (build : List Tree → Tree) {p : Tree → Bool}
    (hstep : ∀ before t behind, p t = false →
      Whole (build (before ++ t :: behind)) (leftOf build (before ++ behind)))
    {items : List Tree} (hne : items ≠ []) :
    Fades Whole (build items) (leftOf build (items.filter p)) := by
  have hitems : ∀ t ∈ items,
      Fades (fun t left => left = none ∧ p t = false) t (Option.guard p t) := by
    intro t _
    cases hp : p t with
    | true =>
        have hkept : Option.guard p t = some t := by simp [Option.guard, hp]
        rw [hkept]
        exact .stays
    | false =>
        have hgone : Option.guard p t = none := by simp [Option.guard, hp]
        rw [hgone]
        exact .goes ⟨rfl, hp⟩
  rw [← List.filterMap_eq_filter]
  refine fades_items build ?_ hne hitems
  rintro before t behind left ⟨rfl, hp⟩
  rw [Option.toList_none, List.append_nil]
  exact hstep before t behind hp

end Fades

/-! ## Patterns -/

variable {dead : List Binding}

/-- An item that may go or stay as it is. -/
theorem fades_of_ite {Loses : Tree → Option Tree → Prop} {t : Tree} {P : Prop} [Decidable P]
    (h : P → Loses t none) : Fades Loses t (if P then none else some t) := by
  split_ifs with hP
  · exact .goes (h hP)
  · exact .stays

/-- What is left of an object pattern is the pattern of the parts that stay, if any do. -/
theorem keptTarget_object {s : Span} {ps : List Tree} (hps : ps ≠ []) :
    keptTarget dead (.node (.pattern .object) s ps) =
      leftOf (.node (.pattern .object) s) (keepObjectParts dead ps) := by
  apply eq_leftOf
  · rw [keptTarget_object_eq_none_iff]
    simp [hps, keepObjectParts, objectPartGoes, List.filter_eq_nil_iff]
  · intro u hu
    rcases Option.ite_none_left_eq_some.1 hu with ⟨-, hu⟩
    exact (Option.some.inj hu).symm

/-! ### Places of an array pattern -/

/-- What stands where a place was that went. -/
def vacated (t : Tree) : List Tree := if Binding.isRest t then [] else [holeAt t]

theorem isHole_of_mem_vacated {t u : Tree} (h : u ∈ vacated t) : Binding.isHole u = true := by
  unfold vacated at h
  split_ifs at h
  · simp at h
  · obtain rfl := List.mem_singleton.1 h
    rfl

/-- Trimming leaves out holes at the end and nothing else. -/
theorem trims_trimHoles (ps : List Tree) : Trims ps (trimHoles ps) := by
  rcases exists_append_trimHoles ps with ⟨hs, hholes, happend⟩
  refine ⟨⟨hs, happend.symm, hholes⟩, ?_⟩
  intro t ht
  rw [trimHoles, List.getLast?_reverse] at ht
  have hfirst := List.head?_dropWhile_not Binding.isHole ps.reverse
  rw [Option.mem_def.1 ht] at hfirst
  simpa using hfirst

/-- Holes behind a pattern do not change what trimming leaves of it. -/
theorem trimHoles_append {ps hs : List Tree} (h : ∀ t ∈ hs, Binding.isHole t = true) :
    trimHoles (ps ++ hs) = trimHoles ps := by
  unfold trimHoles
  rw [List.reverse_append, List.dropWhile_append_of_pos]
  exact fun t ht => h t (List.mem_reverse.1 ht)

/-- Trimming twice leaves what trimming once does. -/
theorem trimHoles_trimHoles (ps : List Tree) : trimHoles (trimHoles ps) = trimHoles ps := by
  rcases exists_append_trimHoles ps with ⟨hs, hholes, happend⟩
  nth_rewrite 2 [← happend]
  exact (trimHoles_append hholes).symm

/-- Which places stay is decided place by place. -/
theorem keepArrayParts_append (ps qs : List Tree) :
    keepArrayParts dead (ps ++ qs) = keepArrayParts dead ps ++ keepArrayParts dead qs :=
  List.filterMap_append

/-- Where no place goes, all stay. -/
theorem keepArrayParts_eq_self {ps : List Tree} (h : ∀ t ∈ ps, arrayPartGoes dead t = false) :
    keepArrayParts dead ps = ps := by
  unfold keepArrayParts
  rw [List.filterMap_congr (g := some), List.filterMap_some]
  intro t ht
  have hstays := h t ht
  unfold arrayPartGoes at hstays
  cases hhole : Binding.isHole t with
  | true => rfl
  | false =>
      simp only [hhole, Bool.not_false, Bool.true_and] at hstays
      simp [hstays]

theorem arrayPartGoes_of_isHole {t : Tree} (h : Binding.isHole t = true) :
    arrayPartGoes dead t = false := by
  simp [arrayPartGoes, h]

/-- A place that has been left empty stays as it is. -/
theorem keepArrayParts_vacated {t : Tree} (h : arrayPartGoes dead t = true) :
    keepArrayParts dead (vacated t) = keepArrayParts dead [t] := by
  rcases Bool.and_eq_true_iff.1 h with ⟨hhole, hgoes⟩
  rw [keepArrayParts_eq_self fun u hu => arrayPartGoes_of_isHole (isHole_of_mem_vacated hu)]
  have hplace : Binding.isHole t = false := by simpa using hhole
  cases hrest : Binding.isRest t <;> simp [vacated, keepArrayParts, hplace, hgoes, hrest]

/-- Holes at the end can be trimmed before places go. -/
theorem trimHoles_keepArrayParts_trimHoles (ps : List Tree) :
    trimHoles (keepArrayParts dead (trimHoles ps)) = trimHoles (keepArrayParts dead ps) := by
  rcases exists_append_trimHoles ps with ⟨hs, hholes, happend⟩
  have hstay : keepArrayParts dead hs = hs :=
    keepArrayParts_eq_self fun u hu => arrayPartGoes_of_isHole (hholes u hu)
  calc
    trimHoles (keepArrayParts dead (trimHoles ps)) =
        trimHoles (keepArrayParts dead (trimHoles ps) ++ hs) := (trimHoles_append hholes).symm
    _ = trimHoles (keepArrayParts dead ps) := by
      nth_rewrite 1 [← hstay]
      rw [← keepArrayParts_append, happend]

/-- A place that goes first changes nothing about what is left in the end. -/
theorem trimHoles_keepArrayParts_vacated {before behind : List Tree} {t : Tree}
    (h : arrayPartGoes dead t = true) :
    trimHoles (keepArrayParts dead (trimHoles (before ++ vacated t ++ behind))) =
      trimHoles (keepArrayParts dead (before ++ t :: behind)) := by
  rw [trimHoles_keepArrayParts_trimHoles, ← List.singleton_append, ← List.append_assoc]
  simp only [keepArrayParts_append, keepArrayParts_vacated h]

/-- An array pattern can lose the name of any of its places. -/
theorem targetLoses_place (s : Span) (before behind : List Tree) {t : Tree}
    (h : arrayPartGoes dead t = true) :
    TargetLoses (.node (.pattern .array) s (before ++ t :: behind))
      (leftOf (.node (.pattern .array) s) (trimHoles (before ++ vacated t ++ behind))) := by
  have hhole : Binding.isHole t = false := by
    simpa using (Bool.and_eq_true_iff.1 h).1
  have htrims := trims_trimHoles (before ++ vacated t ++ behind)
  cases hrest : Binding.isRest t with
  | true =>
      have hvacated : vacated t = [] := if_pos hrest
      rw [hvacated, List.append_nil] at htrims ⊢
      exact .rest hrest htrims
  | false =>
      have hvacated : vacated t = [holeAt t] := if_neg (by simp [hrest])
      rw [hvacated, List.append_assoc, List.singleton_append] at htrims ⊢
      exact .element hhole hrest htrims

/-- A place that went leaves fewer to go. -/
theorem countP_vacated_lt (before behind : List Tree) {t : Tree}
    (h : arrayPartGoes dead t = true) :
    (trimHoles (before ++ vacated t ++ behind)).countP (arrayPartGoes dead) <
      (before ++ t :: behind).countP (arrayPartGoes dead) := by
  have hnone : (vacated t).countP (arrayPartGoes dead) = 0 := by
    rw [List.countP_eq_zero]
    intro u hu
    simp [arrayPartGoes_of_isHole (isHole_of_mem_vacated hu)]
  have hsub : (trimHoles (before ++ vacated t ++ behind)).Sublist
      (before ++ vacated t ++ behind) := by
    rcases exists_append_trimHoles (before ++ vacated t ++ behind) with ⟨hs, -, happend⟩
    nth_rewrite 2 [← happend]
    exact List.sublist_append_left _ _
  calc
    (trimHoles (before ++ vacated t ++ behind)).countP (arrayPartGoes dead) ≤
        (before ++ vacated t ++ behind).countP (arrayPartGoes dead) := hsub.countP_le
    _ = before.countP (arrayPartGoes dead) + behind.countP (arrayPartGoes dead) := by
      rw [List.countP_append, List.countP_append, hnone, Nat.add_zero]
    _ < (before ++ t :: behind).countP (arrayPartGoes dead) := by
      rw [List.countP_append, List.countP_cons_of_pos h]
      omega

/-- The places of an array pattern go one by one. -/
theorem fades_array {s : Span} {ps : List Tree} (h : ∃ t ∈ ps, arrayPartGoes dead t = true) :
    Fades TargetLoses (.node (.pattern .array) s ps)
      (leftOf (.node (.pattern .array) s) (trimHoles (keepArrayParts dead ps))) := by
  -- By the number of places that go: one that went leaves a hole or nothing, and holes never go.
  induction hcount : ps.countP (arrayPartGoes dead) using Nat.strong_induction_on
    generalizing ps with
  | _ n ih =>
      rcases h with ⟨t, ht, hgoes⟩
      rcases List.append_of_mem ht with ⟨before, behind, rfl⟩
      have hstep := targetLoses_place s before behind hgoes
      have hfewer := countP_vacated_lt before behind hgoes
      rw [hcount] at hfewer
      rw [← trimHoles_keepArrayParts_vacated hgoes]
      generalize hleft : trimHoles (before ++ vacated t ++ behind) = qs at *
      by_cases hnil : qs = []
      · subst hnil
        exact .single hstep
      · rw [leftOf_of_ne_nil hnil] at hstep
        refine .loses hstep ?_
        by_cases hmore : ∃ t ∈ qs, arrayPartGoes dead t = true
        · exact ih _ hfewer hmore rfl
        · have hstay : keepArrayParts dead qs = qs := by
            refine keepArrayParts_eq_self fun u hu => ?_
            by_contra hgoes'
            exact hmore ⟨u, hu, by simpa using hgoes'⟩
          have htrimmed : trimHoles qs = qs := by
            rw [← hleft, trimHoles_trimHoles]
          rw [hstay, htrimmed, leftOf_of_ne_nil hnil]
          exact .stays

/-! ## Targets and declarators -/

theorem keptTarget_name {name : String} {s : Span} {ps : List Tree} :
    keptTarget dead (.node (.pattern (.binding name)) s ps) =
      if isDead dead s then none else some (.node (.pattern (.binding name)) s ps) := by
  rw [keptTarget, keepTarget]
  split_ifs <;> rfl

/-- What is left of an array pattern that loses a name is the pattern of the places that stay,
trimmed. -/
theorem keptTarget_array_of_goes {s : Span} {ps : List Tree}
    (h : ∃ t ∈ ps, arrayPartGoes dead t = true) :
    keptTarget dead (.node (.pattern .array) s ps) =
      leftOf (.node (.pattern .array) s) (trimHoles (keepArrayParts dead ps)) := by
  have hrecord : arrayRecord dead ps ≠ [] := arrayRecord_ne_nil_iff.2 h
  rw [keptTarget, keepTarget, if_neg (by simpa using hrecord)]
  rfl

/-- A pattern that loses nothing is not trimmed either. -/
theorem keptTarget_array_of_stays {s : Span} {ps : List Tree}
    (h : ∀ t ∈ ps, arrayPartGoes dead t = false) :
    keptTarget dead (.node (.pattern .array) s ps) = some (.node (.pattern .array) s ps) := by
  have hrecord : arrayRecord dead ps = [] := by
    by_contra hne
    rcases arrayRecord_ne_nil_iff.1 hne with ⟨t, ht, hgoes⟩
    exact absurd hgoes (by simp [h t ht])
  rw [keptTarget, keepTarget, if_pos (by simp [hrecord])]

/-- A pattern without holes at its end has none to trim, so it does not matter whether it loses
something. -/
theorem keptTarget_array_of_trimmed {s : Span} {ps : List Tree} (hne : ps ≠ [])
    (htrimmed : trimHoles ps = ps) :
    keptTarget dead (.node (.pattern .array) s ps) =
      leftOf (.node (.pattern .array) s) (trimHoles (keepArrayParts dead ps)) := by
  by_cases hlost : ∃ t ∈ ps, arrayPartGoes dead t = true
  · exact keptTarget_array_of_goes hlost
  · have hstays : ∀ t ∈ ps, arrayPartGoes dead t = false := by simpa using hlost
    rw [keptTarget_array_of_stays hstays, keepArrayParts_eq_self hstays, htrimmed,
      leftOf_of_ne_nil hne]

theorem keptTarget_other {t : Tree}
    (hname : ∀ name s ps, t ≠ .node (.pattern (.binding name)) s ps)
    (hobject : ∀ s ps, t ≠ .node (.pattern .object) s ps)
    (harray : ∀ s ps, t ≠ .node (.pattern .array) s ps) : keptTarget dead t = some t := by
  rw [keptTarget, keepTarget]
  all_goals assumption

/-- What a removal leaves of a target is what the loss of its dead names leaves. -/
theorem fades_target (t : Tree) : Fades TargetLoses t (keptTarget dead t) := by
  fun_cases Binding.declaratorTargets t with
  | case1 name s ps =>
      rw [keptTarget_name]
      exact fades_of_ite fun _ => .name
  | case2 span parts =>
      by_cases hps : parts = []
      · subst hps
        exact .stays
      · rw [keptTarget_object hps]
        exact fades_filter _ (fun _ _ _ _ => .part) hps
  | case3 span parts =>
      by_cases hlost : ∃ t ∈ parts, arrayPartGoes dead t = true
      · rw [keptTarget_array_of_goes hlost]
        exact fades_array hlost
      · rw [keptTarget_array_of_stays (by simpa using hlost)]
        exact .stays
  | case4 t hname hobject harray =>
      rw [keptTarget_other hname hobject harray]
      exact .stays

/-- What is left of a declarator is what the loss of its dead names leaves. -/
theorem fades_declarator (d : Tree) : Fades DeclaratorLoses d (keptDeclarator dead d) := by
  rcases d with ⟨l, s, ps⟩
  cases ps with
  | nil => exact .stays
  | cons t rest =>
      exact (fades_target t).map (f := fun u => .node l s (u :: rest)) fun _ _ h => .target h

/-! ## Statements -/

/-- A target that goes is put down. -/
theorem record_ne_nil_of_gone {t : Tree} (h : keptTarget dead t = none) :
    (keepTarget dead t).2 ≠ [] := by
  unfold keptTarget at h
  revert h
  fun_cases keepTarget dead t with
  | case1 name s ps hdead =>
      intro _
      simpa [taken_eq_nil] using hdead
  -- Names that survive put nothing down.
  | case2 name s ps hdead => simp
  | case3 span parts lost kept =>
      intro h hnil
      have hlost : lost = [] := hnil
      rw [if_neg (by rw [hlost]; simp)] at h
      cases h
  | case4 span parts lost hlost => simp
  | case5 span parts lost hlost kept =>
      intro _
      simpa using hlost
  | case6 t hname hobject harray => simp

/-- What is left of a declaration of variables is the declaration of those that stay, if any do. -/
theorem kept_variables {k : VariableKind} {b : Bool} {s : Span} {ds : List Tree} (hds : ds ≠ []) :
    kept dead (.node (.statement (.variableList k b)) s ds) =
      leftOf (.node (.statement (.variableList k b)) s) (ds.filterMap (keptDeclarator dead)) := by
  apply eq_leftOf
  · refine keepItems_eq_none_iff.trans ⟨And.left, fun hnone => ⟨hnone, ?_⟩⟩
    -- There is a declarator, and it went, so something was put down.
    rcases List.exists_mem_of_ne_nil ds hds with ⟨⟨l, s, ps⟩, hd⟩
    have hgone : keptDeclarator dead (.node l s ps) = none := List.filterMap_eq_nil_iff.1 hnone _ hd
    rw [ne_eq, List.flatMap_eq_nil_iff]
    intro hrecord
    cases ps with
    | nil => simp [keptDeclarator, keepDeclarator] at hgone
    | cons t rest =>
        rw [keptDeclarator, keepDeclarator, Option.map_eq_none_iff] at hgone
        exact record_ne_nil_of_gone hgone (hrecord _ hd)
  · exact fun u hu => eq_of_kept_variables hu

/-- What is left of an import is the import of the names that stay, if any do. -/
theorem kept_import {typeOnly : Bool} {phase : Option String} {s inner : Span}
    {ts rest : List Tree} (hts : ts ≠ []) :
    kept dead (.node (.module (.importDeclaration typeOnly phase)) s
        (.node (.module .importClause) inner ts :: rest)) =
      leftOf (fun kept => .node (.module (.importDeclaration typeOnly phase)) s
        (.node (.module .importClause) inner kept :: rest))
          (ts.filter fun t => (keptSpecifier dead t).isSome) := by
  have hfilter : ts.filterMap (keptSpecifier dead) =
      ts.filter fun t => (keptSpecifier dead t).isSome := by
    rw [← List.filterMap_eq_filter]
    apply List.filterMap_congr
    intro t _
    cases hkept : keptSpecifier dead t with
    | none => simp [Option.guard, hkept]
    | some u => simp [Option.guard, hkept, keptSpecifier_eq hkept]
  apply eq_leftOf
  · rw [kept_import_eq_none_iff, allDead_importNames_iff, ← hfilter, List.filterMap_eq_nil_iff]
    simp only [← keptSpecifier_eq_none_iff, ne_eq, hts, not_false_iff, true_and]
  · intro u hu
    rw [eq_of_kept_import hu, hfilter]

theorem fades_unless {Loses : Tree → Option Tree → Prop} {target : Option (String × Span)}
    {t : Tree} (h : target.isSome = true → Loses t none) :
    Fades Loses t (keepUnless dead target t).1 := by
  rw [keepUnless_fst]
  refine fades_of_ite fun hgoes => h ?_
  cases target with
  | none => simp [goes] at hgoes
  | some x => rfl

/-- What a removal leaves of a statement is what the loss of its dead names leaves. -/
theorem fades_kept (t : Tree) : Fades StatementLoses t (kept dead t) := by
  fun_cases keepStatement dead t with
  | case1 traits s name generics parameters result body target =>
      rw [kept, keepStatement]
      refine fades_unless fun htarget => .function ?_
      -- A function without a body goes by no name.
      by_contra habsent
      rw [if_pos (by simpa using habsent)] at htarget
      simp at htarget
  | case2 kind declared span declarators =>
      by_cases hds : declarators = []
      · subst hds
        exact .stays
      · rw [kept_variables hds]
        refine fades_items _ ?_ hds fun d _ => fades_declarator d
        exact fun _ _ _ _ h => .variables h
  | case3 s e target =>
      rw [kept, keepStatement]
      refine fades_unless fun htarget => ?_
      rw [Option.isSome_map] at htarget
      revert htarget
      fun_cases Binding.assignedFunction? e with
      | case1 inner name u site ps value hvalue => exact fun _ => .assignment hvalue
      | case2 inner name u site ps value hvalue => simp
      | case3 e hother => simp
  | case4 typeOnly phase s inner ts rest =>
      by_cases hts : ts = []
      · subst hts
        exact .stays
      · rw [kept_import hts]
        exact fades_filter (fun kept => .node (.module (.importDeclaration typeOnly phase)) s
          (.node (.module .importClause) inner kept :: rest)) (fun _ _ _ _ => .specifier) hts
  | case5 t hfunction hvariables hexpression himport =>
      have hinert : Inert t := ⟨hfunction, hvariables, hexpression, himport⟩
      rw [kept, hinert.keepStatement]
      exact .stays

/-! ## Trees -/

/-- Items of a list fade one by one, each where it stands. -/
theorem steps_items {Step : Tree → Tree → Prop} {Loses : Tree → Option Tree → Prop}
    (build : List Tree → Tree) {keep : Tree → Option Tree}
    (hstep : ∀ before t behind left, Loses t left →
      Step (build (before ++ t :: behind)) (build (before ++ left.toList ++ behind)))
    {items : List Tree} (hkeep : ∀ t ∈ items, Fades Loses t (keep t)) (done : List Tree) :
    ReflTransGen Step (build (done ++ items)) (build (done ++ items.filterMap keep)) := by
  have hitem : ∀ {t left}, Fades Loses t left → ∀ before behind,
      ReflTransGen Step (build (before ++ t :: behind))
        (build (before ++ left.toList ++ behind)) := by
    intro t left h before behind
    induction h with
    | stays => rw [Option.toList_some, List.append_assoc, List.singleton_append]
    | goes hgoes => exact .single (hstep _ _ _ _ hgoes)
    | loses hloses _ ih =>
        have hfirst := hstep before _ behind _ hloses
        rw [Option.toList_some, List.append_assoc, List.singleton_append] at hfirst
        exact .head hfirst ih
  induction items generalizing done with
  | nil => exact .refl
  | cons t ts ih =>
      have hfirst := hitem (hkeep t List.mem_cons_self) done ts
      have hrest := ih (fun u hu => hkeep u (List.mem_cons_of_mem _ hu)) (done ++ (keep t).toList)
      rw [append_filterMap_cons]
      exact hfirst.trans hrest

/-- Where something is deleted in each of some parts, it is deleted in the whole. -/
theorem deletions_parts {l : Label} {s : Span} {f : Tree → Tree} {ps : List Tree}
    (h : ∀ c ∈ ps, ReflTransGen Deletion c (f c)) (done : List Tree) :
    ReflTransGen Deletion (.node l s (done ++ ps)) (.node l s (done ++ ps.map f)) := by
  induction ps generalizing done with
  | nil => exact .refl
  | cons c cs ih =>
      have hfirst : ReflTransGen Deletion (.node l s (done ++ c :: cs))
          (.node l s (done ++ f c :: cs)) :=
        ReflTransGen.lift (fun u => Tree.node l s (done ++ u :: cs))
          (fun _ _ hdeletion => Deletion.inside hdeletion) _ _ (h c List.mem_cons_self)
      have hrest := ih (fun u hu => h u (List.mem_cons_of_mem _ hu)) (done ++ [f c])
      rw [List.append_assoc, List.append_assoc] at hrest
      exact hfirst.trans hrest

/-- A removal is made of deletions. -/
theorem deletions_prune (t : Tree) : ReflTransGen Deletion t (prune dead t) := by
  induction t using Tree.induct with
  | node l s ps ih =>
      by_cases hl : l = .module .statements
      · subst hl
        rw [prune_statements]
        -- The lists inside come first, then the statements of this one.
        refine (deletions_parts ih []).trans (steps_items _ ?_ (fun c _ => fades_kept c) [])
        exact fun _ _ _ _ h => .statement h
      · rw [prune_node dead hl]
        refine deletions_parts (fun c hc => ?_) []
        rcases prunePart_eq_or dead l c with heq | heq
        · rw [heq]
          exact ih c hc
        · rw [heq]

/-- A run of passes is made of deletions. -/
theorem deletions_reaches {c : Context} {t t' : Tree} (h : Reaches c t t') :
    ReflTransGen Deletion t t' := by
  induction h with
  | refl => exact .refl
  | tail _ hpass ih =>
      rcases hpass with ⟨dead, -, -, rfl⟩
      exact ih.trans (deletions_prune _)

end RouteSplit.Sweep
