import RouteSplit.Proofs.Scope.Resolution
import RouteSplit.Proofs.Sweep.Pieces

/-!
# Declarations of a pruned tree

A removal leaves a declaration as it is, or takes it away with its name or with the code around it.
One thing can change: a namespace that loses its last value is left without one.

- `boundNames_prune`, `introduced_prune`: names do not depend on what is pruned inside;
- `value_of_prune`: a namespace can lose its value, and never gains one;
- `versions`, `versionRule`: a declaration, and what may become of its meaning;
- `cuttable_useRule`, `cuttable_mentionRule`, `cuttable_versionRule`: what a removal takes.
-/

namespace RouteSplit.Sweep

open Scope

variable {dead : List Binding}

/-! ## Bound names -/

theorem boundNames_of_not_pattern {t : Tree} (h : Tree.isPattern t.label = false) :
    t.boundNames = [] := by
  obtain ⟨l, s, ps⟩ := t
  cases l with
  | pattern form => simp [Tree.isPattern] at h
  | _ => rfl

/-- A removal inside a target leaves the names that it binds. -/
theorem boundNames_prune (t : Tree) : (prune dead t).boundNames = t.boundNames := by
  induction t using Tree.induct with
  | node l s ps ih =>
      have hall : Tree.boundNamesAll (ps.map (prune dead)) = Tree.boundNamesAll ps := by
        rw [boundNamesAll_eq_flatMap, boundNamesAll_eq_flatMap, List.flatMap_map]
        exact List.flatMap_congr ih
      cases l with
      | pattern form =>
          rw [prune_of_plain dead (by simp)]
          cases form with
          | object | array => exact hall
          | property computed =>
              match ps with
              | [_, c] => exact ih c (by simp)
              | [] | [_] | _ :: _ :: _ :: _ => rfl
          | withDefault =>
              match ps with
              | c :: _ => exact ih c (by simp)
              | [] => rfl
          | rest =>
              match ps with
              | [c] => exact ih c (by simp)
              | [] | _ :: _ :: _ => rfl
          | _ => rfl
      | _ =>
          rw [boundNames_of_not_pattern, boundNames_of_not_pattern]
          · rfl
          · rw [prune_label]
            rfl

theorem boundNames_child_statements {t : Tree} (ht : t.inShape = true)
    (hl : t.label = .module .statements) (i : Nat) : (t.child i).boundNames = [] := by
  obtain ⟨l, s, ps⟩ := t
  obtain rfl : l = .module .statements := hl
  cases hi : ps[i]? with
  | none =>
      rw [Tree.child, Tree.children_node, hi]
      rfl
  | some c =>
      rw [Tree.child, Tree.children_node, hi]
      have hfits := (Tree.inShape_node.1 ht).1
      simp only [Tree.fits, Bool.and_eq_true, List.all_eq_true, Bool.not_eq_true'] at hfits
      exact boundNames_of_not_pattern (hfits.2 c (List.mem_of_getElem? hi))

/-- A removal leaves the names that each part of a node binds. -/
theorem boundNames_child_prune {t : Tree} (ht : t.inShape = true) (i : Nat) :
    ((prune dead t).child i).boundNames = (t.child i).boundNames := by
  by_cases hl : t.label = .module .statements
  · rw [boundNames_child_statements ht hl, boundNames_child_statements (inShape_prune ht)]
    rw [prune_label, hl]
  · rw [child_prune dead hl, apply_prunePart dead (boundNames_prune _)]

/-! ## Names of a node -/

/-- A removal inside a target leaves what it declares. -/
theorem entriesOf_prune (m : Meaning) (t : Tree) : entriesOf m (prune dead t) = entriesOf m t := by
  rw [entriesOf, entriesOf, boundNames_prune]

theorem entriesOf_child_prune (m : Meaning) {t : Tree} (ht : t.inShape = true) (i : Nat) :
    entriesOf m ((prune dead t).child i) = entriesOf m (t.child i) := by
  rw [entriesOf, entriesOf, boundNames_child_prune ht]

/-- What a removal does not change of parts it does not change of all parts together. -/
theorem flatMap_children_prune {α : Type} {t : Tree} (ht : t.inShape = true)
    (hl : t.label ≠ .module .statements) {f : Tree → List α}
    (hf : ∀ c, c.inShape = true → f (prune dead c) = f c) :
    (prune dead t).children.flatMap f = t.children.flatMap f := by
  obtain ⟨l, s, ps⟩ := t
  rw [prune_children dead hl]
  rw [List.flatMap_map]
  exact List.flatMap_congr fun c hc =>
    apply_prunePart dead (hf c ((Tree.inShape_node.1 ht).2 c hc)) _

theorem typeParameterEntries_prune {t : Tree} (ht : t.inShape = true)
    (hl : t.label ≠ .module .statements) :
    typeParameterEntries (prune dead t) = typeParameterEntries t :=
  flatMap_children_prune ht hl fun _ hc => entriesOf_child_prune _ hc 0

/-- A removal inside parameters leaves what they declare. -/
theorem parameterEntries_prune {t : Tree} (ht : t.inShape = true)
    (hl : t.label ≠ .module .statements) :
    parameterEntries (prune dead t) = parameterEntries t :=
  flatMap_children_prune ht hl fun _ hc => entriesOf_child_prune _ hc 1

/-- A removal inside an import leaves what it declares. -/
theorem importEntries_prune (typeOnly : Bool) {t : Tree} (ht : t.inShape = true)
    (hl : t.label ≠ .module .statements) :
    importEntries typeOnly (prune dead t) = importEntries typeOnly t := by
  refine flatMap_children_prune ht hl fun c hc => ?_
  simp only [prune_label]
  exact entriesOf_child_prune _ hc 0

/-- A removal inside declarators leaves what they declare. -/
theorem variableEntries_prune {ds : List Tree} (hds : ∀ d ∈ ds, d.inShape = true) :
    variableEntries (ds.map (prune dead)) = variableEntries ds := by
  rw [variableEntries, variableEntries, List.flatMap_map]
  exact List.flatMap_congr fun d hd => entriesOf_child_prune _ (hds d hd) 0

theorem enumEntries_prune {ms : List Tree} (hms : ∀ m ∈ ms, m.label ≠ .module .statements) :
    enumEntries (ms.map (prune dead)) = enumEntries ms := by
  rw [enumEntries, enumEntries, List.flatMap_map]
  refine List.flatMap_congr fun m hm => ?_
  rw [child_prune dead (hms m hm), memberName?, memberName?, prunePart_label, prunePart_span]

theorem ownName_prune (form : DefinitionForm) (m : Meaning) (name : Tree) :
    ownName form m (prune dead name) = ownName form m name := by
  rw [ownName, ownName, entriesOf_prune]

theorem functionNames_congr {s : Span} {own : List Entry} {g g' p p' : Tree}
    (hg : typeParameterEntries g' = typeParameterEntries g)
    (hp : parameterEntries p' = parameterEntries p) :
    functionNames s own g' p' = functionNames s own g p := by
  rw [functionNames, functionNames, hg, hp]

/-- A removal inside a signature leaves what it declares. -/
theorem signatureNames_prune {s : Span} {generics parameters : Tree}
    (hg : generics.inShape = true ∧ generics.label ≠ .module .statements)
    (hp : parameters.inShape = true ∧ parameters.label ≠ .module .statements) :
    signatureNames s (prune dead generics) (prune dead parameters) =
      signatureNames s generics parameters := by
  rw [signatureNames, signatureNames, typeParameterEntries_prune hg.1 hg.2,
    parameterEntries_prune hp.1 hp.2]

/-- A removal in the parts of a node leaves what it declares for its own scopes. -/
theorem introduced_prune {l : Label} {s : Span} {ps : List Tree}
    (h : (Tree.node l s ps).inShape = true) :
    introduced l s (ps.map (prunePart dead l)) = introduced l s ps := by
  have hpart := fun (hl : Tree.holdsList l = false) c hc => Tree.inShape_part h hl (c := c) hc
  -- One case for each construct that declares something in a scope of its own; a node with too few
  -- parts declares nothing, before and after.
  cases l with
  | function form =>
      cases form with
      | function form declared traits =>
          match ps with
          | [] | [_] | [_, _] => rfl
          | name :: generics :: parameters :: rest =>
              have hg := hpart rfl generics (by simp)
              have hp := hpart rfl parameters (by simp)
              rw [prunePart_of_searches dead (by simp)]
              simp only [List.map_cons, introduced, ownName_prune]
              exact functionNames_congr (typeParameterEntries_prune hg.1 hg.2)
                (parameterEntries_prune hp.1 hp.2)
      | arrow traits =>
          match ps with
          | [] | [_] => rfl
          | generics :: parameters :: rest =>
              have hg := hpart rfl generics (by simp)
              have hp := hpart rfl parameters (by simp)
              exact functionNames_congr (apply_prunePart dead (typeParameterEntries_prune hg.1 hg.2) _)
                (apply_prunePart dead (parameterEntries_prune hp.1 hp.2) _)
      | _ => rfl
  | statement form =>
      rw [prunePart_of_searches dead (by simp)]
      cases form with
      | catchClause =>
          match ps with
          | [] => rfl
          | parameter :: rest =>
              simp only [List.map_cons, introduced]
              rw [entriesOf_child_prune _ (hpart rfl parameter (by simp)).1]
      | _ => rfl
  | classes form =>
      rw [prunePart_of_searches dead (by simp)]
      cases form with
      | definition form declared abstract =>
          match ps with
          | [] | [_] | [_, _] => rfl
          | decorators :: name :: generics :: rest =>
              have hg := hpart rfl generics (by simp)
              simp only [List.map_cons, introduced, ownName_prune,
                typeParameterEntries_prune hg.1 hg.2]
      | _ => rfl
  | type form =>
      rw [prunePart_of_searches dead (by simp)]
      cases form with
      | enum declared constant =>
          match ps with
          | [] => rfl
          | name :: members =>
              have hmembers : ∀ m ∈ members, m.label ≠ .module .statements := fun m hm =>
                (hpart rfl m (List.mem_cons_of_mem _ hm)).2
              simp only [List.map_cons, introduced, enumEntries_prune hmembers]
      | interface declared | «alias» declared =>
          match ps with
          | [] | [_] => rfl
          | name :: generics :: rest =>
              have hg := hpart rfl generics (by simp)
              simp only [List.map_cons, introduced, typeParameterEntries_prune hg.1 hg.2]
      | mapped optional readonly =>
          match ps with
          | [] => rfl
          | name :: rest => simp only [List.map_cons, introduced, entriesOf_prune]
      | function | constructor abstract | callSignature | constructSignature =>
          match ps with
          | [] | [_] => rfl
          | generics :: parameters :: rest =>
              exact signatureNames_prune (hpart rfl generics (by simp)) (hpart rfl parameters (by simp))
      | method kind computed optional =>
          match ps with
          | [] | [_] | [_, _] => rfl
          | key :: generics :: parameters :: rest =>
              exact signatureNames_prune (hpart rfl generics (by simp)) (hpart rfl parameters (by simp))
      | _ => rfl
  | absent => rfl
  | module form | expression form | pattern form | jsx form => cases form <;> rfl

/-- Whether a node is a namespace. -/
def isNamespace : Label → Bool
  | .type (.namespaceBlock _ _) => true
  | _ => false

/-- A removal in the parts of a node leaves what it declares for the scope around it, unless it is a
namespace. -/
theorem lexicalEntries_prune {l : Label} {s : Span} {ps : List Tree}
    (h : (Tree.node l s ps).inShape = true) (hl : isNamespace l = false) :
    lexicalEntries l (ps.map (prunePart dead l)) = lexicalEntries l ps := by
  have hparts := (Tree.inShape_node.1 h).2
  cases l with
  | statement form =>
      rw [prunePart_of_searches dead (by simp)]
      cases form with
      | variableList kind declared => simp only [lexicalEntries, variableEntries_prune hparts]
      | _ => rfl
  | function form =>
      cases form with
      | function form declared traits =>
          rw [prunePart_of_searches dead (by simp)]
          match form, ps with
          | .value, _ | .declaration, [] => rfl
          | .declaration, name :: rest => simp only [List.map_cons, lexicalEntries, entriesOf_prune]
      | _ => rfl
  | classes form =>
      rw [prunePart_of_searches dead (by simp)]
      cases form with
      | definition form declared abstract =>
          match form, ps with
          | .value, _ | .declaration, [] | .declaration, [_] => rfl
          | .declaration, decorators :: name :: rest =>
              simp only [List.map_cons, lexicalEntries, entriesOf_prune]
      | _ => rfl
  | module form =>
      rw [prunePart_of_searches dead (by simp)]
      cases form with
      | importDeclaration typeOnly phase =>
          match ps with
          | [] => rfl
          | clause :: rest =>
              have hclause := Tree.inShape_part h rfl (c := clause) (by simp)
              simp only [List.map_cons, lexicalEntries,
                importEntries_prune typeOnly hclause.1 hclause.2]
      | importEquals typeOnly =>
          match ps with
          | [] => rfl
          | name :: rest => simp only [List.map_cons, lexicalEntries, entriesOf_prune]
      | _ => rfl
  | type form =>
      rw [prunePart_of_searches dead (by simp)]
      cases form with
      | interface | «alias» | enum =>
          match ps with
          | [] => rfl
          | name :: rest => simp only [List.map_cons, lexicalEntries, entriesOf_prune]
      -- Whether a namespace has a value may change with what it holds.
      | namespaceBlock => simp [isNamespace] at hl
      | _ => rfl
  | absent => rfl
  | expression form | pattern form | jsx form => cases form <;> rfl

/-- A removal in the parts of a node leaves what it declares around itself, unless it is a
namespace. -/
theorem placed_prune {a : Around} {l : Label} {s : Span} {ps : List Tree}
    (h : (Tree.node l s ps).inShape = true) (hl : isNamespace l = false) :
    placed a l s (ps.map (prunePart dead l)) = placed a l s ps := by
  have hlexical : lexicalEntries l (ps.map (prunePart dead l)) = lexicalEntries l ps :=
    lexicalEntries_prune h hl
  have hparts := (Tree.inShape_node.1 h).2
  cases l with
  | statement form =>
      cases form with
      | variableList kind declared =>
          cases kind with
          | varVariable =>
              rw [prunePart_of_searches dead (by simp)]
              simp only [placed, variableEntries_prune hparts]
          | _ => simp only [placed, hlexical]
      | _ => rfl
  | type form =>
      cases form with
      | infer =>
          match ps with
          | [p] =>
              rw [prunePart_of_searches dead (by simp)]
              simp only [List.map_cons, List.map_nil, placed,
                entriesOf_child_prune _ (hparts p (by simp))]
          | [] | _ :: _ :: _ => rfl
      | _ => simp only [placed, hlexical]
  | _ => simp only [placed, hlexical]

/-! ## Namespaces -/

/-- Statements give a value if one of them does. -/
theorem anyGivesValue_iff (ss : List Tree) :
    anyGivesValue ss = true ↔ ∃ t ∈ ss, givesValue t = true := by
  induction ss with
  | nil => simp [anyGivesValue]
  | cons t ts ih => simp [anyGivesValue, ih]

/-- What is left of a statement gives no value that the statement did not give. -/
theorem givesValue_of_kept {t u : Tree} (h : kept dead t = some u) (hu : givesValue u = true) :
    givesValue t = true := by
  rcases kept_cases h with rfl | ⟨_, _, _, _, rfl, -⟩ | ⟨_, _, _, _, _, _, -, rfl⟩
  · exact hu
  · rfl
  · simp [givesValue] at hu

/-- A removal gives no statement and no namespace a value. The two go together because namespaces
are statements of namespaces. -/
theorem value_of_prune (t : Tree) :
    (givesValue (prune dead t) = true → givesValue t = true) ∧
      (hasValue (prune dead t) = true → hasValue t = true) := by
  -- On the size of the tree and not on its parts, since both look into a body two levels down.
  induction t using WellFounded.induction (measure fun t : Tree => sizeOf t).wf with
  | _ t ih =>
      have ih : ∀ c : Tree, sizeOf c < sizeOf t → _ := ih
      constructor
      · fun_cases givesValue t with
        | case1 => simp [prune_of_plain, givesValue]
        | case2 => simp [prune_of_plain, givesValue]
        | case3 => simp [prune_of_plain, givesValue]
        | case4 => simp [prune_of_plain, givesValue]
        | case5 => simp [prune_of_plain, givesValue]
        | case6 => simp [prune_of_plain, givesValue]
        | case7 b s k d s' name body rest =>
            rw [prune_of_plain dead (by simp), List.map_cons, prune_of_plain dead (by simp),
              List.map_cons, List.map_cons, List.map_nil, givesValue]
            exact (ih body (by simp; omega)).2
        | case8 k d s name body =>
            rw [prune_of_plain dead (by simp), List.map_cons, List.map_cons, List.map_nil, givesValue]
            exact (ih body (by simp; omega)).2
        | case9 => exact fun _ => rfl
      · fun_cases hasValue t with
        | case1 s prologue l s' ss =>
            have hss : ∀ c ∈ ss, givesValue (prune dead c) = true → givesValue c = true := by
              intro c hc
              have hsize := List.sizeOf_lt_of_mem hc
              exact (ih c (by simp; omega)).1
            rw [prune_of_plain dead (by simp), List.map_cons, List.map_cons, List.map_nil]
            by_cases hl : l = .module .statements
            · subst hl
              rw [prune_statements, hasValue, anyGivesValue_iff, anyGivesValue_iff]
              rintro ⟨u, hu, hvalue⟩
              obtain ⟨d, hd, hkept⟩ := List.mem_filterMap.1 hu
              obtain ⟨c, hc, rfl⟩ := List.mem_map.1 hd
              exact ⟨c, hc, hss c hc (givesValue_of_kept hkept hvalue)⟩
            · rw [prune_node dead hl, hasValue, anyGivesValue_iff, anyGivesValue_iff]
              rintro ⟨u, hu, hvalue⟩
              obtain ⟨c, hc, rfl⟩ := List.mem_map.1 hu
              rcases prunePart_eq_or dead l c with heq | heq <;> rw [heq] at hvalue
              · exact ⟨c, hc, hss c hc hvalue⟩
              · exact ⟨c, hc, hvalue⟩
        | case2 k d s name body =>
            rw [prune_of_plain dead (by simp), List.map_cons, List.map_cons, List.map_nil, hasValue]
            exact (ih body (by simp; omega)).2
        | case3 => exact fun _ => rfl

/-! ## Names that a target loses -/

/-- A target that is a name binds just that. -/
theorem boundNames_of_nameOf {t : Tree} {x : String × Span} (h : Binding.nameOf t = some x) :
    t.boundNames = [x] := by
  obtain ⟨ps, rfl⟩ := eq_of_nameOf h
  rfl

/-- An element that is understood binds one name. -/
theorem boundNames_of_elementTarget {t : Tree} {x : String × Span}
    (h : Binding.elementTarget t = .ok x) : t.boundNames = [x] := by
  fun_cases Binding.elementTarget t with
  | case1 name span parts =>
      obtain rfl := Except.ok.inj h
      rfl
  | case2 span c cs target hname =>
      rw [Binding.elementTarget, hname] at h
      obtain rfl := Except.ok.inj h
      exact boundNames_of_nameOf (t := c) hname
  | case3 span c cs hname =>
      rw [Binding.elementTarget, hname] at h
      simp at h
  | case4 span parts => simp [Binding.elementTarget] at h
  | case5 t hbinding hdefault hobject =>
      rw [Binding.elementTarget] at h
      · simp at h
      all_goals assumption

/-- A rest that is understood binds no other name. -/
theorem boundNames_of_restTarget {t : Tree} {x : String × Span} (hl : Binding.isRest t = true)
    (h : Binding.restTarget t = .ok x) : t.boundNames ⊆ [x] := by
  obtain ⟨l, s, ps⟩ := t
  obtain rfl : l = .pattern .rest := by simpa [Binding.isRest] using hl
  rcases ps with _ | ⟨c, _ | ⟨c', cs⟩⟩
  · exact List.nil_subset _
  · have hname : Binding.nameOf c = some x := by
      rw [Binding.restTarget] at h
      split at h
      · rename_i target htarget
        rw [← Except.ok.inj h]
        exact htarget
      · simp at h
    have hnames : (Tree.node (.pattern .rest) s [c]).boundNames = c.boundNames := rfl
    rw [hnames, boundNames_of_nameOf hname]
    exact List.Subset.refl _
  · exact List.nil_subset _

theorem siteOf_eq_some {t : Except PassError (String × Span)} {site : Span}
    (h : siteOf t = some site) : ∃ name, t = .ok (name, site) := by
  obtain _ | ⟨name, site'⟩ := t
  · simp [siteOf] at h
  · exact ⟨name, by rw [← Option.some.inj h]⟩

/-- A part of an object pattern binds no name but that of its place. -/
theorem site_of_objectPart {t : Tree} (hl : Tree.isObjectPart t.label = true) {site : Span}
    (h : siteOf (Binding.objectPartTarget t) = some site) :
    ∀ x ∈ t.boundNames, x.2 = site := by
  intro x hx
  obtain ⟨name, htarget⟩ := siteOf_eq_some h
  unfold Binding.objectPartTarget at htarget
  split_ifs at htarget with hrest
  · rw [List.mem_singleton.1 (boundNames_of_restTarget hrest htarget hx)]
  · obtain ⟨l, s, ps⟩ := t
    cases l with
    | pattern form =>
        cases form with
        | property computed =>
            match ps with
            | [key, c] =>
                have hnames : (Tree.node (.pattern (.property computed)) s [key, c]).boundNames =
                    c.boundNames := rfl
                rw [hnames, boundNames_of_elementTarget (t := c) htarget] at hx
                rw [List.mem_singleton.1 hx]
            | [] | [_] | _ :: _ :: _ :: _ => simp [Tree.boundNames] at hx
        | rest => simp [Binding.isRest] at hrest
        | _ => simp [Tree.isObjectPart] at hl
    | _ => simp [Tree.isObjectPart] at hl

/-- A place of an array pattern that goes by a name binds no name elsewhere. -/
theorem site_of_arrayPart {t : Tree} {site : Span}
    (h : siteOf (Binding.arrayPartTarget t) = some site) : ∀ x ∈ t.boundNames, x.2 = site := by
  intro x hx
  obtain ⟨name, htarget⟩ := siteOf_eq_some h
  unfold Binding.arrayPartTarget at htarget
  split_ifs at htarget with hrest
  · rw [List.mem_singleton.1 (boundNames_of_restTarget hrest htarget hx)]
  · rw [boundNames_of_elementTarget htarget] at hx
    rw [List.mem_singleton.1 hx]

theorem exists_of_goes {site : Option Span} (h : goes dead site = true) :
    ∃ s, site = some s ∧ isDead dead s = true := by
  cases site with
  | none => simp [goes] at h
  | some s => exact ⟨s, rfl, h⟩

/-- What is left of an object pattern binds the names of the parts that stay. -/
theorem names_keptTarget_object (s : Span) (ps : List Tree) :
    (keptTarget dead (.node (.pattern .object) s ps)).toList.flatMap Tree.boundNames =
      (ps.filter fun t => !objectPartGoes dead t).flatMap Tree.boundNames := by
  cases hkept : keptTarget dead (.node (.pattern .object) s ps) with
  | none =>
      obtain ⟨-, hall⟩ := keptTarget_object_eq_none_iff.1 hkept
      have hnone : (ps.filter fun t => !objectPartGoes dead t) = [] :=
        List.filter_eq_nil_iff.2 fun t ht => by simp [hall t ht]
      rw [hnone]
      rfl
  | some u =>
      obtain rfl : u = .node (.pattern .object) s (keepObjectParts dead ps) := by
        rw [keptTarget, keepTarget] at hkept
        dsimp only at hkept
        split_ifs at hkept
        exact (Option.some.inj hkept).symm
      rw [Option.toList_some, List.flatMap_singleton, Tree.boundNames, boundNamesAll_eq_flatMap]
      rfl

theorem boundNames_hole {t : Tree} (h : Binding.isHole t = true) : t.boundNames = [] := by
  apply boundNames_of_not_pattern
  rw [beq_iff_eq.1 h]
  rfl

/-- What is left of an array pattern binds the names of the places that stay. -/
theorem names_keptTarget_array (s : Span) (ps : List Tree) :
    (keptTarget dead (.node (.pattern .array) s ps)).toList.flatMap Tree.boundNames =
      (ps.filter fun t => !arrayPartGoes dead t).flatMap Tree.boundNames := by
  -- Holes bind nothing, so neither those put in for parts that go nor those trimmed matter.
  have hleft : (trimHoles (keepArrayParts dead ps)).flatMap Tree.boundNames =
      (ps.filter fun t => !arrayPartGoes dead t).flatMap Tree.boundNames := by
    rw [flatMap_trimHoles fun c _ hhole => boundNames_hole hhole,
      flatMap_keepArrayParts fun c => boundNames_hole rfl]
  cases hkept : keptTarget dead (.node (.pattern .array) s ps) with
  | none =>
      obtain ⟨-, hall⟩ := keptTarget_array_eq_none_iff.1 hkept
      have hholes := trimHoles_eq_nil_iff.2 (keepArrayParts_all_holes_iff.2 hall)
      rw [← hleft, hholes]
      rfl
  | some u =>
      rcases keptTarget_cases hkept with ⟨rfl, hlost⟩ | ⟨_, _, h, -⟩ | ⟨s', ps', h, rfl⟩
      · have hall : (ps.filter fun t => !arrayPartGoes dead t) = ps :=
          List.filter_eq_self.2 fun t ht => by simpa using List.filter_eq_nil_iff.1 hlost t ht
        rw [hall, Option.toList_some, List.flatMap_singleton, Tree.boundNames,
          boundNamesAll_eq_flatMap]
      · simp at h
      · obtain ⟨-, -, rfl⟩ := Tree.node.inj h
        rw [← hleft, Option.toList_some, List.flatMap_singleton, Tree.boundNames,
          boundNamesAll_eq_flatMap]

/-- Parts that go by a place of their own bind no other name. -/
theorem names_shed_parts {ps : List Tree} {P : Tree → Bool}
    (hP : ∀ c ∈ ps, P c = true → ∀ x ∈ c.boundNames, isDead dead x.2 = true) :
    Sheds (fun x : String × Span => isDead dead x.2 = true) (ps.flatMap Tree.boundNames)
      ((ps.filter fun t => !P t).flatMap Tree.boundNames) := by
  refine ⟨(ps.filter P).flatMap Tree.boundNames, fun x hx => ?_, flatMap_filter_perm _ P ps⟩
  obtain ⟨c, hc, hx⟩ := List.mem_flatMap.1 hx
  obtain ⟨hc, hgoes⟩ := List.mem_filter.1 hc
  exact hP c hc hgoes x hx

/-- The names that a target is left with are all but some that go. -/
theorem names_shed_target {t : Tree} (ht : t.inShape = true) :
    Sheds (fun x : String × Span => isDead dead x.2 = true) t.boundNames
      ((keptTarget dead t).toList.flatMap Tree.boundNames) := by
  fun_cases Binding.declaratorTargets t with
  | case1 name span parts =>
      rw [keptTarget, keepTarget]
      split_ifs with hdead
      · exact ⟨[(name, span)], by simpa using hdead, by simp [Tree.boundNames]⟩
      · exact Sheds.of_perm (by simp)
  | case2 span parts =>
      rw [names_keptTarget_object, Tree.boundNames, boundNamesAll_eq_flatMap]
      refine names_shed_parts fun c hc hgoes x hx => ?_
      obtain ⟨site, hsite, hdead⟩ := exists_of_goes hgoes
      have hfits := (Tree.inShape_node.1 ht).1
      simp only [Tree.fits, Bool.and_eq_true, List.all_eq_true] at hfits
      rw [site_of_objectPart (hfits.2 c hc) hsite x hx]
      exact hdead
  | case3 span parts =>
      rw [names_keptTarget_array, Tree.boundNames, boundNamesAll_eq_flatMap]
      refine names_shed_parts fun c hc hgoes x hx => ?_
      obtain ⟨site, hsite, hdead⟩ := exists_of_goes (Bool.and_eq_true_iff.1 hgoes).2
      rw [site_of_arrayPart hsite x hx]
      exact hdead
  | case4 t hbinding hobject harray =>
      rw [keptTarget, keepTarget]
      · exact Sheds.of_perm (by simp)
      all_goals assumption

/-- A declarator loses only names that are dead. -/
theorem names_shed_declarator {d : Tree} (hd : d.inShape = true) :
    Sheds (fun x : String × Span => isDead dead x.2 = true) (d.child 0).boundNames
      ((keptDeclarator dead d).toList.flatMap fun d => (d.child 0).boundNames) := by
  obtain ⟨l, s, ps⟩ := d
  cases ps with
  | nil => exact Sheds.of_perm (by simp [keptDeclarator, keepDeclarator])
  | cons target rest =>
      have hkept : ((keptDeclarator dead (.node l s (target :: rest))).toList.flatMap fun d =>
          (d.child 0).boundNames) = (keptTarget dead target).toList.flatMap Tree.boundNames := by
        rw [keptDeclarator, keepDeclarator, keptTarget]
        rcases keepTarget dead target with ⟨_ | kept, record⟩ <;> rfl
      rw [hkept]
      exact names_shed_target ((Tree.inShape_node.1 hd).2 target List.mem_cons_self)

/-- A declaration of variables loses only names that are dead. -/
theorem entries_shed_declarators {ds : List Tree} (hds : ∀ d ∈ ds, d.inShape = true) :
    Sheds (fun e : Entry => isDead dead e.site = true) (variableEntries ds)
      (variableEntries (ds.filterMap (keptDeclarator dead))) := by
  have hnames : ∀ ds, variableEntries ds =
      (ds.flatMap fun d => (d.child 0).boundNames).map fun x => ⟨x.1, x.2, .ofValue⟩ := by
    intro ds
    rw [List.map_flatMap]
    rfl
  rw [hnames, hnames, flatMap_filterMap_eq]
  refine Sheds.map (Sheds.flatMap fun d hd => names_shed_declarator (hds d hd)) ?_
  exact fun x hx => hx

/-- An import loses only names that are dead. -/
theorem entries_shed_specifiers (typeOnly : Bool) (cs : Span) (ss : List Tree) :
    Sheds (fun e : Entry => isDead dead e.site = true)
      (importEntries typeOnly (.node (.module .importClause) cs ss))
      (importEntries typeOnly
        (.node (.module .importClause) cs (ss.filterMap (keptSpecifier dead)))) := by
  rw [importEntries, importEntries, Tree.children_node, Tree.children_node, flatMap_filterMap_eq]
  refine Sheds.flatMap fun c _ => ?_
  cases hkept : keptSpecifier dead c with
  | some u =>
      obtain rfl := keptSpecifier_eq hkept
      exact Sheds.of_perm (by simp)
  | none =>
      obtain ⟨hne, hall⟩ := keptSpecifier_eq_none_iff.1 hkept
      refine ⟨_, fun e he => ?_, by rw [Option.toList_none]; exact List.Perm.refl _⟩
      obtain ⟨x, hx, rfl⟩ := List.mem_map.1 he
      cases hname : Binding.nameOf (c.child 0) with
      | none => simp [specifierSites, hname] at hne
      | some y =>
          rw [boundNames_of_nameOf hname] at hx
          obtain rfl := List.mem_singleton.1 hx
          exact hall _ (by simp [specifierSites, hname])

/-! ## Versions of a declaration -/

/-- The declaration of a namespace that has no value. -/
def emptied (d : Declaration) : Declaration := { d with meaning := .ofNamespace false }

/-- A declaration, and what becomes of it if it is a namespace's that loses its value. -/
def versions (d : Declaration) : List Declaration :=
  if d.meaning = .ofNamespace true then [d, emptied d] else [d]

/-- A declaration has itself for a version, and a namespace with a value also one without. -/
theorem mem_versions {d e : Declaration} :
    e ∈ versions d ↔ e = d ∨ d.meaning = .ofNamespace true ∧ e = emptied d := by
  unfold versions
  split_ifs with h <;> simp [h]

/-- The versions of the declarations that a node makes. -/
def versionRule : Rule Declaration := fun a l s ps => (declarationRule a l s ps).flatMap versions

/-- The versions in a tree are those of its declarations. -/
theorem gather_versionRule (a : Around) (t : Tree) :
    gather versionRule a t = (declarations a t).flatMap versions := by
  rw [declarations_eq_gather]
  exact gather_flatMap declarationRule versions a t

/-- A node that declares a list of names in scopes around it. -/
theorem versions_shed_entries {es es' : List Entry} {g : Entry → List Declaration}
    (h : Sheds (fun e : Entry => isDead dead e.site = true) es es')
    (hg : ∀ e, ∀ d ∈ g e, d.site = e.site) :
    Sheds (fun d : Declaration => isDead dead d.site = true ∨ d.meaning = .ofNamespace true)
      ((es.flatMap g).flatMap versions) ((es'.flatMap g).flatMap versions) := by
  rw [List.flatMap_assoc, List.flatMap_assoc]
  refine h.flatMap_items fun e he d hd => Or.inl ?_
  obtain ⟨d', hd', hversion⟩ := List.mem_flatMap.1 hd
  have hsite : d.site = d'.site := by
    rcases mem_versions.1 hversion with rfl | ⟨-, rfl⟩ <;> rfl
  rw [hsite, hg e d' hd']
  exact he

theorem site_of_outward {env : Env} {e : Entry} {d : Declaration} (hd : d ∈ outward env e) :
    d.site = e.site := by
  obtain ⟨scope, -, rfl⟩ : ∃ scope, _ ∧ _ = d := by simpa [outward] using hd
  rfl

theorem site_of_inScope {scope : Option ScopeId} {e : Entry} {d : Declaration}
    (hd : d ∈ (scope.map fun scope => e.inScope scope).toList) : d.site = e.site := by
  obtain ⟨scope, -, rfl⟩ := Option.map_eq_some_iff.1 (Option.mem_toList.1 hd)
  rfl

/-- The declarations of names in the scope that a node stands in. -/
def placedHere (a : Around) (es : List Entry) : List Declaration :=
  es.flatMap fun e => (a.env.head?.map fun scope => e.inScope scope).toList

theorem declarationRule_variables {a : Around} {k : VariableKind} {b : Bool} {s : Span}
    (hk : k ≠ .varVariable) (ds : List Tree) :
    declarationRule a (.statement (.variableList k b)) s ds = placedHere a (variableEntries ds) := by
  cases k with
  | varVariable => exact absurd rfl hk
  | _ => simp [declarationRule, placed, introduced, isFunctionDeclaration, lexicalEntries, placedHere]

theorem declarationRule_import {a : Around} {typeOnly : Bool} {phase : Option String} {s : Span}
    {clause : Tree} {rest : List Tree} :
    declarationRule a (.module (.importDeclaration typeOnly phase)) s (clause :: rest) =
      placedHere a (importEntries typeOnly clause) := by
  simp [declarationRule, placed, introduced, isFunctionDeclaration, lexicalEntries, placedHere]

theorem declarationRule_namespace {a : Around} {k : String} {b : Bool} {s : Span}
    {name body : Tree} :
    declarationRule a (.type (.namespaceBlock k b)) s [name, body] =
      placedHere a (entriesOf (.ofNamespace (hasValue body)) name) := by
  simp [declarationRule, placed, introduced, isFunctionDeclaration, lexicalEntries, placedHere]

/-- A namespace that loses its value loses one version of its declaration. -/
theorem namespace_sheds (a : Around) (name : Tree) :
    Sheds (fun d : Declaration => isDead dead d.site = true ∨ d.meaning = .ofNamespace true)
      ((placedHere a (entriesOf (.ofNamespace true) name)).flatMap versions)
      ((placedHere a (entriesOf (.ofNamespace false) name)).flatMap versions) := by
  simp only [placedHere, entriesOf, List.flatMap_assoc, List.flatMap_map]
  refine Sheds.flatMap fun x _ => ?_
  cases a.env.head? with
  | none => exact Sheds.refl _
  | some scope =>
      refine ⟨[⟨x.1, x.2, .ofNamespace true, [], scope⟩], by simp, ?_⟩
      have hne : Meaning.ofNamespace false ≠ Meaning.ofNamespace true := by decide
      simp only [Option.map_some, Option.toList_some, List.flatMap_singleton, versions,
        Entry.inScope, emptied, if_pos, if_neg hne]
      exact List.Perm.swap _ _ _

theorem exists_of_isNamespace {l : Label} (h : isNamespace l = true) :
    ∃ k b, l = .type (.namespaceBlock k b) := by
  unfold isNamespace at h
  split at h
  · exact ⟨_, _, rfl⟩
  · simp at h

/-- A namespace keeps its declaration, or the version without a value is left of it. -/
theorem namespaceRule_sheds (a : Around) (k : String) (b : Bool) (s : Span) (ps : List Tree) :
    Sheds (fun d : Declaration => isDead dead d.site = true ∨ d.meaning = .ofNamespace true)
      (versionRule a (.type (.namespaceBlock k b)) s ps)
      (versionRule a (.type (.namespaceBlock k b)) s
        (ps.map (prunePart dead (.type (.namespaceBlock k b))))) := by
  rw [prunePart_of_searches dead (by simp)]
  match ps with
  | [] | [_] | _ :: _ :: _ :: _ => exact Sheds.refl _
  | [name, body] =>
      rw [List.map_cons, List.map_cons, List.map_nil, versionRule, versionRule,
        declarationRule_namespace, declarationRule_namespace, entriesOf_prune]
      cases hvalue : hasValue body with
      | false =>
          have hvalue' : hasValue (prune dead body) = false := by
            rw [← Bool.not_eq_true]
            exact fun h => by simp [(value_of_prune body).2 h] at hvalue
          rw [hvalue']
          exact Sheds.refl _
      | true =>
          cases hasValue (prune dead body) with
          | true => exact Sheds.refl _
          | false => exact namespace_sheds a name

/-- Of the versions of declarations a removal takes those whose name goes and those of namespaces
with a value. -/
theorem cuttable_versionRule : Cuttable dead versionRule fun d =>
    isDead dead d.site = true ∨ d.meaning = .ofNamespace true where
  hole _ _ := rfl
  object _ _ _ _ := rfl
  array _ _ _ _ := rfl
  declarator _ _ _ _ _ := rfl
  clause _ _ _ _ := rfl
  noDeclarators _ k _ _ := by cases k <;> rfl
  declarators a k b s ds hds := by
    have hshed : Sheds (fun e : Entry => isDead dead e.site = true) (variableEntries ds)
        (variableEntries (ds.filterMap (keptDeclarator dead))) := entries_shed_declarators hds
    -- Variables of `var` are declared outward, others in the scope around them.
    by_cases hk : k = .varVariable
    · subst hk
      have hdeclared : ∀ ds, declarationRule a (.statement (.variableList .varVariable b)) s ds =
          (variableEntries ds).flatMap (outward a.env) := by
        intro ds
        simp [declarationRule, placed, introduced]
      rw [versionRule, versionRule, hdeclared, hdeclared]
      exact versions_shed_entries hshed fun _ _ hd => site_of_outward hd
    · rw [versionRule, versionRule, declarationRule_variables hk, declarationRule_variables hk]
      exact versions_shed_entries hshed fun _ _ hd => site_of_inScope hd
  imports a t p s cs ss rest := by
    rw [versionRule, versionRule, declarationRule_import, declarationRule_import]
    exact versions_shed_entries (entries_shed_specifiers t cs ss) fun _ _ hd => site_of_inScope hd
  list _ _ _ _ := Sheds.refl _
  stable a l s ps hl hshape := by
    -- A namespace is the one node whose declaration depends on what its parts are left with.
    by_cases hnamespace : isNamespace l = true
    · obtain ⟨k, b, rfl⟩ := exists_of_isNamespace hnamespace
      exact namespaceRule_sheds a k b s ps
    · have hl' : isNamespace l = false := by simpa using hnamespace
      rw [versionRule, versionRule, declarationRule, declarationRule, placed_prune hshape hl',
        introduced_prune hshape]
      exact Sheds.refl _

/-! ## Uses and mentions -/

/-- A removal takes uses only along with the code around them. -/
theorem cuttable_useRule : Cuttable dead useRule fun _ => False := by
  refine cuttable_of_labels ?_ (fun _ _ => rfl) fun _ _ _ _ => rfl
  intro a l s ps qs
  unfold useRule
  split <;> rfl

/-- A removal takes what is mentioned only along with the code around it. -/
theorem cuttable_mentionRule : Cuttable dead mentionRule fun _ => False where
  hole _ _ := rfl
  object _ _ _ _ := rfl
  array _ _ _ _ := rfl
  declarator _ _ _ _ _ := rfl
  clause _ _ _ _ := rfl
  noDeclarators _ _ _ _ := rfl
  declarators _ _ _ _ _ _ := Sheds.refl _
  imports _ _ _ _ _ _ _ := Sheds.refl _
  list _ _ _ _ := Sheds.refl _
  stable a l s ps _ hshape := by
    unfold mentionRule
    fun_cases mentionsOf l s ps with
    | case1 name s ps => exact Sheds.refl _
    | case2 name usage s ps => exact Sheds.refl _
    | case3 declared constant s name members =>
        have hmembers : ∀ m ∈ members, m.label ≠ .module .statements := fun m hm =>
          (Tree.inShape_part hshape rfl (List.mem_cons_of_mem _ hm)).2
        rw [prunePart_of_searches dead (by simp), List.map_cons, mentionsOf,
          enumEntries_prune hmembers]
        exact Sheds.refl _
    | case4 l s ps hbinding hreference henum =>
        rw [mentionsOf]
        · exact Sheds.refl _
        · exact hbinding
        · exact hreference
        · intro declared constant name members hl hps
          subst hl
          rw [prunePart_of_searches dead (by simp)] at hps
          obtain ⟨c, cs, rfl, -, -⟩ := List.map_eq_cons_iff.1 hps
          exact henum _ _ _ _ rfl rfl

end RouteSplit.Sweep
