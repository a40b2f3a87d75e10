import RouteSplit.Proofs.Sweep.Declarations

/-!
# Code that lies apart

The own code of a binding is told by its span. In a tree whose parts lie apart, a use that the span
encloses stands in the code.

- `constructs`, `useSites`: the spans of own code, and the places of uses;
- `Tree.separate`: the span of own code in one part of a node encloses no use in another;
- `mem_uses_of_encloses`: a use that own code encloses stands in it;
- `separate_prune`: a removal leaves a tree so.
-/

namespace RouteSplit

open Scope

namespace Scope

/-! ## Own code -/

/-- Whether a node is what a binding can have as its own code. -/
def isConstruct : Label → Bool
  | .function (.function .declaration _ _) | .statement (.declarator _) | .expression (.assign _)
  | .pattern (.binding _) => true
  | _ => false

def constructRule : Rule Span := fun _ l s _ => if isConstruct l then [s] else []

/-- The spans of own code in a tree. -/
def constructs (t : Tree) : List Span := gather constructRule {} t

/-- Which code a tree has does not depend on what it stands in. -/
theorem gather_constructRule (a : Around) (t : Tree) : gather constructRule a t = constructs t :=
  gather_congr_around (fun _ _ _ _ _ => rfl) a {} t

def isUse : Label → Bool
  | .expression (.reference _ _) => true
  | _ => false

def useSiteRule : Rule Span := fun _ l s _ => if isUse l then [s] else []

/-- The places of the uses in a tree. -/
def useSites (t : Tree) : List Span := gather useSiteRule {} t

/-- Where a tree uses names does not depend on what it stands in. -/
theorem gather_useSiteRule (a : Around) (t : Tree) : gather useSiteRule a t = useSites t :=
  gather_congr_around (fun _ _ _ _ _ => rfl) a {} t

theorem site_of_use {a : Around} {t : Tree} {u : Use} (hu : u ∈ gather useRule a t) :
    u.site ∈ useSites t := by
  have hsub : ((gather useRule a t).map Use.site).Sublist (gather useSiteRule a t) := by
    apply map_gather_sublist
    intro a l s ps
    unfold useRule useSiteRule
    split <;> simp [isUse]
  rw [← gather_useSiteRule a t]
  exact hsub.subset (List.mem_map_of_mem hu)

/-! ## Parts that lie apart -/

/-- Own code in one tree encloses no use in the other. -/
def Apart (x y : Tree) : Prop :=
  ∀ s ∈ constructs x, ∀ u ∈ useSites y, s.encloses u = false

instance (x y : Tree) : Decidable (Apart x y) :=
  inferInstanceAs (Decidable (∀ s ∈ constructs x, ∀ u ∈ useSites y, s.encloses u = false))

/-- Two trees lie apart, either way. -/
def BothApart (x y : Tree) : Prop := Apart x y ∧ Apart y x

instance (x y : Tree) : Decidable (BothApart x y) :=
  inferInstanceAs (Decidable (Apart x y ∧ Apart y x))

end Scope

namespace Tree

mutual

/-- Whether the parts of every node in the tree lie apart. -/
def separate : Tree → Bool
  | .node _ _ ps => decide (ps.Pairwise BothApart) && allSeparate ps

def allSeparate : List Tree → Bool
  | [] => true
  | t :: ts => separate t && allSeparate ts

end

theorem allSeparate_iff (ps : List Tree) :
    allSeparate ps = true ↔ ∀ c ∈ ps, c.separate = true := by
  induction ps with
  | nil => simp [allSeparate]
  | cons t ts ih => simp [allSeparate, ih]

/-- The code of a node lies apart if that of each part does, and that of any two parts. -/
theorem separate_node {l : Label} {s : Span} {ps : List Tree} :
    (node l s ps).separate = true ↔ ps.Pairwise BothApart ∧ ∀ c ∈ ps, c.separate = true := by
  rw [separate, Bool.and_eq_true, allSeparate_iff, decide_eq_true_iff]

end Tree

namespace Sweep

/-- A use that own code encloses stands in it. -/
theorem mem_uses_of_encloses {a b : Around} {x t : Tree} (hx : PartOf b x a t)
    (hshape : t.inShape = true) (hseparate : t.separate = true) {s : Span} (hs : s ∈ constructs x)
    {u : Use} (hu : u ∈ gather useRule a t) (hencloses : s.encloses u.site = true) :
    u ∈ gather useRule b x := by
  induction hx with
  | refl => exact hu
  | @child a l s' ps i c hc hpart ih =>
      obtain ⟨hapart, hparts⟩ := Tree.separate_node.1 hseparate
      have hmem := List.mem_of_getElem? hc
      have hsc : s ∈ constructs c := by
        rw [← gather_constructRule (a.inside l s' ps i)]
        exact hpart.gather_subset constructRule (by rwa [gather_constructRule])
      rcases mem_gather_node.1 hu with hu | ⟨j, d, hd, hu⟩
      · -- A use has no parts.
        have hnone : ps = [] := by
          unfold useRule at hu
          split at hu
          · have hfits := (Tree.inShape_node.1 hshape).1
            simpa [Tree.fits] using (Bool.and_eq_true_iff.1 hfits).2
          · simp at hu
        rw [hnone] at hmem
        simp at hmem
      · by_cases hij : i = j
        · subst hij
          obtain rfl := Option.some.inj (hc.symm.trans hd)
          exact ih ((Tree.inShape_node.1 hshape).2 c hmem) (hparts c hmem) hu
        · have hboth : BothApart c d ∨ BothApart d c := by
            obtain ⟨hi, rfl⟩ := List.getElem?_eq_some_iff.1 hc
            obtain ⟨hj, rfl⟩ := List.getElem?_eq_some_iff.1 hd
            rcases Nat.lt_or_gt_of_ne hij with hlt | hlt
            · exact Or.inl (List.pairwise_iff_getElem.1 hapart i j hi hj hlt)
            · exact Or.inr (List.pairwise_iff_getElem.1 hapart j i hj hi hlt)
          have hcd : Apart c d := hboth.elim And.left And.right
          have hfalse := hcd s hsc u.site (site_of_use hu)
          rw [hencloses] at hfalse
          simp at hfalse

/-! ## A removal leaves parts apart -/

section Prune

variable {dead : List Binding}

/-- A removal takes code only along with the code around it. -/
theorem cuttable_constructRule : Cuttable dead constructRule fun _ => False :=
  cuttable_of_labels (fun _ _ _ _ _ => rfl) (fun _ _ => rfl) fun _ _ _ _ => rfl

theorem cuttable_useSiteRule : Cuttable dead useSiteRule fun _ => False :=
  cuttable_of_labels (fun _ _ _ _ _ => rfl) (fun _ _ => rfl) fun _ _ _ _ => rfl

/-- All own code and all uses of `x` are among those of `y`. -/
def Less (x y : Tree) : Prop := constructs x ⊆ constructs y ∧ useSites x ⊆ useSites y

theorem Less.refl (x : Tree) : Less x x := ⟨List.Subset.refl _, List.Subset.refl _⟩

/-- Parts that have less lie apart if the parts that have more do. -/
theorem Less.bothApart {x x' y y' : Tree} (hx : Less x x') (hy : Less y y')
    (h : BothApart x' y') : BothApart x y :=
  ⟨fun s hs u hu => h.1 s (hx.1 hs) u (hy.2 hu), fun s hs u hu => h.2 s (hy.1 hs) u (hx.2 hu)⟩

/-- A pruned tree has no more code and no more uses. -/
theorem less_prune {t : Tree} (ht : t.inShape = true) : Less (prune dead t) t :=
  ⟨gather_prune_subset cuttable_constructRule rfl ht,
    gather_prune_subset cuttable_useSiteRule rfl ht⟩

theorem less_prunePart {t : Tree} (ht : t.inShape = true) (l : Label) :
    Less (prunePart dead l t) t := by
  rcases prunePart_eq_or dead l t with heq | heq <;> rw [heq]
  · exact less_prune ht
  · exact Less.refl t

/-- What is left of a statement has no more code and no more uses. -/
theorem less_kept {t u : Tree} (ht : t.inShape = true) (h : kept dead t = some u) : Less u t := by
  have hsub : ∀ {rule : Rule Span}, Cuttable dead rule (fun _ => False) →
      gather rule {} u ⊆ gather rule {} t := by
    intro rule hrule
    simpa [h] using gather_kept_subset hrule (a := {}) rfl ht
  exact ⟨hsub cuttable_constructRule, hsub cuttable_useSiteRule⟩

theorem less_keptDeclarator {d u : Tree} (hd : d.inShape = true)
    (hl : Tree.isDeclarator d.label = true) (h : keptDeclarator dead d = some u) : Less u d := by
  have hsub : ∀ {rule : Rule Span}, Cuttable dead rule (fun _ => False) →
      gather rule {} u ⊆ gather rule {} d := by
    intro rule hrule x hx
    refine (declarator_sheds hrule (a := {}) rfl hd hl).symm.subset (List.mem_append_left _ ?_)
    simpa [h] using hx
  exact ⟨hsub cuttable_constructRule, hsub cuttable_useSiteRule⟩

/-- What is left of a target has no more code and no more uses. -/
theorem less_keptTarget {t u : Tree} (ht : t.inShape = true) (h : keptTarget dead t = some u) :
    Less u t := by
  have hsub : ∀ {rule : Rule Span}, Cuttable dead rule (fun _ => False) →
      gather rule {} u ⊆ gather rule {} t := by
    intro rule hrule x hx
    exact (target_sheds hrule (a := {}) rfl ht h).symm.subset (List.mem_append_left _ hx)
  exact ⟨hsub cuttable_constructRule, hsub cuttable_useSiteRule⟩

theorem less_holeAt (t : Tree) : Less (holeAt t) t :=
  ⟨List.nil_subset _, List.nil_subset _⟩

/-- A node has no more than another of its label whose parts have all that its parts have. -/
theorem less_of_parts {l : Label} {s : Span} {ps qs : List Tree} (h : ∀ q ∈ qs, ∃ p ∈ ps, Less q p) :
    Less (.node l s qs) (.node l s ps) := by
  have hsub : ∀ {rule : Rule Span}, (∀ a b l s ps qs, rule a l s ps = rule b l s qs) →
      (∀ q ∈ qs, ∃ p ∈ ps, gather rule {} q ⊆ gather rule {} p) →
        gather rule {} (.node l s qs) ⊆ gather rule {} (.node l s ps) := by
    intro rule hrule hparts x hx
    have hcongr : ∀ a t, gather rule a t = gather rule {} t :=
      fun a t => gather_congr_around (fun a b l s ps => hrule a b l s ps ps) a {} t
    rcases mem_gather_node.1 hx with hx | ⟨i, q, hq, hx⟩
    · exact mem_gather_node.2 (Or.inl (by rwa [hrule _ {} l s ps qs]))
    · obtain ⟨p, hp, hqp⟩ := hparts q (List.mem_of_getElem? hq)
      obtain ⟨j, hj⟩ := List.mem_iff_getElem?.1 hp
      rw [hcongr] at hx
      refine mem_gather_node.2 (Or.inr ⟨j, p, hj, ?_⟩)
      rw [hcongr]
      exact hqp hx
  refine ⟨hsub (fun _ _ _ _ _ _ => rfl) fun q hq => ?_, hsub (fun _ _ _ _ _ _ => rfl) fun q hq => ?_⟩
  · obtain ⟨p, hp, hless⟩ := h q hq
    exact ⟨p, hp, hless.1⟩
  · obtain ⟨p, hp, hless⟩ := h q hq
    exact ⟨p, hp, hless.2⟩

/-- A node with fewer parts has no more code and no more uses. -/
theorem less_of_subset {l : Label} {s : Span} {ps qs : List Tree} (h : qs ⊆ ps) :
    Less (.node l s qs) (.node l s ps) :=
  less_of_parts fun q hq => ⟨q, h hq, Less.refl q⟩

/-- Items that go or become less stay apart. -/
theorem pairwise_bothApart_filterMap {ps : List Tree} {keep : Tree → Option Tree}
    (hps : ps.Pairwise BothApart) (hless : ∀ c ∈ ps, ∀ u, keep c = some u → Less u c) :
    (ps.filterMap keep).Pairwise BothApart := by
  refine List.pairwise_filterMap.2 (hps.imp_of_mem ?_)
  intro c d hc hd hapart u hu v hv
  exact (hless c hc u hu).bothApart (hless d hd v hv) hapart

/-- What is left of a target lies apart. -/
theorem separate_keptTarget {t u : Tree} (hshape : t.inShape = true) (ht : t.separate = true)
    (h : keptTarget dead t = some u) : u.separate = true := by
  rcases keptTarget_cases h with ⟨rfl, -⟩ | ⟨s, ps, rfl, rfl⟩ | ⟨s, ps, rfl, rfl⟩
  · exact ht
  · obtain ⟨hapart, hparts⟩ := Tree.separate_node.1 ht
    refine Tree.separate_node.2 ⟨hapart.filter _, fun c hc => ?_⟩
    exact hparts c (List.mem_of_mem_filter hc)
  · obtain ⟨hapart, hparts⟩ := Tree.separate_node.1 ht
    obtain ⟨hs, -, happend⟩ := exists_append_trimHoles (keepArrayParts dead ps)
    refine Tree.separate_node.2 ⟨?_, fun c hc => ?_⟩
    · refine List.Pairwise.sublist (happend ▸ List.sublist_append_left _ hs) ?_
      refine pairwise_bothApart_filterMap hapart fun c _ v hv => ?_
      split_ifs at hv <;> obtain rfl := Option.some.inj hv
      · exact Less.refl _
      · exact less_holeAt c
      · exact Less.refl _
    · rcases mem_keepArrayParts (mem_of_mem_trimHoles hc) with hc | ⟨d, -, rfl⟩
      · exact hparts c hc
      · rfl

theorem separate_keptDeclarator {t u : Tree} (hshape : t.inShape = true) (ht : t.separate = true)
    (h : keptDeclarator dead t = some u) : u.separate = true := by
  rcases keptDeclarator_cases h with rfl | ⟨l, s, target, target', rest, rfl, htarget, rfl⟩
  · exact ht
  · obtain ⟨hapart, hparts⟩ := Tree.separate_node.1 ht
    obtain ⟨hfirst, hrest⟩ := List.pairwise_cons.1 hapart
    have htargetShape := (Tree.inShape_node.1 hshape).2 target List.mem_cons_self
    -- What is left of the target has less in it, so it stays apart from the type and the value.
    have hless := less_keptTarget htargetShape htarget
    refine Tree.separate_node.2 ⟨List.pairwise_cons.2 ⟨?_, hrest⟩, ?_⟩
    · exact fun c hc => hless.bothApart (Less.refl c) (hfirst c hc)
    · intro c hc
      rcases List.mem_cons.1 hc with rfl | hc
      · exact separate_keptTarget htargetShape (hparts target List.mem_cons_self) htarget
      · exact hparts c (List.mem_cons_of_mem _ hc)

/-- What is left of a statement lies apart. -/
theorem separate_kept {t u : Tree} (hshape : t.inShape = true) (ht : t.separate = true)
    (h : kept dead t = some u) : u.separate = true := by
  rcases kept_cases h with rfl | ⟨kind, declared, s, ds, rfl, rfl⟩ |
    ⟨typeOnly, phase, s, cs, ss, rest, rfl, rfl⟩
  · exact ht
  · obtain ⟨hapart, hparts⟩ := Tree.separate_node.1 ht
    have hshapes := (Tree.inShape_node.1 hshape).2
    refine Tree.separate_node.2 ⟨pairwise_bothApart_filterMap hapart ?_, ?_⟩
    · exact fun c hc u hu => less_keptDeclarator (hshapes c hc)
        (Tree.isDeclarator_of_inShape hshape hc) hu
    · intro c hc
      obtain ⟨d, hd, hdc⟩ := List.mem_filterMap.1 hc
      exact separate_keptDeclarator (hshapes d hd) (hparts d hd) hdc
  · obtain ⟨hapart, hparts⟩ := Tree.separate_node.1 ht
    obtain ⟨hfirst, hrest⟩ := List.pairwise_cons.1 hapart
    obtain ⟨hinner, hspecifiers⟩ := Tree.separate_node.1 (hparts _ List.mem_cons_self)
    have hsub : ss.filterMap (keptSpecifier dead) ⊆ ss := by
      intro c hc
      obtain ⟨d, hd, hdc⟩ := List.mem_filterMap.1 hc
      exact keptSpecifier_eq hdc ▸ hd
    refine Tree.separate_node.2 ⟨List.pairwise_cons.2 ⟨?_, hrest⟩, ?_⟩
    · exact fun c hc => (less_of_subset hsub).bothApart (Less.refl c) (hfirst c hc)
    · intro c hc
      rcases List.mem_cons.1 hc with rfl | hc
      · refine Tree.separate_node.2 ⟨?_, fun c hc => hspecifiers c (hsub hc)⟩
        exact pairwise_bothApart_filterMap hinner fun c _ u hu => keptSpecifier_eq hu ▸ Less.refl _
      · exact hparts c (List.mem_cons_of_mem _ hc)

/-- A removal leaves a tree whose code lies apart so. -/
theorem separate_prune {t : Tree} (hshape : t.inShape = true) (ht : t.separate = true) :
    (prune dead t).separate = true := by
  induction t using Tree.induct with
  | node l s ps ih =>
      obtain ⟨hapart, hparts⟩ := Tree.separate_node.1 ht
      have hshapes := (Tree.inShape_node.1 hshape).2
      have hpruned : (ps.map (prunePart dead l)).Pairwise BothApart := by
        refine List.pairwise_map.2 (hapart.imp_of_mem ?_)
        exact fun hc hd hapart =>
          (less_prunePart (hshapes _ hc) l).bothApart (less_prunePart (hshapes _ hd) l) hapart
      by_cases hl : l = .module .statements
      · subst hl
        rw [prunePart_of_searches dead (by simp)] at hpruned
        rw [prune_statements]
        refine Tree.separate_node.2 ⟨pairwise_bothApart_filterMap hpruned ?_, ?_⟩
        · intro c hc u hu
          obtain ⟨e, he, rfl⟩ := List.mem_map.1 hc
          exact less_kept (inShape_prune (hshapes e he)) hu
        · intro c hc
          obtain ⟨d, hd, hdc⟩ := List.mem_filterMap.1 hc
          obtain ⟨e, he, rfl⟩ := List.mem_map.1 hd
          exact separate_kept (inShape_prune (hshapes e he)) (ih e he (hshapes e he) (hparts e he)) hdc
      · rw [prune_node dead hl]
        refine Tree.separate_node.2 ⟨hpruned, fun c hc => ?_⟩
        obtain ⟨e, he, rfl⟩ := List.mem_map.1 hc
        rcases prunePart_eq_or dead l e with heq | heq <;> rw [heq]
        · exact ih e he (hshapes e he) (hparts e he)
        · exact hparts e he

end Prune

end Sweep

end RouteSplit
