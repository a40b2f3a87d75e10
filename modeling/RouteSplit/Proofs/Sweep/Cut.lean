import Mathlib.Data.List.Perm.Subperm
import RouteSplit.Proofs.Sweep.Kept

/-!
# What a removal takes away

What a rule tells of a tree is told of the pruned tree, of the code that went, or is lost.

- `Sheds`: all of a list is in another one, apart from what is lost;
- `Cuttable`: the rules that a removal takes apart like this;
- `gather_sheds_kept`: one statement;
- `gather_sheds_prune`: a whole tree;
- `disjoint_prune_of_deleted`: what the code that went alone told is told no more.
-/

namespace RouteSplit.Sweep

open Scope

variable {α : Type}

/-! ## Lists that shed items -/

/-- All of `xs` is in `ys`, apart from items that are lost. -/
def Sheds (Lost : α → Prop) (xs ys : List α) : Prop :=
  ∃ ls, (∀ x ∈ ls, Lost x) ∧ xs.Perm (ys ++ ls)

namespace Sheds

variable {Lost : α → Prop} {xs ys zs xs' ys' : List α}

/-- Nothing is shed where only the order changes. -/
theorem of_perm (h : xs.Perm ys) : Sheds Lost xs ys :=
  ⟨[], by simp, by simpa using h⟩

theorem refl (xs : List α) : Sheds Lost xs xs := of_perm (List.Perm.refl xs)

/-- What is shed from two lists is shed from both together. -/
theorem append (h : Sheds Lost xs ys) (h' : Sheds Lost xs' ys') :
    Sheds Lost (xs ++ xs') (ys ++ ys') := by
  classical
  obtain ⟨ls, hls, hperm⟩ := h
  obtain ⟨ls', hls', hperm'⟩ := h'
  refine ⟨ls ++ ls', ?_, ?_⟩
  · intro x hx
    exact (List.mem_append.1 hx).elim (hls x) (hls' x)
  · simp only [List.perm_iff_count, List.count_append] at hperm hperm' ⊢
    intro x
    rw [hperm x, hperm' x]
    omega

/-- What is shed in two steps is shed in one. -/
theorem trans (h : Sheds Lost xs ys) (h' : Sheds Lost ys zs) : Sheds Lost xs zs := by
  obtain ⟨ls, hls, hperm⟩ := h
  obtain ⟨ls', hls', hperm'⟩ := h'
  refine ⟨ls' ++ ls, ?_, ?_⟩
  · intro x hx
    exact (List.mem_append.1 hx).elim (hls' x) (hls x)
  · rw [← List.append_assoc]
    exact hperm.trans (hperm'.append_right ls)

theorem perm_right (h : Sheds Lost xs ys) (hperm : ys.Perm zs) : Sheds Lost xs zs :=
  h.trans (of_perm hperm)

/-- What is told of items is shed as each item sheds what is told of it. -/
theorem flatMap {β : Type} {items : List β} {f g : β → List α}
    (h : ∀ b ∈ items, Sheds Lost (f b) (g b)) :
    Sheds Lost (items.flatMap f) (items.flatMap g) := by
  induction items with
  | nil => exact refl []
  | cons b bs ih =>
      rw [List.flatMap_cons, List.flatMap_cons]
      exact (h b List.mem_cons_self).append (ih fun c hc => h c (List.mem_cons_of_mem _ hc))

/-- Where items are shed, so is what is told of them. -/
theorem flatMap_items {β : Type} {Gone : β → Prop} {items items' : List β} {f : β → List α}
    (h : Sheds Gone items items') (hf : ∀ b, Gone b → ∀ x ∈ f b, Lost x) :
    Sheds Lost (items.flatMap f) (items'.flatMap f) := by
  obtain ⟨gone, hgone, hperm⟩ := h
  refine ⟨gone.flatMap f, ?_, ?_⟩
  · intro x hx
    obtain ⟨b, hb, hx⟩ := List.mem_flatMap.1 hx
    exact hf b (hgone b hb) x hx
  · rw [← List.flatMap_append]
    exact hperm.flatMap_right f

theorem map {β : Type} {Gone : β → Prop} {items items' : List β} {f : β → α}
    (h : Sheds Gone items items') (hf : ∀ b, Gone b → Lost (f b)) :
    Sheds Lost (items.map f) (items'.map f) := by
  obtain ⟨gone, hgone, hperm⟩ := h
  refine ⟨gone.map f, ?_, ?_⟩
  · intro x hx
    obtain ⟨b, hb, rfl⟩ := List.mem_map.1 hx
    exact hf b (hgone b hb)
  · rw [← List.map_append]
    exact hperm.map f

theorem subperm (h : Sheds Lost xs ys) : ys.Subperm xs := by
  obtain ⟨ls, -, hperm⟩ := h
  exact (List.sublist_append_left ys ls).subperm.trans hperm.symm.subperm

/-- What is left was there before. -/
theorem subset (h : Sheds Lost xs ys) : ys ⊆ xs := h.subperm.subset

/-- What was there is left, or it is lost. -/
theorem mem (h : Sheds Lost xs ys) {x : α} (hx : x ∈ xs) : x ∈ ys ∨ Lost x := by
  obtain ⟨ls, hls, hperm⟩ := h
  exact (List.mem_append.1 (hperm.mem_iff.1 hx)).imp_right (hls x)

theorem nodup (h : Sheds Lost xs ys) (hxs : xs.Nodup) : ys.Nodup := by
  obtain ⟨ls, -, hperm⟩ := h
  exact (List.nodup_append.1 (hperm.nodup_iff.1 hxs)).1

/-- Items that go or are replaced one by one. -/
theorem filterMap {items : List Tree} {keep : Tree → Option Tree} {gone : Tree → List Tree}
    {g : Tree → List α}
    (h : ∀ c ∈ items, Sheds Lost (g c) ((keep c).toList.flatMap g ++ (gone c).flatMap g)) :
    Sheds Lost (items.flatMap g)
      ((items.filterMap keep).flatMap g ++ (items.flatMap gone).flatMap g) := by
  rw [flatMap_filterMap_eq, List.flatMap_assoc]
  exact (flatMap h).perm_right (List.flatMap_append_perm items _ _).symm

end Sheds

/-! ## Rules that a removal takes apart -/

/-- A rule that a removal takes apart: nothing is told of holes; what is told of a node that loses
parts does not depend on them, or the difference is lost; and so it is where the parts of any other
node are pruned. -/
structure Cuttable (dead : List Binding) (rule : Rule α) (Lost : α → Prop) : Prop where
  hole : ∀ a s, rule a (.expression .hole) s [] = []
  object : ∀ a s ps qs, rule a (.pattern .object) s ps = rule a (.pattern .object) s qs
  array : ∀ a s ps qs, rule a (.pattern .array) s ps = rule a (.pattern .array) s qs
  declarator : ∀ a b s ps qs,
    rule a (.statement (.declarator b)) s ps = rule a (.statement (.declarator b)) s qs
  clause : ∀ a s ps qs, rule a (.module .importClause) s ps = rule a (.module .importClause) s qs
  noDeclarators : ∀ a k b s, rule a (.statement (.variableList k b)) s [] = []
  declarators : ∀ a k b s ds, (∀ d ∈ ds, d.inShape = true) →
    Sheds Lost (rule a (.statement (.variableList k b)) s ds)
      (rule a (.statement (.variableList k b)) s (ds.filterMap (keptDeclarator dead)))
  imports : ∀ a t p s cs ss rest,
    Sheds Lost
      (rule a (.module (.importDeclaration t p)) s (.node (.module .importClause) cs ss :: rest))
      (rule a (.module (.importDeclaration t p)) s
        (.node (.module .importClause) cs (ss.filterMap (keptSpecifier dead)) :: rest))
  list : ∀ a s ps, (∀ c ∈ ps, c.inShape = true) →
    Sheds Lost (rule a (.module .statements) s ps)
      (rule a (.module .statements) s ((ps.map (prune dead)).filterMap (kept dead)))
  stable : ∀ a l s ps, l ≠ .module .statements → (Tree.node l s ps).inShape = true →
    Sheds Lost (rule a l s ps) (rule a l s (ps.map (prunePart dead l)))

/-- What is told of a list that is searched: what is told of its statements. -/
def listRule (h : Tree → List α) : Rule α := fun a l _ ps =>
  if l = .module .statements ∧ a.searched then ps.flatMap h else []

/-- What is told of lists does not depend on what they stand in, as long as it is searched. -/
theorem gather_listRule_of_searched (h : Tree → List α) {a : Around} (ha : a.searched = true)
    (t : Tree) : gather (listRule h) a t = gather (listRule h) {} t :=
  gather_congr_searched (fun a b l s ps hab => by simp only [listRule, hab]) ha t

/-- Nothing is told of lists that are not searched. -/
theorem gather_listRule_of_unsearched (h : Tree → List α) {a : Around} (ha : a.searched = false)
    (t : Tree) : gather (listRule h) a t = [] :=
  gather_eq_nil_of_unsearched (fun a l s ps ha => by simp [listRule, ha]) ha t

/-- What is told of the lists of a tree: what is told of its own statements, and of the lists in the
parts that are searched. -/
theorem gather_listRule_node (h : Tree → List α) (l : Label) (s : Span) (ps : List Tree) :
    gather (listRule h) {} (.node l s ps) =
      listRule h {} l s ps ++
        ps.flatMap fun c => if searches l c.label then gather (listRule h) {} c else [] := by
  rw [gather_node]
  congr 1
  -- The parts are taken with their places, as `gather_node` has them.
  conv_rhs => rw [← List.zipIdx_map_fst 0 ps, List.flatMap_map]
  refine List.flatMap_congr fun x hx => ?_
  have hsearched := inside_searched (a := {}) (l := l) (s := s) (List.mem_zipIdx_iff_getElem?.1 hx)
  split_ifs with hpart
  · exact gather_listRule_of_searched h (by rw [hsearched, hpart]; rfl) x.1
  · exact gather_listRule_of_unsearched h (by rw [hsearched]; simpa using hpart) x.1

/-- What is told of lists comes from a statement of the tree or from a part that is searched. -/
theorem mem_gather_listRule {h : Tree → List α} {l : Label} {s : Span} {ps : List Tree} {x : α} :
    x ∈ gather (listRule h) {} (.node l s ps) ↔
      (l = .module .statements ∧ ∃ c ∈ ps, x ∈ h c) ∨
        ∃ c ∈ ps, searches l c.label = true ∧ x ∈ gather (listRule h) {} c := by
  rw [gather_listRule_node, List.mem_append, List.mem_flatMap, listRule]
  refine or_congr ?_ ?_
  · split_ifs with hl <;> simp_all
  · simp only [List.mem_ite_nil_right]

/-- A rule for statements is cuttable if it does not look at the lists inside a statement, and if
what is left of a statement tells less of the same. -/
theorem cuttable_listRule {dead : List Binding} {h : Tree → List α} {Lost : α → Prop}
    (hprune : ∀ c, c.inShape = true → h (prune dead c) = h c)
    (hkept : ∀ c, Sheds Lost (h c) ((kept dead c).toList.flatMap h)) :
    Cuttable dead (listRule h) Lost where
  hole _ _ := rfl
  object _ _ _ _ := rfl
  array _ _ _ _ := rfl
  declarator _ _ _ _ _ := rfl
  clause _ _ _ _ := rfl
  noDeclarators _ _ _ _ := rfl
  declarators _ _ _ _ _ _ := Sheds.refl _
  imports _ _ _ _ _ _ _ := Sheds.refl _
  list a _ ps hps := by
    simp only [listRule, true_and]
    split_ifs
    · rw [flatMap_filterMap_eq, List.flatMap_map]
      refine Sheds.flatMap fun c hc => ?_
      rw [← hprune c (hps c hc)]
      exact hkept (prune dead c)
    · exact Sheds.refl _
  stable a l _ _ hl _ := by
    have hlist : ¬ (l = .module .statements ∧ a.searched) := fun h => hl h.1
    simp only [listRule, if_neg hlist]
    exact Sheds.refl _

/-- A rule that does not ask for the parts of a node, and tells nothing of holes and of variable
declarations. -/
theorem cuttable_of_labels {α : Type} {rule : Rule α}
    (hparts : ∀ a l s ps qs, rule a l s ps = rule a l s qs)
    (hhole : ∀ a s, rule a (.expression .hole) s [] = [])
    (hvariables : ∀ a k b s, rule a (.statement (.variableList k b)) s [] = []) :
    Cuttable dead rule fun _ => False where
  hole := hhole
  object _ _ _ _ := hparts _ _ _ _ _
  array _ _ _ _ := hparts _ _ _ _ _
  declarator _ _ _ _ _ := hparts _ _ _ _ _
  clause _ _ _ _ := hparts _ _ _ _ _
  noDeclarators := hvariables
  declarators _ _ _ _ _ _ := Sheds.of_perm (by rw [hparts])
  imports _ _ _ _ _ _ _ := Sheds.of_perm (by rw [hparts])
  list _ _ _ _ := Sheds.of_perm (by rw [hparts])
  stable _ _ _ _ _ _ := Sheds.of_perm (by rw [hparts])

/-! ## One statement -/

section Statement

variable {dead : List Binding} {rule : Rule α} {Lost : α → Prop} {a : Around}

/-- A node whose parts stand in what it stands in itself. -/
theorem gather_plain {l : Label} {s : Span} {ps : List Tree}
    (hinside : ∀ i, a.inside l s ps i = a) :
    gather rule a (.node l s ps) = rule a l s ps ++ ps.flatMap (gather rule a) :=
  gather_node_of_const hinside

/-- The parts of a node that opens no scope, asks for nothing and hides nothing stand in what the
node stands in. -/
theorem inside_of_plain {l : Label} (ha : a.isBranch = false)
    (hopened : ∀ s ps i, opened l s ps i = [])
    (hstrict : ∀ s ps, makesStrict l s ps = false)
    (hbranch : l ≠ .statement .ifElse ∧ ∀ part, searches l part = true)
    (s : Span) (ps : List Tree) (i : Nat) : a.inside l s ps i = a := by
  obtain ⟨env, searched, strict, isBranch⟩ := a
  obtain rfl : isBranch = false := ha
  simp [Around.inside, hopened, hstrict, hbranch]

theorem gather_holeAt (hrule : Cuttable dead rule Lost) (t : Tree) :
    gather rule a (holeAt t) = [] := by
  rw [holeAt, gather_node, hrule.hole]
  rfl

theorem gather_hole (hrule : Cuttable dead rule Lost) {t : Tree} (ht : t.inShape = true)
    (hhole : Binding.isHole t = true) : gather rule a t = [] := by
  obtain ⟨l, s, ps⟩ := t
  obtain rfl : l = .expression .hole := by simpa [Binding.isHole] using hhole
  have hps : ps = [] := by
    have hfits := (Tree.inShape_node.1 ht).1
    simp only [Tree.fits, Bool.and_eq_true, List.isEmpty_iff] at hfits
    exact hfits.2
  subst hps
  rw [gather_node, hrule.hole]
  rfl

/-- The parts of a list that a test picks out, and the others. -/
theorem flatMap_filter_perm (g : Tree → List α) (P : Tree → Bool) (ps : List Tree) :
    (ps.flatMap g).Perm ((ps.filter fun t => !P t).flatMap g ++ (ps.filter P).flatMap g) := by
  rw [← List.flatMap_append]
  refine List.Perm.flatMap_right g ?_
  exact ((List.filter_append_perm P ps).symm.trans List.perm_append_comm)

/-- Holes at the end of a pattern tell nothing, so they can be left out. -/
theorem flatMap_trimHoles {g : Tree → List α} {ps : List Tree}
    (hg : ∀ c ∈ ps, Binding.isHole c = true → g c = []) :
    (trimHoles ps).flatMap g = ps.flatMap g := by
  obtain ⟨hs, hholes, happend⟩ := exists_append_trimHoles ps
  have hnone : hs.flatMap g = [] := by
    rw [List.flatMap_eq_nil_iff]
    intro c hc
    exact hg c (happend ▸ List.mem_append_right _ hc) (hholes c hc)
  conv_rhs => rw [← happend, List.flatMap_append, hnone, List.append_nil]

/-- The holes that are left for dead names tell nothing. -/
theorem flatMap_keepArrayParts {g : Tree → List α} (hhole : ∀ c, g (holeAt c) = [])
    (ps : List Tree) :
    (keepArrayParts dead ps).flatMap g =
      (ps.filter fun t => !arrayPartGoes dead t).flatMap g := by
  induction ps with
  | nil => rfl
  | cons c cs ih =>
      unfold keepArrayParts at ih ⊢
      rw [List.filterMap_cons, List.filter_cons]
      unfold arrayPartGoes at ih ⊢
      cases hc : Binding.isHole c
      · cases hgoes : goes dead (siteOf (Binding.arrayPartTarget c))
        · simp [ih]
        · cases hrest : Binding.isRest c <;> simp [ih, hhole]
      · simp [ih]

/-- What is told of a target is told of what is left of it and of what it loses. -/
theorem target_sheds (hrule : Cuttable dead rule Lost) (ha : a.isBranch = false) {t u : Tree}
    (ht : t.inShape = true) (h : keptTarget dead t = some u) :
    (gather rule a t).Perm (gather rule a u ++ (lostParts dead t).flatMap (gather rule a)) := by
  rcases keptTarget_cases h with ⟨rfl, hlost⟩ | ⟨s, ps, rfl, rfl⟩ | ⟨s, ps, rfl, rfl⟩
  · rw [hlost]
    simp
  · have hplain := inside_of_plain (l := .pattern .object) ha (fun _ _ _ => rfl) (fun _ _ => rfl)
      (by simp)
    rw [gather_plain (hplain s ps), gather_plain (hplain s _), hrule.object a s ps, lostParts,
      List.append_assoc]
    exact (flatMap_filter_perm (gather rule a) (objectPartGoes dead) ps).append_left _
  · have hplain := inside_of_plain (l := .pattern .array) ha (fun _ _ _ => rfl) (fun _ _ => rfl)
      (by simp)
    have hparts := (Tree.inShape_node.1 ht).2
    rw [gather_plain (hplain s ps), gather_plain (hplain s _), hrule.array a s ps, lostParts,
      List.append_assoc, flatMap_trimHoles, flatMap_keepArrayParts (gather_holeAt hrule)]
    · exact (flatMap_filter_perm (gather rule a) (arrayPartGoes dead) ps).append_left _
    · intro c hc hhole
      rcases mem_keepArrayParts hc with hc | ⟨d, -, rfl⟩
      · exact gather_hole hrule (hparts c hc) hhole
      · exact gather_holeAt hrule d

/-- What is told of a declarator is told of what is left of it and of what it loses. -/
theorem declarator_sheds (hrule : Cuttable dead rule Lost) (ha : a.isBranch = false) {d : Tree}
    (hd : d.inShape = true) (hl : Tree.isDeclarator d.label = true) :
    (gather rule a d).Perm ((keptDeclarator dead d).toList.flatMap (gather rule a) ++
      (lostOfDeclarator dead d).flatMap (gather rule a)) := by
  classical
  cases h : keptDeclarator dead d with
  | none => simp [lostOfDeclarator, h]
  | some d' =>
      obtain ⟨l, s, ps⟩ := d
      obtain ⟨b, rfl⟩ := Tree.exists_of_isDeclarator hl
      have hplain := inside_of_plain (l := .statement (.declarator b)) ha (fun _ _ _ => rfl)
        (fun _ _ => rfl) (by simp)
      -- The rule tells the same of the declarator itself, whatever is left of its target.
      cases ps with
      | nil =>
          obtain rfl := Option.some.inj h
          simp [lostOfDeclarator, h, Tree.child, lostParts, Tree.absent]
      | cons target rest =>
          obtain ⟨target', htarget, rfl⟩ := Option.map_eq_some_iff.1 h
          have hperm := target_sheds hrule ha
            ((Tree.inShape_node.1 hd).2 target List.mem_cons_self) htarget
          have hchild : (Tree.node (.statement (.declarator b)) s (target :: rest)).child 0 =
            target := rfl
          simp only [lostOfDeclarator, h, Option.isNone_some, Bool.false_eq_true, if_false, hchild,
            Option.toList_some, List.flatMap_singleton]
          rw [gather_plain (hplain s _), gather_plain (hplain s _),
            hrule.declarator a b s (target :: rest) (target' :: rest), List.flatMap_cons,
            List.flatMap_cons]
          simp only [List.perm_iff_count, List.count_append] at hperm ⊢
          intro x
          have hx := hperm x
          omega

/-- What is told of a declaration of variables is told of what is left of it and of what it
loses. -/
theorem variables_sheds (hrule : Cuttable dead rule Lost) (ha : a.isBranch = false)
    {k : VariableKind} {b : Bool} {s : Span} {ds : List Tree}
    (ht : (Tree.node (.statement (.variableList k b)) s ds).inShape = true) :
    Sheds Lost (gather rule a (.node (.statement (.variableList k b)) s ds))
      ((kept dead (.node (.statement (.variableList k b)) s ds)).toList.flatMap (gather rule a) ++
        (ds.flatMap (lostOfDeclarator dead)).flatMap (gather rule a)) := by
  have hplain := inside_of_plain (l := .statement (.variableList k b)) ha (fun _ _ _ => rfl)
    (fun _ _ => rfl) (by simp)
  have hparts : Sheds Lost (ds.flatMap (gather rule a))
      ((ds.filterMap (keptDeclarator dead)).flatMap (gather rule a) ++
        (ds.flatMap (lostOfDeclarator dead)).flatMap (gather rule a)) := by
    refine Sheds.filterMap fun d hd => Sheds.of_perm ?_
    exact declarator_sheds hrule ha ((Tree.inShape_node.1 ht).2 d hd)
      (Tree.isDeclarator_of_inShape ht hd)
  have hall := (hrule.declarators a k b s ds (Tree.inShape_node.1 ht).2).append hparts
  rw [← gather_plain (hplain s ds), ← List.append_assoc, ← gather_plain (hplain s _)] at hall
  cases h : kept dead (.node (.statement (.variableList k b)) s ds) with
  | some u =>
      obtain rfl := eq_of_kept_variables h
      simpa using hall
  | none =>
      have hnone : ds.filterMap (keptDeclarator dead) = [] :=
        (keepItems_eq_none_iff.1 h).1
      rw [hnone, gather_plain (hplain s []), hrule.noDeclarators] at hall
      simpa using hall

/-- What is told of an import is told of what is left of it and of what it loses. -/
theorem import_sheds (hrule : Cuttable dead rule Lost) (ha : a.isBranch = false)
    {typeOnly : Bool} {phase : Option String} {s cs : Span} {ss rest : List Tree} :
    Sheds Lost
      (gather rule a (.node (.module (.importDeclaration typeOnly phase)) s
        (.node (.module .importClause) cs ss :: rest)))
      (gather rule a (.node (.module (.importDeclaration typeOnly phase)) s
        (.node (.module .importClause) cs (ss.filterMap (keptSpecifier dead)) :: rest)) ++
        (ss.filter fun t => (keptSpecifier dead t).isNone).flatMap (gather rule a)) := by
  classical
  have himport := inside_of_plain (l := .module (.importDeclaration typeOnly phase)) ha
    (fun _ _ _ => rfl) (fun _ _ => rfl) (by simp)
  have hclause := inside_of_plain (l := .module .importClause) ha (fun _ _ _ => rfl)
    (fun _ _ => rfl) (by simp)
  have hparts : Sheds Lost (ss.flatMap (gather rule a))
      ((ss.filterMap (keptSpecifier dead)).flatMap (gather rule a) ++
        (ss.filter fun t => (keptSpecifier dead t).isNone).flatMap (gather rule a)) := by
    have hkept : ss.filterMap (keptSpecifier dead) =
        ss.filter fun t => !(keptSpecifier dead t).isNone := by
      rw [← List.filterMap_eq_filter]
      apply List.filterMap_congr
      intro c hc
      cases h : keptSpecifier dead c with
      | none => simp [Option.guard, h]
      | some d => simp [Option.guard, h, keptSpecifier_eq h]
    rw [hkept]
    exact Sheds.of_perm (flatMap_filter_perm _ _ ss)
  rw [gather_plain (himport s _), gather_plain (himport s _), List.flatMap_cons, List.flatMap_cons,
    gather_plain (hclause cs _), gather_plain (hclause cs _),
    hrule.clause a cs ss (ss.filterMap (keptSpecifier dead))]
  refine ((hrule.imports a typeOnly phase s cs ss rest).append
    (((Sheds.refl _).append hparts).append (Sheds.refl _))).perm_right ?_
  simp only [List.perm_iff_count, List.count_append]
  intro x
  omega

/-- What is told of a statement is told of what is left of it or of the code that goes. -/
theorem gather_sheds_kept (hrule : Cuttable dead rule Lost) (ha : a.isBranch = false) {t : Tree}
    (ht : t.inShape = true) :
    Sheds Lost (gather rule a t)
      ((kept dead t).toList.flatMap (gather rule a) ++ (lost dead t).flatMap (gather rule a)) := by
  fun_cases lost dead t with
  | case1 kind declared span declarators => exact variables_sheds hrule ha ht
  | case2 typeOnly phase s cs ss rest t' hnone =>
      -- The whole import goes, so it is its own lost code.
      rw [Option.isNone_iff_eq_none.1 hnone]
      exact Sheds.of_perm (by simp [t'])
  | case3 typeOnly phase s cs ss rest t' hsome =>
      -- Some specifiers are left, so the others are the lost code.
      obtain ⟨u, hu⟩ := Option.ne_none_iff_exists'.1 (mt Option.isNone_iff_eq_none.2 hsome)
      obtain rfl := eq_of_kept_import hu
      rw [hu]
      simpa using import_sheds hrule ha
  | case4 t hvariables himport hnone =>
      -- A statement without items goes as a whole or stays as it is.
      rw [Option.isNone_iff_eq_none.1 hnone]
      exact Sheds.of_perm (by simp)
  | case5 t hvariables himport hsome =>
      obtain ⟨u, hu⟩ := Option.ne_none_iff_exists'.1 (mt Option.isNone_iff_eq_none.2 hsome)
      rw [hu]
      rcases kept_cases hu with rfl | ⟨k, b, s, ds, rfl, -⟩ | ⟨o, p, s, cs, ss, rest, rfl, -⟩
      · exact Sheds.of_perm (by simp)
      · exact absurd rfl (hvariables _ _ _ _)
      · exact absurd rfl (himport _ _ _ _ _ _)

end Statement

/-! ## A whole tree -/

section Tree

variable {dead : List Binding} {rule : Rule α} {Lost : α → Prop}

/-- The code that goes with the statements of a list, and what it stands in. -/
def deletedRule (dead : List Binding) : Rule (Around × Tree) := fun a l s ps =>
  if l = .module .statements ∧ a.searched then
    (ps.flatMap (lost dead)).map (a.inside l s ps 0, ·)
  else []

/-- The code that goes, as it was, with what it stands in. -/
def deleted (dead : List Binding) (a : Around) (t : Tree) : List (Around × Tree) :=
  gather (deletedRule dead) a t

/-- A removal deletes nothing where it does not search. -/
theorem deleted_of_unsearched {a : Around} (ha : a.searched = false) (t : Tree) :
    deleted dead a t = [] :=
  gather_eq_nil_of_unsearched (fun a l s ps ha => by simp [deletedRule, ha]) ha t

theorem inside_statements (a : Around) (s : Span) (ps : List Tree) (i : Nat) :
    a.inside (.module .statements) s ps i = { a with isBranch := false } := by
  simp [Around.inside, opened, makesStrict]

/-- What is told of a statement list is told of it and of each of its statements. -/
theorem gather_statements (a : Around) (s : Span) (ps : List Tree) :
    gather rule a (.node (.module .statements) s ps) =
      rule a (.module .statements) s ps ++
        ps.flatMap (gather rule { a with isBranch := false }) :=
  gather_node_of_const (inside_statements a s ps)

/-- What is told of a pruned node that is no list is told of its pruned parts. -/
theorem gather_node_prune {l : Label} {s : Span} {ps : List Tree} (a : Around)
    (hl : l ≠ .module .statements) (ht : (Tree.node l s ps).inShape = true) :
    gather rule a (prune dead (.node l s ps)) =
      rule a l s (ps.map (prunePart dead l)) ++
        ps.zipIdx.flatMap fun x => gather rule (a.inside l s ps x.2) (prunePart dead l x.1) := by
  rw [prune_node dead hl, gather_node, List.zipIdx_map, List.flatMap_map]
  simp only [inside_map_prunePart ht]
  rfl

/-- What is told of a tree is told of the pruned tree or of the code that goes. -/
theorem gather_sheds_prune (hrule : Cuttable dead rule Lost) {a : Around}
    (ha : a.searched = true) {t : Tree} (ht : t.inShape = true) :
    Sheds Lost (gather rule a t) (gather rule a (prune dead t) ++
      (deleted dead a t).flatMap fun x => gather rule x.1 (prune dead x.2)) := by
  classical
  induction t using Tree.induct generalizing a with
  | node l s ps ih =>
      have hparts := (Tree.inShape_node.1 ht).2
      by_cases hl : l = .module .statements
      · subst hl
        -- A statement sheds twice: the code within it, by induction, and then what the removal
        -- takes of the pruned statement.
        have hstatement : ∀ c ∈ ps, Sheds Lost (gather rule { a with isBranch := false } c)
            ((kept dead (prune dead c)).toList.flatMap
                (gather rule { a with isBranch := false }) ++
              ((lost dead c).flatMap fun x =>
                gather rule { a with isBranch := false } (prune dead x)) ++
              (deleted dead { a with isBranch := false } c).flatMap fun x =>
                gather rule x.1 (prune dead x.2)) := by
          intro c hc
          have hpruned : (prune dead c).inShape = true := inShape_prune (hparts c hc)
          have hkept := gather_sheds_kept hrule (a := { a with isBranch := false }) rfl hpruned
          rw [lost_prune (hparts c hc), List.flatMap_map] at hkept
          exact (ih c hc (a := { a with isBranch := false }) ha (hparts c hc)).trans
            (hkept.append (Sheds.refl _))
        rw [prune_statements, deleted, gather_statements, gather_statements, gather_statements,
          deletedRule, if_pos ⟨rfl, ha⟩, inside_statements]
        refine ((hrule.list a s ps hparts).append (Sheds.flatMap hstatement)).perm_right ?_
        rw [flatMap_filterMap_eq]
        simp only [List.flatMap_append, List.flatMap_map, List.flatMap_assoc, List.append_assoc]
        refine List.Perm.append_left _ ?_
        refine (List.flatMap_append_perm ps _ _).symm.trans (List.Perm.append_left _ ?_)
        exact (List.flatMap_append_perm ps _ _).symm
      · have hpart : ∀ x ∈ ps.zipIdx, Sheds Lost (gather rule (a.inside l s ps x.2) x.1)
            (gather rule (a.inside l s ps x.2) (prunePart dead l x.1) ++
              (deleted dead (a.inside l s ps x.2) x.1).flatMap fun y =>
                gather rule y.1 (prune dead y.2)) := by
          intro x hx
          have hmem := List.fst_mem_of_mem_zipIdx hx
          have hinside := inside_searched (a := a) (l := l) (s := s)
            (List.mem_zipIdx_iff_getElem?.1 hx)
          unfold prunePart
          split_ifs with hsearched
          · exact ih x.1 hmem (by simp [hinside, ha, hsearched]) (hparts x.1 hmem)
          · rw [deleted_of_unsearched (by simp [hinside, hsearched])]
            exact Sheds.of_perm (by simp)
        have hlist : ¬ (l = .module .statements ∧ a.searched) := fun h => hl h.1
        rw [gather_node_prune a hl ht, gather_node, deleted, gather_node, deletedRule,
          if_neg hlist, List.nil_append, List.flatMap_assoc]
        refine ((hrule.stable a l s ps hl ht).append (Sheds.flatMap hpart)).perm_right ?_
        rw [List.append_assoc]
        exact (List.flatMap_append_perm _ _ _).symm.append_left _

/-- A pruned tree tells nothing that the tree did not. -/
theorem gather_prune_subset (hrule : Cuttable dead rule Lost) {a : Around}
    (ha : a.searched = true) {t : Tree} (ht : t.inShape = true) :
    gather rule a (prune dead t) ⊆ gather rule a t :=
  List.Subset.trans (List.subset_append_left _ _) (gather_sheds_prune hrule ha ht).subset

/-- A pruned part tells nothing that the part did not, whether it is searched or not. -/
theorem gather_prunePart_subset (hrule : Cuttable dead rule Lost) {a : Around}
    (ha : a.searched = true) {l : Label} {s : Span} {ps : List Tree} {i : Nat} {t : Tree}
    (hi : ps[i]? = some t) (ht : t.inShape = true) :
    gather rule (a.inside l s ps i) (prunePart dead l t) ⊆ gather rule (a.inside l s ps i) t := by
  unfold prunePart
  split_ifs with hsearched
  · exact gather_prune_subset hrule (by rw [inside_searched hi, ha, hsearched]; rfl) ht
  · exact List.Subset.refl _

/-- What is told of code that goes is told of the statement. -/
theorem gather_lost_subset (hrule : Cuttable dead rule Lost) {a : Around} (ha : a.isBranch = false)
    {t x : Tree} (ht : t.inShape = true) (hx : x ∈ lost dead t) :
    gather rule a x ⊆ gather rule a t := by
  intro y hy
  refine (gather_sheds_kept hrule ha ht).subset (List.mem_append_right _ ?_)
  exact List.mem_flatMap.2 ⟨x, hx, hy⟩

/-- What is left of a statement tells nothing that the statement did not. -/
theorem gather_kept_subset (hrule : Cuttable dead rule Lost) {a : Around} (ha : a.isBranch = false)
    {t : Tree} (ht : t.inShape = true) :
    (kept dead t).toList.flatMap (gather rule a) ⊆ gather rule a t :=
  List.Subset.trans (List.subset_append_left _ _) (gather_sheds_kept hrule ha ht).subset

/-- If a statement tells nothing twice, what the code that goes tells is not told of what is
left. -/
theorem disjoint_kept_of_lost (hrule : Cuttable dead rule Lost) {a : Around}
    (ha : a.isBranch = false) {t x z : Tree} (ht : t.inShape = true)
    (hnodup : (gather rule a t).Nodup) (hz : kept dead t = some z) (hx : x ∈ lost dead t) :
    List.Disjoint (gather rule a z) (gather rule a x) := by
  have hleft := (gather_sheds_kept hrule ha ht).nodup hnodup
  rw [hz, Option.toList_some, List.flatMap_singleton] at hleft
  intro y hy hy'
  exact (List.nodup_append.1 hleft).2.2 y hy y (List.mem_flatMap.2 ⟨x, hx, hy'⟩) rfl

/-- The code that goes stands in a statement of a list, here or further inside. -/
theorem mem_deleted_node {a : Around} {l : Label} {s : Span} {ps : List Tree}
    {x : Around × Tree} :
    x ∈ deleted dead a (.node l s ps) ↔
      ((l = .module .statements ∧ a.searched) ∧ x.1 = { a with isBranch := false } ∧
        ∃ c ∈ ps, x.2 ∈ lost dead c) ∨
      ∃ i c, ps[i]? = some c ∧ x ∈ deleted dead (a.inside l s ps i) c := by
  rw [deleted, mem_gather_node]
  refine or_congr_left ?_
  unfold deletedRule
  split_ifs with hl
  · obtain ⟨rfl, ha⟩ := hl
    obtain ⟨b, y⟩ := x
    simp only [inside_statements, List.mem_map, List.mem_flatMap, Prod.mk.injEq, ha, true_and]
    constructor
    · rintro ⟨z, ⟨c, hc, hz⟩, rfl, rfl⟩
      exact ⟨rfl, c, hc, hz⟩
    · rintro ⟨rfl, c, hc, hy⟩
      exact ⟨y, ⟨c, hc, hy⟩, rfl, rfl⟩
  · simp [hl]

/-- The code that goes stands where it is searched. -/
theorem searched_of_deleted {a : Around} {t : Tree} {x : Around × Tree}
    (hx : x ∈ deleted dead a t) : a.searched = true ∧ x.1.searched = true := by
  refine searched_of_mem_gather (fun a l s ps hx => ?_) hx
  unfold deletedRule at hx
  split_ifs at hx with hl
  · obtain ⟨y, -, rfl⟩ := List.mem_map.1 hx
    simp [Around.inside, hl]
  · simp at hx

/-- Code that goes is in shape. -/
theorem inShape_deleted {a : Around} {t : Tree} (ht : t.inShape = true) {x : Around × Tree}
    (hx : x ∈ deleted dead a t) : x.2.inShape = true := by
  induction t using Tree.induct generalizing a with
  | node l s ps ih =>
      have hparts := (Tree.inShape_node.1 ht).2
      rcases mem_deleted_node.1 hx with ⟨-, -, c, hc, hx2⟩ | ⟨i, c, hc, hx⟩
      · exact inShape_lost (hparts c hc) hx2
      · exact ih c (List.mem_of_getElem? hc) (hparts c (List.mem_of_getElem? hc)) hx

/-- What is told of code that goes is told of the tree. -/
theorem gather_deleted_subset (hrule : Cuttable dead rule Lost) {a : Around} {t : Tree}
    (ht : t.inShape = true) {x : Around × Tree} (hx : x ∈ deleted dead a t) :
    gather rule x.1 x.2 ⊆ gather rule a t := by
  induction t using Tree.induct generalizing a with
  | node l s ps ih =>
      have hparts := (Tree.inShape_node.1 ht).2
      rcases mem_deleted_node.1 hx with ⟨⟨rfl, -⟩, hx1, c, hc, hx2⟩ | ⟨i, c, hc, hx⟩
      · rw [hx1, gather_statements]
        intro y hy
        refine List.mem_append_right _ (List.mem_flatMap.2 ⟨c, hc, ?_⟩)
        exact gather_lost_subset hrule rfl (hparts c hc) hx2 hy
      · have hmem := List.mem_of_getElem? hc
        exact List.Subset.trans (ih c hmem (hparts c hmem) hx) (gather_child_subset hc)

/-- If a tree tells nothing twice, what the code that goes tells is not told of the pruned tree. -/
theorem disjoint_prune_of_deleted (hrule : Cuttable dead rule Lost) {a : Around} {t : Tree}
    (ht : t.inShape = true) (hnodup : (gather rule a t).Nodup) {x : Around × Tree}
    (hx : x ∈ deleted dead a t) :
    List.Disjoint (gather rule a (prune dead t)) (gather rule x.1 x.2) := by
  induction t using Tree.induct generalizing a with
  | node l s ps ih =>
      have hparts := (Tree.inShape_node.1 ht).2
      have ha := (searched_of_deleted hx).1
      by_cases hl : l = .module .statements
      · subst hl
        rw [gather_statements] at hnodup
        obtain ⟨-, hnodupParts, hown⟩ := List.nodup_append.1 hnodup
        have hnodupPart := (List.nodup_flatMap.1 hnodupParts).1
        -- The statement that the code stands in tells what the code tells, and no longer does.
        have hsub : ∃ c ∈ ps, gather rule x.1 x.2 ⊆ gather rule { a with isBranch := false } c ∧
            List.Disjoint ((kept dead (prune dead c)).toList.flatMap
              (gather rule { a with isBranch := false })) (gather rule x.1 x.2) := by
          rcases mem_deleted_node.1 hx with ⟨-, hx1, c, hc, hx2⟩ | ⟨i, c, hc, hx⟩
          · rw [hx1]
            refine ⟨c, hc, gather_lost_subset hrule rfl (hparts c hc) hx2, ?_⟩
            rw [kept_prune dead (hparts c hc)]
            cases hz : kept dead c with
            | none => simp
            | some z =>
                have hdisjoint := disjoint_kept_of_lost hrule (a := { a with isBranch := false })
                  rfl (hparts c hc) (hnodupPart c hc) hz hx2
                rw [Option.map_some, Option.toList_some, List.flatMap_singleton]
                exact List.disjoint_of_subset_left
                  (gather_prune_subset hrule (a := { a with isBranch := false }) ha
                    (inShape_kept (hparts c hc) hz)) hdisjoint
          · rw [inside_statements] at hx
            have hmem := List.mem_of_getElem? hc
            refine ⟨c, hmem, gather_deleted_subset hrule (hparts c hmem) hx, ?_⟩
            exact List.disjoint_of_subset_left
              (gather_kept_subset hrule rfl (inShape_prune (hparts c hmem)))
              (ih c hmem (hparts c hmem) (hnodupPart c hmem) hx)
        obtain ⟨c, hc, hxc, hgone⟩ := hsub
        rw [prune_statements, gather_statements]
        refine List.disjoint_append_left.2 ⟨?_, ?_⟩
        · intro y hy hy'
          refine hown y ((hrule.list a s ps hparts).subset hy) y ?_ rfl
          exact List.mem_flatMap.2 ⟨c, hc, hxc hy'⟩
        · rw [flatMap_filterMap_eq, List.flatMap_map]
          refine disjoint_flatMap ?_ hnodupParts hc hxc hgone
          intro d hd
          exact List.Subset.trans (gather_kept_subset hrule rfl (inShape_prune (hparts d hd)))
            (gather_prune_subset hrule (a := { a with isBranch := false }) ha (hparts d hd))
      · rw [gather_node] at hnodup
        obtain ⟨-, hnodupParts, hown⟩ := List.nodup_append.1 hnodup
        rcases mem_deleted_node.1 hx with ⟨⟨hl', -⟩, -⟩ | ⟨i, c, hc, hx⟩
        · exact absurd hl' hl
        · have hmem := List.mem_of_getElem? hc
          have hzip : (c, i) ∈ ps.zipIdx := List.mem_zipIdx_iff_getElem?.2 hc
          have hxc := gather_deleted_subset hrule (hparts c hmem) hx
          rw [gather_node_prune a hl ht]
          refine List.disjoint_append_left.2 ⟨?_, ?_⟩
          · intro y hy hy'
            exact hown y ((hrule.stable a l s ps hl ht).subset hy) y
              (List.mem_flatMap.2 ⟨_, hzip, hxc hy'⟩) rfl
          · have hsearched : searches l c.label = true := by
              simpa [inside_searched hc, ha] using (searched_of_deleted hx).1
            have hgone := ih c hmem (hparts c hmem)
              ((List.nodup_flatMap.1 hnodupParts).1 _ hzip) hx
            refine disjoint_flatMap ?_ hnodupParts hzip hxc ?_
            · intro y hy
              have hi := List.mem_zipIdx_iff_getElem?.1 hy
              exact gather_prunePart_subset hrule ha hi (hparts y.1 (List.mem_of_getElem? hi))
            · rwa [prunePart, if_pos hsearched]

end Tree

end RouteSplit.Sweep
