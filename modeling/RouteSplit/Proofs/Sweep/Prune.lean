import RouteSplit.Proofs.Scope.Mentions
import RouteSplit.Sweep.Remove

/-!
# Pruned trees

A removal takes inner lists before outer ones. Seen from above it is the same: what is left of a
statement is decided by the statement as it was, and then pruned inside.

- `Tree.inShape`: parts stand where their constructs have them;
- `prune`, `kept`: a tree without some bindings, and what is left of a statement;
- `prune_node`: pruning a node;
- `keepStatement_prune`: the choice of what is left commutes with pruning.
-/

namespace RouteSplit

namespace Tree

/-! ## Shape -/

/-- Whether a construct has a statement list among its parts. -/
def holdsList : Label → Bool
  | .module (.program _ _) | .function .body | .statement .block | .statement .switchCase
  | .classes .staticBlock | .type .moduleBlock => true
  | _ => false

def isDeclarator : Label → Bool
  | .statement (.declarator _) => true
  | _ => false

theorem exists_of_isDeclarator {l : Label} (h : isDeclarator l = true) :
    ∃ b, l = .statement (.declarator b) := by
  unfold isDeclarator at h
  split at h
  · exact ⟨_, rfl⟩
  · simp at h

def isPattern : Label → Bool
  | .pattern _ => true
  | _ => false

/-- Whether a part of an object pattern is one that such patterns have. -/
def isObjectPart : Label → Bool
  | .pattern (.property _) | .pattern .rest => true
  | _ => false

/-- Whether the parts of a node are of a kind that it has: statement lists stand in constructs that
hold one and do not hold patterns, variable declarations consist of declarators, object patterns of
properties and a rest, and identifiers and holes have no parts. -/
def fits (l : Label) (ps : List Tree) : Bool :=
  (holdsList l || ps.all fun c => c.label != .module .statements) &&
    match l with
    | .statement (.variableList _ _) => ps.all fun c => isDeclarator c.label
    | .module .statements => ps.all fun c => !isPattern c.label
    | .pattern .object => ps.all fun c => isObjectPart c.label
    | .expression (.reference _ _) | .expression .hole | .pattern (.binding _) => ps.isEmpty
    | _ => true

mutual

/-- Whether the parts of every node in the tree fit. -/
def inShape : Tree → Bool
  | .node l _ ps => fits l ps && allInShape ps

def allInShape : List Tree → Bool
  | [] => true
  | t :: ts => inShape t && allInShape ts

end

theorem allInShape_iff (ps : List Tree) : allInShape ps = true ↔ ∀ c ∈ ps, c.inShape = true := by
  induction ps with
  | nil => simp [allInShape]
  | cons t ts ih => simp [allInShape, ih]

/-- A node is in shape if its parts fit its label and are in shape themselves. -/
theorem inShape_node {l : Label} {s : Span} {ps : List Tree} :
    (node l s ps).inShape = true ↔ fits l ps = true ∧ ∀ c ∈ ps, c.inShape = true := by
  rw [inShape, Bool.and_eq_true, allInShape_iff]

theorem fits_part {l : Label} {ps : List Tree} (h : fits l ps = true) (hl : holdsList l = false)
    {c : Tree} (hc : c ∈ ps) : c.label ≠ .module .statements := by
  simp only [fits, hl, Bool.false_or, Bool.and_eq_true, List.all_eq_true] at h
  simpa using h.1 c hc

/-- Parts fit if each has the label of a part that fits. -/
theorem fits_of_labels {l : Label} {ps qs : List Tree} (h : fits l ps = true)
    (hlabels : ∀ c ∈ qs, ∃ d ∈ ps, c.label = d.label) : fits l qs = true := by
  have hall : ∀ P : Label → Bool, (ps.all fun c => P c.label) = true →
      (qs.all fun c => P c.label) = true := by
    intro P hP
    refine List.all_eq_true.2 fun c hc => ?_
    obtain ⟨d, hd, hcd⟩ := hlabels c hc
    rw [hcd]
    exact List.all_eq_true.1 hP d hd
  simp only [fits, Bool.and_eq_true, Bool.or_eq_true] at h ⊢
  refine ⟨h.1.imp_right (hall (· != .module .statements)), ?_⟩
  have hrest := h.2
  have hempty : ps.isEmpty = true → qs.isEmpty = true := by
    intro hps
    refine List.isEmpty_iff.2 (List.eq_nil_iff_forall_not_mem.2 fun c hc => ?_)
    obtain ⟨d, hd, -⟩ := hlabels c hc
    rw [List.isEmpty_iff.1 hps] at hd
    simp at hd
  split at hrest
  · exact hall isDeclarator hrest
  · exact hall (!isPattern ·) hrest
  · exact hall isObjectPart hrest
  · exact hempty hrest
  · exact hempty hrest
  · exact hempty hrest
  · rfl

/-- The parts of a node that holds no list are in shape and are no lists. -/
theorem inShape_part {l : Label} {s : Span} {ps : List Tree} (h : (node l s ps).inShape = true)
    (hl : holdsList l = false) {c : Tree} (hc : c ∈ ps) :
    c.inShape = true ∧ c.label ≠ .module .statements :=
  ⟨(inShape_node.1 h).2 c hc, fits_part (inShape_node.1 h).1 hl hc⟩

/-- The items of a declaration in shape are declarators. -/
theorem isDeclarator_of_inShape {k : VariableKind} {b : Bool} {s : Span} {ds : List Tree}
    (ht : (node (.statement (.variableList k b)) s ds).inShape = true) {d : Tree}
    (hd : d ∈ ds) : isDeclarator d.label = true := by
  have hfits := (inShape_node.1 ht).1
  simp only [fits, Bool.and_eq_true, List.all_eq_true] at hfits
  exact hfits.2 d hd

theorem inShape_child {t : Tree} (h : t.inShape = true) (i : Nat) : (t.child i).inShape = true := by
  obtain ⟨l, s, ps⟩ := t
  cases hi : ps[i]? with
  | none =>
      rw [child, children_node, hi]
      rfl
  | some c =>
      rw [child, children_node, hi]
      exact (inShape_node.1 h).2 c (List.mem_of_getElem? hi)

end Tree

namespace Sweep

variable (dead : List Binding)

/-! ## Pruning -/

/-- A tree without the bindings `dead`. -/
def prune (t : Tree) : Tree := (removeIn dead t).1

/-- What is left of a statement, if anything. -/
def kept (t : Tree) : Option Tree := (keepStatement dead t).1

/-- What a removal leaves of a part of a node. -/
def prunePart (whole : Label) (t : Tree) : Tree :=
  if Scope.searches whole t.label then prune dead t else t

/-- Nodes that a removal leaves as they are, and all of whose parts it looks into. -/
def IsPlain (l : Label) : Prop :=
  l ≠ .module .statements ∧ ∀ part, Scope.searches l part = true

@[simp] theorem isPlain_iff {l : Label} :
    IsPlain l ↔ l ≠ .module .statements ∧ ∀ part, Scope.searches l part = true := Iff.rfl

theorem isPlain_of_isDeclarator {l : Label} (h : Tree.isDeclarator l = true) : IsPlain l := by
  obtain ⟨b, rfl⟩ := Tree.exists_of_isDeclarator h
  simp

/-- A part is pruned or left as it is. -/
theorem prunePart_eq_or (l : Label) (t : Tree) :
    prunePart dead l t = prune dead t ∨ prunePart dead l t = t := by
  unfold prunePart
  split_ifs
  · exact Or.inl rfl
  · exact Or.inr rfl

/-- What pruning does not change of a tree it does not change of a part, searched or not. -/
theorem apply_prunePart {β : Type} {f : Tree → β} {t : Tree} (h : f (prune dead t) = f t)
    (l : Label) : f (prunePart dead l t) = f t := by
  rcases prunePart_eq_or dead l t with heq | heq <;> rw [heq]
  exact h

theorem prunePart_of_searches {l : Label} (hl : ∀ part, Scope.searches l part = true) :
    prunePart dead l = prune dead :=
  funext fun t => if_pos (hl t.label)

/-- A removal works on the parts of a node one by one. -/
theorem removeAll_eq_map (l : Label) (ps : List Tree) :
    (removeAll dead (Scope.searches l) ps).1 = ps.map (prunePart dead l) := by
  induction ps with
  | nil => rfl
  | cons t ts ih =>
      rw [removeAll, List.map_cons, ← ih, prunePart]
      split_ifs <;> rfl

/-- A list is pruned inside first, and then loses statements. -/
theorem prune_statements (s : Span) (ps : List Tree) :
    prune dead (.node (.module .statements) s ps) =
      .node (.module .statements) s ((ps.map (prune dead)).filterMap (kept dead)) := by
  rw [← prunePart_of_searches dead (l := .module .statements) (by simp), ← removeAll_eq_map]
  rfl

/-- A node that is no list is pruned part by part. -/
theorem prune_node {l : Label} (hl : l ≠ .module .statements) (s : Span) (ps : List Tree) :
    prune dead (.node l s ps) = .node l s (ps.map (prunePart dead l)) := by
  have hbeq : (l == .module .statements) = false := by simpa using hl
  rw [prune, removeIn, ← removeAll_eq_map]
  simp [hbeq]

/-- All parts of a plain node are pruned. -/
theorem prune_of_plain {l : Label} (hl : IsPlain l) (s : Span) (ps : List Tree) :
    prune dead (.node l s ps) = .node l s (ps.map (prune dead)) := by
  rw [prune_node dead hl.1, prunePart_of_searches dead hl.2]

@[simp] theorem prune_label (t : Tree) : (prune dead t).label = t.label := by
  obtain ⟨l, s, ps⟩ := t
  by_cases hl : l = .module .statements
  · subst hl
    rw [prune_statements]
    rfl
  · rw [prune_node dead hl]
    rfl

@[simp] theorem prune_span (t : Tree) : (prune dead t).span = t.span := by
  obtain ⟨l, s, ps⟩ := t
  by_cases hl : l = .module .statements
  · subst hl
    rw [prune_statements]
    rfl
  · rw [prune_node dead hl]
    rfl

@[simp] theorem prunePart_label (l : Label) (t : Tree) : (prunePart dead l t).label = t.label :=
  apply_prunePart dead (prune_label dead t) l

@[simp] theorem prunePart_span (l : Label) (t : Tree) : (prunePart dead l t).span = t.span :=
  apply_prunePart dead (prune_span dead t) l

/-- Removals that leave the same of each part leave the same of all. -/
theorem map_prunePart_congr {dead dead' : List Binding} {l : Label} {ps : List Tree}
    (h : ∀ c ∈ ps, prune dead c = prune dead' c) :
    ps.map (prunePart dead l) = ps.map (prunePart dead' l) := by
  refine List.map_congr_left fun c hc => ?_
  rw [prunePart, prunePart, h c hc]

/-- Only a node of the same label and place can be pruned to a node. -/
theorem eq_node_of_prune {t : Tree} {l : Label} {s : Span} {qs : List Tree}
    (h : prune dead t = .node l s qs) (hl : IsPlain l) :
    ∃ ps, t = .node l s ps ∧ ps.map (prune dead) = qs := by
  obtain ⟨l', s', ps⟩ := t
  have hlabel : l' = l := by simpa using congrArg Tree.label h
  subst hlabel
  rw [prune_of_plain dead hl] at h
  obtain ⟨-, rfl, rfl⟩ := Tree.node.inj h
  exact ⟨ps, rfl, rfl⟩

/-- What has a first part when it is pruned had one before. -/
theorem eq_cons_of_prune {t q : Tree} {l : Label} {s : Span} {qs : List Tree}
    (h : prune dead t = .node l s (q :: qs)) (hl : IsPlain l) :
    ∃ p ps, t = .node l s (p :: ps) ∧ prune dead p = q ∧ ps.map (prune dead) = qs := by
  obtain ⟨ps, rfl, hps⟩ := eq_node_of_prune dead h hl
  obtain ⟨p, ps, rfl, hp, hps⟩ := List.map_eq_cons_iff.1 hps
  exact ⟨p, ps, rfl, hp, hps⟩

theorem eq_singleton_of_prune {t q : Tree} {l : Label} {s : Span}
    (h : prune dead t = .node l s [q]) (hl : IsPlain l) :
    ∃ p, t = .node l s [p] ∧ prune dead p = q := by
  obtain ⟨p, ps, rfl, hp, hps⟩ := eq_cons_of_prune dead h hl
  obtain rfl := List.map_eq_nil_iff.1 hps
  exact ⟨p, rfl, hp⟩

theorem eq_cons_cons_of_prune {t q q' : Tree} {l : Label} {s : Span} {qs : List Tree}
    (h : prune dead t = .node l s (q :: q' :: qs)) (hl : IsPlain l) :
    ∃ p p' ps, t = .node l s (p :: p' :: ps) ∧ prune dead p = q ∧ prune dead p' = q' ∧
      ps.map (prune dead) = qs := by
  obtain ⟨p, ps, rfl, hp, hps⟩ := eq_cons_of_prune dead h hl
  obtain ⟨p', ps', rfl, hp', hps'⟩ := List.map_eq_cons_iff.1 hps
  exact ⟨p, p', ps', rfl, hp, hp', hps'⟩

/-- What has two parts when it is pruned had two before. -/
theorem eq_pair_of_prune {t q q' : Tree} {l : Label} {s : Span}
    (h : prune dead t = .node l s [q, q']) (hl : IsPlain l) :
    ∃ p p', t = .node l s [p, p'] ∧ prune dead p = q ∧ prune dead p' = q' := by
  obtain ⟨p, p', ps, rfl, hp, hp', hps⟩ := eq_cons_cons_of_prune dead h hl
  obtain rfl := List.map_eq_nil_iff.1 hps
  exact ⟨p, p', rfl, hp, hp'⟩

section OtherForm

/-! Where a function reads some forms of nodes and all other trees alike, a tree of another form is
of another form when it is pruned. -/

variable {t : Tree} {l : Label} (hl : IsPlain l)
include hl

/-- A removal gives no tree another label. -/
theorem prune_ne_node (h : ∀ s ps, t ≠ .node l s ps) (s : Span) (qs : List Tree) :
    prune dead t ≠ .node l s qs := by
  intro heq
  obtain ⟨ps, rfl, -⟩ := eq_node_of_prune dead heq hl
  exact h s ps rfl

theorem prune_ne_cons (h : ∀ s p ps, t ≠ .node l s (p :: ps)) (s : Span) (q : Tree)
    (qs : List Tree) : prune dead t ≠ .node l s (q :: qs) := by
  intro heq
  obtain ⟨p, ps, rfl, -, -⟩ := eq_cons_of_prune dead heq hl
  exact h s p ps rfl

theorem prune_ne_singleton (h : ∀ s p, t ≠ .node l s [p]) (s : Span) (q : Tree) :
    prune dead t ≠ .node l s [q] := by
  intro heq
  obtain ⟨p, rfl, -⟩ := eq_singleton_of_prune dead heq hl
  exact h s p rfl

theorem prune_ne_cons_cons (h : ∀ s p p' ps, t ≠ .node l s (p :: p' :: ps)) (s : Span)
    (q q' : Tree) (qs : List Tree) : prune dead t ≠ .node l s (q :: q' :: qs) := by
  intro heq
  obtain ⟨p, p', ps, rfl, -, -, -⟩ := eq_cons_cons_of_prune dead heq hl
  exact h s p p' ps rfl

theorem prune_ne_pair (h : ∀ s p p', t ≠ .node l s [p, p']) (s : Span) (q q' : Tree) :
    prune dead t ≠ .node l s [q, q'] := by
  intro heq
  obtain ⟨p, p', rfl, -, -⟩ := eq_pair_of_prune dead heq hl
  exact h s p p' rfl

end OtherForm

theorem prune_children {t : Tree} (ht : t.label ≠ .module .statements) :
    (prune dead t).children = t.children.map (prunePart dead t.label) := by
  obtain ⟨l, s, ps⟩ := t
  have hl : l ≠ .module .statements := ht
  rw [prune_node dead hl]
  rfl

/-- A test of the labels of a node's parts comes out alike behind a removal. -/
theorem any_label_prune {t : Tree} (ht : t.label ≠ .module .statements) (P : Label → Bool) :
    ((prune dead t).children.any fun c => P c.label) = t.children.any fun c => P c.label := by
  rw [prune_children dead ht, List.any_map]
  simp only [Function.comp_def, prunePart_label]

@[simp] theorem prune_absent : prune dead .absent = .absent := rfl

@[simp] theorem isAbsent_prune (t : Tree) : (prune dead t).isAbsent = t.isAbsent := by
  simp [Tree.isAbsent]

/-- A part of a pruned node is the part, pruned if it is searched. -/
theorem child_prune {t : Tree} (ht : t.label ≠ .module .statements) (i : Nat) :
    (prune dead t).child i = prunePart dead t.label (t.child i) := by
  unfold Tree.child
  rw [prune_children dead ht, List.getElem?_map]
  cases t.children[i]? with
  | none => exact (apply_prunePart dead (f := id) (prune_absent dead) t.label).symm
  | some c => rfl

theorem child_prune_of_plain {t : Tree} (ht : IsPlain t.label) (i : Nat) :
    (prune dead t).child i = prune dead (t.child i) := by
  rw [child_prune dead ht.1, prunePart_of_searches dead ht.2]

/-! ## Names and shapes are untouched -/

theorem eq_of_nameOf {t : Tree} {x : String × Span} (h : Binding.nameOf t = some x) :
    ∃ ps, t = .node (.pattern (.binding x.1)) x.2 ps := by
  fun_cases Binding.nameOf t with
  | case1 name span parts =>
      obtain rfl := Option.some.inj h
      exact ⟨parts, rfl⟩
  | case2 t hname =>
      rw [Binding.nameOf] at h
      · simp at h
      · exact hname

/-- A removal leaves names as they are. -/
theorem nameOf_prune (t : Tree) : Binding.nameOf (prune dead t) = Binding.nameOf t := by
  obtain ⟨l, s, ps⟩ := t
  by_cases hl : l = .module .statements
  · subst hl
    rw [prune]
    rfl
  · rw [prune_node dead hl]
    unfold Binding.nameOf
    split <;> split <;> simp_all

/-- A removal leaves the name of an element. -/
theorem elementTarget_prune (t : Tree) :
    Binding.elementTarget (prune dead t) = Binding.elementTarget t := by
  fun_cases Binding.elementTarget t with
  | case1 name span parts => rfl
  | case2 span c cs target hname =>
      rw [prune_of_plain dead (by simp), List.map_cons, Binding.elementTarget, nameOf_prune, hname]
  | case3 span c cs hname =>
      rw [prune_of_plain dead (by simp), List.map_cons, Binding.elementTarget, nameOf_prune, hname]
  | case4 span parts => rfl
  | case5 t hbinding hdefault hobject =>
      rw [Binding.elementTarget, prune_span]
      · exact fun _ => prune_ne_node dead (by simp) (hbinding _)
      · exact prune_ne_cons dead (by simp) hdefault
      · exact prune_ne_node dead (by simp) hobject

theorem isRest_prune (t : Tree) : Binding.isRest (prune dead t) = Binding.isRest t := by
  simp [Binding.isRest]

theorem isHole_prune (t : Tree) : Binding.isHole (prune dead t) = Binding.isHole t := by
  simp [Binding.isHole]

theorem restTarget_prune {t : Tree} (ht : t.label ≠ .module .statements) :
    Binding.restTarget (prune dead t) = Binding.restTarget t := by
  unfold Binding.restTarget
  rw [child_prune dead ht, apply_prunePart dead (nameOf_prune dead _), prune_span]

/-- A removal leaves the name of a part of an object pattern. -/
theorem objectPartTarget_prune {t : Tree} (ht : t.label ≠ .module .statements) :
    Binding.objectPartTarget (prune dead t) = Binding.objectPartTarget t := by
  unfold Binding.objectPartTarget
  rw [isRest_prune, restTarget_prune dead ht, child_prune dead ht,
    apply_prunePart dead (elementTarget_prune dead _)]

/-- A removal leaves the name of a place of an array pattern. -/
theorem arrayPartTarget_prune {t : Tree} (ht : t.label ≠ .module .statements) :
    Binding.arrayPartTarget (prune dead t) = Binding.arrayPartTarget t := by
  unfold Binding.arrayPartTarget
  rw [isRest_prune, restTarget_prune dead ht, elementTarget_prune]

/-- A removal works below wrappers as it does without them. -/
theorem peel_prune (t : Tree) : (prune dead t).peel = prune dead t.peel := by
  fun_induction Tree.peel t with
  | case1 s e ih => rw [prune_of_plain dead (by simp)]; exact ih
  | case2 s e type ih => rw [prune_of_plain dead (by simp)]; exact ih
  | case3 s e type ih => rw [prune_of_plain dead (by simp)]; exact ih
  | case4 s e ih => rw [prune_of_plain dead (by simp)]; exact ih
  | case5 s type e ih => rw [prune_of_plain dead (by simp)]; exact ih
  | case6 t hparen has hsatisfies hnonNull hassertion =>
      -- Nothing to peel: the pruned tree has the same label and as many parts.
      rw [Tree.peel]
      · exact prune_ne_singleton dead (by simp) hparen
      · exact prune_ne_pair dead (by simp) has
      · exact prune_ne_pair dead (by simp) hsatisfies
      · exact prune_ne_singleton dead (by simp) hnonNull
      · exact prune_ne_pair dead (by simp) hassertion

theorem isFunctionLike_prune (t : Tree) : (prune dead t).isFunctionLike = t.isFunctionLike := by
  unfold Tree.isFunctionLike
  rw [peel_prune, prune_label]

/-- A removal leaves the name that a statement assigns a function to. -/
theorem assignedFunction?_prune (t : Tree) :
    Binding.assignedFunction? (prune dead t) = Binding.assignedFunction? t := by
  have hassign : ∀ (span site : Span) (name : String) (u : Usage) (ps : List Tree) (value : Tree),
      Binding.assignedFunction? (prune dead (.node (.expression (.assign "=")) span
        [.node (.expression (.reference name u)) site ps, value])) =
      Binding.assignedFunction? (.node (.expression (.assign "=")) span
        [.node (.expression (.reference name u)) site ps, value]) := by
    intro span site name u ps value
    rw [prune_of_plain dead (by simp), List.map_cons, prune_of_plain dead (by simp)]
    simp only [List.map_cons, List.map_nil, Binding.assignedFunction?, isFunctionLike_prune]
  fun_cases Binding.assignedFunction? t with
  | case1 span name u site ps value h => rw [hassign, Binding.assignedFunction?, if_pos h]
  | case2 span name u site ps value h => rw [hassign, Binding.assignedFunction?, if_neg h]
  | case3 t hne =>
      rw [Binding.assignedFunction?]
      intro span name u site ps value heq
      obtain ⟨c, c', rfl, hc, -⟩ := eq_pair_of_prune dead heq (by simp)
      obtain ⟨rs, rfl, -⟩ := eq_node_of_prune dead hc (by simp)
      exact hne _ _ _ _ _ _ rfl

/-! ## What is left is decided above -/

theorem holeAt_prune (t : Tree) : holeAt (prune dead t) = holeAt t := by
  rw [holeAt, holeAt, prune_span]

/-- Holes can be trimmed before or after a removal inside the places. -/
theorem trimHoles_map_prune (ps : List Tree) :
    trimHoles (ps.map (prune dead)) = (trimHoles ps).map (prune dead) := by
  unfold trimHoles
  rw [← List.map_reverse, List.dropWhile_map, List.map_reverse]
  congr 4
  funext t
  exact isHole_prune dead t

-- What is left is asked about other names than those that are pruned.
variable {gone : List Binding}

/-- Which parts of an object pattern stay can be decided before they are pruned. -/
theorem keepObjectParts_map_prune {ps : List Tree}
    (hps : ∀ c ∈ ps, c.label ≠ .module .statements) :
    keepObjectParts gone (ps.map (prune dead)) = (keepObjectParts gone ps).map (prune dead) := by
  unfold keepObjectParts
  rw [List.filter_map]
  congr 1
  apply List.filter_congr
  intro c hc
  simp only [Function.comp_apply, objectPartTarget_prune dead (hps c hc)]

theorem objectRecord_map_prune {ps : List Tree}
    (hps : ∀ c ∈ ps, c.label ≠ .module .statements) :
    objectRecord gone (ps.map (prune dead)) = objectRecord gone ps := by
  unfold objectRecord
  rw [List.flatMap_map]
  apply List.flatMap_congr
  intro c hc
  rw [objectPartTarget_prune dead (hps c hc)]

/-- Which places of an array pattern stay can be decided before they are pruned. -/
theorem keepArrayParts_map_prune {ps : List Tree}
    (hps : ∀ c ∈ ps, c.label ≠ .module .statements) :
    keepArrayParts gone (ps.map (prune dead)) = (keepArrayParts gone ps).map (prune dead) := by
  unfold keepArrayParts
  rw [List.filterMap_map, List.map_filterMap]
  apply List.filterMap_congr
  intro c hc
  simp only [Function.comp_apply, isHole_prune, isRest_prune, holeAt_prune,
    arrayPartTarget_prune dead (hps c hc)]
  split_ifs <;> rfl

theorem arrayRecord_map_prune {ps : List Tree}
    (hps : ∀ c ∈ ps, c.label ≠ .module .statements) :
    arrayRecord gone (ps.map (prune dead)) = arrayRecord gone ps := by
  unfold arrayRecord
  rw [List.filter_map, List.flatMap_map]
  have hholes : (fun t => !Binding.isHole t) ∘ prune dead = fun t => !Binding.isHole t := by
    funext t
    simp only [Function.comp_apply, isHole_prune]
  rw [hholes]
  apply List.flatMap_congr
  intro c hc
  rw [arrayPartTarget_prune dead (hps c (List.mem_of_mem_filter hc))]

/-- What is left of a construct, pruned inside. -/
def pruneLeft (x : Left Tree) : Left Tree := (x.1.map (prune dead), x.2)

/-- What is left of a target can be decided before it is pruned. -/
theorem keepTarget_prune {t : Tree} (ht : t.inShape = true) :
    keepTarget gone (prune dead t) = pruneLeft dead (keepTarget gone t) := by
  fun_cases keepTarget gone t with
  | case1 name span parts h =>
      rw [prune_of_plain dead (by simp), keepTarget, if_pos h]
      rfl
  | case2 name span parts h =>
      rw [prune_of_plain dead (by simp), keepTarget, if_neg h]
      simp [pruneLeft, prune_of_plain]
  | case3 span parts lost kept =>
      have hparts := fun c hc => (Tree.inShape_part ht rfl (c := c) hc).2
      rw [prune_of_plain dead (by simp), keepTarget, objectRecord_map_prune dead hparts,
        keepObjectParts_map_prune dead hparts]
      simp only [pruneLeft, List.isEmpty_map, apply_ite (Option.map (prune dead)),
        Option.map_none, Option.map_some]
      rw [prune_of_plain dead (by simp)]
  | case4 span parts lost h =>
      have hparts := fun c hc => (Tree.inShape_part ht rfl (c := c) hc).2
      rw [prune_of_plain dead (by simp), keepTarget, arrayRecord_map_prune dead hparts, if_pos h]
      simp [pruneLeft, prune_of_plain]
  | case5 span parts lost h kept =>
      have hparts := fun c hc => (Tree.inShape_part ht rfl (c := c) hc).2
      rw [prune_of_plain dead (by simp), keepTarget, arrayRecord_map_prune dead hparts, if_neg h,
        keepArrayParts_map_prune dead hparts, trimHoles_map_prune]
      simp only [pruneLeft, List.isEmpty_map, apply_ite (Option.map (prune dead)),
        Option.map_none, Option.map_some]
      rw [prune_of_plain dead (by simp)]
  | case6 t hbinding hobject harray =>
      -- No target: pruning keeps labels, so it makes none.
      rw [keepTarget]
      · rfl
      · exact fun _ => prune_ne_node dead (by simp) (hbinding _)
      · exact prune_ne_node dead (by simp) hobject
      · exact prune_ne_node dead (by simp) harray

/-- What is left of a declarator can be decided before it is pruned. -/
theorem keepDeclarator_prune {t : Tree} (ht : t.inShape = true) (hl : IsPlain t.label) :
    keepDeclarator gone (prune dead t) = pruneLeft dead (keepDeclarator gone t) := by
  obtain ⟨l, s, ps⟩ := t
  have hl' : IsPlain l := hl
  rw [prune_of_plain dead hl']
  cases ps with
  | nil => simp [keepDeclarator, pruneLeft, prune_of_plain dead hl']
  | cons target rest =>
      have htarget := (Tree.inShape_node.1 ht).2 target List.mem_cons_self
      rw [List.map_cons, keepDeclarator, keepDeclarator, keepTarget_prune dead htarget]
      simp only [pruneLeft, Option.map_map]
      congr 2
      funext u
      simp [prune_of_plain dead hl']

/-- Whether a construct goes with its name can be decided before it is pruned. -/
theorem keepUnless_prune (target : Option (String × Span)) (t : Tree) :
    keepUnless gone target (prune dead t) = pruneLeft dead (keepUnless gone target t) := by
  simp only [keepUnless, pruneLeft]
  split_ifs <;> rfl

theorem keepAll_map_prune {keep : Tree → Left Tree} {items : List Tree}
    (hkeep : ∀ c ∈ items, keep (prune dead c) = pruneLeft dead (keep c)) :
    keepAll keep (items.map (prune dead)) =
      ((keepAll keep items).1.map (prune dead), (keepAll keep items).2) := by
  unfold keepAll
  rw [List.filterMap_map, List.flatMap_map, List.map_filterMap]
  congr 1
  · apply List.filterMap_congr
    intro c hc
    simp only [Function.comp_apply, hkeep c hc, pruneLeft]
  · apply List.flatMap_congr
    intro c hc
    simp only [hkeep c hc, pruneLeft]

/-- Which items of a construct stay can be decided before they are pruned. -/
theorem keepItems_map_prune {keep : Tree → Left Tree} {items : List Tree}
    {rebuild rebuild' : List Tree → Tree}
    (hkeep : ∀ c ∈ items, keep (prune dead c) = pruneLeft dead (keep c))
    (hrebuild : ∀ ps, prune dead (rebuild ps) = rebuild' (ps.map (prune dead))) :
    keepItems keep (items.map (prune dead)) rebuild' =
      pruneLeft dead (keepItems keep items rebuild) := by
  rw [keepItems, keepItems, keepAll_map_prune dead hkeep]
  obtain ⟨left, lost⟩ := keepAll keep items
  simp only [pruneLeft, List.isEmpty_map]
  cases left.isEmpty <;> cases lost.isEmpty <;> simp [hrebuild]

theorem keepSpecifier_prune {t : Tree} (hl : t.label ≠ .module .statements) :
    keepSpecifier gone (prune dead t) = pruneLeft dead (keepSpecifier gone t) := by
  rw [keepSpecifier, child_prune dead hl, apply_prunePart dead (nameOf_prune dead _),
    keepUnless_prune]
  rfl

/-- A statement that has no names to lose. -/
structure Inert (t : Tree) : Prop where
  notFunction : ∀ traits s name generics parameters result body,
    t ≠ .node (.function (.function .declaration false traits)) s
      [name, generics, parameters, result, body]
  notVariables : ∀ kind declared s ds, t ≠ .node (.statement (.variableList kind declared)) s ds
  notExpression : ∀ s e, t ≠ .node (.statement .expression) s [e]
  notImport : ∀ typeOnly phase s cs ss rest, t ≠ .node (.module (.importDeclaration typeOnly phase)) s
    (.node (.module .importClause) cs ss :: rest)

/-- A statement that has no names to lose stays as it is. -/
theorem Inert.keepStatement {t : Tree} (h : Inert t) : keepStatement dead t = (some t, []) := by
  rw [Sweep.keepStatement]
  · exact h.notFunction
  · exact h.notVariables
  · exact h.notExpression
  · exact h.notImport

/-- A statement that has no names to lose has none behind a removal inside it. -/
theorem Inert.prune {t : Tree} (h : Inert t) : Inert (prune dead t) where
  notFunction traits s name generics parameters result body heq := by
    obtain ⟨ps, rfl, hps⟩ := eq_node_of_prune dead heq (by simp)
    match ps, hps with
    | [_, _, _, _, _], _ => exact h.notFunction _ _ _ _ _ _ _ rfl
  notVariables kind declared := prune_ne_node dead (by simp) (h.notVariables kind declared)
  notExpression := prune_ne_singleton dead (by simp) h.notExpression
  notImport typeOnly phase s cs ss rest heq := by
    obtain ⟨c, cs, rfl, hc, -⟩ := eq_cons_of_prune dead heq (by simp)
    obtain ⟨qs, rfl, -⟩ := eq_node_of_prune dead hc (by simp)
    exact h.notImport _ _ _ _ _ _ rfl

theorem prune_import (typeOnly : Bool) (phase : Option String) (span clauseSpan : Span)
    (specifiers rest : List Tree) :
    prune dead (.node (.module (.importDeclaration typeOnly phase)) span
      (.node (.module .importClause) clauseSpan specifiers :: rest)) =
    .node (.module (.importDeclaration typeOnly phase)) span
      (.node (.module .importClause) clauseSpan (specifiers.map (prune dead)) ::
        rest.map (prune dead)) := by
  rw [prune_of_plain dead (by simp), List.map_cons, prune_of_plain dead (by simp)]

/-- What is left of a statement can be decided before it is pruned. -/
theorem keepStatement_prune {t : Tree} (ht : t.inShape = true) :
    keepStatement gone (prune dead t) = pruneLeft dead (keepStatement gone t) := by
  fun_cases keepStatement gone t with
  | case1 traits span name generics parameters result body target =>
      rw [← keepUnless_prune, prune_of_plain dead (by simp)]
      simp only [List.map_cons, List.map_nil, keepStatement, isAbsent_prune, nameOf_prune]
      rfl
  | case2 kind declared span declarators =>
      rw [prune_of_plain dead (by simp), keepStatement]
      refine keepItems_map_prune dead ?_ fun ps => prune_of_plain dead (by simp) _ _
      intro c hc
      exact keepDeclarator_prune dead (Tree.inShape_part ht rfl hc).1
        (isPlain_of_isDeclarator (Tree.isDeclarator_of_inShape ht hc))
  | case3 span e target =>
      rw [← keepUnless_prune, prune_of_plain dead (by simp)]
      simp only [List.map_cons, List.map_nil, keepStatement, assignedFunction?_prune]
      rfl
  | case4 typeOnly phase span clauseSpan specifiers rest =>
      have hclause := (Tree.inShape_part ht rfl List.mem_cons_self).1
      have hparts := fun c hc => (Tree.inShape_part hclause rfl (c := c) hc).2
      rw [prune_import, keepStatement]
      refine keepItems_map_prune dead (fun c hc => keepSpecifier_prune dead (hparts c hc)) ?_
      exact fun ps => prune_import dead typeOnly phase span clauseSpan ps rest
  | case5 t hfunction hvariables hexpression himport =>
      have hinert : Inert t := ⟨hfunction, hvariables, hexpression, himport⟩
      rw [(hinert.prune dead).keepStatement]
      rfl

end Sweep

end RouteSplit
