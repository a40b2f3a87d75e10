import RouteSplit.Proofs.Binding.Candidates
import RouteSplit.Proofs.Scope.Wrapping
import RouteSplit.Proofs.Sweep.Liveness

/-!
# Bindings and wrapped values

Collecting looks through wrappers, and the types that they name take no part in it as long as they
hold no code of their own.

- `peel_ne_around`: peeling leaves no wrapper;
- `ofStatement_of_wraps`, `collectIn_of_wraps`: a wrapper changes nothing about what is collected
  with a given table;
- `Sealed`: a type without statement lists whose names are known inside it only;
- `find_of_wraps`: the wrapper's types change nothing about what a table finds;
- `collect_of_wrapped`: wrapped values leave all bindings as they are;
- `unsealed_types_collected`: what other types do.
-/

namespace RouteSplit

open RouteSplit.Tree

/-- What is left of a peeled expression is no wrapper. -/
theorem Tree.peel_ne_around (e : Tree) (w : Wrapper) (x : Tree) : e.peel ≠ w.around x := by
  fun_induction peel e with
  | case1 s e ih => exact ih
  | case2 s e type ih => exact ih
  | case3 s e type ih => exact ih
  | case4 s e ih => exact ih
  | case5 s type e ih => exact ih
  | case6 t hparen hasType hsatisfies hnonNull hassertion =>
      intro heq
      cases w with
      | paren s => exact hparen s x heq
      | asType s type => exact hasType s x type heq
      | satisfiesType s type => exact hsatisfies s x type heq
      | nonNull s => exact hnonNull s x heq
      | typeAssertion s type => exact hassertion s type x heq

namespace Binding

open Scope Sweep

variable {w : Wrapper} {t u : Tree}

/-! ## Targets -/

theorem nameOf_eq (t : Tree) : nameOf t =
    match t.label with
    | .pattern (.binding name) => some (name, t.span)
    | _ => none := by
  obtain ⟨l, s, ps⟩ := t
  cases l with
  | pattern form => cases form <;> rfl
  | _ => rfl

/-- Trees that are alike from above are the same name, or neither is a name. -/
theorem nameOf_alike (h : Alike t u) : nameOf u = nameOf t := by
  rw [nameOf_eq, nameOf_eq, h.label, h.span]

theorem nameOf_first_alike (h : Alike t u) : nameOf (u.child 0) = nameOf (t.child 0) := by
  rw [nameOf_eq, nameOf_eq, h.firstLabel, h.firstSpan]

/-- An element binds the same name if a value inside it is wrapped. -/
theorem elementTarget_alike (h : Alike t u) : elementTarget u = elementTarget t := by
  obtain ⟨l, s, ps⟩ := t
  obtain ⟨l', s', qs⟩ := u
  obtain rfl : l' = l := h.label
  obtain rfl : s' = s := h.span
  cases l' with
  | pattern form =>
      cases form with
      | withDefault =>
          have hlength : qs.length = ps.length := h.arity
          match ps, qs with
          | [], [] => rfl
          | x :: xs, y :: ys =>
              have hname : nameOf y = nameOf x := nameOf_first_alike h
              rw [elementTarget, hname, elementTarget]
          | [], _ :: _ | _ :: _, [] => simp at hlength
      | _ => rfl
  | _ => rfl

theorem restTarget_alike (h : Alike t u) : restTarget u = restTarget t := by
  rw [restTarget, nameOf_first_alike h, h.span, restTarget]

theorem isRest_alike (h : Alike t u) : isRest u = isRest t := by
  rw [isRest, h.label, isRest]

theorem arrayPartTarget_alike (h : Alike t u) : arrayPartTarget u = arrayPartTarget t := by
  rw [arrayPartTarget, isRest_alike h, restTarget_alike h, elementTarget_alike h, arrayPartTarget]

/-- A property binds the same name if a value inside its target is wrapped. -/
theorem objectPartTarget_alike (h : Alike t u) (hparts : List.Forall₂ Alike t.children u.children) :
    objectPartTarget u = objectPartTarget t := by
  have hchild : Alike (t.child 1) (u.child 1) := by
    obtain ⟨l, s, ps⟩ := t
    obtain ⟨l', s', qs⟩ := u
    exact child_alike hparts 1
  rw [objectPartTarget, isRest_alike h, restTarget_alike h, elementTarget_alike hchild,
    objectPartTarget]

/-- An object pattern binds the same names if a value inside it is wrapped. -/
theorem mapM_objectPartTarget_alike {i : Nat} {ps qs : List Tree}
    (h : Parts (.pattern .object) i ps qs) :
    qs.mapM objectPartTarget = ps.mapM objectPartTarget := by
  induction h with
  | nil => rfl
  | cons hc hlisted _ ih =>
      rw [List.mapM_cons, List.mapM_cons, objectPartTarget_alike hc (hlisted rfl), ih]

/-- An array pattern binds the same names if a value inside it is wrapped. -/
theorem mapM_arrayPartTarget_alike {ps qs : List Tree} (h : List.Forall₂ Alike ps qs) :
    (qs.filter fun t => !isHole t).mapM arrayPartTarget =
      (ps.filter fun t => !isHole t).mapM arrayPartTarget := by
  induction h with
  | nil => rfl
  | @cons c c' ps qs hc _ ih =>
      have hhole : isHole c' = isHole c := by rw [isHole, hc.label, isHole]
      rw [List.filter_cons, List.filter_cons, hhole]
      split_ifs
      · rw [List.mapM_cons, List.mapM_cons, arrayPartTarget_alike hc, ih]
      · exact ih

/-- A target binds the same names with one wrapper more. -/
theorem declaratorTargets_of_wraps (h : Wraps w t u) :
    declaratorTargets u = declaratorTargets t := by
  cases h with
  | initializer _ => rfl
  | assigned _ => rfl
  | @inside l s xs ys c c' hplace h =>
      have hparts : Parts l 0 (xs ++ c :: ys) (xs ++ c' :: ys) := parts_of_wraps hplace h
      cases l with
      | pattern form =>
          cases form with
          | object => exact mapM_objectPartTarget_alike hparts
          | array => exact mapM_arrayPartTarget_alike hparts.forall₂
          | _ => rfl
      | _ => rfl

/-! ## Statements -/

/-- A function stays one if something inside it is wrapped. -/
theorem isFunctionLike_alike (h : Alike t u) : u.isFunctionLike = t.isFunctionLike := by
  rw [isFunctionLike, h.peeled, isFunctionLike]

/-- A part of a node with one wrapper more is what it was, or has the wrapper. -/
theorem child_of_inside (l : Label) (s : Span) (xs ys : List Tree) {c c' : Tree}
    (h : Wraps w c c') (i : Nat) :
    Relation.ReflGen (Wraps w) ((Tree.node l s (xs ++ c :: ys)).child i)
      ((Tree.node l s (xs ++ c' :: ys)).child i) := by
  induction xs generalizing i with
  | nil =>
      cases i with
      | zero => exact .single h
      | succ i => exact .refl
  | cons x xs ih =>
      cases i with
      | zero => exact .refl
      | succ i => exact ih i

theorem alike_of_reflGen (h : Relation.ReflGen (Wraps w) t u) : Alike t u := by
  rcases h with _ | h
  · exact .refl t
  · exact alike_of_wraps h

theorem ofDeclarator_eq_nameOf (table : Table) (d : Tree) : ofDeclarator table d = (do
    let targets ← declaratorTargets (d.child 0)
    match nameOf (d.child 0) with
    | some target =>
      if (d.child 2).isFunctionLike then return declaredAs table .function d.span target
      else return declaredAs table .variable target.2 target
    | none => return targets.flatMap fun t => declaredAs table .variable t.2 t) := by
  rw [ofDeclarator]
  generalize d.child 0 = target
  congr 1
  funext targets
  split
  · rfl
  · rename_i hname
    have hnone : nameOf target = none := by
      rw [nameOf]
      exact hname
    rw [hnone]

/-- What a declarator binds is told by its place, its target and whether its value is a function. -/
theorem ofDeclarator_congr (table : Table) (hspan : u.span = t.span)
    (hname : nameOf (u.child 0) = nameOf (t.child 0))
    (htargets : declaratorTargets (u.child 0) = declaratorTargets (t.child 0))
    (hfunction : (u.child 2).isFunctionLike = (t.child 2).isFunctionLike) :
    ofDeclarator table u = ofDeclarator table t := by
  rw [ofDeclarator_eq_nameOf, htargets, hname, hfunction, hspan, ← ofDeclarator_eq_nameOf]

/-- A declarator has the same bindings with a wrapper inside it. -/
theorem ofDeclarator_of_wraps (table : Table) (h : Wraps w t u) :
    ofDeclarator table u = ofDeclarator table t := by
  cases h with
  | @initializer definite s target type e _ =>
      exact ofDeclarator_congr table rfl rfl rfl (isFunctionLike_around w e)
  | assigned _ => exact ofDeclarator_congr table rfl rfl rfl rfl
  | @inside l s xs ys c c' hplace h =>
      have htarget := child_of_inside l s xs ys h 0
      have hvalue := child_of_inside l s xs ys h 2
      refine ofDeclarator_congr table rfl (nameOf_alike (alike_of_reflGen htarget)) ?_
        (isFunctionLike_alike (alike_of_reflGen hvalue))
      rcases (Relation.reflGen_iff _ _ _).1 htarget with heq | htarget
      · rw [heq]
      · exact declaratorTargets_of_wraps htarget

theorem assignedFunction?_assign (s : Span) (target value : Tree) :
    assignedFunction? (.node (.expression (.assign "=")) s [target, value]) =
      match target.label with
      | .expression (.reference name _) =>
        if value.isFunctionLike then some (name, target.span, s) else none
      | _ => none := by
  obtain ⟨l, _, ps⟩ := target
  cases l with
  | expression form => cases form <;> simp [assignedFunction?]
  | _ => simp [assignedFunction?]

theorem assignedFunction?_eq_none {t : Tree}
    (h : ∀ s target value, t ≠ .node (.expression (.assign "=")) s [target, value]) :
    assignedFunction? t = none := by
  unfold assignedFunction?
  split
  · exact absurd rfl (h _ _ _)
  · rfl

/-- What a statement assigns is told by its target and by whether its value is a function. -/
theorem assignedFunction?_congr (l : Label) (s : Span) {target target' value value' : Tree}
    (htarget : Alike target target') (hvalue : value'.isFunctionLike = value.isFunctionLike) :
    assignedFunction? (.node l s [target', value']) =
      assignedFunction? (.node l s [target, value]) := by
  by_cases hl : l = .expression (.assign "=")
  · rw [hl, assignedFunction?_assign, assignedFunction?_assign, htarget.label, htarget.span, hvalue]
  · have hnone : ∀ ps, assignedFunction? (.node l s ps) = none := by
      refine fun ps => assignedFunction?_eq_none fun s' target value heq => ?_
      exact hl (Tree.node.inj heq).1
    rw [hnone, hnone]

/-- An assignment assigns the same function with one wrapper more. -/
theorem assignedFunction?_of_wraps (h : Wraps w t u) :
    assignedFunction? u = assignedFunction? t := by
  cases h with
  | initializer _ => rfl
  | @assigned op s target e _ =>
      exact assignedFunction?_congr _ s (.refl target) (isFunctionLike_around w e)
  | @inside l s xs ys c c' _ h =>
      have hparts := forall₂_alike_of_one (alike_of_wraps h) xs ys
      generalize xs ++ c :: ys = ps, xs ++ c' :: ys = qs at hparts ⊢
      rcases hparts with _ | ⟨htarget, _ | ⟨hvalue, _ | _⟩⟩
      case cons.cons.nil => exact assignedFunction?_congr l s htarget (isFunctionLike_alike hvalue)
      all_goals
        exact (assignedFunction?_eq_none (by simp)).trans (assignedFunction?_eq_none (by simp)).symm

theorem mapM_of_one {α : Type} {f : Tree → Except PassError α} {c c' : Tree} (h : f c' = f c)
    (xs ys : List Tree) : (xs ++ c' :: ys).mapM f = (xs ++ c :: ys).mapM f := by
  rw [List.mapM_append, List.mapM_append, List.mapM_cons, List.mapM_cons, h]

/-- An import has the same bindings with a wrapper inside it. -/
theorem ofImport_alike (table : Table) {ps qs : List Tree} (h : List.Forall₂ Alike ps qs) :
    ofImport table qs = ofImport table ps :=
  flatMap_alike (fun hc => by rw [nameOf_first_alike hc]) h

theorem ofStatement_import (table : Table) (env : Env) (typeOnly : Bool) (phase : Option String)
    (s : Span) (clause : Tree) (rest : List Tree) :
    ofStatement table env (.node (.module (.importDeclaration typeOnly phase)) s (clause :: rest)) =
      if clause.label = .module .importClause then .ok (ofImport table clause.children)
      else .ok [] := by
  obtain ⟨l, _, ps⟩ := clause
  cases l with
  | module form => cases form <;> rfl
  | _ => rfl

/-- A statement has the same bindings with one wrapper more. -/
theorem ofStatement_of_wraps (table : Table) (env : Env) (h : Wraps w t u) :
    ofStatement table env u = ofStatement table env t := by
  cases h with
  | initializer _ => rfl
  | assigned _ => rfl
  | @inside l s xs ys c c' hplace h =>
      have hparts : Parts l 0 (xs ++ c :: ys) (xs ++ c' :: ys) := parts_of_wraps hplace h
      cases l with
      | function form =>
          cases form with
          | function form declared traits =>
              cases form with
              | value => rfl
              | declaration =>
                  cases declared with
                  | true => rfl
                  | false =>
                      -- Only its name and whether there is a body are looked at.
                      generalize xs ++ c :: ys = ps, xs ++ c' :: ys = qs at hparts
                      rcases hparts with _ | ⟨hname, -, _ | ⟨-, -, _ | ⟨-, -, _ |
                        ⟨-, -, _ | ⟨hbody, -, _ | _⟩⟩⟩⟩⟩
                      all_goals try rfl
                      rw [ofStatement, isAbsent, hbody.label, nameOf_alike hname, ofStatement,
                        isAbsent]
          | _ => rfl
      | statement form =>
          cases form with
          | variableList kind declared =>
              rw [ofStatement, mapM_of_one (ofDeclarator_of_wraps table h), ofStatement]
          | expression =>
              cases xs with
              | nil =>
                  cases ys with
                  | nil =>
                      rw [List.nil_append, List.nil_append, ofStatement,
                        assignedFunction?_of_wraps h, ofStatement]
                  | cons y ys => rfl
              | cons x xs => cases xs <;> rfl
          | _ => rfl
      | module form =>
          cases form with
          | importDeclaration typeOnly phase =>
              generalize xs ++ c :: ys = ps, xs ++ c' :: ys = qs at hparts
              rcases hparts with _ | ⟨hclause, hspecifiers, -⟩
              · rfl
              · rw [ofStatement_import, ofStatement_import, hclause.label,
                  ofImport_alike table (hspecifiers rfl)]
          | _ => rfl
      | _ => rfl

/-! ## Trees -/

/-- Nothing is told of a tree if nothing is told of any node in it. -/
theorem gather_eq_nil {α : Type} {rule : Rule α} {t : Tree}
    (h : ∀ x, Inside x t → ∀ a, rule a x.label x.span x.children = []) (a : Around) :
    gather rule a t = [] := by
  induction t using Tree.induct generalizing a with
  | node l s ps ih =>
      have hown : rule a l s ps = [] := h _ .refl a
      rw [gather_node, hown, List.nil_append, List.flatMap_eq_nil_iff]
      intro x hx
      have hmem := List.mem_of_getElem? (List.mem_zipIdx_iff_getElem?.1 hx)
      exact ih x.1 hmem (fun y hy => h y (.part hmem hy)) _

/-- No node of the tree is a statement list. -/
def Unlisted (t : Tree) : Prop := ∀ x, Inside x t → x.label ≠ .module .statements

theorem unlisted_node {l : Label} {s : Span} {ps : List Tree} :
    Unlisted (.node l s ps) ↔ l ≠ .module .statements ∧ ∀ c ∈ ps, Unlisted c := by
  constructor
  · exact fun h => ⟨h _ .refl, fun c hc x hx => h x (.part hc hx)⟩
  · rintro ⟨hl, hparts⟩ x hx
    cases hx with
    | refl => exact hl
    | part hc hx => exact hparts _ hc x hx

/-- Nothing is collected where there is no statement list. -/
theorem collectIn_unlisted {t : Tree} (h : Unlisted t) (table : Table) (a : Around) :
    collectIn table a t = .ok [] := by
  have hlist : ∀ x, Inside x t → ∀ a : Around, ¬ (x.label = .module .statements ∧ a.searched) :=
    fun x hx a hlist => h x hx hlist.1
  have hfaults : gather faultRule a t = [] := gather_eq_nil (fun x hx a => if_neg (hlist x hx a)) _
  have hbindings : gather (bindingRule table) a t = [] :=
    gather_eq_nil (fun x hx a => if_neg (hlist x hx a)) _
  obtain ⟨bs, hbs⟩ := (reports_collectIn table a t).isOk_iff.2 hfaults
  obtain rfl := (collectIn_eq a t hbs).trans hbindings
  exact hbs

mutual

/-- Collecting asks what a tree stands in for the scopes and whether it is searched. -/
theorem collectIn_congr_around {table : Table} {a b : Around} (henv : a.env = b.env)
    (hsearched : a.searched = b.searched) : (t : Tree) → collectIn table a t = collectIn table b t
  | .node l s ps => by
    have hlist : ofList table a l ps = ofList table b l ps := by
      rw [ofList, ofList, henv, hsearched]
    rw [collectIn, collectIn, hlist, collectAll_congr_around ?_ ps 0]
    intro i
    simp only [Around.inside, henv, hsearched, and_self]

theorem collectAll_congr_around {table : Table} {a b : Nat → Around}
    (h : ∀ i, (a i).env = (b i).env ∧ (a i).searched = (b i).searched) :
    (ps : List Tree) → (i : Nat) → collectAll table a i ps = collectAll table b i ps
  | [], _ => rfl
  | t :: ts, i => by
    rw [collectAll, collectAll, collectIn_congr_around (h i).1 (h i).2 t,
      collectAll_congr_around h ts (i + 1)]

end

/-- What is collected from the parts of a node, if one of them is replaced. -/
theorem collectAll_of_one {table : Table} {c c' : Tree} (a : Nat → Around)
    (ys : List Tree) : (xs : List Tree) → (i : Nat) →
      collectIn table (a (i + xs.length)) c' = collectIn table (a (i + xs.length)) c →
    collectAll table a i (xs ++ c' :: ys) = collectAll table a i (xs ++ c :: ys)
  | [], i, h => by
    rw [List.nil_append, List.nil_append, collectAll, collectAll]
    exact congrArg (· >>= _) h
  | x :: xs, i, h => by
    rw [List.cons_append, List.cons_append, collectAll, collectAll,
      collectAll_of_one a ys xs (i + 1)]
    rwa [Nat.add_right_comm]

/-- A node that is no statement list and opens no scope has the bindings of its parts. -/
theorem collectIn_plain (table : Table) (a : Around) {l : Label} {s : Span} {ps : List Tree}
    (hl : IsPlain l) (hopened : ∀ i, opened l s ps i = []) :
    collectIn table a (.node l s ps) = collectAll table (fun _ => a) 0 ps := by
  rw [collectIn, ofList, if_neg (by simpa using fun hlist => absurd hlist hl.1),
    collectAll_congr_around (b := fun _ => a) ?_ ps 0]
  · cases collectAll table (fun _ => a) 0 ps <;> rfl
  · intro i
    simp [Around.inside, hopened, hl.2]

/-- A wrapper whose types hold no list has the bindings of what it wraps. -/
theorem collectIn_around (hw : ∀ type ∈ w.types, Unlisted type) (table : Table) (a : Around)
    (e : Tree) : collectIn table a (w.around e) = collectIn table a e := by
  have htypes : ∀ type ∈ w.types, collectIn table a type = .ok [] :=
    fun type htype => collectIn_unlisted (hw type htype) table a
  rw [Wrapper.around, collectIn_plain table a (by simp) (fun _ => rfl)]
  cases w with
  | paren | nonNull =>
      simp only [Wrapper.before, Wrapper.after, List.nil_append, collectAll]
      cases collectIn table a e <;> simp [bind, Except.bind, pure, Except.pure]
  | asType _ type | satisfiesType _ type =>
      have htype := htypes type List.mem_cons_self
      simp only [Wrapper.before, Wrapper.after, List.nil_append, collectAll, htype]
      cases collectIn table a e <;> simp [bind, Except.bind, pure, Except.pure]
  | typeAssertion _ type =>
      have htype := htypes type List.mem_cons_self
      simp only [Wrapper.before, Wrapper.after, List.cons_append, List.nil_append, collectAll,
        htype]
      cases collectIn table a e <;> simp [bind, Except.bind, pure, Except.pure]

/-- With a given table the same is collected from a tree with one wrapper more. -/
theorem collectIn_of_wraps (hw : ∀ type ∈ w.types, Unlisted type) (h : Wraps w t u)
    (table : Table) (a : Around) : collectIn table a u = collectIn table a t := by
  induction h generalizing a with
  | @initializer definite s target type e _ =>
      rw [collectIn_plain table a (by simp) (fun _ => rfl),
        collectIn_plain table a (by simp) (fun _ => rfl)]
      exact collectAll_of_one _ [] [target, type] 0 (collectIn_around hw table a e)
  | @assigned op s target e _ =>
      rw [collectIn_plain table a (by simp) (fun _ => rfl),
        collectIn_plain table a (by simp) (fun _ => rfl)]
      exact collectAll_of_one _ [] [target] 0 (collectIn_around hw table a e)
  | @inside l s xs ys c c' hplace h ih =>
      have hparts : Parts l 0 (xs ++ c :: ys) (xs ++ c' :: ys) := parts_of_wraps hplace h
      have hlist : ofList table a l (xs ++ c' :: ys) = ofList table a l (xs ++ c :: ys) := by
        rw [ofList, mapM_of_one (ofStatement_of_wraps table a.env h), ofList]
      have hinside := funext (inside_alike (s := s) hparts a)
      rw [collectIn, collectIn, hlist, hinside, collectAll_of_one _ ys xs 0 (ih _)]

/-- Tables that find the same for the names of a tree have the same collected from it. -/
theorem collectIn_congr {table table' : Table}
    (h : ∀ x ∈ candidates t, x.lookup.find table' = x.lookup.find table) :
    collectIn table' {} t = collectIn table {} t := by
  have hreports := reports_collectIn table {} t
  have hreports' := reports_collectIn table' {} t
  cases hfaults : faults t with
  | nil =>
      have hsupported : Supported t := supported_iff_faults.2 hfaults
      obtain ⟨bs, hbs⟩ := hreports.isOk_iff.2 hfaults
      obtain ⟨bs', hbs'⟩ := hreports'.isOk_iff.2 hfaults
      have hsame : bs' = bs := by
        rw [collectIn_eq {} t hbs, collectIn_eq {} t hbs', gather_bindingRule_eq _ {} hsupported,
          gather_bindingRule_eq _ {} hsupported]
        refine List.flatMap_congr fun x hx => ?_
        rw [Candidate.bindings, h x hx, Candidate.bindings]
      exact hbs'.trans (hsame ▸ hbs.symm)
  | cons f fs =>
      -- Both report the first fault, which no table has a part in.
      rw [faults] at hfaults
      rw [hfaults] at hreports hreports'
      exact Eq.trans hreports' hreports.symm

/-! ## Places of names -/

theorem mention_of_nameOf {x : String × Span} (h : nameOf t = some x) :
    ⟨x.1, x.2, none⟩ ∈ mentions t :=
  mention_of_boundName (by simp [boundNames_of_nameOf h])

/-- Every name of a target is mentioned where it stands. -/
theorem mention_of_target {targets : List (String × Span)} (h : declaratorTargets t = .ok targets)
    {x : String × Span} (hx : x ∈ targets) : ⟨x.1, x.2, none⟩ ∈ mentions t := by
  obtain ⟨ps, hinside⟩ := inside_of_target h hx
  exact (binding_inside hinside).2

theorem mention_of_declaratorCandidate {d : Tree} {x : Candidate} (hx : x ∈ declaratorCandidates d)
    {site : Span} (hsite : x.lookup = .declared site) : ⟨x.name, site, none⟩ ∈ mentions d := by
  refine mentions_child_subset d 0 ?_
  unfold declaratorCandidates at hx
  split at hx
  · rename_i name place parts htarget
    have hmention := mention_of_nameOf (t := d.child 0) (x := (name, place)) (by rw [htarget]; rfl)
    split_ifs at hx <;>
      · obtain rfl := List.mem_singleton.1 hx
        obtain rfl := Lookup.declared.inj hsite
        exact hmention
  · obtain ⟨target, htarget, rfl⟩ := List.mem_map.1 hx
    obtain rfl := Lookup.declared.inj hsite
    unfold targetsOf at htarget
    split at htarget
    · rename_i targets htargets
      exact mention_of_target htargets htarget
    · simp at htarget

/-- A candidate that is declared somewhere has its name there. -/
theorem mention_of_candidatesOf {env : Env} {x : Candidate} (hx : x ∈ candidatesOf env t)
    {site : Span} (hsite : x.lookup = .declared site) : ⟨x.name, site, none⟩ ∈ mentions t := by
  fun_cases candidatesOf env t with
  | case1 traits span name generics parameters result body habsent =>
      rw [candidatesOf, if_pos habsent] at hx
      simp at hx
  | case2 traits span name generics parameters result body habsent =>
      rw [candidatesOf, if_neg habsent] at hx
      obtain ⟨target, htarget, rfl⟩ := List.mem_map.1 hx
      obtain rfl := Lookup.declared.inj hsite
      exact mentions_part_subset List.mem_cons_self
        (mention_of_nameOf (Option.mem_toList.1 htarget))
  | case3 kind declared span declarators =>
      obtain ⟨d, hd, hx⟩ := List.mem_flatMap.1 hx
      exact mentions_part_subset hd (mention_of_declaratorCandidate hx hsite)
  | case4 span e =>
      obtain ⟨assigned, -, rfl⟩ := List.mem_map.1 hx
      simp at hsite
  | case5 typeOnly phase span clauseSpan specifiers rest =>
      obtain ⟨c, hc, hx⟩ := List.mem_flatMap.1 hx
      obtain ⟨target, htarget, rfl⟩ := List.mem_map.1 hx
      obtain rfl := Lookup.declared.inj hsite
      refine mentions_part_subset List.mem_cons_self (mentions_part_subset hc ?_)
      exact mentions_child_subset c 0 (mention_of_nameOf (Option.mem_toList.1 htarget))
  | case6 t hfunction hvariables hexpression himport =>
      rw [candidatesOf] at hx
      · simp at hx
      all_goals assumption

/-- A candidate that is looked up by a declaration is mentioned there. -/
theorem mention_of_candidate {a : Around} {x : Candidate} (hx : x ∈ gather candidateRule a t)
    {site : Span} (hsite : x.lookup = .declared site) : ⟨x.name, site, none⟩ ∈ mentions t := by
  induction t using Tree.induct generalizing a with
  | node l s ps ih =>
      rcases mem_gather_node.1 hx with hx | ⟨i, c, hc, hx⟩
      · unfold candidateRule at hx
        split_ifs at hx
        · obtain ⟨c, hc, hx⟩ := List.mem_flatMap.1 hx
          exact mentions_part_subset hc (mention_of_candidatesOf hx hsite)
        · simp at hx
      · have hmem := List.mem_of_getElem? hc
        exact mentions_part_subset hmem (ih c hmem hx)

/-! ## Tables -/

/-- A type that holds no code and keeps its names to itself: no statement list stands in it, and
what it declares, wherever it stands, is known in scopes that it opens itself. -/
structure Sealed (type : Tree) : Prop where
  unlisted : Unlisted type
  own : ∀ a, ∀ d ∈ declarations a type, d.marks ⊆ scopes type

/-- What stands around the middle of a list without repetitions is not in the middle. -/
theorem not_mem_middle {α : Type} {before middle after : List α} {x : α}
    (h : (before ++ (middle ++ after)).Nodup) (hx : x ∈ before ++ after) : x ∉ middle := by
  have hperm : (before ++ (middle ++ after)).Perm (middle ++ (before ++ after)) := by
    rw [← List.append_assoc, ← List.append_assoc]
    exact List.perm_append_comm.append_right after
  have hdisjoint := (List.nodup_append.1 (hperm.nodup_iff.1 h)).2.2
  exact fun hmiddle => hdisjoint x hmiddle x hx rfl

section Tables

variable (hw : ∀ type ∈ w.types, Sealed type) (h : Wraps w t u)

include h

/-- A wrapper adds the scopes that its types open, all in one place. -/
theorem scopes_of_wraps : ∃ before after, scopes t = before ++ after ∧
    scopes u = before ++ (w.types.flatMap scopes ++ after) := by
  obtain ⟨b, before, after, ht, hu⟩ := gather_of_wraps unwrapping_scopeRule h {}
  have hrule : gather scopeRule b = scopes := funext (gather_scopeRule b)
  rw [hrule] at hu
  exact ⟨before, after, ht, hu⟩

/-- A wrapper adds the names that its types mention, all in one place. -/
theorem mentions_of_wraps : ∃ before after, mentions t = before ++ after ∧
    mentions u = before ++ (w.types.flatMap mentions ++ after) := by
  obtain ⟨b, before, after, ht, hu⟩ := gather_of_wraps unwrapping_mentionRule h {}
  have hrule : gather mentionRule b = mentions := funext (gather_mentionRule b)
  rw [hrule] at hu
  exact ⟨before, after, ht, hu⟩

/-- The scopes of the wrapper's types are not those of the tree. -/
theorem not_mem_types_of_scopes (hscopes : (scopes u).Nodup) {s : ScopeId} (hs : s ∈ scopes t) :
    s ∉ w.types.flatMap scopes := by
  obtain ⟨before, after, ht, hu⟩ := scopes_of_wraps h
  rw [hu] at hscopes
  rw [ht] at hs
  exact not_mem_middle hscopes hs

/-- The identifiers of the wrapper's types stand elsewhere than those of the tree. -/
theorem site_ne_of_wraps (hsites : ((mentions u).map Mention.site).Nodup) {m m' : Mention}
    (hm : m ∈ mentions t) (hm' : m' ∈ w.types.flatMap mentions) : m.site ≠ m'.site := by
  obtain ⟨before, after, ht, hu⟩ := mentions_of_wraps h
  rw [hu, List.map_append, List.map_append] at hsites
  rw [ht] at hm
  have hmem : m.site ∈ before.map Mention.site ++ after.map Mention.site := by
    rw [← List.map_append]
    exact List.mem_map_of_mem hm
  exact fun heq => not_mem_middle hsites hmem (heq ▸ List.mem_map_of_mem hm')

include hw

/-- What the wrapper's types declare touches nothing that the tree declares: the two can be told
apart by the scopes that they go to. -/
theorem exists_detached_of_wraps (hscopes : (scopes u).Nodup)
    (hsites : ((mentions u).map Mention.site).Nodup) : ∃ p : Declaration → Bool,
    Detached p (declarations {} u) ∧ declarations {} t ⊆ declarations {} u ∧
      (declarations {} u).filter p = (declarations {} t).filter p ∧
      ∀ d ∈ declarations {} u,
        (d.scope ∈ scopes t ∨ ∃ m ∈ mentions t, m.site = d.site) → p d = true := by
  obtain ⟨b, before, after, ht, hu⟩ := gather_of_wraps unwrapping_declarationRule h {}
  have hrule : gather declarationRule b = declarations b :=
    funext fun type => (declarations_eq_gather b type).symm
  rw [← declarations_eq_gather] at ht hu
  rw [hrule] at hu
  have hin : ∀ d ∈ declarations {} t, d.scope ∉ w.types.flatMap scopes ∧ d.marks ⊆ scopes t := by
    intro d hd
    have hmarks : d.marks ⊆ scopes t := by simpa using marks_subset hd
    exact ⟨not_mem_types_of_scopes h hscopes (hmarks List.mem_cons_self), hmarks⟩
  have hout : ∀ d ∈ w.types.flatMap (declarations b), d.marks ⊆ w.types.flatMap scopes ∧
      ⟨d.name, d.site, none⟩ ∈ w.types.flatMap mentions := by
    intro d hd
    obtain ⟨type, htype, hd⟩ := List.mem_flatMap.1 hd
    refine ⟨fun s hs => ?_, List.mem_flatMap.2 ⟨type, htype, mention_of_declared hd⟩⟩
    exact List.mem_flatMap.2 ⟨type, htype, (hw type htype).own b d hd hs⟩
  have hsplit : ∀ d ∈ declarations {} u, d ∈ declarations {} t ∨
      d ∈ w.types.flatMap (declarations b) := by
    intro d hd
    rw [hu] at hd
    rw [ht]
    simp only [List.mem_append] at hd ⊢
    tauto
  -- The two halves: what goes to no scope of the types, and the rest.
  refine ⟨fun d => decide (d.scope ∉ w.types.flatMap scopes), ?_, ?_, ?_, ?_⟩
  · intro d hd e he hpd hpe
    have hpd : d.scope ∉ w.types.flatMap scopes := of_decide_eq_true hpd
    have hpe : e.scope ∈ w.types.flatMap scopes := by simpa using hpe
    have hd : d ∈ declarations {} t :=
      (hsplit d hd).resolve_right fun hd => hpd ((hout d hd).1 List.mem_cons_self)
    have he : e ∈ w.types.flatMap (declarations b) :=
      (hsplit e he).resolve_left fun he => (hin e he).1 hpe
    refine ⟨?_, fun hsymbol => ?_⟩
    -- Neither touches a scope of the other, since no scope is opened twice.
    · rintro ⟨-, s, hs, hs'⟩
      exact not_mem_types_of_scopes h hscopes ((hin d hd).2 hs) ((hout e he).1 hs')
    -- Nor do they share a symbol, since no name stands in two places.
    · exact site_ne_of_wraps h hsites (mention_of_declared hd) (hout e he).2
        (congrArg Symbol.site hsymbol)
  · rw [ht, hu]
    intro d hd
    simp only [List.mem_append] at hd ⊢
    tauto
  · have hnone : (w.types.flatMap (declarations b)).filter
        (fun d => decide (d.scope ∉ w.types.flatMap scopes)) = [] := by
      rw [List.filter_eq_nil_iff]
      intro d hd
      simpa using (hout d hd).1 List.mem_cons_self
    rw [ht, hu, List.filter_append, List.filter_append, List.filter_append, hnone, List.nil_append]
  · rintro d hd (hscope | ⟨m, hm, hsite⟩)
    · exact decide_eq_true (not_mem_types_of_scopes h hscopes hscope)
    · have hd : d ∈ declarations {} t :=
        (hsplit d hd).resolve_right fun hd => site_ne_of_wraps h hsites hm (hout d hd).2 hsite
      exact decide_eq_true (hin d hd).1

/-- What the tree looks up for its bindings it finds as before. -/
theorem find_of_wraps (hscopes : (scopes u).Nodup) (hsites : ((mentions u).map Mention.site).Nodup)
    {x : Candidate} (hx : x ∈ candidates t) :
    x.lookup.find (tableOf u) = x.lookup.find (tableOf t) := by
  obtain ⟨p, hdetached, hsub, hpart, hp⟩ := exists_detached_of_wraps hw h hscopes hsites
  rcases lookup_of_candidate hx with ⟨site, heq⟩ | ⟨inner, hinner, heq⟩
  · have hmention := mention_of_candidate hx heq
    rw [heq]
    exact Table.declared_of_part hdetached hsub hpart fun d hd hsite =>
      hp d hd (Or.inr ⟨_, hmention, hsite.symm⟩)
  · rw [heq]
    refine Table.findSome?_congr_of_mem fun s hs => ?_
    have hs : s ∈ scopes t := hinner (by simpa using hs)
    exact Table.serving_of_part hdetached hsub hpart
      (fun d hd hscope _ => hp d hd (Or.inl (hscope ▸ hs))) .write

/-- One wrapper more around a value leaves the bindings of a tree as they are. -/
theorem collect_of_wraps (hscopes : (scopes u).Nodup)
    (hsites : ((mentions u).map Mention.site).Nodup) : collect u = collect t := by
  rw [collect, collectIn_of_wraps (fun type htype => (hw type htype).unlisted) h,
    collectIn_congr fun x hx => find_of_wraps hw h hscopes hsites hx, collect]

end Tables

/-- So does any number of them. -/
theorem collect_of_wrapped (h : Wrapped Sealed t u) (hscopes : (scopes u).Nodup)
    (hsites : ((mentions u).map Mention.site).Nodup) : collect u = collect t := by
  induction h with
  | refl => rfl
  | tail _ hstep ih =>
      obtain ⟨w, hw, hwraps⟩ := hstep
      refine (collect_of_wraps hw hwraps hscopes hsites).trans (ih ?_ ?_)
      · obtain ⟨before, after, hbefore, hafter⟩ := scopes_of_wraps hwraps
        rw [hafter] at hscopes
        rw [hbefore]
        exact hscopes.sublist ((List.sublist_append_right _ _).append_left _)
      · obtain ⟨before, after, hbefore, hafter⟩ := mentions_of_wraps hwraps
        rw [hafter] at hsites
        rw [hbefore]
        exact hsites.sublist (((List.sublist_append_right _ _).append_left _).map _)

/-- Wrappers are transparent: peeling a nest of them gives what peeling its expression gives, which
is no wrapper, and nests around values leave the bindings of a module as they are, or the fault that
is reported if there is one. -/
theorem wrappers_transparent :
    (∀ (ws : List Wrapper) (e : Tree), (nest ws e).peel = e.peel) ∧
      (∀ (e : Tree) (w : Wrapper) (x : Tree), e.peel ≠ w.around x) ∧
      ∀ t u : Tree, Wrapped Sealed t u → (scopes u).Nodup →
        ((mentions u).map Mention.site).Nodup → collect u = collect t :=
  ⟨peel_nest, peel_ne_around, fun _ _ => collect_of_wrapped⟩

/-! ### Two functions in nests -/

/-- A module `let a; const f = …; a = …;` with a value for `f` and one for `a`. -/
def twoValues (first second : Tree) : Tree :=
  .node (.module (.program none false)) ⟨0, 57⟩
    [.node (.module .prologue) ⟨0, 0⟩ [],
      .node (.module .statements) ⟨0, 56⟩
        [.node (.statement (.variableList .letVariable false)) ⟨0, 6⟩
          [.node (.statement (.declarator false)) ⟨4, 5⟩
            [.node (.pattern (.binding "a")) ⟨4, 5⟩ [], .absent, .absent]],
          .node (.statement (.variableList .constVariable false)) ⟨7, 28⟩
            [.node (.statement (.declarator false)) ⟨13, 27⟩
              [.node (.pattern (.binding "f")) ⟨13, 14⟩ [], .absent, first]],
          .node (.statement .expression) ⟨29, 56⟩
            [.node (.expression (.assign "=")) ⟨29, 55⟩
              [.node (.expression (.reference "a" .write)) ⟨29, 30⟩ [], second]]]]

/-- An arrow function `() => …`. -/
def thunk (span parameters body : Span) (value : Tree) : Tree :=
  .node (.function (.arrow { isExpression := true })) span
    [.absent, .node (.function .parameters) parameters [], .absent,
      .node (.function .expressionBody) body [value]]

/-- The value `() => 1`. -/
def giveOne : Tree :=
  thunk ⟨18, 25⟩ ⟨18, 20⟩ ⟨24, 25⟩ (.node (.expression (.number "1")) ⟨24, 25⟩ [])

/-- The value `() => f`. -/
def giveF : Tree :=
  thunk ⟨47, 54⟩ ⟨47, 49⟩ ⟨53, 54⟩ (.node (.expression (.reference "f" .read)) ⟨53, 54⟩ [])

/-- The type `(x: T) => U`. -/
def functionType : Tree :=
  .node (.type .function) ⟨34, 45⟩
    [.absent,
      .node (.function .parameters) ⟨34, 40⟩
        [.node (.function (.parameter {})) ⟨35, 39⟩
          [.node (.classes .decorators) ⟨35, 35⟩ [],
            .node (.pattern (.binding "x")) ⟨35, 36⟩ [],
            .node (.type .reference) ⟨38, 39⟩
              [.node (.expression (.reference "T" .typeName)) ⟨38, 39⟩ [], .absent],
            .absent]],
      .node (.type .reference) ⟨44, 45⟩
        [.node (.expression (.reference "U" .typeName)) ⟨44, 45⟩ [], .absent]]

theorem sealed_functionType : Sealed functionType where
  unlisted := by simp [functionType, absent, unlisted_node]
  own a d hd := by
    have hdeclared : declarations a functionType =
        [⟨"x", ⟨35, 36⟩, .ofValue, [], ⟨.signature, ⟨34, 45⟩⟩⟩] := rfl
    have hscopes : scopes functionType = [⟨.signature, ⟨34, 45⟩⟩] := rfl
    rw [hdeclared, List.mem_singleton] at hd
    simp [hd, hscopes, Declaration.marks]

/-- The value for `f` as `(() => 1)!`. -/
def wrappedOne : Tree := nest [.nonNull ⟨17, 27⟩, .paren ⟨17, 26⟩] giveOne

/-- The value for `a` as `<(x: T) => U>(() => f)`. -/
def wrappedF : Tree := nest [.typeAssertion ⟨33, 55⟩ functionType, .paren ⟨46, 55⟩] giveF

theorem wrapped_twoValues :
    Wrapped Sealed (twoValues giveOne giveF) (twoValues wrappedOne wrappedF) := by
  have hfirst : Wrapped Sealed (twoValues giveOne giveF) (twoValues wrappedOne giveF) := by
    refine Wrapped.inside [_] [] (by simp [listsNames]) ?_
    refine Wrapped.inside [_] [_] (by simp [listsNames]) ?_
    refine Wrapped.inside [] [] (by simp [listsNames]) ?_
    exact wrapped_initializer rfl (by simp [Wrapper.types, Wrapper.before, Wrapper.after]) _ _ _ _
  have hsecond : Wrapped Sealed (twoValues wrappedOne giveF) (twoValues wrappedOne wrappedF) := by
    refine Wrapped.inside [_] [] (by simp [listsNames]) ?_
    refine Wrapped.inside [_, _] [] (by simp [listsNames]) ?_
    refine Wrapped.inside [] [] (by simp [listsNames]) ?_
    refine wrapped_assigned rfl ?_ _ _ _
    simp [Wrapper.types, Wrapper.before, Wrapper.after, sealed_functionType]
  exact hfirst.trans hsecond

theorem wrappers_transparent_twoValues :
    Wrapped Sealed (twoValues giveOne giveF) (twoValues wrappedOne wrappedF) ∧
      wrappedF.peel = giveF ∧
      collect (twoValues wrappedOne wrappedF) =
        .ok [⟨"a", .variable, ⟨4, 5⟩, ⟨4, 5⟩, ⟨"a", ⟨4, 5⟩⟩⟩,
          ⟨"f", .function, ⟨13, 14⟩, ⟨13, 27⟩, ⟨"f", ⟨13, 14⟩⟩⟩,
          ⟨"a", .function, ⟨29, 30⟩, ⟨29, 55⟩, ⟨"a", ⟨4, 5⟩⟩⟩] := by
  refine ⟨wrapped_twoValues, wrappers_transparent.1 _ giveF, ?_⟩
  rw [wrappers_transparent.2.2 _ _ wrapped_twoValues (by decide) (by decide)]
  rfl

/-! ### Types that are not sealed -/

/-- A module `const a = …;`. -/
def oneValue (value : Tree) : Tree :=
  .node (.module (.program none false)) ⟨0, 52⟩
    [.node (.module .prologue) ⟨0, 0⟩ [],
      .node (.module .statements) ⟨0, 51⟩
        [.node (.statement (.variableList .constVariable false)) ⟨0, 51⟩
          [.node (.statement (.declarator false)) ⟨6, 50⟩
            [.node (.pattern (.binding "a")) ⟨6, 7⟩ [], .absent, value]]]]

/-- The type `{ [(() => { let b = 1; })()]: any }`. -/
def codeType : Tree :=
  .node (.type .object) ⟨15, 50⟩
    [.node (.type (.property true false false)) ⟨17, 48⟩
      [.node (.expression (.call false false)) ⟨18, 42⟩
        [.node (.expression .paren) ⟨18, 40⟩
          [.node (.function (.arrow {})) ⟨19, 39⟩
            [.absent, .node (.function .parameters) ⟨19, 21⟩ [], .absent,
              .node (.function .body) ⟨25, 39⟩
                [.node (.module .prologue) ⟨27, 27⟩ [],
                  .node (.module .statements) ⟨27, 37⟩
                    [.node (.statement (.variableList .letVariable false)) ⟨27, 37⟩
                      [.node (.statement (.declarator false)) ⟨31, 36⟩
                        [.node (.pattern (.binding "b")) ⟨31, 32⟩ [], .absent,
                          .node (.expression (.number "1")) ⟨35, 36⟩ []]]]]]],
          .absent, .node (.expression .arguments) ⟨40, 42⟩ []],
        .node (.type (.keyword "any")) ⟨45, 48⟩ []]]

/-- A module `{ const a = …; var T; } T = () => 2;`. -/
def blockValue (value : Tree) : Tree :=
  .node (.module (.program none false)) ⟨0, 48⟩
    [.node (.module .prologue) ⟨0, 0⟩ [],
      .node (.module .statements) ⟨0, 47⟩
        [.node (.statement .block) ⟨0, 34⟩
          [.node (.module .statements) ⟨2, 32⟩
            [.node (.statement (.variableList .constVariable false)) ⟨2, 25⟩
              [.node (.statement (.declarator false)) ⟨8, 24⟩
                [.node (.pattern (.binding "a")) ⟨8, 9⟩ [], .absent, value]],
              .node (.statement (.variableList .varVariable false)) ⟨26, 32⟩
                [.node (.statement (.declarator false)) ⟨30, 31⟩
                  [.node (.pattern (.binding "T")) ⟨30, 31⟩ [], .absent, .absent]]]],
          .node (.statement .expression) ⟨35, 47⟩
            [.node (.expression (.assign "=")) ⟨35, 46⟩
              [.node (.expression (.reference "T" .write)) ⟨35, 36⟩ [],
                thunk ⟨39, 46⟩ ⟨39, 41⟩ ⟨45, 46⟩ (.node (.expression (.number "2")) ⟨45, 46⟩ [])]]]]

/-- The type `infer T`. -/
def inferType : Tree :=
  .node (.type .infer) ⟨17, 24⟩
    [.node (.type (.parameter [])) ⟨23, 24⟩
      [.node (.pattern (.binding "T")) ⟨23, 24⟩ [], .absent, .absent]]

/-- The statements of a function in a type are a list like any other, and what they declare is
collected. A type that is inferred outside of a conditional one is declared in the block around it,
where a variable on its way out joins it, so that assignments find no variable any more. -/
theorem unsealed_types_collected :
    (let value : Tree := .node (.expression (.number "1")) ⟨10, 11⟩ []
      let wrapped := oneValue (nest [.asType ⟨10, 50⟩ codeType] value)
      Wrapped (fun _ => True) (oneValue value) wrapped ∧ (scopes wrapped).Nodup ∧
        ((mentions wrapped).map Mention.site).Nodup ∧
        collect (oneValue value) = .ok [⟨"a", .variable, ⟨6, 7⟩, ⟨6, 7⟩, ⟨"a", ⟨6, 7⟩⟩⟩] ∧
        collect wrapped =
          .ok [⟨"a", .variable, ⟨6, 7⟩, ⟨6, 7⟩, ⟨"a", ⟨6, 7⟩⟩⟩,
            ⟨"b", .variable, ⟨31, 32⟩, ⟨31, 32⟩, ⟨"b", ⟨31, 32⟩⟩⟩]) ∧
      (let value : Tree := .node (.expression (.number "1")) ⟨12, 13⟩ []
        let wrapped := blockValue (nest [.asType ⟨12, 24⟩ inferType] value)
        Wrapped Unlisted (blockValue value) wrapped ∧ (scopes wrapped).Nodup ∧
          ((mentions wrapped).map Mention.site).Nodup ∧
          collect (blockValue value) =
            .ok [⟨"T", .function, ⟨35, 36⟩, ⟨35, 46⟩, ⟨"T", ⟨30, 31⟩⟩⟩,
              ⟨"a", .variable, ⟨8, 9⟩, ⟨8, 9⟩, ⟨"a", ⟨8, 9⟩⟩⟩,
              ⟨"T", .variable, ⟨30, 31⟩, ⟨30, 31⟩, ⟨"T", ⟨30, 31⟩⟩⟩] ∧
          collect wrapped =
            .ok [⟨"a", .variable, ⟨8, 9⟩, ⟨8, 9⟩, ⟨"a", ⟨8, 9⟩⟩⟩,
              ⟨"T", .variable, ⟨30, 31⟩, ⟨30, 31⟩, ⟨"T", ⟨23, 24⟩⟩⟩]) := by
  refine ⟨⟨?_, by decide, by decide, rfl, rfl⟩, ⟨?_, by decide, by decide, rfl, rfl⟩⟩
  · refine Wrapped.inside [_] [] (by simp [listsNames]) ?_
    refine Wrapped.inside [] [] (by simp [listsNames]) ?_
    refine Wrapped.inside [] [] (by simp [listsNames]) ?_
    exact wrapped_initializer rfl (by simp) _ _ _ _
  · refine Wrapped.inside [_] [] (by simp [listsNames]) ?_
    refine Wrapped.inside [] [_] (by simp [listsNames]) ?_
    refine Wrapped.inside [] [] (by simp [listsNames]) ?_
    refine Wrapped.inside [] [_] (by simp [listsNames]) ?_
    refine Wrapped.inside [] [] (by simp [listsNames]) ?_
    refine wrapped_initializer rfl ?_ _ _ _ _
    simp [Wrapper.types, Wrapper.before, Wrapper.after, inferType, absent, unlisted_node]

end Binding

end RouteSplit
