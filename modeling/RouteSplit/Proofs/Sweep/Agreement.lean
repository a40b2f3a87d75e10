import RouteSplit.Proofs.Sweep.Tally

/-!
# The remover and the table of bindings

A table of bindings is made in one walk over a tree, and bindings are removed in another, which goes
into inner lists first. The two meet the same names: whatever part of a table is to be removed, the
remover finds all of it, once each, and takes no other name but with code that goes.

- `Remover`, `visit`, `removeBindings`: the walk that removes, with what can go wrong in it;
- `removeBindings_eq`, `passes_removeBindings`: it is the removal that passes make;
- `Role`, `statementCode`, `carried`: the code that goes with names;
- `exists_code_of_piece`: a name in a piece that goes stands in such code;
- `removeBindings_collected`: what the removal of part of a table does.
-/

namespace RouteSplit.Sweep

open Scope

variable {dead : List Binding}

/-! ## The remover -/

/-- What a removal has put down so far, and what it met last that is not understood. -/
structure Remover where
  removed : List Removed := []
  error : Option PassError := none

/-- What is left of a statement, if the targets in it are understood. -/
def sweepStatement (dead : List Binding) : Tree → Except PassError (Left Tree)
  | .node (.statement (.variableList kind declared)) span declarators => do
    let _ ← declarators.mapM fun d => Binding.declaratorTargets (d.child 0)
    return keepStatement dead (.node (.statement (.variableList kind declared)) span declarators)
  | t => return keepStatement dead t

mutual

/-- A removal, inner lists first. Once a target is not understood no list is changed any more. -/
def visit (dead : List Binding) : Tree → Remover → Tree × Remover
  | .node label span parts, r =>
    let (inner, r) := visitAll dead (searches label) parts r
    if label == .module .statements && r.error.isNone then
      match inner.mapM (sweepStatement dead) with
      | .error e => (.node label span inner, { r with error := some e })
      | .ok left =>
        (.node label span (left.filterMap (·.1)),
          { r with removed := r.removed ++ left.flatMap (·.2) })
    else (.node label span inner, r)

def visitAll (dead : List Binding) (searched : Label → Bool) :
    List Tree → Remover → List Tree × Remover
  | [], r => ([], r)
  | t :: ts, r =>
    let (t', r) := if searched t.label then visit dead t r else (t, r)
    let (ts', r) := visitAll dead searched ts r
    (t' :: ts', r)

end

/-- The removal of bindings, each of which has to be found once. -/
def removeBindings (dead : List Binding) (root : Tree) : Except PassError (Tree × List Removed) :=
  let (root', r) := visit dead root {}
  match r.error with
  | some e => .error e
  | none =>
    if r.removed.length == dead.length then .ok (root', r.removed)
    else .error (.inconsistency (toString dead.length ++ " dead bindings selected but " ++
      toString r.removed.length ++ " removed"))

/-! ### Where all targets are understood -/

theorem mapM_ok {α β ε : Type} {f : α → Except ε β} {g : α → β} {xs : List α}
    (h : ∀ x ∈ xs, f x = .ok (g x)) : xs.mapM f = .ok (xs.map g) := by
  induction xs with
  | nil => rfl
  | cons x xs ih =>
      have hrest := ih fun y hy => h y (List.mem_cons_of_mem _ hy)
      exact mapM_cons_eq_ok.2 ⟨_, _, h x List.mem_cons_self, hrest, rfl⟩

/-- Where its targets are understood, a statement is swept without an error. -/
theorem sweepStatement_of_understood {t : Tree} (h : Binding.troubles t = []) :
    sweepStatement dead t = .ok (keepStatement dead t) := by
  fun_cases sweepStatement dead t with
  | case1 k b s ds =>
      have hunderstood : ∀ d ∈ ds, ∃ ts, Binding.declaratorTargets (d.child 0) = .ok ts := by
        intro d hd
        have hnone : Binding.trouble d = [] := List.flatMap_eq_nil_iff.1 h d hd
        refine Binding.understood_iff.1 ?_
        simpa [Binding.trouble] using hnone
      rcases Binding.mapM_isOk_iff.2 hunderstood with ⟨ts, hts⟩
      rw [hts]
      rfl
  | case2 t hvariables => rfl

/-- Parts that are searched are visited one after the other, and the others stay as they are. -/
theorem visitAll_of_visit {l : Label} {ps : List Tree}
    (h : ∀ c ∈ ps, searches l c.label = true → ∀ log, visit dead c ⟨log, none⟩ =
      (prune dead c, ⟨log ++ (removeIn dead c).2, none⟩)) (log : List Removed) :
    visitAll dead (searches l) ps ⟨log, none⟩ = (ps.map (prunePart dead l),
      ⟨log ++ ps.flatMap fun c => if searches l c.label then (removeIn dead c).2 else [], none⟩) := by
  induction ps generalizing log with
  | nil => simp [visitAll]
  | cons c cs ih =>
      have hrest := ih fun d hd => h d (List.mem_cons_of_mem _ hd)
      cases hsearched : searches l c.label with
      | true =>
          simp only [visitAll, hsearched, if_true, h c List.mem_cons_self hsearched, hrest,
            List.map_cons, prunePart, List.flatMap_cons, List.append_assoc]
      | false =>
          simp only [visitAll, hsearched, Bool.false_eq_true, if_false, hrest, List.map_cons,
            prunePart, List.flatMap_cons, List.nil_append]

/-- Where all targets are understood, nothing goes wrong on the way. -/
theorem visit_of_supported {t : Tree} (ht : t.inShape = true) (h : Binding.Supported t)
    (log : List Removed) :
    visit dead t ⟨log, none⟩ = (prune dead t, ⟨log ++ (removeIn dead t).2, none⟩) := by
  induction t using Tree.induct generalizing log with
  | node l s ps ih =>
      have hparts := (Tree.inShape_node.1 ht).2
      rcases Binding.supported_node.1 h with ⟨hown, hinner⟩
      have hvisit := visitAll_of_visit (l := l)
        (fun c hc hsearched => ih c hc (hparts c hc) (hinner c hc hsearched)) log
      by_cases hl : l = .module .statements
      · subst hl
        have hstatements : ∀ c ∈ ps.map (prune dead),
            sweepStatement dead c = .ok (keepStatement dead c) := by
          intro c hc
          rcases List.mem_map.1 hc with ⟨d, hd, rfl⟩
          refine sweepStatement_of_understood ?_
          rw [Binding.troubles_prune (hparts d hd), hown rfl d hd]
        have hleft := mapM_ok hstatements
        have hkept : ((ps.map (prune dead)).map (keepStatement dead)).filterMap (·.1) =
            (ps.map (prune dead)).filterMap (kept dead) := List.filterMap_map
        have hlost : ((ps.map (prune dead)).map (keepStatement dead)).flatMap (·.2) =
            ps.flatMap fun c => (keepStatement dead c).2 := by
          rw [List.flatMap_map, flatMap_record_prune hparts]
        rw [prunePart_of_searches dead (by simp)] at hvisit
        rw [prune_statements, removeIn_record_list hparts, ← hkept, ← hlost, ← List.append_assoc]
        simp [visit, hvisit, hleft]
      · have hbeq : (l == .module .statements) = false := by simpa using hl
        simp only [visit, hvisit, hbeq, Bool.false_and, Bool.false_eq_true, if_false]
        rw [prune_node dead hl, removeIn_record_of_ne hl]

/-- Where all targets are understood, a removal can fail only by its count. -/
theorem removeBindings_eq {root : Tree} (hshape : root.inShape = true)
    (h : Binding.Supported root) :
    removeBindings dead root =
      if (removeIn dead root).2.length == dead.length then .ok (removeIn dead root)
      else .error (.inconsistency (toString dead.length ++ " dead bindings selected but " ++
        toString (removeIn dead root).2.length ++ " removed")) := by
  have hvisit : visit dead root {} = (prune dead root, ⟨(removeIn dead root).2, none⟩) :=
    visit_of_supported hshape h []
  rw [removeBindings, hvisit]
  rfl

/-- The removal is the one that passes make. -/
theorem passes_removeBindings (max : Option Nat) (budget : Nat) {root : Tree} (c : Context)
    (hshape : root.inShape = true) (hlimit : atLimit max c.passes = none)
    (hdead : deadBindings root c = .ok dead) (hne : dead ≠ []) :
    passes max (budget + 1) root c =
      match removeBindings dead root with
      | .ok (root', lost) => passes max budget root'
          { c with passes := c.passes + 1, removed := c.removed ++ lost }
      | .error e => ⟨prune dead root, { c with passes := c.passes + 1 }, .error e⟩ := by
  have hsupported : Binding.Supported root := by
    rcases deadBindings_eq_ok.1 hdead with ⟨bs, hbs, -⟩
    exact Binding.collect_isOk_iff.1 ⟨bs, hbs⟩
  have hbegun : deadBindings root { c with passes := c.passes + 1 } = .ok dead :=
    (deadBindings_congr rfl root).trans hdead
  rw [removeBindings_eq hshape hsupported]
  rcases List.exists_cons_of_ne_nil hne with ⟨b, bs, rfl⟩
  simp only [passes, hlimit, hbegun]
  split_ifs <;> rfl

/-! ## Code that goes with names -/

/-- What code is to the names that it goes with. -/
inductive Role where
  /-- A function that is declared, or the value that is one and is assigned. -/
  | function
  | initializer
  /-- The type that a declarator is given. -/
  | declaredType
  | default
  | key
deriving DecidableEq

/-- Code, and all the names that it goes with. -/
structure Carried where
  names : List Span
  role : Role
  code : Tree

/-- All names that the code goes with go. -/
def Carried.Goes (dead : List Binding) (x : Carried) : Prop := AllDead dead x.names

/-- What stands behind the first part of a node: the default of an element of a pattern, behind the
name. -/
def behindName (t : Tree) : List Tree := t.children.drop 1

/-- The code that goes with a part of an object pattern: the key of a property, and the default of
what it binds. -/
def objectPartCode : Tree → List (Role × Tree)
  | .node (.pattern (.property _)) _ (key :: element :: rest) =>
    (.key, key) :: (behindName element ++ rest).map (.default, ·)
  | t => (behindName t).map (.default, ·)

/-- The code that goes with parts of a target, each with the name of its part. -/
def targetCode : Tree → List Carried
  | .node (.pattern .object) _ parts =>
    parts.flatMap fun t =>
      (objectPartCode t).map fun (role, code) =>
        ⟨(siteOf (Binding.objectPartTarget t)).toList, role, code⟩
  | .node (.pattern .array) _ parts =>
    parts.flatMap fun t =>
      (behindName t).map fun code =>
        ⟨(siteOf (Binding.arrayPartTarget t)).toList, .default, code⟩
  | _ => []

/-- The code that goes with names of a declarator: with all of them its type and its initializer,
and with each the key and the default beside it. -/
def declaratorCode (d : Tree) : List Carried :=
  let names := Binding.targetSites (d.child 0)
  ((behindName d).take 1).map (⟨names, .declaredType, ·⟩) ++
    ((behindName d).drop 1).map (⟨names, .initializer, ·⟩) ++ targetCode (d.child 0)

/-- The code that goes with names of a statement: a function that is defined or assigned, or the
code in declarators. An import has names only. -/
def statementCode : Tree → List Carried
  | .node (.statement (.variableList _ _)) _ declarators => declarators.flatMap declaratorCode
  | .node (.statement .expression) _ [e] =>
    (Binding.assignedFunction? e).toList.map fun t => ⟨[t.2.1], .function, e.child 1⟩
  | .node (.module (.importDeclaration _ _)) _ _ => []
  | t => [⟨Binding.statementSites t, .function, t⟩]

/-- The code of a tree that goes with names. -/
def carried (t : Tree) : List Carried := gather (listRule statementCode) {} t

/-- The names of statements inside an import. -/
def importedSites : Tree → List Span
  | .node (.module (.importDeclaration _ _)) _ parts => parts.flatMap Binding.sites
  | _ => []

/-- Imports hold names and texts, and no statements. -/
def BareImports (t : Tree) : Prop := gather (listRule importedSites) {} t = []

/-! ### Names inside parts -/

/-- The names of a node that is no list are those of its parts. -/
theorem mem_sites_part {l : Label} (hl : l ≠ .module .statements) {span : Span} {ps : List Tree}
    {s : Span} (hs : s ∈ Binding.sites (.node l span ps)) : ∃ c ∈ ps, s ∈ Binding.sites c := by
  rcases mem_sites_node.1 hs with ⟨hlist, -⟩ | ⟨c, hc, -, hs⟩
  · exact absurd hlist hl
  · exact ⟨c, hc, hs⟩

/-- A name has no parts. -/
theorem sites_of_nameOf {t : Tree} (ht : t.inShape = true) {x : String × Span}
    (h : Binding.nameOf t = some x) : Binding.sites t = [] := by
  rcases eq_of_nameOf h with ⟨ps, rfl⟩
  have hfits := (Tree.inShape_node.1 ht).1
  simp only [Tree.fits, Bool.and_eq_true, List.isEmpty_iff] at hfits
  rw [sites_of_plain (by simp), hfits.2]
  rfl

/-- Where the first part of a node is a name, its tracked names stand behind that. -/
theorem mem_behindName {t : Tree} (ht : t.inShape = true) (hl : t.label ≠ .module .statements)
    {x : String × Span} (hname : Binding.nameOf (t.child 0) = some x) {s : Span}
    (hs : s ∈ Binding.sites t) : ∃ c ∈ behindName t, s ∈ Binding.sites c := by
  rcases t with ⟨l, span, ps⟩
  rcases mem_sites_part (l := l) hl hs with ⟨c, hc, hsc⟩
  cases ps with
  | nil => simp at hc
  | cons first rest =>
      have hfirst := (Tree.inShape_node.1 ht).2 first List.mem_cons_self
      rcases List.mem_cons.1 hc with rfl | hc
      · have hnone := sites_of_nameOf hfirst hname
        simp [hnone] at hsc
      · exact ⟨c, hc, hsc⟩

/-- The tracked names in an element of a pattern stand in its default. -/
theorem mem_code_of_element {t : Tree} (ht : t.inShape = true) {n : Span}
    (hname : siteOf (Binding.elementTarget t) = some n) {s : Span} (hs : s ∈ Binding.sites t) :
    ∃ c ∈ behindName t, s ∈ Binding.sites c := by
  fun_cases Binding.elementTarget t with
  | case1 name span parts =>
      have hnone := sites_of_nameOf ht (x := (name, span)) rfl
      simp [hnone] at hs
  | case2 span first rest target hfirst => exact mem_behindName ht (by simp) hfirst hs
  | case3 span first rest hfirst => simp [Binding.elementTarget, hfirst, siteOf] at hname
  | case4 span parts => simp [Binding.elementTarget, siteOf] at hname
  | case5 t hbinding hdefault hobject =>
      rw [Binding.elementTarget] at hname
      · simp [siteOf] at hname
      all_goals assumption

theorem mem_code_of_rest {t : Tree} (ht : t.inShape = true) (hrest : Binding.isRest t = true)
    {n : Span} (hname : siteOf (Binding.restTarget t) = some n) {s : Span}
    (hs : s ∈ Binding.sites t) : ∃ c ∈ behindName t, s ∈ Binding.sites c := by
  have hl : t.label = .pattern .rest := by simpa [Binding.isRest] using hrest
  unfold Binding.restTarget at hname
  cases hfirst : Binding.nameOf (t.child 0) with
  | none => simp [hfirst, siteOf] at hname
  | some x => exact mem_behindName ht (by simp [hl]) hfirst hs

/-- The tracked names in a place of an array pattern stand in its default. -/
theorem mem_code_of_arrayPart {t : Tree} (ht : t.inShape = true) {n : Span}
    (hname : siteOf (Binding.arrayPartTarget t) = some n) {s : Span} (hs : s ∈ Binding.sites t) :
    ∃ c ∈ behindName t, s ∈ Binding.sites c := by
  unfold Binding.arrayPartTarget at hname
  split_ifs at hname with hrest
  · exact mem_code_of_rest ht hrest hname hs
  · exact mem_code_of_element ht hname hs

/-- The tracked names in a part of an object pattern stand in its key or in its default. -/
theorem mem_code_of_objectPart {t : Tree} (ht : t.inShape = true)
    (hpart : Tree.isObjectPart t.label = true) {n : Span}
    (hname : siteOf (Binding.objectPartTarget t) = some n) {s : Span} (hs : s ∈ Binding.sites t) :
    ∃ x ∈ objectPartCode t, s ∈ Binding.sites x.2 := by
  unfold Binding.objectPartTarget at hname
  fun_cases objectPartCode t with
  | case1 shorthand span key element rest =>
      have helement := (Tree.inShape_node.1 ht).2 element (by simp)
      rcases mem_sites_part (by simp) hs with ⟨c, hc, hsc⟩
      simp only [List.mem_cons] at hc
      rcases hc with rfl | rfl | hc
      · exact ⟨(.key, c), by simp, hsc⟩
      · rcases mem_code_of_element helement hname hsc with ⟨c, hc, hs⟩
        exact ⟨(.default, c), by simp [hc], hs⟩
      · exact ⟨(.default, c), by simp [hc], hsc⟩
  | case2 t hproperty =>
      split_ifs at hname with hrest
      · rcases mem_code_of_rest ht hrest hname hs with ⟨c, hc, hs⟩
        exact ⟨(.default, c), List.mem_map.2 ⟨c, hc, rfl⟩, hs⟩
      · -- A property without a second part binds nothing.
        have hnone : siteOf (Binding.elementTarget .absent) = none := rfl
        rcases t with ⟨l, span, ps⟩
        cases l with
        | pattern form =>
            cases form with
            | property shorthand =>
                match ps, hproperty, hname with
                | [], _, hname => exact absurd (hnone.symm.trans hname) (by simp)
                | [key], _, hname => exact absurd (hnone.symm.trans hname) (by simp)
                | _ :: _ :: _, hproperty, _ => exact absurd rfl (hproperty _ _ _ _ _)
            | rest => exact absurd rfl hrest
            | _ => simp [Tree.isObjectPart] at hpart
        | _ => simp [Tree.isObjectPart] at hpart

/-! ### Names inside pieces -/

/-- A part that goes by its name carries what stands in it. -/
theorem exists_code_of_part {site : Option Span} {code : List (Role × Tree)} {s : Span}
    (hgoes : goes dead site = true)
    (h : ∀ n, site = some n → ∃ x ∈ code, s ∈ Binding.sites x.2) :
    ∃ x ∈ code.map fun (role, c) => Carried.mk site.toList role c,
      x.Goes dead ∧ s ∈ Binding.sites x.code := by
  cases hsite : site with
  | none => simp [hsite, goes] at hgoes
  | some n =>
      rcases h n hsite with ⟨x, hx, hs⟩
      rw [hsite] at hgoes
      exact ⟨_, List.mem_map.2 ⟨x, hx, rfl⟩, allDead_toList.2 hgoes, hs⟩

/-- In an object pattern, what stands in a part goes with the name of the part. -/
theorem exists_code_of_objectPart {span : Span} {ps : List Tree}
    (ht : (Tree.node (.pattern .object) span ps).inShape = true) {t : Tree} (hmem : t ∈ ps)
    (hgoes : goes dead (siteOf (Binding.objectPartTarget t)) = true) {s : Span}
    (hs : s ∈ Binding.sites t) :
    ∃ x ∈ targetCode (.node (.pattern .object) span ps),
      x.Goes dead ∧ s ∈ Binding.sites x.code := by
  rcases Tree.inShape_node.1 ht with ⟨hfits, hparts⟩
  have hpart : Tree.isObjectPart t.label = true := by
    simp only [Tree.fits, Bool.and_eq_true, List.all_eq_true] at hfits
    exact hfits.2 t hmem
  have hcode := exists_code_of_part hgoes fun n hn =>
    mem_code_of_objectPart (hparts t hmem) hpart hn hs
  rcases hcode with ⟨x, hx, hrest⟩
  exact ⟨x, List.mem_flatMap.2 ⟨t, hmem, hx⟩, hrest⟩

/-- In an array pattern, what stands in a place goes with the name of the place. -/
theorem exists_code_of_arrayPart {span : Span} {ps : List Tree}
    (ht : (Tree.node (.pattern .array) span ps).inShape = true) {t : Tree} (hmem : t ∈ ps)
    (hgoes : goes dead (siteOf (Binding.arrayPartTarget t)) = true) {s : Span}
    (hs : s ∈ Binding.sites t) :
    ∃ x ∈ targetCode (.node (.pattern .array) span ps),
      x.Goes dead ∧ s ∈ Binding.sites x.code := by
  have hparts := (Tree.inShape_node.1 ht).2
  have hname : ∀ n, siteOf (Binding.arrayPartTarget t) = some n →
      ∃ x ∈ (behindName t).map (Role.default, ·), s ∈ Binding.sites x.2 := by
    intro n hn
    rcases mem_code_of_arrayPart (hparts t hmem) hn hs with ⟨c, hc, hs⟩
    exact ⟨(.default, c), List.mem_map.2 ⟨c, hc, rfl⟩, hs⟩
  have hcode := exists_code_of_part hgoes hname
  rcases hcode with ⟨x, hx, hrest⟩
  rw [List.map_map] at hx
  exact ⟨x, List.mem_flatMap.2 ⟨t, hmem, hx⟩, hrest⟩

/-- In a target that goes with all its names, what stands in a part goes with the part's name. -/
theorem exists_code_of_target {t : Tree} (ht : t.inShape = true)
    (hdead : AllDead dead (Binding.targetSites t)) {s : Span} (hs : s ∈ Binding.sites t) :
    ∃ x ∈ targetCode t, x.Goes dead ∧ s ∈ Binding.sites x.code := by
  fun_cases Binding.declaratorTargets t with
  | case1 name span parts =>
      have hnone := sites_of_nameOf ht (x := (name, span)) rfl
      simp [hnone] at hs
  | case2 span parts =>
      rw [targetSites_object, allDead_partSites_iff] at hdead
      rcases mem_sites_part (by simp) hs with ⟨c, hc, hsc⟩
      exact exists_code_of_objectPart ht hc (hdead.2 c hc) hsc
  | case3 span parts =>
      rw [targetSites_array, allDead_partSites_iff] at hdead
      rcases mem_sites_part (by simp) hs with ⟨c, hc, hsc⟩
      cases hhole : Binding.isHole c with
      | true =>
          -- A hole has no parts.
          rcases c with ⟨l, inner, ps⟩
          obtain rfl : l = .expression .hole := by simpa [Binding.isHole] using hhole
          have hfits := (Tree.inShape_node.1 ((Tree.inShape_node.1 ht).2 _ hc)).1
          simp only [Tree.fits, Bool.and_eq_true, List.isEmpty_iff] at hfits
          rw [sites_of_plain (by simp), hfits.2] at hsc
          simp at hsc
      | false =>
          refine exists_code_of_arrayPart ht hc (hdead.2 c ?_) hsc
          exact List.mem_filter.2 ⟨hc, by simp [hhole]⟩
  | case4 t hname hobject harray =>
      have hnone : Binding.targetSites t = [] := by
        rw [Binding.targetSites, Binding.declaratorTargets]
        all_goals assumption
      exact absurd hnone hdead.1

/-- What stands in a declarator that goes with all its names is told by the closed list. -/
theorem exists_code_of_declarator {d : Tree} (hd : d.inShape = true)
    (hl : d.label ≠ .module .statements) (hdead : AllDead dead (Binding.targetSites (d.child 0)))
    {s : Span} (hs : s ∈ Binding.sites d) :
    ∃ x ∈ declaratorCode d, x.Goes dead ∧ s ∈ Binding.sites x.code := by
  rcases d with ⟨l, span, ps⟩
  rcases mem_sites_part (l := l) hl hs with ⟨c, hc, hsc⟩
  cases ps with
  | nil => simp at hc
  | cons target rest =>
      rcases List.mem_cons.1 hc with rfl | hc
      · have htarget := (Tree.inShape_node.1 hd).2 c List.mem_cons_self
        rcases exists_code_of_target htarget hdead hsc with ⟨x, hx, hrest⟩
        exact ⟨x, List.mem_append_right _ hx, hrest⟩
      · -- The type comes first and the initializer behind it.
        have hbehind : behindName (.node l span (target :: rest)) = rest := rfl
        rw [← List.take_append_drop 1 rest] at hc
        rcases List.mem_append.1 hc with hc | hc
        · refine ⟨⟨_, .declaredType, c⟩,
            List.mem_append_left _ (List.mem_append_left _ ?_), hdead, hsc⟩
          exact List.mem_map.2 ⟨c, hbehind ▸ hc, rfl⟩
        · refine ⟨⟨_, .initializer, c⟩,
            List.mem_append_left _ (List.mem_append_right _ ?_), hdead, hsc⟩
          exact List.mem_map.2 ⟨c, hbehind ▸ hc, rfl⟩

/-- What stands in a piece of a declarator is told by the closed list. -/
theorem exists_code_of_declaratorPiece {d : Tree} (hd : d.inShape = true)
    (hl : d.label ≠ .module .statements) {names : List Span} {code : Tree}
    (hpiece : (names, code) ∈ declaratorPieces d) (hdead : AllDead dead names) {s : Span}
    (hs : s ∈ Binding.sites code) :
    ∃ x ∈ declaratorCode d, x.Goes dead ∧ s ∈ Binding.sites x.code := by
  rcases List.mem_cons.1 hpiece with heq | hpiece
  · rcases Prod.mk.inj heq with ⟨rfl, rfl⟩
    exact exists_code_of_declarator hd hl hdead hs
  · have htarget := Tree.inShape_child hd 0
    suffices h : ∃ x ∈ targetCode (d.child 0), x.Goes dead ∧ s ∈ Binding.sites x.code by
      rcases h with ⟨x, hx, hrest⟩
      exact ⟨x, List.mem_append_right _ hx, hrest⟩
    generalize d.child 0 = target at htarget hpiece
    fun_cases targetPieces target with
    | case1 span parts =>
        rcases List.mem_map.1 hpiece with ⟨t, ht, heq⟩
        rcases Prod.mk.inj heq with ⟨rfl, rfl⟩
        exact exists_code_of_objectPart htarget ht (allDead_toList.1 hdead) hs
    | case2 span parts =>
        rcases List.mem_map.1 hpiece with ⟨t, ht, heq⟩
        rcases Prod.mk.inj heq with ⟨rfl, rfl⟩
        have hmem := List.mem_of_mem_filter ht
        exact exists_code_of_arrayPart htarget hmem (allDead_toList.1 hdead) hs
    | case3 target hobject harray =>
        rw [targetPieces] at hpiece
        · simp at hpiece
        all_goals assumption

/-- An assignment of a function has nothing in it but the function. -/
theorem mem_code_of_assigned {span : Span} {e : Tree} (ht : e.inShape = true)
    {x : String × Span × Span} (h : Binding.assignedFunction? e = some x) {s : Span}
    (hs : s ∈ Binding.sites (.node (.statement .expression) span [e])) :
    s ∈ Binding.sites (e.child 1) := by
  fun_cases Binding.assignedFunction? e with
  | case1 inner name usage site ps value hvalue =>
      have hfits := (Tree.inShape_node.1 ((Tree.inShape_node.1 ht).2 _ List.mem_cons_self)).1
      simp only [Tree.fits, Bool.and_eq_true, List.isEmpty_iff] at hfits
      have hinner : s ∈ Binding.sites value := by
        simpa [sites_of_plain, hfits.2] using hs
      exact hinner
  | case2 inner name usage site ps value hvalue => simp [Binding.assignedFunction?, hvalue] at h
  | case3 e hother =>
      rw [Binding.assignedFunction?] at h
      · cases h
      · exact hother

/-- What stands in a piece of a statement is told by the closed list. -/
theorem exists_code_of_statementPiece {t : Tree} (ht : t.inShape = true)
    (himport : importedSites t = []) {names : List Span} {code : Tree}
    (hpiece : (names, code) ∈ statementPieces t) (hdead : AllDead dead names) {s : Span}
    (hs : s ∈ Binding.sites code) :
    ∃ x ∈ statementCode t, x.Goes dead ∧ s ∈ Binding.sites x.code := by
  fun_cases statementPieces t with
  | case1 kind declared span declarators =>
      rcases List.mem_flatMap.1 hpiece with ⟨d, hd, hpiece⟩
      rcases Tree.inShape_part ht rfl hd with ⟨hshape, hl⟩
      rcases exists_code_of_declaratorPiece hshape hl hpiece hdead hs with ⟨x, hx, hrest⟩
      exact ⟨x, List.mem_flatMap.2 ⟨d, hd, hx⟩, hrest⟩
  | case2 typeOnly phase span clauseSpan specifiers rest =>
      -- The import itself and its specifiers: neither holds a statement.
      have hnone : s ∉ (.node (.module .importClause) clauseSpan specifiers :: rest).flatMap
          Binding.sites := by
        rw [importedSites] at himport
        simp [himport]
      refine absurd ?_ hnone
      rcases List.mem_cons.1 hpiece with heq | hpiece
      · rcases Prod.mk.inj heq with ⟨-, rfl⟩
        rwa [sites_of_plain (by simp)] at hs
      · rcases List.mem_map.1 hpiece with ⟨specifier, hspecifier, heq⟩
        rcases Prod.mk.inj heq with ⟨-, rfl⟩
        refine List.mem_flatMap.2 ⟨_, List.mem_cons_self, ?_⟩
        rw [sites_of_plain (by simp)]
        exact List.mem_flatMap.2 ⟨_, hspecifier, hs⟩
  | case3 t hvariables himports =>
      rw [statementPieces] at hpiece
      · rcases Prod.mk.inj (List.mem_singleton.1 hpiece) with ⟨rfl, rfl⟩
        fun_cases statementCode code with
        | case1 kind declared span declarators => exact absurd rfl (hvariables _ _ _ _)
        | case2 span e =>
            have he := (Tree.inShape_node.1 ht).2 e List.mem_cons_self
            cases hassigned : Binding.assignedFunction? e with
            | none => simp [AllDead, Binding.statementSites, hassigned] at hdead
            | some x =>
                rw [Binding.statementSites, hassigned] at hdead
                exact ⟨_, List.mem_singleton_self _, hdead, mem_code_of_assigned he hassigned hs⟩
        | case3 typeOnly phase span parts =>
            rw [importedSites] at himport
            rw [sites_of_plain (by simp), himport] at hs
            simp at hs
        | case4 hlist hexpression hother => exact ⟨_, List.mem_singleton_self _, hdead, hs⟩
      all_goals assumption

/-- What stands in a piece that goes stands in code that goes with names. -/
theorem exists_code_of_piece {a : Around} {t : Tree} (ht : t.inShape = true)
    (himports : BareImports t) {p : Piece} (hp : p ∈ gather pieceRule a t) (hgone : p.Gone dead)
    {s : Span} (hs : s ∈ Binding.sites p.code) :
    ∃ x ∈ carried t, x.Goes dead ∧ s ∈ Binding.sites x.code := by
  induction t using Tree.induct generalizing a with
  | node l span ps ih =>
      have hparts := (Tree.inShape_node.1 ht).2
      rcases Binding.gather_listRule_eq_nil_iff.1 himports with ⟨hown, hinner⟩
      rcases mem_pieces_node.1 hp with ⟨hl, -, c, hc, hpiece⟩ | ⟨i, c, hc, hp⟩
      · have hcode := exists_code_of_statementPiece (hparts c hc) (hown hl.1 c hc) hpiece hgone hs
        rcases hcode with ⟨x, hx, hrest⟩
        exact ⟨x, mem_gather_listRule.2 (Or.inl ⟨hl.1, c, hc, hx⟩), hrest⟩
      · have hmem := List.mem_of_getElem? hc
        have hsearched := (searched_of_piece hp).1
        rw [inside_searched hc] at hsearched
        have hpart := (Bool.and_eq_true_iff.1 hsearched).2
        rcases ih c hmem (hparts c hmem) (hinner c hmem hpart) hp with ⟨x, hx, hrest⟩
        exact ⟨x, mem_gather_listRule.2 (Or.inr ⟨c, hmem, hpart, hx⟩), hrest⟩

/-! ## Part of a table -/

/-- A place is dead if one of the dead bindings stands there. -/
theorem isDead_iff {s : Span} : isDead dead s = true ↔ ∃ b ∈ dead, b.site = s := by
  simp [isDead, List.any_eq_true]

/-- The bindings of any part of a table can be removed, each of them once and under the name and
kind that it has in the table. None of their names is left, and no other name goes but those inside
code that goes with them: a function, an initializer, the type of a declarator, a default or a
key. -/
theorem removeBindings_collected (root : Tree) (bindings dead : List Binding)
    (hshape : root.inShape = true) (himports : BareImports root)
    (hsites : (Binding.sites root).Nodup) (hcollect : Binding.collect root = .ok bindings)
    (hsub : dead ⊆ bindings) (hnodup : dead.Nodup) :
    ∃ root' log, removeBindings dead root = .ok (root', log) ∧
      log.Perm (dead.map fun b => ⟨b.name, b.kind⟩) ∧
      (∀ b ∈ dead, b.site ∉ Binding.sites root') ∧
      ∀ s ∈ Binding.sites root, (∀ b ∈ dead, b.site ≠ s) → s ∉ Binding.sites root' →
        ∃ x ∈ carried root, x.names ≠ [] ∧ (∀ n ∈ x.names, ∃ b ∈ dead, b.site = n) ∧
          s ∈ Binding.sites x.code := by
  have hsupported : Binding.Supported root := Binding.collect_isOk_iff.1 ⟨bindings, hcollect⟩
  rcases Binding.collect_spec hcollect with ⟨hunique, hgathered⟩
  have hdistinct : Binding.Unique dead := by
    refine hnodup.imp_of_mem fun hx hy hne hsite => hne ?_
    exact hunique.eq_of_site (hsub hx) (hsub hy) hsite
  have hlog : (removeIn dead root).2.Perm (dead.map entryOf) := by
    refine record_perm_entries ⟨hshape, hsupported, hsites⟩ hdistinct fun b hb => ?_
    exact site_mem_of_binding (hgathered (hsub hb))
  refine ⟨prune dead root, (removeIn dead root).2, ?_, hlog, ?_, ?_⟩
  · have hlength : (removeIn dead root).2.length = dead.length := by simpa using hlog.length_eq
    rw [removeBindings_eq hshape hsupported, if_pos (by simp [hlength])]
    rfl
  · intro b hb hmem
    have halive := sites_prune_alive hshape hmem
    rw [isDead_iff.2 ⟨b, hb, rfl⟩] at halive
    cases halive
  · intro s hs hother hgone
    rcases (mem_sites_prune_iff hshape hsites hs).1 hgone with hdead | ⟨p, hp, hpgone, hmem⟩
    · rcases isDead_iff.1 hdead with ⟨b, hb, hsite⟩
      exact absurd hsite (hother b hb)
    · rcases exists_code_of_piece hshape himports hp hpgone hmem with ⟨x, hx, ⟨hne, hall⟩, hs⟩
      exact ⟨x, hx, hne, fun n hn => isDead_iff.1 (hall n hn), hs⟩

/-- A function goes, and the constant in it with it. -/
theorem removeBindings_collected_nestedConstant :
    nestedConstant.inShape = true ∧ BareImports nestedConstant ∧
      (Binding.sites nestedConstant).Nodup ∧
      ∃ bindings f, Binding.collect nestedConstant = .ok bindings ∧ [f] ⊆ bindings ∧
        [f].Nodup ∧ ∃ root' log, removeBindings [f] nestedConstant = .ok (root', log) ∧
          log.Perm [⟨"f", .function⟩] ∧ ⟨9, 10⟩ ∉ Binding.sites root' ∧
          (⟨21, 22⟩ ∉ Binding.sites root' → ∃ x ∈ carried nestedConstant, x.names ≠ [] ∧
            (∀ n ∈ x.names, n = ⟨9, 10⟩) ∧ ⟨21, 22⟩ ∈ Binding.sites x.code) := by
  have hshape : nestedConstant.inShape = true := by decide
  have himports : BareImports nestedConstant := rfl
  have hsites : (Binding.sites nestedConstant).Nodup := by decide
  have hcollect : Binding.collect nestedConstant =
      .ok [⟨"f", .function, ⟨9, 10⟩, ⟨0, 29⟩, ⟨"f", ⟨9, 10⟩⟩⟩,
        ⟨"x", .variable, ⟨21, 22⟩, ⟨21, 22⟩, ⟨"x", ⟨21, 22⟩⟩⟩] := by rfl
  have hsub : [⟨"f", .function, ⟨9, 10⟩, ⟨0, 29⟩, ⟨"f", ⟨9, 10⟩⟩⟩] ⊆
      [(⟨"f", .function, ⟨9, 10⟩, ⟨0, 29⟩, ⟨"f", ⟨9, 10⟩⟩⟩ : Binding),
        ⟨"x", .variable, ⟨21, 22⟩, ⟨21, 22⟩, ⟨"x", ⟨21, 22⟩⟩⟩] := by simp
  rcases removeBindings_collected nestedConstant _ _ hshape himports hsites hcollect hsub
    (List.nodup_singleton _) with ⟨root', log, hremoved, hlog, hgone, hrest⟩
  refine ⟨hshape, himports, hsites, _, _, hcollect, hsub, List.nodup_singleton _, root', log,
    hremoved, hlog, hgone _ List.mem_cons_self, fun hmissing => ?_⟩
  rcases hrest ⟨21, 22⟩ (by decide) (by simp) hmissing with ⟨x, hx, hne, hall, hs⟩
  refine ⟨x, hx, hne, fun n hn => ?_, hs⟩
  rcases hall n hn with ⟨b, hb, rfl⟩
  rw [List.mem_singleton.1 hb]

/-! ### Code in types -/

/-- `const a: { [(() => { const b = 1; })()]: any } = 0;` -/
def annotatedConstant : Tree :=
  let leaf (label : Label) (start stop : Nat) : Tree := .node label ⟨start, stop⟩ []
  let constant (span declarator : Span) (name type value : Tree) : Tree :=
    .node (.statement (.variableList .constVariable false)) span
      [.node (.statement (.declarator false)) declarator [name, type, value]]
  let inner : Tree :=
    constant ⟨21, 33⟩ ⟨27, 32⟩ (leaf (.pattern (.binding "b")) 27 28) .absent
      (leaf (.expression (.number "1")) 31 32)
  let function : Tree :=
    .node (.function (.arrow {})) ⟨13, 35⟩
      [.absent, leaf (.function .parameters) 13 15, .absent,
        .node (.function .body) ⟨19, 35⟩
          [leaf (.module .prologue) 21 21, .node (.module .statements) ⟨21, 33⟩ [inner]]]
  let type : Tree :=
    .node (.type .object) ⟨9, 46⟩
      [.node (.type (.property true false false)) ⟨11, 44⟩
        [.node (.expression (.call false false)) ⟨12, 38⟩
          [.node (.expression .paren) ⟨12, 36⟩ [function], .absent,
            leaf (.expression .arguments) 36 38],
          leaf (.type (.keyword "any")) 41 44]]
  .node (.module (.program none false)) ⟨0, 51⟩
    [leaf (.module .prologue) 0 0,
      .node (.module .statements) ⟨0, 51⟩
        [constant ⟨0, 51⟩ ⟨6, 50⟩ (leaf (.pattern (.binding "a")) 6 7) type
          (leaf (.expression (.number "0")) 49 50)]]

/-- The constant in the type goes with the other one, and it stands in no function that goes, in no
initializer, default or key. -/
theorem constant_gone_with_type :
    annotatedConstant.inShape = true ∧ (Binding.sites annotatedConstant).Nodup ∧
      ∃ bindings a root' log, Binding.collect annotatedConstant = .ok bindings ∧ a ∈ bindings ∧
        removeBindings [a] annotatedConstant = .ok (root', log) ∧
        ⟨27, 28⟩ ∈ Binding.sites annotatedConstant ∧ a.site ≠ ⟨27, 28⟩ ∧
        ⟨27, 28⟩ ∉ Binding.sites root' ∧
        ¬∃ x ∈ carried annotatedConstant, x.role ≠ .declaredType ∧ x.names ≠ [] ∧
          (∀ n ∈ x.names, n = a.site) ∧ ⟨27, 28⟩ ∈ Binding.sites x.code := by
  have hcollect : Binding.collect annotatedConstant =
      .ok [⟨"a", .variable, ⟨6, 7⟩, ⟨6, 7⟩, ⟨"a", ⟨6, 7⟩⟩⟩,
        ⟨"b", .variable, ⟨27, 28⟩, ⟨27, 28⟩, ⟨"b", ⟨27, 28⟩⟩⟩] := by rfl
  have hremoved : removeBindings [⟨"a", .variable, ⟨6, 7⟩, ⟨6, 7⟩, ⟨"a", ⟨6, 7⟩⟩⟩]
      annotatedConstant = .ok (.node (.module (.program none false)) ⟨0, 51⟩
        [.node (.module .prologue) ⟨0, 0⟩ [], .node (.module .statements) ⟨0, 51⟩ []],
        [⟨"a", .variable⟩]) := by rfl
  refine ⟨by decide, by decide, _, _, _, _, hcollect, List.mem_cons_self, hremoved, by decide,
    by decide, by decide, by decide⟩

end RouteSplit.Sweep
