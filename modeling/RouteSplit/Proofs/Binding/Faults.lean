import RouteSplit.Proofs.Binding.Collected
import RouteSplit.Proofs.Sweep.Sites

/-!
# Faults

A target may be a name, or a pattern whose parts are names, with or without a default, and a rest
that is a name. Anything else is a fault, and collecting reports the first one that it meets.

- `SupportedTarget`: the targets that are understood;
- `Listed`: a statement that stands in a list;
- `faults`: the faults of a tree, those of a list before those of the lists inside it;
- `Reports`: failing with the first of some faults, or working where there are none;
- `reports_collect`: collecting reports the faults of its tree;
- `faults_eq_nil_iff`: a tree has none if the targets in all its lists are understood.
-/

namespace RouteSplit.Binding

open Scope Sweep

/-! ## Targets -/

/-- A part of a target that is not understood: what it is called, and its place. -/
structure Fault where
  shape : String
  span : Span
deriving DecidableEq, Repr

def Fault.error (f : Fault) : PassError := .unsupportedPattern f.shape f.span

/-- A target that is nothing but a name. -/
inductive IsName : Tree → Prop
  | name {name : String} {span : Span} {parts : List Tree} :
      IsName (.node (.pattern (.binding name)) span parts)

/-- An element of a pattern that binds a name directly: `a` or `a = 1`. -/
inductive SupportedElement : Tree → Prop
  | name {t : Tree} : IsName t → SupportedElement t
  | withDefault {span : Span} {t : Tree} {rest : List Tree} :
      IsName t → SupportedElement (.node (.pattern .withDefault) span (t :: rest))

/-- A target that is understood: a name, or a pattern of elements with a name each. -/
inductive SupportedTarget : Tree → Prop
  | name {t : Tree} : IsName t → SupportedTarget t
  | object {span : Span} {parts : List Tree} :
      (∀ t ∈ parts, if isRest t then IsName (t.child 0) else SupportedElement (t.child 1)) →
      SupportedTarget (.node (.pattern .object) span parts)
  | array {span : Span} {parts : List Tree} :
      (∀ t ∈ parts, isHole t = false →
        if isRest t then IsName (t.child 0) else SupportedElement t) →
      SupportedTarget (.node (.pattern .array) span parts)

/-- The fault of an element of a pattern. -/
def elementFaults : Tree → List Fault
  | .node (.pattern (.binding _)) _ _ => []
  | .node (.pattern .withDefault) _ (.node (.pattern (.binding _)) _ _ :: _) => []
  | .node (.pattern .withDefault) span (_ :: _) => [⟨"nested destructuring with default", span⟩]
  | .node (.pattern .object) span _ => [⟨"nested object destructuring", span⟩]
  | t => [⟨"nested array destructuring", t.span⟩]

/-- The fault of the rest of a pattern. -/
def restFaults (t : Tree) : List Fault :=
  match t.child 0 with
  | .node (.pattern (.binding _)) _ _ => []
  | _ => [⟨"rest element target", t.span⟩]

def objectPartFaults (t : Tree) : List Fault :=
  if isRest t then restFaults t else elementFaults (t.child 1)

def arrayPartFaults (t : Tree) : List Fault :=
  if isRest t then restFaults t else elementFaults t

/-- The faults of a declarator's target, from left to right. -/
def targetFaults : Tree → List Fault
  | .node (.pattern (.binding _)) _ _ => []
  | .node (.pattern .object) _ parts => parts.flatMap objectPartFaults
  -- A hole binds nothing and is no fault.
  | .node (.pattern .array) _ parts => (parts.filter fun t => !isHole t).flatMap arrayPartFaults
  | t => [⟨"declarator target", t.span⟩]

/-- An element without a fault binds one name directly, with or without a default. -/
theorem elementFaults_eq_nil_iff {t : Tree} : elementFaults t = [] ↔ SupportedElement t := by
  constructor
  · intro h
    fun_cases elementFaults t with
    | case1 name span parts => exact .name .name
    | case2 span name inner parts rest => exact .withDefault .name
    -- A default that belongs to no plain name, a nested pattern, and anything else are each a
    -- fault.
    | case3 span t rest hname => simp [elementFaults] at h
    | case4 span parts => simp [elementFaults] at h
    | case5 t hname hdefault hother hobject =>
        rw [elementFaults] at h
        · simp at h
        all_goals assumption
  · intro h
    cases h with
    | name h =>
        cases h
        rfl
    | withDefault h =>
        cases h
        rfl

/-- The rest of a pattern is without a fault if it is a name. -/
theorem restFaults_eq_nil_iff {t : Tree} : restFaults t = [] ↔ IsName (t.child 0) := by
  unfold restFaults
  generalize t.child 0 = c
  constructor
  · intro h
    split at h
    · exact .name
    · simp at h
  · intro h
    cases h
    rfl

theorem objectPartFaults_eq_nil_iff {t : Tree} :
    objectPartFaults t = [] ↔
      if isRest t then IsName (t.child 0) else SupportedElement (t.child 1) := by
  unfold objectPartFaults
  split_ifs
  · exact restFaults_eq_nil_iff
  · exact elementFaults_eq_nil_iff

theorem arrayPartFaults_eq_nil_iff {t : Tree} :
    arrayPartFaults t = [] ↔ if isRest t then IsName (t.child 0) else SupportedElement t := by
  unfold arrayPartFaults
  split_ifs
  · exact restFaults_eq_nil_iff
  · exact elementFaults_eq_nil_iff

/-- The targets without a fault are those that are understood. -/
theorem targetFaults_eq_nil_iff {t : Tree} : targetFaults t = [] ↔ SupportedTarget t := by
  constructor
  · intro h
    fun_cases targetFaults t with
    | case1 name span parts => exact .name .name
    | case2 span parts =>
        rw [targetFaults, List.flatMap_eq_nil_iff] at h
        exact .object fun c hc => objectPartFaults_eq_nil_iff.1 (h c hc)
    | case3 span parts =>
        rw [targetFaults, List.flatMap_eq_nil_iff] at h
        refine .array fun c hc hhole => arrayPartFaults_eq_nil_iff.1 (h c ?_)
        exact List.mem_filter.2 ⟨hc, by simp [hhole]⟩
    | case4 t hname hobject harray =>
        rw [targetFaults] at h
        · simp at h
        all_goals assumption
  · intro h
    cases h with
    | name h =>
        cases h
        rfl
    | object h =>
        rw [targetFaults, List.flatMap_eq_nil_iff]
        exact fun c hc => objectPartFaults_eq_nil_iff.2 (h c hc)
    | array h =>
        rw [targetFaults, List.flatMap_eq_nil_iff]
        intro c hc
        rcases List.mem_filter.1 hc with ⟨hc, hhole⟩
        exact arrayPartFaults_eq_nil_iff.2 (h c hc (by simpa using hhole))

/-! ## Lists -/

/-- `t` stands in a statement list of the tree: that of a program, of a function's body, of a block,
of a case, of a static block or of a namespace. Lists inside the types around an arrow function that
has an expression for its body do not count, since they are not searched. -/
inductive Listed (t : Tree) : Tree → Prop
  | here {l : Label} {s inner : Span} {ps ts : List Tree} : Tree.holdsList l = true →
      .node (.module .statements) inner ts ∈ ps → t ∈ ts → Listed t (.node l s ps)
  | inside {l : Label} {s : Span} {ps : List Tree} {c : Tree} :
      c ∈ ps → searches l c.label = true → Listed t c → Listed t (.node l s ps)

/-- The declarators of a statement. -/
def declaratorsOf : Tree → List Tree
  | .node (.statement (.variableList _ _)) _ ds => ds
  | _ => []

/-- The faults of a statement, from left to right. -/
def statementFaults (t : Tree) : List Fault :=
  (declaratorsOf t).flatMap fun d => targetFaults (d.child 0)

abbrev faultRule : Rule Fault := listRule statementFaults

/-- The faults of a tree in the lists that are searched, those of a list before those of the lists
inside it. -/
def faults (root : Tree) : List Fault := gather faultRule {} root

theorem statementFaults_eq_nil {t : Tree}
    (h : ∀ k b s ds, t ≠ .node (.statement (.variableList k b)) s ds) : statementFaults t = [] := by
  rw [statementFaults, declaratorsOf]
  · rfl
  · exact h

/-- A statement without a fault declares nothing but targets that are understood. -/
theorem statementFaults_eq_nil_iff {t : Tree} :
    statementFaults t = [] ↔ ∀ d ∈ declaratorsOf t, SupportedTarget (d.child 0) := by
  rw [statementFaults, List.flatMap_eq_nil_iff]
  exact forall₂_congr fun d _ => targetFaults_eq_nil_iff

/-- A node that has a list for a part is one that holds lists. -/
theorem holdsList_of_part {l : Label} {ps : List Tree} (h : Tree.fits l ps = true) {c : Tree}
    (hc : c ∈ ps) (hlist : c.label = .module .statements) : Tree.holdsList l = true := by
  by_contra hl
  exact Tree.fits_part h (by simpa using hl) hc hlist

/-- Every part of a node that holds a list is searched. -/
theorem searches_of_holdsList {l : Label} (h : Tree.holdsList l = true) (part : Label) :
    searches l part = true := by
  refine searches_of_ne (fun traits hl => ?_) part
  subst hl
  simp [Tree.holdsList] at h

/-- What is told of the lists of a tree is told of the statements that stand in one, the tree's own
statements apart if it is a list itself. -/
theorem mem_gather_listRule_iff {α : Type} {f : Tree → List α} {t : Tree}
    (ht : t.inShape = true) {x : α} :
    x ∈ gather (listRule f) {} t ↔
      (t.label = .module .statements ∧ ∃ c ∈ t.children, x ∈ f c) ∨
        ∃ u, Listed u t ∧ x ∈ f u := by
  induction t using Tree.induct with
  | node l s ps ih =>
      rcases Tree.inShape_node.1 ht with ⟨hfits, hparts⟩
      rw [mem_gather_listRule]
      refine or_congr Iff.rfl ?_
      constructor
      · -- A part that is a list has its statements stand in one, and the shape says who holds it.
        rintro ⟨c, hc, hsearched, hx⟩
        rcases (ih c hc (hparts c hc)).1 hx with ⟨hlist, u, hu, hxu⟩ | ⟨u, hu, hxu⟩
        · rcases c with ⟨l', inner, ts⟩
          obtain rfl : l' = .module .statements := hlist
          exact ⟨u, .here (holdsList_of_part hfits hc rfl) hc hu, hxu⟩
        · exact ⟨u, .inside hc hsearched hu, hxu⟩
      · rintro ⟨u, hu, hx⟩
        cases hu with
        | here hl hlist hu =>
            refine ⟨_, hlist, searches_of_holdsList hl _, ?_⟩
            exact mem_gather_listRule.2 (Or.inl ⟨rfl, u, hu, hx⟩)
        | inside hc hsearched hu =>
            exact ⟨_, hc, hsearched, (ih _ hc (hparts _ hc)).2 (Or.inr ⟨u, hu, hx⟩)⟩

/-- A tree has no fault if the targets in all its lists are understood. -/
theorem faults_eq_nil_iff {t : Tree} (ht : t.inShape = true)
    (hl : t.label ≠ .module .statements) :
    faults t = [] ↔ ∀ u, Listed u t → ∀ d ∈ declaratorsOf u, SupportedTarget (d.child 0) := by
  have hmem : ∀ f, f ∈ faults t ↔ ∃ u, Listed u t ∧ f ∈ statementFaults u := by
    intro f
    rw [faults, mem_gather_listRule_iff ht]
    simp [hl]
  simp only [← statementFaults_eq_nil_iff, List.eq_nil_iff_forall_not_mem, hmem]
  constructor
  · intro h u hu f hf
    exact h f ⟨u, hu, hf⟩
  · rintro h f ⟨u, hu, hf⟩
    exact h u hu f hf

/-! ## Reports -/

section Reports

variable {α β : Type} {x : Except PassError α} {fs gs : List Fault}

/-- `x` fails with the first of the faults, and works if there is none. -/
def Reports (x : Except PassError α) : List Fault → Prop
  | [] => ∃ a, x = .ok a
  | f :: _ => x = .error f.error

/-- Of two steps, the second one reports only where the first one has nothing to report. -/
theorem Reports.bind (hx : Reports x fs) {g : α → Except PassError β}
    (hg : ∀ a, x = .ok a → Reports (g a) gs) : Reports (x >>= g) (fs ++ gs) := by
  cases fs with
  | nil =>
      rcases hx with ⟨a, rfl⟩
      exact hg a rfl
  | cons f fs =>
      obtain rfl : x = .error f.error := hx
      rfl

/-- What follows a report and cannot fail leaves the report. -/
theorem Reports.andThen (hx : Reports x fs) {g : α → Except PassError β}
    (hg : ∀ a, x = .ok a → ∃ b, g a = .ok b) : Reports (x >>= g) fs := by
  have h : Reports (x >>= g) (fs ++ []) := hx.bind hg
  rwa [List.append_nil] at h

theorem Reports.map (hx : Reports x fs) (g : α → β) : Reports (x.map g) fs := by
  have h := hx.andThen (g := fun a => .ok (g a)) fun a _ => ⟨g a, rfl⟩
  cases x <;> exact h

/-- The reports of a list of items, one after the other. -/
theorem Reports.mapM {ps : List α} {f : α → Except PassError β} {g : α → List Fault}
    (h : ∀ p ∈ ps, Reports (f p) (g p)) : Reports (ps.mapM f) (ps.flatMap g) := by
  induction ps with
  | nil => exact ⟨[], rfl⟩
  | cons p ps ih =>
      rw [List.mapM_cons, List.flatMap_cons]
      -- The other items are looked at only if the first one has no fault.
      refine (h p List.mem_cons_self).bind fun b _ => ?_
      refine (ih fun q hq => h q (List.mem_cons_of_mem _ hq)).andThen fun bs _ => ?_
      exact ⟨b :: bs, rfl⟩

/-- What reports faults works if and only if there are none. -/
theorem Reports.isOk_iff (hx : Reports x fs) : (∃ a, x = .ok a) ↔ fs = [] := by
  cases fs with
  | nil => exact iff_of_true hx rfl
  | cons f fs =>
      obtain rfl : x = .error f.error := hx
      simp

end Reports

theorem reports_elementTarget (t : Tree) : Reports (elementTarget t) (elementFaults t) := by
  fun_cases elementFaults t with
  | case1 name span parts => exact ⟨_, rfl⟩
  | case2 span name inner parts rest => exact ⟨_, rfl⟩
  | case3 span t rest hname =>
      -- The default stands behind no plain name, so both report the pattern that it belongs to.
      have hnone : nameOf t = none := by
        rw [nameOf]
        exact hname
      rw [elementTarget, hnone]
      rfl
  | case4 span parts => rfl
  | case5 t hname hdefault hother hobject =>
      rw [elementTarget]
      · rfl
      · exact hname
      · exact hother
      · exact hobject

theorem reports_restTarget (t : Tree) : Reports (restTarget t) (restFaults t) := by
  unfold restFaults
  split
  · rename_i hname
    rw [restTarget, hname]
    exact ⟨_, rfl⟩
  · rename_i hname
    have hnone : nameOf (t.child 0) = none := by
      rw [nameOf]
      exact hname
    rw [restTarget, hnone]
    rfl

theorem reports_objectPartTarget (t : Tree) :
    Reports (objectPartTarget t) (objectPartFaults t) := by
  unfold objectPartTarget objectPartFaults
  split_ifs
  · exact reports_restTarget t
  · exact reports_elementTarget _

theorem reports_arrayPartTarget (t : Tree) : Reports (arrayPartTarget t) (arrayPartFaults t) := by
  unfold arrayPartTarget arrayPartFaults
  split_ifs
  · exact reports_restTarget t
  · exact reports_elementTarget t

/-- A target is refused for the first part that is not understood. -/
theorem reports_declaratorTargets (t : Tree) :
    Reports (declaratorTargets t) (targetFaults t) := by
  fun_cases targetFaults t with
  | case1 name span parts => exact ⟨_, rfl⟩
  | case2 span parts => exact Reports.mapM fun c _ => reports_objectPartTarget c
  | case3 span parts => exact Reports.mapM fun c _ => reports_arrayPartTarget c
  | case4 t hname hobject harray =>
      rw [declaratorTargets]
      · rfl
      all_goals assumption

theorem reports_ofDeclarator (table : Table) (d : Tree) :
    Reports (ofDeclarator table d) (targetFaults (d.child 0)) := by
  refine (reports_declaratorTargets (d.child 0)).andThen fun targets _ => ?_
  split
  · split_ifs <;> exact ⟨_, rfl⟩
  · exact ⟨_, rfl⟩

/-- Collecting a statement reports the first fault of its declarators. -/
theorem reports_ofStatement (table : Table) (env : Env) (t : Tree) :
    Reports (ofStatement table env t) (statementFaults t) := by
  by_cases hvariables : ∃ k b s ds, t = .node (.statement (.variableList k b)) s ds
  · rcases hvariables with ⟨k, b, s, ds, rfl⟩
    refine (Reports.mapM fun d _ => reports_ofDeclarator table d).andThen fun lists _ => ?_
    exact ⟨_, rfl⟩
  · have hnone : statementFaults t = [] := by
      refine statementFaults_eq_nil fun k b s ds heq => ?_
      exact hvariables ⟨k, b, s, ds, heq⟩
    rw [hnone]
    -- Only variable declarations look at targets, so every other case works.
    fun_cases ofStatement table env t with
    | case3 k b s ds => exact absurd ⟨k, b, s, ds, rfl⟩ hvariables
    | _ => exact ⟨_, rfl⟩

theorem reports_ofList (table : Table) (a : Around) (l : Label) (s : Span) (ps : List Tree) :
    Reports (ofList table a l ps) (faultRule a l s ps) := by
  unfold faultRule listRule ofList
  by_cases hl : l = .module .statements ∧ a.searched
  · rw [if_pos (by simpa using hl), if_pos hl]
    refine (Reports.mapM fun c _ => reports_ofStatement table a.env c).andThen fun lists _ => ?_
    exact ⟨_, rfl⟩
  · rw [if_neg (by simpa using hl), if_neg hl]
    exact ⟨_, rfl⟩

mutual

/-- Collecting a tree reports the first of its faults in the order in which lists are met. -/
theorem reports_collectIn (table : Table) (a : Around) : (t : Tree) →
    Reports (collectIn table a t) (gather faultRule a t)
  | .node l s ps => by
    rw [collectIn, gather]
    refine (reports_ofList table a l s ps).bind fun own _ => ?_
    exact (reports_collectAll table (a.inside l s ps) 0 ps).andThen fun inner _ => ⟨_, rfl⟩

theorem reports_collectAll (table : Table) (a : Nat → Around) (i : Nat) : (ps : List Tree) →
    Reports (collectAll table a i ps) (gatherAll faultRule a i ps)
  | [] => ⟨_, rfl⟩
  | t :: ts => by
    rw [collectAll, gatherAll]
    refine (reports_collectIn table (a i) t).bind fun first _ => ?_
    exact (reports_collectAll table a (i + 1) ts).andThen fun rest _ => ⟨_, rfl⟩

end

/-- Collecting reports the faults of its tree. -/
theorem reports_collect (root : Tree) : Reports (collect root) (faults root) :=
  (reports_collectIn (tableOf root) {} root).map keyed

end RouteSplit.Binding
