import RouteSplit.Proofs.Sweep.WellFormed
import RouteSplit.Proofs.Transform.Module

/-!
# The code that goes with an export

Resolving the exports of a module takes statements out of it, and names and variables out of
statements. What is told of the module before falls apart into what is told of it afterwards and
what is told of the code that went.

- `Parted`: a list falls apart into what is left of it, in its order, and the rest;
- `goneCode`: the code that the bundle leaves out;
- `Spread`, `Shared`: rules that tell of exports, or also of statement lists, what they tell of the
  parts;
- `gather_excise`, `gather_resolve`: the parting, for a statement and for a module;
- `parted_lists_resolve`: the parting, for what is told of statement lists;
- `separate_resolve`: what lies apart in a module still does in what is left of it.
-/

namespace RouteSplit

open Scope Sweep Export

/-! ## Lists that fall apart -/

/-- `ys` is what is left of `xs`, in its order, and `ls` is the rest. -/
def Parted {α : Type} (xs ys ls : List α) : Prop := ys.Sublist xs ∧ xs.Perm (ys ++ ls)

namespace Parted

variable {α β : Type} {xs ys ls xs' ys' ls' : List α}

/-- All of a list stays. -/
theorem whole (xs : List α) : Parted xs xs [] := ⟨List.Sublist.refl xs, by simp⟩

/-- All of a list goes. -/
theorem none (xs : List α) : Parted xs [] xs := ⟨List.nil_sublist xs, by simp⟩

theorem filter (p : α → Bool) (xs : List α) :
    Parted xs (xs.filter p) (xs.filter fun x => !p x) :=
  ⟨List.filter_sublist, (List.filter_append_perm p xs).symm⟩

/-- What is parted can be put one behind the other. -/
theorem append (h : Parted xs ys ls) (h' : Parted xs' ys' ls') :
    Parted (xs ++ xs') (ys ++ ys') (ls ++ ls') := by
  classical
  refine ⟨h.1.append h'.1, ?_⟩
  have hperm := h.2
  have hperm' := h'.2
  simp only [List.perm_iff_count, List.count_append] at hperm hperm' ⊢
  intro x
  have hx := hperm x
  have hx' := hperm' x
  omega

/-- What is told of items is parted as each item parts what is told of it. -/
theorem flatMap {items : List β} {f g k : β → List α}
    (h : ∀ b ∈ items, Parted (f b) (g b) (k b)) :
    Parted (items.flatMap f) (items.flatMap g) (items.flatMap k) := by
  induction items with
  | nil => exact whole []
  | cons b bs ih =>
      simp only [List.flatMap_cons]
      exact (h b List.mem_cons_self).append (ih fun c hc => h c (List.mem_cons_of_mem b hc))

/-- Where items are parted, so is what is told of them. -/
theorem flatMap_items {items kept lost : List β} (h : Parted items kept lost) (f : β → List α) :
    Parted (items.flatMap f) (kept.flatMap f) (lost.flatMap f) := by
  refine ⟨h.1.flatMap f, ?_⟩
  rw [← List.flatMap_append]
  exact h.2.flatMap_right f

/-- What was there stays or goes. -/
theorem mem_or (h : Parted xs ys ls) {x : α} (hx : x ∈ xs) : x ∈ ys ∨ x ∈ ls :=
  List.mem_append.1 (h.2.mem_iff.1 hx)

/-- Without repetitions, what is left and the rest have nothing in common. -/
theorem disjoint (h : Parted xs ys ls) (hxs : xs.Nodup) : List.Disjoint ys ls :=
  List.disjoint_of_nodup_append (h.2.nodup_iff.1 hxs)

theorem map (h : Parted xs ys ls) (f : α → β) : Parted (xs.map f) (ys.map f) (ls.map f) := by
  refine ⟨h.1.map f, ?_⟩
  rw [← List.map_append]
  exact h.2.map f

/-- What is not told of the rest is told of what is left, in the same order. -/
theorem filter_eq (h : Parted xs ys ls) {p : α → Bool} (hls : ∀ x ∈ ls, p x = false) :
    xs.filter p = ys.filter p := by
  have hnone : ls.filter p = [] := by
    rw [List.filter_eq_nil_iff]
    intro x hx
    simp [hls x hx]
  have hperm := h.2.filter p
  rw [List.filter_append, hnone, List.append_nil] at hperm
  exact ((h.1.filter p).eq_of_length hperm.length_eq.symm).symm

end Parted

namespace Export

/-! ## The code that goes -/

/-- The variables of one name, if the declaration is one of variables. -/
def goneVariables (name : String) : Tree → List Tree
  | .node (.statement (.variableList k e)) s ds =>
    [.node (.statement (.variableList k e)) s
      (ds.filter fun d => plainName (d.child 0) == some name)]
  | _ => []

/-- The code of a statement that goes with an exported name: all of it, or some of the names in its
braces, or some of its variables. -/
def gone (name : String) : Tree → List Tree
  | .node (.module (.exportNamed b)) s (d :: sp :: rest) =>
    if excise name (.node (.module (.exportNamed b)) s (d :: sp :: rest)) = none then
      [.node (.module (.exportNamed b)) s (d :: sp :: rest)]
    else if sp.children = [] then goneVariables name d
    else [.node sp.label sp.span (sp.children.filter fun x => specifierExport x == some name)]
  | _ => []

/-- The code that a bundle leaves out. -/
def goneCode (o : Options) (ss : List Tree) : List Tree :=
  match o.mode with
  | .client => ss.filter isDefault
  | .server => ss.flatMap (gone o.serverExportName)

/-- The names in braces are a list of their own. -/
def listFits : Tree → Bool
  | .node (.module (.exportNamed _)) _ (_ :: sp :: _) => sp.label == .module .exportSpecifiers
  | _ => true

/-! ## Rules -/

/-- A rule that tells of exports what it tells of their parts. -/
structure Spread {α : Type} (rule : Rule α) : Prop where
  exported : ∀ a b s ps, rule a (.module (.exportNamed b)) s ps = []
  listed : ∀ a s ps, rule a (.module .exportSpecifiers) s ps = []
  declarators : ∀ a k e s ds (p : Tree → Bool),
    Parted (rule a (.statement (.variableList k e)) s ds)
      (rule a (.statement (.variableList k e)) s (ds.filter p))
      (rule a (.statement (.variableList k e)) s (ds.filter fun d => !p d))

/-- A rule that tells of exports and of lists what it tells of their parts. -/
structure Shared {α : Type} (rule : Rule α) : Prop extends Spread rule where
  program : ∀ a line strict s p x y, rule a (.module (.program line strict)) s [p, x] =
    rule a (.module (.program line strict)) s [p, y]
  statements : ∀ a s ps, rule a (.module .statements) s ps = []

/-- A rule that tells nothing of lists and of exports is shared. -/
theorem shared_of_labels {α : Type} {rule : Rule α}
    (hprogram : ∀ a line strict s ps qs, rule a (.module (.program line strict)) s ps =
      rule a (.module (.program line strict)) s qs)
    (hstatements : ∀ a s ps, rule a (.module .statements) s ps = [])
    (hexported : ∀ a b s ps, rule a (.module (.exportNamed b)) s ps = [])
    (hlisted : ∀ a s ps, rule a (.module .exportSpecifiers) s ps = [])
    (hvariables : ∀ a k e s ds, rule a (.statement (.variableList k e)) s ds = []) :
    Shared rule := by
  refine ⟨⟨hexported, hlisted, ?_⟩, fun a line strict s p x y => hprogram _ _ _ _ _ _, hstatements⟩
  intro a k e s ds p
  rw [hvariables, hvariables, hvariables]
  exact Parted.whole []

theorem shared_mentionRule : Shared mentionRule :=
  shared_of_labels (fun _ _ _ _ _ _ => rfl) (fun _ _ _ => rfl) (fun _ _ _ _ => rfl)
    (fun _ _ _ => rfl) fun _ _ _ _ _ => rfl

theorem shared_useRule : Shared useRule :=
  shared_of_labels (fun _ _ _ _ _ _ => rfl) (fun _ _ _ => rfl) (fun _ _ _ _ => rfl)
    (fun _ _ _ => rfl) fun _ _ _ _ _ => rfl

theorem shared_scopeRule : Shared scopeRule :=
  shared_of_labels (fun _ _ _ _ _ _ => rfl) (fun _ _ _ => rfl) (fun _ _ _ _ => rfl)
    (fun _ _ _ => rfl) fun _ _ _ _ _ => rfl

/-- The variables of a declaration are parted with its declarators. -/
theorem parted_variableEntries (ds : List Tree) (p : Tree → Bool) :
    Parted (variableEntries ds) (variableEntries (ds.filter p))
      (variableEntries (ds.filter fun d => !p d)) :=
  (Parted.filter p ds).flatMap_items _

theorem shared_declarationRule : Shared declarationRule where
  program _ _ _ _ _ _ _ := rfl
  statements a s ps := by simp [declarationRule, placed, introduced, lexicalEntries]
  exported a b s ps := by simp [declarationRule, placed, introduced, lexicalEntries]
  listed a s ps := by simp [declarationRule, placed, introduced, lexicalEntries]
  declarators a k e s ds p := by
    by_cases hk : k = .varVariable
    · subst hk
      simp only [declarationRule, placed, introduced, List.append_nil]
      exact (parted_variableEntries ds p).flatMap_items _
    · rw [declarationRule_variables hk, declarationRule_variables hk, declarationRule_variables hk]
      exact (parted_variableEntries ds p).flatMap_items _

/-! ## The parting of a statement -/

section Statement

variable {α : Type} {rule : Rule α} {a : Around}

/-- Of an export is told what is told of its parts. -/
theorem gather_exported (ha : a.isBranch = false) (b : Bool) (s : Span) (ps : List Tree)
    (hrule : Spread rule) :
    gather rule a (.node (.module (.exportNamed b)) s ps) = ps.flatMap (gather rule a) := by
  have hinside := inside_of_plain (l := .module (.exportNamed b)) ha (fun _ _ _ => rfl)
    (fun _ _ => rfl) (by simp) s ps
  rw [gather_node_of_const hinside, hrule.exported, List.nil_append]

theorem gather_listed (ha : a.isBranch = false) (s : Span) (ps : List Tree) (hrule : Spread rule) :
    gather rule a (.node (.module .exportSpecifiers) s ps) = ps.flatMap (gather rule a) := by
  have hinside := inside_of_plain (l := .module .exportSpecifiers) ha (fun _ _ _ => rfl)
    (fun _ _ => rfl) (by simp) s ps
  rw [gather_node_of_const hinside, hrule.listed, List.nil_append]

/-- Of a declaration of variables is told what is told of it and of its declarators. -/
theorem gather_variables (ha : a.isBranch = false) (k : VariableKind) (e : Bool) (s : Span)
    (ds : List Tree) :
    gather rule a (.node (.statement (.variableList k e)) s ds) =
      rule a (.statement (.variableList k e)) s ds ++ ds.flatMap (gather rule a) :=
  gather_node_of_const (inside_of_plain ha (fun _ _ _ => rfl) (fun _ _ => rfl) (by simp) s ds)

theorem not_bne {β : Type} [BEq β] (x y : β) : (!(x != y)) = (x == y) := by
  rw [bne, Bool.not_not]

/-- What is told of the names in braces is parted with them. -/
theorem parted_listed (hrule : Spread rule) (ha : a.isBranch = false) {sp : Tree}
    (hsp : sp.label = .module .exportSpecifiers) (p : Tree → Bool) :
    Parted (gather rule a sp) (gather rule a (.node sp.label sp.span (sp.children.filter p)))
      (gather rule a (.node sp.label sp.span (sp.children.filter fun x => !p x))) := by
  obtain ⟨l, s, listed⟩ := sp
  obtain rfl : l = .module .exportSpecifiers := hsp
  simp only [Tree.label_node, Tree.span_node, Tree.children_node, gather_listed ha _ _ hrule]
  exact (Parted.filter p listed).flatMap_items (gather rule a)

/-- What is told of variables is parted with their declarators. -/
theorem parted_variables (hrule : Spread rule) (ha : a.isBranch = false) (k : VariableKind)
    (e : Bool) (s : Span) (ds : List Tree) (p : Tree → Bool) :
    Parted (gather rule a (.node (.statement (.variableList k e)) s ds))
      (gather rule a (.node (.statement (.variableList k e)) s (ds.filter p)))
      (gather rule a (.node (.statement (.variableList k e)) s (ds.filter fun d => !p d))) := by
  rw [gather_variables ha, gather_variables ha, gather_variables ha]
  exact (hrule.declarators a k e s ds p).append
    ((Parted.filter p ds).flatMap_items (gather rule a))

/-- An export falls apart with its declaration and its names in braces. -/
theorem parted_export (hrule : Spread rule) (ha : a.isBranch = false) {b : Bool} {s : Span}
    {d d' sp sp' : Tree} {rest : List Tree} {ls ls' : List α}
    (hd : Parted (gather rule a d) (gather rule a d') ls)
    (hsp : Parted (gather rule a sp) (gather rule a sp') ls') :
    Parted (gather rule a (.node (.module (.exportNamed b)) s (d :: sp :: rest)))
      (gather rule a (.node (.module (.exportNamed b)) s (d' :: sp' :: rest))) (ls ++ ls') := by
  have hall := hd.append (hsp.append (Parted.whole (rest.flatMap (gather rule a))))
  rw [gather_exported ha _ _ _ hrule, gather_exported ha _ _ _ hrule]
  simpa using hall

/-- What is told of a declaration is told of what is left of it without a name, or of the variables
that go with the name. -/
theorem gather_exciseDeclaration (hrule : Spread rule) (ha : a.isBranch = false) {name : String}
    {d d' : Tree} (h : exciseDeclaration name d = some d') :
    Parted (gather rule a d) (gather rule a d')
      ((goneVariables name d).flatMap (gather rule a)) := by
  by_cases hvariables : ∃ k e s ds, d = .node (.statement (.variableList k e)) s ds
  · obtain ⟨k, e, s, ds, rfl⟩ := hvariables
    rw [exciseDeclaration] at h
    split_ifs at h
    obtain rfl := Option.some.inj h
    have hparts := parted_variables hrule ha k e s ds fun d => plainName (d.child 0) != some name
    simp only [not_bne] at hparts
    simpa [goneVariables, keptDeclarators] using hparts
  · have hvariables : ∀ k e s ds, d ≠ .node (.statement (.variableList k e)) s ds :=
      fun k e s ds heq => hvariables ⟨k, e, s, ds, heq⟩
    rw [exciseDeclaration] at h
    · split_ifs at h
      obtain rfl := Option.some.inj h
      rw [goneVariables]
      · exact Parted.whole _
      · exact hvariables
    · exact hvariables

/-- What is told of a statement is told of what is left of it without a name, or of the code that
goes with the name. -/
theorem gather_excise (hrule : Spread rule) (ha : a.isBranch = false) (name : String) {t : Tree}
    (ht : listFits t = true) :
    Parted (gather rule a t) ((excise name t).toList.flatMap (gather rule a))
      ((gone name t).flatMap (gather rule a)) := by
  -- Whatever is excised, the code that goes is a list of its own: a statement, some names in braces
  -- or some variables.
  cases exportForm t with
  | @listed b s d sp rest hlisted =>
      have hsp : sp.label = .module .exportSpecifiers := by simpa [listFits] using ht
      rw [gone, if_neg hlisted, excise_listed hlisted]
      by_cases hempty : (keptSpecifiers name sp).isEmpty = true
      · rw [if_pos hempty, if_pos rfl, List.flatMap_singleton]
        exact Parted.none _
      · rw [if_neg hempty, if_neg (by simp)]
        have hparts := parted_listed hrule ha hsp fun x => specifierExport x != some name
        simp only [not_bne] at hparts
        simpa [keptSpecifiers] using parted_export hrule ha (Parted.whole (gather rule a d)) hparts
  | @declared b s d sp rest hlisted =>
      rw [gone, if_pos hlisted, excise_declared hlisted]
      cases hd : exciseDeclaration name d with
      | none =>
          rw [Option.map_none, if_pos rfl, List.flatMap_singleton]
          exact Parted.none _
      | some d' =>
          have hparts : Parted
              (gather rule a (.node (.module (.exportNamed b)) s (d :: sp :: rest))) _ _ :=
              parted_export hrule ha (gather_exciseDeclaration hrule ha hd)
                (Parted.whole (gather rule a sp))
          simpa using hparts
  | other hother =>
      rw [excise_other hother, gone, Option.toList_some, List.flatMap_singleton]
      · exact Parted.whole _
      · exact hother

end Statement

/-! ## The parting of a module -/

section Module

open RouteSplit.Module

variable {α : Type} {rule : Rule α} {root : Tree}

/-- What the statements of a module stand in. -/
def bodyAround (root : Tree) : Around where
  env := [⟨.module, root.span⟩]
  strict := makesStrict root.label root.span root.children

/-- What is told of a module is told of its head or of its statements, whichever they are. -/
theorem gather_module (hrule : Shared rule) (h : IsModule root) :
    ∃ head, ∀ ss, gather rule {} (withStatements root ss) =
      head ++ ss.flatMap (gather rule (bodyAround root)) := by
  obtain ⟨line, strict, s, prologue, inner, old, rfl⟩ := h
  -- What asks for strictness stands before the statements, so they do not change what they
  -- stand in.
  have hinside : ∀ ss i, Around.inside {} (.module (.program line strict)) s
      [prologue, .node (.module .statements) inner ss] i = bodyAround
        (.node (.module (.program line strict)) s
          [prologue, .node (.module .statements) inner old]) := by
    intro ss i
    simp [Around.inside, opened, makesStrict, bodyAround, asksStrict, Tree.child]
  refine ⟨rule {} (.module (.program line strict)) s [prologue, prologue] ++
    gather rule (bodyAround (.node (.module (.program line strict)) s
      [prologue, .node (.module .statements) inner old])) prologue, fun ss => ?_⟩
  rw [withStatements, gather_node_of_const (hinside ss), List.flatMap_cons, List.flatMap_singleton,
    gather_statements, hrule.statements, hrule.program _ _ _ _ _ _ prologue, List.append_assoc]
  rfl

/-- What is told of statements is told of those that a bundle keeps, or of the code that it leaves
out. -/
theorem parted_statements (hrule : Spread rule) {a : Around} (ha : a.isBranch = false)
    {ss : List Tree} (hlists : ∀ t ∈ ss, listFits t = true) (o : Options) :
    Parted (ss.flatMap (gather rule a)) ((keepStatements o ss).flatMap (gather rule a))
      ((goneCode o ss).flatMap (gather rule a)) := by
  unfold keepStatements goneCode
  cases o.mode with
  | client =>
      have hparts := (Parted.filter (fun t => !isDefault t) ss).flatMap_items (gather rule a)
      simpa only [Bool.not_not] using hparts
  | server =>
      rw [flatMap_filterMap_eq, List.flatMap_assoc]
      exact Parted.flatMap fun t ht => gather_excise hrule ha _ (hlists t ht)

/-- What is told of a module is told of the module that a bundle keeps, or of the code that it
leaves out. -/
theorem gather_resolve (hrule : Shared rule) (h : IsModule root)
    (hlists : ∀ t ∈ statementsOf root, listFits t = true) (o : Options) (c : Context) :
    Parted (gather rule {} root) (gather rule {} (resolve o root c).1)
      ((goneCode o (statementsOf root)).flatMap (gather rule (bodyAround root))) := by
  obtain ⟨head, hhead⟩ := gather_module hrule h
  have hroot := hhead (statementsOf root)
  rw [withStatements_statementsOf h] at hroot
  have hkept : gather rule {} (resolve o root c).1 = _ :=
    hhead (keepStatements o (statementsOf root))
  rw [hroot, hkept, ← List.nil_append (List.flatMap _ (goneCode o _))]
  exact (Parted.whole head).append (parted_statements hrule.toSpread rfl hlists o)

/-! ## Rules for lists -/

theorem spread_listRule {α : Type} {f : Tree → List α} : Spread (listRule f) where
  exported _ _ _ _ := rfl
  listed _ _ _ := rfl
  declarators _ _ _ _ _ _ := Parted.whole []

/-- What is told of a module's lists is told of its head, of its statements and of the lists inside
them. -/
theorem gather_lists_module {α : Type} {f : Tree → List α} (h : IsModule root) :
    ∃ head, ∀ ss, gather (listRule f) {} (withStatements root ss) =
      head ++ (ss.flatMap f ++ ss.flatMap (gather (listRule f) {})) := by
  rcases h with ⟨line, strict, s, prologue, inner, old, rfl⟩
  refine ⟨gather (listRule f) {} prologue, fun ss => ?_⟩
  rw [withStatements, gather_listRule_node, List.flatMap_cons, List.flatMap_singleton,
    gather_listRule_node]
  rfl

/-- Nothing that is told of statements other than exports is lost. -/
theorem flatMap_keepStatements {α : Type} {f : Tree → List α}
    (hf : ∀ t : Tree, isExport t.label = true → f t = []) (o : Options) (ss : List Tree) :
    (keepStatements o ss).flatMap f = ss.flatMap f := by
  unfold keepStatements
  cases o.mode with
  | client =>
      have hgone : (ss.filter isDefault).flatMap f = [] := by
        rw [List.flatMap_eq_nil_iff]
        intro t ht
        have hdefault : t.label = .module .exportDefault := by
          simpa [isDefault] using (List.mem_filter.1 ht).2
        exact hf t (by rw [hdefault]; rfl)
      have hparts := (Parted.filter (fun t => !isDefault t) ss).flatMap_items f
      simp only [Bool.not_not, hgone] at hparts
      exact hparts.1.eq_of_length (by simpa using hparts.2.length_eq.symm)
  | server =>
      simp only
      rw [flatMap_filterMap_eq]
      apply List.flatMap_congr
      intro t ht
      by_cases hexport : isExport t.label = true
      · rw [hf t hexport, List.flatMap_eq_nil_iff]
        intro u hu
        exact hf u (by rw [excise_label (Option.mem_toList.1 hu), hexport])
      · have hother : ∀ b s d sp rest, t ≠ .node (.module (.exportNamed b)) s (d :: sp :: rest) := by
          rintro b s d sp rest rfl
          exact hexport rfl
        rw [excise_other hother, Option.toList_some, List.flatMap_singleton]

/-- What is told of a module's lists is told of those that a bundle keeps, or of those in the code
that it leaves out. -/
theorem parted_lists_resolve {α : Type} {f : Tree → List α}
    (hf : ∀ t : Tree, isExport t.label = true → f t = []) (h : IsModule root)
    (hlists : ∀ t ∈ statementsOf root, listFits t = true) (o : Options) (c : Context) :
    Parted (gather (listRule f) {} root) (gather (listRule f) {} (resolve o root c).1)
      ((goneCode o (statementsOf root)).flatMap (gather (listRule f) {})) := by
  rcases gather_lists_module (f := f) h with ⟨head, hhead⟩
  have hroot := hhead (statementsOf root)
  rw [withStatements_statementsOf h] at hroot
  have hkept : gather (listRule f) {} (resolve o root c).1 = _ :=
    hhead (keepStatements o (statementsOf root))
  rw [hroot, hkept, flatMap_keepStatements hf, ← List.nil_append (List.flatMap _ (goneCode o _)),
    ← List.nil_append (List.flatMap _ (goneCode o _))]
  refine (Parted.whole head).append ((Parted.whole _).append ?_)
  exact parted_statements spread_listRule rfl hlists o

/-! ## Parts that stay apart -/

theorem shared_constructRule : Shared constructRule :=
  shared_of_labels (fun _ _ _ _ _ _ => rfl) (fun _ _ _ => rfl) (fun _ _ _ _ => rfl)
    (fun _ _ _ => rfl) fun _ _ _ _ _ => rfl

theorem shared_useSiteRule : Shared useSiteRule :=
  shared_of_labels (fun _ _ _ _ _ _ => rfl) (fun _ _ _ => rfl) (fun _ _ _ _ => rfl)
    (fun _ _ _ => rfl) fun _ _ _ _ _ => rfl

/-- What is left of an export holds less code of its own and fewer uses than the export. -/
theorem less_excise {name : String} {t u : Tree} (ht : listFits t = true)
    (h : excise name t = some u) : Less u t := by
  have hsub : ∀ {rule : Rule Span}, Shared rule → gather rule {} u ⊆ gather rule {} t := by
    intro rule hrule
    simpa [h] using (gather_excise hrule.toSpread (a := {}) rfl name ht).1.subset
  exact ⟨hsub shared_constructRule, hsub shared_useSiteRule⟩

/-- The parts of a node stay apart if one of them becomes less. -/
theorem separate_of_part {l : Label} {s : Span} (before : List Tree) {after : List Tree}
    {p q : Tree} (h : (Tree.node l s (before ++ p :: after)).separate = true) (hless : Less q p)
    (hq : q.separate = true) : (Tree.node l s (before ++ q :: after)).separate = true := by
  obtain ⟨hapart, hparts⟩ := Tree.separate_node.1 h
  obtain ⟨hbefore, hafter, hacross⟩ := List.pairwise_append.1 hapart
  obtain ⟨hfirst, hafter⟩ := List.pairwise_cons.1 hafter
  refine Tree.separate_node.2
    ⟨List.pairwise_append.2 ⟨hbefore, List.pairwise_cons.2 ⟨?_, hafter⟩, ?_⟩, ?_⟩
  · exact fun x hx => hless.bothApart (Less.refl x) (hfirst x hx)
  · intro x hx y hy
    rcases List.mem_cons.1 hy with rfl | hy
    · exact (Less.refl x).bothApart hless (hacross x hx p List.mem_cons_self)
    · exact hacross x hx y (List.mem_cons_of_mem p hy)
  · intro x hx
    simp only [List.mem_append, List.mem_cons] at hx hparts
    rcases hx with hx | rfl | hx
    · exact hparts x (Or.inl hx)
    · exact hq
    · exact hparts x (Or.inr (Or.inr hx))

/-- Parts that lie apart still do when some of them go. -/
theorem separate_filter {l : Label} {s : Span} {ps : List Tree} (p : Tree → Bool)
    (h : (Tree.node l s ps).separate = true) : (Tree.node l s (ps.filter p)).separate = true := by
  obtain ⟨hapart, hparts⟩ := Tree.separate_node.1 h
  exact Tree.separate_node.2 ⟨hapart.filter p, fun c hc => hparts c (List.mem_of_mem_filter hc)⟩

/-- What is left of an export lies apart if the export did. -/
theorem separate_excise {name : String} {t u : Tree} (ht : t.separate = true)
    (h : excise name t = some u) : u.separate = true := by
  rcases excise_cases h with rfl | ⟨b, s, d, ⟨l, s', ps⟩, rest, rfl, -, rfl⟩ |
    ⟨b, s, k, e, inner, ds, sp, rest, rfl, -, rfl⟩
  · exact ht
  · have hlist := (Tree.separate_node.1 ht).2 (.node l s' ps) (by simp)
    exact separate_of_part [d] ht (less_of_subset (List.filter_subset_self _))
      (separate_filter _ hlist)
  · have hlist := (Tree.separate_node.1 ht).2 _ List.mem_cons_self
    exact separate_of_part [] ht (less_of_subset (List.filter_subset_self _))
      (separate_filter _ hlist)

/-- A module's parts stay apart when its exports are resolved. -/
theorem separate_resolve (h : IsModule root) (hlists : ∀ t ∈ statementsOf root, listFits t = true)
    (hseparate : root.separate = true) (o : Options) (c : Context) :
    (resolve o root c).1.separate = true := by
  obtain ⟨line, strict, s, prologue, inner, ss, rfl⟩ := h
  have hlist := (Tree.separate_node.1 hseparate).2 (.node (.module .statements) inner ss) (by simp)
  obtain ⟨hapart, hparts⟩ := Tree.separate_node.1 hlist
  have hkept : ∀ u ∈ keepStatements o ss, ∃ t ∈ ss, Less u t ∧ u.separate = true := by
    intro u hu
    obtain ⟨-, t, ht, rfl | hexcise⟩ := settled_keepStatements hu
    · exact ⟨u, ht, Less.refl u, hparts u ht⟩
    · exact ⟨t, ht, less_excise (hlists t ht) hexcise, separate_excise (hparts t ht) hexcise⟩
  refine separate_of_part [prologue] (q := .node (.module .statements) inner (keepStatements o ss))
    hseparate (less_of_parts fun u hu => ?_) (Tree.separate_node.2 ⟨?_, fun u hu => ?_⟩)
  · obtain ⟨t, ht, hless, -⟩ := hkept u hu
    exact ⟨t, ht, hless⟩
  · unfold keepStatements
    cases o.mode with
    | client => exact hapart.filter _
    | server =>
        exact pairwise_bothApart_filterMap hapart fun t ht u hu => less_excise (hlists t ht) hu
  · obtain ⟨t, -, -, hu⟩ := hkept u hu
    exact hu

end Module

end Export

end RouteSplit
