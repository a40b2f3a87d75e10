import RouteSplit.Binding.Collect
import RouteSplit.Proofs.Scope.Gather

/-!
# Names in a tree

- `Use`, `uses`: the identifiers that use a name, each with the scopes around it;
- `Mention`, `mentions`: all identifiers, those that declare included;
- `scopes`: the scopes that the nodes of a tree open;
- `mention_of_declared`: what is declared is mentioned where it is declared;
- `mem_readsOf`: the reads of a symbol are the reading uses that mean it.
-/

namespace RouteSplit.Scope

/-! ## Uses and mentions -/

/-- An identifier that uses a name, and the scopes around it. -/
structure Use where
  site : Span
  name : String
  usage : Usage
  env : Env
deriving DecidableEq, Repr

/-- The symbol that a use means. -/
def Use.resolve (table : Table) (u : Use) : Option Symbol := table.resolve u.env u.name u.usage

/-- The use that a node itself is. -/
def useRule : Rule Use
  | a, .expression (.reference name usage), s, _ => [⟨s, name, usage, a.env⟩]
  | _, _, _, _ => []

/-- The uses in a module's tree. -/
def uses (root : Tree) : List Use := gather useRule {} root

/-- An identifier: one that uses a name in some way, or one that declares it. -/
structure Mention where
  name : String
  site : Span
  usage : Option Usage
deriving DecidableEq, Repr

/-- The identifiers of a node itself. The members of an enumeration are known by their keys. -/
def mentionsOf : Label → Span → List Tree → List Mention
  | .pattern (.binding name), s, _ => [⟨name, s, none⟩]
  | .expression (.reference name usage), s, _ => [⟨name, s, some usage⟩]
  | .type (.enum _ _), _, _ :: members =>
    (enumEntries members).map fun e => ⟨e.name, e.site, none⟩
  | _, _, _ => []

def mentionRule : Rule Mention := fun _ l s ps => mentionsOf l s ps

/-- The identifiers in a tree. -/
def mentions (t : Tree) : List Mention := gather mentionRule {} t

/-- What a tree mentions does not depend on what it stands in. -/
theorem gather_mentionRule (a : Around) (t : Tree) : gather mentionRule a t = mentions t :=
  gather_congr_around (fun _ _ _ _ _ => rfl) a {} t

theorem mentions_part_subset {l : Label} {s : Span} {ps : List Tree} {c : Tree} (hc : c ∈ ps) :
    mentions c ⊆ mentions (.node l s ps) := by
  obtain ⟨i, hi⟩ := List.mem_iff_getElem?.1 hc
  intro m hm
  refine gather_child_subset hi ?_
  rw [gather_mentionRule]
  exact hm

theorem mentions_child_subset (t : Tree) (i : Nat) : mentions (t.child i) ⊆ mentions t := by
  cases t with
  | node l s ps =>
      cases hi : ps[i]? with
      | none =>
          have hempty : mentions Tree.absent = [] := rfl
          simp [Tree.child, hi, hempty]
      | some c =>
          have hchild : Tree.child (.node l s ps) i = c := by simp [Tree.child, hi]
          rw [hchild]
          exact mentions_part_subset (List.mem_of_getElem? hi)

/-- The uses of a tree are mentions that use, in their order. -/
theorem map_uses_sublist (a : Around) (t : Tree) :
    ((gather useRule a t).map fun u => (⟨u.name, u.site, some u.usage⟩ : Mention)).Sublist
      (mentions t) := by
  rw [← gather_mentionRule a t]
  apply map_gather_sublist
  intro a l s ps
  unfold useRule mentionRule mentionsOf
  split <;> simp

/-- A use mentions the name where it stands. -/
theorem mention_of_use {a : Around} {t : Tree} {u : Use} (hu : u ∈ gather useRule a t) :
    ⟨u.name, u.site, some u.usage⟩ ∈ mentions t :=
  (map_uses_sublist a t).subset (List.mem_map_of_mem hu)

/-- Where no two identifiers stand at one place, no two uses do. -/
theorem use_eq_of_site {t : Tree} (h : ((mentions t).map Mention.site).Nodup) {u w : Use}
    (hu : u ∈ uses t) (hw : w ∈ uses t) (hsite : u.site = w.site) : u = w := by
  have hsub := (map_uses_sublist {} t).map Mention.site
  rw [List.map_map] at hsub
  exact List.inj_on_of_nodup_map (h.sublist hsub) hu hw hsite

/-! ## Declared names are mentioned -/

theorem boundNamesAll_eq_flatMap (ps : List Tree) :
    Tree.boundNamesAll ps = ps.flatMap Tree.boundNames := by
  induction ps with
  | nil => rfl
  | cons t ts ih => rw [Tree.boundNamesAll, ih, List.flatMap_cons]

/-- `x` is a node of a tree. -/
inductive Inside (x : Tree) : Tree → Prop
  | refl : Inside x x
  | part {l : Label} {s : Span} {ps : List Tree} {c : Tree} :
      c ∈ ps → Inside x c → Inside x (.node l s ps)

theorem Inside.trans {x y t : Tree} (hxy : Inside x y) (hyt : Inside y t) : Inside x t := by
  induction hyt with
  | refl => exact hxy
  | part hc _ ih => exact .part hc ih

/-- What a node inside a tree mentions, the tree mentions. -/
theorem Inside.mentions_subset {x t : Tree} (h : Inside x t) : mentions x ⊆ mentions t := by
  induction h with
  | refl => exact List.Subset.refl _
  | part hc _ ih => exact List.Subset.trans ih (mentions_part_subset hc)

/-- The identifier of a bound name stands in its target. -/
theorem inside_of_boundName {t : Tree} {x : String × Span} (hx : x ∈ t.boundNames) :
    ∃ ps, Inside (.node (.pattern (.binding x.1)) x.2 ps) t := by
  -- One case for each form of a target; anything else binds no name.
  induction t using Tree.induct with
  | node l s ps ih =>
      have hpart : ∀ c ∈ ps, x ∈ c.boundNames →
          ∃ qs, Inside (.node (.pattern (.binding x.1)) x.2 qs) (.node l s ps) := by
        intro c hc hxc
        obtain ⟨qs, hqs⟩ := ih c hc hxc
        exact ⟨qs, .part hc hqs⟩
      unfold Tree.boundNames at hx
      split at hx
      -- the name itself
      · rename_i heq
        obtain ⟨rfl, rfl, rfl⟩ := Tree.node.inj heq
        obtain rfl : x = _ := List.mem_singleton.1 hx
        exact ⟨_, .refl⟩
      -- a property, and a target with a default
      · rename_i heq
        obtain ⟨rfl, rfl, rfl⟩ := Tree.node.inj heq
        exact hpart _ (by simp) hx
      · rename_i heq
        obtain ⟨rfl, rfl, rfl⟩ := Tree.node.inj heq
        exact hpart _ (by simp) hx
      -- object and array patterns
      · rename_i heq
        obtain ⟨rfl, rfl, rfl⟩ := Tree.node.inj heq
        rw [boundNamesAll_eq_flatMap] at hx
        obtain ⟨c, hc, hxc⟩ := List.mem_flatMap.1 hx
        exact hpart c hc hxc
      · rename_i heq
        obtain ⟨rfl, rfl, rfl⟩ := Tree.node.inj heq
        rw [boundNamesAll_eq_flatMap] at hx
        obtain ⟨c, hc, hxc⟩ := List.mem_flatMap.1 hx
        exact hpart c hc hxc
      -- a rest
      · rename_i heq
        obtain ⟨rfl, rfl, rfl⟩ := Tree.node.inj heq
        exact hpart _ (by simp) hx
      · simp at hx

/-- A name that a part binds stands as a name in the tree. -/
theorem inside_of_child {t : Tree} {i : Nat} {x : String × Span}
    (hx : x ∈ (t.child i).boundNames) :
    ∃ ps, Inside (.node (.pattern (.binding x.1)) x.2 ps) t := by
  obtain ⟨l, s, ps⟩ := t
  cases hi : ps[i]? with
  | none =>
      rw [Tree.child, Tree.children_node, hi] at hx
      simp [Tree.absent, Tree.boundNames] at hx
  | some c =>
      rw [Tree.child, Tree.children_node, hi] at hx
      obtain ⟨qs, hqs⟩ := inside_of_boundName hx
      exact ⟨qs, .part (List.mem_of_getElem? hi) hqs⟩

/-- A name that a tree binds is mentioned by it as one that is bound. -/
theorem mention_of_boundName {t : Tree} {x : String × Span} (hx : x ∈ t.boundNames) :
    ⟨x.1, x.2, none⟩ ∈ mentions t := by
  obtain ⟨ps, hinside⟩ := inside_of_boundName hx
  exact hinside.mentions_subset (by simp [mentions, gather_node, mentionRule, mentionsOf])

/-- The entry's name stands at its place in the tree. -/
def Entry.MentionedIn (e : Entry) (t : Tree) : Prop := ⟨e.name, e.site, none⟩ ∈ mentions t

theorem Entry.MentionedIn.of_part {e : Entry} {c : Tree} {l : Label} {s : Span} {ps : List Tree}
    (h : e.MentionedIn c) (hc : c ∈ ps) : e.MentionedIn (.node l s ps) :=
  mentions_part_subset hc h

theorem Entry.MentionedIn.of_child {e : Entry} {t : Tree} {i : Nat}
    (h : e.MentionedIn (t.child i)) : e.MentionedIn t :=
  mentions_child_subset t i h

/-- The names that a target binds are mentioned in it. -/
theorem entriesOf_mentioned {m : Meaning} {t : Tree} {e : Entry} (he : e ∈ entriesOf m t) :
    e.MentionedIn t := by
  obtain ⟨x, hx, rfl⟩ := List.mem_map.1 he
  exact mention_of_boundName hx

/-- Entries that a list of constructs gives, each from one of its own parts, are mentioned in it. -/
theorem flatMap_child_mentioned {items : List Tree} {i : Nat} {m : Tree → Meaning} {e : Entry}
    (he : e ∈ items.flatMap fun t => entriesOf (m t) (t.child i)) :
    ∃ t ∈ items, e.MentionedIn t := by
  obtain ⟨t, ht, he⟩ := List.mem_flatMap.1 he
  exact ⟨t, ht, (entriesOf_mentioned he).of_child⟩

theorem typeParameterEntries_mentioned {t : Tree} {e : Entry} (he : e ∈ typeParameterEntries t) :
    e.MentionedIn t := by
  cases t with
  | node l s ps =>
      obtain ⟨c, hc, he⟩ := flatMap_child_mentioned he
      exact he.of_part hc

theorem parameterEntries_mentioned {t : Tree} {e : Entry} (he : e ∈ parameterEntries t) :
    e.MentionedIn t := by
  cases t with
  | node l s ps =>
      obtain ⟨c, hc, he⟩ := flatMap_child_mentioned he
      exact he.of_part hc

theorem importEntries_mentioned {typeOnly : Bool} {t : Tree} {e : Entry}
    (he : e ∈ importEntries typeOnly t) : e.MentionedIn t := by
  cases t with
  | node l s ps =>
      obtain ⟨c, hc, he⟩ := flatMap_child_mentioned he
      exact he.of_part hc

/-- A node mentions all that it declares for the scope around it. -/
theorem lexicalEntries_mentioned {l : Label} {s : Span} {ps : List Tree} {e : Entry}
    (he : e ∈ lexicalEntries l ps) : e.MentionedIn (.node l s ps) := by
  unfold lexicalEntries at he
  split at he
  · split at he
    · simp at he
    · obtain ⟨c, hc, he⟩ := flatMap_child_mentioned he
      exact he.of_part hc
  all_goals first
    | exact (importEntries_mentioned he).of_part (by simp)
    | exact (entriesOf_mentioned he).of_part (by simp)
    | simp at he

theorem ownName_mentioned {form : DefinitionForm} {m : Meaning} {name : Tree} {e : Entry}
    (he : e ∈ ownName form m name) : e.MentionedIn name := by
  unfold ownName at he
  split at he
  · exact entriesOf_mentioned he
  · simp at he

section Introduced

variable {l : Label} {s : Span} {ps : List Tree} {generics parameters : Tree} {d : Declaration}

/-- What mentioned entries declare is mentioned. -/
theorem inScope_mentioned {t : Tree} {scope : ScopeId} {es : List Entry}
    (hes : ∀ e ∈ es, e.MentionedIn t) (hd : d ∈ es.map (·.inScope scope)) :
    ⟨d.name, d.site, none⟩ ∈ mentions t := by
  obtain ⟨e, he, rfl⟩ := List.mem_map.1 hd
  exact hes e he

/-- Type parameters and parameters are mentioned in the construct that has them. -/
theorem headEntries_mentioned (hg : generics ∈ ps) (hp : parameters ∈ ps) :
    ∀ e ∈ typeParameterEntries generics ++ parameterEntries parameters,
      e.MentionedIn (.node l s ps) := by
  intro e he
  rcases List.mem_append.1 he with he | he
  · exact (typeParameterEntries_mentioned he).of_part hg
  · exact (parameterEntries_mentioned he).of_part hp

theorem functionNames_mentioned {own : List Entry} (hg : generics ∈ ps) (hp : parameters ∈ ps)
    (hown : ∀ e ∈ own, e.MentionedIn (.node l s ps))
    (hd : d ∈ functionNames s own generics parameters) :
    ⟨d.name, d.site, none⟩ ∈ mentions (.node l s ps) := by
  simp only [functionNames, List.mem_append] at hd
  -- The own name, then the parameters twice: as the head sees them, and as the body does.
  rcases hd with (hd | hd) | hd
  · exact inScope_mentioned hown hd
  · exact inScope_mentioned (headEntries_mentioned hg hp) hd
  · exact inScope_mentioned (headEntries_mentioned hg hp) hd

theorem signatureNames_mentioned (hg : generics ∈ ps) (hp : parameters ∈ ps)
    (hd : d ∈ signatureNames s generics parameters) :
    ⟨d.name, d.site, none⟩ ∈ mentions (.node l s ps) :=
  inScope_mentioned (headEntries_mentioned hg hp) hd

/-- A node mentions all that it declares for its own scopes. -/
theorem introduced_mentioned (hd : d ∈ introduced l s ps) :
    ⟨d.name, d.site, none⟩ ∈ mentions (.node l s ps) := by
  unfold introduced at hd
  split at hd
  -- functions and arrows
  · refine functionNames_mentioned (by simp) (by simp) (fun e he => ?_) hd
    exact (ownName_mentioned he).of_part (by simp)
  · exact functionNames_mentioned (by simp) (by simp) (by simp) hd
  -- a handler's parameter
  · exact inScope_mentioned (fun e he => ((entriesOf_mentioned he).of_child).of_part (by simp)) hd
  -- classes
  · refine inScope_mentioned (fun e he => ?_) hd
    rcases List.mem_append.1 he with he | he
    · exact (ownName_mentioned he).of_part (by simp)
    · exact (typeParameterEntries_mentioned he).of_part (by simp)
  -- enumerations, whose members are mentions of the enumeration itself
  · refine inScope_mentioned (fun e he => ?_) hd
    simp only [Entry.MentionedIn, mentions, gather_node, mentionRule, mentionsOf]
    exact List.mem_append_left _ (List.mem_map.2 ⟨e, he, rfl⟩)
  -- interfaces, aliases and mapped types
  · exact inScope_mentioned (fun e he => (typeParameterEntries_mentioned he).of_part (by simp)) hd
  · exact inScope_mentioned (fun e he => (typeParameterEntries_mentioned he).of_part (by simp)) hd
  · exact inScope_mentioned (fun e he => (entriesOf_mentioned he).of_part (by simp)) hd
  -- the five kinds of signatures
  · exact signatureNames_mentioned (by simp) (by simp) hd
  · exact signatureNames_mentioned (by simp) (by simp) hd
  · exact signatureNames_mentioned (by simp) (by simp) hd
  · exact signatureNames_mentioned (by simp) (by simp) hd
  · exact signatureNames_mentioned (by simp) (by simp) hd
  · simp at hd

end Introduced

/-- A node mentions all that it declares around itself. -/
theorem placed_mentioned {a : Around} {l : Label} {s : Span} {ps : List Tree} {d : Declaration}
    (hd : d ∈ placed a l s ps) : ⟨d.name, d.site, none⟩ ∈ mentions (.node l s ps) := by
  unfold placed at hd
  split at hd
  -- A `var`, an inferred type, and everything else.
  · obtain ⟨e, he, hd⟩ := List.mem_flatMap.1 hd
    obtain ⟨scope, -, rfl⟩ : ∃ scope, _ ∧ _ = d := by simpa [outward] using hd
    obtain ⟨c, hc, he⟩ := flatMap_child_mentioned he
    exact he.of_part hc
  · obtain ⟨e, he, hd⟩ := List.mem_flatMap.1 hd
    obtain ⟨scope, -, rfl⟩ : ∃ scope, _ ∧ _ = d := by simpa [inferred] using hd
    exact ((entriesOf_mentioned he).of_child).of_part (by simp)
  · obtain ⟨e, he, hd⟩ := List.mem_flatMap.1 hd
    obtain ⟨scope, -, rfl⟩ : ∃ scope, _ ∧ _ = d := by
      simpa only [Option.mem_toList, Option.map_eq_some_iff] using hd
    exact lexicalEntries_mentioned he

/-- What is declared is mentioned where it is declared. -/
theorem mention_of_declared {a : Around} {t : Tree} {d : Declaration}
    (hd : d ∈ declarations a t) : ⟨d.name, d.site, none⟩ ∈ mentions t := by
  rw [declarations_eq_gather] at hd
  induction t using Tree.induct generalizing a with
  | node l s ps ih =>
      rcases mem_gather_node.1 hd with hd | ⟨i, c, hc, hd⟩
      · rcases List.mem_append.1 hd with hd | hd
        · exact placed_mentioned hd
        · exact introduced_mentioned hd
      · have hmem := List.mem_of_getElem? hc
        exact mentions_part_subset hmem (ih c hmem hd)

/-! ## Scopes that a tree opens -/

/-- The scopes that a node of this label can open around its parts or its own name. -/
def openedBy : Label → Span → List ScopeId
  | .module (.program _ _), s => [⟨.module, s⟩]
  | .function (.function _ _ _), s => [⟨.function, s⟩, ⟨.head, s⟩, ⟨.ownName, s⟩]
  | .function (.arrow _), s => [⟨.function, s⟩, ⟨.head, s⟩]
  | .statement .block, s => [⟨.block, s⟩]
  | .statement .forLoop, s | .statement .forIn, s | .statement (.forOf _), s => [⟨.loop, s⟩]
  | .statement .switch, s => [⟨.switch, s⟩]
  | .statement .catchClause, s => [⟨.handler, s⟩]
  | .classes (.definition _ _ _), s => [⟨.classBody, s⟩]
  | .classes .staticBlock, s => [⟨.staticBlock, s⟩]
  | .type (.namespaceBlock _ _), s | .type (.globalScope _), s => [⟨.namespaceBlock, s⟩]
  | .type (.enum _ _), s => [⟨.enumBody, s⟩]
  | .type (.interface _), s | .type (.alias _), s | .type (.mapped _ _), s => [⟨.typeBody, s⟩]
  | .type .function, s | .type (.constructor _), s | .type .callSignature, s
  | .type .constructSignature, s | .type (.method _ _ _), s => [⟨.signature, s⟩]
  | .type .conditional, s => [⟨.conditional, s⟩]
  | _, _ => []

def scopeRule : Rule ScopeId := fun _ l s _ => openedBy l s

/-- The scopes that the nodes of a tree open. -/
def scopes (t : Tree) : List ScopeId := gather scopeRule {} t

/-- Which scopes a tree opens does not depend on what it stands in. -/
theorem gather_scopeRule (a : Around) (t : Tree) : gather scopeRule a t = scopes t :=
  gather_congr_around (fun _ _ _ _ _ => rfl) a {} t

theorem headScope_cases (s : Span) (parameters result : Tree) :
    headScope s parameters result = ⟨.head, s⟩ ∨ headScope s parameters result = ⟨.function, s⟩ := by
  unfold headScope
  split
  · exact Or.inl rfl
  · exact Or.inr rfl

/-- The scopes that a node opens for a part are among those that it opens at all. -/
theorem opened_subset (l : Label) (s : Span) (ps : List Tree) (i : Nat) :
    opened l s ps i ⊆ openedBy l s := by
  unfold opened
  split
  case h_2 form _ _ _ _ parameters result _ =>
    rcases headScope_cases s parameters result with h | h <;>
      (by_cases h0 : i = 0) <;> (by_cases h4 : i = 4) <;>
        cases form <;> simp [openedBy, h, h0, h4]
  case h_3 parameters result _ =>
    rcases headScope_cases s parameters result with h | h <;>
      (by_cases h3 : i = 3) <;> simp [openedBy, h, h3]
  all_goals (try split) <;> simp [openedBy]

theorem scopes_part_subset {l : Label} {s : Span} {ps : List Tree} {i : Nat} {c : Tree}
    (hc : ps[i]? = some c) : scopes c ⊆ scopes (.node l s ps) := by
  intro x hx
  refine gather_child_subset hc ?_
  rw [gather_scopeRule]
  exact hx

/-- The scopes around a part are scopes of the tree. -/
theorem opened_subset_scopes (l : Label) (s : Span) (ps : List Tree) (i : Nat) :
    opened l s ps i ⊆ scopes (.node l s ps) :=
  fun _ hx => mem_gather_node.2 (Or.inl (opened_subset l s ps i hx))

/-- A use sees scopes that its tree opens, and around them those around the tree. -/
theorem env_of_use {a : Around} {t : Tree} {u : Use} (hu : u ∈ gather useRule a t) :
    ∃ inner, u.env = inner ++ a.env ∧ inner ⊆ scopes t := by
  induction t using Tree.induct generalizing a with
  | node l s ps ih =>
      rcases mem_gather_node.1 hu with hu | ⟨i, c, hc, hu⟩
      · have henv : u.env = a.env := by
          unfold useRule at hu
          split at hu
          · rw [List.mem_singleton.1 hu]
          · simp at hu
        exact ⟨[], henv, List.nil_subset _⟩
      · obtain ⟨inner, henv, hinner⟩ := ih c (List.mem_of_getElem? hc) hu
        refine ⟨inner ++ opened l s ps i, ?_, List.append_subset.2
          ⟨List.Subset.trans hinner (scopes_part_subset hc), opened_subset_scopes l s ps i⟩⟩
        rw [henv, List.append_assoc]
        rfl

/-- The scopes around a use are those of the tree and those around the tree. -/
theorem env_subset_of_use {a : Around} {t : Tree} {u : Use} (hu : u ∈ gather useRule a t) :
    u.env ⊆ scopes t ++ a.env := by
  obtain ⟨inner, henv, hinner⟩ := env_of_use hu
  rw [henv]
  exact List.append_subset.2
    ⟨List.Subset.trans hinner (List.subset_append_left _ _), List.subset_append_right _ _⟩

/-! ## Reads -/

/-- The read that a use is, if it is one and means a symbol. -/
def Use.reads (table : Table) (u : Use) : List Read :=
  if isRead u.usage then
    (u.resolve table).toList.map fun symbol => ⟨u.site, u.name, u.usage, symbol⟩
  else []

mutual

/-- The reads of a tree are those of its uses. -/
theorem reads_eq_flatMap (table : Table) (a : Around) :
    (t : Tree) → reads table a.env t = (gather useRule a t).flatMap (Use.reads table)
  | .node l s ps => by
    rw [reads, gather, List.flatMap_append,
      ← readsAll_eq_flatMap table (a.inside l s ps) 0 ps]
    congr 1
    unfold ownRead useRule
    split <;> simp [Use.reads, Use.resolve]

theorem readsAll_eq_flatMap (table : Table) (a : Nat → Around) (i : Nat) :
    (ps : List Tree) → readsAll table (fun j => (a j).env) i ps =
      (gatherAll useRule a i ps).flatMap (Use.reads table)
  | [] => rfl
  | t :: ts => by
    rw [readsAll, gatherAll, List.flatMap_append, reads_eq_flatMap table (a i) t,
      readsAll_eq_flatMap table a (i + 1) ts]

end

/-- A reading use is among the reads of the symbol that it means. -/
theorem mem_readsOf {root : Tree} {u : Use} {symbol : Symbol} (hu : u ∈ uses root)
    (hread : isRead u.usage = true) (hmeans : u.resolve (tableOf root) = some symbol) :
    u.site ∈ readsOf (Binding.readsIn root) symbol := by
  have hall : Binding.readsIn root = (uses root).flatMap (Use.reads (tableOf root)) :=
    reads_eq_flatMap (tableOf root) {} root
  refine List.mem_map.2 ⟨⟨u.site, u.name, u.usage, symbol⟩, ?_, rfl⟩
  refine List.mem_filter.2 ⟨?_, by simp⟩
  rw [hall]
  refine List.mem_flatMap.2 ⟨u, hu, ?_⟩
  simp [Use.reads, hread, hmeans]

end RouteSplit.Scope
