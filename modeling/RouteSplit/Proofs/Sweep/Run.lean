import Mathlib.Logic.Relation
import RouteSplit.Proofs.Binding.Collected
import RouteSplit.Proofs.Sweep.Sites
import RouteSplit.Sweep.Basic

/-!
# Runs of a sweep

- `Dead`: a name that may go and that nothing reads outside its own code;
- `Pass`, `Reaches`: one pass that removes something, and any number of them;
- `sites_reaches_subset`, `sites_lt_of_pass`: no pass brings a name, and each takes one;
- `reaches_sweep`, `settled_sweep`: a sweep takes passes, and ends well only where none is left.
-/

namespace RouteSplit.Sweep

open Scope

/-! ## Dead names -/

/-- The name at `site` may go, is in the table, and nothing outside its own code reads it. -/
def Dead (t : Tree) (c : Context) (site : Span) : Prop :=
  ∃ bs, Binding.collect t = .ok bs ∧ ∃ b ∈ bs, b.site = site ∧ c.isTracked site = true ∧
    Binding.isReferenced (Binding.readsIn t) b = false

/-- The dead bindings are the collected ones that are tracked and not referenced. -/
theorem deadBindings_eq_ok {t : Tree} {c : Context} {dead : List Binding} :
    deadBindings t c = .ok dead ↔ ∃ bs, Binding.collect t = .ok bs ∧
      dead = bs.filter fun b => c.isTracked b.site && !Binding.isReferenced (Binding.readsIn t) b := by
  unfold deadBindings
  rw [Binding.bind_eq_ok]
  refine exists_congr fun bs => and_congr_right fun _ => ?_
  constructor
  · intro h
    exact (Except.ok.inj h).symm
  · rintro rfl
    rfl

/-- A place is one of the dead bindings if its name is dead. -/
theorem isDead_iff_dead {t : Tree} {c : Context} {dead : List Binding}
    (h : deadBindings t c = .ok dead) (site : Span) :
    isDead dead site = true ↔ Dead t c site := by
  obtain ⟨bs, hbs, rfl⟩ := deadBindings_eq_ok.1 h
  simp only [isDead, List.any_eq_true, List.mem_filter, Bool.and_eq_true, Bool.not_eq_true',
    beq_iff_eq]
  constructor
  · rintro ⟨b, ⟨hb, htracked, hunread⟩, rfl⟩
    exact ⟨bs, hbs, b, hb, rfl, htracked, hunread⟩
  · rintro ⟨bs', hbs', b, hb, rfl, htracked, hunread⟩
    obtain rfl := Except.ok.inj (hbs.symm.trans hbs')
    exact ⟨b, ⟨hb, htracked, hunread⟩, rfl⟩

theorem deadBindings_congr {c c' : Context} (h : c.refs = c'.refs) (t : Tree) :
    deadBindings t c = deadBindings t c' := by
  unfold deadBindings Context.isTracked
  rw [h]

/-! ## Passes -/

/-- One pass that removes something. -/
def Pass (c : Context) (t t' : Tree) : Prop :=
  ∃ dead, deadBindings t c = .ok dead ∧ dead ≠ [] ∧ t' = prune dead t

/-- Any number of passes. -/
abbrev Reaches (c : Context) : Tree → Tree → Prop := Relation.ReflTransGen (Pass c)

theorem inShape_of_pass {c : Context} {t t' : Tree} (h : Pass c t t') (ht : t.inShape = true) :
    t'.inShape = true := by
  obtain ⟨dead, -, -, rfl⟩ := h
  exact inShape_prune ht

/-- Passes leave a tree in shape. -/
theorem inShape_of_reaches {c : Context} {t t' : Tree} (h : Reaches c t t')
    (ht : t.inShape = true) : t'.inShape = true := by
  induction h with
  | refl => exact ht
  | tail _ hpass ih => exact inShape_of_pass hpass ih

/-- A binding of a tree stands where one of its tracked names does. -/
theorem site_mem_of_binding {table : Table} {a : Around} {t : Tree} {b : Binding}
    (hb : b ∈ gather (Binding.bindingRule table) a t) : b.site ∈ Binding.sites t := by
  induction t using Tree.induct generalizing a with
  | node l s ps ih =>
      refine mem_sites_node.2 ?_
      rcases Binding.mem_bindings_node hb with ⟨hl, c, hc, horigin⟩ | ⟨i, c, hc, hb⟩
      · exact Or.inl ⟨hl.1, c, hc, horigin.site_mem⟩
      · have hmem := List.mem_of_getElem? hc
        have hinside := Binding.searched_of_binding hb
        rw [inside_searched hc] at hinside
        have hsearched := (Bool.and_eq_true_iff.1 hinside).2
        exact Or.inr ⟨c, hmem, hsearched, ih c hmem hb⟩

theorem site_mem_of_dead {t : Tree} {c : Context} {dead : List Binding}
    (h : deadBindings t c = .ok dead) {b : Binding} (hb : b ∈ dead) :
    b.site ∈ Binding.sites t := by
  obtain ⟨bs, hbs, rfl⟩ := deadBindings_eq_ok.1 h
  exact site_mem_of_binding ((Binding.collect_spec hbs).2 (List.mem_of_mem_filter hb))

/-- Only tracked bindings are dead. -/
theorem tracked_of_dead {t : Tree} {c : Context} {dead : List Binding}
    (h : deadBindings t c = .ok dead) {b : Binding} (hb : b ∈ dead) :
    c.isTracked b.site = true := by
  obtain ⟨bs, -, rfl⟩ := deadBindings_eq_ok.1 h
  have hfound := (List.mem_filter.1 hb).2
  exact (Bool.and_eq_true _ _ ▸ hfound).1

/-- No pass brings a name. -/
theorem sites_prune_subset {dead : List Binding} {t : Tree} (ht : t.inShape = true) :
    Binding.sites (prune dead t) ⊆ Binding.sites t := by
  rw [sites_eq_gather, sites_eq_gather]
  exact gather_prune_subset cuttable_siteRule rfl ht

/-- Passes add no name. -/
theorem sites_reaches_subset {c : Context} {t t' : Tree} (h : Reaches c t t')
    (ht : t.inShape = true) : Binding.sites t' ⊆ Binding.sites t := by
  induction h with
  | refl => exact List.Subset.refl _
  | tail hreach hpass ih =>
      obtain ⟨dead, -, -, rfl⟩ := hpass
      refine List.Subset.trans ?_ ih
      exact sites_prune_subset (inShape_of_reaches hreach ht)

/-- Each pass takes a name that statements go by. -/
theorem sites_lt_of_pass {c : Context} {t t' : Tree} (h : Pass c t t') (ht : t.inShape = true) :
    (Binding.sites t').length < (Binding.sites t).length := by
  obtain ⟨dead, hdead, hne, rfl⟩ := h
  obtain ⟨b, hb⟩ := List.exists_mem_of_ne_nil dead hne
  have hsheds := gather_sheds_prune (cuttable_siteRule : Cuttable dead _ _) (a := {}) rfl ht
  have hsub : (Binding.sites (prune dead t)).Subperm (Binding.sites t) := by
    rw [sites_eq_gather, sites_eq_gather]
    exact (List.sublist_append_left _ _).subperm.trans hsheds.subperm
  by_contra hlen
  have hperm := hsub.perm_of_length_le (Nat.le_of_not_lt hlen)
  have hmem := hperm.mem_iff.2 (site_mem_of_dead hdead hb)
  have halive := sites_prune_alive ht hmem
  have hgone : isDead dead b.site = true := List.any_eq_true.2 ⟨b, hb, by simp⟩
  rw [halive] at hgone
  simp at hgone

/-! ## Sweeps -/

/-- What a step of a sweep can do: stop, or take a pass and go on or stop. -/
theorem passes_cases (max : Option Nat) (budget : Nat) (root : Tree) (c : Context) :
    ((passes max (budget + 1) root c).root = root ∧
      ((passes max (budget + 1) root c).result = .ok () → deadBindings root c = .ok [])) ∨
    ∃ root', Pass c root root' ∧
      (((passes max (budget + 1) root c).root = root' ∧
        (passes max (budget + 1) root c).result ≠ .ok ()) ∨
      ∃ c', c'.refs = c.refs ∧ passes max (budget + 1) root c = passes max budget root' c') := by
  have hrefs : deadBindings root { c with passes := c.passes + 1 } = deadBindings root c :=
    deadBindings_congr rfl root
  -- In the order of the loop: the limit, a list that cannot be made, nothing dead, a pass.
  rw [passes]
  split
  · exact Or.inl ⟨rfl, by simp⟩
  · simp only [hrefs]
    split
    · exact Or.inl ⟨rfl, by simp⟩
    · rename_i hdead
      exact Or.inl ⟨rfl, fun _ => hdead⟩
    · rename_i dead hne hdead
      refine Or.inr ⟨prune dead root, ⟨dead, hdead, ?_, rfl⟩, ?_⟩
      · exact fun h => hne h
      · split_ifs
        · exact Or.inr ⟨{ c with passes := c.passes + 1, removed := _ }, rfl, rfl⟩
        · exact Or.inl ⟨rfl, by simp⟩

/-- What a pass does depends on the tracked names and on nothing else that the context knows. -/
theorem pass_congr {c c' : Context} (h : c'.refs = c.refs) : Pass c' = Pass c := by
  funext t t'
  unfold Pass
  rw [deadBindings_congr h]

/-- What a number of passes leads to is reached pass by pass. -/
theorem reaches_passes (max : Option Nat) (budget : Nat) (root : Tree) (c : Context) :
    Reaches c root (passes max budget root c).root := by
  induction budget generalizing root c with
  | zero => exact .refl
  | succ budget ih =>
      rcases passes_cases max budget root c with ⟨hroot, -⟩ | ⟨root', hpass, hrest⟩
      · rw [hroot]
      · rcases hrest with ⟨hroot, -⟩ | ⟨c', hrefs, heq⟩
        · rw [hroot]
          exact .single hpass
        · rw [heq]
          have hrest := ih root' c'
          rw [Reaches, pass_congr hrefs] at hrest
          exact .head hpass hrest

/-- Passes that end well, with passes to spare, leave nothing that is dead. -/
theorem settled_passes (max : Option Nat) {budget : Nat} {root : Tree} {c : Context}
    (hshape : root.inShape = true) (hbudget : (Binding.sites root).length < budget)
    (hok : (passes max budget root c).result = .ok ()) :
    deadBindings (passes max budget root c).root c = .ok [] := by
  induction budget generalizing root c with
  | zero => omega
  | succ budget ih =>
      rcases passes_cases max budget root c with ⟨hroot, hdead⟩ | ⟨root', hpass, hrest⟩
      · rw [hroot]
        exact hdead hok
      · rcases hrest with ⟨-, herror⟩ | ⟨c', hrefs, heq⟩
        · exact absurd hok herror
        · rw [heq] at hok ⊢
          rw [← deadBindings_congr hrefs]
          have hless := sites_lt_of_pass hpass hshape
          exact ih (inShape_of_pass hpass hshape) (by omega) hok

/-- A sweep takes passes. -/
theorem reaches_sweep (o : Options) (root : Tree) (c : Context) :
    Reaches c root (sweep o root c).root :=
  reaches_passes o.maxPasses (budgetFor root) root c

/-- A sweep that ends well leaves nothing that may go and that nothing reads. -/
theorem settled_sweep {o : Options} {root : Tree} {c : Context} (hshape : root.inShape = true)
    (hok : (sweep o root c).result = .ok ()) :
    deadBindings (sweep o root c).root c = .ok [] :=
  settled_passes o.maxPasses hshape (Nat.lt_succ_self _) hok

end RouteSplit.Sweep
