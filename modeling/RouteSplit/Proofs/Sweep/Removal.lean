import RouteSplit.Proofs.Sweep.Run

/-!
# What a sweep removes

- `sites_nodup_of_reaches`: passes never repeat a name;
- `swept_iff_dead`: a pass takes the dead names and what lies in code that goes with them, and a
  sweep that ends well leaves no dead name.
-/

namespace RouteSplit.Sweep

open Scope

/-- No two tracked names of a pruned tree share their place, if none did before. -/
theorem sites_nodup_prune {dead : List Binding} {t : Tree} (ht : t.inShape = true)
    (hnodup : (Binding.sites t).Nodup) : (Binding.sites (prune dead t)).Nodup := by
  rw [sites_eq_gather] at hnodup ⊢
  exact (List.nodup_append.1 ((gather_sheds_prune cuttable_siteRule rfl ht).nodup hnodup)).1

theorem sites_nodup_of_pass {c : Context} {t t' : Tree} (h : Pass c t t') (ht : t.inShape = true)
    (hnodup : (Binding.sites t).Nodup) : (Binding.sites t').Nodup := by
  obtain ⟨dead, -, -, rfl⟩ := h
  exact sites_nodup_prune ht hnodup

/-- No two tracked names share their place behind a run of passes, if none did before. -/
theorem sites_nodup_of_reaches {c : Context} {t t' : Tree} (h : Reaches c t t')
    (ht : t.inShape = true) (hnodup : (Binding.sites t).Nodup) : (Binding.sites t').Nodup := by
  induction h with
  | refl => exact hnodup
  | tail hreach hpass ih => exact sites_nodup_of_pass hpass (inShape_of_reaches hreach ht) ih

/-- The names that a pass takes are those that are dead when it begins and those in code that goes
with dead names. -/
theorem mem_sites_pass_iff {c : Context} {t t' : Tree} (h : Pass c t t') (ht : t.inShape = true)
    (hnodup : (Binding.sites t).Nodup) {s : Span} (hs : s ∈ Binding.sites t) :
    s ∉ Binding.sites t' ↔ Dead t c s ∨
      ∃ p ∈ pieces t, p.names ≠ [] ∧ (∀ n ∈ p.names, Dead t c n) ∧ s ∈ Binding.sites p.code := by
  obtain ⟨dead, hdead, -, rfl⟩ := h
  rw [mem_sites_prune_iff ht hnodup hs, isDead_iff_dead hdead]
  simp only [Piece.Gone, AllDead, isDead_iff_dead hdead, and_assoc]

/-- Where no dead name is left, every name of the table that may go is read outside its own
code. -/
theorem referenced_of_settled {t : Tree} {c : Context} (h : deadBindings t c = .ok []) :
    ∃ bs, Binding.collect t = .ok bs ∧ ∀ b ∈ bs, c.isTracked b.site = true →
      Binding.isReferenced (Binding.readsIn t) b = true := by
  obtain ⟨bs, hbs, hnil⟩ := deadBindings_eq_ok.1 h
  refine ⟨bs, hbs, fun b hb htracked => ?_⟩
  have hstays := List.filter_eq_nil_iff.1 hnil.symm b hb
  simpa [htracked] using hstays

/-- A name is swept if and only if it is dead or lies in code that goes with dead names: this holds
of every pass of a run, and a sweep that ends well leaves no dead name. -/
theorem swept_iff_dead (o : Options) (root : Tree) (c : Context) (hshape : root.inShape = true)
    (hsites : (Binding.sites root).Nodup) :
    (∀ t t', Reaches c root t → Pass c t t' → ∀ s ∈ Binding.sites t,
      (s ∉ Binding.sites t' ↔ Dead t c s ∨
        ∃ p ∈ pieces t, p.names ≠ [] ∧ (∀ n ∈ p.names, Dead t c n) ∧
          s ∈ Binding.sites p.code)) ∧
    Reaches c root (sweep o root c).root ∧
    ((sweep o root c).result = .ok () →
      ∃ bs, Binding.collect (sweep o root c).root = .ok bs ∧
        ∀ b ∈ bs, c.isTracked b.site = true →
          Binding.isReferenced (Binding.readsIn (sweep o root c).root) b = true) := by
  refine ⟨?_, reaches_sweep o root c, fun hok => referenced_of_settled (settled_sweep hshape hok)⟩
  intro t t' hreach hpass s hs
  exact mem_sites_pass_iff hpass (inShape_of_reaches hreach hshape)
    (sites_nodup_of_reaches hreach hshape hsites) hs

/-- A module with a function that holds a constant. -/
def nestedConstant : Tree :=
  let leaf (label : Label) (start stop : Nat) : Tree := .node label ⟨start, stop⟩ []
  let constant : Tree :=
    .node (.statement (.variableList .constVariable false)) ⟨15, 27⟩
      [.node (.statement (.declarator false)) ⟨21, 26⟩
        [leaf (.pattern (.binding "x")) 21 22, .absent, leaf (.expression (.number "1")) 25 26]]
  let function : Tree :=
    .node (.function (.function .declaration false {})) ⟨0, 29⟩
      [leaf (.pattern (.binding "f")) 9 10, .absent, leaf (.function .parameters) 10 12, .absent,
        .node (.function .body) ⟨13, 29⟩
          [leaf (.module .prologue) 14 14, .node (.module .statements) ⟨14, 28⟩ [constant]]]
  .node (.module (.program none true)) ⟨0, 29⟩
    [leaf (.module .prologue) 0 0, .node (.module .statements) ⟨0, 29⟩ [function]]

/-- With the function goes the constant in it, although only the function may go. The sweep ends
well, and nothing that it may remove is left without a read. -/
theorem swept_with_function :
    nestedConstant.inShape = true ∧ (Binding.sites nestedConstant).Nodup ∧
      (∃ t', Pass { refs := [⟨9, 10⟩] } nestedConstant t' ∧
        ⟨21, 22⟩ ∈ Binding.sites nestedConstant ∧ ⟨21, 22⟩ ∉ Binding.sites t') ∧
      (sweep {} nestedConstant { refs := [⟨9, 10⟩] }).result = .ok () ∧
      ∃ bs, Binding.collect (sweep {} nestedConstant { refs := [⟨9, 10⟩] }).root = .ok bs ∧
        ∀ b ∈ bs, Context.isTracked { refs := [⟨9, 10⟩] } b.site = true →
          Binding.isReferenced
            (Binding.readsIn (sweep {} nestedConstant { refs := [⟨9, 10⟩] }).root) b = true := by
  have hshape : nestedConstant.inShape = true := by decide
  have hsites : (Binding.sites nestedConstant).Nodup := by decide
  have hdead : deadBindings nestedConstant { refs := [⟨9, 10⟩] } =
      .ok [⟨"f", .function, ⟨9, 10⟩, ⟨0, 29⟩, ⟨"f", ⟨9, 10⟩⟩⟩] := by rfl
  have hpass : Pass { refs := [⟨9, 10⟩] } nestedConstant _ := ⟨_, hdead, by simp, rfl⟩
  have hok : (sweep {} nestedConstant { refs := [⟨9, 10⟩] }).result = .ok () := by rfl
  obtain ⟨hswept, -, hsettled⟩ :=
    swept_iff_dead {} nestedConstant { refs := [⟨9, 10⟩] } hshape hsites
  refine ⟨hshape, hsites, ⟨_, hpass, by decide, ?_⟩, hok, hsettled hok⟩
  refine (hswept _ _ .refl hpass ⟨21, 22⟩ (by decide)).2
    (Or.inr ⟨_, List.mem_cons_self, by decide, ?_, by decide⟩)
  intro n hn
  obtain rfl : n = ⟨9, 10⟩ := List.mem_singleton.1 hn
  exact (isDead_iff_dead hdead _).1 rfl

end RouteSplit.Sweep
