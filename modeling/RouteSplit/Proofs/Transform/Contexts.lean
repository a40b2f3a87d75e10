import RouteSplit.Proofs.Transform.Steps

/-!
# Contexts over steps in any order

What a context knows is never taken back, whichever steps are taken, in whatever order, and whether
or not they succeed.

- `Context.Grows`: what a context may come to;
- `grows_seed`, `grows_resolve`, `grows_passes`, `grows_decorate`: each kind of step;
- `Session.marks`, `Session.markings`: the steps that put in a marker, and their number;
- `grows_after`, `done_add_markings`: any number of steps;
- `contexts_grow`: all of it, from any session.
-/

namespace RouteSplit

open Scope Sweep Export RouteSplit.Module

/-! ## Contexts that grow -/

/-- What a context may come to: places and flags stay, passes are counted on, and the record of what
was removed is written on. -/
structure Context.Grows (c c' : Context) : Prop where
  refs : c.refs ⊆ c'.refs
  removed : c.removed <+: c'.removed
  served : c.hasServerExport = true → c'.hasServerExport = true
  done : c.done = true → c'.done = true
  passes : c.passes ≤ c'.passes

namespace Context.Grows

variable {c c' c'' : Context}

theorem refl (c : Context) : c.Grows c :=
  ⟨List.Subset.refl _, List.prefix_refl _, id, id, Nat.le_refl _⟩

/-- A context that grows twice has grown. -/
theorem trans (h : c.Grows c') (h' : c'.Grows c'') : c.Grows c'' where
  refs := List.Subset.trans h.refs h'.refs
  removed := h.removed.trans h'.removed
  served := h'.served ∘ h.served
  done := h'.done ∘ h.done
  passes := Nat.le_trans h.passes h'.passes

end Context.Grows

/-- Tracking one more binding lets a context grow. -/
theorem grows_track (c : Context) (site : Span) : c.Grows (c.track site) := by
  unfold Context.track
  split_ifs
  · exact .refl c
  · exact ⟨List.subset_append_left _ _, List.prefix_refl _, id, id, Nat.le_refl _⟩

theorem grows_foldl_track (bs : List Binding) (c : Context) :
    c.Grows (bs.foldl (fun c b => c.track b.site) c) := by
  induction bs generalizing c with
  | nil => exact .refl c
  | cons b bs ih => exact (grows_track c b.site).trans (ih _)

/-! ## One step -/

/-- Seeding that works adds places. -/
theorem grows_seed {root : Tree} {c c' : Context} (h : seed root c = .ok c') : c.Grows c' := by
  unfold seed at h
  obtain ⟨bs, -, h⟩ := Binding.bind_eq_ok.1 h
  obtain rfl := Except.ok.inj h
  exact grows_foldl_track _ c

/-- Resolving the exports lets a context grow. -/
theorem grows_resolve (o : Options) (root : Tree) (c : Context) :
    c.Grows (Export.resolve o root c).2 := by
  refine ⟨List.Subset.refl _, List.prefix_refl _, fun hserver => ?_, fun hdone => ?_, Nat.le_refl _⟩
  · change (_ || _) = true
    rw [hserver, Bool.true_or]
  · change (_ || _) = true
    rw [hdone, Bool.true_or]

/-- A pass counts itself before it looks, and puts down what it took even where it then fails. -/
theorem grows_passes (max : Option Nat) (budget : Nat) (root : Tree) (c : Context) :
    c.Grows (passes max budget root c).context := by
  induction budget generalizing root c with
  | zero => exact .refl c
  | succ budget ih =>
      have hbegun : c.Grows { c with passes := c.passes + 1 } :=
        ⟨List.Subset.refl _, List.prefix_refl _, id, id, Nat.le_succ _⟩
      rw [passes]
      split
      · exact .refl c
      · dsimp only
        split
        · exact hbegun
        · exact hbegun
        · split_ifs
          · refine Context.Grows.trans ?_ (ih _ _)
            exact ⟨List.Subset.refl _, List.prefix_append _ _, id, id, Nat.le_succ _⟩
          · exact hbegun

/-- Marking a module lets its context grow. -/
theorem grows_decorate (o : Options) (root : Tree) (c : Context) :
    c.Grows (Export.decorate o root c).2.1 := by
  unfold Export.decorate
  split_ifs
  · exact .refl c
  · split
    · exact .refl c
    · exact ⟨List.Subset.refl _, List.prefix_refl _, id, fun _ => rfl, Nat.le_refl _⟩

/-- A marker is put in where there is none, and is then there; otherwise nothing changes. -/
theorem decorate_flag (o : Options) (root : Tree) (c : Context) :
    ((Export.decorate o root c).2.2 = true ∧ c.done = false ∧
        (Export.decorate o root c).2.1.done = true) ∨
      Export.decorate o root c = (root, c, false) := by
  unfold Export.decorate
  split_ifs with hskip
  · exact Or.inr rfl
  · split
    · exact Or.inr rfl
    · simp only [Bool.or_eq_true, not_or, Bool.not_eq_true] at hskip
      exact Or.inl ⟨rfl, hskip.1, rfl⟩

/-! ## Steps of a session -/

namespace Session

/-- Seeding that fails leaves the session as it is. -/
theorem seed_cases (s : Session) : s.seed.2 = .ok () ∨ s.seed.1 = s := by
  unfold seed
  split
  · exact Or.inl rfl
  · exact Or.inr rfl

/-- Whether a step puts in a marker. -/
def marks (s : Session) : Step → Bool
  | .decorate o => (s.decorate o).2
  | _ => false

/-- How many of the steps put in a marker. -/
def markings (s : Session) : List Step → Nat
  | [] => 0
  | step :: steps => (s.marks step).toNat + (s.take step).markings steps

theorem decorate_marks (s : Session) (o : Options) :
    ((s.decorate o).2 = true ∧ s.context.done = false ∧ (s.decorate o).1.context.done = true) ∨
      ((s.decorate o).2 = false ∧ (s.decorate o).1 = s) := by
  unfold decorate
  rcases decorate_flag o s.module.root s.context with hmarked | hsame
  · exact Or.inl hmarked
  · rw [hsame]
    exact Or.inr ⟨rfl, rfl⟩

/-- Each step lets the context grow, whether it fails or not. -/
theorem grows_take (s : Session) (step : Step) : s.context.Grows (s.take step).context := by
  cases step with
  | seed =>
      change s.context.Grows s.seed.1.context
      unfold seed
      split
      · rename_i c hseed
        exact grows_seed hseed
      · exact .refl _
  | resolve o => exact grows_resolve o s.module.root s.context
  | sweep o => exact grows_passes o.maxPasses _ s.module.root s.context
  | decorate o => exact grows_decorate o s.module.root s.context

/-- Any steps let the context grow. -/
theorem grows_after (s : Session) (steps : List Step) :
    s.context.Grows (s.after steps).context := by
  induction steps generalizing s with
  | nil => exact .refl _
  | cons step steps ih => exact (s.grows_take step).trans (ih (s.take step))

/-- A step that puts in a marker turns the flag on. -/
theorem done_add_marks (s : Session) (step : Step) :
    s.context.done.toNat + (s.marks step).toNat ≤ (s.take step).context.done.toNat := by
  have hgrows := (s.grows_take step).done
  have hkeeps : s.context.done.toNat ≤ (s.take step).context.done.toNat := by
    cases hdone : s.context.done with
    | false => simp
    | true => rw [hgrows hdone]
  cases step with
  | decorate o =>
      change _ + (s.decorate o).2.toNat ≤ (s.decorate o).1.context.done.toNat
      rcases s.decorate_marks o with ⟨hmarks, hnot, hdone⟩ | ⟨hmarks, heq⟩
      · rw [hmarks, hnot, hdone]
        exact Nat.le_refl _
      · rw [hmarks, heq]
        exact Nat.le_refl _
  | _ => exact hkeeps

/-- The flag and the steps that put in a marker add up to no more than the flag in the end. -/
theorem done_add_markings (s : Session) (steps : List Step) :
    s.context.done.toNat + s.markings steps ≤ (s.after steps).context.done.toNat := by
  induction steps generalizing s with
  | nil => exact Nat.le_refl _
  | cons step steps ih =>
      have hstep := s.done_add_marks step
      have hrest := ih (s.take step)
      change _ + ((s.marks step).toNat + (s.take step).markings steps) ≤
        ((s.take step).after steps).context.done.toNat
      omega

end Session

/-- Whatever steps are taken on a session, in any order, each with options of its own, and going on
after errors, its context grows with each of them: no place, no flag and no record of a removal is
lost, and passes are counted on. Seeding that fails changes nothing, and neither does a decoration
that puts in no marker. Of all decorations one at most does, and none if the marker was there. -/
theorem contexts_grow (s : Session) (before steps : List Session.Step) (o : Options) :
    (s.after before).context.Grows (s.after (before ++ steps)).context ∧
      ((s.after before).seed.2 = .ok () ∨ (s.after before).seed.1 = s.after before) ∧
      (((s.after before).decorate o).2 = true ∨
        ((s.after before).decorate o).1 = s.after before) ∧
      s.context.done.toNat + s.markings (before ++ steps) ≤ 1 := by
  refine ⟨?_, (s.after before).seed_cases, ?_, ?_⟩
  · rw [Session.after, Session.after, List.foldl_append]
    exact (s.after before).grows_after steps
  · exact ((s.after before).decorate_marks o).imp And.left And.right
  · exact Nat.le_trans (s.done_add_markings _) (Bool.toNat_le _)

end RouteSplit
