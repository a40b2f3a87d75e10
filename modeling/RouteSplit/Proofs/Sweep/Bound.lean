import Mathlib.Data.Finset.Card
import RouteSplit.Proofs.Sweep.Limit

/-!
# How many passes a sweep takes

A sweep is given a number of passes that it may not exceed. The number plays no part: the passes end
by themselves, because each but the last takes a tracked name out of the tree and none brings one
back. Nothing is asked of the tree here but that its parts stand where they belong; passes may well
go wrong.

- `Runs`: passes until they end, with no bound on their number;
- `trackedSites`: the names that passes can take;
- `trackedSites_prune`: a pass takes as many of them as it finds dead bindings;
- `Runs.count`: the passes of a run, against what it puts down;
- `sweep_bounded`: a sweep without a limit ends, after no more passes than it has names to take and
  one.
-/

namespace RouteSplit.Sweep

variable {root : Tree} {c : Context} {dead : List Binding}

/-! ## Passes without end -/

/-- The context once a pass has begun. -/
def begun (c : Context) : Context := { c with passes := c.passes + 1 }

/-- Passes until they end, however many. They end where the table of bindings cannot be made, where
nothing is dead, and where what was put down does not match what was dead. -/
inductive Runs : Tree → Context → Outcome → Prop
  | failed {root : Tree} {c : Context} {e : PassError} :
      deadBindings root c = .error e → Runs root c ⟨root, begun c, .error e⟩
  | settled {root : Tree} {c : Context} :
      deadBindings root c = .ok [] → Runs root c ⟨root, begun c, .ok ()⟩
  | uneven {root : Tree} {c : Context} {dead : List Binding} :
      deadBindings root c = .ok dead → dead ≠ [] →
      (removeIn dead root).2.length ≠ dead.length →
      Runs root c ⟨prune dead root, begun c, .error (.inconsistency (toString dead.length ++
        " dead bindings selected but " ++ toString (removeIn dead root).2.length ++ " removed"))⟩
  | more {root : Tree} {c : Context} {dead : List Binding} {out : Outcome} :
      deadBindings root c = .ok dead → dead ≠ [] →
      (removeIn dead root).2.length = dead.length →
      Runs (prune dead root) (noted dead root c) out → Runs root c out

/-! ## The names that passes can take -/

/-- The tracked names that the tree still has. -/
def trackedSites (root : Tree) (c : Context) : Finset Span :=
  (Binding.sites root).toFinset.filter fun s => c.isTracked s = true

theorem mem_trackedSites {s : Span} :
    s ∈ trackedSites root c ↔ s ∈ Binding.sites root ∧ c.isTracked s = true := by
  rw [trackedSites, Finset.mem_filter, List.mem_toFinset]

/-- What a pass notes down does not change what is tracked. -/
@[simp] theorem trackedSites_noted (t : Tree) :
    trackedSites t (noted dead root c) = trackedSites t c := rfl

/-- The names of the dead bindings, each of which is a tracked name of the tree. -/
theorem deadSites_subset (hdead : deadBindings root c = .ok dead) :
    (dead.map (·.site)).toFinset ⊆ trackedSites root c := by
  intro s hs
  rcases List.mem_map.1 (List.mem_toFinset.1 hs) with ⟨b, hb, rfl⟩
  exact mem_trackedSites.2 ⟨site_mem_of_dead hdead hb, tracked_of_dead hdead hb⟩

/-- A pass takes as many tracked names as it finds dead bindings, and brings none back. -/
theorem trackedSites_prune (hshape : root.inShape = true)
    (hdead : deadBindings root c = .ok dead) :
    dead.length + (trackedSites (prune dead root) c).card ≤ (trackedSites root c).card := by
  have hnodup : (dead.map (·.site)).Nodup := List.pairwise_map.2 (unique_deadBindings hdead)
  have hcount : (dead.map (·.site)).toFinset.card = dead.length := by
    rw [List.toFinset_card_of_nodup hnodup, List.length_map]
  -- What is left has no dead name, so the two can be counted one after the other.
  have hdisjoint : Disjoint (dead.map (·.site)).toFinset (trackedSites (prune dead root) c) := by
    rw [Finset.disjoint_left]
    intro s hs hleft
    rcases List.mem_map.1 (List.mem_toFinset.1 hs) with ⟨b, hb, rfl⟩
    have halive := sites_prune_alive hshape (mem_trackedSites.1 hleft).1
    have hgone : isDead dead b.site = true := List.any_eq_true.2 ⟨b, hb, by simp⟩
    exact absurd hgone (by simp [halive])
  have hleft : trackedSites (prune dead root) c ⊆ trackedSites root c := by
    intro s hs
    rcases mem_trackedSites.1 hs with ⟨hsite, htracked⟩
    exact mem_trackedSites.2 ⟨sites_prune_subset hshape hsite, htracked⟩
  calc
    dead.length + (trackedSites (prune dead root) c).card
        = ((dead.map (·.site)).toFinset ∪ trackedSites (prune dead root) c).card := by
          rw [Finset.card_union_of_disjoint hdisjoint, hcount]
    _ ≤ (trackedSites root c).card :=
          Finset.card_le_card (Finset.union_subset (deadSites_subset hdead) hleft)

/-! ## Runs -/

/-- With more passes than there are names to take, passes end before they are used up. -/
theorem runs_passes (hshape : root.inShape = true) {budget : Nat}
    (hbudget : (trackedSites root c).card < budget) :
    Runs root c (passes none budget root c) := by
  induction budget generalizing root c with
  | zero => exact absurd hbudget (Nat.not_lt_zero _)
  | succ budget ih =>
      have hbegun : deadBindings root (begun c) = deadBindings root c :=
        deadBindings_congr rfl root
      rw [begun] at hbegun
      rw [passes, show atLimit none c.passes = none from rfl]
      simp only [hbegun]
      cases hdead : deadBindings root c with
      | error e => exact .failed hdead
      | ok dead =>
          cases dead with
          | nil => exact .settled hdead
          | cons b bs =>
              have hless := trackedSites_prune hshape hdead
              simp only [List.length_cons] at hless
              by_cases hlength : (removeIn (b :: bs) root).2.length = (b :: bs).length
              · simp only [hlength, beq_self_eq_true, if_true]
                refine .more hdead (List.cons_ne_nil b bs) hlength (ih (inShape_prune hshape) ?_)
                rw [trackedSites_noted]
                omega
              · simp only [beq_eq_false_iff_ne.2 hlength, Bool.false_eq_true, if_false]
                exact .uneven hdead (List.cons_ne_nil b bs) hlength

/-- A run puts down at least one binding for each of its passes but the last, and no more bindings
than there are names to take. -/
theorem Runs.count {out : Outcome} (h : Runs root c out) (hshape : root.inShape = true) :
    ∃ lost, out.context.removed = c.removed ++ lost ∧ c.passes < out.context.passes ∧
      out.context.passes ≤ c.passes + lost.length + 1 ∧
      lost.length ≤ (trackedSites root c).card := by
  induction h with
  | failed _ => exact ⟨[], (List.append_nil _).symm, Nat.lt_succ_self _, le_rfl, Nat.zero_le _⟩
  | settled _ => exact ⟨[], (List.append_nil _).symm, Nat.lt_succ_self _, le_rfl, Nat.zero_le _⟩
  | uneven _ _ _ =>
      exact ⟨[], (List.append_nil _).symm, Nat.lt_succ_self _, le_rfl, Nat.zero_le _⟩
  | @more root c dead out hdead hne hlength _ ih =>
      rcases ih (inShape_prune hshape) with ⟨rest, hremoved, hlow, hhigh, htracked⟩
      have hless := trackedSites_prune hshape hdead
      have hpos : 0 < dead.length := List.length_pos_of_ne_nil hne
      rw [trackedSites_noted] at htracked
      simp only [noted] at hremoved hlow hhigh
      refine ⟨(removeIn dead root).2 ++ rest, ?_, ?_, ?_, ?_⟩
      · rw [hremoved, List.append_assoc]
      · omega
      · rw [List.length_append, hlength]
        omega
      · rw [List.length_append, hlength]
        omega

/-- A run that ends well ends where nothing is dead. -/
theorem Runs.nothing_dead {out : Outcome} (h : Runs root c out) (hok : out.result = .ok ()) :
    deadBindings out.root c = .ok [] := by
  induction h with
  | failed _ => simp at hok
  | settled hdead => exact hdead
  | uneven _ _ _ => simp at hok
  | more _ _ _ _ ih => exact ih hok

/-- Passes can end in one way only. -/
theorem Runs.unique {out out' : Outcome} (h : Runs root c out) (h' : Runs root c out') :
    out = out' := by
  induction h with
  | failed hdead => cases h' <;> simp_all
  | settled hdead => cases h' <;> simp_all
  | uneven hdead hne hlength => cases h' <;> simp_all
  | @more root c dead out hdead hne hlength _ ih =>
      cases h' with
      | failed hdead' => simp [hdead] at hdead'
      | settled hdead' => simp_all
      | uneven hdead' _ hlength' =>
          obtain rfl := Except.ok.inj (hdead.symm.trans hdead')
          exact absurd hlength hlength'
      | more hdead' _ _ hrest =>
          obtain rfl := Except.ok.inj (hdead.symm.trans hdead')
          exact ih hrest

/-- A sweep is given more passes than there are tracked names. -/
theorem card_trackedSites_lt_budget (root : Tree) (c : Context) :
    (trackedSites root c).card < budgetFor root := by
  apply Nat.lt_succ_of_le
  calc
    (trackedSites root c).card ≤ (Binding.sites root).toFinset.card := Finset.card_filter_le _ _
    _ ≤ (Binding.sites root).length := List.toFinset_card_le _

/-- A sweep without a limit ends, whatever is tracked: it is a run of passes, and no bound on their
number cuts it short. It takes at most one pass more than it puts bindings down, and those are at
most the tracked names of the tree that it starts from. If it ends well, it leaves nothing dead. -/
theorem sweep_bounded (o : Options) {root : Tree} (hshape : root.inShape = true) (c : Context) :
    ∃ out lost, sweep { o with maxPasses := none } root c = out ∧ Runs root c out ∧
      (∀ budget, (trackedSites root c).card < budget → passes none budget root c = out) ∧
      out.context.removed = c.removed ++ lost ∧ c.passes < out.context.passes ∧
      out.context.passes ≤ c.passes + lost.length + 1 ∧
      lost.length ≤ (trackedSites root c).card ∧
      (out.result = .ok () → deadBindings out.root c = .ok []) := by
  have hruns : Runs root c (sweep { o with maxPasses := none } root c) :=
    runs_passes hshape (card_trackedSites_lt_budget root c)
  rcases hruns.count hshape with ⟨lost, hremoved, hlow, hhigh, htracked⟩
  refine ⟨_, lost, rfl, hruns, ?_, hremoved, hlow, hhigh, htracked, hruns.nothing_dead⟩
  intro budget hbudget
  exact (runs_passes hshape hbudget).unique hruns

/-- The bound is met: of two functions, the one that calls the other goes first, then the other, and
a third pass finds nothing. A tracked place that the tree does not have does not count. -/
theorem sweep_bounded_chainModule :
    chainModule.inShape = true ∧ ∃ out lost,
      sweep {} chainModule { refs := [⟨9, 10⟩, ⟨25, 26⟩, ⟨99, 100⟩] } = out ∧
      out.result = .ok () ∧ out.context.removed = lost ∧ out.context.passes = lost.length + 1 ∧
      lost.length = (trackedSites chainModule { refs := [⟨9, 10⟩, ⟨25, 26⟩, ⟨99, 100⟩] }).card := by
  have hshape : chainModule.inShape = true := by decide
  rcases sweep_bounded {} hshape { refs := [⟨9, 10⟩, ⟨25, 26⟩, ⟨99, 100⟩] } with
    ⟨out, lost, rfl, -, -, hremoved, -, -, -, -⟩
  have hlost : lost = [⟨"b", .function⟩, ⟨"a", .function⟩] := hremoved.symm.trans rfl
  refine ⟨hshape, _, lost, rfl, rfl, hremoved, ?_, ?_⟩
  · rw [hlost]
    rfl
  · rw [hlost]
    decide

end RouteSplit.Sweep
