import RouteSplit.Proofs.Sweep.Tally

/-!
# Passes under a limit

A limit is looked at before a pass and changes nothing about the passes that it allows. A sweep that
it stops can therefore be taken up again.

- `passes_stopped`, `passes_last`, `passes_more`: the ways in which a pass can go;
- `Ends`: the number of passes that a tree needs;
- `exists_ends`, `Ends.le_budget`: there is one, and a sweep has passes enough;
- `Ends.passes_enough`, `Ends.passes_short`: a limit that is far enough, and one that is not;
- `Ends.resumed`: passes that are taken up again;
- `sweep_limit`: a limit cuts a sweep short and does not change it.
-/

namespace RouteSplit.Sweep

open Scope

variable {root : Tree} {c : Context} {dead : List Binding} {n : Nat}

/-! ## One pass -/

/-- The context after a pass that took `dead` out of the tree. -/
def noted (dead : List Binding) (root : Tree) (c : Context) : Context :=
  { c with passes := c.passes + 1, removed := c.removed ++ (removeIn dead root).2 }

theorem atLimit_eq_some {limit passes : Nat} (h : limit ≤ passes) :
    atLimit (some limit) passes = some limit := by
  simp [atLimit, h]

theorem atLimit_eq_none {max : Option Nat} {passes : Nat}
    (h : ∀ limit, max = some limit → passes < limit) : atLimit max passes = none := by
  cases max with
  | none => rfl
  | some limit => simpa [atLimit] using h limit rfl

/-- At the limit nothing is done. -/
theorem passes_stopped {max : Option Nat} {limit : Nat} (h : atLimit max c.passes = some limit)
    (budget : Nat) :
    passes max (budget + 1) root c = ⟨root, c, .error (.passLimitExceeded limit)⟩ := by
  rw [passes, h]

/-- Where nothing is dead, a pass is the last one. -/
theorem passes_last {max : Option Nat} (hlimit : atLimit max c.passes = none)
    (hdead : deadBindings root c = .ok []) (budget : Nat) :
    passes max (budget + 1) root c = ⟨root, { c with passes := c.passes + 1 }, .ok ()⟩ := by
  have hdead : deadBindings root { c with passes := c.passes + 1 } = .ok [] :=
    (deadBindings_congr rfl root).trans hdead
  rw [passes, hlimit]
  simp only [hdead]

/-- Where something is dead, a pass takes it and another one follows: what went was put down binding
by binding. -/
theorem passes_more {max : Option Nat} (hroot : Sweepable root)
    (hlimit : atLimit max c.passes = none) (hdead : deadBindings root c = .ok dead)
    (hne : dead ≠ []) (budget : Nat) :
    passes max (budget + 1) root c = passes max budget (prune dead root) (noted dead root c) := by
  have hlength : (removeIn dead root).2.length = dead.length := by
    rw [(record_perm_dead hroot hdead).length_eq, List.length_map]
  have hdead : deadBindings root { c with passes := c.passes + 1 } = .ok dead :=
    (deadBindings_congr rfl root).trans hdead
  rcases List.exists_cons_of_ne_nil hne with ⟨b, bs, rfl⟩
  rw [passes, hlimit]
  simp only [hdead]
  rw [if_pos (by simpa using hlength)]
  rfl

/-! ## The number of passes -/

/-- A sweep needs `n` passes from here: all but the last one take something. -/
inductive Ends : Nat → Tree → Context → Prop
  | last {root : Tree} {c : Context} : deadBindings root c = .ok [] → Ends 1 root c
  | more {n : Nat} {root : Tree} {c : Context} {dead : List Binding} :
      deadBindings root c = .ok dead → dead ≠ [] →
      Ends n (prune dead root) (noted dead root c) → Ends (n + 1) root c

theorem Ends.pos (h : Ends n root c) : 0 < n := by
  cases h <;> exact Nat.succ_pos _

/-- Each pass but the last takes a name, so a sweep has passes enough. -/
theorem Ends.le_budget (h : Ends n root c) (hroot : Sweepable root) : n ≤ budgetFor root := by
  induction h with
  | last _ => exact Nat.succ_le_succ (Nat.zero_le _)
  | more hdead hne _ ih =>
      have hless := sites_lt_of_pass ⟨_, hdead, hne, rfl⟩ hroot.shape
      have hrest := ih (sweepable_prune hroot)
      unfold budgetFor at hrest ⊢
      omega

/-- Passes without a limit come to an end. -/
theorem exists_ends (hroot : Sweepable root) (c : Context) : ∃ n, Ends n root c := by
  -- By the number of names: a pass that takes something leaves fewer.
  induction hsize : (Binding.sites root).length using Nat.strong_induction_on
    generalizing root c with
  | _ size ih =>
      rcases exists_deadBindings hroot.supported c with ⟨dead, hdead⟩
      by_cases hne : dead = []
      · subst hne
        exact ⟨1, .last hdead⟩
      · have hless := sites_lt_of_pass ⟨dead, hdead, hne, rfl⟩ hroot.shape
        rw [hsize] at hless
        rcases ih _ hless (sweepable_prune hroot) (noted dead root c) rfl with ⟨n, hn⟩
        exact ⟨n + 1, .more hdead hne hn⟩

/-! ## Runs -/

/-- Where passes come to an end, they end well. -/
theorem Ends.result (h : Ends n root c) (hroot : Sweepable root) :
    (passes none n root c).result = .ok () := by
  induction h with
  | last hdead => rw [passes_last rfl hdead]
  | more hdead hne _ ih =>
      rw [passes_more hroot rfl hdead hne]
      exact ih (sweepable_prune hroot)

/-- Until a sweep ends, each pass counts. -/
theorem Ends.counted (h : Ends n root c) (hroot : Sweepable root) {k : Nat} (hk : k ≤ n) :
    (passes none k root c).context.passes = c.passes + k := by
  induction h generalizing k with
  | @last root c hdead =>
      rcases Nat.le_one_iff_eq_zero_or_eq_one.1 hk with rfl | rfl
      · rfl
      · rw [passes_last rfl hdead]
  | @more n root c dead hdead hne _ ih =>
      cases k with
      | zero => rfl
      | succ k =>
          rw [passes_more hroot rfl hdead hne, ih (sweepable_prune hroot) (by omega)]
          change c.passes + 1 + k = c.passes + (k + 1)
          omega

/-- A limit that allows all passes does not matter, and neither do passes to spare. -/
theorem Ends.passes_enough (h : Ends n root c) (hroot : Sweepable root) {max : Option Nat}
    (hmax : ∀ limit, max = some limit → c.passes + n ≤ limit) {budget : Nat}
    (hbudget : n ≤ budget) :
    passes max budget root c = passes none n root c := by
  induction h generalizing budget with
  | @last root c hdead =>
      rcases Nat.exists_eq_add_of_le' hbudget with ⟨budget, rfl⟩
      have hlimit : atLimit max c.passes = none :=
        atLimit_eq_none fun limit heq => hmax limit heq
      rw [passes_last hlimit hdead, passes_last rfl hdead]
  | @more n root c dead hdead hne _ ih =>
      cases budget with
      | zero => omega
      | succ budget =>
          have hlimit : atLimit max c.passes = none := by
            apply atLimit_eq_none
            intro limit heq
            have := hmax limit heq
            omega
          rw [passes_more hroot hlimit hdead hne, passes_more hroot rfl hdead hne]
          refine ih (sweepable_prune hroot) ?_ (by omega)
          intro limit heq
          have := hmax limit heq
          change c.passes + 1 + n ≤ limit
          omega

/-- A limit that does not allow all passes stops the sweep where it is reached. -/
theorem Ends.passes_short (h : Ends n root c) (hroot : Sweepable root) {limit : Nat}
    (hshort : limit < c.passes + n) {budget : Nat} (hbudget : limit - c.passes < budget) :
    passes (some limit) budget root c =
      ⟨(passes none (limit - c.passes) root c).root,
        (passes none (limit - c.passes) root c).context, .error (.passLimitExceeded limit)⟩ := by
  induction h generalizing budget with
  | @last root c hdead =>
      have hzero : limit - c.passes = 0 := by omega
      rcases Nat.exists_eq_add_one_of_ne_zero (by omega : budget ≠ 0) with ⟨budget, rfl⟩
      rw [hzero]
      exact passes_stopped (atLimit_eq_some (by omega)) budget
  | @more n root c dead hdead hne _ ih =>
      cases budget with
      | zero => omega
      | succ budget =>
          -- Either the limit is reached here, or one more pass is allowed.
          by_cases hreached : limit ≤ c.passes
          · have hzero : limit - c.passes = 0 := by omega
            rw [hzero]
            exact passes_stopped (atLimit_eq_some hreached) budget
          · have hlimit : atLimit (some limit) c.passes = none := by
              apply atLimit_eq_none
              intro limit' heq
              obtain rfl := Option.some.inj heq
              omega
            have hnoted : (noted dead root c).passes = c.passes + 1 := rfl
            have hleft : limit - c.passes = limit - (c.passes + 1) + 1 := by omega
            rw [hleft, passes_more hroot hlimit hdead hne, passes_more hroot rfl hdead hne,
              ← hnoted]
            apply ih (sweepable_prune hroot)
            · rw [hnoted]
              omega
            · rw [hnoted]
              omega

/-- Passes that are taken up again lead where they would have led. -/
theorem Ends.resumed (h : Ends n root c) (hroot : Sweepable root) {k : Nat} (hk : k < n) :
    Sweepable (passes none k root c).root ∧
      Ends (n - k) (passes none k root c).root (passes none k root c).context ∧
      passes none (n - k) (passes none k root c).root (passes none k root c).context =
        passes none n root c := by
  induction h generalizing k with
  | last hdead =>
      obtain rfl := Nat.lt_one_iff.1 hk
      exact ⟨hroot, .last hdead, rfl⟩
  | @more n root c dead hdead hne hrest ih =>
      cases k with
      | zero => exact ⟨hroot, .more hdead hne hrest, rfl⟩
      | succ k =>
          rw [passes_more hroot rfl hdead hne, Nat.add_sub_add_right,
            passes_more hroot rfl hdead hne]
          exact ih (sweepable_prune hroot) (by omega)

/-- A limit cuts a sweep short and does not change it. Let a sweep without a limit take `n` passes.
One with a limit does the same if the limit allows them all; otherwise it fails and leaves what the
passes that it was allowed leave, and a sweep without a limit from there ends as if there had been
none. -/
theorem sweep_limit (o : Options) {root : Tree} (hroot : Sweepable root) (c : Context) :
    ∃ n, 0 < n ∧ sweep { o with maxPasses := none } root c = passes none n root c ∧
      (passes none n root c).result = .ok () ∧
      (∀ k ≤ n, (passes none k root c).context.passes = c.passes + k) ∧
      ∀ limit,
        (c.passes + n ≤ limit → sweep { o with maxPasses := some limit } root c =
          sweep { o with maxPasses := none } root c) ∧
        (limit < c.passes + n → ∃ cut, cut = passes none (limit - c.passes) root c ∧
          sweep { o with maxPasses := some limit } root c =
            ⟨cut.root, cut.context, .error (.passLimitExceeded limit)⟩ ∧
          sweep { o with maxPasses := none } cut.root cut.context =
            sweep { o with maxPasses := none } root c) := by
  rcases exists_ends hroot c with ⟨n, hends⟩
  have hpos := hends.pos
  have hbudget := hends.le_budget hroot
  have hfull : sweep { o with maxPasses := none } root c = passes none n root c :=
    hends.passes_enough hroot (by simp) hbudget
  refine ⟨n, hpos, hfull, hends.result hroot, fun k hk => hends.counted hroot hk, ?_⟩
  intro limit
  constructor
  · intro henough
    rw [hfull]
    refine hends.passes_enough hroot ?_ hbudget
    intro limit' heq
    obtain rfl := Option.some.inj heq
    exact henough
  · intro hshort
    refine ⟨_, rfl, hends.passes_short hroot hshort (by omega), ?_⟩
    rcases hends.resumed hroot (k := limit - c.passes) (by omega) with ⟨hcut, hcutEnds, hsame⟩
    rw [hfull, ← hsame]
    exact hcutEnds.passes_enough hcut (by simp) (hcutEnds.le_budget hcut)

/-- A function that does nothing, and one that calls it: `function a() {} function b() { a(); }`. -/
def chainModule : Tree :=
  let leaf (label : Label) (start stop : Nat) : Tree := .node label ⟨start, stop⟩ []
  let function (name : String) (start stop : Nat) (body : List Tree) : Tree :=
    .node (.function (.function .declaration false {})) ⟨start, stop⟩
      [leaf (.pattern (.binding name)) (start + 9) (start + 10), .absent,
        leaf (.function .parameters) (start + 10) (start + 12), .absent,
        .node (.function .body) ⟨start + 13, stop⟩
          [leaf (.module .prologue) (start + 14) (start + 14),
            .node (.module .statements) ⟨start + 14, stop - 1⟩ body]]
  let call : Tree :=
    .node (.statement .expression) ⟨31, 35⟩
      [.node (.expression (.call false false)) ⟨31, 34⟩
        [leaf (.expression (.reference "a" .read)) 31 32, .absent,
          leaf (.expression .arguments) 32 34]]
  .node (.module (.program none true)) ⟨0, 37⟩
    [leaf (.module .prologue) 0 0,
      .node (.module .statements) ⟨0, 37⟩ [function "a" 0 15 [], function "b" 16 37 [call]]]

/-- A sweep of the two functions takes three passes. After one of them, the first function is still
there; two more passes end the sweep. -/
theorem sweep_limit_chainModule :
    Sweepable chainModule ∧ ∃ cut,
      cut = sweep { maxPasses := some 1 } chainModule { refs := [⟨9, 10⟩, ⟨25, 26⟩] } ∧
      cut.result = .error (.passLimitExceeded 1) ∧
      cut.context.removed = [⟨"b", .function⟩] ∧
      (sweep {} cut.root cut.context).context.removed = [⟨"b", .function⟩, ⟨"a", .function⟩] := by
  have hchain : Sweepable chainModule := ⟨by decide, rfl, by decide⟩
  obtain ⟨n, -, hfull, -, hcounted, hlimit⟩ :=
    sweep_limit {} hchain { refs := [⟨9, 10⟩, ⟨25, 26⟩] }
  have hn : n = 3 := by
    have hcount := hcounted n le_rfl
    rw [← hfull, Nat.zero_add] at hcount
    exact hcount.symm.trans rfl
  rcases (hlimit 1).2 (by rw [hn]; decide) with ⟨cut, hcut, hstopped, hresumed⟩
  refine ⟨hchain, _, rfl, by rw [hstopped], ?_, ?_⟩
  · rw [hstopped, hcut]
    rfl
  · rw [hstopped]
    exact congrArg (fun x : Outcome => x.context.removed) hresumed

end RouteSplit.Sweep
