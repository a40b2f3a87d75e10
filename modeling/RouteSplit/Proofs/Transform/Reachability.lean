import Mathlib.Data.Fintype.Card
import Mathlib.Order.WellFoundedSet
import RouteSplit.Proofs.Transform.Idempotence

/-!
# What keeps the bindings that a sweep leaves

A sweep counts reads and does not follow them. Going back from a binding to the code that reads it,
one comes to code outside all bindings that may go, or round in a circle.

- `Survivor`: a binding that may go and is still there;
- `Rooted`: one that is read from outside all of them, or from one that is;
- `Reads`: one binding's own code reads another;
- `rooted_or_circle`: where nothing is dead, what is not rooted hangs on a circle;
- `survivor_rooted_or_circle`: so it is with all that a transform leaves.
-/

namespace RouteSplit.Sweep

open Scope

/-- A binding of the tree that may go. -/
def Survivor (t : Tree) (c : Context) (b : Binding) : Prop :=
  ∃ bs, Binding.collect t = .ok bs ∧ b ∈ bs ∧ c.isTracked b.site = true

/-- Something at `site`, outside the binding's own code, reads it. -/
def ReadFrom (t : Tree) (b : Binding) (site : Span) : Prop :=
  site ∈ readsOf (Binding.readsIn t) b.symbol ∧ b.self.encloses site = false

/-- The place lies outside all bindings that may go. -/
def AtRoot (t : Tree) (c : Context) (site : Span) : Prop :=
  ∀ b, Survivor t c b → b.self.encloses site = false

/-- The place lies in the binding's own code, and in that of no binding further inside. -/
def DirectlyIn (t : Tree) (c : Context) (b : Binding) (site : Span) : Prop :=
  b.self.encloses site = true ∧ ∀ b', Survivor t c b' → b'.self.encloses site = true →
    b.self.encloses b'.self = true → b'.self = b.self

/-- The code of `a` itself reads `b`. -/
def Reads (t : Tree) (c : Context) (a b : Binding) : Prop :=
  Survivor t c a ∧ Survivor t c b ∧ ∃ site, ReadFrom t b site ∧ DirectlyIn t c a site

/-- The binding is read by code outside all bindings that may go, or by one that is. -/
inductive Rooted (t : Tree) (c : Context) : Binding → Prop where
  | root {b : Binding} {site : Span} (hb : Survivor t c b) (hread : ReadFrom t b site)
      (hsite : AtRoot t c site) : Rooted t c b
  | step {a b : Binding} (ha : Rooted t c a) (hreads : Reads t c a b) : Rooted t c b

/-- A binding hangs on a circle of bindings each of which reads the next. -/
def OnCircle (t : Tree) (c : Context) (b : Binding) : Prop :=
  ∃ a, Relation.TransGen (Reads t c) a a ∧ Relation.ReflTransGen (Reads t c) a b

variable {t : Tree} {c : Context}

/-- No binding reads itself: its own code does not count. -/
theorem Reads.ne {a b : Binding} (h : Reads t c a b) : a ≠ b := by
  rintro rfl
  obtain ⟨-, -, site, ⟨-, hout⟩, hin, -⟩ := h
  simp [hin] at hout

/-- A place in the code of some binding lies directly in that of one of them. -/
theorem exists_directlyIn {site : Span} (h : ¬ AtRoot t c site) :
    ∃ b, Survivor t c b ∧ DirectlyIn t c b site := by
  have hsome : ∃ b, Survivor t c b ∧ b.self.encloses site = true := by
    simpa [AtRoot] using h
  -- Of the bindings around the place, take one whose code reaches least far on both sides.
  obtain ⟨b, ⟨hb, hin⟩, hleast⟩ := WellFounded.has_min
    (measure fun b : Binding => b.self.stop + (site.start - b.self.start)).wf
    { b | Survivor t c b ∧ b.self.encloses site = true } hsome
  refine ⟨b, hb, hin, fun b' hb' hin' hinside => ?_⟩
  have hnot : ¬ b'.self.stop + (site.start - b'.self.start) <
      b.self.stop + (site.start - b.self.start) := hleast b' ⟨hb', hin'⟩
  rw [Span.encloses_iff] at hin hin' hinside
  have hstart : b'.self.start = b.self.start := by omega
  have hstop : b'.self.stop = b.self.stop := by omega
  calc
    b'.self = ⟨b'.self.start, b'.self.stop⟩ := rfl
    _ = ⟨b.self.start, b.self.stop⟩ := by rw [hstart, hstop]
    _ = b.self := rfl

/-- Where nothing is dead, a binding is read from the root or by another binding. -/
theorem root_or_reads (h : deadBindings t c = .ok []) {b : Binding} (hb : Survivor t c b) :
    (∃ site, ReadFrom t b site ∧ AtRoot t c site) ∨ ∃ a, Reads t c a b := by
  obtain ⟨bs, hbs, hmem, htracked⟩ := hb
  obtain ⟨bs', hbs', hreferenced⟩ := referenced_of_settled h
  obtain rfl := Except.ok.inj (hbs.symm.trans hbs')
  have href := hreferenced b hmem htracked
  obtain ⟨site, hsite, hout⟩ := List.any_eq_true.1 href
  have hread : ReadFrom t b site := ⟨hsite, by simpa using hout⟩
  by_cases hroot : AtRoot t c site
  · exact Or.inl ⟨site, hread, hroot⟩
  · obtain ⟨a, ha, hin⟩ := exists_directlyIn hroot
    exact Or.inr ⟨a, ha, ⟨bs, hbs, hmem, htracked⟩, site, hread, hin⟩

/-- The bindings that may go are finitely many. -/
theorem finite_survivors : {b | Survivor t c b}.Finite := by
  cases hcollect : Binding.collect t with
  | error e =>
      have hnone : {b | Survivor t c b} = ∅ := by
        ext b
        simp [Survivor, hcollect]
      rw [hnone]
      exact Set.finite_empty
  | ok bs =>
      refine (List.finite_toSet bs).subset ?_
      rintro b ⟨bs', hbs', hmem, -⟩
      obtain rfl := Except.ok.inj (hcollect.symm.trans hbs')
      exact hmem

/-- Where nothing is dead, a binding is rooted or hangs on a circle. -/
theorem rooted_or_circle (h : deadBindings t c = .ok []) {b : Binding} (hb : Survivor t c b) :
    Rooted t c b ∨ OnCircle t c b := by
  by_contra hneither
  obtain ⟨hunrooted, hfree⟩ := not_or.1 hneither
  -- Among the bindings that `b` hangs on, reading is well-founded: they are finitely many, and none
  -- of them lies on a circle.
  let Above : Type := { a : Binding // Survivor t c a ∧ Relation.ReflTransGen (Reads t c) a b }
  let above (x y : Above) : Prop := Relation.TransGen (Reads t c) x.1 y.1
  have hfinite : Finite Above :=
    (finite_survivors.subset fun a (ha : _ ∧ _) => ha.1 :
      {a | Survivor t c a ∧ Relation.ReflTransGen (Reads t c) a b}.Finite).to_subtype
  have htrans : IsTrans Above above := ⟨fun _ _ _ hxy hyz => hxy.trans hyz⟩
  have hirrefl : Std.Irrefl above := ⟨fun x hx => hfree ⟨x.1, hx, x.2.2⟩⟩
  have hwf : WellFounded above := Finite.wellFounded_of_trans_of_irrefl above
  have hall : ∀ x : Above, Rooted t c x.1 := by
    intro x
    induction x using hwf.induction with
    | _ x ih =>
        rcases root_or_reads h x.2.1 with ⟨site, hread, hroot⟩ | ⟨a, ha⟩
        · exact .root x.2.1 hread hroot
        · have habove : Relation.ReflTransGen (Reads t c) a b := .head ha x.2.2
          exact .step (ih ⟨a, ha.1, habove⟩ (.single ha)) ha
  exact hunrooted (hall ⟨b, hb, .refl⟩)

end RouteSplit.Sweep

namespace RouteSplit

open Scope Sweep Export RouteSplit.Module

/-- Every binding in use that a sweep leaves is read from code outside all such bindings, over any
number of them, or hangs on a circle of at least two that read one another. The output is what the
sweep leaves, and the marker. -/
theorem survivor_rooted_or_circle (o : Options) {root P : Tree} {r : Report}
    (hroot : IsProgram root) (h : root.split o = .ok (P, r)) :
    ∃ c swept, seed root {} = .ok c ∧
      swept = (sweep o (resolve o root c).1 (resolve o root c).2).root ∧
      (P = swept ∨ ∃ ss, insertBeforeDefault (marker o.markerName) (statementsOf swept) = some ss ∧
        P = withStatements swept ss) ∧
      (∀ b, Survivor swept c b → Rooted swept c b ∨ OnCircle swept c b) ∧
      ∀ a b, Reads swept c a b → a ≠ b := by
  obtain ⟨c, hseed, hok, c', hdecorate⟩ := split_eq_ok h
  refine ⟨c, (sweep o (resolve o root c).1 (resolve o root c).2).root, hseed, rfl, ?_, ?_, ?_⟩
  · rcases decorate_cases hdecorate with ⟨rfl, -⟩ | ⟨-, -, -, ss, hinsert, rfl⟩
    · exact Or.inl rfl
    · exact Or.inr ⟨ss, hinsert, rfl⟩
  · have hdead := settled_sweep (inShape_keepStatements hroot) hok
    have hrefs : (resolve o root c).2.refs = c.refs := rfl
    rw [deadBindings_congr hrefs] at hdead
    exact fun b hb => rooted_or_circle hdead hb
  · exact fun a b hreads => hreads.ne

/-- A module with two functions that call each other, and that only its server data enters:
`function a() { b(); } function b() { a(); } function view() {} export function routeData() { a(); }
export default view;`. -/
def loopModule : Tree :=
  let leaf (label : Label) (start stop : Nat) : Tree := .node label ⟨start, stop⟩ []
  let call (name : String) (start : Nat) : Tree :=
    .node (.statement .expression) ⟨start, start + 4⟩
      [.node (.expression (.call false false)) ⟨start, start + 3⟩
        [leaf (.expression (.reference name .read)) start (start + 1), .absent,
          leaf (.expression .arguments) (start + 1) (start + 3)]]
  let function (name : String) (start named stop : Nat) (body : List Tree) : Tree :=
    .node (.function (.function .declaration false {})) ⟨start, stop⟩
      [leaf (.pattern (.binding name)) (start + 9) named, .absent,
        leaf (.function .parameters) named (named + 2), .absent,
        .node (.function .body) ⟨named + 3, stop⟩
          [leaf (.module .prologue) (named + 4) (named + 4),
            .node (.module .statements) ⟨named + 4, stop - 1⟩ body]]
  .node (.module (.program none true)) ⟨0, 120⟩
    [leaf (.module .prologue) 0 0, .node (.module .statements) ⟨0, 120⟩
      [function "a" 0 10 21 [call "b" 15], function "b" 22 32 43 [call "a" 37],
        function "view" 44 57 62 [],
        .node (.module (.exportNamed false)) ⟨63, 99⟩
          [function "routeData" 70 88 99 [call "a" 93], leaf (.module .exportSpecifiers) 99 99,
            .absent, .absent],
        .node (.module .exportDefault) ⟨100, 120⟩
          [leaf (.expression (.reference "view" .exported)) 115 119]]]

theorem isProgram_loopModule : IsProgram loopModule :=
  ⟨by decide, ⟨_, _, _, _, _, _, rfl⟩, by decide⟩

/-- What is known of the module when it is first seen: all three functions are in use. -/
def loopContext : Context := { refs := [⟨9, 10⟩, ⟨31, 32⟩, ⟨53, 57⟩] }

/-- The module's server bundle. -/
def loopBundle : Tree :=
  match loopModule.split .server with
  | .ok (P, _) => P
  | .error _ => .absent

/-- All three functions are left, and each is rooted or hangs on a circle. -/
theorem loop_rooted_or_circle :
    IsProgram loopModule ∧ ∃ c swept, seed loopModule {} = .ok c ∧
      (Binding.sites swept).length = 3 ∧
      ∀ b, Survivor swept c b → Rooted swept c b ∨ OnCircle swept c b := by
  obtain ⟨c, swept, hseed, hswept, -, hall, -⟩ :=
    survivor_rooted_or_circle .server (P := loopBundle) isProgram_loopModule rfl
  have hc : seed loopModule {} = .ok loopContext := rfl
  obtain rfl := Except.ok.inj (hc.symm.trans hseed)
  refine ⟨isProgram_loopModule, loopContext, swept, hseed, ?_, hall⟩
  rw [hswept]
  decide

/-- The bindings of the bundle. -/
def loopBindings : List Binding :=
  [⟨"a", .function, ⟨9, 10⟩, ⟨0, 21⟩, ⟨"a", ⟨9, 10⟩⟩⟩,
    ⟨"b", .function, ⟨31, 32⟩, ⟨22, 43⟩, ⟨"b", ⟨31, 32⟩⟩⟩,
    ⟨"view", .function, ⟨53, 57⟩, ⟨44, 62⟩, ⟨"view", ⟨53, 57⟩⟩⟩]

/-- The survivors of the bundle are the two functions that call each other. -/
theorem survivor_loopBundle {b : Binding} :
    Survivor loopBundle loopContext b ↔ b ∈ loopBindings := by
  have hcollect : Binding.collect loopBundle = .ok loopBindings := rfl
  have htracked : ∀ b ∈ loopBindings, loopContext.isTracked b.site = true := by decide
  constructor
  · rintro ⟨bs, hbs, hb, -⟩
    obtain rfl := Except.ok.inj (hcollect.symm.trans hbs)
    exact hb
  · intro hb
    exact ⟨loopBindings, hcollect, hb, htracked b hb⟩

/-- In the bundle nothing but the page's view is rooted. -/
theorem name_of_rooted_loopBundle {b : Binding} (h : Rooted loopBundle loopContext b) :
    b.name = "view" := by
  have hinner : ∀ b ∈ loopBindings, ∀ site ∈ readsOf (Binding.readsIn loopBundle) b.symbol,
      b.name = "view" ∨ ∃ a ∈ loopBindings, a.self.encloses site = true := by decide
  have hempty : ∀ a ∈ loopBindings, a.name = "view" → ∀ b ∈ loopBindings,
      ∀ site ∈ readsOf (Binding.readsIn loopBundle) b.symbol, a.self.encloses site = false := by
    decide
  induction h with
  | root hb hread hsite =>
      rcases hinner _ (survivor_loopBundle.1 hb) _ hread.1 with hview | ⟨a, ha, hin⟩
      · exact hview
      · have hout := hsite a (survivor_loopBundle.2 ha)
        simp [hin] at hout
  | step _ hreads ih =>
      obtain ⟨ha, hb, site, hread, hin, -⟩ := hreads
      have hout := hempty _ (survivor_loopBundle.1 ha) ih _ (survivor_loopBundle.1 hb) _ hread.1
      simp [hin] at hout

/-- The two functions stay in the bundle, and nothing there leads to them. -/
theorem circle_left_in_bundle :
    IsProgram loopModule ∧ seed loopModule {} = .ok loopContext ∧
      (∃ r, loopModule.split .server = .ok (loopBundle, r)) ∧
      ∃ b, Survivor loopBundle loopContext b ∧ ¬ Rooted loopBundle loopContext b := by
  refine ⟨isProgram_loopModule, rfl, ⟨_, rfl⟩, loopBindings.head (by decide),
    survivor_loopBundle.2 (by decide), ?_⟩
  intro h
  have hname := name_of_rooted_loopBundle h
  simp [loopBindings] at hname

end RouteSplit
