import RouteSplit.Binding.Sites
import RouteSplit.Proofs.Sweep.Cut

/-!
# Code that goes with a name

- `Piece`, `pieces`: the code of a tree that goes as a whole, with the names that it goes by;
- `Piece.Gone`: a piece goes when all its names do, there being one;
- `exists_piece_of_deleted`, `exists_deleted_of_piece`: a removal takes the pieces that go, and
  nothing but them.
-/

namespace RouteSplit.Sweep

open Scope

/-! ## Pieces -/

/-- Code that goes as a whole, with the places of the names that it goes by. -/
structure Piece where
  names : List Span
  code : Tree
  around : Around

/-- The parts of a target, each with its name. -/
def targetPieces : Tree → List (List Span × Tree)
  | .node (.pattern .object) _ parts =>
    parts.map fun t => ((siteOf (Binding.objectPartTarget t)).toList, t)
  | .node (.pattern .array) _ parts =>
    (parts.filter fun t => !Binding.isHole t).map fun t =>
      ((siteOf (Binding.arrayPartTarget t)).toList, t)
  | _ => []

/-- A declarator with all its names, and the parts of its target. -/
def declaratorPieces (d : Tree) : List (List Span × Tree) :=
  (Binding.targetSites (d.child 0), d) :: targetPieces (d.child 0)

/-- The place of the name that a specifier binds. -/
def specifierSites (s : Tree) : List Span := (Binding.nameOf (s.child 0)).toList.map (·.2)

/-- The names that an import goes by: all of them. -/
def importNames (specifiers : List Tree) : List Span :=
  if specifiers.all fun s => (Binding.nameOf (s.child 0)).isSome then
    Binding.importSites specifiers
  else []

/-- The code of a statement that goes as a whole: its items, or the statement itself. -/
def statementPieces : Tree → List (List Span × Tree)
  | .node (.statement (.variableList _ _)) _ declarators => declarators.flatMap declaratorPieces
  | .node (.module (.importDeclaration typeOnly phase)) span
      (.node (.module .importClause) clauseSpan specifiers :: rest) =>
    (importNames specifiers, .node (.module (.importDeclaration typeOnly phase)) span
      (.node (.module .importClause) clauseSpan specifiers :: rest)) ::
        specifiers.map fun s => (specifierSites s, s)
  | t => [(Binding.statementSites t, t)]

def pieceRule : Rule Piece := fun a l s ps =>
  if l = .module .statements ∧ a.searched then
    (ps.flatMap statementPieces).map fun x => ⟨x.1, x.2, a.inside l s ps 0⟩
  else []

/-- The code of a module's tree that goes as a whole. -/
def pieces (root : Tree) : List Piece := gather pieceRule {} root

/-! ## Names that go -/

variable {dead : List Binding}

/-- All of these names go, and there is one. -/
def AllDead (dead : List Binding) (names : List Span) : Prop :=
  names ≠ [] ∧ ∀ n ∈ names, isDead dead n = true

def Piece.Gone (dead : List Binding) (p : Piece) : Prop := AllDead dead p.names

theorem allDead_toList {site : Option Span} :
    AllDead dead site.toList ↔ goes dead site = true := by
  cases site with
  | none => simp [AllDead, goes]
  | some site => simp [AllDead, goes]

/-- A construct that goes with a single name goes if the name is dead. -/
theorem keepUnless_eq_none_iff {target : Option (String × Span)} {t : Tree} :
    (keepUnless dead target t).1 = none ↔ AllDead dead (target.toList.map (·.2)) := by
  have hsites : target.toList.map (·.2) = (target.map (·.2)).toList := by
    cases target <;> rfl
  rw [keepUnless_fst, hsites, allDead_toList]
  exact ite_eq_left_iff.trans (by simp)

/-- A name that is imported goes if it is dead. -/
theorem keptSpecifier_eq_none_iff {s : Tree} :
    keptSpecifier dead s = none ↔ AllDead dead (specifierSites s) :=
  keepUnless_eq_none_iff

/-- The places of the names that parts bind, if each binds one. -/
def partSites (f : Tree → Except PassError (String × Span)) (ps : List Tree) : List Span :=
  match ps.mapM f with
  | .ok targets => targets.map (·.2)
  | .error _ => []

/-- Where a pattern is understood, its names stand where those of its parts do. -/
theorem partSites_of_ok {f : Tree → Except PassError (String × Span)} {ps : List Tree}
    {ts : List (String × Span)} (h : ps.mapM f = .ok ts) :
    ts.map (·.2) = ps.filterMap (fun t => siteOf (f t)) ∧ ∀ t ∈ ps, (siteOf (f t)).isSome := by
  induction ps generalizing ts with
  | nil =>
      obtain rfl : ts = [] := by simpa [pure, Except.pure, eq_comm] using h
      simp
  | cons p ps ih =>
      obtain ⟨t, ts', hp, hps, rfl⟩ := mapM_cons_eq_ok.1 h
      have hsite : siteOf (f p) = some t.2 := by rw [hp]; rfl
      obtain ⟨hsites, hsome⟩ := ih hps
      refine ⟨?_, ?_⟩
      · rw [List.filterMap_cons, hsite, List.map_cons, hsites]
      · intro c hc
        rcases List.mem_cons.1 hc with rfl | hc
        · simp [hsite]
        · exact hsome c hc

theorem mapM_ok_of_isSome {f : Tree → Except PassError (String × Span)} {ps : List Tree}
    (h : ∀ t ∈ ps, (siteOf (f t)).isSome) : ∃ ts, ps.mapM f = .ok ts := by
  induction ps with
  | nil => exact ⟨[], rfl⟩
  | cons p ps ih =>
      obtain ⟨ts, hts⟩ := ih fun t ht => h t (List.mem_cons_of_mem _ ht)
      have hp := h p List.mem_cons_self
      cases hfp : f p with
      | error e => simp [hfp, siteOf] at hp
      | ok t => exact ⟨t :: ts, mapM_cons_eq_ok.2 ⟨t, ts, hfp, hts, rfl⟩⟩

/-- All names of a list of parts go if every part goes, there being one. -/
theorem allDead_partSites_iff {f : Tree → Except PassError (String × Span)} {ps : List Tree} :
    AllDead dead (partSites f ps) ↔ ps ≠ [] ∧ ∀ t ∈ ps, goes dead (siteOf (f t)) = true := by
  -- A list with a part that has no name of its own counts as nameless, so one such part keeps all.
  unfold partSites
  constructor
  · rintro ⟨hne, hall⟩
    cases hps : ps.mapM f with
    | error e => simp [hps] at hne
    | ok ts =>
        simp only [hps] at hne hall
        obtain ⟨hsites, hsome⟩ := partSites_of_ok hps
        rw [hsites] at hne hall
        refine ⟨fun hnil => hne (by simp [hnil]), ?_⟩
        intro t ht
        obtain ⟨site, hsite⟩ := Option.isSome_iff_exists.1 (hsome t ht)
        rw [hsite]
        exact hall site (List.mem_filterMap.2 ⟨t, ht, hsite⟩)
  · rintro ⟨hne, hall⟩
    have hsome : ∀ t ∈ ps, (siteOf (f t)).isSome := by
      intro t ht
      have ht := hall t ht
      cases hsite : siteOf (f t) with
      | none => simp [hsite, goes] at ht
      | some site => rfl
    obtain ⟨ts, hts⟩ := mapM_ok_of_isSome hsome
    obtain ⟨hsites, -⟩ := partSites_of_ok hts
    simp only [hts]
    rw [hsites]
    constructor
    · obtain ⟨t, ht⟩ := List.exists_mem_of_ne_nil ps hne
      obtain ⟨site, hsite⟩ := Option.isSome_iff_exists.1 (hsome t ht)
      exact List.ne_nil_of_mem (List.mem_filterMap.2 ⟨t, ht, hsite⟩)
    · intro site hsite
      obtain ⟨t, ht, hts⟩ := List.mem_filterMap.1 hsite
      have hgoes := hall t ht
      rw [hts] at hgoes
      exact hgoes

/-! ## Constructs that go -/

/-- An object pattern loses something if one of its parts goes. -/
theorem objectRecord_ne_nil_iff {ps : List Tree} :
    objectRecord dead ps ≠ [] ↔ ∃ t ∈ ps, objectPartGoes dead t = true := by
  simp only [objectRecord, ne_eq, List.flatMap_eq_nil_iff, record_eq_nil, objectPartGoes]
  simp

/-- An array pattern loses something if one of its places goes. -/
theorem arrayRecord_ne_nil_iff {ps : List Tree} :
    arrayRecord dead ps ≠ [] ↔ ∃ t ∈ ps, arrayPartGoes dead t = true := by
  simp only [arrayRecord, ne_eq, List.flatMap_eq_nil_iff, record_eq_nil, arrayPartGoes]
  simp

/-- Trimming leaves nothing of a pattern of holes alone. -/
theorem trimHoles_eq_nil_iff {ps : List Tree} :
    trimHoles ps = [] ↔ ∀ t ∈ ps, Binding.isHole t = true := by
  simp [trimHoles, List.dropWhile_eq_nil_iff]

/-- Nothing but holes is left of an array pattern if all of its places go. -/
theorem keepArrayParts_all_holes_iff {ps : List Tree} :
    (∀ t ∈ keepArrayParts dead ps, Binding.isHole t = true) ↔
      ∀ t ∈ ps, Binding.isHole t = false → arrayPartGoes dead t = true := by
  constructor
  · intro h t ht hhole
    by_contra hgoes
    have hstays : goes dead (siteOf (Binding.arrayPartTarget t)) = false := by
      simpa [arrayPartGoes, hhole] using hgoes
    have hmem : t ∈ keepArrayParts dead ps :=
      List.mem_filterMap.2 ⟨t, ht, by simp [hhole, hstays]⟩
    simp [h t hmem] at hhole
  · intro h t ht
    obtain ⟨u, hu, hut⟩ := List.mem_filterMap.1 ht
    by_cases hhole : Binding.isHole u = true
    · rw [if_pos hhole] at hut
      obtain rfl := Option.some.inj hut
      exact hhole
    · have hgoes := h u hu (by simpa using hhole)
      simp only [arrayPartGoes, Bool.and_eq_true] at hgoes
      rw [if_neg hhole, if_pos hgoes.2] at hut
      split_ifs at hut
      obtain rfl := Option.some.inj hut
      rfl

theorem targetSites_object (s : Span) (ps : List Tree) :
    Binding.targetSites (.node (.pattern .object) s ps) = partSites Binding.objectPartTarget ps :=
  rfl

theorem targetSites_array (s : Span) (ps : List Tree) :
    Binding.targetSites (.node (.pattern .array) s ps) =
      partSites Binding.arrayPartTarget (ps.filter fun t => !Binding.isHole t) :=
  rfl

/-- An object pattern goes if it has parts and all of them go. -/
theorem keptTarget_object_eq_none_iff {s : Span} {ps : List Tree} :
    keptTarget dead (.node (.pattern .object) s ps) = none ↔
      ps ≠ [] ∧ ∀ t ∈ ps, objectPartGoes dead t = true := by
  have hleft : keepObjectParts dead ps = [] ↔ ∀ t ∈ ps, objectPartGoes dead t = true := by
    simp [keepObjectParts, objectPartGoes, List.filter_eq_nil_iff]
  have hite : keptTarget dead (.node (.pattern .object) s ps) = none ↔
      ((keepObjectParts dead ps).isEmpty && !(objectRecord dead ps).isEmpty) = true :=
    ite_eq_left_iff.trans (by simp)
  rw [hite, Bool.and_eq_true, List.isEmpty_iff, hleft, Bool.not_eq_true', ← Bool.not_eq_true,
    List.isEmpty_iff, ← ne_eq, objectRecord_ne_nil_iff]
  constructor
  · rintro ⟨hall, t, ht, -⟩
    exact ⟨List.ne_nil_of_mem ht, hall⟩
  · rintro ⟨hne, hall⟩
    obtain ⟨t, ht⟩ := List.exists_mem_of_ne_nil ps hne
    exact ⟨hall, t, ht, hall t ht⟩

/-- An array pattern goes if it has places besides holes and all of them go. -/
theorem keptTarget_array_eq_none_iff {s : Span} {ps : List Tree} :
    keptTarget dead (.node (.pattern .array) s ps) = none ↔
      (ps.filter fun t => !Binding.isHole t) ≠ [] ∧
        ∀ t ∈ ps, Binding.isHole t = false → arrayPartGoes dead t = true := by
  by_cases hlost : arrayRecord dead ps = []
  · have hsome : keptTarget dead (.node (.pattern .array) s ps) ≠ none := by
      simp [keptTarget, keepTarget, hlost]
    refine iff_of_false hsome ?_
    rintro ⟨hne, hall⟩
    obtain ⟨t, ht⟩ := List.exists_mem_of_ne_nil _ hne
    obtain ⟨ht, hhole⟩ := List.mem_filter.1 ht
    exact arrayRecord_ne_nil_iff.2 ⟨t, ht, hall t ht (by simpa using hhole)⟩ hlost
  · have hite : keptTarget dead (.node (.pattern .array) s ps) = none ↔
        (trimHoles (keepArrayParts dead ps)).isEmpty = true := by
      rw [keptTarget, keepTarget, if_neg (by simpa using hlost)]
      exact ite_eq_left_iff.trans (by simp)
    rw [hite, List.isEmpty_iff, trimHoles_eq_nil_iff, keepArrayParts_all_holes_iff]
    refine ⟨fun hall => ⟨?_, hall⟩, fun h => h.2⟩
    obtain ⟨t, ht, hgoes⟩ := arrayRecord_ne_nil_iff.1 hlost
    refine List.ne_nil_of_mem (List.mem_filter.2 ⟨ht, ?_⟩)
    exact (Bool.and_eq_true_iff.1 hgoes).1

/-- A target goes when all its names do. -/
theorem keptTarget_eq_none_iff {t : Tree} :
    keptTarget dead t = none ↔ AllDead dead (Binding.targetSites t) := by
  fun_cases Binding.declaratorTargets t with
  | case1 name span parts =>
      have hite : keptTarget dead (.node (.pattern (.binding name)) span parts) = none ↔
          isDead dead span = true := by
        rw [keptTarget, keepTarget]
        split_ifs with h <;> simp [h]
      rw [hite]
      simp [Binding.targetSites, Binding.declaratorTargets, AllDead]
  | case2 span parts =>
      rw [targetSites_object, allDead_partSites_iff, keptTarget_object_eq_none_iff]
      rfl
  | case3 span parts =>
      rw [targetSites_array, allDead_partSites_iff, keptTarget_array_eq_none_iff]
      simp only [List.mem_filter, arrayPartGoes, Bool.and_eq_true, Bool.not_eq_true', and_imp]
      refine and_congr_right fun _ => forall₂_congr fun t _ => ?_
      exact ⟨fun h hhole => (h hhole).2, fun h hhole => ⟨hhole, h hhole⟩⟩
  | case4 t hbinding hobject harray =>
      have hsites : Binding.targetSites t = [] := by
        rw [Binding.targetSites, Binding.declaratorTargets]
        all_goals assumption
      have hkept : keptTarget dead t = some t := by
        rw [keptTarget, keepTarget]
        all_goals assumption
      simp [hsites, hkept, AllDead]

/-- A declarator goes if it binds names and all of them are dead. -/
theorem keptDeclarator_eq_none_iff {d : Tree} :
    keptDeclarator dead d = none ↔ AllDead dead (Binding.targetSites (d.child 0)) := by
  obtain ⟨l, s, ps⟩ := d
  cases ps with
  | nil =>
      have hsites : Binding.targetSites Tree.absent = [] := rfl
      simp [keptDeclarator, keepDeclarator, Tree.child, hsites, AllDead]
  | cons target rest =>
      rw [keptDeclarator, keepDeclarator, Option.map_eq_none_iff]
      exact keptTarget_eq_none_iff

/-- The names of an import are all dead if those of each of its specifiers are. -/
theorem allDead_importNames_iff {ss : List Tree} :
    AllDead dead (importNames ss) ↔ ss ≠ [] ∧ ∀ s ∈ ss, AllDead dead (specifierSites s) := by
  have hsites : Binding.importSites ss = ss.flatMap specifierSites := rfl
  unfold importNames
  split_ifs with hnamed
  · have hne : ∀ s ∈ ss, specifierSites s ≠ [] := by
      intro s hs
      obtain ⟨x, hx⟩ := Option.isSome_iff_exists.1 (List.all_eq_true.1 hnamed s hs)
      simp [specifierSites, hx]
    rw [hsites]
    constructor
    · rintro ⟨hnil, hall⟩
      refine ⟨fun h => hnil (by simp [h]), fun s hs => ⟨hne s hs, fun n hn => ?_⟩⟩
      exact hall n (List.mem_flatMap.2 ⟨s, hs, hn⟩)
    · rintro ⟨hnil, hall⟩
      obtain ⟨s, hs⟩ := List.exists_mem_of_ne_nil ss hnil
      refine ⟨fun h => hne s hs (List.flatMap_eq_nil_iff.1 h s hs), fun n hn => ?_⟩
      obtain ⟨s, hs, hn⟩ := List.mem_flatMap.1 hn
      exact (hall s hs).2 n hn
  · refine iff_of_false (by simp [AllDead]) ?_
    rintro ⟨-, hall⟩
    refine hnamed (List.all_eq_true.2 fun s hs => ?_)
    cases hx : Binding.nameOf (s.child 0) with
    | none => exact absurd (hall s hs).1 (by simp [specifierSites, hx])
    | some x => rfl

/-- An import goes when all its specifiers do. -/
theorem kept_import_eq_none_iff {o : Bool} {p : Option String} {s cs : Span}
    {ss rest : List Tree} :
    kept dead (.node (.module (.importDeclaration o p)) s
      (.node (.module .importClause) cs ss :: rest)) = none ↔ AllDead dead (importNames ss) := by
  have hrecord : ∀ c, keptSpecifier dead c = none → (keepSpecifier dead c).2 ≠ [] := by
    intro c hc
    have hgoes : goes dead ((Binding.nameOf (c.child 0)).map (·.2)) = true := by
      by_contra hstays
      rw [keptSpecifier, keepSpecifier, keepUnless_fst, if_neg hstays] at hc
      simp at hc
    simp only [keepSpecifier, keepUnless, if_pos hgoes, ne_eq, record_eq_nil]
    simpa using hgoes
  rw [allDead_importNames_iff]
  refine keepItems_eq_none_iff.trans ?_
  rw [List.filterMap_eq_nil_iff, ne_eq, List.flatMap_eq_nil_iff]
  constructor
  · rintro ⟨hall, hlost⟩
    refine ⟨fun h => hlost (by simp [h]), fun c hc => ?_⟩
    exact keptSpecifier_eq_none_iff.1 (hall c hc)
  · rintro ⟨hne, hall⟩
    obtain ⟨c, hc⟩ := List.exists_mem_of_ne_nil ss hne
    have hnone : ∀ c ∈ ss, keptSpecifier dead c = none :=
      fun c hc => keptSpecifier_eq_none_iff.2 (hall c hc)
    exact ⟨hnone, fun h => hrecord c (hnone c hc) (h c hc)⟩

theorem Inert.statementSites {t : Tree} (h : Inert t) : Binding.statementSites t = [] := by
  rw [Binding.statementSites]
  · exact h.notFunction
  · exact h.notVariables
  · exact h.notExpression
  · exact h.notImport

/-- A statement without items goes when its name does. -/
theorem kept_eq_none_iff {t : Tree}
    (hvariables : ∀ k b s ds, t = .node (.statement (.variableList k b)) s ds → False)
    (himport : ∀ o p s cs ss rest, t = .node (.module (.importDeclaration o p)) s
      (.node (.module .importClause) cs ss :: rest) → False) :
    kept dead t = none ↔ AllDead dead (Binding.statementSites t) := by
  fun_cases keepStatement dead t with
  | case1 traits span name generics parameters result body target =>
      rw [kept, keepStatement, keepUnless_eq_none_iff, Binding.statementSites]
      split_ifs <;> rfl
  | case2 kind declared span declarators => exact absurd rfl (hvariables _ _ _ _)
  | case3 span e target =>
      rw [kept, keepStatement, keepUnless_eq_none_iff, Binding.statementSites]
      cases Binding.assignedFunction? e <;> rfl
  | case4 typeOnly phase span clauseSpan specifiers rest => exact absurd rfl (himport _ _ _ _ _ _)
  | case5 t hfunction hlist hexpression himports =>
      have hinert : Inert t := ⟨hfunction, hlist, hexpression, himports⟩
      rw [kept, hinert.keepStatement, hinert.statementSites]
      simp [AllDead]

/-! ## A removal takes the pieces that go -/

/-- Code that a target loses is that of a piece whose names are all dead. -/
theorem exists_piece_of_lostParts {t x : Tree} (hx : x ∈ lostParts dead t) :
    ∃ names, (names, x) ∈ targetPieces t ∧ AllDead dead names := by
  fun_cases lostParts dead t with
  | case1 span parts =>
      obtain ⟨hmem, hgoes⟩ := List.mem_filter.1 hx
      exact ⟨_, List.mem_map_of_mem hmem, allDead_toList.2 hgoes⟩
  | case2 span parts =>
      obtain ⟨hmem, hgoes⟩ := List.mem_filter.1 hx
      obtain ⟨hhole, hgoes⟩ := Bool.and_eq_true_iff.1 hgoes
      exact ⟨_, List.mem_map_of_mem (List.mem_filter.2 ⟨hmem, hhole⟩), allDead_toList.2 hgoes⟩
  | case3 t hobject harray =>
      rw [lostParts] at hx
      · simp at hx
      all_goals assumption

/-- Code that a statement loses is that of a piece whose names are all dead. -/
theorem exists_piece_of_lost {t x : Tree} (hx : x ∈ lost dead t) :
    ∃ names, (names, x) ∈ statementPieces t ∧ AllDead dead names := by
  fun_cases lost dead t with
  | case1 kind declared span declarators =>
      obtain ⟨d, hd, hx⟩ := List.mem_flatMap.1 hx
      rw [lostOfDeclarator] at hx
      -- The whole declarator goes, or some parts of its pattern do.
      split_ifs at hx with hnone
      · obtain rfl := List.mem_singleton.1 hx
        refine ⟨_, List.mem_flatMap.2 ⟨x, hd, List.mem_cons_self⟩, ?_⟩
        exact keptDeclarator_eq_none_iff.1 (Option.isNone_iff_eq_none.1 hnone)
      · obtain ⟨names, hmem, hdead⟩ := exists_piece_of_lostParts hx
        exact ⟨names, List.mem_flatMap.2 ⟨d, hd, List.mem_cons_of_mem _ hmem⟩, hdead⟩
  | case2 typeOnly phase span clauseSpan specifiers rest t' hnone =>
      rw [lost, if_pos hnone] at hx
      obtain rfl := List.mem_singleton.1 hx
      refine ⟨_, List.mem_cons_self, ?_⟩
      exact kept_import_eq_none_iff.1 (Option.isNone_iff_eq_none.1 hnone)
  | case3 typeOnly phase span clauseSpan specifiers rest t' hsome =>
      rw [lost, if_neg hsome] at hx
      obtain ⟨hmem, hnone⟩ := List.mem_filter.1 hx
      refine ⟨_, List.mem_cons_of_mem _ (List.mem_map_of_mem hmem), ?_⟩
      exact keptSpecifier_eq_none_iff.1 (Option.isNone_iff_eq_none.1 hnone)
  | case4 t hvariables himport hnone =>
      rw [lost, if_pos hnone] at hx
      · obtain rfl := List.mem_singleton.1 hx
        rw [statementPieces]
        · refine ⟨_, List.mem_singleton_self _, ?_⟩
          exact (kept_eq_none_iff hvariables himport).1 (Option.isNone_iff_eq_none.1 hnone)
        all_goals assumption
      all_goals assumption
  | case5 t hvariables himport hsome =>
      rw [lost, if_neg hsome] at hx
      · simp at hx
      all_goals assumption

/-- `x` is a part of `y`, wherever that stands in a list. -/
def Within (x y : Tree) : Prop := ∀ a : Around, a.isBranch = false → PartOf a x a y

theorem Within.refl (x : Tree) : Within x x := fun _ _ => .refl

theorem Within.trans {x y z : Tree} (hxy : Within x y) (hyz : Within y z) : Within x z :=
  fun a ha => (hxy a ha).trans (hyz a ha)

/-- A part of a node that opens no scope and hides nothing stands in what the node stands in. -/
theorem within_of_plain {l : Label} {s : Span} {ps : List Tree} {c : Tree} (hc : c ∈ ps)
    (hopened : ∀ s ps i, opened l s ps i = []) (hstrict : ∀ s ps, makesStrict l s ps = false)
    (hbranch : l ≠ .statement .ifElse ∧ ∀ part, searches l part = true) : Within c (.node l s ps) := by
  intro a ha
  obtain ⟨i, hi⟩ := List.mem_iff_getElem?.1 hc
  refine .child hi ?_
  rw [inside_of_plain ha hopened hstrict hbranch]
  exact .refl

/-- A piece of a target stands in what the target stands in. -/
theorem within_of_targetPieces {t x : Tree} {names : List Span}
    (hx : (names, x) ∈ targetPieces t) : Within x t := by
  fun_cases targetPieces t with
  | case1 span parts =>
      obtain ⟨c, hc, heq⟩ := List.mem_map.1 hx
      obtain ⟨-, rfl⟩ := Prod.mk.inj heq
      exact within_of_plain hc (fun _ _ _ => rfl) (fun _ _ => rfl) (by simp)
  | case2 span parts =>
      obtain ⟨c, hc, heq⟩ := List.mem_map.1 hx
      obtain ⟨-, rfl⟩ := Prod.mk.inj heq
      exact within_of_plain (List.mem_of_mem_filter hc) (fun _ _ _ => rfl) (fun _ _ => rfl)
        (by simp)
  | case3 t hobject harray =>
      rw [targetPieces] at hx
      · simp at hx
      all_goals assumption

/-- A target loses the pieces whose names are all dead. -/
theorem mem_lostParts_of_piece {t x : Tree} {names : List Span}
    (hx : (names, x) ∈ targetPieces t) (hdead : AllDead dead names) : x ∈ lostParts dead t := by
  fun_cases targetPieces t with
  | case1 span parts =>
      obtain ⟨c, hc, heq⟩ := List.mem_map.1 hx
      obtain ⟨rfl, rfl⟩ := Prod.mk.inj heq
      exact List.mem_filter.2 ⟨hc, allDead_toList.1 hdead⟩
  | case2 span parts =>
      obtain ⟨c, hc, heq⟩ := List.mem_map.1 hx
      obtain ⟨rfl, rfl⟩ := Prod.mk.inj heq
      obtain ⟨hc, hhole⟩ := List.mem_filter.1 hc
      exact List.mem_filter.2 ⟨hc, Bool.and_eq_true_iff.2 ⟨hhole, allDead_toList.1 hdead⟩⟩
  | case3 t hobject harray =>
      rw [targetPieces] at hx
      · simp at hx
      all_goals assumption

/-- A piece of a declarator stands in what the declarator stands in. -/
theorem within_of_declaratorPieces {d x : Tree} {names : List Span}
    (hl : Tree.isDeclarator d.label = true) (hx : (names, x) ∈ declaratorPieces d) :
    Within x d := by
  rcases List.mem_cons.1 hx with heq | hx
  · obtain ⟨-, rfl⟩ := Prod.mk.inj heq
    exact Within.refl x
  · refine (within_of_targetPieces hx).trans ?_
    obtain ⟨l, s, ps⟩ := d
    obtain ⟨b, rfl⟩ := Tree.exists_of_isDeclarator hl
    cases ps with
    | nil => simp [Tree.child, Tree.absent, targetPieces] at hx
    | cons target rest =>
        exact within_of_plain List.mem_cons_self (fun _ _ _ => rfl) (fun _ _ => rfl) (by simp)

theorem within_import {o : Bool} {p : Option String} {s cs : Span} {ss rest : List Tree} {c : Tree}
    (hc : c ∈ ss) : Within c (.node (.module (.importDeclaration o p)) s
      (.node (.module .importClause) cs ss :: rest)) := by
  refine Within.trans (y := .node (.module .importClause) cs ss) ?_ ?_
  · exact within_of_plain hc (fun _ _ _ => rfl) (fun _ _ => rfl) (by simp)
  · exact within_of_plain List.mem_cons_self (fun _ _ _ => rfl) (fun _ _ => rfl) (by simp)

/-- The pieces of a statement are parts of it. -/
theorem within_of_statementPieces {t x : Tree} {names : List Span} (ht : t.inShape = true)
    (hx : (names, x) ∈ statementPieces t) : Within x t := by
  fun_cases statementPieces t with
  | case1 kind declared span declarators =>
      obtain ⟨d, hd, hx⟩ := List.mem_flatMap.1 hx
      refine (within_of_declaratorPieces (Tree.isDeclarator_of_inShape ht hd) hx).trans ?_
      exact within_of_plain hd (fun _ _ _ => rfl) (fun _ _ => rfl) (by simp)
  | case2 typeOnly phase span clauseSpan specifiers rest =>
      rcases List.mem_cons.1 hx with heq | hx
      · obtain ⟨-, rfl⟩ := Prod.mk.inj heq
        exact Within.refl _
      · obtain ⟨c, hc, heq⟩ := List.mem_map.1 hx
        obtain ⟨-, rfl⟩ := Prod.mk.inj heq
        exact within_import hc
  | case3 t hvariables himport =>
      rw [statementPieces] at hx
      · obtain ⟨-, rfl⟩ := Prod.mk.inj (List.mem_singleton.1 hx)
        exact Within.refl _
      all_goals assumption

/-- A piece of a declarator whose names are all dead goes with code that the declarator loses. -/
theorem exists_lostOfDeclarator_of_piece {d x : Tree} {names : List Span}
    (hl : Tree.isDeclarator d.label = true) (hx : (names, x) ∈ declaratorPieces d)
    (hdead : AllDead dead names) : ∃ y ∈ lostOfDeclarator dead d, Within x y := by
  rw [lostOfDeclarator]
  split_ifs with hnone
  · exact ⟨d, List.mem_singleton_self d, within_of_declaratorPieces hl hx⟩
  · rcases List.mem_cons.1 hx with heq | hx
    · obtain ⟨rfl, rfl⟩ := Prod.mk.inj heq
      exact absurd (Option.isNone_iff_eq_none.2 (keptDeclarator_eq_none_iff.2 hdead)) hnone
    · exact ⟨x, mem_lostParts_of_piece hx hdead, Within.refl x⟩

/-- A piece of a statement whose names are all dead goes with code that the statement loses. -/
theorem exists_lost_of_piece {t x : Tree} {names : List Span} (ht : t.inShape = true)
    (hx : (names, x) ∈ statementPieces t) (hdead : AllDead dead names) :
    ∃ y ∈ lost dead t, Within x y := by
  fun_cases statementPieces t with
  | case1 kind declared span declarators =>
      obtain ⟨d, hd, hx⟩ := List.mem_flatMap.1 hx
      obtain ⟨y, hy, hxy⟩ :=
        exists_lostOfDeclarator_of_piece (Tree.isDeclarator_of_inShape ht hd) hx hdead
      exact ⟨y, List.mem_flatMap.2 ⟨d, hd, hy⟩, hxy⟩
  | case2 typeOnly phase span clauseSpan specifiers rest =>
      rw [lost]
      -- If the whole import goes, its specifiers stand in it.
      split_ifs with hnone
      · exact ⟨_, List.mem_singleton_self _, within_of_statementPieces ht hx⟩
      · rcases List.mem_cons.1 hx with heq | hx
        · obtain ⟨rfl, -⟩ := Prod.mk.inj heq
          exact absurd (Option.isNone_iff_eq_none.2 (kept_import_eq_none_iff.2 hdead)) hnone
        · obtain ⟨c, hc, heq⟩ := List.mem_map.1 hx
          obtain ⟨rfl, rfl⟩ := Prod.mk.inj heq
          refine ⟨c, List.mem_filter.2 ⟨hc, ?_⟩, Within.refl c⟩
          exact Option.isNone_iff_eq_none.2 (keptSpecifier_eq_none_iff.2 hdead)
  | case3 t hvariables himport =>
      rw [statementPieces] at hx
      · obtain ⟨rfl, rfl⟩ := Prod.mk.inj (List.mem_singleton.1 hx)
        have hnone := (kept_eq_none_iff hvariables himport).2 hdead
        rw [lost, if_pos (Option.isNone_iff_eq_none.2 hnone)]
        · exact ⟨_, List.mem_singleton_self _, Within.refl _⟩
        all_goals assumption
      all_goals assumption

/-- A piece of a node is one of a statement in it, or of one of its parts. -/
theorem mem_pieces_node {a : Around} {l : Label} {s : Span} {ps : List Tree} {p : Piece} :
    p ∈ gather pieceRule a (.node l s ps) ↔
      ((l = .module .statements ∧ a.searched) ∧ p.around = { a with isBranch := false } ∧
        ∃ c ∈ ps, (p.names, p.code) ∈ statementPieces c) ∨
      ∃ i c, ps[i]? = some c ∧ p ∈ gather pieceRule (a.inside l s ps i) c := by
  rw [mem_gather_node]
  refine or_congr_left ?_
  unfold pieceRule
  split_ifs with hl
  · obtain ⟨rfl, ha⟩ := hl
    obtain ⟨names, code, around⟩ := p
    simp only [inside_statements, List.mem_map, List.mem_flatMap, Piece.mk.injEq, ha, true_and]
    constructor
    · rintro ⟨z, ⟨c, hc, hz⟩, rfl, rfl, rfl⟩
      exact ⟨rfl, c, hc, hz⟩
    · rintro ⟨rfl, c, hc, hy⟩
      exact ⟨_, ⟨c, hc, hy⟩, rfl, rfl, rfl⟩
  · simp [hl]

/-- The pieces of a tree stand where it is searched. -/
theorem searched_of_piece {a : Around} {t : Tree} {p : Piece} (hp : p ∈ gather pieceRule a t) :
    a.searched = true ∧ p.around.searched = true := by
  refine searched_of_mem_gather (fun a l s ps hp => ?_) hp
  unfold pieceRule at hp
  split_ifs at hp with hl
  · obtain ⟨y, -, rfl⟩ := List.mem_map.1 hp
    simp [Around.inside, hl]
  · simp at hp

/-- The pieces of a tree are parts of it. -/
theorem partOf_of_piece {a : Around} {t : Tree} (ht : t.inShape = true) {p : Piece}
    (hp : p ∈ gather pieceRule a t) : PartOf p.around p.code a t := by
  induction t using Tree.induct generalizing a with
  | node l s ps ih =>
      have hparts := (Tree.inShape_node.1 ht).2
      rcases mem_pieces_node.1 hp with ⟨⟨rfl, -⟩, hp1, c, hc, hp2⟩ | ⟨i, c, hc, hp⟩
      · obtain ⟨i, hi⟩ := List.mem_iff_getElem?.1 hc
        refine .child hi ?_
        rw [inside_statements, hp1]
        exact within_of_statementPieces (hparts c hc) hp2 _ rfl
      · have hmem := List.mem_of_getElem? hc
        exact .child hc (ih c hmem (hparts c hmem) hp)

/-- The code that goes is that of a piece whose names all go. -/
theorem exists_piece_of_deleted {a : Around} {t : Tree} {x : Around × Tree}
    (hx : x ∈ deleted dead a t) :
    ∃ p ∈ gather pieceRule a t, p.Gone dead ∧ p.around = x.1 ∧ p.code = x.2 := by
  induction t using Tree.induct generalizing a with
  | node l s ps ih =>
      rcases mem_deleted_node.1 hx with ⟨hl, hx1, c, hc, hx2⟩ | ⟨i, c, hc, hx⟩
      · obtain ⟨names, hmem, hdead⟩ := exists_piece_of_lost hx2
        refine ⟨⟨names, x.2, x.1⟩, ?_, hdead, rfl, rfl⟩
        exact mem_pieces_node.2 (Or.inl ⟨hl, hx1, c, hc, hmem⟩)
      · obtain ⟨p, hp, hgone⟩ := ih c (List.mem_of_getElem? hc) hx
        exact ⟨p, mem_pieces_node.2 (Or.inr ⟨i, c, hc, hp⟩), hgone⟩

/-- A piece whose names all go is in the code that goes. -/
theorem exists_deleted_of_piece {a : Around} {t : Tree} (ht : t.inShape = true) {p : Piece}
    (hp : p ∈ gather pieceRule a t) (hgone : p.Gone dead) :
    ∃ x ∈ deleted dead a t, x.1 = p.around ∧ Within p.code x.2 ∧ p.around.isBranch = false := by
  induction t using Tree.induct generalizing a with
  | node l s ps ih =>
      have hparts := (Tree.inShape_node.1 ht).2
      rcases mem_pieces_node.1 hp with ⟨hl, hp1, c, hc, hp2⟩ | ⟨i, c, hc, hp⟩
      · obtain ⟨y, hy, hwithin⟩ := exists_lost_of_piece (hparts c hc) hp2 hgone
        refine ⟨(p.around, y), ?_, rfl, hwithin, by rw [hp1]⟩
        exact mem_deleted_node.2 (Or.inl ⟨hl, hp1, c, hc, hy⟩)
      · have hmem := List.mem_of_getElem? hc
        obtain ⟨x, hx, hrest⟩ := ih c hmem (hparts c hmem) hp
        exact ⟨x, mem_deleted_node.2 (Or.inr ⟨i, c, hc, hx⟩), hrest⟩

/-- What a rule tells of a tree without repetition and of a piece that goes, it no longer tells. -/
theorem disjoint_prune_of_piece {α : Type} {rule : Rule α} {Lost : α → Prop}
    (hrule : Cuttable dead rule Lost) {a : Around} {t : Tree} (ht : t.inShape = true)
    (hnodup : (gather rule a t).Nodup) {p : Piece} (hp : p ∈ gather pieceRule a t)
    (hgone : p.Gone dead) :
    List.Disjoint (gather rule a (prune dead t)) (gather rule p.around p.code) := by
  obtain ⟨x, hx, hx1, hwithin, hbranch⟩ := exists_deleted_of_piece ht hp hgone
  have hdisjoint := disjoint_prune_of_deleted hrule ht hnodup hx
  rw [hx1] at hdisjoint
  exact List.disjoint_of_subset_right ((hwithin p.around hbranch).gather_subset rule) hdisjoint

/-- What a rule tells of a tree, it tells of the pruned tree or of a piece that goes, or it is
lost. -/
theorem mem_prune_or_piece {α : Type} {rule : Rule α} {Lost : α → Prop}
    (hrule : Cuttable dead rule Lost) {a : Around} (ha : a.searched = true) {t : Tree}
    (ht : t.inShape = true) {y : α} (hy : y ∈ gather rule a t) :
    y ∈ gather rule a (prune dead t) ∨
      (∃ p ∈ gather pieceRule a t, p.Gone dead ∧ y ∈ gather rule p.around p.code) ∨ Lost y := by
  rcases (gather_sheds_prune hrule ha ht).mem hy with hy | hy
  · rcases List.mem_append.1 hy with hy | hy
    · exact Or.inl hy
    · obtain ⟨x, hx, hy⟩ := List.mem_flatMap.1 hy
      obtain ⟨p, hp, hgone, hp1, hp2⟩ := exists_piece_of_deleted hx
      refine Or.inr (Or.inl ⟨p, hp, hgone, ?_⟩)
      rw [hp1, hp2]
      exact gather_prune_subset hrule (searched_of_deleted hx).2 (inShape_deleted ht hx) hy
  · exact Or.inr (Or.inr hy)

end RouteSplit.Sweep
