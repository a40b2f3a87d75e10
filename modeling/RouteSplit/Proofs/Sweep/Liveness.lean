import RouteSplit.Proofs.Binding.Collected
import RouteSplit.Proofs.Sweep.Run
import RouteSplit.Proofs.Sweep.Separate

/-!
# Dead names and their code

- `OwnCode`: some piece that goes by the name of a binding alone holds the binding's own code;
- `exists_piece_of_dead`: every dead name has such a piece.
-/

namespace RouteSplit.Sweep

open Scope

/-- The code of a node inside a tree is code of the tree. -/
theorem constructs_inside {x t : Tree} (h : Inside x t) : constructs x ⊆ constructs t := by
  induction h with
  | refl => exact List.Subset.refl _
  | part hc _ ih =>
      obtain ⟨i, hi⟩ := List.mem_iff_getElem?.1 hc
      intro s hs
      refine gather_child_subset hi ?_
      rw [gather_constructRule]
      exact ih hs


/-- A name inside a tree is code of its own and is mentioned as bound. -/
theorem binding_inside {t : Tree} {x : String × Span} {ps : List Tree}
    (h : Inside (.node (.pattern (.binding x.1)) x.2 ps) t) :
    x.2 ∈ constructs t ∧ ⟨x.1, x.2, none⟩ ∈ mentions t := by
  refine ⟨constructs_inside h ?_, h.mentions_subset ?_⟩
  · simp [constructs, gather_node, constructRule, isConstruct]
  · simp [mentions, gather_node, mentionRule, mentionsOf]

/-! ## The piece of a binding -/

theorem inside_of_restTarget {t : Tree} {x : String × Span} (h : Binding.restTarget t = .ok x) :
    ∃ ps, Inside (.node (.pattern (.binding x.1)) x.2 ps) t := by
  unfold Binding.restTarget at h
  split at h
  · rename_i target htarget
    obtain rfl := Except.ok.inj h
    exact inside_of_child (i := 0) (by simp [boundNames_of_nameOf htarget])
  · simp at h

/-- The name of a part of an object pattern stands inside the part. -/
theorem inside_of_objectPart {t : Tree} {x : String × Span}
    (h : Binding.objectPartTarget t = .ok x) :
    ∃ ps, Inside (.node (.pattern (.binding x.1)) x.2 ps) t := by
  unfold Binding.objectPartTarget at h
  split_ifs at h
  · exact inside_of_restTarget h
  · exact inside_of_child (i := 1) (by simp [boundNames_of_elementTarget h])

/-- The name of a place of an array pattern stands inside the place. -/
theorem inside_of_arrayPart {t : Tree} {x : String × Span}
    (h : Binding.arrayPartTarget t = .ok x) :
    ∃ ps, Inside (.node (.pattern (.binding x.1)) x.2 ps) t := by
  unfold Binding.arrayPartTarget at h
  split_ifs at h
  · exact inside_of_restTarget h
  · exact inside_of_boundName (by simp [boundNames_of_elementTarget h])

/-- A name that a target binds stands in it. -/
theorem inside_of_target {t : Tree} {targets : List (String × Span)}
    (h : Binding.declaratorTargets t = .ok targets) {x : String × Span} (hx : x ∈ targets) :
    ∃ ps, Inside (.node (.pattern (.binding x.1)) x.2 ps) t := by
  fun_cases Binding.declaratorTargets t with
  | case1 name span parts =>
      obtain rfl := Except.ok.inj h
      obtain rfl := List.mem_singleton.1 hx
      exact ⟨parts, .refl⟩
  | case2 span parts =>
      obtain ⟨c, hc, hpart⟩ := Binding.exists_of_mem_mapM h hx
      obtain ⟨ps, hinside⟩ := inside_of_objectPart hpart
      exact ⟨ps, hinside.part hc⟩
  | case3 span parts =>
      obtain ⟨c, hc, hpart⟩ := Binding.exists_of_mem_mapM h hx
      obtain ⟨ps, hinside⟩ := inside_of_arrayPart hpart
      exact ⟨ps, hinside.part (List.mem_of_mem_filter hc)⟩
  | case4 t hbinding hobject harray =>
      rw [Binding.declaratorTargets] at h
      · simp at h
      all_goals assumption

/-- Each name of a pattern has a part of its own. -/
theorem exists_targetPiece {t : Tree} {targets : List (String × Span)}
    (hplain : ∀ name site ps, t ≠ .node (.pattern (.binding name)) site ps)
    (h : Binding.declaratorTargets t = .ok targets) {x : String × Span} (hx : x ∈ targets) :
    ∃ code, ([x.2], code) ∈ targetPieces t ∧
      ∃ ps, Inside (.node (.pattern (.binding x.1)) x.2 ps) code := by
  fun_cases Binding.declaratorTargets t with
  | case1 name span parts => exact absurd rfl (hplain _ _ _)
  | case2 span parts =>
      obtain ⟨c, hc, hpart⟩ := Binding.exists_of_mem_mapM h hx
      refine ⟨c, List.mem_map.2 ⟨c, hc, ?_⟩, inside_of_objectPart hpart⟩
      rw [hpart]
      rfl
  | case3 span parts =>
      obtain ⟨c, hc, hpart⟩ := Binding.exists_of_mem_mapM h hx
      refine ⟨c, List.mem_map.2 ⟨c, hc, ?_⟩, inside_of_arrayPart hpart⟩
      rw [hpart]
      rfl
  | case4 t hbinding hobject harray =>
      rw [Binding.declaratorTargets] at h
      · simp at h
      all_goals assumption

/-- The code of a binding: it goes by the name of the binding alone, it holds the binding's own
code, and it holds the identifier that the binding goes by, which declares the binding unless it is
assigned to. -/
def OwnCode (table : Table) (b : Binding) (code : Tree) : Prop :=
  b.self ∈ constructs code ∧ ∃ m ∈ mentions code, m.site = b.site ∧
    (m.usage = none → table.declared b.site = some b.symbol)

/-- Code that holds a declared name and the code behind it is the name's own. -/
theorem ownCode_of_inside {table : Table} {b : Binding} {code : Tree} {ps : List Tree}
    (hself : b.self ∈ constructs code ∨ b.self = b.site)
    (hinside : Inside (.node (.pattern (.binding b.name)) b.site ps) code)
    (hdeclared : table.declared b.site = some b.symbol) : OwnCode table b code := by
  obtain ⟨hconstruct, hmention⟩ := binding_inside (x := (b.name, b.site)) hinside
  refine ⟨hself.elim id fun h => h ▸ hconstruct, _, hmention, rfl, fun _ => hdeclared⟩

/-- Every binding of a statement has a piece of its own. -/
theorem exists_piece_of_origin {table : Table} {env : Env} {b : Binding} {t : Tree}
    (ht : t.inShape = true) (h : Binding.Origin table env b t) :
    ∃ code, ([b.site], code) ∈ statementPieces t ∧ OwnCode table b code := by
  cases h with
  | @function traits span name generics parameters result body hbody hname hself hdeclared =>
      refine ⟨_, List.mem_singleton.2 (Prod.ext ?_ rfl), ?_⟩
      · simp [Binding.statementSites, hbody, hname]
      · obtain ⟨ps, hinside⟩ := inside_of_boundName (x := (b.name, b.site)) (t := name)
          (by simp [boundNames_of_nameOf hname])
        refine ownCode_of_inside (Or.inl ?_) (hinside.part (by simp)) hdeclared
        simp [constructs, gather_node, constructRule, isConstruct, hself]
  | @plain k declared span ds ps d hd hchild hself hdeclared =>
      refine ⟨d, List.mem_flatMap.2 ⟨d, hd, List.mem_cons.2 (Or.inl (Prod.ext ?_ rfl))⟩, ?_⟩
      · rw [hchild]
        rfl
      · obtain ⟨qs, hinside⟩ := inside_of_child (x := (b.name, b.site)) (t := d) (i := 0)
          (by simp [hchild, Tree.boundNames])
        refine ownCode_of_inside (hself.imp_left fun hself => ?_) hinside hdeclared
        obtain ⟨l, s, parts⟩ := d
        obtain ⟨definite, rfl⟩ := Tree.exists_of_isDeclarator (Tree.isDeclarator_of_inShape ht hd)
        simp [constructs, gather_node, constructRule, isConstruct, hself]
  | @part k declared span ds d targets hd hplain htargets hmem hself hdeclared =>
      obtain ⟨code, hcode, ps, hinside⟩ := exists_targetPiece hplain htargets hmem
      refine ⟨code, List.mem_flatMap.2 ⟨d, hd, List.mem_cons_of_mem _ hcode⟩, ?_⟩
      exact ownCode_of_inside (Or.inr hself) hinside hdeclared
  | @assignment span e hassigned hresolve =>
      -- The name is used here and declared elsewhere: its mention is that of the reference assigned
      -- to, and not that of a pattern as in the other cases.
      refine ⟨_, List.mem_singleton.2 (Prod.ext ?_ rfl), ?_⟩
      · simp [Binding.statementSites, hassigned]
      · fun_cases Binding.assignedFunction? e with
        | case1 self name usage site parts value hvalue =>
            rw [Binding.assignedFunction?, if_pos hvalue] at hassigned
            obtain ⟨hname, hsite, hself⟩ := by simpa using hassigned
            refine ⟨?_, ⟨name, site, some usage⟩, ?_, hsite, by simp⟩
            · refine constructs_inside (.part List.mem_cons_self .refl) ?_
              simp [constructs, gather_node, constructRule, isConstruct, hself]
            · refine Inside.mentions_subset
                (x := .node (.expression (.reference name usage)) site parts)
                (.part List.mem_cons_self (.part List.mem_cons_self .refl)) ?_
              simp [mentions, gather_node, mentionRule, mentionsOf]
        | case2 self name usage site parts value hvalue =>
            rw [Binding.assignedFunction?, if_neg hvalue] at hassigned
            simp at hassigned
        | case3 e hother =>
            rw [Binding.assignedFunction?] at hassigned
            · simp at hassigned
            · exact hother
  | @specifier typeOnly phase span clauseSpan specifiers rest s hs hname hself hdeclared =>
      refine ⟨s, List.mem_cons_of_mem _ (List.mem_map.2 ⟨s, hs, ?_⟩), ?_⟩
      · simp [specifierSites, hname]
      · obtain ⟨ps, hinside⟩ := inside_of_child (x := (b.name, b.site)) (t := s) (i := 0)
          (by simp [boundNames_of_nameOf hname])
        exact ownCode_of_inside (Or.inr hself) hinside hdeclared

/-- Every binding of a tree has a piece of its own. -/
theorem exists_piece_of_binding {table : Table} {a : Around} {t : Tree} (ht : t.inShape = true)
    {b : Binding} (hb : b ∈ gather (Binding.bindingRule table) a t) :
    ∃ p ∈ gather pieceRule a t, p.names = [b.site] ∧ OwnCode table b p.code := by
  induction t using Tree.induct generalizing a with
  | node l s ps ih =>
      have hparts := (Tree.inShape_node.1 ht).2
      rcases Binding.mem_bindings_node hb with ⟨hl, c, hc, horigin⟩ | ⟨i, c, hc, hb⟩
      · obtain ⟨code, hcode, hown⟩ := exists_piece_of_origin (hparts c hc) horigin
        refine ⟨⟨[b.site], code, { a with isBranch := false }⟩, ?_, rfl, hown⟩
        exact mem_pieces_node.2 (Or.inl ⟨hl, rfl, c, hc, hcode⟩)
      · have hmem := List.mem_of_getElem? hc
        obtain ⟨p, hp, hown⟩ := ih c hmem (hparts c hmem) hb
        exact ⟨p, mem_pieces_node.2 (Or.inr ⟨i, c, hc, hp⟩), hown⟩

/-- Every dead name has a piece that goes by it alone and holds its own code. -/
theorem exists_piece_of_dead {t : Tree} {c : Context} {site : Span} (ht : t.inShape = true)
    (h : Dead t c site) :
    ∃ b, b.site = site ∧ Binding.isReferenced (Binding.readsIn t) b = false ∧
      ∃ p ∈ pieces t, p.names = [site] ∧ OwnCode (tableOf t) b p.code := by
  obtain ⟨bs, hbs, b, hb, rfl, -, hunread⟩ := h
  obtain ⟨p, hp, hnames, hown⟩ := exists_piece_of_binding ht ((Binding.collect_spec hbs).2 hb)
  exact ⟨b, rfl, hunread, p, hp, hnames, hown⟩

end RouteSplit.Sweep
