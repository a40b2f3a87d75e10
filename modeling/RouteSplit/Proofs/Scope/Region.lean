import RouteSplit.Proofs.Scope.Resolution

/-!
# Parts of a table that do not touch

A declaration leaves its mark on the scopes on its way, so a table of symbols does not fall apart by
scopes. It does fall apart where every declaration keeps to one side: what is looked up on that side
depends on the declarations of that side only.

- `Region`: the places that are looked at, and the symbols that are found there;
- `Region.Sorts`: a declaration keeps to one side of the region;
- `Table.Fits`, `Table.Agrees`: a table that falls apart, and two that have one side in common;
- `Table.noted`, `Table.Shares`: the symbol that a declaration belongs to, and two tables that also
  agree on which declarations belong to the symbols of the region;
- `resolve_congr`: lookups in the region depend on the declarations of the region;
- `resolve_congr_of_name`: the region of a name.
-/

namespace RouteSplit.Scope

/-- A set of places, each a name in a scope, and the symbols that are found there. -/
structure Region where
  place : ScopeId → String → Bool
  symbol : Symbol → Bool

/-- The declaration leaves its mark on places of the region only, or on none of them, and so is its
symbol. -/
def Region.Sorts (r : Region) (d : Declaration) : Prop :=
  ∀ s ∈ d.marks, r.place s d.name = r.symbol d.symbol

namespace Table

variable {r : Region} {t t' : Table} {d : Declaration}

/-- The symbols of the region are found in the region, and no others are. -/
structure Fits (r : Region) (t : Table) : Prop where
  bound : ∀ b ∈ t.bound, r.place b.scope b.symbol.name = r.symbol b.symbol
  passed : ∀ p ∈ t.passed, r.place p.1 p.2.name = r.symbol p.2

/-- What a table binds in the region. -/
def boundPart (r : Region) (t : Table) : List Bound :=
  t.bound.filter fun b => r.place b.scope b.symbol.name

/-- What passed through the scopes of the region. -/
def passedPart (r : Region) (t : Table) : List (ScopeId × Symbol) :=
  t.passed.filter fun p => r.place p.1 p.2.name

/-- Two tables hold the same in the region. -/
structure Agrees (r : Region) (t t' : Table) : Prop where
  bound : boundPart r t = boundPart r t'
  passed : passedPart r t = passedPart r t'

/-! ## Lookups in a region -/

/-- What a scope of the region binds is found in the part of the table that belongs to the
region. -/
theorem boundIn_eq_find {scope : ScopeId} {name : String} (h : r.place scope name = true) :
    t.boundIn scope name =
      (boundPart r t).find? fun b => b.symbol.name == name && b.scope == scope := by
  rw [boundIn, boundPart, List.find?_filter]
  congr 1
  funext b
  by_cases hb : b.symbol.name = name ∧ b.scope = scope
  · obtain ⟨hname, hscope⟩ := hb
    simp [hname, hscope, h]
  · have hfalse : (b.symbol.name == name && b.scope == scope) = false := by simpa using hb
    simp [hfalse]

/-- What passed through a scope of the region is found in the part of the table that belongs to
it. -/
theorem passedBy_eq_find {scope : ScopeId} {name : String} (h : r.place scope name = true) :
    t.passedBy scope name =
      ((passedPart r t).find? fun p => p.2.name == name && p.1 == scope).map (·.2) := by
  rw [passedBy, passedPart, List.find?_filter]
  congr 2
  funext p
  by_cases hp : p.2.name = name ∧ p.1 = scope
  · obtain ⟨hname, hscope⟩ := hp
    simp [hname, hscope, h]
  · have hfalse : (p.2.name == name && p.1 == scope) = false := by simpa using hp
    simp [hfalse]

/-- A search depends on what is found at the places that are searched. -/
theorem findSome?_congr_of_mem {α β : Type} {f g : α → Option β} {xs : List α}
    (h : ∀ x ∈ xs, f x = g x) : xs.findSome? f = xs.findSome? g := by
  induction xs with
  | nil => rfl
  | cons x xs ih =>
      rw [List.findSome?_cons, List.findSome?_cons, h x List.mem_cons_self,
        ih fun y hy => h y (List.mem_cons_of_mem x hy)]

namespace Agrees

variable {scope : ScopeId} {name : String}

/-- Tables that agree on a region bind the same in it. -/
theorem boundIn_eq (h : Agrees r t t') (hplace : r.place scope name = true) :
    t.boundIn scope name = t'.boundIn scope name := by
  rw [boundIn_eq_find hplace, boundIn_eq_find hplace, h.bound]

/-- Tables that agree on a region know the same in it. -/
theorem known_eq (h : Agrees r t t') (hplace : r.place scope name = true) :
    t.known scope name = t'.known scope name := by
  have hpassed : t.passedBy scope name = t'.passedBy scope name := by
    rw [passedBy_eq_find hplace, passedBy_eq_find hplace, h.passed]
  rw [known, known, h.boundIn_eq hplace, hpassed]

/-- Tables that agree on a region resolve a name alike where all scopes around it lie in the
region. -/
theorem resolve_eq {env : Env} (h : Agrees r t t') (henv : ∀ s ∈ env, r.place s name = true)
    (usage : Usage) : t.resolve env name usage = t'.resolve env name usage := by
  apply findSome?_congr_of_mem
  intro s hs
  rw [serving, serving, h.boundIn_eq (henv s hs)]

/-- Tables that agree on a region let a declaration of the region join the same symbol. -/
theorem onTheWay_eq (h : Agrees r t t') (hd : ∀ s ∈ d.marks, r.place s d.name = true) :
    t.onTheWay d = t'.onTheWay d := by
  apply findSome?_congr_of_mem
  intro s hs
  rw [h.known_eq (hd s (List.mem_cons_of_mem _ hs))]

end Agrees

/-! ## What is known -/

/-- A symbol that a scope knows has the name that was asked for, and lies where the scope does. -/
theorem Fits.of_known (h : Fits r t) {scope : ScopeId} {name : String} {s : Symbol}
    (hs : t.known scope name = some s) : s.name = name ∧ r.place scope name = r.symbol s := by
  unfold known at hs
  split at hs
  · rename_i b hb
    obtain rfl := Option.some.inj hs
    have hfound := List.find?_some hb
    obtain ⟨hname, hscope⟩ : b.symbol.name = name ∧ b.scope = scope := by simpa using hfound
    refine ⟨hname, ?_⟩
    rw [← hname, ← hscope]
    exact h.bound b (List.mem_of_find?_eq_some hb)
  · rw [passedBy] at hs
    obtain ⟨p, hp, rfl⟩ := Option.map_eq_some_iff.1 hs
    have hfound := List.find?_some hp
    obtain ⟨hname, hscope⟩ : p.2.name = name ∧ p.1 = scope := by simpa using hfound
    refine ⟨hname, ?_⟩
    rw [← hname, ← hscope]
    exact h.passed p (List.mem_of_find?_eq_some hp)

/-- What a step of a table does: a declaration takes along what it meets on its way, or joins what
is known where it goes, or is new there. -/
theorem declare_cases (t : Table) (d : Declaration) :
    (∃ source ∈ d.through, ∃ s, t.known source d.name = some s ∧ t.onTheWay d = some (source, s) ∧
      t.declare d = (t.move source d.scope d.name).note d s) ∨
    (t.onTheWay d = none ∧ ∃ s, t.known d.scope d.name = some s ∧
      t.declare d = (t.widen d.scope s d.meaning).note d s) ∨
    (t.onTheWay d = none ∧ t.known d.scope d.name = none ∧
      t.declare d = ({ t with bound := ⟨d.scope, d.symbol, d.meaning⟩ :: t.bound } : Table).note d
        d.symbol) := by
  cases hway : t.onTheWay d with
  | some found =>
      obtain ⟨source, s⟩ := found
      obtain ⟨scope, hscope, hmap⟩ := List.exists_of_findSome?_eq_some hway
      obtain ⟨s', hs', heq⟩ := Option.map_eq_some_iff.1 hmap
      obtain ⟨rfl, rfl⟩ := Prod.mk.inj heq
      exact Or.inl ⟨scope, hscope, s', hs', rfl, by rw [declare, hway]⟩
  | none =>
      cases hknown : t.known d.scope d.name with
      | some s => exact Or.inr (Or.inl ⟨rfl, s, rfl, by rw [declare, hway]; simp [hknown]⟩)
      | none =>
          refine Or.inr (Or.inr ⟨rfl, rfl, ?_⟩)
          rw [declare, hway]
          simp [hknown, Declaration.symbol]

/-! ## Tables that fall apart -/

/-- Noting a symbol keeps a table fitting where its places are on the symbol's side. -/
theorem Fits.note (h : Fits r t) {s : Symbol} (hname : s.name = d.name)
    (hd : ∀ scope ∈ d.through, r.place scope d.name = r.symbol s) : Fits r (t.note d s) := by
  refine ⟨h.bound, fun p hp => ?_⟩
  rcases List.mem_append.1 hp with hp | hp
  · obtain ⟨scope, hscope, rfl⟩ := List.mem_map.1 hp
    rw [hname]
    exact hd scope hscope
  · exact h.passed p hp

theorem Fits.widen (h : Fits r t) (scope : ScopeId) (s : Symbol) (m : Meaning) :
    Fits r (t.widen scope s m) := by
  refine ⟨fun b hb => ?_, h.passed⟩
  obtain ⟨b', hb', rfl⟩ := List.mem_map.1 hb
  have hfits := h.bound b' hb'
  split_ifs
  · exact hfits
  · exact hfits

/-- Moving a name keeps a table fitting where both scopes are on the same side. -/
theorem Fits.move (h : Fits r t) {source scope : ScopeId} {name : String}
    (hplace : r.place scope name = r.place source name) : Fits r (t.move source scope name) := by
  unfold Table.move
  split_ifs
  · exact h
  · refine ⟨fun b hb => ?_, h.passed⟩
    obtain ⟨b', hb', rfl⟩ := List.mem_map.1 hb
    have hfits := h.bound b' hb'
    split_ifs with hmoved
    · obtain ⟨hname, hsource⟩ : b'.symbol.name = name ∧ b'.scope = source := by simpa using hmoved
      rw [hname, hsource] at hfits
      dsimp only
      rw [hname, hplace, hfits]
    · exact hfits

/-- A table that falls apart does so with one more declaration that keeps to one side. -/
theorem Fits.declare (h : Fits r t) (hd : r.Sorts d) : Fits r (t.declare d) := by
  have hsame : ∀ s ∈ d.through, r.place s d.name = r.place d.scope d.name := by
    intro s hs
    rw [hd s (List.mem_cons_of_mem _ hs), hd d.scope List.mem_cons_self]
  rcases declare_cases t d with ⟨source, hsource, s, hs, -, heq⟩ | ⟨-, s, hs, heq⟩ | ⟨-, -, heq⟩
  -- A symbol met on the way is moved along, one known where the declaration goes is widened, and a
  -- new one is bound there: each at places of one side.
  · obtain ⟨hname, hplace⟩ := h.of_known hs
    rw [heq]
    refine (h.move (hsame source hsource).symm).note hname fun scope hscope => ?_
    rw [hsame scope hscope, ← hplace, hsame source hsource]
  · obtain ⟨hname, hplace⟩ := h.of_known hs
    rw [heq]
    refine (h.widen _ _ _).note hname fun scope hscope => ?_
    rw [hsame scope hscope, hplace]
  · have hnew : Fits r { t with bound := ⟨d.scope, d.symbol, d.meaning⟩ :: t.bound } := by
      refine ⟨fun b hb => ?_, h.passed⟩
      rcases List.mem_cons.1 hb with rfl | hb
      · exact hd d.scope List.mem_cons_self
      · exact h.bound b hb
    rw [heq]
    exact hnew.note rfl fun scope hscope => hd scope (List.mem_cons_of_mem _ hscope)

/-! ## One declaration more -/

/-- Noting a symbol adds its places in the region to the part of the region. -/
theorem passedPart_note (r : Region) (t : Table) (d : Declaration) {s : Symbol}
    (hname : s.name = d.name) :
    passedPart r (t.note d s) =
      (d.through.filter fun scope => r.place scope d.name).map (·, s) ++ passedPart r t := by
  rw [passedPart, note, List.filter_append, List.filter_map, passedPart, ← hname]
  rfl

theorem boundPart_note (r : Region) (t : Table) (d : Declaration) (s : Symbol) :
    boundPart r (t.note d s) = boundPart r t := rfl

/-- A change of the bindings that leaves each on its side changes the region's bindings. -/
theorem filter_map_bound (f : Bound → Bound) (hf : ∀ b ∈ t.bound,
      r.place (f b).scope (f b).symbol.name = r.place b.scope b.symbol.name) :
    (t.bound.map f).filter (fun b => r.place b.scope b.symbol.name) = (boundPart r t).map f := by
  rw [List.filter_map, boundPart]
  congr 1
  exact List.filter_congr hf

theorem boundPart_widen (r : Region) (t : Table) (scope : ScopeId) (s : Symbol) (m : Meaning) :
    boundPart r (t.widen scope s m) = (boundPart r t).map fun b =>
      if b.symbol == s && (b.scope == scope || b.scope.kind != .head) then
        { b with meaning := b.meaning.union m }
      else b := by
  refine filter_map_bound _ fun b _ => ?_
  split_ifs <;> rfl

/-- Moving a name moves it in the part of the region, if that has it. -/
theorem boundPart_move {source scope : ScopeId} {name : String}
    (hplace : r.place scope name = r.place source name) :
    boundPart r (t.move source scope name) =
      if (t.boundIn scope name).isSome then boundPart r t
      else (boundPart r t).map fun b =>
        if b.symbol.name == name && b.scope == source then { b with scope } else b := by
  unfold Table.move
  split_ifs
  · rfl
  · refine filter_map_bound _ fun b _ => ?_
    split_ifs with hmoved
    · obtain ⟨hname, hsource⟩ : b.symbol.name = name ∧ b.scope = source := by simpa using hmoved
      dsimp only
      rw [hname, hsource, hplace]
    · rfl

/-- A declaration of the other side leaves the region as it is. -/
theorem Fits.agrees_declare (h : Fits r t) (hd : r.Sorts d) (hout : r.symbol d.symbol = false) :
    Agrees r (t.declare d) t := by
  have hmarks : ∀ s ∈ d.marks, r.place s d.name = false := fun s hs => (hd s hs).trans hout
  have hscope : r.place d.scope d.name = false := hmarks d.scope List.mem_cons_self
  have hthrough : (d.through.filter fun scope => r.place scope d.name) = [] := by
    rw [List.filter_eq_nil_iff]
    intro s hs
    simp [hmarks s (List.mem_cons_of_mem _ hs)]
  have hin : ∀ b ∈ boundPart r t, r.place b.scope b.symbol.name = true := by
    intro b hb
    exact (List.mem_filter.1 hb).2
  rcases declare_cases t d with ⟨source, hsource, s, hs, -, heq⟩ | ⟨-, s, hs, heq⟩ | ⟨-, -, heq⟩
  · -- What is moved was bound at a place of the other side.
    have hplace := hmarks source (List.mem_cons_of_mem _ hsource)
    rw [heq]
    refine ⟨?_, ?_⟩
    · rw [boundPart_note, boundPart_move (hscope.trans hplace.symm)]
      split_ifs
      · rfl
      · refine (List.map_congr_left fun b hb => if_neg ?_).trans (List.map_id _)
        intro hmoved
        obtain ⟨hname, rfl⟩ : b.symbol.name = d.name ∧ b.scope = source := by simpa using hmoved
        have htrue := hin b hb
        rw [hname, hplace] at htrue
        simp at htrue
    · rw [passedPart_note _ _ _ (h.of_known hs).1, hthrough]
      unfold Table.move
      split_ifs <;> rfl
  · -- A symbol can be bound in several scopes, and is widened in all: none of them is in the
    -- region, since the table fits.
    obtain ⟨hname, hsymbol⟩ := h.of_known hs
    rw [heq]
    refine ⟨?_, ?_⟩
    · rw [boundPart_note, boundPart_widen]
      refine (List.map_congr_left fun b hb => if_neg ?_).trans (List.map_id _)
      intro hwidened
      have hbs : b.symbol = s := by
        have hfirst := (Bool.and_eq_true _ _ ▸ hwidened).1
        simpa using hfirst
      have htrue := hin b hb
      rw [h.bound b (List.mem_of_mem_filter hb), hbs, ← hsymbol, hscope] at htrue
      simp at htrue
    · rw [passedPart_note _ _ _ hname, hthrough]
      rfl
  -- A new symbol is bound at a place of the other side.
  · rw [heq]
    refine ⟨?_, ?_⟩
    · rw [boundPart_note, boundPart, List.filter_cons_of_neg]
      · rfl
      · simp [Declaration.symbol, hscope]
    · rw [passedPart_note _ _ _ rfl, hthrough]
      rfl

/-- A declaration of the region changes both tables in the same way. -/
theorem Agrees.declare (h : Agrees r t t') (ht : Fits r t) (hd : r.Sorts d)
    (hin : r.symbol d.symbol = true) : Agrees r (t.declare d) (t'.declare d) := by
  have hmarks : ∀ s ∈ d.marks, r.place s d.name = true := fun s hs => (hd s hs).trans hin
  have hscope : r.place d.scope d.name = true := hmarks d.scope List.mem_cons_self
  -- All that a declaration looks up lies in the region, where the tables agree, so both take the
  -- same of the three branches.
  have hway := h.onTheWay_eq hmarks
  have hknown := h.known_eq hscope
  rcases declare_cases t d with ⟨source, hsource, s, hs, hfound, heq⟩ | ⟨hnone, s, hs, heq⟩ |
    ⟨hnone, hnew, heq⟩
  -- A symbol met on the way, which both tables move along.
  · have hplace := hmarks source (List.mem_cons_of_mem _ hsource)
    have heq' : t'.declare d = (t'.move source d.scope d.name).note d s := by
      rw [Table.declare, ← hway, hfound]
    obtain ⟨hname, -⟩ := ht.of_known hs
    rw [heq, heq']
    refine ⟨?_, ?_⟩
    · rw [boundPart_note, boundPart_note, boundPart_move (hscope.trans hplace.symm),
        boundPart_move (hscope.trans hplace.symm), h.boundIn_eq hscope, h.bound]
    · rw [passedPart_note _ _ _ hname, passedPart_note _ _ _ hname]
      congr 1
      have hpassed : ∀ t : Table, passedPart r (t.move source d.scope d.name) = passedPart r t := by
        intro t
        unfold Table.move
        split_ifs <;> rfl
      rw [hpassed, hpassed, h.passed]
  -- A symbol known where the declaration goes, which both widen.
  · have heq' : t'.declare d = (t'.widen d.scope s d.meaning).note d s := by
      rw [Table.declare, ← hway, hnone]
      simp [← hknown, hs]
    obtain ⟨hname, -⟩ := ht.of_known hs
    rw [heq, heq']
    refine ⟨?_, ?_⟩
    · rw [boundPart_note, boundPart_note, boundPart_widen, boundPart_widen, h.bound]
    · rw [passedPart_note _ _ _ hname, passedPart_note _ _ _ hname]
      exact congrArg _ h.passed
  -- A new symbol, which both bind.
  · have heq' : t'.declare d = ({ t' with bound := ⟨d.scope, d.symbol, d.meaning⟩ :: t'.bound } :
        Table).note d d.symbol := by
      rw [Table.declare, ← hway, hnone]
      simp [← hknown, hnew, Declaration.symbol]
    rw [heq, heq']
    refine ⟨?_, ?_⟩
    · have hcons : ∀ t : Table, boundPart r
          { t with bound := ⟨d.scope, d.symbol, d.meaning⟩ :: t.bound } =
            ⟨d.scope, d.symbol, d.meaning⟩ :: boundPart r t :=
        fun t => List.filter_cons_of_pos hscope
      rw [boundPart_note, boundPart_note, hcons, hcons, h.bound]
    · rw [passedPart_note _ _ _ rfl, passedPart_note _ _ _ rfl]
      exact congrArg _ h.passed

/-! ## Places of declarations -/

/-- The symbol that a declaration belongs to. -/
def noted (t : Table) (d : Declaration) : Symbol :=
  match t.onTheWay d with
  | some (_, s) => s
  | none => (t.known d.scope d.name).getD d.symbol

theorem sites_declare (t : Table) (d : Declaration) :
    (t.declare d).sites = (d.site, t.noted d) :: t.sites := by
  rcases declare_cases t d with ⟨source, -, s, -, hway, heq⟩ | ⟨hway, s, hs, heq⟩ |
    ⟨hway, hnew, heq⟩
  · have hmove : (t.move source d.scope d.name).sites = t.sites := by
      unfold Table.move
      split_ifs <;> rfl
    rw [heq, noted, hway, ← hmove]
    rfl
  · rw [heq, noted, hway]
    simp [hs, Table.note, Table.widen]
  · rw [heq, noted, hway]
    simp [hnew, Table.note]

/-- Tables that agree on a region note the same symbol for a declaration of the region. -/
theorem Agrees.noted_eq (h : Agrees r t t') (hd : ∀ s ∈ d.marks, r.place s d.name = true) :
    t.noted d = t'.noted d := by
  rw [noted, noted, h.onTheWay_eq hd, h.known_eq (hd d.scope List.mem_cons_self)]

/-- A declaration belongs to a symbol of its own side. -/
theorem Fits.symbol_noted (h : Fits r t) (hd : r.Sorts d) :
    r.symbol (t.noted d) = r.symbol d.symbol := by
  rcases declare_cases t d with ⟨source, hsource, s, hs, hway, -⟩ | ⟨hway, s, hs, -⟩ |
    ⟨hway, hnew, -⟩
  · rw [noted, hway, ← (h.of_known hs).2]
    exact hd source (List.mem_cons_of_mem _ hsource)
  · rw [noted, hway]
    simp only [hs, Option.getD_some]
    rw [← (h.of_known hs).2]
    exact hd d.scope List.mem_cons_self
  · rw [noted, hway]
    simp [hnew]

/-- The declarations that belong to symbols of the region. -/
def sitesPart (r : Region) (t : Table) : List (Span × Symbol) := t.sites.filter fun x => r.symbol x.2

/-- Two tables hold the same in the region, and have the same declarations there. -/
structure Shares (r : Region) (t t' : Table) : Prop extends Agrees r t t' where
  sites : sitesPart r t = sitesPart r t'

/-- A declaration outside a region leaves the region as it was. -/
theorem Fits.shares_declare (h : Fits r t) (hd : r.Sorts d) (hout : r.symbol d.symbol = false) :
    Shares r (t.declare d) t := by
  refine ⟨h.agrees_declare hd hout, ?_⟩
  rw [sitesPart, sites_declare, List.filter_cons_of_neg, sitesPart]
  simp [h.symbol_noted hd, hout]

/-- A declaration inside a region keeps two tables alike in it. -/
theorem Shares.declare (h : Shares r t t') (ht : Fits r t) (hd : r.Sorts d)
    (hin : r.symbol d.symbol = true) : Shares r (t.declare d) (t'.declare d) := by
  have hnoted : t.noted d = t'.noted d := h.noted_eq fun s hs => (hd s hs).trans hin
  have hsymbol : r.symbol (t.noted d) = true := (ht.symbol_noted hd).trans hin
  refine ⟨h.toAgrees.declare ht hd hin, ?_⟩
  have hcons : ∀ xs : List (Span × Symbol),
      ((d.site, t.noted d) :: xs).filter (fun x => r.symbol x.2) =
        (d.site, t.noted d) :: xs.filter fun x => r.symbol x.2 :=
    fun xs => List.filter_cons_of_pos hsymbol
  rw [sitesPart, sitesPart, sites_declare, sites_declare, ← hnoted, hcons, hcons]
  exact congrArg _ h.sites

/-! ## The table of a list -/

/-- The declarations of the region make what there is in the region. -/
theorem shares_foldl_filter {ds : List Declaration} (hds : ∀ d ∈ ds, r.Sorts d) (ht : Fits r t)
    (ht' : Fits r t') (h : Shares r t t') :
    Shares r (ds.foldl declare t)
      ((ds.filter fun d => r.symbol d.symbol).foldl declare t') := by
  -- The invariant is that both tables fit and agree: a declaration of the region is made in both,
  -- one of the other side in the first only.
  induction ds generalizing t t' with
  | nil => exact h
  | cons d ds ih =>
      have hd := hds d List.mem_cons_self
      have hrest := fun e he => hds e (List.mem_cons_of_mem d he)
      rw [List.foldl_cons]
      cases hside : r.symbol d.symbol with
      | true =>
          have hcons : ((d :: ds).filter fun d => r.symbol d.symbol) =
              d :: ds.filter fun d => r.symbol d.symbol := List.filter_cons_of_pos hside
          rw [hcons, List.foldl_cons]
          exact ih hrest (ht.declare hd) (ht'.declare hd) (h.declare ht hd hside)
      | false =>
          rw [List.filter_cons_of_neg (by simp [hside])]
          have hleft := ht.shares_declare hd hside
          exact ih hrest (ht.declare hd) ht' ⟨⟨hleft.bound.trans h.bound,
            hleft.passed.trans h.passed⟩, hleft.sites.trans h.sites⟩

/-- Two lists with the same declarations in the region make tables that agree there. -/
theorem shares_ofDeclarations {ds ds' : List Declaration} (hds : ∀ d ∈ ds, r.Sorts d)
    (hds' : ∀ d ∈ ds', r.Sorts d)
    (h : (ds.filter fun d => r.symbol d.symbol) = ds'.filter fun d => r.symbol d.symbol) :
    Shares r (ofDeclarations ds) (ofDeclarations ds') := by
  have hempty : Fits r {} := ⟨by simp, by simp⟩
  have hnothing : Shares r {} {} := ⟨⟨rfl, rfl⟩, rfl⟩
  have hleft := shares_foldl_filter hds hempty hempty hnothing
  have hright := shares_foldl_filter hds' hempty hempty hnothing
  rw [h] at hleft
  exact ⟨⟨hleft.bound.trans hright.bound.symm, hleft.passed.trans hright.passed.symm⟩,
    hleft.sites.trans hright.sites.symm⟩

/-- Lookups in the region depend on the declarations of the region, where all declarations keep to
one side. -/
theorem resolve_congr {ds ds' : List Declaration} (hds : ∀ d ∈ ds, r.Sorts d)
    (hds' : ∀ d ∈ ds', r.Sorts d)
    (h : (ds.filter fun d => r.symbol d.symbol) = ds'.filter fun d => r.symbol d.symbol)
    {env : Env} {name : String} (henv : ∀ s ∈ env, r.place s name = true) (usage : Usage) :
    (ofDeclarations ds).resolve env name usage = (ofDeclarations ds').resolve env name usage :=
  (shares_ofDeclarations hds hds' h).resolve_eq henv usage

/-- What a name means depends on its own declarations. -/
theorem resolve_congr_of_name {ds ds' : List Declaration} {name : String}
    (h : (ds.filter fun d => d.name == name) = ds'.filter fun d => d.name == name) (env : Env)
    (usage : Usage) :
    (ofDeclarations ds).resolve env name usage = (ofDeclarations ds').resolve env name usage := by
  let r : Region := { place := fun _ n => n == name, symbol := fun s => s.name == name }
  have hsorts : ∀ d, r.Sorts d := fun _ _ _ => rfl
  exact resolve_congr (r := r) (fun d _ => hsorts d) (fun d _ => hsorts d) h
    (fun _ _ => beq_self_eq_true name) usage

end Table

end RouteSplit.Scope
