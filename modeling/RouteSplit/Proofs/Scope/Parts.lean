import Mathlib.Data.List.Find
import Mathlib.Data.List.Induction
import RouteSplit.Proofs.Scope.Region

/-!
# Parts of a list of declarations

A part of a list that does not touch the rest has a region of its own, so that what is looked up
there does not depend on where in the list the part stands. In a part whose declarations all go to
one scope, the order does not matter either, except that it says which declaration of a name is the
first.

- `Detached`, `regionOf`: a part that does not touch the rest, and its region;
- `Table.Traced`: what is in a table comes from declarations;
- `serving_of_part`, `declared_of_part`: lookups that depend on a part only;
- `Table.Joined`: the table of declarations that all go to one scope;
- `Lookup`: the ways in which a symbol is looked up.
-/

namespace RouteSplit.Scope

variable {p : Declaration → Bool} {ds ds' : List Declaration} {d : Declaration}

/-! ## Parts and their regions -/

/-- The declarations of the part meet none of the others, and share no symbol with them. -/
def Detached (p : Declaration → Bool) (ds : List Declaration) : Prop :=
  ∀ d ∈ ds, ∀ e ∈ ds, p d = true → p e = false → ¬ d.Meets e ∧ d.symbol ≠ e.symbol

/-- The places that declarations of the part mark, and the symbols that they make. -/
def regionOf (p : Declaration → Bool) (ds : List Declaration) : Region where
  place scope name := ds.any fun d => p d && d.name == name && d.marks.contains scope
  symbol s := ds.any fun d => p d && d.symbol == s

/-- A place of a region is where one of its declarations stands or passes through. -/
theorem place_regionOf {scope : ScopeId} {name : String} :
    (regionOf p ds).place scope name = true ↔
      ∃ d ∈ ds, p d = true ∧ d.name = name ∧ scope ∈ d.marks := by
  simp [regionOf, and_assoc]

/-- A symbol of a region is that of one of its declarations. -/
theorem symbol_regionOf {s : Symbol} :
    (regionOf p ds).symbol s = true ↔ ∃ d ∈ ds, p d = true ∧ d.symbol = s := by
  simp [regionOf]

/-- Of detached declarations the region has just the symbols of those that it is made of. -/
theorem Detached.symbol_eq (h : Detached p ds) (hd : d ∈ ds) :
    (regionOf p ds).symbol d.symbol = p d := by
  rw [Bool.eq_iff_iff, symbol_regionOf]
  constructor
  · rintro ⟨e, he, hpe, hsymbol⟩
    by_contra hpd
    exact (h e he d hd hpe (by simpa using hpd)).2 hsymbol
  · exact fun hpd => ⟨d, hd, hpd, rfl⟩

theorem Detached.sorts (h : Detached p ds) (hd : d ∈ ds) : (regionOf p ds).Sorts d := by
  intro scope hscope
  rw [h.symbol_eq hd, Bool.eq_iff_iff, place_regionOf]
  constructor
  · rintro ⟨e, he, hpe, hname, hmark⟩
    by_contra hpd
    exact (h e he d hd hpe (by simpa using hpd)).1 ⟨hname, scope, hmark, hscope⟩
  · exact fun hpd => ⟨d, hd, hpd, rfl, hscope⟩

/-- Lists with the same part make tables that agree in the region of the part. -/
theorem Detached.shares (h : Detached p ds) (hsub : ds' ⊆ ds) (hpart : ds.filter p = ds'.filter p) :
    Table.Shares (regionOf p ds) (.ofDeclarations ds) (.ofDeclarations ds') := by
  have hfilter : ∀ es ⊆ ds, (es.filter fun d => (regionOf p ds).symbol d.symbol) = es.filter p :=
    fun es hes => List.filter_congr fun d hd => h.symbol_eq (hes hd)
  refine Table.shares_ofDeclarations (fun d hd => h.sorts hd) (fun d hd => h.sorts (hsub hd)) ?_
  rw [hfilter ds (List.Subset.refl _), hfilter ds' hsub, hpart]

namespace Table

variable {t : Table}

/-! ## Where the entries of a table come from -/

/-- The symbols that are bound somewhere. -/
def symbols (t : Table) : List Symbol := t.bound.map (·.symbol)

@[simp]
theorem symbols_note (t : Table) (d : Declaration) (s : Symbol) :
    (t.note d s).symbols = t.symbols := rfl

@[simp]
theorem symbols_widen (t : Table) (scope : ScopeId) (s : Symbol) (m : Meaning) :
    (t.widen scope s m).symbols = t.symbols := by
  rw [symbols, widen, List.map_map, symbols]
  apply List.map_congr_left
  intro b hb
  dsimp only [Function.comp]
  split_ifs <;> rfl

@[simp]
theorem symbols_move (t : Table) (source scope : ScopeId) (name : String) :
    (t.move source scope name).symbols = t.symbols := by
  unfold move
  split_ifs
  · rfl
  · rw [symbols, List.map_map, symbols]
    apply List.map_congr_left
    intro b hb
    dsimp only [Function.comp]
    split_ifs <;> rfl

/-- What a scope binds a name to is bound in the table, under that name and in that scope. -/
theorem exists_of_boundIn {scope : ScopeId} {name : String} {b : Bound}
    (h : t.boundIn scope name = some b) :
    b ∈ t.bound ∧ b.symbol.name = name ∧ b.scope = scope := by
  have hfound := List.find?_some h
  simp only [Bool.and_eq_true, beq_iff_eq] at hfound
  exact ⟨List.mem_of_find?_eq_some h, hfound.1, hfound.2⟩

/-- A symbol that passed through a scope is noted in the table. -/
theorem mem_of_passedBy {scope : ScopeId} {name : String} {s : Symbol}
    (h : t.passedBy scope name = some s) : (scope, s) ∈ t.passed ∧ s.name = name := by
  obtain ⟨⟨scope', s'⟩, hx, rfl⟩ := Option.map_eq_some_iff.1 h
  have hfound := List.find?_some hx
  simp only [Bool.and_eq_true, beq_iff_eq] at hfound
  obtain ⟨rfl, rfl⟩ := hfound
  exact ⟨List.mem_of_find?_eq_some hx, rfl⟩

/-- What a scope knows is bound there, or passed through it. -/
theorem known_cases {scope : ScopeId} {name : String} {s : Symbol}
    (h : t.known scope name = some s) :
    (∃ b ∈ t.bound, b.scope = scope ∧ b.symbol = s ∧ s.name = name) ∨
      ((scope, s) ∈ t.passed ∧ s.name = name) := by
  unfold known at h
  split at h
  · rename_i b hb
    obtain rfl := Option.some.inj h
    obtain ⟨hmem, hname, hscope⟩ := exists_of_boundIn hb
    exact Or.inl ⟨b, hmem, hscope, rfl, hname⟩
  · exact Or.inr (mem_of_passedBy h)

/-- A declaration leaves its symbol in the scopes on its way. -/
theorem passed_declare (t : Table) (d : Declaration) :
    (t.declare d).passed = d.through.map (·, t.noted d) ++ t.passed := by
  rcases declare_cases t d with ⟨source, -, s, -, hway, heq⟩ | ⟨hway, s, hs, heq⟩ |
    ⟨hway, hnew, heq⟩
  · have hmove : (t.move source d.scope d.name).passed = t.passed := by
      unfold Table.move
      split_ifs <;> rfl
    rw [heq, noted, hway, ← hmove]
    rfl
  · rw [heq, noted, hway]
    simp [hs, Table.note, Table.widen]
  · rw [heq, noted, hway]
    simp [hnew, Table.note]

/-- What a table binds with one more declaration stands where the declaration does, or the table
bound its symbol there. -/
theorem place_of_declare {b : Bound} (hb : b ∈ (t.declare d).bound) :
    (d.scope = b.scope ∧ d.name = b.symbol.name) ∨
      ∃ b' ∈ t.bound, b'.scope = b.scope ∧ b'.symbol = b.symbol := by
  rcases declare_cases t d with ⟨source, -, s, -, -, heq⟩ | ⟨-, s, -, heq⟩ | ⟨-, -, heq⟩
  -- What is met on the way is moved to where the declaration goes, and nothing else is.
  · rw [heq] at hb
    unfold Table.move at hb
    split_ifs at hb
    · exact Or.inr ⟨b, hb, rfl, rfl⟩
    · obtain ⟨b', hb', rfl⟩ := List.mem_map.1 hb
      split_ifs with hmoved
      · obtain ⟨hname, -⟩ : b'.symbol.name = d.name ∧ b'.scope = source := by simpa using hmoved
        exact Or.inl ⟨rfl, hname.symm⟩
      · exact Or.inr ⟨b', hb', rfl, rfl⟩
  -- Widening leaves every symbol in its scope.
  · rw [heq] at hb
    obtain ⟨b', hb', rfl⟩ := List.mem_map.1 hb
    refine Or.inr ⟨b', hb', ?_⟩
    split_ifs <;> exact ⟨rfl, rfl⟩
  · rw [heq] at hb
    rcases List.mem_cons.1 hb with rfl | hb
    · exact Or.inl ⟨rfl, rfl⟩
    · exact Or.inr ⟨b, hb, rfl, rfl⟩

/-- The entries of a table come from declarations, and no symbol is known that is not bound. -/
structure Traced (ds : List Declaration) (t : Table) : Prop where
  places : ∀ b ∈ t.bound, ∃ d ∈ ds, d.scope = b.scope ∧ d.name = b.symbol.name
  symbols : ∀ s ∈ t.symbols, ∃ d ∈ ds, d.symbol = s
  passed : ∀ x ∈ t.passed, x.2 ∈ t.symbols
  sites : ∀ x ∈ t.sites, x.2 ∈ t.symbols

/-- What is known of a name is a symbol of the table. -/
theorem Traced.mem_of_known (h : Traced ds t) {scope : ScopeId} {name : String} {s : Symbol}
    (hs : t.known scope name = some s) : s ∈ t.symbols := by
  rcases known_cases hs with ⟨b, hb, -, rfl, -⟩ | ⟨hx, -⟩
  · exact List.mem_map_of_mem hb
  · exact h.passed _ hx

/-- A declaration belongs to a symbol that is bound, or makes one. -/
theorem Traced.symbols_declare (h : Traced ds t) (d : Declaration) :
    (t.declare d).symbols = t.symbols ∧ t.noted d ∈ t.symbols ∨
      (t.declare d).symbols = d.symbol :: t.symbols ∧ t.noted d = d.symbol := by
  rcases declare_cases t d with ⟨source, -, s, hs, hway, heq⟩ | ⟨hway, s, hs, heq⟩ |
    ⟨hway, hnew, heq⟩
  -- The declaration joins a symbol that is met on the way or known where it goes.
  · refine Or.inl ⟨by rw [heq]; simp, ?_⟩
    rw [noted, hway]
    exact h.mem_of_known hs
  · refine Or.inl ⟨by rw [heq]; simp, ?_⟩
    rw [noted, hway]
    simpa [hs] using h.mem_of_known hs
  · refine Or.inr ⟨by rw [heq]; rfl, ?_⟩
    rw [noted, hway]
    simp [hnew]

/-- One more declaration leaves every symbol traced to a declaration. -/
theorem Traced.declare (h : Traced ds t) (d : Declaration) : Traced (ds ++ [d]) (t.declare d) := by
  have hkept : t.symbols ⊆ (t.declare d).symbols := by
    rcases h.symbols_declare d with ⟨heq, -⟩ | ⟨heq, -⟩
    · exact heq ▸ List.Subset.refl _
    · exact heq ▸ List.subset_cons_self _ _
  have hnoted : t.noted d ∈ (t.declare d).symbols := by
    rcases h.symbols_declare d with ⟨heq, hmem⟩ | ⟨heq, hnew⟩
    · exact heq ▸ hmem
    · simp [heq, hnew]
  constructor
  case places =>
    intro b hb
    rcases place_of_declare hb with hplace | ⟨b', hb', hscope, hsymbol⟩
    · exact ⟨d, by simp, hplace⟩
    · obtain ⟨e, he, hescope, hename⟩ := h.places b' hb'
      exact ⟨e, by simp [he], hescope.trans hscope, hename.trans (congrArg Symbol.name hsymbol)⟩
  case symbols =>
    intro s hs
    have hs : s = d.symbol ∨ s ∈ t.symbols := by
      rcases h.symbols_declare d with ⟨heq, -⟩ | ⟨heq, -⟩ <;> rw [heq] at hs
      · exact Or.inr hs
      · exact List.mem_cons.1 hs
    rcases hs with rfl | hs
    · exact ⟨d, by simp, rfl⟩
    · obtain ⟨e, he, hsymbol⟩ := h.symbols s hs
      exact ⟨e, by simp [he], hsymbol⟩
  case passed =>
    intro x hx
    rw [passed_declare] at hx
    rcases List.mem_append.1 hx with hx | hx
    · obtain ⟨scope, -, rfl⟩ := List.mem_map.1 hx
      exact hnoted
    · exact hkept (h.passed x hx)
  case sites =>
    intro x hx
    rw [sites_declare] at hx
    rcases List.mem_cons.1 hx with rfl | hx
    · exact hnoted
    · exact hkept (h.sites x hx)

theorem ofDeclarations_append (ds : List Declaration) (d : Declaration) :
    ofDeclarations (ds ++ [d]) = (ofDeclarations ds).declare d := by
  rw [ofDeclarations, List.foldl_append]
  rfl

/-- Every symbol of a table is that of one of its declarations. -/
theorem traced_ofDeclarations (ds : List Declaration) : Traced ds (ofDeclarations ds) := by
  induction ds using List.reverseRecOn with
  | nil => exact ⟨by simp [ofDeclarations], by simp [ofDeclarations, symbols],
      by simp [ofDeclarations], by simp [ofDeclarations]⟩
  | append_singleton ds d ih =>
      rw [ofDeclarations_append]
      exact ih.declare d

/-- A table has an entry for the place of each declaration, the last one first. -/
theorem sites_ofDeclarations (ds : List Declaration) :
    (ofDeclarations ds).sites.map Prod.fst = (ds.map (·.site)).reverse := by
  induction ds using List.reverseRecOn with
  | nil => rfl
  | append_singleton ds d ih =>
      rw [ofDeclarations_append, sites_declare, List.map_cons, ih]
      simp

/-! ## Symbols that are found -/

/-- What serves a use is a symbol of the table. -/
theorem mem_symbols_of_serving {scope : ScopeId} {name : String} {usage : Usage} {s : Symbol}
    (h : t.serving scope name usage = some s) : s ∈ t.symbols := by
  obtain ⟨b, hb, rfl⟩ := Option.map_eq_some_iff.1 h
  exact List.mem_map_of_mem (exists_of_boundIn (Option.filter_eq_some_iff.1 hb).1).1

/-- What a use means is a symbol of the table. -/
theorem mem_symbols_of_resolve {env : Env} {name : String} {usage : Usage} {s : Symbol}
    (h : t.resolve env name usage = some s) : s ∈ t.symbols := by
  obtain ⟨scope, -, hserving⟩ := List.exists_of_findSome?_eq_some h
  exact mem_symbols_of_serving hserving

theorem Traced.mem_symbols_of_declared (h : Traced ds t) {site : Span} {s : Symbol}
    (hs : t.declared site = some s) : s ∈ t.symbols := by
  obtain ⟨x, hx, rfl⟩ := Option.map_eq_some_iff.1 hs
  exact h.sites x (List.mem_of_find?_eq_some hx)

/-- A table fits a region that sorts its declarations. -/
theorem fits_ofDeclarations {r : Region} (hds : ∀ d ∈ ds, r.Sorts d) :
    Fits r (ofDeclarations ds) := by
  induction ds using List.reverseRecOn with
  | nil => exact ⟨by simp [ofDeclarations], by simp [ofDeclarations]⟩
  | append_singleton ds d ih =>
      rw [ofDeclarations_append]
      exact (ih fun e he => hds e (by simp [he])).declare (hds d (by simp))

/-- What is declared at a place is a symbol on the side of a declaration there. -/
theorem exists_of_site {r : Region} (hds : ∀ d ∈ ds, r.Sorts d) {x : Span × Symbol}
    (hx : x ∈ (ofDeclarations ds).sites) :
    ∃ d ∈ ds, d.site = x.1 ∧ r.symbol x.2 = r.symbol d.symbol := by
  induction ds using List.reverseRecOn with
  | nil => simp [ofDeclarations] at hx
  | append_singleton ds d ih =>
      have hrest : ∀ e ∈ ds, r.Sorts e := fun e he => hds e (by simp [he])
      rw [ofDeclarations_append, sites_declare] at hx
      rcases List.mem_cons.1 hx with rfl | hx
      · exact ⟨d, by simp, rfl, (fits_ofDeclarations hrest).symbol_noted (hds d (by simp))⟩
      · obtain ⟨e, he, hkey⟩ := ih hrest hx
        exact ⟨e, by simp [he], hkey⟩

/-! ## Lookups in a part -/

section Part

variable (h : Detached p ds) (hsub : ds' ⊆ ds) (hpart : ds.filter p = ds'.filter p)

include h hsub hpart

/-- What a scope binds a name to depends on the part that declares the name there. -/
theorem serving_of_part {scope : ScopeId} {name : String}
    (hp : ∀ d ∈ ds, d.scope = scope → d.name = name → p d = true) (usage : Usage) :
    (ofDeclarations ds).serving scope name usage = (ofDeclarations ds').serving scope name usage := by
  have hbound : (ofDeclarations ds).boundIn scope name =
      (ofDeclarations ds').boundIn scope name := by
    by_cases hplace : (regionOf p ds).place scope name = true
    · exact (h.shares hsub hpart).boundIn_eq hplace
    · -- No declaration of the name goes there, so neither table binds it.
      have hnone : ∀ es ⊆ ds, (ofDeclarations es).boundIn scope name = none := by
        intro es hes
        rw [Option.eq_none_iff_forall_ne_some]
        intro b hb
        obtain ⟨hmem, hname, hscope⟩ := exists_of_boundIn hb
        obtain ⟨d, hd, hdscope, hdname⟩ := (traced_ofDeclarations es).places b hmem
        have hdscope := hdscope.trans hscope
        have hdname := hdname.trans hname
        refine hplace (place_regionOf.2 ⟨d, hes hd, hp d (hes hd) hdscope hdname, hdname, ?_⟩)
        exact hdscope ▸ List.mem_cons_self
      rw [hnone ds (List.Subset.refl _), hnone ds' hsub]
  rw [serving, serving, hbound]

/-- What is declared at a place depends on the part that declares something there. -/
theorem declared_of_part {site : Span} (hp : ∀ d ∈ ds, d.site = site → p d = true) :
    (ofDeclarations ds).declared site = (ofDeclarations ds').declared site := by
  have hfind : ∀ es ⊆ ds, (ofDeclarations es).sites.find? (·.1 == site) =
      (sitesPart (regionOf p ds) (ofDeclarations es)).find? (·.1 == site) := by
    intro es hes
    rw [sitesPart, List.find?_filter]
    apply List.find?_congr
    intro x hx
    obtain ⟨d, hd, hsite, hside⟩ := exists_of_site (fun d hd => h.sorts (hes hd)) hx
    by_cases hx : x.1 = site
    · have htrue : (regionOf p ds).symbol x.2 = true := by
        rw [hside, h.symbol_eq (hes hd)]
        exact hp d (hes hd) (hsite.trans hx)
      simp [htrue, hx]
    · have hfalse : (x.1 == site) = false := by simpa using hx
      simp [hfalse]
  rw [declared, declared, hfind ds (List.Subset.refl _), hfind ds' hsub,
    (h.shares hsub hpart).sites]

/-- The symbols of the part are bound in both tables. -/
theorem mem_symbols_of_part {s : Symbol} (hs : s ∈ (ofDeclarations ds).symbols)
    (hregion : (regionOf p ds).symbol s = true) : s ∈ (ofDeclarations ds').symbols := by
  obtain ⟨b, hb, rfl⟩ := List.mem_map.1 hs
  have hplace : (regionOf p ds).place b.scope b.symbol.name = true :=
    ((fits_ofDeclarations fun d hd => h.sorts hd).bound b hb).trans hregion
  have hmem : b ∈ boundPart (regionOf p ds) (ofDeclarations ds) := List.mem_filter.2 ⟨hb, hplace⟩
  rw [(h.shares hsub hpart).bound] at hmem
  exact List.mem_map_of_mem (List.mem_of_mem_filter hmem)

end Part

/-! ## Declarations that all go to one scope -/

/-- The declaration goes to `top`, and what passes through other scopes on its way is a variable. -/
structure GoesTo (top : ScopeId) (d : Declaration) : Prop where
  scope : d.scope = top
  through : top ∉ d.through
  meaning : d.through ≠ [] → d.meaning = .ofValue

/-- The table of declarations that all go to one scope: a symbol for each name, which serves what any
of its declarations does. -/
structure Joined (top : ScopeId) (ds : List Declaration) (t : Table) : Prop where
  scope : ∀ b ∈ t.bound, b.scope = top
  single : ∀ b ∈ t.bound, ∀ b' ∈ t.bound, b.symbol.name = b'.symbol.name → b = b'
  serves : ∀ b ∈ t.bound, ∀ u, b.meaning.serves u = true ↔
    ∃ d ∈ ds, d.name = b.symbol.name ∧ d.meaning.serves u = true
  complete : ∀ d ∈ ds, ∃ b ∈ t.bound, b.symbol.name = d.name
  /-- What passed through other scopes is a variable. -/
  passed : ∀ x ∈ t.passed, x.1 ≠ top ∧
    ∃ b ∈ t.bound, b.symbol = x.2 ∧ ∀ u, Meaning.ofValue.serves u = true → b.meaning.serves u = true
  sites : ∀ x ∈ t.sites, ∃ d ∈ ds, d.site = x.1 ∧ d.name = x.2.name

variable {top : ScopeId}

/-- Where declarations are joined, a name is bound at the top to what it is bound to anywhere. -/
theorem Joined.boundIn_eq (h : Joined top ds t) {b : Bound} (hb : b ∈ t.bound) :
    t.boundIn top b.symbol.name = some b := by
  obtain ⟨b', hb'⟩ : ∃ b', t.boundIn top b.symbol.name = some b' := by
    rw [← Option.isSome_iff_exists, boundIn, List.find?_isSome]
    exact ⟨b, hb, by simp [h.scope b hb]⟩
  obtain ⟨hmem, hname, -⟩ := exists_of_boundIn hb'
  rw [hb', h.single b' hmem b hb hname]

/-- One declaration more of a name that is bound already: its symbol comes to serve what the
declaration does. -/
theorem Joined.of_bound (h : Joined top ds t) (hd : GoesTo top d) {s : Symbol} {f : Bound → Bound}
    (hs : ∃ b ∈ t.bound, b.symbol = s) (hname : s.name = d.name)
    (hsymbol : ∀ b, (f b).symbol = b.symbol) (hscope : ∀ b, (f b).scope = b.scope)
    (hserves : ∀ b ∈ t.bound, ∀ u, (f b).meaning.serves u = true ↔
      b.meaning.serves u = true ∨ b.symbol.name = d.name ∧ d.meaning.serves u = true) :
    Joined top (ds ++ [d]) (({ t with bound := t.bound.map f } : Table).note d s) where
  -- Only what the symbol serves changes; names, scopes and symbols are those of before.
  scope b' hb' := by
    obtain ⟨b, hb, rfl⟩ := List.mem_map.1 hb'
    rw [hscope, h.scope b hb]
  single b₁ hb₁ b₂ hb₂ heq := by
    obtain ⟨b, hb, rfl⟩ := List.mem_map.1 hb₁
    obtain ⟨b', hb', rfl⟩ := List.mem_map.1 hb₂
    rw [hsymbol, hsymbol] at heq
    rw [h.single b hb b' hb' heq]
  serves b' hb' u := by
    obtain ⟨b, hb, rfl⟩ := List.mem_map.1 hb'
    rw [hserves b hb, h.serves b hb, hsymbol]
    simp only [List.mem_append, List.mem_singleton, or_and_right, exists_or, exists_eq_left]
    rw [eq_comm (a := b.symbol.name)]
  complete e he := by
    rcases List.mem_append.1 he with he | he
    · obtain ⟨b, hb, hbname⟩ := h.complete e he
      exact ⟨f b, List.mem_map_of_mem hb, by rw [hsymbol, hbname]⟩
    · obtain rfl := List.mem_singleton.1 he
      obtain ⟨b, hb, rfl⟩ := hs
      exact ⟨f b, List.mem_map_of_mem hb, by rw [hsymbol, hname]⟩
  passed x hx := by
    rcases List.mem_append.1 hx with hx | hx
    · obtain ⟨scope, hthrough, rfl⟩ := List.mem_map.1 hx
      obtain ⟨b, hb, rfl⟩ := hs
      refine ⟨fun htop => hd.through (htop ▸ hthrough), f b, List.mem_map_of_mem hb, hsymbol b, ?_⟩
      intro u hu
      rw [hserves b hb, hd.meaning (List.ne_nil_of_mem hthrough)]
      exact Or.inr ⟨hname, hu⟩
    · obtain ⟨hscope', b, hb, hbx, hvalue⟩ := h.passed x hx
      refine ⟨hscope', f b, List.mem_map_of_mem hb, (hsymbol b).trans hbx, fun u hu => ?_⟩
      exact (hserves b hb u).2 (Or.inl (hvalue u hu))
  sites x hx := by
    rcases List.mem_cons.1 hx with rfl | hx
    · exact ⟨d, by simp, rfl, hname.symm⟩
    · obtain ⟨e, he, hkey⟩ := h.sites x hx
      exact ⟨e, by simp [he], hkey⟩

/-- One declaration more of a name that is not bound yet. -/
theorem Joined.of_new (h : Joined top ds t) (hd : GoesTo top d)
    (hnew : ∀ b ∈ t.bound, b.symbol.name ≠ d.name) :
    Joined top (ds ++ [d])
      (({ t with bound := ⟨d.scope, d.symbol, d.meaning⟩ :: t.bound } : Table).note d d.symbol) where
  scope := List.forall_mem_cons.2 ⟨hd.scope, h.scope⟩
  single := by
    intro b hb b' hb' heq
    rcases List.mem_cons.1 hb with rfl | hb <;> rcases List.mem_cons.1 hb' with rfl | hb'
    · rfl
    · exact absurd heq.symm (hnew b' hb')
    · exact absurd heq (hnew b hb)
    · exact h.single b hb b' hb' heq
  serves := by
    -- The name is new, so no older declaration has a part in what its symbol serves.
    have hold : ∀ e ∈ ds, e.name ≠ d.name := by
      intro e he hname
      obtain ⟨b, hb, hbname⟩ := h.complete e he
      exact hnew b hb (hbname.trans hname)
    intro b hb u
    rcases List.mem_cons.1 hb with rfl | hb
    · constructor
      · exact fun hu => ⟨d, by simp, rfl, hu⟩
      · rintro ⟨e, he, hname, hu⟩
        rcases List.mem_append.1 he with he | he
        · exact absurd hname (hold e he)
        · obtain rfl := List.mem_singleton.1 he
          exact hu
    · rw [h.serves b hb]
      have hne : d.name ≠ b.symbol.name := (hnew b hb).symm
      simp [or_and_right, exists_or, hne]
  complete e he := by
    rcases List.mem_append.1 he with he | he
    · obtain ⟨b, hb, hname⟩ := h.complete e he
      exact ⟨b, List.mem_cons_of_mem _ hb, hname⟩
    · obtain rfl := List.mem_singleton.1 he
      exact ⟨_, List.mem_cons_self, rfl⟩
  passed x hx := by
    rcases List.mem_append.1 hx with hx | hx
    · obtain ⟨scope, hthrough, rfl⟩ := List.mem_map.1 hx
      refine ⟨fun htop => hd.through (htop ▸ hthrough), _, List.mem_cons_self, rfl, ?_⟩
      rw [hd.meaning (List.ne_nil_of_mem hthrough)]
      exact fun u hu => hu
    · obtain ⟨hscope, b, hb, hrest⟩ := h.passed x hx
      exact ⟨hscope, b, List.mem_cons_of_mem _ hb, hrest⟩
  sites x hx := by
    rcases List.mem_cons.1 hx with rfl | hx
    · exact ⟨d, by simp, rfl, rfl⟩
    · obtain ⟨e, he, hkey⟩ := h.sites x hx
      exact ⟨e, by simp [he], hkey⟩

/-- A declaration that goes to the top joins those that are there. -/
theorem Joined.declare (h : Joined top ds t) (hd : GoesTo top d) :
    Joined top (ds ++ [d]) (t.declare d) := by
  rcases declare_cases t d with ⟨source, hsource, s, hs, -, heq⟩ | ⟨-, s, hs, heq⟩ | ⟨-, hnew, heq⟩
  · -- A scope on the way knows the name because it passed through, so it is bound at `top` already
    -- and nothing is moved.
    obtain ⟨b, hb, hsymbol, hvalue⟩ : ∃ b ∈ t.bound, b.symbol = s ∧
        ∀ u, Meaning.ofValue.serves u = true → b.meaning.serves u = true := by
      rcases known_cases hs with ⟨b, hb, hscope, -⟩ | ⟨hx, -⟩
      · exact absurd ((h.scope b hb).symm.trans hscope ▸ hsource) hd.through
      · exact (h.passed _ hx).2
    have hname : s.name = d.name := by
      rcases known_cases hs with ⟨_, -, -, -, hname⟩ | ⟨-, hname⟩ <;> exact hname
    have hstays : t.move source d.scope d.name = t := by
      have hbound := h.boundIn_eq hb
      rw [hsymbol, hname, ← hd.scope] at hbound
      rw [Table.move, hbound]
      rfl
    have hjoined := h.of_bound hd (f := id) ⟨b, hb, hsymbol⟩ hname (fun _ => rfl) (fun _ => rfl) ?_
    · rw [heq, hstays]
      rwa [List.map_id] at hjoined
    · intro b' hb' u
      refine ⟨Or.inl, fun hserves => hserves.elim id fun ⟨hname', hu⟩ => ?_⟩
      rw [hd.meaning (List.ne_nil_of_mem hsource)] at hu
      have hsame : b' = b := h.single b' hb' b hb (by rw [hname', hsymbol, hname])
      exact hsame ▸ hvalue u hu
  · obtain ⟨b, hb, hsymbol, hname⟩ : ∃ b ∈ t.bound, b.symbol = s ∧ s.name = d.name := by
      rcases known_cases hs with ⟨b, hb, -, hsymbol, hname⟩ | ⟨hx, -⟩
      · exact ⟨b, hb, hsymbol, hname⟩
      · exact absurd hd.scope (h.passed _ hx).1
    rw [heq]
    refine h.of_bound hd ⟨b, hb, hsymbol⟩ hname ?_ ?_ ?_
    · intro b'
      split_ifs <;> rfl
    · intro b'
      split_ifs <;> rfl
    · intro b' hb' u
      have hsame : b'.symbol = s ↔ b'.symbol.name = d.name := by
        constructor
        · exact fun h => h ▸ hname
        · intro hname'
          rw [h.single b' hb' b hb (by rw [hname', hsymbol, hname]), hsymbol]
      by_cases hb's : b'.symbol = s
      · rw [if_pos (by simp [hb's, h.scope b' hb', hd.scope]), Meaning.serves_union]
        simp [hsame.1 hb's]
      · rw [if_neg (by simp [hb's])]
        exact (or_iff_left fun hother => hb's (hsame.2 hother.1)).symm
  · rw [heq]
    refine h.of_new hd fun b hb hname => ?_
    have hknown := hnew
    rw [known, hd.scope, ← hname, h.boundIn_eq hb] at hknown
    simp at hknown

/-- Declarations that all go to the top are joined there. -/
theorem joined_ofDeclarations (hds : ∀ d ∈ ds, GoesTo top d) : Joined top ds (ofDeclarations ds) := by
  induction ds using List.reverseRecOn with
  | nil => exact ⟨by simp [ofDeclarations], by simp [ofDeclarations], by simp [ofDeclarations],
      by simp, by simp [ofDeclarations], by simp [ofDeclarations]⟩
  | append_singleton ds d ih =>
      rw [ofDeclarations_append]
      exact (ih fun e he => hds e (by simp [he])).declare (hds d (by simp))

/-- What a use finds in the scope has the name of the use, if some declaration serves it. -/
theorem Joined.serving_name (h : Joined top ds t) (name : String) (usage : Usage) :
    (t.serving top name usage).map (·.name) =
      if ds.any (fun d => d.name == name && d.meaning.serves usage) then some name else none := by
  cases hbound : t.boundIn top name with
  | none =>
      have hnone : ds.any (fun d => d.name == name && d.meaning.serves usage) = false := by
        rw [List.any_eq_false]
        intro d hd hfound
        obtain ⟨b, hb, hname⟩ := h.complete d hd
        obtain ⟨rfl, -⟩ : d.name = name ∧ d.meaning.serves usage = true := by simpa using hfound
        rw [← hname, h.boundIn_eq hb] at hbound
        simp at hbound
      rw [hnone, serving, hbound]
      rfl
  | some b =>
      obtain ⟨hb, rfl, -⟩ := exists_of_boundIn hbound
      have hserves : ds.any (fun d => d.name == b.symbol.name && d.meaning.serves usage) =
          b.meaning.serves usage := by
        rw [Bool.eq_iff_iff, h.serves b hb usage]
        simp
      rw [hserves, serving, hbound]
      cases hvalue : b.meaning.serves usage <;> simp [Option.filter, hvalue]

/-- What is declared at a place has the name of the declarations there. -/
theorem Joined.declared_name (h : Joined top ds t) (hd : d ∈ ds)
    (hnames : ∀ e ∈ ds, e.site = d.site → e.name = d.name)
    (hsites : t.sites.map Prod.fst = (ds.map (·.site)).reverse) :
    (t.declared d.site).map (·.name) = some d.name := by
  have hmem : d.site ∈ t.sites.map Prod.fst := by
    rw [hsites]
    exact List.mem_reverse.2 (List.mem_map_of_mem hd)
  obtain ⟨x, hx, hsite⟩ := List.mem_map.1 hmem
  obtain ⟨y, hy⟩ : ∃ y, t.sites.find? (·.1 == d.site) = some y := by
    rw [← Option.isSome_iff_exists, List.find?_isSome]
    exact ⟨x, hx, by simp [hsite]⟩
  obtain ⟨e, he, hesite, hename⟩ := h.sites y (List.mem_of_find?_eq_some hy)
  have hysite : y.1 = d.site := by simpa using List.find?_some hy
  rw [declared, hy, ← hnames e he (hesite.trans hysite), hename]
  rfl

end Table

/-! ## Lookups -/

/-- A way to look a symbol up: by a place where it is declared, or by a name that is used. -/
inductive Lookup where
  | declared (site : Span)
  | used (env : Env) (name : String) (usage : Usage)
deriving DecidableEq, Repr

namespace Lookup

def find (table : Table) : Lookup → Option Symbol
  | declared site => table.declared site
  | used env name usage => table.resolve env name usage

/-- Both find a symbol, and it is the same. -/
def Same (table : Table) (x y : Lookup) : Prop :=
  ∃ s, x.find table = some s ∧ y.find table = some s

/-- What a lookup finds is a symbol of the table. -/
theorem mem_symbols_of_find {x : Lookup} {s : Symbol}
    (h : x.find (.ofDeclarations ds) = some s) : s ∈ (Table.ofDeclarations ds).symbols := by
  cases x with
  | declared site => exact (Table.traced_ofDeclarations ds).mem_symbols_of_declared h
  | used env name usage => exact Table.mem_symbols_of_resolve h

end Lookup

end RouteSplit.Scope
