import RouteSplit.Export.Record
import RouteSplit.Proofs.Scope.Region
import RouteSplit.Proofs.Sweep.WellFormed

/-!
# What names mean after a sweep

A use that is left means what it meant, unless a pass took the declaration: because it was dead,
because it stood in code that went by other names, or because a namespace lost its last value.
No pass finds a declaration dead that a read means, so reads are lost in the last two ways only.

- `CarriedAway`, `Emptied`: the two ways in which a read is lost;
- `resolve_pass`: a pass that does neither, and does not take the name itself, leaves the meaning;
- `not_dead_of_binding`, `not_dead_of_read`: what a read means is not dead;
- `read_kept_iff`, `use_kept`: the reads, and the uses of any kind, that keep their meaning.
-/

namespace RouteSplit.Sweep

open Scope

/-- A pass takes the declaration of `s` along with code that goes by other names. -/
def CarriedAway (c : Context) (t : Tree) (s : Symbol) : Prop :=
  ∃ p ∈ pieces t, p.names ≠ [] ∧ (∀ n ∈ p.names, Dead t c n) ∧ s.site ∉ p.names ∧
    ∃ d ∈ declarations p.around p.code, d.symbol = s

/-- The use asks for the value of a namespace that has none. -/
def Emptied (t : Tree) (u : Use) (s : Symbol) : Prop :=
  ∃ d ∈ declarations {} t, d.symbol = s ∧ d.scope ∈ u.env ∧ d.meaning = .ofNamespace false ∧
    d.meaning.serves u.usage = false

variable {c : Context} {t t' : Tree} {u : Use} {s : Symbol}

/-! ## Lookups -/

/-- Where nothing is declared twice, a use means the declaration in the innermost scope that has one
to serve it. -/
theorem resolve_tableOf (hdistinct : Distinct (declarations {} t)) :
    u.resolve (tableOf t) = some s ↔
      ∃ inner outer, ∃ d ∈ declarations {} t, u.env = inner ++ d.scope :: outer ∧ d.name = u.name ∧
        d.meaning.serves u.usage = true ∧ d.symbol = s ∧
        ∀ e ∈ declarations {} t, e.scope ∈ inner → e.name = u.name →
          e.meaning.serves u.usage = false :=
  Table.resolve_iff (Table.represents_ofDeclarations hdistinct) hdistinct

/-- What a use means is declared in a scope that it sees, to serve it. -/
theorem exists_declared_of_resolve (hdistinct : Distinct (declarations {} t))
    (h : u.resolve (tableOf t) = some s) :
    ∃ d ∈ declarations {} t, d.symbol = s ∧ d.scope ∈ u.env ∧ d.meaning.serves u.usage = true := by
  obtain ⟨inner, outer, d, hd, henv, -, hserves, hsymbol, -⟩ := (resolve_tableOf hdistinct).1 h
  exact ⟨d, hd, hsymbol, by simp [henv], hserves⟩

/-! ## Declarations that a pass takes -/

/-- A piece goes when all its names are dead. -/
theorem gone_of_dead {dead : List Binding} (hdead : deadBindings t c = .ok dead) {p : Piece}
    (hne : p.names ≠ []) (hall : ∀ n ∈ p.names, Dead t c n) : p.Gone dead :=
  ⟨hne, fun n hn => (isDead_iff_dead hdead n).2 (hall n hn)⟩

/-- No identifier of a piece that goes is left. -/
theorem site_gone (h : Pass c t t') (ht : WellFormed t) {p : Piece} (hp : p ∈ pieces t)
    (hne : p.names ≠ []) (hall : ∀ n ∈ p.names, Dead t c n) {m m' : Mention}
    (hm : m ∈ mentions p.code) (hm' : m' ∈ mentions t') : m'.site ≠ m.site := by
  obtain ⟨dead, hdead, -, rfl⟩ := h
  intro hsite
  have hnodup : (mentions t).Nodup := ht.sites.of_map
  have hgone := gone_of_dead hdead hne hall
  have hmt : m ∈ mentions t := by
    refine (partOf_of_piece ht.shape hp).gather_subset mentionRule ?_
    rwa [gather_mentionRule]
  have hmt' : m' ∈ mentions t := gather_prune_subset cuttable_mentionRule rfl ht.shape hm'
  obtain rfl : m' = m := List.inj_on_of_nodup_map ht.sites hmt' hmt hsite
  refine disjoint_prune_of_piece cuttable_mentionRule ht.shape hnodup hp hgone hm' ?_
  rwa [gather_mentionRule]

/-- A declaration is left, in one of its versions, or its name is dead, or it stands in a piece that
goes. -/
theorem version_or_gone (h : Pass c t t') (ht : WellFormed t)
    (hdistinct : Distinct (declarations {} t)) {d : Declaration} (hd : d ∈ declarations {} t) :
    (∃ e ∈ declarations {} t', e ∈ versions d) ∨ Dead t c d.site ∨
      ∃ p ∈ pieces t, p.names ≠ [] ∧ (∀ n ∈ p.names, Dead t c n) ∧
        ∃ e ∈ declarations p.around p.code, e.symbol = d.symbol := by
  obtain ⟨dead, hdead, -, rfl⟩ := h
  -- The least version is followed: a removal can take others when it empties a namespace.
  have hleast : least d ∈ gather versionRule {} t := by
    rw [gather_versionRule]
    exact List.mem_flatMap.2 ⟨d, hd, least_mem_versions d⟩
  obtain ⟨hsymbol, hscope, -⟩ := version_key (least_mem_versions d)
  rcases mem_prune_or_piece cuttable_versionRule rfl ht.shape hleast with
    hleft | ⟨p, hp, hgone, hpiece⟩ | hlost | hlost
  · rw [gather_versionRule] at hleft
    obtain ⟨e, he, hversion⟩ := List.mem_flatMap.1 hleft
    obtain ⟨f, hf, hversion'⟩ := exists_version_of_prune ht.shape he
    obtain ⟨hsymbol', hscope', -⟩ := version_key hversion
    obtain ⟨hsymbol'', hscope'', -⟩ := version_key hversion'
    -- What is left is a version of some declaration of the tree, which has the name and the scope
    -- of `d`.
    have hfd : f = d := by
      refine hdistinct.eq_of_meets hf hd (Declaration.meets_of_scope ?_ ?_)
      · exact congrArg Symbol.name (hsymbol''.symm.trans (hsymbol'.symm.trans hsymbol))
      · exact hscope''.symm.trans (hscope'.symm.trans hscope)
    exact Or.inl ⟨e, he, hfd ▸ hversion'⟩
  · rw [gather_versionRule] at hpiece
    obtain ⟨e, he, hversion⟩ := List.mem_flatMap.1 hpiece
    refine Or.inr (Or.inr ⟨p, hp, hgone.1, ?_, e, he, ?_⟩)
    · exact fun n hn => (isDead_iff_dead hdead n).1 (hgone.2 n hn)
    · exact (version_key hversion).1.symm.trans hsymbol
  · have hsite : (least d).site = d.site := congrArg Symbol.site hsymbol
    exact Or.inr (Or.inl ((isDead_iff_dead hdead _).1 (hsite ▸ hlost)))
  · exact absurd hlost (least_meaning d)

/-- A pass that takes neither the name of `s` nor code around its declaration, and empties no
namespace, leaves what a use means. -/
theorem resolve_pass (h : Pass c t t') (ht : WellFormed t)
    (hdistinct : Distinct (declarations {} t)) (hs : u.resolve (tableOf t) = some s)
    (hdead : ¬ Dead t c s.site) (hcarried : ¬ CarriedAway c t s) (hemptied : ¬ Emptied t' u s) :
    u.resolve (tableOf t') = some s := by
  obtain ⟨inner, outer, d, hd, henv, hname, hserves, rfl, hinner⟩ := (resolve_tableOf hdistinct).1 hs
  have hreach : Reaches c t t' := .single h
  have hleft : ∃ e ∈ declarations {} t', e ∈ versions d := by
    rcases version_or_gone h ht hdistinct hd with hleft | hgone | ⟨p, hp, hne, hall, e, he, hsymbol⟩
    · exact hleft
    · exact absurd hgone hdead
    · by_cases hmem : d.site ∈ p.names
      · exact absurd (hall _ hmem) hdead
      · exact absurd ⟨p, hp, hne, hall, hmem, e, he, hsymbol⟩ hcarried
  obtain ⟨e, he, hversion⟩ := hleft
  obtain ⟨hsymbol, hscope, -⟩ := version_key hversion
  have hserves' : e.meaning.serves u.usage = true := by
    rcases mem_versions.1 hversion with rfl | ⟨-, rfl⟩
    · exact hserves
    · by_contra hserves'
      exact hemptied ⟨_, he, rfl, by simp [henv, emptied], rfl, by simpa using hserves'⟩
  refine (resolve_tableOf (distinct_reaches hreach ht hdistinct)).2
    ⟨inner, outer, e, he, hscope ▸ henv, ?_, hserves', hsymbol, ?_⟩
  · exact (congrArg Symbol.name hsymbol).trans hname
  · -- A pass declares nothing new, so no declaration further in begins to serve the use.
    intro f hf hscope hname
    obtain ⟨g, hg, hsymbol', hscope', hserves⟩ := exists_declared_of_reaches hreach ht hf
    have hfalse := hinner g hg (hscope' ▸ hscope) ((congrArg Symbol.name hsymbol').trans hname)
    rw [← Bool.not_eq_true]
    exact fun htrue => by simp [hserves _ htrue] at hfalse

/-! ## Reads keep names alive -/

/-- The symbol of a binding that goes by the place of a declaration is that of the declaration. -/
theorem symbol_of_ownCode (ht : WellFormed t) (hdistinct : Distinct (declarations {} t))
    {d : Declaration} (hd : d ∈ declarations {} t) {b : Binding} (hsite : b.site = d.site)
    {p : Piece} (hp : p ∈ pieces t) (hown : OwnCode (tableOf t) b p.code) : b.symbol = d.symbol := by
  obtain ⟨-, m, hm, hmsite, hdeclared⟩ := hown
  have hmt : m ∈ mentions t := by
    refine (partOf_of_piece ht.shape hp).gather_subset mentionRule ?_
    rwa [gather_mentionRule]
  have hmention := mention_of_declared hd
  obtain rfl := List.inj_on_of_nodup_map ht.sites hmt hmention (hmsite.trans hsite)
  obtain ⟨e, he, hesite, hsymbol⟩ := Table.exists_of_declared
    (Table.represents_ofDeclarations hdistinct) (hdeclared rfl)
  have hmention' := mention_of_declared he
  have hsame := List.inj_on_of_nodup_map ht.sites hmention' hmention (hesite.trans hsite)
  rw [← hsymbol, Declaration.symbol, Declaration.symbol]
  exact congrArg₂ Symbol.mk (congrArg Mention.name hsame) (congrArg Mention.site hsame)

/-- No pass that leaves a read finds a binding dead that the read means: all reads of a dead binding
stand in its own code, and go with it. -/
theorem not_dead_of_binding (h : Pass c t t') (ht : WellFormed t) {bs : List Binding}
    (hbs : Binding.collect t = .ok bs) {b : Binding} (hb : b ∈ bs) (hu : u ∈ uses t')
    (hread : isRead u.usage = true) (hs : u.resolve (tableOf t) = some b.symbol) :
    ¬ Dead t c b.site := by
  intro hdead
  obtain ⟨hunique, hsub⟩ := Binding.collect_spec hbs
  have hunread : Binding.isReferenced (Binding.readsIn t) b = false := by
    obtain ⟨bs', hbs', b', hb', hsite, -, hunread⟩ := hdead
    obtain rfl := Except.ok.inj (hbs.symm.trans hbs')
    exact hunique.eq_of_site hb' hb hsite ▸ hunread
  obtain ⟨p, hp, hnames, hown⟩ := exists_piece_of_binding ht.shape (hsub hb)
  have hut : u ∈ uses t := uses_reaches_subset (.single h) ht hu
  have hencloses : b.self.encloses u.site = true := by
    simpa using List.any_eq_false.1 hunread u.site (mem_readsOf hut hread hs)
  have hinside := mem_uses_of_encloses (partOf_of_piece ht.shape hp) ht.shape ht.separate hown.1 hut
    hencloses
  refine site_gone h ht hp (by simp [hnames]) ?_ (mention_of_use hinside) (mention_of_use hu) rfl
  intro n hn
  rw [hnames] at hn
  rw [List.mem_singleton.1 hn]
  exact hdead

/-- No pass that leaves a read finds the name dead that the read means. -/
theorem not_dead_of_read (h : Pass c t t') (ht : WellFormed t)
    (hdistinct : Distinct (declarations {} t)) (hu : u ∈ uses t') (hread : isRead u.usage = true)
    (hs : u.resolve (tableOf t) = some s) : ¬ Dead t c s.site := by
  intro hdead
  obtain ⟨d, hd, rfl, -, -⟩ := exists_declared_of_resolve hdistinct hs
  obtain ⟨bs, hbs, b, hb, hsite, -, -⟩ := id hdead
  obtain ⟨p, hp, -, hown⟩ := exists_piece_of_binding ht.shape ((Binding.collect_spec hbs).2 hb)
  rw [← symbol_of_ownCode ht hdistinct hd hsite hp hown] at hs
  refine not_dead_of_binding h ht hbs hb hu hread hs ?_
  rw [hsite]
  exact hdead

/-! ## Declarations that are gone stay so -/

/-- Nothing means a symbol any more whose declaration is gone. -/
theorem resolve_ne_of_site {final : Tree} (hreach : Reaches c t' final) (ht : WellFormed t')
    (hdistinct : Distinct (declarations {} t'))
    (hgone : ∀ d ∈ declarations {} t', d.site ≠ s.site) : u.resolve (tableOf final) ≠ some s := by
  intro hs
  obtain ⟨d, hd, rfl, -⟩ :=
    exists_declared_of_resolve (distinct_reaches hreach ht hdistinct) hs
  obtain ⟨e, he, hsymbol, -⟩ := exists_declared_of_reaches hreach ht hd
  exact hgone e he (congrArg Symbol.site hsymbol)

/-- A declaration in a piece that goes is gone. -/
theorem declared_gone (h : Pass c t t') (ht : WellFormed t) {p : Piece} (hp : p ∈ pieces t)
    (hne : p.names ≠ []) (hall : ∀ n ∈ p.names, Dead t c n) {m : Mention}
    (hm : m ∈ mentions p.code) : ∀ d ∈ declarations {} t', d.site ≠ m.site :=
  fun _ hd => site_gone h ht hp hne hall hm (mention_of_declared hd)

/-- A dead name is declared nowhere when the pass is over. -/
theorem declared_gone_of_dead (h : Pass c t t') (ht : WellFormed t) (hdead : Dead t c s.site) :
    ∀ d ∈ declarations {} t', d.site ≠ s.site := by
  obtain ⟨b, hsite, -, p, hp, hnames, -, m, hm, hmsite, -⟩ := exists_piece_of_dead ht.shape hdead
  rw [← hsite, ← hmsite]
  refine declared_gone h ht hp (by simp [hnames]) ?_ hm
  intro n hn
  rw [hnames] at hn
  rw [List.mem_singleton.1 hn]
  exact hdead

/-- A name that is carried away is declared nowhere when the pass is over. -/
theorem declared_gone_of_carriedAway (h : Pass c t t') (ht : WellFormed t)
    (hcarried : CarriedAway c t s) : ∀ d ∈ declarations {} t', d.site ≠ s.site := by
  obtain ⟨p, hp, hne, hall, -, d, hd, rfl⟩ := hcarried
  exact declared_gone h ht hp hne hall (mention_of_declared hd)

/-- A namespace that has lost its value is not what the use means. -/
theorem resolve_ne_of_emptied {final : Tree} (hreach : Reaches c t final) (ht : WellFormed t)
    (hdistinct : Distinct (declarations {} t)) (hu : u ∈ uses t) (h : Emptied t u s) :
    u.resolve (tableOf final) ≠ some s := by
  intro hs
  obtain ⟨d, hd, hsymbol, hscope, hserves⟩ :=
    exists_declared_of_resolve (distinct_reaches hreach ht hdistinct) hs
  obtain ⟨e, he, hsymbol', hscope', hserves'⟩ := exists_declared_of_reaches hreach ht hd
  obtain ⟨f, hf, hsymbol'', hscope'', -, hfalse⟩ := h
  have hsame : e.symbol = f.symbol := hsymbol'.trans (hsymbol.trans hsymbol''.symm)
  have hscopes := ht.seen u hu e he f hf (congrArg Symbol.site hsame) (hscope' ▸ hscope) hscope''
  obtain rfl := hdistinct.eq_of_meets he hf
    (Declaration.meets_of_scope (congrArg Symbol.name hsame) hscopes)
  simp [hserves' _ hserves] at hfalse

/-! ## Runs -/

/-- One of the passes that lead from `root` to `final`. -/
def PassOf (c : Context) (root final t t' : Tree) : Prop :=
  Reaches c root t ∧ Pass c t t' ∧ Reaches c t' final

/-- A use that no pass takes from what it means keeps its meaning. -/
theorem resolve_run {root final : Tree} (hreach : Reaches c root final) (hroot : WellFormed root)
    (hdistinct : Distinct (declarations {} root)) (hs : u.resolve (tableOf root) = some s)
    (hpasses : ∀ t t', PassOf c root final t t' → u.resolve (tableOf t) = some s →
      ¬ Dead t c s.site ∧ ¬ CarriedAway c t s ∧ ¬ Emptied t' u s) :
    u.resolve (tableOf final) = some s := by
  have hall : ∀ t, Reaches c root t → Reaches c t final → u.resolve (tableOf t) = some s := by
    intro t ht
    induction ht with
    | refl => exact fun _ => hs
    | tail hreach hpass ih =>
        intro hrest
        have hmeans := ih (.head hpass hrest)
        obtain ⟨hdead, hcarried, hemptied⟩ := hpasses _ _ ⟨hreach, hpass, hrest⟩ hmeans
        exact resolve_pass hpass (wellFormed_reaches hreach hroot)
          (distinct_reaches hreach hroot hdistinct) hmeans hdead hcarried hemptied
  exact hall final hreach .refl

/-- A use that keeps its meaning was not taken from it by any pass. -/
theorem kept_of_resolve_run {root final : Tree} (hroot : WellFormed root)
    (hdistinct : Distinct (declarations {} root)) (hu : u ∈ uses final)
    (hs : u.resolve (tableOf final) = some s) (hpass : PassOf c root final t t') :
    ¬ Dead t c s.site ∧ ¬ CarriedAway c t s ∧ ¬ Emptied t' u s := by
  obtain ⟨hreach, hpass, hrest⟩ := hpass
  have ht := wellFormed_reaches hreach hroot
  have ht' := wellFormed_reaches (.tail hreach hpass) hroot
  have hdistinct' := distinct_reaches (.tail hreach hpass) hroot hdistinct
  refine ⟨fun hdead => ?_, fun hcarried => ?_, fun hemptied => ?_⟩
  · exact resolve_ne_of_site hrest ht' hdistinct' (declared_gone_of_dead hpass ht hdead) hs
  · exact resolve_ne_of_site hrest ht' hdistinct' (declared_gone_of_carriedAway hpass ht hcarried) hs
  · exact resolve_ne_of_emptied hrest ht' hdistinct' (uses_reaches_subset hrest ht' hu) hemptied hs

/-- A read that a sweep leaves means what it meant, if and only if no pass carries the declaration
away with code that goes by other names, or empties the namespace that it is. -/
theorem read_kept_iff (o : Options) {root : Tree} {c : Context} (hroot : WellFormed root)
    (hdistinct : Distinct (declarations {} root)) {u : Use} (hu : u ∈ uses (sweep o root c).root)
    (hread : isRead u.usage = true) {s : Symbol} (hs : u.resolve (tableOf root) = some s) :
    u.resolve (tableOf (sweep o root c).root) = some s ↔
      ∀ t t', PassOf c root (sweep o root c).root t t' → ¬ CarriedAway c t s ∧ ¬ Emptied t' u s := by
  constructor
  · intro hkept t t' hpass
    exact (kept_of_resolve_run hroot hdistinct hu hkept hpass).2
  · intro hpasses
    refine resolve_run (reaches_sweep o root c) hroot hdistinct hs fun t t' hpass hmeans =>
      ⟨?_, hpasses t t' hpass⟩
    obtain ⟨hreach, hstep, hrest⟩ := hpass
    have hut' := uses_reaches_subset hrest (wellFormed_reaches (.tail hreach hstep) hroot) hu
    exact not_dead_of_read hstep (wellFormed_reaches hreach hroot)
      (distinct_reaches hreach hroot hdistinct) hut' hread hmeans

/-- A module with a namespace that holds a constant, inside another one, and an import of the same
name: `import { N } from 'm'; namespace O { namespace N { const x = 1; } log(N); } log(N);`. -/
def nestedNamespace : Tree :=
  let leaf (label : Label) (start stop : Nat) : Tree := .node label ⟨start, stop⟩ []
  let log (start : Nat) : Tree :=
    .node (.statement .expression) ⟨start, start + 7⟩
      [.node (.expression (.call false false)) ⟨start, start + 6⟩
        [leaf (.expression (.reference "log" .read)) start (start + 3), .absent,
          .node (.expression .arguments) ⟨start + 3, start + 6⟩
            [leaf (.expression (.reference "N" .read)) (start + 4) (start + 5)]]]
  let body (start stop : Nat) (ss : List Tree) : Tree :=
    .node (.type .moduleBlock) ⟨start, stop⟩
      [leaf (.module .prologue) (start + 2) (start + 2),
        .node (.module .statements) ⟨start + 2, stop - 2⟩ ss]
  let constant : Tree :=
    .node (.statement (.variableList .constVariable false)) ⟨51, 63⟩
      [.node (.statement (.declarator false)) ⟨57, 62⟩
        [leaf (.pattern (.binding "x")) 57 58, .absent, leaf (.expression (.number "1")) 61 62]]
  let inner : Tree :=
    .node (.type (.namespaceBlock "namespace" false)) ⟨37, 65⟩
      [leaf (.pattern (.binding "N")) 47 48, body 49 65 [constant]]
  let outer : Tree :=
    .node (.type (.namespaceBlock "namespace" false)) ⟨23, 75⟩
      [leaf (.pattern (.binding "O")) 33 34, body 35 75 [inner, log 66]]
  let imported : Tree :=
    .node (.module (.importDeclaration false none)) ⟨0, 22⟩
      [.node (.module .importClause) ⟨7, 12⟩
        [.node (.module (.importNamed ⟨"N", false⟩ false)) ⟨9, 10⟩
          [leaf (.pattern (.binding "N")) 9 10]],
        leaf (.expression (.string [.char 'm'])) 18 21, .absent]
  .node (.module (.program none true)) ⟨0, 84⟩
    [leaf (.module .prologue) 0 0,
      .node (.module .statements) ⟨0, 83⟩ [imported, outer, log 76]]

theorem wellFormed_nestedNamespace :
    WellFormed nestedNamespace ∧ Distinct (declarations {} nestedNamespace) :=
  ⟨⟨by decide, by decide, by decide, by decide⟩, by decide⟩

/-- The read of the import outside the namespaces keeps its meaning. -/
theorem read_kept_outside :
    WellFormed nestedNamespace ∧
      ∀ t t', PassOf { refs := [⟨57, 58⟩] } nestedNamespace
          (sweep {} nestedNamespace { refs := [⟨57, 58⟩] }).root t t' →
        ¬ CarriedAway { refs := [⟨57, 58⟩] } t ⟨"N", ⟨9, 10⟩⟩ ∧
        ¬ Emptied t' ⟨⟨80, 81⟩, "N", .read, [⟨.module, ⟨0, 84⟩⟩]⟩ ⟨"N", ⟨9, 10⟩⟩ :=
  ⟨wellFormed_nestedNamespace.1,
    (read_kept_iff {} wellFormed_nestedNamespace.1 wellFormed_nestedNamespace.2 (by decide) rfl
      (by decide)).1 (by decide)⟩

/-- Without its constant the inner namespace has no value, and the read beside it means the
import. -/
theorem read_captured :
    WellFormed nestedNamespace ∧ Distinct (declarations {} nestedNamespace) ∧
      (sweep {} nestedNamespace { refs := [⟨57, 58⟩] }).result = .ok () ∧
      ∃ u ∈ uses (sweep {} nestedNamespace { refs := [⟨57, 58⟩] }).root, isRead u.usage = true ∧
        u.resolve (tableOf nestedNamespace) = some ⟨"N", ⟨47, 48⟩⟩ ∧
        u.resolve (tableOf (sweep {} nestedNamespace { refs := [⟨57, 58⟩] }).root) =
          some ⟨"N", ⟨9, 10⟩⟩ := by
  refine ⟨wellFormed_nestedNamespace.1, wellFormed_nestedNamespace.2, rfl,
    ⟨⟨70, 71⟩, "N", .read, [⟨.namespaceBlock, ⟨23, 75⟩⟩, ⟨.module, ⟨0, 84⟩⟩]⟩, ?_, rfl, ?_, ?_⟩
  · decide
  · decide
  · decide

/-- A variable with a type that declares a name, and a type that reads it:
`let y: infer T = 1; type A = T;`. -/
def inferredName : Tree :=
  let leaf (label : Label) (start stop : Nat) : Tree := .node label ⟨start, stop⟩ []
  .node (.module (.program none true)) ⟨0, 31⟩
    [leaf (.module .prologue) 0 0, .node (.module .statements) ⟨0, 31⟩
      [.node (.statement (.variableList .letVariable false)) ⟨0, 19⟩
          [.node (.statement (.declarator false)) ⟨4, 18⟩
            [leaf (.pattern (.binding "y")) 4 5,
              .node (.type .infer) ⟨7, 14⟩
                [.node (.type (.parameter [])) ⟨13, 14⟩
                  [leaf (.pattern (.binding "T")) 13 14, .absent, .absent]],
              leaf (.expression (.number "1")) 17 18]],
        .node (.type (.alias false)) ⟨20, 31⟩
          [leaf (.pattern (.binding "A")) 25 26, .absent,
            .node (.type .reference) ⟨29, 30⟩
              [leaf (.expression (.reference "T" .typeName)) 29 30, .absent]]]]

/-- The variable goes with its type, and the read of the name that stood there means nothing. -/
theorem read_without_declaration :
    WellFormed inferredName ∧ Distinct (declarations {} inferredName) ∧
      (sweep {} inferredName { refs := [⟨4, 5⟩] }).result = .ok () ∧
      ∃ u ∈ uses (sweep {} inferredName { refs := [⟨4, 5⟩] }).root, isRead u.usage = true ∧
        u.resolve (tableOf inferredName) = some ⟨"T", ⟨13, 14⟩⟩ ∧
        CarriedAway { refs := [⟨4, 5⟩] } inferredName ⟨"T", ⟨13, 14⟩⟩ ∧
        u.resolve (tableOf (sweep {} inferredName { refs := [⟨4, 5⟩] }).root) = none := by
  have hdead : deadBindings inferredName { refs := [⟨4, 5⟩] } =
      .ok [⟨"y", .variable, ⟨4, 5⟩, ⟨4, 5⟩, ⟨"y", ⟨4, 5⟩⟩⟩] := by rfl
  refine ⟨⟨by decide, by decide, by decide, by decide⟩, by decide, by rfl,
    ⟨⟨29, 30⟩, "T", .typeName, [⟨.typeBody, ⟨20, 31⟩⟩, ⟨.module, ⟨0, 31⟩⟩]⟩, by decide, by decide,
    by decide, ⟨_, List.mem_cons_self, by decide, fun n hn => ?_, by decide, ?_⟩, by decide⟩
  · obtain rfl : n = ⟨4, 5⟩ := List.mem_singleton.1 hn
    exact (isDead_iff_dead hdead _).1 rfl
  · exact ⟨⟨"T", ⟨13, 14⟩, .ofType, [], ⟨.module, ⟨0, 31⟩⟩⟩, by decide, rfl⟩

/-- A use that a sweep leaves, be it a read or a write, means what it meant, if the sweep left all
declarations of its name. Where nothing is declared twice, it does so if and only if no pass finds
its own declaration dead, carries it away with code that goes by other names, or empties the
namespace that it is. A write keeps nothing alive, so all three can happen to it. -/
theorem use_kept (o : Options) {root : Tree} {c : Context} {u : Use}
    (hu : u ∈ uses (sweep o root c).root) :
    (((declarations {} (sweep o root c).root).filter fun d => d.name == u.name) =
        (declarations {} root).filter (fun d => d.name == u.name) →
      u.resolve (tableOf (sweep o root c).root) = u.resolve (tableOf root)) ∧
    (WellFormed root → Distinct (declarations {} root) → ∀ s, u.resolve (tableOf root) = some s →
      (u.resolve (tableOf (sweep o root c).root) = some s ↔
        ∀ t t', PassOf c root (sweep o root c).root t t' →
          ¬ Dead t c s.site ∧ ¬ CarriedAway c t s ∧ ¬ Emptied t' u s)) := by
  refine ⟨fun hsame => Table.resolve_congr_of_name hsame u.env u.usage, ?_⟩
  intro hroot hdistinct s hs
  constructor
  · intro hkept t t' hpass
    exact kept_of_resolve_run hroot hdistinct hu hkept hpass
  · intro hpasses
    exact resolve_run (reaches_sweep o root c) hroot hdistinct hs fun t t' hpass _ =>
      hpasses t t' hpass

/-- A module that writes a variable which only its server data reads:
`let count; count = 1; export const routeData = count;`. -/
def countModule : Tree :=
  let leaf (label : Label) (start stop : Nat) : Tree := .node label ⟨start, stop⟩ []
  let declare (kind : VariableKind) (span inner : Span) (parts : List Tree) : Tree :=
    .node (.statement (.variableList kind false)) span
      [.node (.statement (.declarator false)) inner parts]
  .node (.module (.program none true)) ⟨0, 54⟩
    [leaf (.module .prologue) 0 0, .node (.module .statements) ⟨0, 53⟩
      [declare .letVariable ⟨0, 10⟩ ⟨4, 9⟩
          [leaf (.pattern (.binding "count")) 4 9, .absent, .absent],
        .node (.statement .expression) ⟨11, 21⟩
          [.node (.expression (.assign "=")) ⟨11, 20⟩
            [leaf (.expression (.reference "count" .write)) 11 16,
              leaf (.expression (.number "1")) 19 20]],
        .node (.module (.exportNamed false)) ⟨22, 53⟩
          [declare .constVariable ⟨29, 53⟩ ⟨35, 52⟩
            [leaf (.pattern (.binding "routeData")) 35 44, .absent,
              leaf (.expression (.reference "count" .read)) 47 52],
            leaf (.module .exportSpecifiers) 53 53, .absent, .absent]]]

/-- The module and what is known of it when it comes to be swept for the server. -/
def countResolved : Tree × Context := Export.resolve .server countModule { refs := [⟨4, 9⟩] }

/-- Some pass takes the variable from the write that is left. -/
theorem write_taken :
    WellFormed countResolved.1 ∧
      ¬ ∀ t t', PassOf countResolved.2 countResolved.1
          (sweep .server countResolved.1 countResolved.2).root t t' →
        ¬ Dead t countResolved.2 ⟨4, 9⟩ ∧ ¬ CarriedAway countResolved.2 t ⟨"count", ⟨4, 9⟩⟩ ∧
        ¬ Emptied t' ⟨⟨11, 16⟩, "count", .write, [⟨.module, ⟨0, 54⟩⟩]⟩ ⟨"count", ⟨4, 9⟩⟩ := by
  have hroot : WellFormed countResolved.1 := ⟨by decide, by decide, by decide, by decide⟩
  refine ⟨hroot, fun hpasses => ?_⟩
  have hkept := ((use_kept .server (by decide)).2 hroot (by decide) ⟨"count", ⟨4, 9⟩⟩ (by decide)).2
    hpasses
  exact absurd hkept (by decide)

/-- The write is left without its declaration. -/
theorem write_orphaned :
    seed countModule {} = .ok { refs := [⟨4, 9⟩] } ∧ WellFormed countResolved.1 ∧
      Distinct (declarations {} countResolved.1) ∧
      (sweep .server countResolved.1 countResolved.2).result = .ok () ∧
      ∃ u ∈ uses (sweep .server countResolved.1 countResolved.2).root, u.usage = .write ∧
        u.resolve (tableOf countResolved.1) = some ⟨"count", ⟨4, 9⟩⟩ ∧
        u.resolve (tableOf (sweep .server countResolved.1 countResolved.2).root) = none := by
  refine ⟨rfl, ⟨by decide, by decide, by decide, by decide⟩, by decide, rfl,
    ⟨⟨11, 16⟩, "count", .write, [⟨.module, ⟨0, 54⟩⟩]⟩, ?_, rfl, ?_, ?_⟩
  · decide
  · decide
  · decide

end RouteSplit.Sweep
