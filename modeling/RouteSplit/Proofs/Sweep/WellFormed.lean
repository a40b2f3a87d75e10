import RouteSplit.Proofs.Sweep.Liveness

/-!
# Trees that are written down

- `WellFormed`: identifiers have places of their own, code lies apart, and a name is seen in one
  scope at a time;
- `exists_version_of_prune`: what a pruned tree declares, it declared before;
- `wellFormed_reaches`, `distinct_reaches`: passes leave trees so.
-/

namespace RouteSplit.Sweep

open Scope

/-- A tree as it is written down. -/
structure WellFormed (t : Tree) : Prop where
  shape : t.inShape = true
  /-- No two identifiers stand at one place. -/
  sites : ((mentions t).map Mention.site).Nodup
  /-- The span of a binding's own code encloses the uses in it and no others. -/
  separate : t.separate = true
  /-- No use sees an identifier's declaration in two scopes: the head and the body of a function
  know a parameter each for itself. -/
  seen : ∀ u ∈ uses t, ∀ d ∈ declarations {} t, ∀ e ∈ declarations {} t,
    d.site = e.site → d.scope ∈ u.env → e.scope ∈ u.env → d.scope = e.scope

/-! ## Versions -/

/-- A version serves nothing that its declaration does not. -/
theorem serves_of_version {d e : Declaration} (h : e ∈ versions d) {u : Usage}
    (hu : e.meaning.serves u = true) : d.meaning.serves u = true := by
  rcases mem_versions.1 h with rfl | ⟨hmeaning, rfl⟩
  · exact hu
  · rw [hmeaning]
    cases u <;> first | rfl | exact hu

/-- A version differs from its declaration in its meaning only. -/
theorem version_key {d e : Declaration} (h : e ∈ versions d) :
    e.symbol = d.symbol ∧ e.scope = d.scope ∧ e.through = d.through := by
  rcases mem_versions.1 h with rfl | ⟨-, rfl⟩ <;> exact ⟨rfl, rfl, rfl⟩

/-- The version of a declaration that no removal takes without its name. -/
def least (d : Declaration) : Declaration :=
  if d.meaning = .ofNamespace true then emptied d else d

theorem least_mem_versions (d : Declaration) : least d ∈ versions d := by
  unfold least versions
  split_ifs <;> simp

theorem least_meaning (d : Declaration) : (least d).meaning ≠ .ofNamespace true := by
  have hne : Meaning.ofNamespace false ≠ Meaning.ofNamespace true := by decide
  unfold least
  split_ifs with h
  · exact hne
  · exact h

/-- Every declaration has one version that is no namespace with a value. -/
theorem filter_versions (ds : List Declaration) :
    ((ds.flatMap versions).filter fun d => decide (d.meaning ≠ .ofNamespace true)) =
      ds.map least := by
  have hne : Meaning.ofNamespace false ≠ Meaning.ofNamespace true := by decide
  induction ds with
  | nil => rfl
  | cons d ds ih =>
      rw [List.flatMap_cons, List.filter_append, ih, List.map_cons, ← List.singleton_append]
      congr 1
      unfold versions least
      split_ifs with h
      · simp [h, emptied, hne]
      · simp [h]

/-- Declarations are distinct if and only if their least versions are. -/
theorem distinct_map_least {ds : List Declaration} : Distinct (ds.map least) ↔ Distinct ds := by
  have hmeets : ∀ d e : Declaration, (least d).Meets (least e) ↔ d.Meets e := by
    intro d e
    have hkey : ∀ d : Declaration, (least d).name = d.name ∧ (least d).marks = d.marks := by
      intro d
      unfold least
      split_ifs <;> exact ⟨rfl, rfl⟩
    rw [Declaration.Meets, Declaration.Meets, (hkey d).1, (hkey d).2, (hkey e).1, (hkey e).2]
  rw [Distinct, List.pairwise_map]
  simp only [hmeets]
  rfl

/-! ## Passes -/

section Prune

variable {dead : List Binding} {t : Tree}

/-- What a pruned tree declares, it declared before, as it is now or as a namespace with a value. -/
theorem exists_version_of_prune (ht : t.inShape = true) {d : Declaration}
    (hd : d ∈ declarations {} (prune dead t)) : ∃ e ∈ declarations {} t, d ∈ versions e := by
  have hself : d ∈ gather versionRule {} (prune dead t) := by
    rw [gather_versionRule]
    exact List.mem_flatMap.2 ⟨d, hd, mem_versions.2 (Or.inl rfl)⟩
  have hbefore := gather_prune_subset cuttable_versionRule rfl ht hself
  rw [gather_versionRule] at hbefore
  exact List.mem_flatMap.1 hbefore

/-- A removal leaves declarations distinct. -/
theorem distinct_prune (ht : t.inShape = true) (h : Distinct (declarations {} t)) :
    Distinct (declarations {} (prune dead t)) := by
  have hsub : (gather versionRule {} (prune dead t)).Subperm (gather versionRule {} t) :=
    (List.sublist_append_left _ _).subperm.trans
      (gather_sheds_prune cuttable_versionRule rfl ht).subperm
  rw [gather_versionRule, gather_versionRule] at hsub
  have hfiltered := hsub.filter fun d : Declaration => decide (d.meaning ≠ .ofNamespace true)
  rw [filter_versions, filter_versions] at hfiltered
  obtain ⟨ds, hperm, hsublist⟩ := hfiltered
  have hds : Distinct ds := List.Pairwise.sublist hsublist (distinct_map_least.2 h)
  refine distinct_map_least.1 ((hperm.pairwise_iff ?_).1 hds)
  exact fun hmeets hmeets' => hmeets hmeets'.symm

/-- A removal adds no use. -/
theorem uses_prune_subset (ht : t.inShape = true) : uses (prune dead t) ⊆ uses t :=
  gather_prune_subset cuttable_useRule rfl ht

/-- A removal leaves every identifier in a place of its own. -/
theorem mentions_prune_nodup (ht : t.inShape = true) (h : ((mentions t).map Mention.site).Nodup) :
    ((mentions (prune dead t)).map Mention.site).Nodup := by
  have hsub : (mentions (prune dead t)).Subperm (mentions t) :=
    (List.sublist_append_left _ _).subperm.trans
      (gather_sheds_prune cuttable_mentionRule rfl ht).subperm
  obtain ⟨ms, hperm, hsublist⟩ := hsub
  exact (hperm.map _).nodup_iff.1 (h.sublist (hsublist.map _))

/-- A removal leaves a tree that is written down so. -/
theorem wellFormed_prune (h : WellFormed t) : WellFormed (prune dead t) where
  shape := inShape_prune h.shape
  sites := mentions_prune_nodup h.shape h.sites
  separate := separate_prune h.shape h.separate
  seen := by
    intro u hu d hd e he hsite hdu heu
    obtain ⟨d', hd', hversion⟩ := exists_version_of_prune h.shape hd
    obtain ⟨e', he', hversion'⟩ := exists_version_of_prune h.shape he
    obtain ⟨hsymbol, hscope, -⟩ := version_key hversion
    obtain ⟨hsymbol', hscope', -⟩ := version_key hversion'
    rw [hscope] at hdu ⊢
    rw [hscope'] at heu ⊢
    have hsite' : d'.site = e'.site :=
      (congrArg Symbol.site hsymbol).symm.trans (hsite.trans (congrArg Symbol.site hsymbol'))
    exact h.seen u (uses_prune_subset h.shape hu) d' hd' e' he' hsite' hdu heu

end Prune

/-! ## Runs -/

variable {c : Context} {t t' : Tree}

/-- Passes leave a tree that is written down so. -/
theorem wellFormed_reaches (h : Reaches c t t') (ht : WellFormed t) : WellFormed t' := by
  induction h with
  | refl => exact ht
  | tail _ hpass ih =>
      obtain ⟨dead, -, -, rfl⟩ := hpass
      exact wellFormed_prune ih

/-- Passes leave declarations distinct. -/
theorem distinct_reaches (h : Reaches c t t') (ht : WellFormed t)
    (hdistinct : Distinct (declarations {} t)) : Distinct (declarations {} t') := by
  induction h with
  | refl => exact hdistinct
  | tail hreach hpass ih =>
      obtain ⟨dead, -, -, rfl⟩ := hpass
      exact distinct_prune (wellFormed_reaches hreach ht).shape ih

/-- Passes add no use. -/
theorem uses_reaches_subset (h : Reaches c t t') (ht : WellFormed t) : uses t' ⊆ uses t := by
  induction h with
  | refl => exact List.Subset.refl _
  | tail hreach hpass ih =>
      obtain ⟨dead, -, -, rfl⟩ := hpass
      exact List.Subset.trans (uses_prune_subset (wellFormed_reaches hreach ht).shape) ih

/-- What a tree declares after any number of passes, it declared before, to serve all uses that it
serves now. -/
theorem exists_declared_of_reaches (h : Reaches c t t') (ht : WellFormed t) {d : Declaration}
    (hd : d ∈ declarations {} t') : ∃ e ∈ declarations {} t, e.symbol = d.symbol ∧
      e.scope = d.scope ∧ ∀ u, d.meaning.serves u = true → e.meaning.serves u = true := by
  induction h generalizing d with
  | refl => exact ⟨d, hd, rfl, rfl, fun _ h => h⟩
  | tail hreach hpass ih =>
      obtain ⟨dead, -, -, rfl⟩ := hpass
      obtain ⟨e, he, hversion⟩ := exists_version_of_prune (wellFormed_reaches hreach ht).shape hd
      obtain ⟨hsymbol, hscope, -⟩ := version_key hversion
      obtain ⟨f, hf, hsymbol', hscope', hserves⟩ := ih he
      refine ⟨f, hf, hsymbol'.trans hsymbol.symm, hscope'.trans hscope.symm, fun u hu => ?_⟩
      exact hserves u (serves_of_version hversion hu)

end RouteSplit.Sweep
