import RouteSplit.Proofs.Json.Reading
import RouteSplit.Proofs.Options.RoundTrip

/-!
# Two layouts of options

Options are given by place, as an array, or by key, as an object. Either way every value goes to a
field of its own and sets no other one, so it does not matter in which order the values come.

- `give`: values given to fields, one after the other;
- `give_perm`: the order of the values does not matter;
- `readItems_eq_give`, `readMembers_eq_give`: both layouts give values to fields;
- `layouts_agree`: a text of either layout gives the same options.
-/

namespace RouteSplit.Options

open Json

/-! ## Values for fields -/

namespace Field

/-- A value decides about its own field alone. -/
theorem read_eq (f : Field) (j : Json) (o : Options) :
    f.read j o = (f.read j {}).map fun s => f.copy s o := by
  cases f <;> simp only [read, copy]
  · cases readMode j <;> rfl
  · cases readText j <;> rfl
  · cases readFlag j <;> rfl
  · cases readText j <;> rfl
  · cases readText j <;> rfl
  · cases readPasses j <;> rfl

/-- Fields can be taken over in any order. -/
theorem copy_comm {f g : Field} (h : f ≠ g) (s t o : Options) :
    f.copy s (g.copy t o) = g.copy t (f.copy s o) := by
  cases f <;> cases g <;> first | rfl | exact absurd rfl h

end Field

/-- The options once each of these fields has been given its value, unless one does not fit. -/
def give (xs : List (Field × Json)) (o : Options) : Option Options :=
  xs.foldlM (fun o x => (x.1.read x.2 o).toOption) o

theorem give_cons (x : Field × Json) (xs : List (Field × Json)) (o : Options) :
    give (x :: xs) o = (x.1.read x.2 o).toOption.bind (give xs) := rfl

/-- A value is read as if nothing had been given before, and then takes its place. -/
theorem give_cons_copy (x : Field × Json) (xs : List (Field × Json)) (o : Options) :
    give (x :: xs) o = (x.1.read x.2 {}).toOption.bind fun s => give xs (x.1.copy s o) := by
  rw [give_cons, Field.read_eq]
  cases x.1.read x.2 {} <;> rfl

/-- Two fields can be given their values in either order. -/
theorem give_swap {x y : Field × Json} (h : x.1 ≠ y.1) (xs : List (Field × Json)) (o : Options) :
    give (y :: x :: xs) o = give (x :: y :: xs) o := by
  simp only [give_cons_copy]
  cases (x.1.read x.2 {}).toOption with
  | none => cases (y.1.read y.2 {}).toOption <;> rfl
  | some s =>
      cases (y.1.read y.2 {}).toOption with
      | none => rfl
      | some t => exact congrArg (give xs) (Field.copy_comm h s t o)

/-- Values for different fields give the same options in any order. -/
theorem give_perm {xs ys : List (Field × Json)} (h : xs.Perm ys) (hnodup : (xs.map (·.1)).Nodup)
    (o : Options) : give xs o = give ys o := by
  induction h generalizing o with
  | nil => rfl
  | cons x _ ih =>
      rw [List.map_cons, List.nodup_cons] at hnodup
      rw [give_cons, give_cons]
      exact congrArg _ (funext (ih hnodup.2))
  | swap x y xs =>
      have hne : x.1 ≠ y.1 := by
        rw [List.map_cons, List.map_cons, List.nodup_cons] at hnodup
        exact fun heq => hnodup.1 (by simp [heq])
      exact give_swap hne xs o
  | trans hxy _ ihxy ihyz =>
      rw [ihxy hnodup, ihyz ((hxy.map _).nodup_iff.1 hnodup)]

/-- A field that is given no value has its default. -/
theorem copy_default_of_give {xs : List (Field × Json)} {f : Field} (hf : f ∉ xs.map (·.1))
    {o o' : Options} (h : give xs o = some o') (hdefault : f.copy {} o = o) :
    f.copy {} o' = o' := by
  induction xs generalizing o with
  | nil =>
      obtain rfl := Option.some.inj h
      exact hdefault
  | cons x xs ih =>
      rw [List.map_cons, List.mem_cons, not_or] at hf
      rw [give_cons_copy] at h
      obtain ⟨s, -, hgive⟩ := Option.bind_eq_some_iff.1 h
      refine ih hf.2 hgive ?_
      rw [Field.copy_comm hf.1, hdefault]

/-! ## Both layouts -/

theorem toOption_bind {ε α β : Type} (x : Except ε α) (f : α → Except ε β) :
    (x >>= f).toOption = x.toOption.bind fun a => (f a).toOption := by
  cases x <;> rfl

/-- Values by place go to the fields in their order. -/
theorem readItems_eq_give {js : List Json} {fs : List Field} (h : js.length ≤ fs.length)
    (o : Options) : (readItems js fs o).toOption = give (fs.zip js) o := by
  induction js generalizing fs o with
  | nil =>
      rw [List.zip_nil_right]
      rfl
  | cons j js ih =>
      cases fs with
      | nil => simp at h
      | cons f fs =>
          rw [readItems, toOption_bind, List.zip_cons_cons, give_cons]
          exact congrArg _ (funext fun o => ih (Nat.le_of_succ_le_succ h) o)

/-- The field that a member gives a value to, if its key is known. -/
def known (m : Option String × Json) : Option (Field × Json) :=
  (m.1.bind Field.ofKey?).map (·, m.2)

/-- Values by key go to the fields with these keys, and others are passed over. -/
theorem readMembers_eq_give {ms : List (Option String × Json)} {seen : List Field}
    (hkeys : ∀ m ∈ ms, m.1.isSome = true) (hwhole : ∀ m ∈ ms, m.2.isWhole = true)
    (hnodup : ((ms.filterMap known).map (·.1)).Nodup)
    (hseen : ∀ f ∈ (ms.filterMap known).map (·.1), f ∉ seen) (o : Options) :
    (readMembers ms seen o).toOption = give (ms.filterMap known) o := by
  induction ms generalizing seen o with
  | nil => rfl
  | cons m ms ih =>
      obtain ⟨key, j⟩ := m
      obtain ⟨key, rfl⟩ := Option.isSome_iff_exists.1 (hkeys (key, j) List.mem_cons_self)
      have hkeys' : ∀ m ∈ ms, m.1.isSome = true := fun m hm => hkeys m (List.mem_cons_of_mem _ hm)
      have hwhole' : ∀ m ∈ ms, m.2.isWhole = true :=
        fun m hm => hwhole m (List.mem_cons_of_mem _ hm)
      cases hfield : Field.ofKey? key with
      | none =>
          have hunknown : known (some key, j) = none := by simp [known, hfield]
          have hj : j.isWhole = true := hwhole (some key, j) List.mem_cons_self
          rw [List.filterMap_cons_none hunknown] at hnodup hseen ⊢
          simp only [readMembers, hfield, hj, if_true]
          exact ih hkeys' hwhole' hnodup hseen o
      -- A known key: its field has not been given yet, and will not be given again.
      | some f =>
          have hknown : known (some key, j) = some (f, j) := by simp [known, hfield]
          rw [List.filterMap_cons_some hknown, List.map_cons] at hnodup hseen
          rw [List.filterMap_cons_some hknown, give_cons]
          obtain ⟨hf, hfs⟩ := List.nodup_cons.1 hnodup
          have hnew : seen.contains f = false := by simpa using hseen f List.mem_cons_self
          have hrest : ∀ g ∈ (ms.filterMap known).map (·.1), g ∉ f :: seen := by
            intro g hg hmem
            rcases List.mem_cons.1 hmem with rfl | hmem
            · exact hf hg
            · exact hseen g (List.mem_cons_of_mem _ hg) hmem
          simp only [readMembers, hfield, hnew, Bool.false_eq_true, if_false]
          rw [toOption_bind]
          exact congrArg _ (funext fun o => ih hkeys' hwhole' hfs hrest o)

/-- A text that is JSON gives the options that its value gives. -/
theorem ofJson_of_spells {text : String} {j : Json} (h : Spells text.toList j) :
    ofJson text = readValue j := by
  obtain ⟨behind, hread, hblank⟩ := read_of_spells h
  rw [ofJson, hread]
  simp only [hblank]
  cases readValue j <;> rfl

/-- The values of an array go to the first fields. -/
theorem map_fst_zip_all {values : List Json} (h : values.length ≤ 6) :
    (Field.all.zip values).map (·.1) = Field.all.take values.length := by
  have hmin : min Field.all.length values.length = values.length := Nat.min_eq_right h
  rw [List.zip_eq_zip_take_min, hmin, List.take_length]
  refine List.map_fst_zip ?_
  rw [List.length_take]
  exact Nat.min_le_left _ _

/-- Values given by place and by key are the same options, or do not fit either way; fields that are
given no value have their defaults. Members with other keys do not count, whatever their values are,
as long as their keys are texts. -/
theorem layouts_agree (values : List Json) (members : List (Option String × Json))
    (arrayText objectText : String) (hcount : values.length ≤ 6)
    (harray : Spells arrayText.toList (.array values))
    (hobject : Spells objectText.toList (.object members))
    (hkeys : ∀ m ∈ members, m.1.isSome = true)
    (hgiven : (members.filterMap known).Perm (Field.all.zip values)) :
    (ofJson arrayText).toOption = (ofJson objectText).toOption ∧
      ∀ o, ofJson objectText = .ok o → ∀ f ∈ Field.all.drop values.length, f.copy {} o = o := by
  have hfields := map_fst_zip_all hcount
  have hnodup : ((members.filterMap known).map (·.1)).Nodup := by
    rw [(hgiven.map _).nodup_iff, hfields]
    exact (List.take_sublist _ _).nodup (by decide)
  have hwhole : ∀ m ∈ members, m.2.isWhole = true :=
    membersWhole_iff.1 (isWhole_of_spells hobject)
  have hitems : (ofJson arrayText).toOption = give (Field.all.zip values) {} := by
    rw [ofJson_of_spells harray]
    exact readItems_eq_give hcount {}
  have hmembers : (ofJson objectText).toOption = give (Field.all.zip values) {} := by
    rw [ofJson_of_spells hobject, ← give_perm hgiven hnodup]
    exact readMembers_eq_give hkeys hwhole hnodup (fun _ _ => List.not_mem_nil) {}
  refine ⟨hitems.trans hmembers.symm, fun o ho f hf => ?_⟩
  rw [ho] at hmembers
  refine copy_default_of_give ?_ hmembers.symm (by cases f <;> rfl)
  rw [hfields]
  exact fun htake => List.disjoint_take_drop (by decide) (Nat.le_refl _) htake hf

/-! ### A mode and a file -/

/-- The values of the first two fields. -/
def pageValues : List Json := [.string (some "server"), .string (some "page.tsx")]

/-- The same with their keys, the other way round and behind a key that is not known. -/
def pageMembers : List (Option String × Json) :=
  [(some "x", .array [.null]), (some "filename", .string (some "page.tsx")),
    (some "mode", .string (some "server"))]

theorem spells_pageValues : Spells "[\"server\", \"page.tsx\"]".toList (.array pageValues) := by
  have hserver : Spells "\"server\"".toList (.string (some "server")) :=
    .string (@letters_plain "server".toList (by simp))
  have hfile : Spells "\"page.tsx\"".toList (.string (some "page.tsx")) :=
    .string (@letters_plain "page.tsx".toList (by simp))
  have hbehind : Spells " \"page.tsx\"".toList (.string (some "page.tsx")) :=
    @Spells.padded " ".toList _ [] _ (by simp [Blanks, isBlank]) (by simp [Blanks]) hfile
  refine @Spells.array [("\"server\"".toList, _), (" \"page.tsx\"".toList, _)] (by simp) ?_
  simp only [List.forall_mem_cons]
  exact ⟨hserver, hbehind, by simp⟩

theorem spells_pageMembers :
    Spells "\x7b\"x\":[null],\"filename\":\"page.tsx\",\"mode\":\"server\"\x7d".toList
      (.object pageMembers) := by
  have hkey : ∀ {cs : List Char}, (∀ c ∈ cs, c ≠ '\x22' ∧ c ≠ '\\' ∧ 0x20 ≤ c.toNat) →
      SpellsKey ('\x22' :: (cs ++ ['\x22'])) (textOf (cs.map some)) :=
    fun h => ⟨[], _, _, [], by simp [Blanks], letters_plain h, by simp [Blanks], rfl, rfl⟩
  have hnull : Spells "[null]".toList (.array [.null]) := by
    refine @Spells.array [("null".toList, .null)] (by simp) ?_
    simp only [List.forall_mem_cons]
    exact ⟨.null, by simp⟩
  have hfile : Spells "\"page.tsx\"".toList (.string (some "page.tsx")) :=
    .string (@letters_plain "page.tsx".toList (by simp))
  have hserver : Spells "\"server\"".toList (.string (some "server")) :=
    .string (@letters_plain "server".toList (by simp))
  refine @Spells.object [⟨"\"x\"".toList, some "x", "[null]".toList, .array [.null]⟩,
    ⟨"\"filename\"".toList, some "filename", "\"page.tsx\"".toList, .string (some "page.tsx")⟩,
    ⟨"\"mode\"".toList, some "mode", "\"server\"".toList, .string (some "server")⟩]
    (by simp) ?_ ?_
  · simp only [List.forall_mem_cons]
    exact ⟨@hkey "x".toList (by simp), @hkey "filename".toList (by simp),
      @hkey "mode".toList (by simp), by simp⟩
  · simp only [List.forall_mem_cons]
    exact ⟨hnull, hfile, hserver, by simp⟩

theorem layouts_agree_page :
    Spells "[\"server\", \"page.tsx\"]".toList (.array pageValues) ∧
      Spells "\x7b\"x\":[null],\"filename\":\"page.tsx\",\"mode\":\"server\"\x7d".toList
        (.object pageMembers) ∧
      (pageMembers.filterMap known).Perm (Field.all.zip pageValues) ∧
      (ofJson "\x7b\"x\":[null],\"filename\":\"page.tsx\",\"mode\":\"server\"\x7d").toOption =
        some { mode := .server, filename := "page.tsx" } := by
  have hgiven : (pageMembers.filterMap known).Perm (Field.all.zip pageValues) := .swap _ _ _
  have hagree := (layouts_agree pageValues pageMembers _ _ (by decide) spells_pageValues
    spells_pageMembers (by decide) hgiven).1
  refine ⟨spells_pageValues, spells_pageMembers, hgiven, ?_⟩
  rw [← hagree, ofJson_of_spells spells_pageValues]
  rfl

/-- A key that is half of a surrogate pair is no text, and an object with it is not read. -/
theorem half_key_refused :
    Spells "\x7b\"\\ud800\": 1\x7d".toList (.object [(none, .number ['1'])]) ∧
      ofJson "\x7b\"\\ud800\": 1\x7d" = .error .malformed ∧
      Spells "[]".toList (.array []) ∧ ofJson "[]" = .ok {} := by
  have hwhole : Whole ['1'] := .other (by decide) ⟨by simp, by simp⟩
  have hnumber : Spells ['1'] (.number ['1']) := .number (.plain hwhole .none .none)
  have hvalue : Spells " 1".toList (.number ['1']) :=
    @Spells.padded " ".toList _ [] _ (by simp [Blanks, isBlank]) (by simp [Blanks]) hnumber
  have hletters : Letters "\\ud800".toList [none] := by
    have hcode : Code 'd' '8' '0' '0' 0xd800 := ⟨13, 8, 0, 0, rfl, rfl, rfl, rfl, rfl⟩
    refine .high hcode ⟨by decide, by decide⟩ ?_ .nil
    rintro ⟨a, b, c, d, n, rest, h, -⟩
    simp at h
  have hkey : SpellsKey "\"\\ud800\"".toList none :=
    ⟨[], _, _, [], by simp [Blanks], hletters, by simp [Blanks], rfl, rfl⟩
  have hobject : Spells "\x7b\"\\ud800\": 1\x7d".toList (.object [(none, .number ['1'])]) := by
    refine @Spells.object [⟨"\"\\ud800\"".toList, none, " 1".toList, .number ['1']⟩]
      (by simp) ?_ ?_
    · simpa using hkey
    · simpa using hvalue
  have harray : Spells "[]".toList (.array []) := @Spells.emptyArray [] (by simp [Blanks])
  refine ⟨hobject, ?_, harray, ?_⟩
  · rw [ofJson_of_spells hobject]
    rfl
  · rw [ofJson_of_spells harray]
    rfl

end RouteSplit.Options
