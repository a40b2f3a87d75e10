import RouteSplit.Proofs.Scope.Mentions
import RouteSplit.Proofs.Tree.Wrapping

/-!
# Scopes and wrapped values

What a construct declares and opens is read off the labels and the targets near the top of its
parts. A wrapper around a value changes none of that, so what is told of a tree stays, with what is
told of the wrapper's types added in between.

- `Alike`: two trees that nobody who looks for names from above can tell apart;
- `Parts`: the parts of two nodes that are alike one by one;
- `placed_alike`, `introduced_alike`, `inside_alike`: nodes with such parts declare and open the
  same;
- `alike_of_wraps`: a tree with one wrapper more is alike;
- `gather_of_wraps`: what is told of it.
-/

namespace RouteSplit.Scope

open RouteSplit.Tree

/-! ## Trees that look alike -/

/-- Whether a prologue asks for strictness. -/
def hasStrictDirective (prologue : Tree) : Bool :=
  prologue.children.any (·.label == .module (.directive "use strict"))

/-- Two trees that look alike to one who looks for names from above. -/
structure Alike (t u : Tree) : Prop where
  label : u.label = t.label
  span : u.span = t.span
  arity : u.children.length = t.children.length
  names : u.boundNames = t.boundNames
  childNames : ∀ i, (u.child i).boundNames = (t.child i).boundNames
  firstLabel : (u.child 0).label = (t.child 0).label
  firstSpan : (u.child 0).span = (t.child 0).span
  directive : hasStrictDirective u = hasStrictDirective t
  asksStrict : asksStrict u = asksStrict t
  givesValue : givesValue u = givesValue t
  hasValue : hasValue u = hasValue t
  anyGivesValue : anyGivesValue u.children = anyGivesValue t.children
  peeled : u.peel.label = t.peel.label

theorem Alike.refl (t : Tree) : Alike t t :=
  ⟨rfl, rfl, rfl, rfl, fun _ => rfl, rfl, rfl, rfl, rfl, rfl, rfl, rfl, rfl⟩

theorem forall₂_alike_refl (ps : List Tree) : List.Forall₂ Alike ps ps :=
  List.forall₂_same.2 fun c _ => .refl c

theorem forall₂_alike_of_one {c c' : Tree} (h : Alike c c') (xs ys : List Tree) :
    List.Forall₂ Alike (xs ++ c :: ys) (xs ++ c' :: ys) :=
  List.rel_append (forall₂_alike_refl xs) (.cons h (forall₂_alike_refl ys))

/-- The parts of two nodes labelled `l`, from place `i` on, are alike one by one. Where they list
names, so are the parts that they have themselves. -/
inductive Parts (l : Label) : Nat → List Tree → List Tree → Prop
  | nil {i : Nat} : Parts l i [] []
  | cons {i : Nat} {c c' : Tree} {ps qs : List Tree} :
      Alike c c' → (listsNames l i = true → List.Forall₂ Alike c.children c'.children) →
      Parts l (i + 1) ps qs → Parts l i (c :: ps) (c' :: qs)

theorem Parts.refl (l : Label) (i : Nat) (ps : List Tree) : Parts l i ps ps := by
  induction ps generalizing i with
  | nil => exact .nil
  | cons c ps ih => exact .cons (.refl c) (fun _ => forall₂_alike_refl _) (ih (i + 1))

/-- Two lists of parts that differ in one. -/
theorem Parts.of_one {l : Label} {c c' : Tree} {ys : List Tree} (h : Alike c c') :
    ∀ {i : Nat} {xs : List Tree}, (listsNames l (i + xs.length) = true →
      List.Forall₂ Alike c.children c'.children) → Parts l i (xs ++ c :: ys) (xs ++ c' :: ys)
  | i, [], hlisted => .cons h hlisted (.refl l (i + 1) ys)
  | i, x :: xs, hlisted => by
    refine .cons (.refl x) (fun _ => forall₂_alike_refl _) (Parts.of_one h ?_)
    rwa [Nat.add_right_comm, Nat.add_assoc]

/-- Parts of which one is wrapped are alike one by one. -/
theorem Parts.forall₂ {l : Label} {i : Nat} {ps qs : List Tree} (h : Parts l i ps qs) :
    List.Forall₂ Alike ps qs := by
  induction h with
  | nil => exact .nil
  | cons hc _ _ ih => exact .cons hc ih

/-- What is told of parts from above stays if one of them is wrapped. -/
theorem flatMap_alike {β : Type} {f : Tree → List β} (hf : ∀ {c c'}, Alike c c' → f c' = f c)
    {ps qs : List Tree} (h : List.Forall₂ Alike ps qs) : qs.flatMap f = ps.flatMap f := by
  induction h with
  | nil => rfl
  | cons hc _ ih => rw [List.flatMap_cons, List.flatMap_cons, hf hc, ih]

theorem all_getElem?_alike {f : Tree → Bool} (hf : ∀ {c c'}, Alike c c' → f c' = f c)
    {ps qs : List Tree} (h : List.Forall₂ Alike ps qs) (i : Nat) : qs[i]?.all f = ps[i]?.all f := by
  induction h generalizing i with
  | nil => rfl
  | cons hc _ ih =>
      cases i with
      | zero => exact hf hc
      | succ i => exact ih i

theorem any_alike {f : Tree → Bool} (hf : ∀ {c c'}, Alike c c' → f c' = f c) {ps qs : List Tree}
    (h : List.Forall₂ Alike ps qs) : qs.any f = ps.any f := by
  induction h with
  | nil => rfl
  | cons hc _ ih => rw [List.any_cons, List.any_cons, hf hc, ih]

theorem child_alike {l l' : Label} {s s' : Span} {ps qs : List Tree}
    (h : List.Forall₂ Alike ps qs) (i : Nat) :
    Alike ((Tree.node l s ps).child i) ((Tree.node l' s' qs).child i) := by
  induction h generalizing i with
  | nil => exact .refl _
  | cons hc _ ih =>
      cases i with
      | zero => exact hc
      | succ i => exact ih i

/-! ## Names of a node -/

section Names

variable {c c' : Tree} {ps qs : List Tree}

/-- A target declares the same from above. -/
theorem entriesOf_alike (m : Meaning) (h : Alike c c') : entriesOf m c' = entriesOf m c := by
  rw [entriesOf, h.names, entriesOf]

theorem entriesOf_child_alike (m : Meaning) (i : Nat) (h : Alike c c') :
    entriesOf m (c'.child i) = entriesOf m (c.child i) := by
  rw [entriesOf, h.childNames, entriesOf]

theorem ownName_alike (form : DefinitionForm) (m : Meaning) (h : Alike c c') :
    ownName form m c' = ownName form m c := by
  rw [ownName, entriesOf_alike m h, ownName]

/-- Variables declare the same if a value among them is wrapped. -/
theorem variableEntries_alike (h : List.Forall₂ Alike ps qs) :
    variableEntries qs = variableEntries ps :=
  flatMap_alike (entriesOf_child_alike _ 0) h

theorem typeParameterEntries_alike (h : List.Forall₂ Alike c.children c'.children) :
    typeParameterEntries c' = typeParameterEntries c :=
  flatMap_alike (entriesOf_child_alike _ 0) h

/-- Parameters declare the same if a default among them is wrapped. -/
theorem parameterEntries_alike (h : List.Forall₂ Alike c.children c'.children) :
    parameterEntries c' = parameterEntries c :=
  flatMap_alike (entriesOf_child_alike _ 1) h

/-- An import declares the same if something inside it is wrapped. -/
theorem importEntries_alike (typeOnly : Bool) (h : List.Forall₂ Alike c.children c'.children) :
    importEntries typeOnly c' = importEntries typeOnly c := by
  refine flatMap_alike (fun hc => ?_) h
  simp only [hc.label]
  exact entriesOf_child_alike _ 0 hc

theorem enumEntries_alike (h : List.Forall₂ Alike ps qs) : enumEntries qs = enumEntries ps := by
  refine flatMap_alike (fun hc => ?_) h
  rw [memberName?, memberName?, hc.firstLabel, hc.firstSpan]

/-- The head of a function is a scope of its own, or not, whether something in it is wrapped or
not. -/
theorem headScope_alike (s : Span) {result result' : Tree}
    (h : List.Forall₂ Alike c.children c'.children) (hresult : Alike result result') :
    headScope s c' result' = headScope s c result := by
  have hgiven : c'.children.any isGiven = c.children.any isGiven :=
    any_alike (fun hc => by rw [isGiven, isGiven, hc.label]) h
  rw [headScope, headComesFirst, hgiven, isAbsent, hresult.label, headScope, headComesFirst,
    isAbsent]

theorem functionNames_alike {s : Span} {own own' : List Entry} {generics generics' : Tree}
    (hown : own' = own) (hg : List.Forall₂ Alike generics.children generics'.children)
    (hp : List.Forall₂ Alike c.children c'.children) :
    functionNames s own' generics' c' = functionNames s own generics c := by
  rw [functionNames, hown, typeParameterEntries_alike hg, parameterEntries_alike hp, functionNames]

theorem signatureNames_alike {s : Span} {generics generics' : Tree}
    (hg : List.Forall₂ Alike generics.children generics'.children)
    (hp : List.Forall₂ Alike c.children c'.children) :
    signatureNames s generics' c' = signatureNames s generics c := by
  rw [signatureNames, typeParameterEntries_alike hg, parameterEntries_alike hp, signatureNames]

end Names

/-! ## Nodes with parts that look alike -/

section Nodes

variable {l : Label} {s : Span} {ps qs : List Tree} (h : Parts l 0 ps qs)

include h

/-- A node declares the same for its own scopes if a part of it is wrapped. -/
theorem introduced_alike : introduced l s qs = introduced l s ps := by
  -- One case for each form that declares names. The parts that hold them are taken off the front
  -- of both lists; where there are not enough, neither node declares anything.
  cases l with
  | function form =>
      cases form with
      | function form declared traits =>
          rcases h with _ | ⟨hname, -, _ | ⟨-, hgenerics, _ | ⟨-, hparameters, -⟩⟩⟩
          all_goals try rfl
          exact functionNames_alike (ownName_alike _ _ hname) (hgenerics rfl) (hparameters rfl)
      | arrow traits =>
          rcases h with _ | ⟨-, hgenerics, _ | ⟨-, hparameters, -⟩⟩
          all_goals try rfl
          exact functionNames_alike rfl (hgenerics rfl) (hparameters rfl)
      | _ => rfl
  | statement form =>
      cases form with
      | catchClause =>
          rcases h with _ | ⟨hparameter, -, -⟩
          · rfl
          · rw [introduced, entriesOf_child_alike _ 0 hparameter, introduced]
      | _ => rfl
  | classes form =>
      cases form with
      | definition form declared abstract =>
          rcases h with _ | ⟨-, -, _ | ⟨hname, -, _ | ⟨-, hgenerics, -⟩⟩⟩
          all_goals try rfl
          rw [introduced, ownName_alike _ _ hname, typeParameterEntries_alike (hgenerics rfl),
            introduced]
      | _ => rfl
  | type form =>
      cases form with
      | enum declared constant =>
          rcases h with _ | ⟨-, -, hmembers⟩
          · rfl
          · rw [introduced, enumEntries_alike hmembers.forall₂, introduced]
      | interface declared | «alias» declared =>
          rcases h with _ | ⟨-, -, _ | ⟨-, hgenerics, -⟩⟩
          all_goals try rfl
          rw [introduced, typeParameterEntries_alike (hgenerics rfl), introduced]
      | mapped optional readonly =>
          rcases h with _ | ⟨hname, -, -⟩
          · rfl
          · rw [introduced, entriesOf_alike _ hname, introduced]
      | function | constructor abstract | callSignature | constructSignature =>
          rcases h with _ | ⟨-, hgenerics, _ | ⟨-, hparameters, -⟩⟩
          all_goals try rfl
          exact signatureNames_alike (hgenerics rfl) (hparameters rfl)
      | method kind computed optional =>
          rcases h with _ | ⟨-, -, _ | ⟨-, hgenerics, _ | ⟨-, hparameters, -⟩⟩⟩
          all_goals try rfl
          exact signatureNames_alike (hgenerics rfl) (hparameters rfl)
      | _ => rfl
  | absent => rfl
  | module form | expression form | pattern form | jsx form => rfl

/-- A node declares the same for the scope around it if a part of it is wrapped. -/
theorem lexicalEntries_alike : lexicalEntries l qs = lexicalEntries l ps := by
  cases l with
  | statement form =>
      cases form with
      | variableList kind declared =>
          simp only [lexicalEntries, variableEntries_alike h.forall₂]
      | _ => rfl
  | function form =>
      cases form with
      | function form declared traits =>
          cases form with
          | value => rfl
          | declaration =>
              rcases h with _ | ⟨hname, -, -⟩
              · rfl
              · exact entriesOf_alike _ hname
      | _ => rfl
  | classes form =>
      cases form with
      | definition form declared abstract =>
          cases form with
          | value => rfl
          | declaration =>
              rcases h with _ | ⟨-, -, _ | ⟨hname, -, -⟩⟩
              all_goals try rfl
              exact entriesOf_alike _ hname
      | _ => rfl
  | module form =>
      cases form with
      | importDeclaration typeOnly phase =>
          rcases h with _ | ⟨-, hclause, -⟩
          · rfl
          · exact importEntries_alike _ (hclause rfl)
      | importEquals typeOnly =>
          rcases h with _ | ⟨hname, -, -⟩
          · rfl
          · exact entriesOf_alike _ hname
      | _ => rfl
  | type form =>
      cases form with
      | interface | «alias» | enum =>
          rcases h with _ | ⟨hname, -, -⟩
          · rfl
          · exact entriesOf_alike _ hname
      | namespaceBlock =>
          rcases h with _ | ⟨hname, -, _ | ⟨hbody, -, _ | _⟩⟩
          all_goals try rfl
          rw [lexicalEntries, hbody.hasValue, entriesOf_alike _ hname, lexicalEntries]
      | _ => rfl
  | absent => rfl
  | expression form | pattern form | jsx form => rfl

/-- A node declares the same around itself. -/
theorem placed_alike (a : Around) : placed a l s qs = placed a l s ps := by
  have hlexical := lexicalEntries_alike h
  cases l with
  | statement form =>
      cases form with
      | variableList kind declared =>
          cases kind with
          | varVariable => simp only [placed, variableEntries_alike h.forall₂]
          | _ => simp only [placed, hlexical]
      | _ => rfl
  | type form =>
      cases form with
      | infer =>
          rcases h with _ | ⟨hname, -, _ | _⟩
          all_goals try rfl
          rw [placed, entriesOf_child_alike _ 0 hname, placed]
      | _ => simp only [placed, hlexical]
  | _ => simp only [placed, hlexical]

/-- A node opens the same scopes if a part of it is wrapped. -/
theorem opened_alike (i : Nat) : opened l s qs i = opened l s ps i := by
  -- Only functions look at their parts, to see whether they have a head.
  cases l with
  | function form =>
      cases form with
      | function form declared traits =>
          rcases h with _ | ⟨-, -, _ | ⟨-, -, _ | ⟨-, hparameters, _ | ⟨hresult, -, _ |
            ⟨-, -, _ | _⟩⟩⟩⟩⟩
          all_goals try rfl
          rw [opened, headScope_alike s (hparameters rfl) hresult, opened]
      | arrow traits =>
          rcases h with _ | ⟨-, -, _ | ⟨-, hparameters, _ | ⟨hresult, -, _ | ⟨-, -, _ | _⟩⟩⟩⟩
          all_goals try rfl
          rw [opened, headScope_alike s (hparameters rfl) hresult, opened]
      | _ => rfl
  | absent => rfl
  | module form | statement form | classes form | expression form | pattern form | jsx form
  | type form => cases form <;> rfl

/-- A node makes the same code strict if a part of it is wrapped. -/
theorem makesStrict_alike : makesStrict l s qs = makesStrict l s ps := by
  have hself : asksStrict (.node l s qs) = asksStrict (.node l s ps) :=
    (child_alike h.forall₂ 0).directive
  cases l with
  | function form =>
      cases form with
      | function form declared traits =>
          -- Only the prologue of the body is looked at.
          rcases h with _ | ⟨-, -, _ | ⟨-, -, _ | ⟨-, -, _ | ⟨-, -, _ | ⟨hbody, -, _ | _⟩⟩⟩⟩⟩
          all_goals try rfl
          exact hbody.asksStrict
      | arrow traits =>
          rcases h with _ | ⟨-, -, _ | ⟨-, -, _ | ⟨-, -, _ | ⟨hbody, -, _ | _⟩⟩⟩⟩
          all_goals try rfl
          exact hbody.asksStrict
      | _ => rfl
  | module form =>
      cases form with
      | program line strict => rw [makesStrict, hself, makesStrict]
      | _ => rfl
  | type form =>
      cases form with
      | moduleBlock => exact hself
      | _ => rfl
  | absent => rfl
  | statement form | classes form | expression form | pattern form | jsx form => cases form <;> rfl

/-- The parts of a node stand in the same. -/
theorem inside_alike (a : Around) (i : Nat) : a.inside l s qs i = a.inside l s ps i := by
  have hsearched : (qs[i]?.all fun part => searches l part.label) =
      ps[i]?.all fun part => searches l part.label :=
    all_getElem?_alike (fun hc => by rw [hc.label]) h.forall₂ i
  rw [Around.inside, opened_alike h, makesStrict_alike h, hsearched, Around.inside]

/-- A node mentions the same if a part of it is wrapped. -/
theorem mentionsOf_alike : mentionsOf l s qs = mentionsOf l s ps := by
  cases l with
  | type form =>
      cases form with
      | enum declared constant =>
          rcases h with _ | ⟨-, -, hmembers⟩
          · rfl
          · rw [mentionsOf, enumEntries_alike hmembers.forall₂, mentionsOf]
      | _ => rfl
  | absent => rfl
  | module form | statement form | function form | classes form | expression form | pattern form
  | jsx form => cases form <;> rfl

end Nodes

/-! ## One wrapper more -/

theorem boundNames_of_isExpression {t : Tree} (h : isExpression t.label = true) :
    t.boundNames = [] := by
  obtain ⟨l, s, ps⟩ := t
  cases l <;> simp [isExpression, boundNames] at h ⊢

/-- An expression always gives a value. -/
theorem givesValue_of_isExpression {t : Tree} (h : isExpression t.label = true) :
    givesValue t = true := by
  obtain ⟨l, s, ps⟩ := t
  cases l <;> simp [isExpression, givesValue] at h ⊢

theorem boundNames_child (t : Tree) (i : Nat) :
    (t.child i).boundNames = ((t.children.map boundNames)[i]?).getD [] := by
  rw [child, List.getElem?_map]
  cases t.children[i]? <;> rfl

theorem anyGivesValue_eq_any (ps : List Tree) : anyGivesValue ps = ps.any givesValue := by
  induction ps with
  | nil => rfl
  | cons c ps ih => rw [anyGivesValue, ih, List.any_cons]

theorem peel_of_givesTarget {l : Label} (hl : givesTarget l = true) (s : Span) (ps : List Tree) :
    (Tree.node l s ps).peel = .node l s ps := by
  obtain ⟨_, rfl⟩ | ⟨_, rfl⟩ := givesTarget_cases hl <;> rfl

/-- Nodes that differ in the value that they give look alike. -/
theorem alike_of_value {l : Label} {s : Span} {target e e' : Tree} (xs : List Tree)
    (hl : givesTarget l = true) (he : isExpression e.label = true)
    (he' : isExpression e'.label = true) :
    Alike (.node l s (target :: xs ++ [e])) (.node l s (target :: xs ++ [e'])) := by
  -- A declarator and an assignment bind no names themselves, whatever they hold.
  have hplain : ∀ ps, (Tree.node l s ps).boundNames = [] ∧ givesValue (.node l s ps) = true ∧
      hasValue (.node l s ps) = true := by
    intro ps
    obtain ⟨_, rfl⟩ | ⟨_, rfl⟩ := givesTarget_cases hl <;> exact ⟨rfl, rfl, rfl⟩
  have hdirective : ∀ {x : Tree}, isExpression x.label = true →
      (x.label == .module (.directive "use strict")) = false := by
    intro x hx
    rw [beq_eq_false_iff_ne]
    intro heq
    simp [heq, isExpression] at hx
  constructor
  case arity => simp
  case names => rw [(hplain _).1, (hplain _).1]
  case childNames =>
    intro i
    rw [boundNames_child, boundNames_child]
    simp [boundNames_of_isExpression he, boundNames_of_isExpression he']
  case directive => simp [hasStrictDirective, hdirective he, hdirective he']
  case givesValue => rw [(hplain _).2.1, (hplain _).2.1]
  case hasValue => rw [(hplain _).2.2, (hplain _).2.2]
  case anyGivesValue =>
    simp [anyGivesValue_eq_any, givesValue_of_isExpression he, givesValue_of_isExpression he']
  case peeled => simp only [peel_of_givesTarget hl, label_node]
  all_goals rfl

/-- What is exported gives a namespace a value if it is none of the declarations that give none. -/
theorem givesValue_exportNamed (typeOnly : Bool) (s : Span) (t : Tree) (rest : List Tree) :
    givesValue (.node (.module (.exportNamed typeOnly)) s (t :: rest)) =
      match t.label with
      | .type (.interface _) | .type (.alias _) | .type (.namespaceBlock _ _) => givesValue t
      | _ => true := by
  obtain ⟨l, _, ps⟩ := t
  cases l with
  | type form =>
      cases form with
      | namespaceBlock keyword declared =>
          match ps with
          | [_, _] | [] | [_] | _ :: _ :: _ :: _ => rfl
      | _ => rfl
  | _ => rfl

theorem hasValue_moduleBlock (s : Span) (prologue body : Tree) :
    hasValue (.node (.type .moduleBlock) s [prologue, body]) = anyGivesValue body.children := by
  obtain ⟨l, _, ps⟩ := body
  rfl

section Inside

variable {l : Label} {s : Span} {ps qs : List Tree} (h : List.Forall₂ Alike ps qs)

include h

/-- A node binds the same names if a part of it is wrapped. -/
theorem boundNames_alike : boundNames (.node l s qs) = boundNames (.node l s ps) := by
  have hall : boundNamesAll qs = boundNamesAll ps := by
    rw [boundNamesAll_eq_flatMap, boundNamesAll_eq_flatMap]
    exact flatMap_alike Alike.names h
  cases l with
  | pattern form =>
      cases form with
      | object | array => exact hall
      | property computed =>
          rcases h with _ | ⟨-, _ | ⟨htarget, _ | _⟩⟩
          all_goals try rfl
          exact htarget.names
      | withDefault =>
          rcases h with _ | ⟨htarget, -⟩
          · rfl
          · exact htarget.names
      | rest =>
          rcases h with _ | ⟨htarget, _ | _⟩
          all_goals try rfl
          exact htarget.names
      | _ => rfl
  | _ => rfl

/-- A node gives a value, or none, whether a part of it is wrapped or not. -/
theorem givesValue_alike : givesValue (.node l s qs) = givesValue (.node l s ps) := by
  cases l with
  | module form =>
      cases form with
      | exportNamed typeOnly =>
          rcases h with _ | ⟨hc, -⟩
          · rfl
          · rw [givesValue_exportNamed, givesValue_exportNamed, hc.label, hc.givesValue]
      | _ => rfl
  | type form =>
      cases form with
      | namespaceBlock keyword declared =>
          rcases h with _ | ⟨-, _ | ⟨hbody, _ | _⟩⟩
          all_goals try rfl
          exact hbody.hasValue
      | _ => rfl
  | _ => rfl

/-- A namespace has a value, or none, whether a part of it is wrapped or not. -/
theorem hasValue_alike : hasValue (.node l s qs) = hasValue (.node l s ps) := by
  cases l with
  | type form =>
      cases form with
      | namespaceBlock keyword declared =>
          rcases h with _ | ⟨-, _ | ⟨hbody, _ | _⟩⟩
          all_goals try rfl
          exact hbody.hasValue
      | moduleBlock =>
          rcases h with _ | ⟨-, _ | ⟨hbody, _ | _⟩⟩
          · rfl
          · rfl
          · rw [hasValue_moduleBlock, hasValue_moduleBlock, hbody.anyGivesValue]
          · simp [hasValue]
      | _ => rfl
  | _ => rfl

/-- What is left without wrappers has the same label if a part of it is wrapped. -/
theorem peel_label_alike : (Tree.node l s qs).peel.label = (Tree.node l s ps).peel.label := by
  cases l with
  | expression form =>
      cases form with
      | paren | nonNull =>
          rcases h with _ | ⟨he, _ | _⟩
          all_goals try rfl
          exact he.peeled
      | asType | satisfiesType =>
          rcases h with _ | ⟨he, _ | ⟨-, _ | _⟩⟩
          all_goals try rfl
          exact he.peeled
      | typeAssertion =>
          rcases h with _ | ⟨-, _ | ⟨he, _ | _⟩⟩
          all_goals try rfl
          exact he.peeled
      | _ => rfl
  | _ => rfl

/-- Nodes whose parts look alike do so themselves. -/
theorem alike_of_parts : Alike (.node l s ps) (.node l s qs) where
  label := rfl
  span := rfl
  arity := h.length_eq.symm
  names := boundNames_alike h
  childNames i := (child_alike h i).names
  firstLabel := (child_alike h 0).label
  firstSpan := (child_alike h 0).span
  directive := any_alike (fun hc => by rw [hc.label]) h
  asksStrict := (child_alike h 0).directive
  givesValue := givesValue_alike h
  hasValue := hasValue_alike h
  anyGivesValue := by
    rw [anyGivesValue_eq_any, anyGivesValue_eq_any]
    exact any_alike Alike.givesValue h
  peeled := peel_label_alike h

end Inside

section Wraps

variable {w : Wrapper} {t u : Tree}

/-- A tree with one wrapper more around a value that it gives looks alike. -/
theorem alike_of_wraps (h : Wraps w t u) : Alike t u := by
  induction h with
  | @initializer _ _ target type _ he =>
      exact alike_of_value [type] rfl he (isExpression_around w _)
  | assigned he => exact alike_of_value [] rfl he (isExpression_around w _)
  | inside _ _ ih => exact alike_of_parts (forall₂_alike_of_one ih _ _)

/-- The parts of a node of which one has one wrapper more. -/
theorem parts_of_wraps {l : Label} {xs ys : List Tree}
    (hplace : listsNames l xs.length = true → givesTarget t.label = false) (h : Wraps w t u) :
    Parts l 0 (xs ++ t :: ys) (xs ++ u :: ys) := by
  refine .of_one (alike_of_wraps h) fun hl => ?_
  rw [Nat.zero_add] at hl
  -- Where names are listed no value is given, so the wrapper stands deeper inside.
  cases h with
  | initializer he => exact absurd (hplace hl) (by simp [givesTarget])
  | assigned he => exact absurd (hplace hl) (by simp [givesTarget])
  | inside _ h => exact forall₂_alike_of_one (alike_of_wraps h) _ _

end Wraps

/-! ## What is told of a tree with one wrapper more -/

section Gather

variable {α : Type} {rule : Rule α} {w : Wrapper} {t u : Tree}

/-- A rule that cannot tell nodes with like parts from each other, and tells nothing of wrappers nor
of what gives a value. -/
structure Unwrapping (rule : Rule α) : Prop where
  parts {a : Around} {l : Label} {s : Span} {ps qs : List Tree} :
    Parts l 0 ps qs → rule a l s qs = rule a l s ps
  value {a : Around} {l : Label} {s : Span} {ps : List Tree} :
    givesTarget l = true → rule a l s ps = []
  wrapper {a : Around} {s : Span} {ps : List Tree} (w : Wrapper) :
    rule a (.expression w.form) s ps = []

/-- What the parts of wrappers and of what gives a value stand in. -/
def Around.unbranched (a : Around) : Around := { a with isBranch := false }

theorem inside_of_givesTarget {a : Around} {l : Label} {s : Span} {ps : List Tree}
    (hl : givesTarget l = true) (i : Nat) : a.inside l s ps i = a.unbranched := by
  obtain ⟨_, rfl⟩ | ⟨_, rfl⟩ := givesTarget_cases hl <;>
    simp [Around.inside, Around.unbranched, opened, makesStrict]

/-- What a wrapper holds stands in what the wrapper stands in. -/
theorem inside_of_wrapper (a : Around) (w : Wrapper) (s : Span) (ps : List Tree) (i : Nat) :
    a.inside (.expression w.form) s ps i = a.unbranched := by
  simp [Around.inside, Around.unbranched, opened, makesStrict]

/-- What is told of a wrapper is told of its types and of what it wraps. -/
theorem gather_around (h : Unwrapping rule) (a : Around) (w : Wrapper) (e : Tree) :
    gather rule a (w.around e) = w.before.flatMap (gather rule a.unbranched) ++
      (gather rule a.unbranched e ++ w.after.flatMap (gather rule a.unbranched)) := by
  rw [Wrapper.around, gather_node_of_const (inside_of_wrapper a w _ _), h.wrapper, List.nil_append,
    List.flatMap_append, List.flatMap_cons]

/-- What is told of a value with one wrapper more. -/
theorem gather_value (h : Unwrapping rule) (a : Around) {l : Label} (hl : givesTarget l = true)
    (s : Span) (xs : List Tree) (e : Tree) :
    ∃ before after, gather rule a (.node l s (xs ++ [e])) = before ++ after ∧
      gather rule a (.node l s (xs ++ [w.around e])) =
        before ++ (w.types.flatMap (gather rule a.unbranched) ++ after) := by
  simp only [gather_node_of_const (inside_of_givesTarget hl), h.value hl, List.nil_append,
    List.flatMap_append, List.flatMap_singleton, gather_around h, Wrapper.types]
  -- An assertion `<T>e` names its type in front of the expression, the other forms behind it.
  cases w with
  | typeAssertion s type =>
      exact ⟨xs.flatMap (gather rule a.unbranched), gather rule a.unbranched e, rfl,
        by simp [Wrapper.before, Wrapper.after, Around.unbranched]⟩
  | _ =>
      exact ⟨xs.flatMap (gather rule a.unbranched) ++ gather rule a.unbranched e, [], by simp,
        by simp [Wrapper.before, Wrapper.after, Around.unbranched]⟩

/-- What is told of a node, with one of its parts set apart. -/
theorem gather_node_split (rule : Rule α) (a : Around) (l : Label) (s : Span) (xs ys : List Tree)
    (c : Tree) : gather rule a (.node l s (xs ++ c :: ys)) =
      rule a l s (xs ++ c :: ys) ++
        (xs.zipIdx.flatMap fun x => gather rule (a.inside l s (xs ++ c :: ys) x.2) x.1) ++
        (gather rule (a.inside l s (xs ++ c :: ys) xs.length) c ++
          (ys.zipIdx (xs.length + 1)).flatMap fun x =>
            gather rule (a.inside l s (xs ++ c :: ys) x.2) x.1) := by
  rw [gather_node, List.zipIdx_append, List.flatMap_append, List.zipIdx_cons, List.flatMap_cons]
  simp

/-- Of a tree with one wrapper more the same is told as before, and somewhere in between what is
told of the types that the wrapper names. -/
theorem gather_of_wraps (hrule : Unwrapping rule) (h : Wraps w t u) (a : Around) :
    ∃ b before after, gather rule a t = before ++ after ∧
      gather rule a u = before ++ (w.types.flatMap (gather rule b) ++ after) := by
  induction h generalizing a with
  | @initializer _ s target type e _ =>
      exact ⟨_, gather_value hrule a rfl s [target, type] e⟩
  | @assigned _ s target e _ => exact ⟨_, gather_value hrule a rfl s [target] e⟩
  -- The wrapper stands inside one part, and all others stand in what they stood in.
  | @inside l s xs ys c c' hplace h ih =>
      have hparts : Parts l 0 (xs ++ c :: ys) (xs ++ c' :: ys) := parts_of_wraps hplace h
      obtain ⟨b, before, after, ht, hu⟩ := ih (a.inside l s (xs ++ c :: ys) xs.length)
      rw [gather_node_split, gather_node_split, hrule.parts hparts]
      simp only [inside_alike hparts, ht, hu]
      refine ⟨b, rule a l s (xs ++ c :: ys) ++
        (xs.zipIdx.flatMap fun x => gather rule (a.inside l s (xs ++ c :: ys) x.2) x.1) ++ before,
        after ++ (ys.zipIdx (xs.length + 1)).flatMap fun x =>
          gather rule (a.inside l s (xs ++ c :: ys) x.2) x.1, ?_, ?_⟩ <;> simp

theorem unwrapping_declarationRule : Unwrapping declarationRule where
  parts h := by rw [declarationRule, placed_alike h, introduced_alike h, declarationRule]
  value hl := by
    obtain ⟨_, rfl⟩ | ⟨_, rfl⟩ := givesTarget_cases hl <;>
      simp [declarationRule, placed, lexicalEntries, introduced]
  wrapper w := by simp [declarationRule, placed, lexicalEntries, introduced]

theorem unwrapping_scopeRule : Unwrapping scopeRule where
  parts _ := rfl
  value hl := by obtain ⟨_, rfl⟩ | ⟨_, rfl⟩ := givesTarget_cases hl <;> rfl
  wrapper w := by cases w <;> rfl

theorem unwrapping_mentionRule : Unwrapping mentionRule where
  parts h := mentionsOf_alike h
  value hl := by obtain ⟨_, rfl⟩ | ⟨_, rfl⟩ := givesTarget_cases hl <;> rfl
  wrapper w := by cases w <;> rfl

end Gather

end RouteSplit.Scope
