import JsonTyping.Proofs.AttributeInclusion
import JsonTyping.Proofs.ConversionSafety
import JsonTyping.Proofs.ResolvedPlaces
import JsonTyping.Proofs.SchemaEquations

/-!
# What types are made for

`Conversion.Recorded` says for the type of a place which schema stands there and what each member of
the type was made for. It stays true as long as nothing is taken back (`Conversion.Retains`).
`Conversion.Works` says of a step that it records every place that gets a type. Its rules follow the
steps one by one.
-/

namespace JsonTyping

namespace Library

theorem Uses.fetched {lib lib' : Library} (h : Uses lib lib') (address : String) :
    lib'.fetched address = lib.fetched address := by
  refine h.related (R := fun lib lib' => ∀ other, lib'.fetched other = lib.fetched other)
    (fun _ _ => rfl) (fun h h' other => (h' other).trans (h other)) (fun address lib other => ?_)
    (fun _ _ => rfl) address
  obtain ⟨lib', hrun, -, -, hfetched, -⟩ := fetch_spec address lib
  rw [hrun]
  exact hfetched other

/-- What is found at the end of a reference is what the library has at that place. -/
theorem value?_of_resolve {start lib lib' : Library} (hstart : start.Holds) (h : start.Uses lib)
    {base : Place} {r : Reference} {found : Resolved}
    (hrun : outcome (resolve base r) lib = (.ok found, lib')) {v : Json}
    (hv : found.value = .ok v) : start.value? found.place.canonical = some v := by
  have hlib' : lib'.Holds := by
    have huses := h.resolve base r
    rw [hrun] at huses
    exact huses.holds hstart
  obtain ⟨fetchBase, lookupBase, before, hbefore, hsearch⟩ : ∃ fetchBase lookupBase before,
      (∀ other, before.fetched other = start.fetched other) ∧
        outcome (search fetchBase lookupBase r 2) before = (.ok (some found), lib') := by
    rcases resolve_cases hrun with hfound | ⟨lib₁, hmissed, hfound⟩
    · exact ⟨base, base, lib, h.fetched, hfound⟩
    · obtain ⟨-, -, -, -, hkept⟩ := search_missed hmissed
      exact ⟨_, _, lib₁, fun other => (hkept other).trans (h.fetched other), hfound⟩
  obtain ⟨address, -, hpairs, hkept, -⟩ := search_found hsearch
  have hdocument : start.fetched address = .ok (some found.document) := by
    rw [← hbefore, ← hkept]
    exact hpairs.document
  rw [value?_eq (hpairs.address (hpairs.ne_empty hlib')) hdocument]
  obtain ⟨w, hw⟩ := hpairs.value
  have hsame : found.value = .ok w := by simp only [Resolved.value, valueAt, hw]
  obtain rfl := Except.ok.inj (hsame.symm.trans hv)
  exact Json.follow?_of_lookup hw

/-- While the first library became the second one, a reference at the place was resolved to the
canonical place. -/
def Led (start lib : Library) (place : Place) (text : String) (r : Reference) : Prop :=
  ∃ before found after, start.Uses before ∧
    outcome (resolve place (.parse text)) before = (.ok found, after) ∧ after.Uses lib ∧
      found.place.canonical = r

theorem Led.mono {start lib lib' : Library} {place : Place} {text : String} {r : Reference}
    (h : start.Led lib place text r) (hlib : lib.Uses lib') : start.Led lib' place text r := by
  obtain ⟨before, found, after, hbefore, hrun, hafter, hfound⟩ := h
  exact ⟨before, found, after, hbefore, hrun, hafter.trans hlib, hfound⟩

end Library

namespace Conversion

/-- What the annotators find for a primitive type of the schema. -/
def Subject.foundFor (x : Subject) (p : Primitive) : Attributes :=
  if p.isNumber then x.found Annotation.forNumber
  else if p.isString then x.found Annotation.forString
  else .empty

/-- The node is the one of a type of scalars, with what was found for it. -/
def StandsFor (s : Conversion) (x : Subject) (u : NodeId) : SimpleType → Prop
  | .primitive p => s.graph.shape u = .primitive p ∧
      (s.graph.attributes u).Includes (Subject.foundFor x p)
  | .enumeration cases => s.graph.shape u = .enumeration cases
  | .named _ => False

/-- The node is the type of arrays or of objects of a schema that admits them. -/
def StandsForContainer (s : Conversion) (x : Subject) (u : NodeId) : Prop :=
  (∃ t, x.limits.admitsContainer t = true) ∧
    ((∃ items, s.graph.shape u = .array items) ∨
      ∃ properties additional, s.graph.shape u = .object properties additional)

/-- The node is the union of what the schema admits itself. -/
def IsOwnUnion (s : Conversion) (x : Subject) (u : NodeId) : Prop :=
  ∃ scalars containers, s.graph.shape u = .union (some (.ofList (scalars ++ containers))) ∧
    List.Forall₂ (fun type m => StandsFor s x m type) (scalarTypes x) scalars ∧
      ∀ m ∈ containers, StandsForContainer s x m

/-- What a member of the type of a schema was made for, whose reference leads to `target`. -/
inductive MadeFor (s : Conversion) (x : Subject) (target : Option Reference) (u : NodeId) : Prop
  | own (hu : IsOwnUnion s x u)
  | target {text : String} (htext : x.get? "$ref" = some (.string text)) {r : Reference}
      (hr : target = some r) (hu : s.types.lookup r = some u)
  | case {cases : List Json} (hcases : x.get? "allOf" = some (.array cases)) {i : Nat} {v : Json}
      (hv : cases[i]? = some v)
      (hu : s.types.lookup ((x.place.push "allOf").push (toString i)).canonical = some u)
  | choice {keyword : String} (hkeyword : keyword = "oneOf" ∨ keyword = "anyOf")
      {cases : List Json} (hcases : x.get? keyword = some (.array cases)) {types : List NodeId}
      (htypes : CaseTypes s (x.place.push keyword) cases types)
      (hu : s.graph.shape u = .union (some (.ofList types)))
  | anything (hu : s.graph.shape u = .primitive .any)

/-- Every member was made for something that the schema says, and `target` is where its reference
leads. -/
structure MembersFor (lib : Library) (s : Conversion) (x : Subject) (members : List NodeId)
    (target : Option Reference) : Prop where
  led : ∀ text, x.get? "$ref" = some (.string text) →
    ∃ r, target = some r ∧ lib.Led s.library x.place text r
  made : ∀ u ∈ members, MadeFor s x target u
  own : x.needsUnion = true → ∃ u ∈ members, IsOwnUnion s x u

/-- The type of a place is what the schema there was made into, and `target` is where the reference
of the schema leads. -/
inductive RecordedWith (lib : Library) (annotators : List Annotator) (s : Conversion)
    (r : Reference) (t : NodeId) (target : Option Reference) : Prop
  | anything (hvalue : lib.value? r = some (.bool true)) (ht : s.graph.shape t = .primitive .any)
  | schema {x : Subject} (hsubject : subject annotators x.schema x.place = .ok x)
      (hplace : x.place.canonical = r) (hvalue : lib.value? r = some (.object x.schema))
      {members : List NodeId} (ht : s.graph.shape t = .intersection (some (.ofList members)))
      (hmembers : MembersFor lib s x members target)

def Recorded (lib : Library) (annotators : List Annotator) (s : Conversion) (r : Reference)
    (t : NodeId) : Prop :=
  ∃ target, RecordedWith lib annotators s r t target

theorem Recorded.exists_members {lib : Library} {annotators : List Annotator} {s : Conversion}
    {r : Reference} {t : NodeId} (h : Recorded lib annotators s r t)
    {schema : List (String × Json)} (hschema : lib.value? r = some (.object schema)) :
    ∃ x target members, subject annotators x.schema x.place = .ok x ∧ x.place.canonical = r ∧
      x.schema = schema ∧ s.graph.shape t = .intersection (some (.ofList members)) ∧
        MembersFor lib s x members target := by
  obtain ⟨target, h⟩ := h
  cases h with
  | anything hvalue _ => cases hvalue.symm.trans hschema
  | @schema x hsubject hplace hvalue members ht hmembers =>
    have hsame := Json.object.inj (Option.some.inj (hvalue.symm.trans hschema))
    exact ⟨x, target, members, hsubject, hplace, hsame, ht, hmembers⟩

/-! ### States that keep records -/

/-- Nothing that was known in the first state is taken back. -/
structure Retains (s s' : Conversion) : Prop where
  uses : s.library.Uses s'.library
  gains : s.graph.Gains s'.graph
  lookup : ∀ r t, s.types.lookup r = some t → s'.types.lookup r = some t

variable {lib : Library} {annotators : List Annotator} {s s₁ s' : Conversion} {x : Subject}
  {r : Reference} {t u : NodeId} {target : Option Reference}

theorem Retains.trans (h : Retains s s₁) (h' : Retains s₁ s') : Retains s s' :=
  ⟨h.uses.trans h'.uses, h.gains.trans h'.gains, fun r t ht => h'.lookup r t (h.lookup r t ht)⟩

theorem Retains.of_graph {g : Graph} (h : s.graph.Gains g) : Retains s { s with graph := g } :=
  ⟨.refl, h, fun _ _ ht => ht⟩

theorem Retains.shape (h : Retains s s') {shape : Shape} (ht : s.graph.shape t = shape)
    (hknown : shape.IsKnown) : s'.graph.shape t = shape :=
  h.gains.keeps.shape_eq ht hknown

theorem isKnown_primitive {p : Primitive} (hp : p ≠ .none) : (Shape.primitive p).IsKnown :=
  ⟨fun h => hp (Shape.primitive.inj h), nofun, nofun⟩

theorem isNumber_of_isString {p : Primitive} (hp : p.isString = true) : p.isNumber = false := by
  cases p <;> first | rfl | cases hp

theorem cases_of_mem_primitives {limits : Limits} {p : Primitive} (hp : p ∈ limits.primitives) :
    p = .null ∨ p = .bool ∨ p = .integer ∨ p = .double := by
  unfold Limits.primitives at hp
  simp only [List.mem_append, List.mem_ite_nil_right, List.mem_singleton] at hp
  rcases hp with ((⟨-, hp⟩ | ⟨-, hp⟩) | ⟨-, hp⟩) | ⟨-, hp⟩
  · exact .inl hp
  · exact .inr (.inl hp)
  · exact .inr (.inr (.inl hp))
  · exact .inr (.inr (.inr hp))

/-- Of the scalars but strings, only numbers are described by annotators. -/
theorem kind_of_mem_primitives {limits : Limits} {p : Primitive} (hp : p ∈ limits.primitives) :
    p ≠ .none ∧ p.isString = false := by
  rcases cases_of_mem_primitives hp with rfl | rfl | rfl | rfl <;> exact ⟨nofun, rfl⟩

theorem ne_none_of_mem_scalarTypes {p : Primitive} (h : SimpleType.primitive p ∈ scalarTypes x) :
    p ≠ .none := by
  rcases List.mem_append.1 h with h | h
  · obtain ⟨q, hq, heq⟩ := List.mem_map.1 h
    obtain rfl := SimpleType.primitive.inj heq
    exact (kind_of_mem_primitives hq).1
  · unfold textTypes at h
    split at h
    · cases List.mem_singleton.1 h
    · split at h
      · obtain rfl := SimpleType.primitive.inj (List.mem_singleton.1 h)
        rintro hnone
        have hstring := isString_stringKind x
        rw [hnone] at hstring
        cases hstring
      · cases h

theorem StandsFor.mono {type : SimpleType} (hx : type ∈ scalarTypes x)
    (h : StandsFor s x u type) (hs : Retains s s') : StandsFor s' x u type := by
  cases type with
  | named name => exact h
  | primitive p =>
    exact ⟨hs.shape h.1 (isKnown_primitive (ne_none_of_mem_scalarTypes hx)),
      (hs.gains.attributes u).trans h.2⟩
  | enumeration cases => exact hs.shape h ⟨nofun, nofun, nofun⟩

theorem StandsForContainer.mono (h : StandsForContainer s x u) (hs : Retains s s') :
    StandsForContainer s' x u := by
  refine ⟨h.1, ?_⟩
  rcases h.2 with ⟨items, hu⟩ | ⟨properties, additional, hu⟩
  · exact .inl ⟨items, hs.shape hu ⟨nofun, nofun, nofun⟩⟩
  · exact .inr ⟨properties, additional, hs.shape hu ⟨nofun, nofun, nofun⟩⟩

theorem isKnown_union (members : SortedSet NodeId) : (Shape.union (some members)).IsKnown :=
  ⟨nofun, nofun, nofun⟩

theorem isKnown_intersection (members : SortedSet NodeId) :
    (Shape.intersection (some members)).IsKnown :=
  ⟨nofun, nofun, nofun⟩

theorem forall₂_mono {α β : Type} {R S : α → β → Prop} {as : List α} {bs : List β}
    (h : List.Forall₂ R as bs) (hRS : ∀ a ∈ as, ∀ b, R a b → S a b) : List.Forall₂ S as bs := by
  induction h with
  | nil => exact .nil
  | cons hab _ ih =>
    exact .cons (hRS _ List.mem_cons_self _ hab) (ih fun a ha => hRS a (List.mem_cons_of_mem _ ha))

theorem standsFor_mono {us : List NodeId} {types : List SimpleType}
    (hx : ∀ type ∈ types, type ∈ scalarTypes x)
    (h : List.Forall₂ (fun type m => StandsFor s x m type) types us) (hs : Retains s s') :
    List.Forall₂ (fun type m => StandsFor s' x m type) types us :=
  forall₂_mono h fun type htype _ hm => hm.mono (hx type htype) hs

theorem IsOwnUnion.mono (h : IsOwnUnion s x u) (hs : Retains s s') : IsOwnUnion s' x u := by
  obtain ⟨scalars, containers, hu, hscalars, hcontainers⟩ := h
  exact ⟨scalars, containers, hs.shape hu (isKnown_union _),
    standsFor_mono (fun _ h => h) hscalars hs, fun m hm => (hcontainers m hm).mono hs⟩

theorem CaseTypes.mono {place : Place} {cases : List Json} {types : List NodeId}
    (h : CaseTypes s place cases types) (hs : Retains s s') : CaseTypes s' place cases types :=
  List.Forall₂.imp (fun _ _ ht => hs.lookup _ _ ht) h

theorem MadeFor.mono (h : MadeFor s x target u) (hs : Retains s s') : MadeFor s' x target u := by
  cases h with
  | own hu => exact .own (hu.mono hs)
  | target htext hr hu => exact .target htext hr (hs.lookup _ _ hu)
  | case hcases hv hu => exact .case hcases hv (hs.lookup _ _ hu)
  | choice hkeyword hcases htypes hu =>
    exact .choice hkeyword hcases (htypes.mono hs) (hs.shape hu (isKnown_union _))
  | anything hu => exact .anything (hs.shape hu (isKnown_primitive nofun))

theorem MembersFor.mono {members : List NodeId} (h : MembersFor lib s x members target)
    (hs : Retains s s') : MembersFor lib s' x members target where
  led text htext := (h.led text htext).imp fun _ hr => ⟨hr.1, hr.2.mono hs.uses⟩
  made u hu := (h.made u hu).mono hs
  own hneeds := (h.own hneeds).imp fun _ hu => ⟨hu.1, hu.2.mono hs⟩

theorem RecordedWith.mono (h : RecordedWith lib annotators s r t target) (hs : Retains s s') :
    RecordedWith lib annotators s' r t target := by
  cases h with
  | anything hvalue ht => exact .anything hvalue (hs.shape ht (isKnown_primitive nofun))
  | schema hsubject hplace hvalue ht hmembers =>
    exact .schema hsubject hplace hvalue (hs.shape ht (isKnown_intersection _)) (hmembers.mono hs)

theorem Recorded.mono (h : Recorded lib annotators s r t) (hs : Retains s s') :
    Recorded lib annotators s' r t :=
  h.imp fun _ h => h.mono hs

/-- The second state is the first one after some steps, none of which takes back what is known. -/
structure Proceeds (s s' : Conversion) : Prop where
  steps : Steps s s'
  gains : s.graph.Gains s'.graph

theorem Proceeds.refl (s : Conversion) : Proceeds s s := ⟨.refl s, .refl s.graph⟩

theorem Proceeds.trans (h : Proceeds s s₁) (h' : Proceeds s₁ s') : Proceeds s s' :=
  ⟨h.steps.trans h'.steps, h.gains.trans h'.gains⟩

theorem Proceeds.retains (h : Proceeds s s') : Retains s s' :=
  ⟨h.steps.uses, h.gains, fun _ _ ht => h.steps.grows.lookup ht⟩

theorem Proceeds.of_graph {g : Graph} (hext : s.graph.Extends g) (h : s.graph.Gains g) :
    Proceeds s { s with graph := g } :=
  ⟨.of_graph hext, h⟩

/-- Every place that got a type in between is recorded. -/
def Records (lib : Library) (annotators : List Annotator) (s s' : Conversion) : Prop :=
  ∀ r t, s'.types.lookup r = some t →
    s.types.lookup r = some t ∨ Recorded lib annotators s' r t

theorem Records.refl (s : Conversion) : Records lib annotators s s := fun _ _ ht => .inl ht

theorem Records.trans (h : Records lib annotators s s₁) (h' : Records lib annotators s₁ s')
    (hs : Retains s₁ s') : Records lib annotators s s' := by
  intro r t ht
  rcases h' r t ht with hold | hnew
  · exact (h r t hold).imp_right fun hrecorded => hrecorded.mono hs
  · exact .inr hnew

variable {α β : Type}

/-- The step takes nothing back. When it ends well, `Q` holds in the end and every place that got a
type is recorded. The library is one in use for the conversion. -/
def Works (lib : Library) (annotators : List Annotator) (s : Conversion) (m : ConvertM α)
    (Q : α → Conversion → Prop) : Prop :=
  lib.Uses s.library →
    match outcome m s with
    | (.ok a, s') => Proceeds s s' ∧ Records lib annotators s s' ∧ Q a s'
    | (.error _, s') => Proceeds s s'

theorem Works.of_ok {m : ConvertM α} {Q : α → Conversion → Prop} {a : α}
    (hrun : outcome m s = (.ok a, s')) (hproceeds : Proceeds s s')
    (hrecords : Records lib annotators s s') (hQ : Q a s') : Works lib annotators s m Q := by
  intro _
  rw [hrun]
  exact ⟨hproceeds, hrecords, hQ⟩

theorem Works.of_error {m : ConvertM α} {Q : α → Conversion → Prop} {e : Halt}
    (hrun : outcome m s = (.error e, s')) (hproceeds : Proceeds s s') :
    Works lib annotators s m Q := by
  intro _
  rw [hrun]
  exact hproceeds

theorem Works.ok {m : ConvertM α} {Q : α → Conversion → Prop} (h : Works lib annotators s m Q)
    (hs : lib.Uses s.library) {a : α} (hrun : outcome m s = (.ok a, s')) :
    Proceeds s s' ∧ Records lib annotators s s' ∧ Q a s' := by
  have hends := h hs
  rw [hrun] at hends
  exact hends

theorem Works.error {m : ConvertM α} {Q : α → Conversion → Prop} (h : Works lib annotators s m Q)
    (hs : lib.Uses s.library) {e : Halt} (hrun : outcome m s = (.error e, s')) :
    Proceeds s s' := by
  have hends := h hs
  rw [hrun] at hends
  exact hends

theorem Works.of_uses {m : ConvertM α} {Q : α → Conversion → Prop}
    (h : lib.Uses s.library → Works lib annotators s m Q) : Works lib annotators s m Q :=
  fun hs => h hs hs

/-! ### Rules and steps -/

theorem Works.pure {Q : α → Conversion → Prop} {a : α} (hQ : Q a s) :
    Works lib annotators s (pure a) Q :=
  .of_ok rfl (.refl s) (.refl s) hQ

theorem Works.throw {Q : α → Conversion → Prop} (e : Halt) :
    Works lib annotators s (throw e : ConvertM α) Q :=
  .of_error rfl (.refl s)

theorem Works.refuse {Q : α → Conversion → Prop} (error : SchemaError) :
    Works lib annotators s (refuse error : ConvertM α) Q :=
  .throw _

theorem Works.orRefuse (r : Except SchemaError α) :
    Works lib annotators s (orRefuse r) fun a s' => r = .ok a ∧ s' = s := by
  cases r with
  | ok a => exact .pure ⟨rfl, rfl⟩
  | error e => exact .refuse e

theorem Works.get : Works lib annotators s (get : ConvertM Conversion) fun a s' =>
    a = s ∧ s' = s :=
  .of_ok rfl (.refl s) (.refl s) ⟨rfl, rfl⟩

theorem Works.bind {m : ConvertM α} {f : α → ConvertM β} {P : α → Conversion → Prop}
    {Q : β → Conversion → Prop} (hm : Works lib annotators s m P)
    (hf : ∀ a s', Proceeds s s' → P a s' → Works lib annotators s' (f a) Q) :
    Works lib annotators s (m >>= f) Q := by
  intro hs
  rcases hrun : outcome m s with ⟨e | a, s₁⟩
  · rw [outcome_bind, hrun]
    exact hm.error hs hrun
  · obtain ⟨hproceeds, hrecords, hP⟩ := hm.ok hs hrun
    have hs₁ := hs.trans hproceeds.steps.uses
    have hrest := hf a s₁ hproceeds hP
    rw [outcome_bind_of_ok hrun]
    rcases hrun' : outcome (f a) s₁ with ⟨e | b, s₂⟩
    · exact hproceeds.trans (hrest.error hs₁ hrun')
    · obtain ⟨hproceeds', hrecords', hQ⟩ := hrest.ok hs₁ hrun'
      exact ⟨hproceeds.trans hproceeds', hrecords.trans hrecords' hproceeds'.retains, hQ⟩

theorem Works.imp {m : ConvertM α} {P Q : α → Conversion → Prop} (h : Works lib annotators s m P)
    (hPQ : ∀ a s', Proceeds s s' → P a s' → Q a s') : Works lib annotators s m Q := by
  rw [← bind_pure m]
  exact h.bind fun a s' hproceeds hP => .pure (hPQ a s' hproceeds hP)

theorem Works.map {m : ConvertM α} {f : α → β} {Q : β → Conversion → Prop}
    (h : Works lib annotators s m fun a s' => Q (f a) s') :
    Works lib annotators s (f <$> m) Q := by
  rw [← bind_pure_comp]
  exact h.bind fun a s' _ hQ => .pure hQ

/-- Steps for the elements of a list, each of which may count on what was reached for those before
it. -/
theorem Works.mapM_inOrder {f : α → ConvertM β} {R : α → β → Conversion → Prop} {l : List α}
    (hR : ∀ a ∈ l, ∀ b s₁ s₂, Retains s₁ s₂ → R a b s₁ → R a b s₂) (done : List α)
    (hdone : ∀ a ∈ done, ∀ b s₁ s₂, Retains s₁ s₂ → R a b s₁ → R a b s₂)
    (hreached : ∀ a ∈ done, ∃ b, R a b s)
    (h : ∀ before a rest s', done ++ l = before ++ a :: rest →
      (∀ a ∈ before, ∃ b, R a b s') → Works lib annotators s' (f a) (R a)) :
    Works lib annotators s (l.mapM f) fun bs s' => List.Forall₂ (fun a b => R a b s') l bs := by
  -- The elements that were passed go into `done`.
  induction l generalizing s done with
  | nil =>
    rw [List.mapM_nil]
    exact .pure .nil
  | cons a l ih =>
    rw [List.mapM_cons]
    have ha := hR a List.mem_cons_self
    have hl : ∀ c ∈ l, ∀ b s₁ s₂, Retains s₁ s₂ → R c b s₁ → R c b s₂ := fun c hc =>
      hR c (List.mem_cons_of_mem a hc)
    refine (h done a l s rfl hreached).bind fun b s₁ h₁ hb => ?_
    refine (ih hl (done ++ [a]) ?_ ?_ ?_).bind fun bs s₂ h₂ hbs =>
      .pure (.cons (ha b s₁ s₂ h₂.retains hb) hbs)
    · intro c hc
      rcases List.mem_append.1 hc with hc | hc
      · exact hdone c hc
      · obtain rfl := List.mem_singleton.1 hc
        exact ha
    · intro c hc
      rcases List.mem_append.1 hc with hc | hc
      · obtain ⟨d, hd⟩ := hreached c hc
        exact ⟨d, hdone c hc d s s₁ h₁.retains hd⟩
      · obtain rfl := List.mem_singleton.1 hc
        exact ⟨b, hb⟩
    · intro before c rest s' heq hbefore
      refine h before c rest s' ?_ hbefore
      rw [← heq, List.append_assoc]
      rfl

theorem Works.mapM {f : α → ConvertM β} {R : α → β → Conversion → Prop} {l : List α}
    (hR : ∀ a ∈ l, ∀ b s₁ s₂, Retains s₁ s₂ → R a b s₁ → R a b s₂)
    (h : ∀ a ∈ l, ∀ s', Works lib annotators s' (f a) (R a)) :
    Works lib annotators s (l.mapM f) fun bs s' => List.Forall₂ (fun a b => R a b s') l bs := by
  refine .mapM_inOrder hR [] nofun nofun fun before a rest s' heq _ => h a ?_ s'
  rw [List.nil_append] at heq
  rw [heq]
  exact List.mem_append_right before List.mem_cons_self

theorem Works.forM {f : α → ConvertM PUnit}
    (hf : ∀ a s', Works lib annotators s' (f a) fun _ _ => True) (l : List α) :
    Works lib annotators s (l.forM f) fun _ _ => True := by
  induction l generalizing s with
  | nil => exact .pure trivial
  | cons a l ih => exact (hf a s).bind fun _ s₁ _ _ => ih

theorem Works.forM_option {f : α → ConvertM PUnit}
    (hf : ∀ a, Works lib annotators s (f a) fun _ _ => True) (o : Option α) :
    Works lib annotators s (o.forM f) fun _ _ => True := by
  cases o with
  | none => exact .pure trivial
  | some a => exact hf a

theorem Works.mapM_toList {f : α → ConvertM β} {o : Option α} {Q : β → Conversion → Prop}
    (h : ∀ a, o = some a → Works lib annotators s (f a) Q) :
    Works lib annotators s (o.toList.mapM f) fun bs s' => ∀ b ∈ bs, Q b s' := by
  cases o with
  | none => exact .pure nofun
  | some a =>
    rw [Option.toList_some, List.mapM_cons, List.mapM_nil]
    refine (h a rfl).bind fun b s' _ hb => .pure fun c hc => ?_
    obtain rfl := List.mem_singleton.1 hc
    exact hb

theorem Works.onGraph {f : Graph → Graph × α} (hext : s.graph.Extends (f s.graph).1)
    (hgains : s.graph.Gains (f s.graph).1) :
    Works lib annotators s (onGraph f) fun a s' =>
      a = (f s.graph).2 ∧ s' = { s with graph := (f s.graph).1 } :=
  .of_ok rfl (.of_graph hext hgains) (fun _ _ ht => .inl ht) ⟨rfl, rfl⟩

theorem Works.share (shape : Shape) (a : Attributes) :
    Works lib annotators s (Conversion.onGraph (·.share shape a)) fun t s' =>
      s'.graph.shape t = shape ∧ (s'.graph.attributes t).Includes a := by
  obtain ⟨hext, -, hshape⟩ := Graph.share_spec s.graph shape a
  refine (Works.onGraph (f := (·.share shape a)) hext (Graph.gains_share s.graph shape a)).imp ?_
  rintro t _ - ⟨rfl, rfl⟩
  exact ⟨hshape, Graph.includes_share s.graph shape a⟩

theorem Works.fresh (shape : Shape) (a : Attributes) :
    Works lib annotators s (Conversion.onGraph (·.fresh shape a)) fun t s' =>
      s'.graph.shape t = shape := by
  obtain ⟨hext, -, -, hshape⟩ := Graph.fresh_spec s.graph shape a
  refine (Works.onGraph (f := (·.fresh shape a)) hext (Graph.gains_fresh s.graph shape a)).imp ?_
  rintro t _ - ⟨rfl, rfl⟩
  exact hshape

theorem Works.addAttributes (t : NodeId) (a : Attributes) :
    Works lib annotators s (Conversion.onGraph fun g => (g.addAttributes t a, ()))
      fun _ _ => True :=
  (Works.onGraph (Graph.extends_addAttributes s.graph t a)
    (Graph.gains_addAttributes s.graph t a)).imp fun _ _ _ _ => trivial

theorem Works.anyType : Works lib annotators s anyType fun t s' =>
    s'.graph.shape t = .primitive .any :=
  (Works.share (.primitive .any) .empty).imp fun _ _ _ h => h.1

theorem Works.union {types : List NodeId} (hne : types ≠ []) (a : Attributes) :
    Works lib annotators s (tryGraph (·.union (.ofList types) a)) fun _ _ => True := by
  obtain ⟨g, t, hunion, hext, -⟩ :=
    Graph.union_spec s.graph (SortedSet.toList_ofList_ne_nil hne) a
  exact .of_ok (outcome_tryGraph hunion) (.of_graph hext (Graph.gains_union hunion))
    (fun _ _ ht => .inl ht) trivial

theorem Works.freshUnion (a : Attributes) (members : SortedSet NodeId) :
    Works lib annotators s (do
      let t ← Conversion.onGraph (·.fresh (.union none) a)
      Conversion.tryGraph fun g => (g.setMembers t members).map fun g => (g, t))
      fun t s' => s'.graph.shape t = .union (some members) := by
  obtain ⟨hext, -, -, hshape⟩ := Graph.fresh_spec s.graph (.union none) a
  have hfresh : outcome (Conversion.onGraph (·.fresh (.union none) a)) s =
      (.ok s.graph.size, { s with graph := (s.graph.fresh (.union none) a).1 }) := rfl
  obtain ⟨g, hg, hset⟩ := exists_outcome_setMembers
    (s := { s with graph := (s.graph.fresh (.union none) a).1 }) members (.inl hshape)
  refine .of_ok ((outcome_bind_of_ok hfresh _).trans hset) ?_ (fun _ _ ht => .inl ht) ?_
  · exact .of_graph (hext.setMembers (Nat.le_refl _) hg)
      ((Graph.gains_fresh _ _ _).trans (Graph.gains_setMembers hg))
  · rcases (Graph.setMembers_spec hg).2.2 with ⟨-, hnew⟩ | ⟨hold, -⟩
    · exact hnew
    · cases hshape.symm.trans hold

theorem Works.resolve (base : Place) (r : Reference) :
    Works lib annotators s (onLibrary (Library.resolve base r)) fun found s' =>
      outcome (Library.resolve base r) s.library = (.ok found, s'.library) ∧
        s' = { s with library := s'.library } := by
  intro _
  have huses : s.library.Uses (outcome (Library.resolve base r) s.library).2 :=
    .resolve .refl base r
  have hproceeds :
      Proceeds s { s with library := (outcome (Library.resolve base r) s.library).2 } :=
    ⟨⟨huses, .of_graph (.refl s.graph) _⟩, .refl s.graph⟩
  rw [outcome_onLibrary]
  rcases hrun : outcome (Library.resolve base r) s.library with ⟨e | found, library⟩ <;>
    rw [hrun] at hproceeds
  · exact hproceeds
  · exact ⟨hproceeds, fun _ _ ht => .inl ht, rfl, rfl⟩

end Conversion

end JsonTyping
