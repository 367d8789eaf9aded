import JsonTyping.Proofs.DescriptionsUpToNumbers
import JsonTyping.Proofs.SchemaEquations
import JsonTyping.Proofs.SharedNodes

/-!
# Graphs that solve the equations of schemas

A graph solves the equations when every name that was given a node has the shape that its body asks
for (`Conversion.Solves`). Two graphs that solve the same equations have the same nodes under
different numbers: the nodes made for one name, and the shared nodes of the same terms, are
counterparts (`Counterpart`), one to one, and correspond.
-/

namespace JsonTyping

/-- The nodes that were made for names. -/
abbrev Made := TypeName → Option NodeId

variable {g g' : Graph} {made made' : Made}

/-- The node is that of the type: the one made for its name, or the shared one. -/
def SimpleType.Denotes (g : Graph) (made : Made) : SimpleType → NodeId → Prop
  | .named name, t => made name = some t
  | .primitive kind, t => g.shared? (.primitive kind) = some t
  | .enumeration cases, t => g.shared? (.enumeration cases) = some t

/-- The node is that of the union of the nodes: the only one, or a shared union. -/
def IsEither (g : Graph) (ts : List NodeId) (t : NodeId) : Prop :=
  (SortedSet.ofList ts).toList = [t] ∨
    (SortedSet.ofList ts).toList.length ≠ 1 ∧ g.shared? (.union (some (.ofList ts))) = some t

def TypeTerm.Denotes (g : Graph) (made : Made) : TypeTerm → NodeId → Prop
  | .simple type, t => type.Denotes g made t
  | .either types, t =>
    ∃ ts, List.Forall₂ (fun type u => type.Denotes g made u) types ts ∧ IsEither g ts t
  | .array items, t => ∃ u, items.Denotes g made u ∧ g.shared? (.array u) = some t

/-- The properties with the required ones that are not among them. -/
def withRequired (required : List String) (properties : SortedMap String Property) :
    Option NodeId → SortedMap String Property
  | none => properties
  | some t =>
    (required.filter fun name => !properties.contains name).foldl
      (fun p name => p.insert name ⟨t, false⟩) properties

/-- The property has the type that is declared under its name. -/
def IsDeclared (g : Graph) (made : Made) (required : List String) (e : String × SimpleType)
    (p : String × Property) : Prop :=
  p.1 = e.1 ∧ p.2.optional = !required.contains e.1 ∧ e.2.Denotes g made p.2.type

/-- The shape is that of the body. -/
def TypeBody.Fits (g : Graph) (made : Made) : TypeBody → Shape → Prop
  | .intersection members, s =>
    ∃ ts, List.Forall₂ (fun term t => term.Denotes g made t) members ts ∧
      s = .intersection (some (.ofList ts))
  | .union members, s =>
    ∃ ts, List.Forall₂ (fun term t => term.Denotes g made t) members ts ∧
      s = .union (some (.ofList ts))
  | .object required declared additional, s =>
    ∃ properties t, List.Forall₂ (IsDeclared g made required) declared properties ∧
      Option.Rel (fun type u => type.Denotes g made u) additional t ∧
      s = .object (withRequired required (.ofList properties) t) t

theorem TypeBody.fits_intersection {members : List TypeTerm} {ts : List NodeId}
    (h : List.Forall₂ (fun term t => term.Denotes g made t) members ts) :
    (TypeBody.intersection members).Fits g made (.intersection (some (.ofList ts))) :=
  ⟨ts, h, rfl⟩

theorem TypeBody.fits_union {members : List TypeTerm} {ts : List NodeId}
    (h : List.Forall₂ (fun term t => term.Denotes g made t) members ts) :
    (TypeBody.union members).Fits g made (.union (some (.ofList ts))) :=
  ⟨ts, h, rfl⟩

/-- Shared nodes stay what they are, and names keep their nodes. -/
structure Refines (g : Graph) (made : Made) (g' : Graph) (made' : Made) : Prop where
  graph : g.KeepsShared g'
  made : ∀ name t, made name = some t → made' name = some t

theorem Refines.trans {g'' : Graph} {made'' : Made} (h : Refines g made g' made')
    (h' : Refines g' made' g'' made'') : Refines g made g'' made'' where
  graph := h.graph.trans h'.graph
  made name t ht := h'.made name t (h.made name t ht)

theorem SimpleType.Denotes.mono (h : Refines g made g' made') {type : SimpleType} {t : NodeId}
    (ht : type.Denotes g made t) : type.Denotes g' made' t := by
  cases type with
  | named name => exact h.made name t ht
  | primitive kind => exact h.graph.shared? ht
  | enumeration cases => exact h.graph.shared? ht

theorem forall₂_denotes_mono (h : Refines g made g' made') {types : List SimpleType}
    {ts : List NodeId} (hts : List.Forall₂ (fun type u => type.Denotes g made u) types ts) :
    List.Forall₂ (fun type u => type.Denotes g' made' u) types ts :=
  List.Forall₂.imp (fun _ _ hu => SimpleType.Denotes.mono h hu) hts

theorem TypeTerm.Denotes.mono (h : Refines g made g' made') {term : TypeTerm} {t : NodeId}
    (ht : term.Denotes g made t) : term.Denotes g' made' t := by
  induction term generalizing t with
  | simple type => exact SimpleType.Denotes.mono h ht
  | either types =>
    obtain ⟨ts, hts, heither⟩ := ht
    refine ⟨ts, forall₂_denotes_mono h hts, ?_⟩
    exact heither.imp id fun hunion => ⟨hunion.1, h.graph.shared? hunion.2⟩
  | array items ih =>
    obtain ⟨u, hu, hshared⟩ := ht
    exact ⟨u, ih hu, h.graph.shared? hshared⟩

theorem forall₂_terms_mono (h : Refines g made g' made') {terms : List TypeTerm}
    {ts : List NodeId} (hts : List.Forall₂ (fun term u => term.Denotes g made u) terms ts) :
    List.Forall₂ (fun term u => term.Denotes g' made' u) terms ts :=
  List.Forall₂.imp (fun _ _ hu => TypeTerm.Denotes.mono h hu) hts

theorem IsDeclared.mono (h : Refines g made g' made') {required : List String}
    {e : String × SimpleType} {p : String × Property} (hp : IsDeclared g made required e p) :
    IsDeclared g' made' required e p :=
  ⟨hp.1, hp.2.1, hp.2.2.mono h⟩

theorem TypeBody.Fits.mono (h : Refines g made g' made') {body : TypeBody} {s : Shape}
    (hs : body.Fits g made s) : body.Fits g' made' s := by
  cases body with
  | intersection members =>
    obtain ⟨ts, hts, rfl⟩ := hs
    exact ⟨ts, forall₂_terms_mono h hts, rfl⟩
  | union members =>
    obtain ⟨ts, hts, rfl⟩ := hs
    exact ⟨ts, forall₂_terms_mono h hts, rfl⟩
  | object required declared additional =>
    obtain ⟨properties, t, hdeclared, hadditional, rfl⟩ := hs
    refine ⟨properties, t, List.Forall₂.imp (fun _ _ hp => hp.mono h) hdeclared, ?_, rfl⟩
    cases hadditional with
    | none => exact .none
    | some hu => exact .some (SimpleType.Denotes.mono h hu)

/-- The name has a node. -/
def IsMade (made : Made) (name : TypeName) : Prop := ∃ t, made name = some t

theorem SimpleType.Denotes.all {type : SimpleType} {t : NodeId} (h : type.Denotes g made t) :
    type.All (IsMade made) := by
  cases type with
  | named name => exact ⟨t, h⟩
  | primitive kind => trivial
  | enumeration cases => trivial

theorem TypeTerm.Denotes.all {term : TypeTerm} {t : NodeId} (h : term.Denotes g made t) :
    term.All (IsMade made) := by
  induction term generalizing t with
  | simple type => exact SimpleType.Denotes.all h
  | either types =>
    obtain ⟨ts, hts, -⟩ := h
    intro type htype
    obtain ⟨u, -, hu⟩ := exists_right_of_forall₂ hts htype
    exact hu.all
  | array items ih =>
    obtain ⟨u, hu, -⟩ := h
    exact ih hu

theorem TypeBody.Fits.all {body : TypeBody} {s : Shape} (h : body.Fits g made s) :
    body.All (IsMade made) := by
  have hterms : ∀ (terms : List TypeTerm) (ts : List NodeId),
      List.Forall₂ (fun term t => term.Denotes g made t) terms ts →
        ∀ term ∈ terms, term.All (IsMade made) := by
    intro terms ts hts term hterm
    obtain ⟨t, -, ht⟩ := exists_right_of_forall₂ hts hterm
    exact ht.all
  cases body with
  | intersection members =>
    obtain ⟨ts, hts, -⟩ := h
    exact hterms members ts hts
  | union members =>
    obtain ⟨ts, hts, -⟩ := h
    exact hterms members ts hts
  | object required declared additional =>
    obtain ⟨properties, t, hdeclared, hadditional, -⟩ := h
    refine ⟨fun e he => ?_, fun type htype => ?_⟩
    · obtain ⟨p, -, hp⟩ := exists_right_of_forall₂ hdeclared he
      exact hp.2.2.all
    · cases hadditional with
      | none => cases htype
      | some hu =>
        obtain rfl := Option.some.inj htype
        exact hu.all

/-! ### Counterparts -/

/-- The nodes stand for the same in the two graphs. -/
inductive Counterpart (g : Graph) (made : Made) (g' : Graph) (made' : Made) :
    NodeId → NodeId → Prop
  | named {name : TypeName} {t u : NodeId} (ht : made name = some t) (hu : made' name = some u) :
      Counterpart g made g' made' t u
  | primitive {kind : Primitive} {t u : NodeId} (ht : g.shared? (.primitive kind) = some t)
      (hu : g'.shared? (.primitive kind) = some u) : Counterpart g made g' made' t u
  | enumeration {cases : SortedSet String} {t u : NodeId}
      (ht : g.shared? (.enumeration cases) = some t)
      (hu : g'.shared? (.enumeration cases) = some u) : Counterpart g made g' made' t u
  | array {items items' t u : NodeId} (h : Counterpart g made g' made' items items')
      (ht : g.shared? (.array items) = some t) (hu : g'.shared? (.array items') = some u) :
      Counterpart g made g' made' t u
  | union (pairs : List (NodeId × NodeId)) (h : ∀ e ∈ pairs, Counterpart g made g' made' e.1 e.2)
      {t u : NodeId} (ht : g.shared? (.union (some (.ofList (pairs.map Prod.fst)))) = some t)
      (hu : g'.shared? (.union (some (.ofList (pairs.map Prod.snd)))) = some u) :
      Counterpart g made g' made' t u

theorem Counterpart.symm {t u : NodeId} (h : Counterpart g made g' made' t u) :
    Counterpart g' made' g made u t := by
  induction h with
  | named ht hu => exact .named hu ht
  | primitive ht hu => exact .primitive hu ht
  | enumeration ht hu => exact .enumeration hu ht
  | array _ ht hu ih => exact .array ih hu ht
  | union pairs _ ht hu ih =>
    refine .union (pairs.map Prod.swap) (fun e he => ?_) ?_ ?_
    · obtain ⟨e', he', rfl⟩ := List.mem_map.1 he
      exact ih e' he'
    · rw [List.map_map]
      exact hu
    · rw [List.map_map]
      exact ht

/-- Every name has a node of its own, which is not shared. -/
structure OwnNodes (g : Graph) (made : Made) : Prop where
  injective : ∀ name name' t, made name = some t → made name' = some t → name = name'
  notShared : ∀ name t, made name = some t → t < g.size ∧ g.isShared t = false

theorem OwnNodes.ne_shared (h : OwnNodes g made) {name : TypeName} {t : NodeId}
    (ht : made name = some t) (s : Shape) : g.shared? s ≠ some t := by
  intro hs
  have hshared := Graph.isShared_of_shared? hs
  rw [(h.notShared name t ht).2] at hshared
  cases hshared

theorem eq_of_shared? {s s' : Shape} {t : NodeId} (h : g.shared? s = some t)
    (h' : g.shared? s' = some t) : s = s' :=
  (Graph.shape_of_shared? h).symm.trans (Graph.shape_of_shared? h')

/-- Where the left sides are the same set and determine the right sides, those are the same set. -/
theorem ofList_snd_eq {pairs pairs' : List (NodeId × NodeId)}
    (hleft : SortedSet.ofList (pairs.map Prod.fst) = .ofList (pairs'.map Prod.fst))
    (hright : ∀ e ∈ pairs, ∀ e' ∈ pairs', e.1 = e'.1 → e.2 = e'.2) :
    SortedSet.ofList (pairs.map Prod.snd) = .ofList (pairs'.map Prod.snd) := by
  have hmem : ∀ v, v ∈ pairs.map Prod.fst ↔ v ∈ pairs'.map Prod.fst := fun v => by
    rw [← SortedSet.mem_ofList, hleft, SortedSet.mem_ofList]
  refine SortedSet.ext_mem fun w => ?_
  rw [SortedSet.mem_ofList, SortedSet.mem_ofList, List.mem_map, List.mem_map]
  constructor
  · rintro ⟨e, he, rfl⟩
    obtain ⟨e', he', heq⟩ := List.mem_map.1 ((hmem e.1).1 (List.mem_map.2 ⟨e, he, rfl⟩))
    exact ⟨e', he', (hright e he e' he' heq.symm).symm⟩
  · rintro ⟨e', he', rfl⟩
    obtain ⟨e, he, heq⟩ := List.mem_map.1 ((hmem e'.1).2 (List.mem_map.2 ⟨e', he', rfl⟩))
    exact ⟨e, he, hright e he e' he' heq⟩

theorem Counterpart.unique (hmade : OwnNodes g made) {t u u' : NodeId}
    (h : Counterpart g made g' made' t u) (h' : Counterpart g made g' made' t u') : u = u' := by
  -- How a node became a counterpart can be seen from its shape, and whether it is shared.
  induction h generalizing u' with
  | named ht hu =>
    cases h' with
    | named ht' hu' =>
      obtain rfl := hmade.injective _ _ _ ht ht'
      exact Option.some.inj (hu.symm.trans hu')
    | primitive ht' | enumeration ht' | array _ ht' | union _ _ ht' =>
      exact absurd ht' (hmade.ne_shared ht _)
  | primitive ht hu =>
    cases h' with
    | named ht' => exact absurd ht (hmade.ne_shared ht' _)
    | primitive ht' hu' =>
      cases eq_of_shared? ht ht'
      exact Option.some.inj (hu.symm.trans hu')
    | enumeration ht' | array _ ht' | union _ _ ht' => cases eq_of_shared? ht ht'
  | enumeration ht hu =>
    cases h' with
    | named ht' => exact absurd ht (hmade.ne_shared ht' _)
    | enumeration ht' hu' =>
      cases eq_of_shared? ht ht'
      exact Option.some.inj (hu.symm.trans hu')
    | primitive ht' | array _ ht' | union _ _ ht' => cases eq_of_shared? ht ht'
  | array _ ht hu ih =>
    cases h' with
    | named ht' => exact absurd ht (hmade.ne_shared ht' _)
    | array hitems' ht' hu' =>
      cases eq_of_shared? ht ht'
      obtain rfl := ih hitems'
      exact Option.some.inj (hu.symm.trans hu')
    | primitive ht' | enumeration ht' | union _ _ ht' => cases eq_of_shared? ht ht'
  | union pairs _ ht hu ih =>
    cases h' with
    | named ht' => exact absurd ht (hmade.ne_shared ht' _)
    | union pairs' hpairs' ht' hu' =>
      have hleft : SortedSet.ofList (pairs.map Prod.fst) = .ofList (pairs'.map Prod.fst) := by
        simpa only [Shape.union.injEq, Option.some.injEq] using eq_of_shared? ht ht'
      have hright := ofList_snd_eq hleft fun e he e' he' heq => ih e he (heq ▸ hpairs' e' he')
      rw [hright] at hu
      exact Option.some.inj (hu.symm.trans hu')
    | primitive ht' | enumeration ht' | array _ ht' => cases eq_of_shared? ht ht'

theorem Counterpart.biUnique (hmade : OwnNodes g made) (hmade' : OwnNodes g' made') :
    Relator.BiUnique (Counterpart g made g' made') :=
  ⟨fun _ _ _ h h' => h.symm.unique hmade' h'.symm, fun _ _ _ h h' => h.unique hmade h'⟩

theorem SimpleType.Denotes.counterpart {type : SimpleType} {t u : NodeId}
    (ht : type.Denotes g made t) (hu : type.Denotes g' made' u) :
    Counterpart g made g' made' t u := by
  cases type with
  | named name => exact .named ht hu
  | primitive kind => exact .primitive ht hu
  | enumeration cases => exact .enumeration ht hu

/-- Nodes of the same list of things, side by side. -/
theorem exists_pairs_of_forall₂ {α : Type} {R S : α → NodeId → Prop} {T : NodeId → NodeId → Prop}
    {as : List α} {ts us : List NodeId} (hts : List.Forall₂ R as ts) (hus : List.Forall₂ S as us)
    (hRS : ∀ a t u, R a t → S a u → T t u) :
    ∃ pairs : List (NodeId × NodeId), (∀ e ∈ pairs, T e.1 e.2) ∧
      pairs.map Prod.fst = ts ∧ pairs.map Prod.snd = us := by
  induction hts generalizing us with
  | nil =>
    cases hus
    exact ⟨[], nofun, rfl, rfl⟩
  | @cons a t as ts hat _ ih =>
    cases hus with
    | cons hau hus =>
      obtain ⟨pairs, hpairs, rfl, rfl⟩ := ih hus
      refine ⟨(t, _) :: pairs, fun e he => ?_, rfl, rfl⟩
      rcases List.mem_cons.1 he with rfl | he
      · exact hRS a _ _ hat hau
      · exact hpairs e he

theorem paired_ofList {T : NodeId → NodeId → Prop} {pairs : List (NodeId × NodeId)}
    (h : ∀ e ∈ pairs, T e.1 e.2) :
    Paired T (SortedSet.ofList (pairs.map Prod.fst)).toList
      (SortedSet.ofList (pairs.map Prod.snd)).toList := by
  refine ⟨fun t ht => ?_, fun u hu => ?_⟩
  · obtain ⟨e, he, rfl⟩ := List.mem_map.1 (SortedSet.mem_ofList.1 ht)
    exact ⟨e.2, SortedSet.mem_ofList.2 (List.mem_map.2 ⟨e, he, rfl⟩), h e he⟩
  · obtain ⟨e, he, rfl⟩ := List.mem_map.1 (SortedSet.mem_ofList.1 hu)
    exact ⟨e.1, SortedSet.mem_ofList.2 (List.mem_map.2 ⟨e, he, rfl⟩), h e he⟩

theorem IsEither.counterpart (hR : Relator.BiUnique (Counterpart g made g' made'))
    {pairs : List (NodeId × NodeId)} (hpairs : ∀ e ∈ pairs, Counterpart g made g' made' e.1 e.2)
    {t u : NodeId} (ht : IsEither g (pairs.map Prod.fst) t)
    (hu : IsEither g' (pairs.map Prod.snd) u) : Counterpart g made g' made' t u := by
  -- The two lists have equally many different nodes, so either both sides are unions or neither is.
  have hpaired := paired_ofList hpairs
  have hlength := hpaired.length_eq hR (SortedSet.nodup _) (SortedSet.nodup _)
  rcases ht with ht | ⟨hmany, ht⟩
  · rcases hu with hu | ⟨hmany', -⟩
    · rw [ht, hu] at hpaired
      obtain ⟨w, hw, htw⟩ := hpaired.1 t (List.mem_singleton_self t)
      obtain rfl := List.mem_singleton.1 hw
      exact htw
    · rw [ht] at hlength
      exact absurd hlength.symm hmany'
  · rcases hu with hu | ⟨-, hu⟩
    · rw [hu] at hlength
      exact absurd hlength hmany
    · exact .union pairs hpairs ht hu

theorem TypeTerm.Denotes.counterpart (hR : Relator.BiUnique (Counterpart g made g' made'))
    {term : TypeTerm} {t u : NodeId} (ht : term.Denotes g made t) (hu : term.Denotes g' made' u) :
    Counterpart g made g' made' t u := by
  induction term generalizing t u with
  | simple type => exact SimpleType.Denotes.counterpart ht hu
  | either types =>
    obtain ⟨ts, hts, hteither⟩ := ht
    obtain ⟨us, hus, hueither⟩ := hu
    obtain ⟨pairs, hpairs, rfl, rfl⟩ :=
      exists_pairs_of_forall₂ hts hus fun _ _ _ h h' => SimpleType.Denotes.counterpart h h'
    exact hteither.counterpart hR hpairs hueither
  | array items ih =>
    obtain ⟨v, hv, ht⟩ := ht
    obtain ⟨w, hw, hu⟩ := hu
    exact .array (ih hv hw) ht hu

namespace Graph

variable {R : NodeId → NodeId → Prop}

theorem SameProperties.insert {p q : SortedMap String Property} (h : SameProperties R p q)
    (name : String) {b c : Property} (hoptional : b.optional = c.optional)
    (htype : R b.type c.type) : SameProperties R (p.insert name b) (q.insert name c) := by
  have hplace : ∀ l k : List (String × Property),
      List.Forall₂ (fun e f : String × Property =>
        e.1 = f.1 ∧ e.2.optional = f.2.optional ∧ R e.2.type f.2.type) l k →
      List.Forall₂ (fun e f : String × Property =>
        e.1 = f.1 ∧ e.2.optional = f.2.optional ∧ R e.2.type f.2.type)
        (SortedMap.place name (fun _ => b) l) (SortedMap.place name (fun _ => c) k) := by
    intro l k hlk
    induction hlk with
    | nil => exact .cons ⟨rfl, hoptional, htype⟩ .nil
    | @cons e f l k hef hrest ih =>
      obtain ⟨key, e⟩ := e
      obtain ⟨key', f⟩ := f
      obtain ⟨rfl, hef⟩ : key = key' ∧ e.optional = f.optional ∧ R e.type f.type := hef
      rw [SortedMap.place, SortedMap.place]
      split
      · exact .cons ⟨rfl, hoptional, htype⟩ (.cons ⟨rfl, hef⟩ hrest)
      · exact .cons ⟨rfl, hoptional, htype⟩ hrest
      · exact .cons ⟨rfl, hef⟩ ih
  exact hplace p.entries q.entries h

theorem SameProperties.contains_eq {p q : SortedMap String Property} (h : SameProperties R p q)
    (name : String) : p.contains name = q.contains name := by
  have hlookup : ∀ l k : List (String × Property),
      List.Forall₂ (fun e f : String × Property =>
        e.1 = f.1 ∧ e.2.optional = f.2.optional ∧ R e.2.type f.2.type) l k →
      (l.lookup name).isSome = (k.lookup name).isSome := by
    intro l k hlk
    induction hlk with
    | nil => rfl
    | @cons e f l k hef _ ih =>
      obtain ⟨key, e⟩ := e
      obtain ⟨key', f⟩ := f
      obtain rfl : key = key' := hef.1
      rw [SortedMap.lookup_cons_eq, SortedMap.lookup_cons_eq]
      split
      · rfl
      · exact ih
  exact hlookup p.entries q.entries h

theorem sameProperties_ofList {l k : List (String × Property)}
    (h : List.Forall₂ (fun e f : String × Property =>
      e.1 = f.1 ∧ e.2.optional = f.2.optional ∧ R e.2.type f.2.type) l k) :
    SameProperties R (.ofList l) (.ofList k) := by
  have hfold : ∀ p q : SortedMap String Property, SameProperties R p q →
      SameProperties R (l.foldl (fun m e => m.insert e.1 e.2) p)
        (k.foldl (fun m e => m.insert e.1 e.2) q) := by
    induction h with
    | nil => exact fun _ _ => id
    | @cons e f l k hef _ ih =>
      obtain ⟨key, e⟩ := e
      obtain ⟨key', f⟩ := f
      obtain ⟨rfl, hoptional, htype⟩ :
        key = key' ∧ e.optional = f.optional ∧ R e.type f.type := hef
      exact fun p q hpq => ih _ _ (hpq.insert key hoptional htype)
  exact hfold .empty .empty .nil

theorem sameProperties_withRequired (required : List String) {p q : SortedMap String Property}
    (h : SameProperties R p q) {a b : Option NodeId} (hab : Option.Rel R a b) :
    SameProperties R (withRequired required p a) (withRequired required q b) := by
  have hfold : ∀ (names : List String) (p q : SortedMap String Property) (t u : NodeId), R t u →
      SameProperties R p q →
        SameProperties R (names.foldl (fun p name => p.insert name ⟨t, false⟩) p)
          (names.foldl (fun p name => p.insert name ⟨u, false⟩) q) := by
    intro names p q t u htu hpq
    induction names generalizing p q with
    | nil => exact hpq
    | cons name names ih => exact ih _ _ (hpq.insert name rfl htu)
  cases hab with
  | none => exact h
  | some htu =>
    simp only [withRequired, h.contains_eq]
    exact hfold _ p q _ _ htu h

end Graph

/-! ### Solutions -/

/-- Shapes of the same body correspond. -/
theorem TypeBody.Fits.corresponds (hR : Relator.BiUnique (Counterpart g made g' made'))
    {body : TypeBody} {s s' : Shape} (h : body.Fits g made s) (h' : body.Fits g' made' s') :
    Graph.Corresponds (Counterpart g made g' made') s s' := by
  cases body with
  | intersection members =>
    obtain ⟨ts, hts, rfl⟩ := h
    obtain ⟨us, hus, rfl⟩ := h'
    obtain ⟨pairs, hpairs, rfl, rfl⟩ :=
      exists_pairs_of_forall₂ hts hus fun _ _ _ h h' => TypeTerm.Denotes.counterpart hR h h'
    exact .intersection (paired_ofList hpairs)
  | union members =>
    obtain ⟨ts, hts, rfl⟩ := h
    obtain ⟨us, hus, rfl⟩ := h'
    obtain ⟨pairs, hpairs, rfl, rfl⟩ :=
      exists_pairs_of_forall₂ hts hus fun _ _ _ h h' => TypeTerm.Denotes.counterpart hR h h'
    exact .union (paired_ofList hpairs)
  | object required declared additional =>
    obtain ⟨properties, a, hdeclared, hadditional, rfl⟩ := h
    obtain ⟨properties', a', hdeclared', hadditional', rfl⟩ := h'
    have hrel : Option.Rel (Counterpart g made g' made') a a' := by
      cases hadditional with
      | none =>
        cases hadditional'
        exact .none
      | some ht =>
        cases hadditional' with
        | some hu => exact .some (ht.counterpart hu)
    have hproperties : List.Forall₂ (fun e f : String × Property => e.1 = f.1 ∧
        e.2.optional = f.2.optional ∧ Counterpart g made g' made' e.2.type f.2.type)
        properties properties' := by
      clear hadditional hadditional' hrel
      induction hdeclared generalizing properties' with
      | nil =>
        cases hdeclared'
        exact .nil
      | cons hp _ ih =>
        cases hdeclared' with
        | cons hq hrest =>
          refine .cons ⟨hp.1.trans hq.1.symm, hp.2.1.trans hq.2.1.symm, ?_⟩ (ih _ hrest)
          exact hp.2.2.counterpart hq.2.2
    exact .object (Graph.sameProperties_withRequired required
      (Graph.sameProperties_ofList hproperties) hrel) hrel

namespace Conversion

variable {lib : Library} {annotators : List Annotator}

/-- Every name with a node has the shape that its body asks for, up to the types of the places that
are still being converted. Every registered place has the node of its type. -/
structure Solves (lib : Library) (annotators : List Annotator) (unfinished : List Reference)
    (g : Graph) (types : List (Reference × NodeId)) (made : Made) : Prop where
  ownNodes : OwnNodes g made
  registered : ∀ name t, made name = some t → ∃ u, types.lookup name.place = some u
  types : ∀ r t, types.lookup r = some t → (typeAt lib r).Denotes g made t
  bodies : ∀ name t, made name = some t → name.role = .whole ∧ name.place ∈ unfinished ∨
    ∃ b, body lib annotators name = some b ∧ b.Fits g made (g.shape t)

/-- In a graph where nothing is unfinished, names with nodes are sound. -/
theorem Solves.sound {types : List (Reference × NodeId)}
    (h : Solves lib annotators [] g types made) {name : TypeName} (hname : IsMade made name) :
    Sound lib annotators name := by
  refine ⟨IsMade made, hname, fun m hm => ?_⟩
  obtain ⟨t, ht⟩ := hm
  rcases h.bodies m t ht with ⟨-, hmem⟩ | ⟨b, hb, hfits⟩
  · cases hmem
  · exact ⟨b, hb, hfits.all⟩

/-- Counterparts in two solutions of the same equations have corresponding shapes. -/
theorem Solves.corresponds {types types' : List (Reference × NodeId)}
    (h : Solves lib annotators [] g types made) (h' : Solves lib annotators [] g' types' made')
    {t u : NodeId} (htu : Counterpart g made g' made' t u) :
    Graph.Corresponds (Counterpart g made g' made') (g.shape t) (g'.shape u) := by
  have hR := Counterpart.biUnique h.ownNodes h'.ownNodes
  cases htu with
  | @named name _ _ ht hu =>
    rcases h.bodies name t ht with ⟨-, hmem⟩ | ⟨b, hb, hfits⟩
    · cases hmem
    · rcases h'.bodies name u hu with ⟨-, hmem⟩ | ⟨b', hb', hfits'⟩
      · cases hmem
      · obtain rfl := Option.some.inj (hb.symm.trans hb')
        exact hfits.corresponds hR hfits'
  | primitive ht hu =>
    rw [Graph.shape_of_shared? ht, Graph.shape_of_shared? hu]
    exact .primitive _
  | enumeration ht hu =>
    rw [Graph.shape_of_shared? ht, Graph.shape_of_shared? hu]
    exact .enumeration _
  | array hitems ht hu =>
    rw [Graph.shape_of_shared? ht, Graph.shape_of_shared? hu]
    exact .array hitems
  | union pairs hpairs ht hu =>
    rw [Graph.shape_of_shared? ht, Graph.shape_of_shared? hu]
    exact .union (paired_ofList hpairs)

/-- The types of a place in two solutions of the same equations are described alike. -/
theorem Solves.describe_sameUpTo {types types' : List (Reference × NodeId)}
    (h : Solves lib annotators [] g types made) (h' : Solves lib annotators [] g' types' made')
    {r : Reference} {t u : NodeId} (ht : types.lookup r = some t)
    (hu : types'.lookup r = some u) :
    Relator.BiUnique (Counterpart g made g' made') ∧
      Graph.SameUpTo (Counterpart g made g' made') (g.describe t) (g'.describe u) := by
  have hR := Counterpart.biUnique h.ownNodes h'.ownNodes
  exact ⟨hR, Graph.describe_sameUpTo hR (fun _ _ hvw => h.corresponds h' hvw)
    ((h.types r t ht).counterpart (h'.types r u hu))⟩

end Conversion

end JsonTyping
