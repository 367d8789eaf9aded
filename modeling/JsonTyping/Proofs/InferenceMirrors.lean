import JsonTyping.Proofs.GraphIsomorphism
import JsonTyping.Proofs.GraphSolutions
import JsonTyping.Proofs.InferenceInvariants

/-!
# The same inference over two graphs

The inference gives nodes of shapes that were asked for before, so what it does depends on what is
in the graph already. Two runs of it over different graphs stay in step all the same: their states
*mirror* each other under a one-to-one relation of nodes that grows as nodes are given
(`Inference.Mirrored`). Asking both graphs for corresponding shapes gives related nodes, whether
either graph had the shape or not (`Inference.inStep_share`), and so the types inferred for the same
values are related (`Inference.inStep_ofSightings`).
-/

namespace JsonTyping

theorem Paired.mem_right {α β : Type} {R : α → β → Prop} (hR : Relator.RightUnique R) {l : List α}
    {k k' : List β} (h : Paired R l k) (h' : Paired R l k') {b : β} (hb : b ∈ k) : b ∈ k' := by
  obtain ⟨a, ha, hab⟩ := h.2 b hb
  obtain ⟨b', hb', hab'⟩ := h'.1 a ha
  rwa [hR hab hab']

theorem SortedSet.eq_of_paired {α β : Type} [Ord β] [Std.TransOrd β] {R : α → β → Prop}
    (hR : Relator.RightUnique R) {l : List α} {k k' : SortedSet β} (h : Paired R l k.toList)
    (h' : Paired R l k'.toList) : k = k' :=
  SortedSet.ext_mem fun _ => ⟨h.mem_right hR h', h'.mem_right hR h⟩

theorem Paired.ofList {α β : Type} [Ord α] [Std.TransOrd α] [Std.LawfulEqOrd α] [Ord β]
    [Std.TransOrd β] [Std.LawfulEqOrd β] {R : α → β → Prop} {l : List α} {k : List β}
    (h : Paired R l k) : Paired R (SortedSet.ofList l).toList (SortedSet.ofList k).toList := by
  refine ⟨fun a ha => ?_, fun b hb => ?_⟩
  · obtain ⟨b, hb, hab⟩ := h.1 a (SortedSet.mem_ofList.1 ha)
    exact ⟨b, SortedSet.mem_ofList.2 hb, hab⟩
  · obtain ⟨a, ha, hab⟩ := h.2 b (SortedSet.mem_ofList.1 hb)
    exact ⟨a, SortedSet.mem_ofList.2 ha, hab⟩

/-- An entry with a key above all others comes last. -/
theorem SortedMap.place_of_gt {α β : Type} [Ord α] {a : α} {f : Option β → β} {l : List (α × β)}
    (h : ∀ e ∈ l, compare a e.1 = .gt) : place a f l = l ++ [(a, f none)] := by
  induction l with
  | nil => rfl
  | cons e l ih =>
    obtain ⟨b, y⟩ := e
    have hb : compare a b = .gt := h (b, y) List.mem_cons_self
    rw [place, hb]
    exact congrArg _ (ih fun e he => h e (List.mem_cons_of_mem _ he))

namespace Graph

variable {R : NodeId → NodeId → Prop} {s s' s'' : Shape}

theorem SameProperties.flip {p q : SortedMap String Property} (h : SameProperties R p q) :
    SameProperties (flip R) q p :=
  List.Forall₂.flip (List.Forall₂.imp (fun _ _ hef => ⟨hef.1.symm, hef.2.1.symm, hef.2.2⟩) h)

theorem SameProperties.right_unique (hR : Relator.RightUnique R)
    {p q q' : SortedMap String Property} (h : SameProperties R p q) (h' : SameProperties R p q') :
    q = q' := by
  have hentries : q.entries = q'.entries := by
    refine List.right_unique_forall₂' ?_ h h'
    rintro e ⟨k, a⟩ ⟨k', a'⟩ ⟨hk, ho, hR₁⟩ ⟨hk', ho', hR₂⟩
    obtain rfl : k = k' := hk.symm.trans hk'
    obtain ⟨type, optional⟩ := a
    obtain ⟨type', optional'⟩ := a'
    obtain rfl : optional = optional' := ho.symm.trans ho'
    obtain rfl : type = type' := hR hR₁ hR₂
    rfl
  obtain ⟨l, hl⟩ := q
  obtain ⟨l', hl'⟩ := q'
  obtain rfl : l = l' := hentries
  rfl

theorem Corresponds.flip (h : Corresponds R s s') : Corresponds (flip R) s' s := by
  cases h with
  | primitive kind => exact .primitive kind
  | enumeration cases => exact .enumeration cases
  | array h => exact .array h
  | record h => exact .record h.flip
  | object h hadditional =>
    refine .object h.flip ?_
    cases hadditional with
    | none => exact .none
    | some h => exact .some h
  | map h => exact .map h
  | union h => exact .union h.flip
  | intersection h => exact .intersection h.flip

theorem Corresponds.right_unique (hR : Relator.RightUnique R) (h : Corresponds R s s')
    (h' : Corresponds R s s'') : s' = s'' := by
  cases h with
  | primitive kind => cases h'; rfl
  | enumeration cases => cases h'; rfl
  | array h =>
    cases h' with
    | array h' => rw [hR h h']
  | record h =>
    cases h' with
    | record h' => rw [h.right_unique hR h']
  | object h hadditional =>
    cases h' with
    | object h' hadditional' =>
      rw [h.right_unique hR h']
      cases hadditional with
      | none => cases hadditional'; rfl
      | some h =>
        cases hadditional' with
        | some h' => rw [hR h h']
  | map h =>
    cases h' with
    | map h' => rw [hR h h']
  | union h =>
    cases h' with
    | union h' => rw [SortedSet.eq_of_paired hR h h']
  | intersection h =>
    cases h' with
    | intersection h' => rw [SortedSet.eq_of_paired hR h h']

/-- Both nodes wait for their members, or they are the shared nodes of corresponding shapes. -/
def Mirrors (R : NodeId → NodeId → Prop) (g g' : Graph) (t u : NodeId) : Prop :=
  g.shape t = .intersection none ∧ g'.shape u = .intersection none ∨
    ∃ s s', g.shared? s = some t ∧ g'.shared? s' = some u ∧ Corresponds R s s'

variable {g g' h h' : Graph} {t u : NodeId}

theorem Mirrors.flip (hm : Mirrors R g g' t u) : Mirrors (flip R) g' g u t := by
  rcases hm with ⟨ht, hu⟩ | ⟨s, s', ht, hu, hs⟩
  · exact .inl ⟨hu, ht⟩
  · exact .inr ⟨s', s, hu, ht, hs.flip⟩

theorem Mirrors.lt_size (hm : Mirrors R g g' t u) : t < g.size := by
  rcases hm with ⟨ht, -⟩ | ⟨s, s', ht, -, -⟩
  · exact lt_size_of_shape ht nofun
  · exact lt_size_of_isShared (isShared_of_shared? ht)

theorem Mirrors.mono {S : NodeId → NodeId → Prop} (hm : Mirrors R g g' t u) (hRS : R ≤ S)
    (hg : g.Develops h) (hg' : g'.Develops h') : Mirrors S h h' t u := by
  rcases hm with ⟨ht, hu⟩ | ⟨s, s', ht, hu, hs⟩
  · exact .inl ⟨hg.toExtends.shape_eq ht nofun, hg'.toExtends.shape_eq hu nofun⟩
  · exact .inr ⟨s, s', hg.keepsShared.shared? ht, hg'.keepsShared.shared? hu, hs.imp hRS⟩

/-- The shared nodes of corresponding shapes are related to no other nodes. -/
theorem Mirrors.right_unique (hR : Relator.RightUnique R) (hm : Mirrors R g g' t u)
    (ht : g.shared? s = some t) {v : NodeId} (hv : g'.shared? s' = some v)
    (hs : Corresponds R s s') : u = v := by
  -- A node is shared for the shape that it has, so it is shared for this one only.
  have hshape := shape_of_shared? ht
  rcases hm with ⟨hempty, -⟩ | ⟨p, p', ht', hu, hp⟩
  · obtain rfl := hshape.symm.trans hempty
    cases hs
  · obtain rfl := hshape.symm.trans (shape_of_shared? ht')
    obtain rfl := hs.right_unique hR hp
    exact Option.some.inj (hu.symm.trans hv)

end Graph

namespace Inference

/-- The relation with one more pair of nodes. -/
def Adding (R : NodeId → NodeId → Prop) (t u : NodeId) : NodeId → NodeId → Prop :=
  fun v w => R v w ∨ v = t ∧ w = u

/-- The same references are pending, at related nodes. -/
def SamePending (R : NodeId → NodeId → Prop) (p q : SortedMap NodeId (SortedSet String)) : Prop :=
  List.Forall₂ (fun e f : NodeId × SortedSet String => R e.1 f.1 ∧ e.2 = f.2) p.entries q.entries

/-- The states are the same but for the numbers of nodes and for nodes that only one of them has.
The relation says which nodes are which. -/
structure Mirrored (R : NodeId → NodeId → Prop) (s s' : Inference) : Prop where
  unique : Relator.BiUnique R
  nodes : ∀ t u, R t u → s.graph.Mirrors R s'.graph t u
  pending : SamePending R s.pending s'.pending

theorem mirrored_start (graph graph' : Graph) :
    Mirrored (fun _ _ => False) (.start graph) (.start graph') :=
  ⟨⟨nofun, nofun⟩, nofun, .nil⟩

section Mirrored

variable {R : NodeId → NodeId → Prop} {s s' : Inference} {g g' : Graph} {t u : NodeId}

theorem Mirrored.develops (h : Mirrored R s s') (hg : s.graph.Develops g)
    (hg' : s'.graph.Develops g') :
    Mirrored R { s with graph := g } { s' with graph := g' } where
  unique := h.unique
  nodes t u htu := (h.nodes t u htu).mono le_rfl hg hg'
  pending := h.pending

theorem SamePending.mono {S : NodeId → NodeId → Prop}
    {p q : SortedMap NodeId (SortedSet String)} (h : SamePending R p q) (hRS : R ≤ S) :
    SamePending S p q :=
  List.Forall₂.imp (fun _ _ hef => ⟨hRS _ _ hef.1, hef.2⟩) h

/-- Two nodes that mirror each other, and are related to no other nodes, can be related. -/
theorem Mirrored.add (h : Mirrored R s s') (hnodes : s.graph.Mirrors R s'.graph t u)
    (hright : ∀ w, R t w → w = u) (hleft : ∀ v, R v u → v = t) :
    Mirrored (Adding R t u) s s' where
  unique := by
    constructor
    · rintro v v' w (hv | ⟨rfl, rfl⟩) (hv' | ⟨rfl, hw⟩)
      · exact h.unique.1 hv hv'
      · exact hleft v (hw ▸ hv)
      · exact (hleft v' hv').symm
      · rfl
    · rintro v w w' (hw | ⟨rfl, rfl⟩) (hw' | ⟨hv, rfl⟩)
      · exact h.unique.2 hw hw'
      · exact hright w (hv ▸ hw)
      · exact (hright w' hw').symm
      · rfl
  nodes := by
    rintro v w (hvw | ⟨rfl, rfl⟩)
    · exact (h.nodes v w hvw).mono (fun _ _ => .inl) (.refl _) (.refl _)
    · exact hnodes.mono (fun _ _ => .inl) (.refl _) (.refl _)
  pending := h.pending.mono fun _ _ => .inl

theorem Mirrored.addShared (h : Mirrored R s s') {p p' : Shape} (hp : Graph.Corresponds R p p')
    (ht : s.graph.shared? p = some t) (hu : s'.graph.shared? p' = some u) :
    Mirrored (Adding R t u) s s' :=
  h.add (.inr ⟨p, p', ht, hu, hp⟩)
    (fun w hw => (h.nodes t w hw).right_unique h.unique.2 ht hu hp)
    (fun v hv => Graph.Mirrors.right_unique (R := flip R) (fun _ _ _ hb hc => h.unique.1 hb hc)
      (h.nodes v u hv).flip hu ht hp.flip)

end Mirrored

/-! ### Runs in step -/

/-- From states that mirror each other, the runs lead to such states again, and `Q` holds of what
they give. Nodes that are related stay so. -/
def InStep {α β : Type} (R : NodeId → NodeId → Prop) (m : StateM Inference α)
    (m' : StateM Inference β) (Q : (NodeId → NodeId → Prop) → α → β → Prop) : Prop :=
  ∀ s s', Mirrored R s s' → ∃ S, R ≤ S ∧ Mirrored S (m.run s).2 (m'.run s').2 ∧
    Q S (m.run s).1 (m'.run s').1

section Rules

variable {α β γ δ : Type} {R : NodeId → NodeId → Prop}

theorem inStep_pure {a : α} {b : β} {Q : (NodeId → NodeId → Prop) → α → β → Prop} (h : Q R a b) :
    InStep R (pure a) (pure b) Q :=
  fun _ _ hs => ⟨R, le_rfl, hs, h⟩

theorem InStep.bind {m : StateM Inference α} {m' : StateM Inference β}
    {f : α → StateM Inference γ} {f' : β → StateM Inference δ}
    {P : (NodeId → NodeId → Prop) → α → β → Prop} {Q : (NodeId → NodeId → Prop) → γ → δ → Prop}
    (hm : InStep R m m' P) (hf : ∀ S a b, R ≤ S → P S a b → InStep S (f a) (f' b) Q) :
    InStep R (m >>= f) (m' >>= f') Q := by
  intro s s' hs
  obtain ⟨S, hRS, hmirrored, hP⟩ := hm s s' hs
  obtain ⟨T, hST, hmirrored', hQ⟩ := hf S _ _ hRS hP _ _ hmirrored
  exact ⟨T, hRS.trans hST, hmirrored', hQ⟩

theorem InStep.imp {m : StateM Inference α} {m' : StateM Inference β}
    {P Q : (NodeId → NodeId → Prop) → α → β → Prop} (hm : InStep R m m' P)
    (h : ∀ S a b, R ≤ S → P S a b → Q S a b) : InStep R m m' Q := by
  intro s s' hs
  obtain ⟨S, hRS, hmirrored, hP⟩ := hm s s' hs
  exact ⟨S, hRS, hmirrored, h S _ _ hRS hP⟩

theorem InStep.map {m : StateM Inference α} {m' : StateM Inference β} {f : α → γ} {f' : β → δ}
    {Q : (NodeId → NodeId → Prop) → γ → δ → Prop}
    (hm : InStep R m m' fun S a b => Q S (f a) (f' b)) : InStep R (f <$> m) (f' <$> m') Q :=
  fun s s' hs => hm s s' hs

theorem InStep.mapM {f : α → StateM Inference β} {f' : α → StateM Inference γ}
    {Q : (NodeId → NodeId → Prop) → β → γ → Prop} (hQ : Monotone Q)
    (hf : ∀ S a, R ≤ S → InStep S (f a) (f' a) Q) (l : List α) :
    InStep R (l.mapM f) (l.mapM f') fun S => List.Forall₂ (Q S) := by
  induction l generalizing R with
  | nil =>
    rw [List.mapM_nil, List.mapM_nil]
    exact inStep_pure .nil
  | cons a l ih =>
    rw [List.mapM_cons, List.mapM_cons]
    refine (hf R a le_rfl).bind fun S b c hRS hbc => ?_
    refine (ih fun T a hST => hf T a (hRS.trans hST)).bind fun T bs cs hST hl => inStep_pure ?_
    exact .cons (hQ hST b c hbc) hl

end Rules

/-- What is given, whether it is new or not, is the shared node of what was asked for, in either
graph. -/
theorem inStep_share {R : NodeId → NodeId → Prop} {p p' : Shape} (hp : Graph.Corresponds R p p')
    (a a' : Attributes) :
    InStep R (onGraph (·.share p a)) (onGraph (·.share p' a')) fun S => S := by
  intro s s' hs
  have hdeveloped := hs.develops (s.graph.develops_share p a) (s'.graph.develops_share p' a')
  have hadded := hdeveloped.addShared hp (s.graph.shared?_share p a) (s'.graph.shared?_share p' a')
  exact ⟨_, fun _ _ => .inl, hadded, .inr ⟨rfl, rfl⟩⟩

theorem entries_defer {s : Inference} (targets : SortedSet String) (a : Attributes)
    (h : ∀ e ∈ s.pending.entries, e.1 < s.graph.size) :
    ((defer targets a).run s).2.pending.entries =
      s.pending.entries ++ [(s.graph.size, targets)] :=
  SortedMap.place_of_gt fun e he => Nat.compare_eq_gt.2 (h e he)

theorem inStep_defer {R : NodeId → NodeId → Prop} (targets : SortedSet String) (a : Attributes) :
    InStep R (defer targets a) (defer targets a) fun S => S := by
  intro s s' hs
  have hlt : ∀ {t u}, R t u → t < s.graph.size := fun htu => (hs.nodes _ _ htu).lt_size
  have hlt' : ∀ {t u}, R t u → u < s'.graph.size := fun htu => (hs.nodes _ _ htu).flip.lt_size
  have hdeveloped := hs.develops (s.graph.develops_fresh (.intersection none) a)
    (s'.graph.develops_fresh (.intersection none) a)
  obtain ⟨-, -, -, hshape⟩ := s.graph.fresh_spec (.intersection none) a
  obtain ⟨-, -, -, hshape'⟩ := s'.graph.fresh_spec (.intersection none) a
  -- The new nodes are above all related ones, so they are related to no others.
  have hadded := hdeveloped.add (.inl ⟨hshape, hshape'⟩)
    (fun w hw => absurd (hlt hw) (Nat.lt_irrefl _))
    (fun v hv => absurd (hlt' hv) (Nat.lt_irrefl _))
  refine ⟨_, fun _ _ => .inl, ⟨hadded.unique, hadded.nodes, ?_⟩, .inr ⟨rfl, rfl⟩⟩
  rw [SamePending, entries_defer, entries_defer]
  · exact List.rel_append hadded.pending (.cons ⟨.inr ⟨rfl, rfl⟩, rfl⟩ .nil)
  · intro f hf
    obtain ⟨e, -, he, -⟩ := exists_left_of_forall₂ hs.pending hf
    exact hlt' he
  · intro e he
    obtain ⟨f, -, hf, -⟩ := exists_right_of_forall₂ hs.pending he
    exact hlt hf

/-- Related types are equally many, so both are the only one, or both are united. -/
theorem inStep_joinTypes {R : NodeId → NodeId → Prop} {types types' : SortedSet NodeId}
    (h : Paired R types.toList types'.toList) (a : Attributes) :
    InStep R (joinTypes types a) (joinTypes types' a) fun S => S := by
  intro s s' hs
  have hlength := h.length_eq hs.unique types.nodup types'.nodup
  match htypes : types.toList, htypes' : types'.toList, hlength with
  | [], [], _ =>
    obtain ⟨S, hRS, hmirrored, hS⟩ := inStep_share (R := R) (.primitive .none) .empty .empty s s' hs
    refine ⟨S, hRS, ?_⟩
    simp only [joinTypes, htypes, htypes']
    exact ⟨hmirrored, hS⟩
  | [only], [only'], _ =>
    rw [htypes, htypes'] at h
    obtain ⟨u, hu, honly⟩ := h.1 only (List.mem_singleton_self _)
    obtain rfl := List.mem_singleton.1 hu
    have hkept : ∀ (g : Graph) (t : NodeId),
        g.Develops (if (g.primitive? t).isSome then g else g.addAttributes t a) := by
      intro g t
      split
      · exact .refl g
      · exact g.develops_addAttributes t a
    have hdeveloped := hs.develops (hkept s.graph only) (hkept s'.graph u)
    refine ⟨R, le_rfl, ?_⟩
    simp only [joinTypes, htypes, htypes']
    exact ⟨hdeveloped, honly⟩
  | x :: y :: rest, x' :: y' :: rest', _ =>
    obtain ⟨S, hRS, hmirrored, hS⟩ := inStep_share (.union h) a a s s' hs
    refine ⟨S, hRS, ?_⟩
    simp only [joinTypes, htypes, htypes']
    exact ⟨hmirrored, hS⟩

section Values

variable {settings : Settings} {infer : List Sighting → Attributes → StateM Inference NodeId}
  (hinfer : ∀ R xs a, InStep R (infer xs a) (infer xs a) fun S => S)
  (R : NodeId → NodeId → Prop)

include hinfer

theorem inStep_ofArrays (arrays : List (List Json)) (a : Attributes) :
    InStep R (ofArrays infer arrays a) (ofArrays infer arrays a) fun S => S :=
  (hinfer R _ _).bind fun _ _ _ _ hitems => inStep_share (.array hitems) a a

theorem inStep_ofProperties (objects : List (List (String × Json))) (keys : List String) :
    InStep R (ofProperties settings infer objects keys) (ofProperties settings infer objects keys)
      fun S l k => Graph.SameProperties S (.ofList l) (.ofList k) := by
  have hall : InStep R (ofProperties settings infer objects keys)
      (ofProperties settings infer objects keys) fun S => List.Forall₂
        fun e f : String × Property => e.1 = f.1 ∧ e.2.optional = f.2.optional ∧
          S e.2.type f.2.type := by
    refine InStep.mapM (fun S T hST e f hef => ⟨hef.1, hef.2.1, hST _ _ hef.2.2⟩) ?_ keys
    exact fun S key _ => (hinfer S _ _).bind fun T t u _ htu => inStep_pure ⟨rfl, rfl, htu⟩
  exact hall.imp fun S l k _ hlk => Graph.sameProperties_ofList hlk

theorem inStep_ofObjects (objects : List (List (String × Json))) (a : Attributes) :
    InStep R (ofObjects settings infer objects a) (ofObjects settings infer objects a)
      fun S => S := by
  unfold ofObjects
  split
  · exact inStep_defer _ a
  · split
    · exact (hinfer R _ _).bind fun _ _ _ _ hvalues => inStep_share (.map hvalues) a a
    · exact (inStep_ofProperties hinfer R objects _).bind fun _ _ _ _ hproperties =>
        inStep_share (.record hproperties) a a

omit hinfer

theorem inStep_ofEvidence (unified : Unified) :
    InStep R (ofEvidence unified) (ofEvidence unified) fun S => List.Forall₂ S := by
  unfold ofEvidence
  refine (InStep.mapM monotone_id (fun S p _ => inStep_share (.primitive p) _ _) _).bind
    fun S ps ps' hRS hps => ?_
  refine (InStep.mapM monotone_id (fun T cases _ => inStep_share (.enumeration cases) _ _) _).bind
    fun T es es' hST hes => inStep_pure ?_
  exact List.rel_append (hps.imp fun _ _ => hST _ _) hes

theorem inStep_whenAny {α : Type} {containers : List α}
    {type : List α → Attributes → StateM Inference NodeId}
    (htype : InStep R (type containers .empty) (type containers .empty) fun S => S) :
    InStep R (whenAny containers type) (whenAny containers type) fun S => List.Forall₂ S := by
  unfold whenAny
  split
  · exact inStep_pure .nil
  · exact (htype.imp fun S t u _ htu => .cons htu .nil).map

end Values

/-- The types of the same values in two graphs are related, whatever the graphs hold already. -/
theorem inStep_ofSightings (settings : Settings) (fuel : Nat) (R : NodeId → NodeId → Prop)
    (xs : List Sighting) (a : Attributes) :
    InStep R (ofSightings settings fuel xs a) (ofSightings settings fuel xs a) fun S => S := by
  induction fuel generalizing R xs a with
  | zero => exact inStep_share (.primitive .none) .empty .empty
  | succ fuel ih =>
    unfold ofSightings
    refine (inStep_ofEvidence R _).bind fun S ps ps' _ hps => ?_
    refine (inStep_whenAny S (inStep_ofObjects ih S _ _)).bind fun T os os' hST hos => ?_
    refine (inStep_whenAny T (inStep_ofArrays ih T _ _)).bind fun U as as' hTU has => ?_
    have hps' : List.Forall₂ U ps ps' := hps.imp fun _ _ htu => hTU _ _ (hST _ _ htu)
    have hos' : List.Forall₂ U os os' := hos.imp fun _ _ => hTU _ _
    have hall : List.Forall₂ U (ps ++ os ++ as) (ps' ++ os' ++ as') :=
      List.rel_append (List.rel_append hps' hos') has
    exact inStep_joinTypes (paired_of_forall₂ hall).ofList a

end Inference

end JsonTyping
