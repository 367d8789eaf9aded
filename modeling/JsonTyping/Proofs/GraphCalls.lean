import JsonTyping.Proofs.CombinedAttributes
import JsonTyping.Proofs.FilledTypes
import JsonTyping.Proofs.SharedNodes

/-!
# Calls on graphs

A graph is built by calls (`GraphCall`), and every call is about one node. The log of a run keeps
the calls with the nodes they were about (`Graph.Runs`). What is known about a node in the end is
what was known before and what the calls gave it, combined (`Graph.Runs.attributes_eq`). The order
of the calls does not matter, nor what was combined before it was given (`Graph.attributes_joined`).
-/

namespace JsonTyping

/-- A call that builds a graph. -/
inductive GraphCall where
  | share (s : Shape) (a : Attributes)
  | union (members : SortedSet NodeId) (a : Attributes)
  | fresh (s : Shape) (a : Attributes)
  | setMembers (t : NodeId) (members : SortedSet NodeId)
  | addAttributes (t : NodeId) (a : Attributes)
  | publish (name : String) (t : NodeId)
  deriving DecidableEq

namespace GraphCall

/-- The graph after a call and the node that the call is about. A name that is taken already is not
given again. -/
def run (g : Graph) : GraphCall → Except Misuse (Graph × NodeId)
  | share s a => .ok (g.share s a)
  | union members a => g.union members a
  | fresh s a => .ok (g.fresh s a)
  | setMembers t members => do return (← g.setMembers t members, t)
  | addAttributes t a => .ok (g.addAttributes t a, t)
  | publish name t => .ok ((g.publish? name t).getD g, t)

/-- The nodes that a call names. -/
def named : GraphCall → List NodeId
  | share s _ => s.parts
  | union members _ => members.toList
  | fresh s _ => s.parts
  | setMembers t members => t :: members.toList
  | addAttributes t _ => [t]
  | publish _ t => [t]

/-- What a call says about its node. -/
def attributes : GraphCall → Attributes
  | share _ a => a
  | union _ a => a
  | fresh _ a => a
  | setMembers .. => .empty
  | addAttributes _ a => a
  | publish .. => .empty

/-- A shape that is shared has its members. -/
def IsFilled : GraphCall → Prop
  | share s _ => s.IsFilled
  | _ => True

instance : DecidablePred IsFilled
  | share s _ => inferInstanceAs (Decidable (s ≠ .union none ∧ s ≠ .intersection none))
  | union .. => isTrue trivial
  | fresh .. => isTrue trivial
  | setMembers .. => isTrue trivial
  | addAttributes .. => isTrue trivial
  | publish .. => isTrue trivial

/-- A call may be made when it names nodes that are there and shares no shape without members. -/
def Valid (g : Graph) (c : GraphCall) : Prop := (∀ t ∈ c.named, t < g.size) ∧ c.IsFilled

instance (g : Graph) (c : GraphCall) : Decidable (c.Valid g) := inferInstanceAs (Decidable (_ ∧ _))

/-- Makes a call and logs it. -/
def step (done : List (GraphCall × NodeId) × Graph) (c : GraphCall) :
    Option (List (GraphCall × NodeId) × Graph) :=
  match c.run done.2 with
  | .ok (g, t) => if c.Valid done.2 then some (done.1 ++ [(c, t)], g) else none
  | .error _ => none

end GraphCall

namespace Graph

/-- The second graph is what successful calls make of the first one. The log has the calls with the
nodes they were about. -/
inductive Runs (g : Graph) : List (GraphCall × NodeId) → Graph → Prop
  | nil : Runs g [] g
  | concat {log : List (GraphCall × NodeId)} {h k : Graph} {c : GraphCall} {t : NodeId}
    (runs : Runs g log h) (valid : c.Valid h) (run : c.run h = .ok (k, t)) :
    Runs g (log ++ [(c, t)]) k

/-- Makes calls one after another. There is no graph when one of them may not be made or fails. -/
def perform? (g : Graph) (calls : List GraphCall) : Option (List (GraphCall × NodeId) × Graph) :=
  calls.foldlM GraphCall.step ([], g)

/-- The graph that calls build, and the empty one when one of them may not be made or fails. -/
def ofCalls (calls : List GraphCall) : Graph := ((perform? .empty calls).map (·.2)).getD .empty

variable {g g' k k' : Graph} {c : GraphCall} {log log' : List (GraphCall × NodeId)}
  {t u : NodeId}

theorem runs_of_foldlM {calls : List GraphCall} (h : Runs g log k)
    (hcalls : calls.foldlM GraphCall.step (log, k) = some (log', k')) : Runs g log' k' := by
  induction calls generalizing log k with
  | nil =>
    obtain ⟨rfl, rfl⟩ := Prod.mk.inj (Option.some.inj hcalls)
    exact h
  | cons c rest ih =>
    rw [List.foldlM_cons] at hcalls
    obtain ⟨⟨log₁, k₁⟩, hstep, hrest⟩ := Option.bind_eq_some_iff.1 hcalls
    unfold GraphCall.step at hstep
    split at hstep
    · next t hrun =>
      obtain ⟨hvalid, heq⟩ := Option.ite_none_right_eq_some.1 hstep
      obtain ⟨rfl, rfl⟩ := Prod.mk.inj (Option.some.inj heq)
      exact ih (h.concat hvalid hrun) hrest
    · cases hstep

theorem runs_of_perform? {calls : List GraphCall} (h : g.perform? calls = some (log, g')) :
    Runs g log g' :=
  runs_of_foldlM .nil h

theorem attributes_of_size_le (h : g.size ≤ t) : g.attributes t = .empty := by
  have hnone : g.nodes[t]? = none := Array.getElem?_eq_none h
  simp only [attributes, hnone]

theorem attributes_push (g : Graph) (node : Node) (u : NodeId) :
    ({ g with nodes := g.nodes.push node } : Graph).attributes u =
      if u = g.size then node.attributes else g.attributes u := by
  by_cases hu : u = g.size
  · rw [if_pos hu]
    simp only [attributes, Array.getElem?_push, show u = g.nodes.size from hu, if_true]
  · rw [if_neg hu]
    simp only [attributes, Array.getElem?_push, if_neg (show ¬u = g.nodes.size from hu)]

theorem attributes_addAttributes (ht : t < g.size) (a : Attributes) (u : NodeId) :
    (g.addAttributes t a).attributes u =
      if u = t then (g.attributes u).combine a else g.attributes u := by
  unfold addAttributes
  split
  · next hempty =>
    obtain rfl : a = .empty := of_decide_eq_true hempty
    rw [Attributes.combine_empty, ite_self]
  · simp only [attributes, Array.getElem?_modify]
    by_cases hut : u = t
    · subst hut
      have hget : g.nodes[u]? = some g.nodes[u] := Array.getElem?_eq_getElem ht
      rw [if_pos rfl, if_pos rfl, hget]
      rfl
    · rw [if_neg (Ne.symm hut), if_neg hut]

theorem attributes_setMembers {members : SortedSet NodeId}
    (h : g.setMembers t members = .ok g') (u : NodeId) : g'.attributes u = g.attributes u := by
  obtain ⟨s, rfl⟩ := exists_of_setMembers h
  simp only [attributes, Array.getElem?_modify]
  by_cases htu : t = u
  · subst htu
    rw [if_pos rfl]
    cases g.nodes[t]? <;> rfl
  · rw [if_neg htu]

/-- Publishing changes no node. -/
theorem nodes_publish (g : Graph) (name : String) (t : NodeId) :
    ((g.publish? name t).getD g).nodes = g.nodes := by
  unfold publish?
  split <;> rfl

theorem attributes_share (g : Graph) (s : Shape) (a : Attributes) (u : NodeId) :
    (g.share s a).1.attributes u =
      if u = (g.share s a).2 then (g.attributes u).combine a else g.attributes u := by
  unfold share
  split
  · next t ht =>
    exact attributes_addAttributes (lt_size_of_isShared (isShared_of_shared? ht)) a u
  · rw [attributes_push]
    by_cases hu : u = g.size
    · rw [if_pos hu, if_pos hu, hu, attributes_of_size_le (Nat.le_refl _), Attributes.empty_combine]
    · rw [if_neg hu, if_neg hu]

/-- A call combines what it says with the attributes of the node that it is about. -/
theorem attributes_run (hvalid : c.Valid g) (h : c.run g = .ok (g', t)) (u : NodeId) :
    g'.attributes u =
      if u = t then (g.attributes u).combine c.attributes else g.attributes u := by
  cases c with
  | share s a =>
    obtain ⟨rfl, rfl⟩ := Prod.mk.inj (Except.ok.inj h)
    exact attributes_share g s a u
  | union members a =>
    change g.union members a = .ok (g', t) at h
    unfold union at h
    split at h
    · cases h
    · next only honly =>
      obtain ⟨rfl, rfl⟩ := Prod.mk.inj (Except.ok.inj h)
      have hmem : only ∈ members.toList := by
        rw [honly]
        exact List.mem_singleton_self only
      exact attributes_addAttributes (hvalid.1 only hmem) a u
    · obtain ⟨rfl, rfl⟩ := Prod.mk.inj (Except.ok.inj h)
      exact attributes_share g (.union (some members)) a u
  | fresh s a =>
    obtain ⟨rfl, rfl⟩ := Prod.mk.inj (Except.ok.inj h)
    rw [attributes_push]
    by_cases hu : u = g.size
    · rw [if_pos hu, if_pos hu, hu, attributes_of_size_le (Nat.le_refl _)]
      exact (Attributes.empty_combine a).symm
    · rw [if_neg hu, if_neg hu]
  | setMembers v members =>
    obtain ⟨h', hset, heq⟩ := bind_eq_ok.1 h
    obtain ⟨rfl, rfl⟩ := Prod.mk.inj (Except.ok.inj heq)
    rw [attributes_setMembers hset, GraphCall.attributes, Attributes.combine_empty, ite_self]
  | addAttributes v a =>
    obtain ⟨rfl, rfl⟩ := Prod.mk.inj (Except.ok.inj h)
    exact attributes_addAttributes (hvalid.1 v (List.mem_singleton_self v)) a u
  | publish name v =>
    obtain ⟨rfl, rfl⟩ := Prod.mk.inj (Except.ok.inj h)
    rw [attributes, nodes_publish, GraphCall.attributes, Attributes.combine_empty, ite_self]
    rfl

/-! ### Runs -/

/-- What the calls of a log say about a node. -/
def said (log : List (GraphCall × NodeId)) (t : NodeId) : List Attributes :=
  (log.filter (·.2 == t)).map (·.1.attributes)

/-- What is known about a node and what calls say about it, but for what says nothing. -/
def received (g : Graph) (log : List (GraphCall × NodeId)) (t : NodeId) : List Attributes :=
  (g.attributes t :: said log t).filter (!·.isEmpty)

theorem said_concat (log : List (GraphCall × NodeId)) (c : GraphCall) (t u : NodeId) :
    said (log ++ [(c, t)]) u = said log u ++ if u = t then [c.attributes] else [] := by
  by_cases hut : u = t
  · simp [said, hut]
  · simp [said, hut, Ne.symm hut]

/-- A node ends with everything that is known or said about it, combined. -/
theorem Runs.attributes_eq (h : Runs g log g') (t : NodeId) :
    g'.attributes t = Attributes.combineAll (g.received log t) := by
  rw [received, Attributes.combineAll_filter]
  induction h with
  | nil => exact (Attributes.combineAll_singleton _).symm
  | @concat log h k c u _ hvalid hrun ih =>
    rw [attributes_run hvalid hrun, said_concat, ih, ← List.cons_append]
    by_cases htu : t = u
    · rw [if_pos htu, if_pos htu, Attributes.combineAll_concat]
    · rw [if_neg htu, if_neg htu, List.append_nil]

/-- Two nodes that receive the same say the same in the end, in whatever order they receive it and
whatever was combined before it was given to the second one. -/
theorem Runs.attributes_same (h : Runs g log g') (h' : Runs k log' k')
    {groups : List (List Attributes)}
    (hgroups : List.Forall₂ (fun a group => a.Same (Attributes.combineAll group))
      (k.received log' u) groups)
    (hmem : ∀ a, a ∈ groups.flatten ↔ a ∈ g.received log t) :
    (g'.attributes t).Same (k'.attributes u) := by
  rw [h.attributes_eq, h'.attributes_eq]
  exact (Attributes.combineAll_same_of_groups hgroups hmem).symm

/-- Combining is a join, up to the signs of zeros, and inferred attributes are joined alike. So a
node ends with the join of what is known and said about it, whatever the order of the calls and
whatever was joined before. -/
theorem attributes_joined :
    ((∀ a b : Attributes, (a.combine b).Same (b.combine a)) ∧
      (∀ a b c : Attributes, (a.combine b).combine c = a.combine (b.combine c)) ∧
      (∀ a : Attributes, a.combine a = a ∧ a.combine .empty = a ∧ Attributes.empty.combine a = a) ∧
      (∀ a b : Attributes,
        (a.combine b).makeInferred = a.makeInferred.combine b.makeInferred) ∧
      ∀ a a' b b' : Attributes, a.Same a' → b.Same b' →
        (a.combine b).Same (a'.combine b') ∧ a.makeInferred.Same a'.makeInferred) ∧
    (∀ g log g', Runs g log g' → ∀ t,
      g'.attributes t = Attributes.combineAll (g.received log t)) ∧
    ∀ g log g' k log' k', Runs g log g' → Runs k log' k' → ∀ t u groups,
      List.Forall₂ (fun a group => a.Same (Attributes.combineAll group)) (k.received log' u)
        groups →
      (∀ a, a ∈ groups.flatten ↔ a ∈ g.received log t) →
      (g'.attributes t).Same (k'.attributes u) := by
  refine ⟨⟨Attributes.combine_comm, Attributes.combine_assoc, fun a => ?_,
    Attributes.makeInferred_combine, fun a a' b b' ha hb => ⟨ha.combine hb, ha.makeInferred⟩⟩,
    fun g log g' h t => h.attributes_eq t, ?_⟩
  · exact ⟨Attributes.combine_self a, Attributes.combine_empty a, Attributes.empty_combine a⟩
  · intro g log g' k log' k' h h' t u groups hgroups hmem
    exact h.attributes_same h' hgroups hmem

/-- Numbers from zero. -/
def fromZero (negative : Bool) : Attributes :=
  { Attributes.empty with range := some ⟨some ⟨negative, 0⟩, none⟩ }

/-- Two lower bounds that are zeros of either sign, given one by one and combined the other way
round: which of them is kept differs, and no value does. -/
theorem attributes_joined_zeros :
    ∃ log g log' k,
      perform? .empty [.share (.primitive .double) (fromZero false),
        .addAttributes 0 (fromZero true)] = some (log, g) ∧
      perform? .empty [.share (.primitive .string) .empty,
        .share (.primitive .double) ((fromZero true).combine (fromZero false))] = some (log', k) ∧
      g.attributes 0 = fromZero false ∧ k.attributes 1 = fromZero true ∧
      (g.attributes 0).Same (k.attributes 1) := by
  have hfirst : (perform? .empty [.share (.primitive .double) (fromZero false),
      .addAttributes 0 (fromZero true)]).map
        (fun done => (done.2.attributes 0, received .empty done.1 0)) =
      some (fromZero false, [fromZero false, fromZero true]) := by decide +kernel
  have hsecond : (perform? .empty [.share (.primitive .string) .empty,
      .share (.primitive .double) ((fromZero true).combine (fromZero false))]).map
        (fun done => (done.2.attributes 1, received .empty done.1 1)) =
      some (fromZero true, [(fromZero true).combine (fromZero false)]) := by decide +kernel
  obtain ⟨⟨log, g⟩, hg, heq⟩ := Option.map_eq_some_iff.1 hfirst
  obtain ⟨⟨log', k⟩, hk, heq'⟩ := Option.map_eq_some_iff.1 hsecond
  obtain ⟨hends, hreceived⟩ := Prod.mk.inj heq
  obtain ⟨hends', hreceived'⟩ := Prod.mk.inj heq'
  refine ⟨log, g, log', k, hg, hk, hends, hends', ?_⟩
  refine attributes_joined.2.2 _ _ _ _ _ _ (runs_of_perform? hg) (runs_of_perform? hk) 0 1
    [[fromZero true, fromZero false]] ?_ fun a => ?_
  · exact hreceived' ▸ .cons (.refl _) .nil
  · exact hreceived ▸ (List.Perm.swap (fromZero false) (fromZero true) []).mem_iff

end Graph

end JsonTyping
