import JsonTyping.Proofs.GraphCalls

/-!
# Canonical nodes

Equal shapes are shared by one node. Whenever a shape is asked for, before or after other calls, the
answer is the same node, and it is another one than for any other shape or than any fresh node. That
rests on an invariant of all runs (`Graph.Canonical`): shared nodes have their members, so no shape
that is shared ever changes (`Graph.nodes_canonical`).
-/

namespace JsonTyping

/-- The second shape is the first one, or the first one with the members that it did not have. -/
def Shape.Becomes (s s' : Shape) : Prop :=
  s' = s ∨ (s = .union none ∧ ∃ members, s' = .union (some members)) ∨
    s = .intersection none ∧ ∃ members, s' = .intersection (some members)

/-- A shape that has its members stays as it is. -/
theorem Shape.Becomes.eq_of_isFilled {s s' : Shape} (h : s.Becomes s') (hs : s.IsFilled) :
    s' = s := by
  rcases h with h | ⟨h, -⟩ | ⟨h, -⟩
  · exact h
  · exact absurd h hs.1
  · exact absurd h hs.2

theorem Shape.Becomes.trans {s s' s'' : Shape} (h : s.Becomes s') (h' : s'.Becomes s'') :
    s.Becomes s'' := by
  rcases h with rfl | ⟨rfl, members, rfl⟩ | ⟨rfl, members, rfl⟩
  · exact h'
  · obtain rfl := h'.eq_of_isFilled ⟨nofun, nofun⟩
    exact .inr (.inl ⟨rfl, members, rfl⟩)
  · obtain rfl := h'.eq_of_isFilled ⟨nofun, nofun⟩
    exact .inr (.inr ⟨rfl, members, rfl⟩)

/-- The shape whose shared node a call asks for. A union of one member is only that member, and
there is none without members. -/
def GraphCall.shape? : GraphCall → Option Shape
  | share s _ => some s
  | union members _ => if members.size ≤ 1 then none else some (.union (some members))
  | _ => none

def GraphCall.isFresh : GraphCall → Bool
  | fresh .. => true
  | _ => false

namespace Graph

/-- A call asked for the shared node of the shape and got that node. -/
def Interned (log : List (GraphCall × NodeId)) (s : Shape) (t : NodeId) : Prop :=
  ∃ c, (c, t) ∈ log ∧ c.shape? = some s

/-- A call asked for a fresh node and got that one. -/
def Separate (log : List (GraphCall × NodeId)) (t : NodeId) : Prop :=
  ∃ c, (c, t) ∈ log ∧ c.isFresh = true

variable {g g' : Graph} {c : GraphCall} {log log' : List (GraphCall × NodeId)} {s : Shape}
  {t u : NodeId}

theorem interned_concat : Interned (log ++ [(c, t)]) s u ↔
    Interned log s u ∨ u = t ∧ c.shape? = some s := by
  constructor
  · rintro ⟨d, hmem, hd⟩
    rcases List.mem_append.1 hmem with hmem | hmem
    · exact .inl ⟨d, hmem, hd⟩
    · obtain ⟨rfl, rfl⟩ := Prod.mk.inj (List.mem_singleton.1 hmem)
      exact .inr ⟨rfl, hd⟩
  · rintro (⟨d, hmem, hd⟩ | ⟨rfl, hc⟩)
    · exact ⟨d, List.mem_append_left _ hmem, hd⟩
    · exact ⟨c, List.mem_append_right _ (List.mem_singleton_self _), hc⟩

theorem separate_concat (h : Separate (log ++ [(c, t)]) u) :
    Separate log u ∨ u = t ∧ c.isFresh = true := by
  obtain ⟨d, hmem, hd⟩ := h
  rcases List.mem_append.1 hmem with hmem | hmem
  · exact .inl ⟨d, hmem, hd⟩
  · obtain ⟨rfl, rfl⟩ := Prod.mk.inj (List.mem_singleton.1 hmem)
    exact .inr ⟨rfl, hd⟩

/-- What a call does to shapes: nothing, one node more, or members for a node without. -/
inductive Effect (g : Graph) (c : GraphCall) (t : NodeId) (g' : Graph) : Prop
  | kept (hsize : g'.size = g.size) (hshape : ∀ u, g'.shape u = g.shape u)
    (hshared : ∀ u, g'.isShared u = g.isShared u)
    (hasked : ∀ s, c.shape? = some s → g.shared? s = some t) (hfresh : c.isFresh = false)
  | added (node : Node) (ht : t = g.size) (hg' : g' = { g with nodes := g.nodes.push node })
    (hasked : c.shape? = if node.shared then some node.shape else none)
    (hfresh : c.isFresh = !node.shared)
    (hfree : node.shared = true → g.shared? node.shape = none ∧ node.shape.IsFilled)
    (hparts : ∀ u ∈ node.shape.parts, u < g.size)
  | filled (members : SortedSet NodeId) (hc : c = .setMembers t members)
    (hset : g.setMembers t members = .ok g') (hmembers : ∀ u ∈ members.toList, u < g.size)

theorem effect_addAttributes (a : Attributes)
    (hasked : ∀ s, c.shape? = some s → g.shared? s = some t) (hfresh : c.isFresh = false) :
    Effect g c t (g.addAttributes t a) :=
  .kept (size_addAttributes g t a) (shape_addAttributes g t a) (isShared_addAttributes g t a)
    hasked hfresh

theorem effect_share (hc : c.shape? = some s) (hfilled : s.IsFilled)
    (hparts : ∀ u ∈ s.parts, u < g.size) (hfresh : c.isFresh = false) (a : Attributes) :
    Effect g c (g.share s a).2 (g.share s a).1 := by
  unfold share
  split
  · next t ht =>
    refine effect_addAttributes a (fun s' hs' => ?_) hfresh
    obtain rfl := Option.some.inj (hc.symm.trans hs')
    exact ht
  · next hnone => exact .added ⟨s, a, true⟩ rfl rfl hc hfresh (fun _ => ⟨hnone, hfilled⟩) hparts

theorem effect_of_run (hvalid : c.Valid g) (h : c.run g = .ok (g', t)) : Effect g c t g' := by
  cases c with
  | share s a =>
    obtain ⟨rfl, rfl⟩ := Prod.mk.inj (Except.ok.inj h)
    exact effect_share rfl hvalid.2 hvalid.1 rfl a
  | union members a =>
    change g.union members a = .ok (g', t) at h
    unfold union at h
    split at h
    · cases h
    · next only honly =>
      obtain ⟨rfl, rfl⟩ := Prod.mk.inj (Except.ok.inj h)
      refine effect_addAttributes a (fun s hs => ?_) rfl
      have hone : members.size = 1 := by rw [SortedSet.size, honly, List.length_singleton]
      rw [GraphCall.shape?, if_pos (Nat.le_of_eq hone)] at hs
      cases hs
    · next hnone hmany =>
      obtain ⟨rfl, rfl⟩ := Prod.mk.inj (Except.ok.inj h)
      have hsize : ¬members.size ≤ 1 := fun hle => by
        rcases Nat.le_one_iff_eq_zero_or_eq_one.1 hle with hzero | hone
        · exact hnone (List.length_eq_zero_iff.1 hzero)
        · obtain ⟨only, honly⟩ := List.length_eq_one_iff.1 hone
          exact hmany only honly
      have hc : (GraphCall.union members a).shape? = some (.union (some members)) := if_neg hsize
      exact effect_share hc ⟨nofun, nofun⟩ hvalid.1 rfl a
  | fresh s a =>
    obtain ⟨rfl, rfl⟩ := Prod.mk.inj (Except.ok.inj h)
    exact .added ⟨s, a, false⟩ rfl rfl rfl rfl nofun hvalid.1
  | setMembers v members =>
    obtain ⟨h', hset, heq⟩ := bind_eq_ok.1 h
    obtain ⟨rfl, rfl⟩ := Prod.mk.inj (Except.ok.inj heq)
    exact .filled members rfl hset fun u hu => hvalid.1 u (List.mem_cons_of_mem v hu)
  | addAttributes v a =>
    obtain ⟨rfl, rfl⟩ := Prod.mk.inj (Except.ok.inj h)
    exact effect_addAttributes a (fun s hs => by cases hs) rfl
  | publish name v =>
    obtain ⟨rfl, rfl⟩ := Prod.mk.inj (Except.ok.inj h)
    have hnodes := nodes_publish g name v
    refine .kept ?_ (fun u => ?_) (fun u => ?_) (fun s hs => by cases hs) rfl
    · rw [size, hnodes, size]
    · rw [shape, hnodes, shape]
    · rw [isShared, hnodes, isShared]

/-- A call leaves a shape as it is or gives it its members. -/
theorem Effect.becomes (h : Effect g c t g') (hu : u < g.size) :
    (g.shape u).Becomes (g'.shape u) := by
  cases h with
  | kept _ hshape => exact .inl (hshape u)
  | added node _ hg' => exact .inl (by rw [hg', shape_push, if_neg (Nat.ne_of_lt hu)])
  | filled members _ hset =>
    obtain ⟨-, hother, hnode⟩ := setMembers_spec hset
    by_cases hut : u = t
    · subst hut
      exact .inr (hnode.imp (fun h => ⟨h.1, members, h.2⟩) fun h => ⟨h.1, members, h.2⟩)
    · exact .inl (hother u hut)

theorem Effect.size_le (h : Effect g c t g') : g.size ≤ g'.size := by
  cases h with
  | kept hsize => exact Nat.le_of_eq hsize.symm
  | added node _ hg' => exact hg' ▸ (extends_push g node).size
  | filled _ _ hset => exact Nat.le_of_eq (setMembers_spec hset).1.symm

/-! ### Shared nodes -/

theorem shared?_congr
    (h : ∀ u, g'.isShared u = true ∧ g'.shape u = s ↔ g.isShared u = true ∧ g.shape u = s) :
    g'.shared? s = g.shared? s := by
  refine Option.ext fun t => ?_
  simp only [shared?_eq_some_iff, h]

theorem shared?_push (g : Graph) (node : Node) (s : Shape) :
    ({ g with nodes := g.nodes.push node } : Graph).shared? s =
      (g.shared? s).or (if node.shared = true ∧ node.shape = s then some g.size else none) := by
  simp only [shared?, Array.findIdx?_push, Bool.and_eq_true, beq_iff_eq]
  rfl

/-- What holds of a graph after all the calls of a log: the nodes that were asked for are the shared
ones, one for each shape. They have their members, and every part is there. -/
structure Canonical (log : List (GraphCall × NodeId)) (g : Graph) : Prop where
  interned : ∀ s t, Interned log s t ↔ g.shared? s = some t
  filled : ∀ t, g.isShared t = true → (g.shape t).IsFilled
  parts : ∀ t, ∀ u ∈ (g.shape t).parts, u < g.size
  separate : ∀ t, Separate log t → t < g.size ∧ g.isShared t = false

theorem canonical_empty : Canonical [] .empty where
  interned s t := by
    constructor
    · rintro ⟨c, hmem, -⟩
      cases hmem
    · intro h
      exact absurd (lt_size_of_isShared (isShared_of_shared? h)) (Nat.not_lt_zero t)
  filled t ht := by cases ht
  parts t u hu := by cases hu
  separate t := by
    rintro ⟨c, hmem, -⟩
    cases hmem

theorem Canonical.kept (hcanonical : Canonical log g) (hsize : g'.size = g.size)
    (hshape : ∀ u, g'.shape u = g.shape u) (hshared : ∀ u, g'.isShared u = g.isShared u)
    (hasked : ∀ s, c.shape? = some s → g.shared? s = some t) (hfresh : c.isFresh = false) :
    Canonical (log ++ [(c, t)]) g' where
  interned s u := by
    have hsame : g'.shared? s = g.shared? s := shared?_congr fun u => by rw [hshape, hshared]
    rw [interned_concat, hcanonical.interned, hsame, or_iff_left_iff_imp]
    rintro ⟨rfl, hc⟩
    exact hasked s hc
  filled u hu := by
    rw [hshape]
    exact hcanonical.filled u (hshared u ▸ hu)
  parts u v hv := by
    rw [hsize]
    exact hcanonical.parts u v (hshape u ▸ hv)
  separate u hu := by
    rw [hsize, hshared]
    rcases separate_concat hu with hu | ⟨-, hc⟩
    · exact hcanonical.separate u hu
    · rw [hfresh] at hc
      cases hc

theorem Canonical.added (hcanonical : Canonical log g) {node : Node}
    (hasked : c.shape? = if node.shared then some node.shape else none)
    (hfresh : c.isFresh = !node.shared)
    (hfree : node.shared = true → g.shared? node.shape = none ∧ node.shape.IsFilled)
    (hparts : ∀ u ∈ node.shape.parts, u < g.size) :
    Canonical (log ++ [(c, g.size)]) { g with nodes := g.nodes.push node } where
  interned s u := by
    rw [interned_concat, hcanonical.interned, shared?_push, hasked]
    by_cases hs : node.shared = true ∧ node.shape = s
    · obtain ⟨hshared, rfl⟩ := hs
      rw [(hfree hshared).1, if_pos hshared, if_pos ⟨hshared, rfl⟩, Option.none_or]
      simp [eq_comm]
    · rw [if_neg hs, Option.or_none, or_iff_left_iff_imp]
      rintro ⟨-, hnew⟩
      obtain ⟨hshared, heq⟩ := Option.ite_none_right_eq_some.1 hnew
      exact absurd ⟨hshared, Option.some.inj heq⟩ hs
  filled u hu := by
    rw [isShared_push] at hu
    rw [shape_push]
    by_cases hlast : u = g.size
    · rw [if_pos hlast] at hu ⊢
      exact (hfree hu).2
    · rw [if_neg hlast] at hu ⊢
      exact hcanonical.filled u hu
  parts u v hv := by
    rw [shape_push] at hv
    refine Nat.lt_of_lt_of_le ?_ (extends_push g node).size
    by_cases hlast : u = g.size
    · rw [if_pos hlast] at hv
      exact hparts v hv
    · rw [if_neg hlast] at hv
      exact hcanonical.parts u v hv
  separate u hu := by
    have hsize : g.size < ({ g with nodes := g.nodes.push node } : Graph).size := by
      simp only [size, Array.size_push]
      exact Nat.lt_succ_self _
    rw [isShared_push]
    rcases separate_concat hu with hu | ⟨rfl, hc⟩
    · obtain ⟨hlt, hnot⟩ := hcanonical.separate u hu
      rw [if_neg (Nat.ne_of_lt hlt)]
      exact ⟨Nat.lt_trans hlt hsize, hnot⟩
    · rw [hfresh, Bool.not_eq_true'] at hc
      rw [if_pos rfl]
      exact ⟨hsize, hc⟩

/-- Members are set of nodes that are not shared, so no shape that was asked for changes. -/
theorem Canonical.setMembers (hcanonical : Canonical log g) {members : SortedSet NodeId}
    (hset : g.setMembers t members = .ok g') (hmembers : ∀ u ∈ members.toList, u < g.size) :
    Canonical (log ++ [(.setMembers t members, t)]) g' := by
  obtain ⟨hsize, hother, hnode⟩ := setMembers_spec hset
  obtain ⟨-, -, hparts⟩ := filled_setMembers hset
  have hisShared := isShared_setMembers hset
  have hnot : g.isShared t = false := by
    rw [Bool.eq_false_iff]
    intro ht
    rcases hnode with ⟨hempty, -⟩ | ⟨hempty, -⟩
    · exact (hcanonical.filled t ht).1 hempty
    · exact (hcanonical.filled t ht).2 hempty
  have hkeeps := keepsShared_setMembers hset hnot
  refine ⟨fun s u => ?_, fun u hu => ?_, fun u v hv => ?_, fun u hu => ?_⟩
  · have hsame : g'.shared? s = g.shared? s := shared?_congr fun u => by
      rw [hisShared]
      exact and_congr_right fun hu => by rw [hkeeps.shape u hu]
    rw [interned_concat, hcanonical.interned, hsame, or_iff_left_iff_imp]
    rintro ⟨-, hc⟩
    cases hc
  · rw [hisShared] at hu
    rw [hkeeps.shape u hu]
    exact hcanonical.filled u hu
  · rw [hsize]
    by_cases hut : u = t
    · subst hut
      exact hmembers v (hparts ▸ hv)
    · exact hcanonical.parts u v (hother u hut ▸ hv)
  · rw [hsize, hisShared]
    rcases separate_concat hu with hu | ⟨-, hc⟩
    · exact hcanonical.separate u hu
    · cases hc

/-- One more call keeps the graph canonical. -/
theorem Canonical.run (hcanonical : Canonical log g) (hvalid : c.Valid g)
    (h : c.run g = .ok (g', t)) : Canonical (log ++ [(c, t)]) g' := by
  cases effect_of_run hvalid h with
  | kept hsize hshape hshared hasked hfresh =>
    exact hcanonical.kept hsize hshape hshared hasked hfresh
  | added node ht hg' hasked hfresh hfree hparts =>
    subst ht hg'
    exact hcanonical.added hasked hfresh hfree hparts
  | filled members hc hset hmembers =>
    subst hc
    exact hcanonical.setMembers hset hmembers

theorem Runs.canonical (h : Runs .empty log g) : Canonical log g := by
  induction h with
  | nil => exact canonical_empty
  | concat _ hvalid hrun ih => exact ih.run hvalid hrun

theorem Runs.size_le (h : Runs g log g') : g.size ≤ g'.size := by
  induction h with
  | nil => exact Nat.le_refl _
  | concat _ hvalid hrun ih => exact Nat.le_trans ih (effect_of_run hvalid hrun).size_le

/-- Whatever the calls are, a shape only ever gets its members. -/
theorem Runs.becomes (h : Runs g log g') (ht : t < g.size) :
    (g.shape t).Becomes (g'.shape t) := by
  induction h with
  | nil => exact .inl rfl
  | concat hruns hvalid hrun ih =>
    exact ih.trans ((effect_of_run hvalid hrun).becomes (Nat.lt_of_lt_of_le ht hruns.size_le))

/-! ### Answers -/

/-- A call that asks for a shared node gets one. -/
theorem exists_run_of_shape? (g : Graph) (hc : c.shape? = some s) :
    ∃ g' t, c.run g = .ok (g', t) := by
  cases c with
  | share s a => exact ⟨_, _, rfl⟩
  | union members a =>
    obtain ⟨hmany, -⟩ := Option.ite_none_left_eq_some.1 hc
    have hne : members.toList ≠ [] := fun hnil => hmany <| by
      rw [SortedSet.size, hnil]
      exact Nat.zero_le 1
    obtain ⟨g', t, hunion, -⟩ := union_spec g hne a
    exact ⟨g', t, hunion⟩
  | _ => cases hc

theorem run_union_of_single (g : Graph) {members : SortedSet NodeId} (h : members.toList = [t])
    (a : Attributes) : ∃ g', (GraphCall.union members a).run g = .ok (g', t) := by
  rw [GraphCall.run, union, h]
  exact ⟨_, rfl⟩

theorem Canonical.eq_iff_eq (hcanonical : Canonical log g) {s' : Shape} (h : Interned log s t)
    (h' : Interned log s' u) : t = u ↔ s = s' := by
  rw [hcanonical.interned] at h h'
  constructor
  · rintro rfl
    exact (shape_of_shared? h).symm.trans (shape_of_shared? h')
  · rintro rfl
    exact Option.some.inj (h.symm.trans h')

theorem Canonical.not_interned (hcanonical : Canonical log g) (h : Separate log t) :
    t < g.size ∧ ∀ s, ¬Interned log s t := by
  obtain ⟨hlt, hnot⟩ := hcanonical.separate t h
  refine ⟨hlt, fun s hs => ?_⟩
  rw [isShared_of_shared? ((hcanonical.interned s t).1 hs)] at hnot
  cases hnot

/-- In every graph that calls can build, each shape that was asked for has its node, all parts are
there, and asking again gives the node of the same shape and of no other one. A union of one member
is that member. Fresh nodes are never shared, and a shape only ever gets its members. -/
theorem nodes_canonical (h : Runs .empty log g) :
    (∀ s t, Interned log s t ↔ g.shared? s = some t) ∧
      (∀ s t, Interned log s t → t < g.size ∧ g.shape t = s) ∧
      (∀ t, ∀ u ∈ (g.shape t).parts, u < g.size) ∧
      (∀ (c : GraphCall) s, c.Valid g → c.shape? = some s →
        ∃ g' t, c.run g = .ok (g', t) ∧ ∀ s' t', Interned log s' t' → (t' = t ↔ s' = s)) ∧
      (∀ members a t, members.toList = [t] →
        ∃ g', (GraphCall.union members a).run g = .ok (g', t)) ∧
      (∀ t, Separate log t → t < g.size ∧ ∀ s, ¬Interned log s t) ∧
      ∀ log' g', Runs g log' g' → ∀ t < g.size, (g.shape t).Becomes (g'.shape t) := by
  have hcanonical := h.canonical
  refine ⟨hcanonical.interned, fun s t hs => ?_, hcanonical.parts, fun c s hvalid hc => ?_,
    fun members a t hone => run_union_of_single g hone a, fun t => hcanonical.not_interned,
    fun log' g' hruns t ht => hruns.becomes ht⟩
  · have ht := (hcanonical.interned s t).1 hs
    exact ⟨lt_size_of_isShared (isShared_of_shared? ht), shape_of_shared? ht⟩
  · obtain ⟨g', t, hrun⟩ := exists_run_of_shape? g hc
    have hnew : Interned (log ++ [(c, t)]) s t := interned_concat.2 (.inr ⟨rfl, hc⟩)
    refine ⟨g', t, hrun, fun s' t' hs' => ?_⟩
    exact (hcanonical.run hvalid hrun).eq_iff_eq (interned_concat.2 (.inl hs')) hnew

/-- A list of texts or of such lists. The array is shared while the union waits for its members. -/
def nestedLists : List GraphCall :=
  [.share (.primitive .string) .empty, .fresh (.union none) .empty, .share (.array 1) .empty,
    .setMembers 1 (.ofList [0, 2])]

theorem nodes_canonical_cycle :
    ∃ log g, perform? .empty nestedLists = some (log, g) ∧
      g.shape 1 = .union (some (.ofList [0, 2])) ∧
      (∃ g', (GraphCall.share (.array 1) .empty).run g = .ok (g', 2)) ∧
      ∀ s, ¬Interned log s 1 := by
  have hcalls : (perform? .empty nestedLists).map (fun done =>
      (done.1, done.2.shape 1, decide ((GraphCall.share (.array 1) .empty).Valid done.2))) =
      some (nestedLists.zip [0, 1, 2, 1], .union (some (.ofList [0, 2])), true) := by
    decide +kernel
  obtain ⟨⟨log, g⟩, hperformed, heq⟩ := Option.map_eq_some_iff.1 hcalls
  obtain ⟨rfl, hshape, hvalid⟩ := by simpa only [Prod.mk.injEq, decide_eq_true_eq] using heq
  obtain ⟨-, -, -, hagain, -, hseparate, -⟩ := nodes_canonical (runs_of_perform? hperformed)
  have harray : Interned (nestedLists.zip [0, 1, 2, 1]) (.array 1) 2 :=
    ⟨.share (.array 1) .empty, by simp [nestedLists], rfl⟩
  have hunion : Separate (nestedLists.zip [0, 1, 2, 1]) 1 :=
    ⟨.fresh (.union none) .empty, by simp [nestedLists], rfl⟩
  obtain ⟨g', t, hrun, ht⟩ := hagain _ _ hvalid rfl
  obtain rfl : 2 = t := (ht _ _ harray).2 rfl
  exact ⟨_, g, hperformed, hshape, ⟨g', hrun⟩, (hseparate 1 hunion).2⟩

end Graph

end JsonTyping
