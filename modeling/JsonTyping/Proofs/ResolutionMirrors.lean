import JsonTyping.Proofs.InferenceMirrors
import JsonTyping.Proofs.ReferenceRuns

/-!
# The same resolution over two graphs

Where the nodes of two graphs are related one to one, and related nodes have corresponding shapes or
both wait for their members (`Inference.Alongside`), the resolution of the same references goes the
same way in both: it goes through related nodes, and ends with the same refusal or with related
types (`Inference.ResolveEnds.alike`). Nodes that are not related are never met.
-/

namespace JsonTyping

/-- The element of a list that has no other. -/
def only? {α : Type} : List α → Option α
  | [a] => some a
  | _ => none

theorem Paired.only? {α β : Type} {R : α → β → Prop} {l : List α} {k : List β} (h : Paired R l k)
    (hlength : l.length = k.length) : Option.Rel R (only? l) (only? k) := by
  match l, k, hlength with
  | [], [], _ => exact .none
  | [a], [b], _ =>
    obtain ⟨c, hc, hac⟩ := h.1 a (List.mem_singleton_self a)
    obtain rfl := List.mem_singleton.1 hc
    exact .some hac
  | _ :: _ :: _, _ :: _ :: _, _ => exact .none

namespace Graph

variable {R : NodeId → NodeId → Prop} {g g' : Graph} {t u : NodeId}

/-- Both nodes wait for their members, or their shapes correspond. -/
def ShapesAlike (R : NodeId → NodeId → Prop) (s s' : Shape) : Prop :=
  s = .intersection none ∧ s' = .intersection none ∨ Corresponds R s s'

theorem ShapesAlike.intersection_none {s s' : Shape} (h : ShapesAlike R s s') :
    s = .intersection none ↔ s' = .intersection none := by
  rcases h with ⟨rfl, rfl⟩ | h
  · exact Iff.rfl
  · cases h <;> exact iff_of_false nofun nofun

theorem ShapesAlike.union {s s' : Shape} (h : ShapesAlike R s s') :
    (∃ members, s = .union members) ↔ ∃ members, s' = .union members := by
  rcases h with ⟨rfl, rfl⟩ | h
  · exact Iff.rfl
  · cases h with
    | union => exact iff_of_true ⟨_, rfl⟩ ⟨_, rfl⟩
    | _ => exact iff_of_false nofun nofun

theorem ShapesAlike.primitive?_eq {s s' : Shape} (h : ShapesAlike R s s') :
    s.primitive? = s'.primitive? := by
  rcases h with ⟨rfl, rfl⟩ | h
  · rfl
  · cases h <;> rfl

theorem SameProperties.find? {p q : SortedMap String Property} (h : SameProperties R p q)
    (name : String) : Option.Rel (fun a b => R a.type b.type) (p.find? name) (q.find? name) := by
  have hlookup : ∀ l k : List (String × Property),
      List.Forall₂ (fun e f : String × Property =>
        e.1 = f.1 ∧ e.2.optional = f.2.optional ∧ R e.2.type f.2.type) l k →
      Option.Rel (fun a b => R a.type b.type) (l.lookup name) (k.lookup name) := by
    intro l k hlk
    induction hlk with
    | nil => exact .none
    | @cons e f l k hef _ ih =>
      obtain ⟨key, e⟩ := e
      obtain ⟨key', f⟩ := f
      obtain rfl : key = key' := hef.1
      rw [SortedMap.lookup_cons_eq, SortedMap.lookup_cons_eq]
      split
      · exact .some hef.2.2
      · exact ih
  exact hlookup p.entries q.entries h

/-- One segment leads from related types to related ones, or is refused for the same reason. -/
theorem step_alike (h : ShapesAlike R (g.shape t) (g'.shape u)) (segment : String) :
    (∃ problem, Inference.step g t segment = .error problem ∧
      Inference.step g' u segment = .error problem) ∨
    ∃ v w, Inference.step g t segment = .ok v ∧ Inference.step g' u segment = .ok w ∧ R v w := by
  have hmember : ∀ {p q : SortedMap String Property}, SameProperties R p q →
      p.find? segment = none ∧ q.find? segment = none ∨
        ∃ a b, p.find? segment = some a ∧ q.find? segment = some b ∧ R a.type b.type := by
    intro p q hpq
    have hfound := hpq.find? segment
    cases ha : p.find? segment <;> cases hb : q.find? segment <;> rw [ha, hb] at hfound <;>
      cases hfound
    · exact .inl ⟨rfl, rfl⟩
    · next hab => exact .inr ⟨_, _, rfl, rfl, hab⟩
  unfold Inference.step
  generalize g.shape t = s, g'.shape u = s' at h ⊢
  rcases h with ⟨rfl, rfl⟩ | h
  · exact .inl ⟨_, rfl, rfl⟩
  · cases h with
    | array h =>
      dsimp only
      split
      · exact .inl ⟨_, rfl, rfl⟩
      · exact .inr ⟨_, _, rfl, rfl, h⟩
    | record h | object h _ =>
      rcases hmember h with ⟨ha, hb⟩ | ⟨a, b, ha, hb, hab⟩
      · exact .inl ⟨.missingProperty segment, by simp only [ha], by simp only [hb]⟩
      · exact .inr ⟨a.type, b.type, by simp only [ha], by simp only [hb], hab⟩
    | map h => exact .inr ⟨_, _, rfl, rfl, h⟩
    | _ => exact .inl ⟨_, rfl, rfl⟩

theorem nullableInner?_of_union {members : SortedSet NodeId}
    (h : g.shape t = .union (some members)) : g.nullableInner? t =
      if members.toList.length = 2 then
        only? (members.toList.filter fun m => g.primitive? m != some .null)
      else none := by
  simp only [Graph.nullableInner?, h]
  split
  · next a b inner hl hinner => rw [hinner, hl]; rfl
  · next hother =>
    split
    · next htwo =>
      obtain ⟨a, b, hl⟩ := List.length_eq_two.1 htwo
      match hinner : members.toList.filter fun m => g.primitive? m != some .null with
      | [] => rfl
      | [inner] => exact absurd hinner (hother a b inner hl)
      | _ :: _ :: _ => rfl
    · rfl

theorem behind?_of_intersection {members : SortedSet NodeId}
    (h : g.shape t = .intersection (some members)) : g.behind? t = only? members.toList := by
  simp only [behind?, h]
  rcases members.toList with _ | ⟨a, _ | ⟨b, rest⟩⟩ <;> rfl

section Through

variable (hR : Relator.BiUnique R)
  (hshapes : ∀ t u, R t u → ShapesAlike R (g.shape t) (g'.shape u))

include hR hshapes

/-- As many of the members are not `null`, so related unions are nullable or not together. -/
theorem nullableInner?_alike (htu : R t u) :
    Option.Rel R (g.nullableInner? t) (g'.nullableInner? u) := by
  have h := hshapes t u htu
  generalize hl : g.shape t = s, hk : g'.shape u = s' at h
  rcases h with ⟨rfl, rfl⟩ | h
  · simp only [Graph.nullableInner?, hl, hk]
    exact .none
  · cases h with
    | @union l k hlk =>
      have hprimitive : ∀ v w, R v w → g.primitive? v = g'.primitive? w := fun v w hvw =>
        (hshapes v w hvw).primitive?_eq
      have hinner : Paired R (l.toList.filter fun m => g.primitive? m != some .null)
          (k.toList.filter fun m => g'.primitive? m != some .null) := by
        refine ⟨fun v hv => ?_, fun w hw => ?_⟩
        · obtain ⟨hmem, hne⟩ := List.mem_filter.1 hv
          obtain ⟨w, hw, hvw⟩ := hlk.1 v hmem
          exact ⟨w, List.mem_filter.2 ⟨hw, hprimitive v w hvw ▸ hne⟩, hvw⟩
        · obtain ⟨hmem, hne⟩ := List.mem_filter.1 hw
          obtain ⟨v, hv, hvw⟩ := hlk.2 w hmem
          exact ⟨v, List.mem_filter.2 ⟨hv, (hprimitive v w hvw).symm ▸ hne⟩, hvw⟩
      have hlength := hlk.length_eq hR l.nodup k.nodup
      have hlength' := hinner.length_eq hR (l.nodup.filter _) (k.nodup.filter _)
      rw [nullableInner?_of_union hl, nullableInner?_of_union hk, hlength]
      split
      · exact hinner.only? hlength'
      · exact .none
    | _ =>
      simp only [Graph.nullableInner?, hl, hk]
      exact .none

theorem behind?_alike (htu : R t u) : Option.Rel R (g.behind? t) (g'.behind? u) := by
  have h := hshapes t u htu
  have hnullable := nullableInner?_alike hR hshapes htu
  generalize hl : g.shape t = s, hk : g'.shape u = s' at h
  rcases h with ⟨rfl, rfl⟩ | h
  · simp only [behind?, hl, hk]
    exact .none
  · cases h with
    | union =>
      simp only [behind?, hl, hk]
      exact hnullable
    | @intersection l k hlk =>
      rw [behind?_of_intersection hl, behind?_of_intersection hk]
      exact hlk.only? (hlk.length_eq hR l.nodup k.nodup)
    | _ =>
      simp only [behind?, hl, hk]
      exact .none

end Through

end Graph

namespace Inference

variable {R : NodeId → NodeId → Prop} {s s' : Inference} {t u : NodeId}

/-! ### States side by side -/

/-- The same references are pending in both states, and related nodes have the same shapes. -/
structure Alongside (R : NodeId → NodeId → Prop) (s s' : Inference) : Prop where
  unique : Relator.BiUnique R
  shapes : ∀ t u, R t u → Graph.ShapesAlike R (s.graph.shape t) (s'.graph.shape u)
  pending : SamePending R s.pending s'.pending

theorem Mirrored.alongside (h : Mirrored R s s') : Alongside R s s' where
  unique := h.unique
  shapes t u htu := by
    rcases h.nodes t u htu with hempty | ⟨p, p', ht, hu, hp⟩
    · exact .inl hempty
    · rw [Graph.shape_of_shared? ht, Graph.shape_of_shared? hu]
      exact .inr hp
  pending := h.pending

section Pending

variable (hR : Relator.BiUnique R) {p q : SortedMap NodeId (SortedSet String)}

include hR

theorem SamePending.find?_eq (h : SamePending R p q) (htu : R t u) : p.find? t = q.find? u := by
  have hlookup : ∀ l k : List (NodeId × SortedSet String),
      List.Forall₂ (fun e f => R e.1 f.1 ∧ e.2 = f.2) l k → l.lookup t = k.lookup u := by
    intro l k hlk
    induction hlk with
    | nil => rfl
    | @cons e f l k hef _ ih =>
      obtain ⟨v, targets⟩ := e
      obtain ⟨w, targets'⟩ := f
      obtain ⟨hvw, rfl⟩ : R v w ∧ targets = targets' := hef
      have heq : t = v ↔ u = w := Relator.rel_eq hR htu hvw
      rw [SortedMap.lookup_cons_eq, SortedMap.lookup_cons_eq, ih, if_congr heq rfl rfl]
  exact hlookup p.entries q.entries h

theorem SamePending.erase (h : SamePending R p q) (htu : R t u) :
    SamePending R (p.erase t) (q.erase u) := by
  have hfilter : ∀ l k : List (NodeId × SortedSet String),
      List.Forall₂ (fun e f => R e.1 f.1 ∧ e.2 = f.2) l k →
      List.Forall₂ (fun e f => R e.1 f.1 ∧ e.2 = f.2) (l.filter (·.1 != t))
        (k.filter (·.1 != u)) := by
    intro l k hlk
    induction hlk with
    | nil => exact .nil
    | @cons e f l k hef _ ih =>
      have hsame : (e.1 != t) = (f.1 != u) := by
        rw [Bool.eq_iff_iff, bne_iff_ne, bne_iff_ne]
        exact not_congr (Relator.rel_eq hR hef.1 htu)
      rw [List.filter_cons, List.filter_cons, hsame]
      split
      · exact .cons hef ih
      · exact ih
  exact hfilter p.entries q.entries h

end Pending

theorem Alongside.erase (h : Alongside R s s') (htu : R t u) :
    Alongside R { s with pending := s.pending.erase t }
      { s' with pending := s'.pending.erase u } where
  unique := h.unique
  shapes := h.shapes
  pending := h.pending.erase h.unique htu

theorem Alongside.setMembers (h : Alongside R s s') (htu : R t u) {members members' : List NodeId}
    (hmembers : List.Forall₂ R members members') {g g' : Graph}
    (hg : s.graph.setMembers t (.ofList members) = .ok g)
    (hg' : s'.graph.setMembers u (.ofList members') = .ok g') :
    Alongside R { s with graph := g } { s' with graph := g' } where
  unique := h.unique
  shapes := by
    obtain ⟨-, hother, hnew⟩ := Graph.setMembers_spec hg
    obtain ⟨-, hother', hnew'⟩ := Graph.setMembers_spec hg'
    have hset : Graph.ShapesAlike R (g.shape t) (g'.shape u) := by
      have hbefore := h.shapes t u htu
      have hpaired := (paired_of_forall₂ hmembers).ofList
      rcases hnew with ⟨hold, -⟩ | ⟨hold, hnew⟩
      · rw [hold] at hbefore
        rcases hbefore with ⟨hempty, -⟩ | hcorresponds
        · cases hempty
        · cases hcorresponds
      · have hempty := hbefore.intersection_none.1 hold
        rcases hnew' with ⟨hold', -⟩ | ⟨-, hnew'⟩
        · cases hempty.symm.trans hold'
        · rw [hnew, hnew']
          exact .inr (.intersection hpaired)
    intro v w hvw
    by_cases hv : v = t
    · have hw := (Relator.rel_eq h.unique hvw htu).1 hv
      rw [hv, hw]
      exact hset
    · have hw := mt (Relator.rel_eq h.unique hvw htu).2 hv
      change Graph.ShapesAlike R (g.shape v) (g'.shape w)
      rw [hother v hv, hother' w hw]
      exact h.shapes v w hvw
  pending := h.pending

/-! ### Runs side by side -/

/-- Both runs end with the same error, or both give something, and the states are alongside. -/
inductive EndAlike {α β : Type} (R : NodeId → NodeId → Prop) (Q : α → β → Prop) :
    Ending α → Ending β → Prop
  | ok {a : α} {b : β} {s s' : Inference} :
    Q a b → Alongside R s s' → EndAlike R Q (.ok a, s) (.ok b, s')
  | error {e : SolveError} {s s' : Inference} : EndAlike R Q (.error e, s) (.error e, s')

-- By induction on the first run. The second one is at a related node of a state that is alongside,
-- so it takes the same step; where it would take another one, a premise of that step is impossible.
mutual

theorem FillEnds.alike {R : NodeId → NodeId → Prop} {top top' t u : NodeId} {s s' : Inference}
    {o o' : Ending Unit} (htop : R top top') (h : FillEnds top t s o) (h' : FillEnds top' u s' o')
    (hs : Alongside R s s') (htu : R t u) : EndAlike R (fun _ _ => True) o o' := by
  have hfound := hs.pending.find?_eq hs.unique htu
  match h with
  | .done hnone =>
    cases h' with
    | done => exact .ok trivial hs
    | stops hsome | fills hsome => cases hnone.symm.trans (hfound.trans hsome)
  | .stops ht hfollows =>
    cases h' with
    | done hnone => cases ht.symm.trans (hfound.trans hnone)
    | stops hu hfollows' =>
      obtain rfl := Option.some.inj (ht.symm.trans (hfound.trans hu))
      cases hfollows.alike htop hfollows' (hs.erase htu) with
      | error => exact .error
    | fills hu hfollows' =>
      obtain rfl := Option.some.inj (ht.symm.trans (hfound.trans hu))
      cases hfollows.alike htop hfollows' (hs.erase htu)
  | .fills ht hfollows hset =>
    cases h' with
    | done hnone => cases ht.symm.trans (hfound.trans hnone)
    | stops hu hfollows' =>
      obtain rfl := Option.some.inj (ht.symm.trans (hfound.trans hu))
      cases hfollows.alike htop hfollows' (hs.erase htu)
    | fills hu hfollows' hset' =>
      obtain rfl := Option.some.inj (ht.symm.trans (hfound.trans hu))
      cases hfollows.alike htop hfollows' (hs.erase htu) with
      | ok hmembers hs => exact .ok trivial (hs.setMembers htu hmembers hset hset')

theorem FollowAllEnds.alike {R : NodeId → NodeId → Prop} {top top' : NodeId}
    {references : List String} {s s' : Inference} {o o' : Ending (List NodeId)}
    (htop : R top top') (h : FollowAllEnds top references s o)
    (h' : FollowAllEnds top' references s' o') (hs : Alongside R s s') :
    EndAlike R (List.Forall₂ R) o o' := by
  match h with
  | .finished =>
    cases h' with
    | finished => exact .ok .nil hs
  | .stops hfirst =>
    cases h' with
    | stops hfirst' =>
      cases hfirst.alike htop hfirst' hs with
      | error => exact .error
    | stopsLater hfirst' | more hfirst' => cases hfirst.alike htop hfirst' hs
  | .stopsLater hfirst hrest =>
    cases h' with
    | stops hfirst' => cases hfirst.alike htop hfirst' hs
    | stopsLater hfirst' hrest' =>
      cases hfirst.alike htop hfirst' hs with
      | ok hr hs =>
        cases hrest.alike htop hrest' hs with
        | error => exact .error
    | more hfirst' hrest' =>
      cases hfirst.alike htop hfirst' hs with
      | ok hr hs => cases hrest.alike htop hrest' hs
  | .more hfirst hrest =>
    cases h' with
    | stops hfirst' => cases hfirst.alike htop hfirst' hs
    | stopsLater hfirst' hrest' =>
      cases hfirst.alike htop hfirst' hs with
      | ok hr hs => cases hrest.alike htop hrest' hs
    | more hfirst' hrest' =>
      cases hfirst.alike htop hfirst' hs with
      | ok hr hs =>
        cases hrest.alike htop hrest' hs with
        | ok hrs hs => exact .ok (.cons hr hrs) hs

theorem FollowEnds.alike {R : NodeId → NodeId → Prop} {top top' : NodeId} {reference : String}
    {s s' : Inference} {o o' : Ending NodeId} (htop : R top top')
    (h : FollowEnds top reference s o) (h' : FollowEnds top' reference s' o')
    (hs : Alongside R s s') : EndAlike R R o o' := by
  match h with
  | .notRooted hnone =>
    cases h' with
    | notRooted => exact .error
    | rooted hsome => cases hnone.symm.trans hsome
  | .rooted hsegments hdescends =>
    cases h' with
    | notRooted hnone => cases hsegments.symm.trans hnone
    | rooted hsegments' hdescends' =>
      obtain rfl := Option.some.inj (hsegments.symm.trans hsegments')
      exact hdescends.alike htop hdescends' hs htop

theorem DescendEnds.alike {R : NodeId → NodeId → Prop} {top top' : NodeId} {reference : String}
    {path : List String} {t u : NodeId} {s s' : Inference} {o o' : Ending NodeId}
    (htop : R top top') (h : DescendEnds top reference path t s o)
    (h' : DescendEnds top' reference path u s' o') (hs : Alongside R s s') (htu : R t u) :
    EndAlike R R o o' := by
  match h with
  | .here =>
    cases h' with
    | here => exact .ok htu hs
  | .stops hsees =>
    cases h' with
    | stops hsees' =>
      cases hsees.alike htop hsees' hs .nil htu with
      | error => exact .error
    | noWay hsees' | into hsees' => cases hsees.alike htop hsees' hs .nil htu
  | .noWay hsees hstep =>
    cases h' with
    | stops hsees' => cases hsees.alike htop hsees' hs .nil htu
    | noWay hsees' hstep' =>
      cases hsees.alike htop hsees' hs .nil htu with
      | ok hc hs =>
        rcases Graph.step_alike (hs.shapes _ _ hc) _ with ⟨p, hp, hp'⟩ | ⟨v, w, hv, hw, -⟩
        · obtain rfl := Except.error.inj (hstep.symm.trans hp)
          obtain rfl := Except.error.inj (hstep'.symm.trans hp')
          exact .error
        · cases hstep.symm.trans hv
    | into hsees' hstep' =>
      cases hsees.alike htop hsees' hs .nil htu with
      | ok hc hs =>
        rcases Graph.step_alike (hs.shapes _ _ hc) _ with ⟨p, hp, hp'⟩ | ⟨v, w, hv, hw, -⟩
        · cases hstep'.symm.trans hp'
        · cases hstep.symm.trans hv
  | .into hsees hstep hrest =>
    cases h' with
    | stops hsees' => cases hsees.alike htop hsees' hs .nil htu
    | noWay hsees' hstep' =>
      cases hsees.alike htop hsees' hs .nil htu with
      | ok hc hs =>
        rcases Graph.step_alike (hs.shapes _ _ hc) _ with ⟨p, hp, hp'⟩ | ⟨v, w, hv, hw, -⟩
        · cases hstep.symm.trans hp
        · cases hstep'.symm.trans hw
    | into hsees' hstep' hrest' =>
      cases hsees.alike htop hsees' hs .nil htu with
      | ok hc hs =>
        rcases Graph.step_alike (hs.shapes _ _ hc) _ with ⟨p, hp, hp'⟩ | ⟨v, w, hv, hw, hvw⟩
        · cases hstep.symm.trans hp
        · obtain rfl := Except.ok.inj (hstep.symm.trans hv)
          obtain rfl := Except.ok.inj (hstep'.symm.trans hw)
          exact hrest.alike htop hrest' hs hvw

theorem SeeThroughEnds.alike {R : NodeId → NodeId → Prop} {top top' : NodeId} {reference : String}
    {seen seen' : List NodeId} {t u : NodeId} {s s' : Inference} {o o' : Ending NodeId}
    (htop : R top top') (h : SeeThroughEnds top reference seen t s o)
    (h' : SeeThroughEnds top' reference seen' u s' o') (hs : Alongside R s s')
    (hseen : List.Forall₂ R seen seen') (htu : R t u) : EndAlike R R o o' := by
  have hmem := Graph.mem_iff_of_forall₂ hs.unique hseen htu
  match h with
  | .stops hfirst =>
    cases h' with
    | stops hfirst' =>
      cases hfirst.alike htop hfirst' hs htu with
      | error => exact .error
    | again hfirst' | behind hfirst' | intoUnion hfirst' | stays hfirst' =>
      cases hfirst.alike htop hfirst' hs htu
  | .again hfirst hmet =>
    cases h' with
    | stops hfirst' => cases hfirst.alike htop hfirst' hs htu
    | again hfirst' =>
      cases hfirst.alike htop hfirst' hs htu with
      | ok _ hs => exact .ok htu hs
    | behind _ hnew | intoUnion _ hnew | stays _ hnew => exact absurd (hmem.1 hmet) hnew
  | .behind hfirst hnew hbehind hsees =>
    cases h' with
    | stops hfirst' => cases hfirst.alike htop hfirst' hs htu
    | again _ hmet => exact absurd (hmem.2 hmet) hnew
    | behind hfirst' _ hbehind' hsees' =>
      cases hfirst.alike htop hfirst' hs htu with
      | ok _ hs =>
        have hnext := Graph.behind?_alike hs.unique hs.shapes htu
        rw [hbehind, hbehind'] at hnext
        cases hnext with
        | some hnext => exact hsees.alike htop hsees' hs (.cons htu hseen) hnext
    | intoUnion hfirst' _ hnone | stays hfirst' _ hnone =>
      cases hfirst.alike htop hfirst' hs htu with
      | ok _ hs =>
        have hnext := Graph.behind?_alike hs.unique hs.shapes htu
        rw [hbehind, hnone] at hnext
        cases hnext
  | .intoUnion hfirst hnew hnone hunion =>
    cases h' with
    | stops hfirst' => cases hfirst.alike htop hfirst' hs htu
    | again _ hmet => exact absurd (hmem.2 hmet) hnew
    | behind hfirst' _ hbehind' =>
      cases hfirst.alike htop hfirst' hs htu with
      | ok _ hs =>
        have hnext := Graph.behind?_alike hs.unique hs.shapes htu
        rw [hnone, hbehind'] at hnext
        cases hnext
    | intoUnion => exact .error
    | stays hfirst' _ _ hother =>
      cases hfirst.alike htop hfirst' hs htu with
      | ok _ hs =>
        obtain ⟨members, hmembers⟩ := (hs.shapes _ _ htu).union.1 ⟨_, hunion⟩
        exact absurd hmembers (hother members)
  | .stays hfirst hnew hnone hother =>
    cases h' with
    | stops hfirst' => cases hfirst.alike htop hfirst' hs htu
    | again _ hmet => exact absurd (hmem.2 hmet) hnew
    | behind hfirst' _ hbehind' =>
      cases hfirst.alike htop hfirst' hs htu with
      | ok _ hs =>
        have hnext := Graph.behind?_alike hs.unique hs.shapes htu
        rw [hnone, hbehind'] at hnext
        cases hnext
    | intoUnion hfirst' _ _ hunion =>
      cases hfirst.alike htop hfirst' hs htu with
      | ok _ hs =>
        obtain ⟨members, hmembers⟩ := (hs.shapes _ _ htu).union.2 ⟨_, hunion⟩
        exact absurd hmembers (hother members)
    | stays hfirst' =>
      cases hfirst.alike htop hfirst' hs htu with
      | ok _ hs => exact .ok htu hs

theorem FillFirstEnds.alike {R : NodeId → NodeId → Prop} {top top' : NodeId} {reference : String}
    {t u : NodeId} {s s' : Inference} {o o' : Ending Unit} (htop : R top top')
    (h : FillFirstEnds top reference t s o) (h' : FillFirstEnds top' reference u s' o')
    (hs : Alongside R s s') (htu : R t u) : EndAlike R (fun _ _ => True) o o' := by
  have hempty := (hs.shapes t u htu).intersection_none
  have hfound := hs.pending.find?_eq hs.unique htu
  match h with
  | .ready hready =>
    cases h' with
    | ready => exact .ok trivial hs
    | cycle hshape | fills hshape => exact absurd (hempty.2 hshape) hready
  | .cycle hshape hnone =>
    cases h' with
    | ready hready => exact absurd (hempty.1 hshape) hready
    | cycle => exact .error
    | fills _ hu => cases hnone.symm.trans (hfound.trans hu)
  | .fills hshape ht hfills =>
    cases h' with
    | ready hready => exact absurd (hempty.1 hshape) hready
    | cycle _ hnone => cases ht.symm.trans (hfound.trans hnone)
    | fills _ _ hfills' => exact hfills.alike htop hfills' hs htu

end

theorem FillAllEnds.alike {top top' : NodeId} (htop : R top top') {order order' : List NodeId}
    (horder : List.Forall₂ R order order') {o o' : Ending Unit} (h : FillAllEnds top order s o)
    (h' : FillAllEnds top' order' s' o') (hs : Alongside R s s') :
    EndAlike R (fun _ _ => True) o o' := by
  induction horder generalizing s s' with
  | nil =>
    cases h
    cases h'
    exact .ok trivial hs
  | cons htu _ ih =>
    cases h with
    | stops hfirst =>
      cases h' with
      | stops hfirst' =>
        cases hfirst.alike htop hfirst' hs htu with
        | error => exact .error
      | more hfirst' => cases hfirst.alike htop hfirst' hs htu
    | more hfirst hrest =>
      cases h' with
      | stops hfirst' => cases hfirst.alike htop hfirst' hs htu
      | more hfirst' hrest' =>
        cases hfirst.alike htop hfirst' hs htu with
        | ok _ hs => exact ih hrest hrest' hs

theorem ResolveEnds.alike {top top' : NodeId} (htop : R top top') {o o' : Ending Unit}
    (h : ResolveEnds top s o) (h' : ResolveEnds top' s' o') (hs : Alongside R s s') :
    EndAlike R (fun _ _ => True) o o' := by
  refine FillAllEnds.alike htop ?_ h h' hs
  exact List.forall₂_map_left_iff.2 (List.forall₂_map_right_iff.2
    (List.Forall₂.imp (fun _ _ hef => hef.1) hs.pending))

end Inference

end JsonTyping
