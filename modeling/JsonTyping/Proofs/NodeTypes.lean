import JsonTyping.Proofs.BatchSafety

/-!
# Types of nodes

A reference leads from node to node of a document. A node is known by its plain path, the keys and
the numbers of items that lead to it from the root (`Reference.mem_nodes_of_walk`). Types are kept
by place, that is by the path as it is spelled. So all references of a batch that lead to a node by
its plain path give one type (`Batch.type_of_sameNode`), but a path that is spelled in another way
leads to another type of the same node (`Batch.sameNode_twoTypes`).
-/

namespace JsonTyping

namespace Reference

/-- The plain path of the node that a step leads to, from a value with a plain path. -/
def plainPath (path : List Step) (v : Json) : Step → List Step
  | .root => []
  | .key name =>
    match v with
    | .array _ => path ++ [.key (toString ((index? name).getD 0))]
    | _ => path ++ [.key name]
  | step => path ++ [step]

/-- The node that the path leads to: its plain path and its value. -/
def walk (r : Reference) (document : Json) : Except LookupError (List Step × Json) :=
  r.path.foldlM
    (fun node step => (descend document node.2 step).map fun w => (plainPath node.1 node.2 step, w))
    ([], document)

/-- The walk goes where looking up goes. -/
theorem map_walk (r : Reference) (document : Json) :
    (r.walk document).map Prod.snd = r.lookup document := by
  have hfold : ∀ (path : List Step) (node : List Step × Json),
      (path.foldlM (fun node step => (descend document node.2 step).map fun w =>
          (plainPath node.1 node.2 step, w)) node).map Prod.snd =
        path.foldlM (descend document) node.2 := by
    intro path
    induction path with
    | nil => exact fun node => rfl
    | cons step path ih =>
      intro node
      rw [List.foldlM_cons, List.foldlM_cons]
      cases hstep : descend document node.2 step with
      | error e => rfl
      | ok w => exact ih (plainPath node.1 node.2 step, w)
  exact hfold r.path ([], document)

theorem mem_nodes_of_descend {document v w : Json} {path : List Step} {step : Step}
    (hv : (path, v) ∈ document.nodes) (hw : descend document v step = .ok w) :
    (plainPath path v step, w) ∈ document.nodes := by
  cases step with
  | root =>
    obtain rfl := Except.ok.inj hw
    exact Json.mem_nodes_self _
  | key name =>
    cases v with
    | object members =>
      exact Json.mem_nodes_append hv
        (Json.mem_nodes_member (mem_of_lookup (Json.child?_of_descend hw)) (Json.mem_nodes_self w))
    | array items =>
      rw [descend] at hw
      split at hw
      · cases hw
      · next i hi =>
        split at hw
        · next hitem =>
          obtain rfl := Except.ok.inj hw
          rw [plainPath, hi]
          exact Json.mem_nodes_append hv (Json.mem_nodes_item hitem (Json.mem_nodes_self _))
        · cases hw
    | _ => cases hw
  | type index => cases hw
  | object => cases hw

/-- The node that the path leads to is one of the nodes of the document. -/
theorem mem_nodes_of_walk {r : Reference} {document : Json} {node : List Step × Json}
    (h : r.walk document = .ok node) : node ∈ document.nodes := by
  have hfold : ∀ (path : List Step) (start : List Step × Json), start ∈ document.nodes →
      path.foldlM (fun node step => (descend document node.2 step).map fun w =>
        (plainPath node.1 node.2 step, w)) start = .ok node → node ∈ document.nodes := by
    intro path
    induction path with
    | nil =>
      intro start hstart hrun
      rw [List.foldlM_nil] at hrun
      obtain rfl := Except.ok.inj hrun
      exact hstart
    | cons step path ih =>
      intro start hstart hrun
      rw [List.foldlM_cons] at hrun
      cases hstep : descend document start.2 step with
      | error e =>
        rw [hstep] at hrun
        cases hrun
      | ok w =>
        rw [hstep] at hrun
        exact ih _ (mem_nodes_of_descend hstart hstep) hrun
  exact hfold r.path _ (Json.mem_nodes_self document) h

end Reference

namespace Resolved

/-- The plain path of the node that the place is spelled for. -/
def node (found : Resolved) : Except LookupError (List Step) :=
  (found.place.canonical.walk found.document).map Prod.fst

/-- The places are those of one node of one document. -/
structure SameNode (found found' : Resolved) : Prop where
  address : found.place.canonical.address = found'.place.canonical.address
  node : found.node = found'.node

/-- The place is spelled by the plain path of its node. -/
def IsPlain (found : Resolved) : Prop :=
  ∃ path, found.node = .ok path ∧ found.place.canonical.path = .root :: path

theorem SameNode.canonical_eq {found found' : Resolved} (h : SameNode found found')
    (hplain : found.IsPlain) (hplain' : found'.IsPlain) :
    found.place.canonical = found'.place.canonical := by
  obtain ⟨path, hnode, hpath⟩ := hplain
  obtain ⟨path', hnode', hpath'⟩ := hplain'
  obtain rfl : path = path' := by
    rw [h.node, hnode'] at hnode
    exact (Except.ok.inj hnode).symm
  have hsame : found.place.canonical.path = found'.place.canonical.path := hpath.trans hpath'.symm
  cases hc : found.place.canonical
  cases hc' : found'.place.canonical
  rw [hc, hc'] at hsame
  have haddress := h.address
  rw [hc, hc'] at haddress
  rw [Reference.mk.injEq]
  exact ⟨haddress, hsame⟩

end Resolved

open Conversion

namespace Batch

/-! ### References of a batch -/

/-- In between, a top-level reference or one in a schema was resolved to the place, and the
converter gave the type for it. -/
inductive Gives (b : Batch) (s s' : Conversion) (found : Resolved) (t : NodeId) : Prop
  | topLevel {name : String} {r : Reference} {s₁ s₂ : Conversion} (hmem : (name, r) ∈ b.pending)
      (hbefore : Later s s₁)
      (hrun : outcome (convertTopLevel b.annotators name r) s₁ = (.ok t, s₂))
      (hfound : (outcome (Library.resolveTopLevel r) s₁.library).1 = .ok found)
      (hafter : Later s₂ s')
  | inSchema {depth : Nat} {x : Subject} {own : Attributes} {text : String} {s₁ s₂ : Conversion}
      (hbefore : Later s s₁)
      (hrun : outcome (targetType (toType b.annotators depth) x own (.string text)) s₁ =
        (.ok t, s₂))
      (hfound : (outcome (Library.resolve x.place (.parse text)) s₁.library).1 = .ok found)
      (hafter : Later s₂ s')

/-- What a reference gives is the type of its place from then on. -/
theorem Gives.lookup {b : Batch} {s s' : Conversion} {found : Resolved} {t : NodeId}
    (h : Gives b s s' found t) (hb : b.Sane) (hs : s.library.Spells) :
    s'.types.lookup found.place.canonical = some t := by
  cases h with
  | @topLevel name r s₁ s₂ hmem hbefore hrun hfound hafter =>
    have hsafe : Safe s₁ (convertTopLevel b.annotators name r) _ :=
      safe_convertTopLevel hb.annotators name (hb.pending _ hmem)
    obtain ⟨-, found', hfound', hlookup⟩ := hsafe.ok (hbefore.uses.spells hs) hrun
    obtain rfl := Except.ok.inj (hfound'.symm.trans hfound)
    exact hafter.lookup hlookup
  | @inSchema depth x own text s₁ s₂ hbefore hrun hfound hafter =>
    have hsafe : Safe s₁ (targetType (toType b.annotators depth) x own (.string text)) _ :=
      safe_targetType (safe_toType hb.annotators depth) x own (.string text)
    obtain ⟨-, text', found', htext, hfound', hlookup⟩ := hsafe.ok (hbefore.uses.spells hs) hrun
    obtain rfl := Json.string.inj htext
    obtain rfl := Except.ok.inj (hfound'.symm.trans hfound)
    exact hafter.lookup hlookup

/-- Every type that a batch reports is what the pending reference of that name gives. All
references, in schemas or not, that lead to one node by its plain path give one type. -/
theorem type_of_sameNode {b b' : Batch} (hb : b.Reached) {graph graph' : Graph}
    {result : Except Halt Report} (hrun : b.convert graph = (b', graph', result)) :
    (∀ report, result = .ok report → ∀ e ∈ report.converted, ∃ r lib found,
        (e.1, r) ∈ b.pending ∧ b.library.Uses lib ∧
          (outcome (Library.resolveTopLevel r) lib).1 = .ok found ∧
          Gives b (b.conversion graph) (b'.conversion graph') found e.2) ∧
      ∀ found found' t t', Gives b (b.conversion graph) (b'.conversion graph') found t →
        Gives b (b.conversion graph) (b'.conversion graph') found' t' →
          found.SameNode found' → found.IsPlain → found'.IsPlain → t = t' := by
  have hran := hb.sane.convert hrun
  refine ⟨fun report hreport e he => ?_, fun found found' t t' h h' hsame hplain hplain' => ?_⟩
  · obtain hold | ⟨r, s₁, s₂, hmem, hbefore, hconverted, hafter⟩ :=
      hran.converted report hreport e he
    · cases hold
    · have hsafe : Safe s₁ (convertTopLevel b.annotators e.1 r) _ :=
        safe_convertTopLevel hb.sane.annotators e.1 (hb.sane.pending _ hmem)
      obtain ⟨-, found, hfound, -⟩ :=
        hsafe.ok (hbefore.uses.spells hb.sane.spells) hconverted
      exact ⟨r, s₁.library, found, hmem, hbefore.uses, hfound,
        .topLevel hmem hbefore hconverted hfound hafter⟩
  · have ht := h.lookup hb.sane hb.sane.spells
    have ht' := h'.lookup hb.sane hb.sane.spells
    rw [hsame.canonical_eq hplain hplain', ht'] at ht
    exact (Option.some.inj ht).symm

/-- A document in a store. -/
def storedDocument : Json :=
  .object [("definitions", .object [("A", .object [("type", .string "object")])])]

/-- A batch of two references into the stored document. -/
def batchOfTwo (first second : String) : Batch :=
  let b := ofStore (some (.memory [("root.json", storedDocument)] []))
  let b := (b.addSource ⟨some "X", [first], none⟩).1
  (b.addSource ⟨some "Y", [second], none⟩).1

theorem reached_batchOfTwo (first second : String) : (batchOfTwo first second).Reached :=
  .addSource (.addSource (.ofStore _) _) _

theorem library_batchOfTwo (first second : String) :
    (batchOfTwo first second).library =
      .ofStore (some (.memory [("root.json", storedDocument)] [])) := by
  unfold batchOfTwo
  dsimp only
  rw [library_addSource _ rfl, library_addSource _ rfl]
  rfl

theorem idFree_storedDocument : storedDocument.IdFree := by
  have hnodes : ∀ e ∈ storedDocument.nodes, (e.2.get? "$id").isNone := by decide +kernel
  intro path members hmem id hid
  have hnone := hnodes _ hmem
  rw [Option.isNone_iff_eq_none] at hnone
  cases hnone.symm.trans hid

/-- Where a reference leads in the batch: the place as it is spelled, and the node. -/
def leadsTo (b : Batch) (r : Reference) :
    Except Halt (Reference × Except LookupError (List Step)) :=
  (outcome (Library.resolveTopLevel r) b.library).1.map fun found =>
    (found.place.canonical, found.node)

theorem type_of_sameNode_ofTwo :
    ∃ report t, ((batchOfTwo "root.json#/definitions/A" "./root.json#/definitions/A").convert
        .empty).2.2 = .ok report ∧ report.converted = [("X", t), ("Y", t)] := by
  generalize hb : batchOfTwo "root.json#/definitions/A" "./root.json#/definitions/A" = b
  have hnames : (b.convert .empty).2.2.map (fun report => report.converted.map Prod.fst) =
      .ok ["X", "Y"] := by
    rw [← hb]
    decide +kernel
  have hnode : ∀ e ∈ b.pending, leadsTo b e.2 =
      .ok (⟨some "root.json", [.root, .key "definitions", .key "A"]⟩,
        .ok [.key "definitions", .key "A"]) := by
    rw [← hb]
    decide +kernel
  have hlibrary := library_batchOfTwo "root.json#/definitions/A" "./root.json#/definitions/A"
  have hreached := reached_batchOfTwo "root.json#/definitions/A" "./root.json#/definitions/A"
  rw [hb] at hlibrary hreached
  obtain ⟨hmemory, hself⟩ : b.library.InMemory ∧ b.library.Continues b.library := by
    rw [hlibrary]
    exact Library.Reached.inMemory (.memory _ _)
  have hfree : b.library.IdFree := by
    intro e he
    rw [hlibrary] at he
    obtain rfl := List.mem_singleton.1 he
    exact idFree_storedDocument
  rcases hrun : b.convert .empty with ⟨b', graph', e | report⟩
  · rw [hrun] at hnames
    cases hnames
  obtain ⟨hconverted, hsame⟩ := type_of_sameNode hreached hrun
  have hplain : ∀ e ∈ report.converted, ∃ found,
      (found.place.canonical = ⟨some "root.json", [.root, .key "definitions", .key "A"]⟩ ∧
        found.node = .ok [.key "definitions", .key "A"]) ∧
      Gives b (b.conversion .empty) (b'.conversion graph') found e.2 := by
    intro e he
    obtain ⟨r, lib, found, hmem, huses, hfound, hgives⟩ := hconverted report rfl e he
    have hleads := hnode _ hmem
    have hstart : (outcome (Library.resolveTopLevel r) b.library).1 = .ok found :=
      (huses.resolve_eq hmemory hself hfree .empty r).symm.trans hfound
    rw [leadsTo, hstart] at hleads
    exact ⟨found, Prod.mk.inj (Except.ok.inj hleads), hgives⟩
  rw [hrun] at hnames
  obtain ⟨⟨x, t⟩, rest, hx, hname, hrest⟩ := List.map_eq_cons_iff.1 (Except.ok.inj hnames)
  obtain ⟨⟨y, t'⟩, rest, hy, hname', hnil⟩ := List.map_eq_cons_iff.1 hrest
  obtain rfl := List.map_eq_nil_iff.1 hnil
  obtain rfl : x = "X" := hname
  obtain rfl : y = "Y" := hname'
  rw [hy] at hx
  obtain ⟨found, ⟨hplace, hfound⟩, hgives⟩ := hplain ("X", t) (by simp [hx])
  obtain ⟨found', ⟨hplace', hfound'⟩, hgives'⟩ := hplain ("Y", t') (by simp [hx])
  refine ⟨report, t, rfl, ?_⟩
  rw [hx, hsame found found' t t' hgives hgives'
    ⟨by rw [hplace, hplace'], hfound.trans hfound'.symm⟩
    ⟨_, hfound, by rw [hplace]⟩ ⟨_, hfound', by rw [hplace']⟩]

/-- Without the slash for the root, the same node gets another type. -/
theorem sameNode_twoTypes :
    let b := batchOfTwo "root.json#definitions/A" "root.json#/definitions/A"
    b.pending = [("X", .parse "root.json#definitions/A"),
        ("Y", .parse "root.json#/definitions/A")] ∧
      leadsTo b (.parse "root.json#definitions/A") =
        .ok (⟨some "root.json", [.key "definitions", .key "A"]⟩,
          .ok [.key "definitions", .key "A"]) ∧
      leadsTo b (.parse "root.json#/definitions/A") =
        .ok (⟨some "root.json", [.root, .key "definitions", .key "A"]⟩,
          .ok [.key "definitions", .key "A"]) ∧
      (b.convert .empty).2.2.map (fun report => report.converted) =
        .ok [("X", 0), ("Y", 4)] := by
  decide +kernel

end Batch

end JsonTyping
