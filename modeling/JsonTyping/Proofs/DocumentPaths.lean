import JsonTyping.Proofs.Runs
import JsonTyping.Schema.Reference
import Mathlib.Data.List.Basic

/-!
# Paths in documents

`Json.nodes` lists the values in a document, each with the path of keys that leads to it, as many as
the document has values (`Json.length_nodes`). `Json.follow?` says where a path leads, also where an
array is longer than any index that a reference can write; it goes wherever looking up goes
(`Json.follow?_of_lookup`) and wherever the parts of a schema lie (`Json.child?_item`).
-/

namespace JsonTyping

theorem Text.decimalValue_toString (n : Nat) : Text.decimalValue (toString n).toList = n := by
  have hfold : ∀ (l : List Char) (m : Nat),
      l.foldl (fun n c => n * 10 + (c.toNat - '0'.toNat)) m = Nat.ofDigitChars 10 l m := by
    intro l
    induction l with
    | nil => intro m; rfl
    | cons c l ih =>
      intro m
      rw [List.foldl_cons, ih, Nat.ofDigitChars_cons, Nat.mul_comm]
  rw [Text.decimalValue, hfold, Nat.toString_eq_repr, Nat.toList_repr,
    Nat.ofDigitChars_ten_toDigits]

theorem Text.isAsciiDigit_of_mem_toString {n : Nat} {c : Char} (h : c ∈ (toString n).toList) :
    Text.isAsciiDigit c = true := by
  rw [Nat.toString_eq_repr, Nat.toList_repr] at h
  have hdigit := Nat.isDigit_of_mem_toDigits (by omega) (by omega) h
  rw [Char.isDigit, Bool.and_eq_true, decide_eq_true_iff, decide_eq_true_iff] at hdigit
  exact decide_eq_true hdigit

theorem Text.toList_toString_ne_nil (n : Nat) : (toString n).toList ≠ [] := by
  intro hnil
  have hvalue := decimalValue_toString n
  rw [hnil] at hvalue
  obtain rfl : 0 = n := hvalue
  exact absurd hnil (by decide)

/-- A number is an index unless it takes more than 64 bits. -/
theorem Reference.index?_toString_eq (n : Nat) :
    index? (toString n) = if 0xFFFFFFFFFFFFFFFF < n then none else some n := by
  have hvalue := Text.decimalValue_toString n
  have hne := Text.toList_toString_ne_nil n
  have hdigits : (toString n).toList.all Text.isAsciiDigit = true :=
    List.all_eq_true.2 fun _ hc => Text.isAsciiDigit_of_mem_toString hc
  unfold index?
  dsimp only
  generalize (toString n).toList = chars at hvalue hne hdigits
  split
  · rw [List.all_cons] at hdigits
    exact absurd (Bool.and_eq_true_iff.1 hdigits).1 (by decide)
  · have hread : ¬(chars.isEmpty = true ∨ (!chars.all Text.isAsciiDigit) = true) := by
      rw [hdigits]
      rintro (hempty | hfalse)
      · exact hne (List.isEmpty_iff.1 hempty)
      · cases hfalse
    rw [if_neg hread, hvalue]

theorem Reference.index?_toString (n : Nat) :
    (Reference.index? (toString n)).getD (Text.decimalValue (toString n).toList) = n := by
  rw [index?_toString_eq]
  split
  · exact Text.decimalValue_toString n
  · rfl

namespace Json

/-- The value of a member or an item. -/
def child? : Json → String → Option Json
  | .object members, name => members.lookup name
  | .array items, name =>
    items[(Reference.index? name).getD (Text.decimalValue name.toList)]?
  | _, _ => none

/-- The value that a path leads to in a document, from one of its values. -/
def follow? (document : Json) : Json → List Step → Option Json
  | v, [] => some v
  | _, .root :: rest => follow? document document rest
  | v, .key name :: rest => (v.child? name).bind fun w => follow? document w rest
  | _, .type _ :: _ => none
  | _, .object :: _ => none

theorem child?_item {items : List Json} {i : Nat} {v : Json} (h : items[i]? = some v) :
    (Json.array items).child? (toString i) = some v := by
  rw [child?, Reference.index?_toString, h]

theorem follow?_append (document v : Json) (path rest : List Step) :
    follow? document v (path ++ rest) =
      (follow? document v path).bind fun w => follow? document w rest := by
  induction path generalizing v with
  | nil => rfl
  | cons step path ih =>
    cases step with
    | root => exact ih document
    | key name =>
      rw [List.cons_append, follow?, follow?]
      cases v.child? name with
      | none => rfl
      | some w => exact ih w
    | type index => rfl
    | object => rfl

theorem follow?_key {document v w u : Json} {path : List Step} {name : String}
    (h : follow? document v path = some w) (hchild : w.child? name = some u) :
    follow? document v (path ++ [.key name]) = some u := by
  rw [follow?_append, h, Option.bind_some, follow?, hchild]
  rfl

theorem child?_of_descend {document w u : Json} {name : String}
    (h : Reference.descend document w (.key name) = .ok u) : w.child? name = some u := by
  cases w with
  | object members =>
    simp only [Reference.descend] at h
    split at h
    · next hmember =>
      cases h
      exact hmember
    · cases h
  | array items =>
    simp only [Reference.descend] at h
    split at h
    · cases h
    · next i hi =>
      split at h
      · next hitem =>
        cases h
        rw [child?, hi]
        exact hitem
      · cases h
  | null => cases h
  | bool b => cases h
  | number n => cases h
  | string s => cases h

/-- Looking up leads where the path leads. -/
theorem follow?_of_lookup {r : Reference} {document v : Json} (h : r.lookup document = .ok v) :
    follow? document document r.path = some v := by
  have hfold : ∀ (path : List Step) (w : Json),
      path.foldlM (Reference.descend document) w = .ok v → follow? document w path = some v := by
    intro path
    induction path with
    | nil =>
      intro w hw
      rw [List.foldlM_nil] at hw
      cases hw
      rfl
    | cons step path ih =>
      intro w hw
      rw [List.foldlM_cons] at hw
      cases step with
      | root => exact ih document hw
      | type index => cases hw
      | object => cases hw
      | key name =>
        cases hu : Reference.descend document w (.key name) with
        | error e =>
          rw [hu] at hw
          cases hw
        | ok u =>
          rw [hu] at hw
          rw [follow?, child?_of_descend hu]
          exact ih u hw
  exact hfold r.path document h

/-! ### The values of a document -/

mutual

/-- The values in a value, itself included, each with the path that leads to it. -/
def nodes : Json → List (List Step × Json)
  | .array items => ([], .array items) :: nodesOfItems 0 items
  | .object members => ([], .object members) :: nodesOfMembers members
  | v => [([], v)]

def nodesOfItems (index : Nat) : List Json → List (List Step × Json)
  | [] => []
  | v :: rest =>
    v.nodes.map (fun e => (.key (toString index) :: e.1, e.2)) ++ nodesOfItems (index + 1) rest

def nodesOfMembers : List (String × Json) → List (List Step × Json)
  | [] => []
  | (k, v) :: rest => v.nodes.map (fun e => (.key k :: e.1, e.2)) ++ nodesOfMembers rest

end

mutual

theorem length_nodes : ∀ v : Json, v.nodes.length = v.size
  | .null | .bool _ | .number _ | .string _ => by simp only [nodes, size, List.length_singleton]
  | .array items => by rw [nodes, size, List.length_cons, length_nodesOfItems]
  | .object members => by rw [nodes, size, List.length_cons, length_nodesOfMembers]

theorem length_nodesOfItems (index : Nat) :
    ∀ items : List Json, (nodesOfItems index items).length = sizeItems items
  | [] => by simp only [nodesOfItems, sizeItems, List.length_nil]
  | v :: rest => by
    rw [nodesOfItems, sizeItems, List.length_append, List.length_map, length_nodes,
      length_nodesOfItems]

theorem length_nodesOfMembers :
    ∀ members : List (String × Json), (nodesOfMembers members).length = sizeMembers members
  | [] => by simp only [nodesOfMembers, sizeMembers, List.length_nil]
  | (k, v) :: rest => by
    rw [nodesOfMembers, sizeMembers, List.length_append, List.length_map, length_nodes,
      length_nodesOfMembers]

end

theorem mem_nodesOfMembers {members : List (String × Json)} {path : List Step} {u : Json} :
    (path, u) ∈ nodesOfMembers members ↔
      ∃ k w p, (k, w) ∈ members ∧ path = .key k :: p ∧ (p, u) ∈ w.nodes := by
  induction members with
  | nil => simp [nodesOfMembers]
  | cons m rest ih =>
    obtain ⟨k, w⟩ := m
    rw [nodesOfMembers, List.mem_append, ih]
    constructor
    · rintro (h | ⟨k', w', p, hmem, hpath, hu⟩)
      · obtain ⟨⟨p, u'⟩, hu, heq⟩ := List.mem_map.1 h
        cases heq
        exact ⟨k, w, p, List.mem_cons_self, rfl, hu⟩
      · exact ⟨k', w', p, List.mem_cons_of_mem _ hmem, hpath, hu⟩
    · rintro ⟨k', w', p, hmem, rfl, hu⟩
      rcases List.mem_cons.1 hmem with heq | hmem
      · cases heq
        exact .inl (List.mem_map.2 ⟨(p, u), hu, rfl⟩)
      · exact .inr ⟨k', w', p, hmem, rfl, hu⟩

theorem mem_nodesOfItems {items : List Json} {index : Nat} {path : List Step} {u : Json} :
    (path, u) ∈ nodesOfItems index items ↔
      ∃ i w p, items[i]? = some w ∧ path = .key (toString (index + i)) :: p ∧ (p, u) ∈ w.nodes := by
  induction items generalizing index with
  | nil => simp [nodesOfItems]
  | cons w rest ih =>
    rw [nodesOfItems, List.mem_append, ih]
    constructor
    · rintro (h | ⟨i, w', p, hi, hpath, hu⟩)
      · obtain ⟨⟨p, u'⟩, hu, heq⟩ := List.mem_map.1 h
        cases heq
        exact ⟨0, w, p, rfl, rfl, hu⟩
      · refine ⟨i + 1, w', p, hi, ?_, hu⟩
        rw [hpath, Nat.add_right_comm, Nat.add_assoc]
    · rintro ⟨i, w', p, hi, rfl, hu⟩
      cases i with
      | zero =>
        cases hi
        exact .inl (List.mem_map.2 ⟨(p, u), hu, rfl⟩)
      | succ i =>
        refine .inr ⟨i, w', p, hi, ?_, hu⟩
        rw [Nat.add_right_comm, Nat.add_assoc]

theorem mem_nodes_self (v : Json) : ([], v) ∈ v.nodes := by
  cases v <;> simp [nodes]

theorem mem_nodes_member {members : List (String × Json)} {k : String} {w u : Json}
    {path : List Step} (h : (k, w) ∈ members) (hu : (path, u) ∈ w.nodes) :
    (.key k :: path, u) ∈ (Json.object members).nodes :=
  List.mem_cons_of_mem _ (mem_nodesOfMembers.2 ⟨k, w, path, h, rfl, hu⟩)

theorem mem_nodes_item {items : List Json} {i : Nat} {w u : Json} {path : List Step}
    (h : items[i]? = some w) (hu : (path, u) ∈ w.nodes) :
    (.key (toString i) :: path, u) ∈ (Json.array items).nodes := by
  refine List.mem_cons_of_mem _ (mem_nodesOfItems.2 ⟨i, w, path, h, ?_, hu⟩)
  rw [Nat.zero_add]

theorem eq_of_mem_nodes_nil {v u : Json} (h : ([], u) ∈ v.nodes) : u = v := by
  cases v with
  | array items =>
    rcases List.mem_cons.1 h with heq | hmem
    · cases heq
      rfl
    · obtain ⟨_, _, _, -, hpath, -⟩ := mem_nodesOfItems.1 hmem
      cases hpath
  | object members =>
    rcases List.mem_cons.1 h with heq | hmem
    · cases heq
      rfl
    · obtain ⟨_, _, _, -, hpath, -⟩ := mem_nodesOfMembers.1 hmem
      cases hpath
  | _ =>
    cases List.mem_singleton.1 h
    rfl

/-- The step leads from the first value to an item or a member of it. -/
inductive LeadsTo : Json → Step → Json → Prop
  | item {items : List Json} {i : Nat} {w : Json} (hi : items[i]? = some w) :
    LeadsTo (.array items) (.key (toString i)) w
  | member {members : List (String × Json)} {k : String} {w : Json} (hk : (k, w) ∈ members) :
    LeadsTo (.object members) (.key k) w

theorem mem_nodes_cons {v u : Json} {step : Step} {path : List Step} :
    (step :: path, u) ∈ v.nodes ↔ ∃ w, v.LeadsTo step w ∧ (path, u) ∈ w.nodes := by
  constructor
  · intro h
    cases v with
    | array items =>
      rcases List.mem_cons.1 h with heq | hmem
      · cases heq
      · obtain ⟨i, w, _, hi, hpath, hu⟩ := mem_nodesOfItems.1 hmem
        cases hpath
        rw [Nat.zero_add]
        exact ⟨w, .item hi, hu⟩
    | object members =>
      rcases List.mem_cons.1 h with heq | hmem
      · cases heq
      · obtain ⟨k, w, _, hk, hpath, hu⟩ := mem_nodesOfMembers.1 hmem
        cases hpath
        exact ⟨w, .member hk, hu⟩
    | _ => cases List.mem_singleton.1 h
  · rintro ⟨w, hstep, hu⟩
    cases hstep with
    | item hi => exact mem_nodes_item hi hu
    | member hk => exact mem_nodes_member hk hu

/-- The values of a value in a document are values in the document. -/
theorem mem_nodes_append {v w u : Json} {path rest : List Step} (hw : (path, w) ∈ v.nodes)
    (hu : (rest, u) ∈ w.nodes) : (path ++ rest, u) ∈ v.nodes := by
  induction path generalizing v with
  | nil => exact eq_of_mem_nodes_nil hw ▸ hu
  | cons step path ih =>
    obtain ⟨x, hstep, hx⟩ := mem_nodes_cons.1 hw
    exact mem_nodes_cons.2 ⟨x, hstep, ih hx⟩

theorem size_le_of_mem_items {items : List Json} {v : Json} (h : v ∈ items) :
    v.size ≤ sizeItems items := by
  induction items with
  | nil => cases h
  | cons w rest ih =>
    rw [sizeItems]
    rcases List.mem_cons.1 h with rfl | h
    · omega
    · have hrest := ih h
      omega

theorem size_le_of_mem_members {members : List (String × Json)} {m : String × Json}
    (h : m ∈ members) : m.2.size ≤ sizeMembers members := by
  induction members with
  | nil => cases h
  | cons n rest ih =>
    obtain ⟨k, w⟩ := n
    rw [sizeMembers]
    rcases List.mem_cons.1 h with rfl | h
    · exact Nat.le_add_right _ _
    · have hrest := ih h
      omega

theorem size_le_of_child? {v w : Json} {name : String} (h : v.child? name = some w) :
    w.size ≤ v.size := by
  cases v with
  | object members =>
    rw [child?] at h
    have hle : w.size ≤ sizeMembers members := size_le_of_mem_members (mem_of_lookup h)
    rw [size]
    omega
  | array items =>
    rw [child?] at h
    have hle := size_le_of_mem_items (List.mem_of_getElem? h)
    rw [size]
    omega
  | _ => cases h

theorem size_le_of_follow? {document v w : Json} {path : List Step}
    (hv : v.size ≤ document.size) (h : follow? document v path = some w) :
    w.size ≤ document.size := by
  induction path generalizing v with
  | nil =>
    cases h
    exact hv
  | cons step path ih =>
    cases step with
    | root => exact ih (Nat.le_refl _) h
    | key name =>
      rw [follow?] at h
      obtain ⟨u, hu, h⟩ := Option.bind_eq_some_iff.1 h
      exact ih (Nat.le_trans (size_le_of_child? hu) hv) h
    | type index => cases h
    | object => cases h

end Json

end JsonTyping
