import JsonTyping.Json.Printer
import JsonTyping.Json.Reader
import JsonTyping.Proofs.DocumentPaths

/-!
# Compact texts

A value whose numbers are natural ones can be read off its compact text, as the text tells where it
ends: two such texts with something behind each of them are the same only if the values are, and
what is behind them (`Json.compact_append_inj`). What is behind must not begin with a digit, since
`1` is the beginning of `12`; inside of a container it never does.
-/

namespace JsonTyping.Json

/-- The first character of a text in which characters are escaped, and the text behind it. -/
def unescaped? : List Char → Option (Char × List Char)
  | '\\' :: 'u' :: a :: b :: c :: d :: rest =>
    (Reader.hexNumber? [a, b, c, d]).map fun n => (Char.ofNat n, rest)
  | '\\' :: c :: rest => (Reader.simpleEscape? c).map fun c => (c, rest)
  | c :: rest => some (c, rest)
  | [] => none

theorem hexNumber?_lowerHex {n : Nat} (h : n < 32) :
    Reader.hexNumber? ['0', '0', lowerHex (n / 16), lowerHex (n % 16)] = some n := by
  have hall : ∀ n < 32,
      Reader.hexNumber? ['0', '0', lowerHex (n / 16), lowerHex (n % 16)] = some n := by
    decide
  exact hall n h

theorem unescaped?_escapeChar (c : Char) (rest : List Char) :
    unescaped? (escapeChar c ++ rest) = some (c, rest) := by
  unfold escapeChar
  split
  all_goals try rfl
  next hbackslash _ _ _ _ _ =>
    split
    · next hcontrol =>
      change (Reader.hexNumber? _).map _ = _
      rw [hexNumber?_lowerHex hcontrol, Option.map_some, Char.ofNat_toNat]
      rfl
    · rw [List.singleton_append]
      unfold unescaped?
      split
      · next heq => cases heq; exact absurd rfl hbackslash
      · next heq => cases heq; exact absurd rfl hbackslash
      · next heq => cases heq; rfl
      · next heq => cases heq

theorem escapeChar_append_inj {c d : Char} {x y : List Char}
    (h : escapeChar c ++ x = escapeChar d ++ y) : c = d ∧ x = y := by
  have hread := congrArg unescaped? h
  rw [unescaped?_escapeChar, unescaped?_escapeChar] at hread
  exact Prod.mk.inj (Option.some.inj hread)

theorem escapeChar_append_ne (c : Char) (x y : List Char) : escapeChar c ++ x ≠ '"' :: y := by
  intro h
  have hread := congrArg unescaped? h
  rw [unescaped?_escapeChar] at hread
  obtain ⟨rfl, rfl⟩ := Prod.mk.inj (Option.some.inj hread)
  cases h

theorem toList_quoted (s : String) :
    (quoted s).toList = '"' :: (s.toList.flatMap escapeChar ++ ['"']) := by
  simp only [quoted, String.toList_append, String.toList_ofList]
  rfl

theorem quoted_append_inj {s t : String} {x y : List Char}
    (h : (quoted s).toList ++ x = (quoted t).toList ++ y) : s = t ∧ x = y := by
  have hbody : ∀ l k : List Char, l.flatMap escapeChar ++ '"' :: x =
      k.flatMap escapeChar ++ '"' :: y → l = k ∧ x = y := by
    intro l
    induction l with
    | nil =>
      intro k hk
      cases k with
      | nil => exact ⟨rfl, (List.cons.inj hk).2⟩
      | cons d k =>
        rw [List.flatMap_cons, List.append_assoc] at hk
        exact absurd hk.symm (escapeChar_append_ne d _ x)
    | cons c l ih =>
      intro k hk
      rw [List.flatMap_cons, List.append_assoc] at hk
      cases k with
      | nil => exact absurd hk (escapeChar_append_ne c _ y)
      | cons d k =>
        rw [List.flatMap_cons, List.append_assoc] at hk
        obtain ⟨rfl, hrest⟩ := escapeChar_append_inj hk
        obtain ⟨rfl, hxy⟩ := ih k hrest
        exact ⟨rfl, hxy⟩
  rw [toList_quoted, toList_quoted, List.cons_append, List.cons_append, List.append_assoc,
    List.append_assoc] at h
  obtain ⟨hst, hxy⟩ := hbody _ _ (List.cons.inj h).2
  exact ⟨String.toList_inj.1 hst, hxy⟩

section Lists

variable {α : Type} {text : α → List Char}

theorem intercalate_cons (a : α) (l : List α) :
    [','].intercalate ((a :: l).map text) = text a ++ l.flatMap fun b => ',' :: text b := by
  induction l generalizing a with
  | nil => simp
  | cons b l ih =>
    rw [List.map_cons, List.map_cons, List.intercalate_cons_cons, ← List.map_cons, ih,
      List.flatMap_cons, List.append_assoc]
    rfl

/-- The text does not begin with a digit. -/
def Delimited (x : List Char) : Prop := ∀ c ∈ x.head?, Text.isAsciiDigit c = false

theorem delimited_nil : Delimited [] := nofun

theorem delimited_cons {c : Char} (hc : Text.isAsciiDigit c = false) (x : List Char) :
    Delimited (c :: x) := by
  intro d hd
  obtain rfl := Option.mem_some.1 hd
  exact hc

/-- If the text of each element tells where it ends, and none begins like the end of the list, then
the text of the list tells its elements and where it ends. -/
theorem intercalate_append_inj {close : Char} (hclose : close ≠ ',')
    (hdigit : Text.isAsciiDigit close = false) {l k : List α}
    (hinj : ∀ a ∈ l, ∀ b ∈ k, ∀ x y, Delimited x → Delimited y → text a ++ x = text b ++ y →
      a = b ∧ x = y)
    (hbegin : ∀ a, a ∈ l ∨ a ∈ k → ∀ x y, text a ++ x ≠ close :: y) {x y : List Char}
    (h : [','].intercalate (l.map text) ++ close :: x =
      [','].intercalate (k.map text) ++ close :: y) : l = k ∧ x = y := by
  -- Behind an element there is another one, after a comma, or the end of the list.
  have hbehind : ∀ (l : List α) (x : List Char),
      Delimited ((l.flatMap fun a => ',' :: text a) ++ close :: x) := by
    intro l x
    cases l with
    | nil => exact delimited_cons hdigit x
    | cons b l => exact delimited_cons rfl _
  have htail : ∀ l k : List α,
      (∀ a ∈ l, ∀ b ∈ k, ∀ x y, Delimited x → Delimited y → text a ++ x = text b ++ y →
        a = b ∧ x = y) →
      (l.flatMap fun a => ',' :: text a) ++ close :: x =
        (k.flatMap fun a => ',' :: text a) ++ close :: y → l = k ∧ x = y := by
    intro l
    induction l with
    | nil =>
      intro k _ hk
      cases k with
      | nil => exact ⟨rfl, (List.cons.inj hk).2⟩
      | cons b k => exact absurd (List.cons.inj hk).1 hclose
    | cons a l ih =>
      intro k hinj hk
      cases k with
      | nil => exact absurd (List.cons.inj hk).1.symm hclose
      | cons b k =>
        rw [List.flatMap_cons, List.flatMap_cons, List.append_assoc, List.append_assoc] at hk
        obtain ⟨rfl, hrest⟩ := hinj a List.mem_cons_self b List.mem_cons_self _ _
          (hbehind l x) (hbehind k y) (List.cons.inj hk).2
        obtain ⟨rfl, hxy⟩ := ih k (fun a ha b hb =>
          hinj a (List.mem_cons_of_mem _ ha) b (List.mem_cons_of_mem _ hb)) hrest
        exact ⟨rfl, hxy⟩
  cases l with
  | nil =>
    cases k with
    | nil => exact ⟨rfl, (List.cons.inj h).2⟩
    | cons b k =>
      rw [intercalate_cons, List.append_assoc] at h
      exact absurd h.symm (hbegin b (.inr List.mem_cons_self) _ _)
  | cons a l =>
    rw [intercalate_cons, List.append_assoc] at h
    cases k with
    | nil => exact absurd h (hbegin a (.inl List.mem_cons_self) _ _)
    | cons b k =>
      rw [intercalate_cons, List.append_assoc] at h
      obtain ⟨rfl, hrest⟩ := hinj a List.mem_cons_self b List.mem_cons_self _ _
        (hbehind l x) (hbehind k y) h
      obtain ⟨rfl, hxy⟩ := htail l k (fun a ha b hb =>
        hinj a (List.mem_cons_of_mem _ ha) b (List.mem_cons_of_mem _ hb)) hrest
      exact ⟨rfl, hxy⟩

end Lists

theorem takeWhile_digits {n : Nat} {x : List Char} (hx : Delimited x) :
    ((toString n).toList ++ x).takeWhile Text.isAsciiDigit = (toString n).toList := by
  have hrest : x.takeWhile Text.isAsciiDigit = [] := by
    cases x with
    | nil => rfl
    | cons c x => rw [List.takeWhile_cons, hx c rfl, if_neg Bool.false_ne_true]
  rw [List.takeWhile_append_of_pos fun c => Text.isAsciiDigit_of_mem_toString, hrest,
    List.append_nil]

theorem digits_append_inj {m n : Nat} {x y : List Char} (hx : Delimited x) (hy : Delimited y)
    (h : (toString m).toList ++ x = (toString n).toList ++ y) : m = n ∧ x = y := by
  have hdigits := congrArg (List.takeWhile Text.isAsciiDigit) h
  rw [takeWhile_digits hx, takeWhile_digits hy] at hdigits
  refine ⟨?_, List.append_cancel_left (hdigits ▸ h)⟩
  rw [← Text.decimalValue_toString m, hdigits, Text.decimalValue_toString]

/-! ### Values -/

inductive NumberFree : Json → Prop
  | null : NumberFree .null
  | bool (b : Bool) : NumberFree (.bool b)
  | string (s : String) : NumberFree (.string s)
  | array {items : List Json} (h : ∀ v ∈ items, NumberFree v) : NumberFree (.array items)
  | object {members : List (String × Json)} (h : ∀ m ∈ members, NumberFree m.2) :
    NumberFree (.object members)

/-- All numbers in the value are natural ones. -/
inductive Legible : Json → Prop
  | null : Legible .null
  | bool (b : Bool) : Legible (.bool b)
  | natural (n : Nat) : Legible (.ofNat n)
  | string (s : String) : Legible (.string s)
  | array {items : List Json} (h : ∀ v ∈ items, Legible v) : Legible (.array items)
  | object {members : List (String × Json)} (h : ∀ m ∈ members, Legible m.2) :
    Legible (.object members)

theorem NumberFree.legible {v : Json} (h : v.NumberFree) : v.Legible := by
  induction h with
  | null => exact .null
  | bool b => exact .bool b
  | string s => exact .string s
  | array _ ih => exact .array ih
  | object _ ih => exact .object ih

theorem compact_ofNat (n : Nat) : (ofNat n).compact = toString n := rfl

theorem toList_compact_array (items : List Json) : (Json.array items).compact.toList =
    '[' :: ([','].intercalate (items.map fun v => v.compact.toList) ++ [']']) := by
  have hitems : compactItems items = items.map compact := by
    induction items with
    | nil => rfl
    | cons v items ih => rw [compactItems, ih, List.map_cons]
  rw [compact, hitems, String.toList_append, String.toList_append, String.toList_intercalate,
    List.map_map]
  rfl

def memberText (m : String × Json) : List Char := (quoted m.1).toList ++ ':' :: m.2.compact.toList

theorem toList_compact_object (members : List (String × Json)) :
    (Json.object members).compact.toList =
      '\x7b' :: ([','].intercalate (members.map memberText) ++ ['\x7d']) := by
  have hmembers : (compactMembers members).map String.toList = members.map memberText := by
    induction members with
    | nil => rfl
    | cons m members ih =>
      rw [compactMembers, List.map_cons, ih, List.map_cons, String.toList_append,
        String.toList_append, List.append_assoc]
      rfl
  rw [compact, String.toList_append, String.toList_append, String.toList_intercalate, hmembers]
  rfl

/-- The character that the compact text of a value begins with, zero standing for all digits. -/
def lead : Json → Char
  | .null => 'n'
  | .bool true => 't'
  | .bool false => 'f'
  | .number _ => '0'
  | .string _ => '"'
  | .array _ => '['
  | .object _ => '\x7b'

theorem exists_toList_compact {v : Json} (hv : v.Legible) :
    ∃ c rest, v.compact.toList = c :: rest ∧
      (if Text.isAsciiDigit c then '0' else c) = v.lead := by
  cases hv with
  | null => exact ⟨_, _, rfl, rfl⟩
  | bool b => cases b <;> exact ⟨_, _, rfl, rfl⟩
  | natural n =>
    rw [compact_ofNat]
    obtain ⟨c, rest, htext⟩ := List.exists_cons_of_ne_nil (Text.toList_toString_ne_nil n)
    have hdigit := Text.isAsciiDigit_of_mem_toString (htext ▸ List.mem_cons_self)
    exact ⟨c, rest, htext, if_pos hdigit⟩
  | string s => exact ⟨_, _, toList_quoted s, rfl⟩
  | array => exact ⟨_, _, toList_compact_array _, rfl⟩
  | object => exact ⟨_, _, toList_compact_object _, rfl⟩

theorem lead_eq {v w : Json} (hv : v.Legible) (hw : w.Legible) {x y : List Char}
    (h : v.compact.toList ++ x = w.compact.toList ++ y) : v.lead = w.lead := by
  obtain ⟨c, rest, hrest, hlead⟩ := exists_toList_compact hv
  obtain ⟨d, rest', hrest', hlead'⟩ := exists_toList_compact hw
  rw [hrest, hrest'] at h
  rw [← hlead, ← hlead', (List.cons.inj h).1]

theorem compact_append_ne {v : Json} (hv : v.Legible) (x y : List Char) :
    v.compact.toList ++ x ≠ ']' :: y := by
  intro h
  obtain ⟨c, rest, hrest, hlead⟩ := exists_toList_compact hv
  rw [hrest] at h
  obtain rfl : c = ']' := (List.cons.inj h).1
  rw [if_neg (by decide)] at hlead
  cases hv with
  | bool b => cases b <;> simp [lead] at hlead
  | _ => simp [lead, ofNat] at hlead

theorem memberText_append_ne (m : String × Json) (x y : List Char) :
    memberText m ++ x ≠ '\x7d' :: y := by
  intro h
  rw [memberText, toList_quoted] at h
  exact absurd (List.cons.inj h).1 (by decide)

theorem memberText_append_inj {m n : String × Json} {x y : List Char}
    (hvalue : m.2.compact.toList ++ x = n.2.compact.toList ++ y → m.2 = n.2 ∧ x = y)
    (h : memberText m ++ x = memberText n ++ y) : m = n ∧ x = y := by
  rw [memberText, memberText, List.append_assoc, List.append_assoc] at h
  obtain ⟨hkey, hrest⟩ := quoted_append_inj h
  obtain ⟨hvalue, hxy⟩ := hvalue (List.cons.inj hrest).2
  exact ⟨Prod.ext hkey hvalue, hxy⟩

/-- The compact text of a value with natural numbers tells the value, and where it ends. -/
theorem compact_append_inj {v w : Json} (hv : v.Legible) (hw : w.Legible) {x y : List Char}
    (hx : Delimited x) (hy : Delimited y)
    (h : v.compact.toList ++ x = w.compact.toList ++ y) : v = w ∧ x = y := by
  -- The first character tells which kind of value it is; what follows is then split off.
  induction hv generalizing w x y with
  | null =>
    have hlead := lead_eq .null hw h
    cases hw with
    | null => exact ⟨rfl, List.append_cancel_left h⟩
    | bool b => cases b <;> simp [lead] at hlead
    | _ => simp [lead, ofNat] at hlead
  | bool b =>
    have hlead := lead_eq (.bool b) hw h
    cases hw with
    | bool c =>
      cases b <;> cases c
      · exact ⟨rfl, List.append_cancel_left h⟩
      · simp [lead] at hlead
      · simp [lead] at hlead
      · exact ⟨rfl, List.append_cancel_left h⟩
    | _ => cases b <;> simp [lead, ofNat] at hlead
  | natural n =>
    have hlead := lead_eq (.natural n) hw h
    cases hw with
    | natural m =>
      obtain ⟨rfl, hxy⟩ := digits_append_inj hx hy h
      exact ⟨rfl, hxy⟩
    | bool b => cases b <;> simp [lead, ofNat] at hlead
    | _ => simp [lead, ofNat] at hlead
  | string s =>
    have hlead := lead_eq (.string s) hw h
    cases hw with
    | string t =>
      obtain ⟨rfl, hxy⟩ := quoted_append_inj h
      exact ⟨rfl, hxy⟩
    | bool b => cases b <;> simp [lead] at hlead
    | _ => simp [lead, ofNat] at hlead
  | @array items hitems ih =>
    have hlead := lead_eq (.array hitems) hw h
    cases hw with
    | @array items' hitems' =>
      rw [toList_compact_array, toList_compact_array, List.cons_append, List.cons_append,
        List.append_assoc, List.append_assoc] at h
      obtain ⟨rfl, hxy⟩ := intercalate_append_inj (by decide) rfl
        (fun a ha b hb x y hx hy hab => ih a ha (hitems' b hb) hx hy hab)
        (fun a ha => compact_append_ne (ha.elim (hitems a) (hitems' a))) (List.cons.inj h).2
      exact ⟨rfl, hxy⟩
    | bool b => cases b <;> simp [lead] at hlead
    | _ => simp [lead, ofNat] at hlead
  | @object members hmembers ih =>
    have hlead := lead_eq (.object hmembers) hw h
    cases hw with
    | @object members' hmembers' =>
      rw [toList_compact_object, toList_compact_object, List.cons_append, List.cons_append,
        List.append_assoc, List.append_assoc] at h
      obtain ⟨rfl, hxy⟩ := intercalate_append_inj (by decide) rfl
        (fun m hm n hn x y hx hy => memberText_append_inj fun hab =>
          ih m hm (hmembers' n hn) hx hy hab)
        (fun m _ => memberText_append_ne m) (List.cons.inj h).2
      exact ⟨rfl, hxy⟩
    | bool b => cases b <;> simp [lead] at hlead
    | _ => simp [lead, ofNat] at hlead

theorem compact_inj {v w : Json} (hv : v.Legible) (hw : w.Legible)
    (h : v.compact = w.compact) : v = w := by
  have htexts : v.compact.toList ++ [] = w.compact.toList ++ [] := by rw [h]
  exact (compact_append_inj hv hw delimited_nil delimited_nil htexts).1

end JsonTyping.Json
