import JsonTyping.Url.Reader
import Mathlib.Data.List.Basic
import Mathlib.Data.List.TakeWhile
import Mathlib.Tactic.IntervalCases

/-!
# Characters of URLs

A part of a URL holds no character that has to be escaped in it (`Url.Kept`), once it was escaped:
escapes are made of characters that are kept everywhere (`Url.kept_escape`). So escaping a part
again leaves it alone (`Url.Kept.escape_eq`), and what separates the parts does not occur in them:
blanks, schemes and queries are read back as they were written.
-/

namespace JsonTyping

section TakeWhile

variable {α : Type} {p : α → Bool} {l after : List α}

theorem takeWhile_append_stop (hl : ∀ c ∈ l, p c = true)
    (hafter : ∀ c, after.head? = some c → p c = false) :
    (l ++ after).takeWhile p = l := by
  rw [List.takeWhile_append_of_pos hl]
  cases after with
  | nil => simp
  | cons c after => rw [List.takeWhile_cons_of_neg (by simp [hafter c rfl]), List.append_nil]

theorem dropWhile_append_stop (hl : ∀ c ∈ l, p c = true)
    (hafter : ∀ c, after.head? = some c → p c = false) :
    (l ++ after).dropWhile p = after := by
  rw [List.dropWhile_append_of_pos hl]
  cases after with
  | nil => simp
  | cons c after => rw [List.dropWhile_cons_of_neg (by simp [hafter c rfl])]

end TakeWhile

theorem byteList_loop (bytes : ByteArray) (i : Nat) (done : List UInt8) :
    ByteArray.toList.loop bytes i done = done.reverse ++ bytes.data.toList.drop i := by
  induction i, done using ByteArray.toList.loop.induct bytes with
  | case1 i done hlt ih =>
    have hlt' : i < bytes.data.toList.length := by simpa using hlt
    have hget : bytes.get! i = bytes.data.toList[i] := by
      simp only [ByteArray.get!, Array.getElem_toList]
      exact getElem!_pos bytes.data i (by simpa using hlt)
    rw [ByteArray.toList.loop, if_pos hlt, ih, List.drop_eq_getElem_cons hlt', hget]
    simp
  | case2 i done hge =>
    rw [ByteArray.toList.loop, if_neg hge, List.drop_eq_nil_of_le (by simpa using hge),
      List.append_nil]

theorem byteList_eq_data (bytes : ByteArray) : bytes.toList = bytes.data.toList := by
  rw [ByteArray.toList, byteList_loop]
  rfl

namespace Url

/-- What can be decided for each of the ASCII characters holds for all of them. -/
theorem forall_ascii {P : Char → Prop} [DecidablePred P]
    (h : ∀ n < 128, P (Char.ofNat n)) {c : Char} (hc : c.toNat < 128) : P c := by
  rw [← Char.ofNat_toNat c]
  exact h c.toNat hc

/-- What can be decided for each character of a list holds for all of them. -/
theorem forall_mem_of_all {P : Char → Prop} [DecidablePred P] {l : List Char}
    (h : l.all (fun c => decide (P c)) = true) : ∀ c ∈ l, P c :=
  fun c hc => of_decide_eq_true (List.all_eq_true.1 h c hc)

/-! ### Escapes -/

/-- The characters that escapes are made of. -/
def escapeChars : List Char :=
  ['%', '0', '1', '2', '3', '4', '5', '6', '7', '8', '9', 'A', 'B', 'C', 'D', 'E', 'F']

theorem upperHex_mem {n : Nat} (h : n < 16) : upperHex n ∈ escapeChars := by
  interval_cases n <;> decide

theorem escapeByte_mem (b : UInt8) {c : Char} (h : c ∈ escapeByte b) : c ∈ escapeChars := by
  have hsize := b.toNat_lt
  rcases List.mem_cons.1 h with rfl | h
  · decide
  · rcases List.mem_cons.1 h with rfl | h
    · exact upperHex_mem (by omega)
    · obtain rfl := List.mem_singleton.1 h
      exact upperHex_mem (by omega)

variable {escaped : Char → Bool} {chars : List Char}

/-- What an escaped text is made of: escapes, and the characters that need none. -/
theorem mem_escape {c : Char} (h : c ∈ (escape escaped chars).toList) :
    c ∈ escapeChars ∨ c ∈ chars ∧ escaped c = false := by
  rw [escape, String.toList_ofList, List.mem_flatMap] at h
  obtain ⟨d, hd, hc⟩ := h
  cases hescaped : escaped d with
  | true =>
    rw [hescaped, if_pos rfl, List.mem_flatMap] at hc
    obtain ⟨b, -, hb⟩ := hc
    exact .inl (escapeByte_mem b hb)
  | false =>
    rw [hescaped, if_neg Bool.false_ne_true, List.mem_singleton] at hc
    subst hc
    exact .inr ⟨hd, hescaped⟩

/-- A text without characters that would have to be escaped. -/
def Kept (escaped : Char → Bool) (s : String) : Prop := ∀ c ∈ s.toList, escaped c = false

theorem kept_escape (hplain : ∀ c ∈ escapeChars, escaped c = false) :
    Kept escaped (escape escaped chars) := by
  intro c hc
  rcases mem_escape hc with hc | ⟨-, hc⟩
  · exact hplain c hc
  · exact hc

theorem escape_of_kept (h : ∀ c ∈ chars, escaped c = false) :
    escape escaped chars = String.ofList chars := by
  rw [escape]
  congr 1
  induction chars with
  | nil => rfl
  | cons c chars ih =>
    have hc := h c List.mem_cons_self
    rw [List.flatMap_cons, hc, if_neg Bool.false_ne_true,
      ih fun d hd => h d (List.mem_cons_of_mem c hd)]
    rfl

theorem Kept.escape_eq {s : String} (h : Kept escaped s) : escape escaped s.toList = s := by
  rw [escape_of_kept h, String.ofList_toList]

/-- The bytes of a text, character by character. -/
theorem toList_toUTF8_singleton (c : Char) :
    (String.singleton c).toUTF8.toList = String.utf8EncodeChar c := by
  rw [byteList_eq_data, String.toUTF8_eq_toByteArray, String.toByteArray_singleton,
    List.utf8Encode, List.toList_data_toByteArray, List.flatMap_singleton]

theorem utf8EncodeChar_ne_nil (c : Char) : String.utf8EncodeChar c ≠ [] := by
  intro hnil
  have hlength := String.length_utf8EncodeChar c
  have hsize := c.utf8Size_pos
  rw [hnil, List.length_nil] at hlength
  omega

theorem escape_ne_empty (h : chars ≠ []) : escape escaped chars ≠ "" := by
  obtain ⟨c, rest, rfl⟩ := List.exists_cons_of_ne_nil h
  intro hempty
  have hnil := congrArg String.toList hempty
  rw [escape, String.toList_ofList, List.flatMap_cons] at hnil
  have hfirst := (List.append_eq_nil_iff.1 hnil).1
  split at hfirst
  · obtain ⟨b, bytes, hbytes⟩ := List.exists_cons_of_ne_nil (utf8EncodeChar_ne_nil c)
    rw [toList_toUTF8_singleton, hbytes] at hfirst
    cases hfirst
  · cases hfirst

/-- An escaped text begins with an escape, or as the text itself. -/
theorem head?_escape {c : Char} (h : (escape escaped chars).toList.head? = some c) :
    c ∈ escapeChars ∨ chars.head? = some c := by
  cases chars with
  | nil => cases h
  | cons first rest =>
    rw [escape, String.toList_ofList, List.flatMap_cons] at h
    split at h
    · obtain ⟨b, bytes, hbytes⟩ := List.exists_cons_of_ne_nil (utf8EncodeChar_ne_nil first)
      rw [toList_toUTF8_singleton, hbytes] at h
      obtain rfl := Option.some.inj h
      exact .inl (by decide)
    · exact .inr h

/-- An escaped text ends in a character of an escape, or as the text itself. -/
theorem getLast?_escape {c : Char} (h : (escape escaped chars).toList.getLast? = some c) :
    c ∈ escapeChars ∨ chars.getLast? = some c := by
  rcases List.eq_nil_or_concat' chars with rfl | ⟨front, last, rfl⟩
  · cases h
  · rw [escape, String.toList_ofList, List.flatMap_append, List.flatMap_singleton,
      List.getLast?_append] at h
    cases hescaped : escaped last with
    | true =>
      rw [hescaped, if_pos rfl, toList_toUTF8_singleton] at h
      obtain ⟨front', b, hb⟩ := (List.eq_nil_or_concat' (String.utf8EncodeChar last)).resolve_left
        (utf8EncodeChar_ne_nil last)
      rw [hb, List.flatMap_append, List.flatMap_singleton, List.getLast?_append] at h
      obtain rfl : upperHex (b.toNat % 16) = c := Option.some.inj h
      exact .inl (upperHex_mem (by omega))
    | false =>
      rw [hescaped, if_neg Bool.false_ne_true] at h
      rw [List.getLast?_concat]
      exact .inr h

/-! ### Blanks, schemes and queries -/

variable {s : String} {c : Char}

theorem visible_of_not_control (h : isControl c = false) (hblank : c ≠ ' ') : 0x20 < c.toNat := by
  rw [isControl, Bool.or_eq_false_iff, decide_eq_false_iff_not] at h
  have hne : c.toNat ≠ 0x20 := fun hc => hblank (Char.toNat_inj.1 hc)
  omega

theorem visible_of_notInFragment (h : escapedInFragment c = false) : 0x20 < c.toNat := by
  rw [escapedInFragment, Bool.or_eq_false_iff] at h
  refine visible_of_not_control h.1 ?_
  rintro rfl
  cases h.2

theorem visible_of_notInPath (h : escapedInPath c = false) : 0x20 < c.toNat :=
  visible_of_notInFragment (Bool.or_eq_false_iff.1 h).1

theorem visible_of_notInUserInfo (h : escapedInUserInfo c = false) : 0x20 < c.toNat :=
  visible_of_notInPath (Bool.or_eq_false_iff.1 h).1

theorem visible_of_notInQuery {special : Bool} (h : escapedInQuery special c = false) :
    0x20 < c.toNat := by
  rw [escapedInQuery, Bool.or_eq_false_iff, Bool.or_eq_false_iff] at h
  refine visible_of_not_control h.1.1 ?_
  rintro rfl
  cases h.1.2

theorem mem_of_mem_strip (h : c ∈ strip s) : c ∈ s.toList := by
  have htrimmed := (List.mem_filter.1 h).1
  have hfront := List.dropWhile_sublist _ |>.mem (List.mem_reverse.1 htrimmed)
  exact (List.dropWhile_sublist _).mem (List.mem_reverse.1 hfront)

/-- What is left of a text does not end in a blank. -/
theorem getLast?_strip (h : (strip s).getLast? = some c) : 0x20 < c.toNat := by
  unfold strip at h
  dsimp only at h
  generalize s.toList.dropWhile (fun c => decide (c.toNat ≤ 0x20)) = front at h
  have hlast := List.head?_dropWhile_not (fun c : Char => decide (c.toNat ≤ 0x20)) front.reverse
  cases htrimmed : front.reverse.dropWhile (fun c => decide (c.toNat ≤ 0x20)) with
  | nil =>
    rw [htrimmed] at h
    cases h
  | cons last trimmed =>
    rw [htrimmed] at h hlast
    have hvisible : 0x20 < last.toNat := by simpa using hlast
    have hkept : (last != '\t' && last != '\n' && last != '\r') = true := by
      simp only [Bool.and_eq_true, bne_iff_ne, ne_eq]
      refine ⟨⟨?_, ?_⟩, ?_⟩ <;> rintro rfl <;> exact absurd hvisible (by decide)
    have hlast : [last].filter (fun c => c != '\t' && c != '\n' && c != '\r') = [last] :=
      List.filter_cons_of_pos hkept
    rw [List.reverse_cons, List.filter_append, hlast, List.getLast?_append] at h
    obtain rfl : last = c := Option.some.inj h
    exact hvisible

/-- A text without controls, and without blanks at its ends, stays. -/
theorem strip_ofList {l : List Char} (hinner : ∀ c ∈ l, 0x20 ≤ c.toNat)
    (hhead : ∀ c, l.head? = some c → 0x20 < c.toNat)
    (hlast : ∀ c, l.getLast? = some c → 0x20 < c.toNat) : strip (String.ofList l) = l := by
  have hfilter : l.filter (fun c => c != '\t' && c != '\n' && c != '\r') = l := by
    refine List.filter_eq_self.2 fun c hc => ?_
    have hvisible := hinner c hc
    simp only [Bool.and_eq_true, bne_iff_ne, ne_eq]
    refine ⟨⟨?_, ?_⟩, ?_⟩ <;> rintro rfl <;> exact absurd hvisible (by decide)
  have hstays (l : List Char) (h : ∀ c, l.head? = some c → 0x20 < c.toNat) :
      l.dropWhile (fun c => decide (c.toNat ≤ 0x20)) = l := by
    cases l with
    | nil => rfl
    | cons c l => rw [List.dropWhile_cons_of_neg (by simpa using h c rfl)]
  unfold strip
  dsimp only
  rw [String.toList_ofList, hstays l hhead, hstays l.reverse (by simpa using hlast),
    List.reverse_reverse, hfilter]

def isSchemePart (c : Char) : Bool :=
  Text.isAsciiLetter c || Text.isAsciiDigit c || c == '+' || c == '-' || c == '.'

/-- A letter and parts, in small letters. -/
structure IsScheme (scheme : String) : Prop where
  first : ∃ c rest, scheme.toList = c :: rest ∧ Text.isAsciiLetter c = true
  parts : ∀ c ∈ scheme.toList, isSchemePart c = true ∧ Text.lowerAscii c = c

theorem toNat_of_isSchemePart (h : isSchemePart c = true) : c.toNat < 128 := by
  simp only [isSchemePart, Text.isAsciiLetter, Text.isAsciiDigit, Bool.or_eq_true,
    decide_eq_true_eq, Char.le_def, UInt32.le_iff_toNat_le, beq_iff_eq] at h
  rcases h with ((((⟨-, h⟩ | ⟨-, h⟩) | ⟨-, h⟩) | rfl) | rfl) | rfl
  · exact Nat.lt_of_le_of_lt h (by decide)
  · exact Nat.lt_of_le_of_lt h (by decide)
  · exact Nat.lt_of_le_of_lt h (by decide)
  all_goals decide

theorem isSchemePart_lowerAscii (h : isSchemePart c = true) :
    isSchemePart (Text.lowerAscii c) = true ∧
      Text.lowerAscii (Text.lowerAscii c) = Text.lowerAscii c :=
  forall_ascii (P := fun c => isSchemePart c = true → isSchemePart (Text.lowerAscii c) = true ∧
    Text.lowerAscii (Text.lowerAscii c) = Text.lowerAscii c) (by decide)
    (toNat_of_isSchemePart h) h

theorem isAsciiLetter_lowerAscii (hpart : isSchemePart c = true)
    (h : Text.isAsciiLetter c = true) : Text.isAsciiLetter (Text.lowerAscii c) = true :=
  forall_ascii (P := fun c => Text.isAsciiLetter c = true →
    Text.isAsciiLetter (Text.lowerAscii c) = true) (by decide) (toNat_of_isSchemePart hpart) h

theorem takeScheme?_eq (l : List Char) : takeScheme? l =
    match l.takeWhile isSchemePart, l.dropWhile isSchemePart with
    | first :: rest, ':' :: after =>
      if Text.isAsciiLetter first then
        some (String.ofList ((first :: rest).map Text.lowerAscii), after)
      else none
    | _, _ => none := rfl

theorem takeScheme?_spec {l rest : List Char} {scheme : String}
    (h : takeScheme? l = some (scheme, rest)) :
    IsScheme scheme ∧ ∃ front, l = front ++ ':' :: rest := by
  have hl := (List.takeWhile_append_dropWhile (p := isSchemePart) (l := l)).symm
  have hparts : ∀ c ∈ l.takeWhile isSchemePart, isSchemePart c = true :=
    fun c hc => List.mem_takeWhile_imp hc
  rw [takeScheme?_eq] at h
  generalize l.takeWhile isSchemePart = part at h hl hparts
  generalize l.dropWhile isSchemePart = after at h hl
  split at h
  · split at h
    · rename_i first others after hletter
      obtain ⟨rfl, rfl⟩ := Prod.mk.inj (Option.some.inj h)
      refine ⟨⟨⟨Text.lowerAscii first, others.map Text.lowerAscii, ?_, ?_⟩, fun c hc => ?_⟩,
        first :: others, hl⟩
      · rw [String.toList_ofList, List.map_cons]
      · exact isAsciiLetter_lowerAscii (hparts first List.mem_cons_self) hletter
      · rw [String.toList_ofList, List.mem_map] at hc
        obtain ⟨d, hd, rfl⟩ := hc
        exact isSchemePart_lowerAscii (hparts d hd)
    · cases h
  · cases h

theorem IsScheme.takeScheme?_append {scheme : String} (h : IsScheme scheme) (rest : List Char) :
    takeScheme? (scheme.toList ++ ':' :: rest) = some (scheme, rest) := by
  have hparts : ∀ c ∈ scheme.toList, isSchemePart c = true := fun c hc => (h.parts c hc).1
  have htake : (scheme.toList ++ ':' :: rest).takeWhile isSchemePart = scheme.toList :=
    takeWhile_append_stop hparts (by rintro c ⟨⟩; decide)
  have hdrop : (scheme.toList ++ ':' :: rest).dropWhile isSchemePart = ':' :: rest :=
    dropWhile_append_stop hparts (by rintro c ⟨⟩; decide)
  obtain ⟨first, others, hscheme, hletter⟩ := h.first
  have hlower : (first :: others).map Text.lowerAscii = first :: others := by
    rw [← hscheme]
    exact (List.map_congr_left fun c hc => (h.parts c hc).2).trans (List.map_id _)
  have hwritten : String.ofList (first :: others) = scheme := by
    rw [← hscheme, String.ofList_toList]
  rw [hscheme] at htake hdrop
  rw [hscheme]
  rw [takeScheme?_eq, htake, hdrop]
  change (if Text.isAsciiLetter first = true then
    some (String.ofList ((first :: others).map Text.lowerAscii), rest) else none) = _
  rw [if_pos hletter, hlower, hwritten]

/-- A query as it is written behind a path. -/
def queryChars : Option String → List Char
  | some q => '?' :: q.toList
  | none => []

theorem escapedInQuery_escapeChars (special : Bool) :
    ∀ c ∈ escapeChars, escapedInQuery special c = false :=
  forall_mem_of_all (by cases special <;> decide)

theorem kept_tail {special : Bool} {l : List Char} {q : String} (h : (tail special l).1 = some q) :
    Kept (escapedInQuery special) q := by
  unfold tail at h
  split at h
  · obtain rfl := Option.some.inj h
    exact kept_escape (escapedInQuery_escapeChars special)
  · cases h

theorem tail_queryChars {special : Bool} {query : Option String}
    (h : ∀ q, query = some q → Kept (escapedInQuery special) q) :
    tail special (queryChars query) = (query, none) := by
  cases query with
  | none => rfl
  | some q =>
    have hkept := h q rfl
    have hhash : ∀ c ∈ q.toList, (c != '#') = true := by
      rintro c hc
      rw [bne_iff_ne]
      rintro rfl
      have hescaped : escapedInQuery special '#' = true := by cases special <;> rfl
      cases hescaped.symm.trans (hkept _ hc)
    have htake : q.toList.takeWhile (· != '#') = q.toList := List.takeWhile_eq_self_iff.2 hhash
    have hdrop : q.toList.dropWhile (· != '#') = [] := List.dropWhile_eq_nil_iff.2 hhash
    unfold queryChars
    rw [tail, htake, hdrop, hkept.escape_eq]

end Url

end JsonTyping
