import JsonTyping.Proofs.HostAddresses
import JsonTyping.Proofs.DocumentPaths
import JsonTyping.Proofs.UrlCharacters

/-!
# Hosts read back

The host of a URL holds nothing that could end it, but for the colons of an IPv6 address between
brackets (`Url.IsHostText`). Read again it is the same host, unless it is a name that was written
with other characters than ASCII or with an encoded label: such a name is read back only if it is
its own ASCII form (`Url.specialHost?_read`).
-/

namespace JsonTyping

theorem Text.lowerAscii_lowerAscii (c : Char) : lowerAscii (lowerAscii c) = lowerAscii c := by
  by_cases hc : 'A' ≤ c ∧ c ≤ 'Z'
  · have hle : c.toNat < 128 := by
      have h := hc.2
      rw [Char.le_def, UInt32.le_iff_toNat_le] at h
      exact Nat.lt_of_le_of_lt h (by decide)
    exact Url.forall_ascii (P := fun c => lowerAscii (lowerAscii c) = lowerAscii c) (by decide) hle
  · have hstays : lowerAscii c = c := if_neg hc
    rw [hstays, hstays]

namespace Url

variable {chars : List Char} {name host : String} {c : Char}

/-- Characters that end a host or could be taken for part of what stands around it. -/
def hostEnds : List Char := [':', '/', '\\', '?', '#', '@', '[', ']', '|']

/-- An IPv6 address between brackets, or a text that nothing in it ends. -/
inductive IsHostText (host : String) : Prop
  | bracketed (inner : List Char) (h : host.toList = '[' :: inner ++ [']'])
      (hinner : ∀ c ∈ inner, c = ':' ∨ c ∈ hexDigits)
  | plain (h : ∀ c ∈ host.toList, 0x20 < c.toNat ∧ c ∉ hostEnds)

theorem bracketHost?_cases (h : bracketHost? chars = some host) :
    ∃ pieces, IsIpv6 pieces ∧ host = "[" ++ ipv6Text pieces ++ "]" := by
  unfold bracketHost? at h
  split at h
  · obtain ⟨pieces, hpieces, rfl⟩ := Option.map_eq_some_iff.1 h
    exact ⟨pieces, isIpv6_of_read hpieces, rfl⟩
  · cases h

theorem toList_bracketed (pieces : List Nat) :
    ("[" ++ ipv6Text pieces ++ "]").toList = '[' :: ((ipv6Text pieces).toList ++ [']']) := by
  rw [String.toList_append, String.toList_append]
  rfl

theorem bracketHost?_read {pieces : List Nat} (h : IsIpv6 pieces) :
    bracketHost? ((ipv6Text pieces).toList ++ [']']) = some ("[" ++ ipv6Text pieces ++ "]") := by
  unfold bracketHost?
  rw [List.reverse_append, List.reverse_singleton, List.singleton_append]
  change ((ipv6Address? (ipv6Text pieces).toList.reverse.reverse).map _) = _
  rw [List.reverse_reverse, ipv6Address?_text h]
  rfl

theorem isHostText_bracketed (pieces : List Nat) :
    IsHostText ("[" ++ ipv6Text pieces ++ "]") := by
  refine .bracketed (ipv6Text pieces).toList (toList_bracketed pieces) fun c hc => ?_
  rw [toList_ipv6Text] at hc
  split at hc
  · exact mem_joinedPieces hc
  · rw [List.mem_append, List.mem_cons, List.mem_cons] at hc
    rcases hc with hc | hc | hc | hc
    · exact mem_joinedPieces hc
    · exact .inl hc
    · exact .inl hc
    · exact mem_joinedPieces hc

theorem forbiddenInHost_escapeChars : ∀ c ∈ escapeChars,
    forbiddenInHost c = false ∧ isControl c = false :=
  forall_mem_of_all (by decide)

theorem otherHost?_cases (h : otherHost? chars = some host) :
    (∃ pieces, IsIpv6 pieces ∧ host = "[" ++ ipv6Text pieces ++ "]") ∨
      ∀ c ∈ host.toList, forbiddenInHost c = false ∧ isControl c = false := by
  unfold otherHost? at h
  split at h
  · exact .inl (bracketHost?_cases h)
  · split at h
    · cases h
    · rename_i hallowed
      obtain rfl := Option.some.inj h
      refine .inr fun c hc => ?_
      rcases mem_escape hc with hc | ⟨hmem, hc⟩
      · exact forbiddenInHost_escapeChars c hc
      · rw [Bool.not_eq_true, List.any_eq_false] at hallowed
        exact ⟨Bool.not_eq_true _ ▸ hallowed c hmem, hc⟩

/-- Only no text at all is read as an empty host. -/
theorem otherHost?_empty (h : otherHost? chars = some "") : chars = [] := by
  by_contra hne
  unfold otherHost? at h
  split at h
  · obtain ⟨pieces, -, hempty⟩ := bracketHost?_cases h
    have htext := toList_bracketed pieces
    rw [← hempty] at htext
    cases htext
  · split at h
    · cases h
    · exact escape_ne_empty hne (Option.some.inj h)

theorem otherHost?_read (h : otherHost? chars = some host) :
    otherHost? host.toList = some host := by
  rcases otherHost?_cases h with ⟨pieces, hpieces, rfl⟩ | hplain
  · rw [toList_bracketed]
    exact bracketHost?_read hpieces
  · have hallowed : ¬host.toList.any forbiddenInHost = true := by
      rw [Bool.not_eq_true, List.any_eq_false]
      intro c hc
      rw [(hplain c hc).1]
      exact Bool.false_ne_true
    have hkept : Kept isControl host := fun c hc => (hplain c hc).2
    unfold otherHost?
    split
    · rename_i rest hbracket
      have hfirst := (hplain '[' (hbracket ▸ List.mem_cons_self)).1
      exact absurd hfirst (by decide)
    · rw [if_neg hallowed, hkept.escape_eq]

theorem forbiddenInHost_hostEnds : ∀ c ∈ hostEnds, forbiddenInHost c = true :=
  forall_mem_of_all (by decide)

theorem otherHost?_text (h : otherHost? chars = some host) : IsHostText host := by
  rcases otherHost?_cases h with ⟨pieces, -, rfl⟩ | hplain
  · exact isHostText_bracketed pieces
  · refine .plain fun c hc => ?_
    obtain ⟨hallowed, hcontrol⟩ := hplain c hc
    have hends : c ∉ hostEnds ∧ c ≠ ' ' := by
      constructor
      · intro hend
        cases hallowed.symm.trans (forbiddenInHost_hostEnds c hend)
      · rintro rfl
        cases hallowed
    exact ⟨visible_of_not_control hcontrol hends.2, hends.1⟩

theorem domainToAscii_of_plain {l : List Char} (hlower : ∀ c ∈ l, Text.lowerAscii c = c)
    (hplain : isPlain l = true) (hallowed : ∀ c ∈ l, forbiddenInDomain c = false) :
    domainToAscii (String.ofList l) = some (String.ofList l) := by
  have hmap : l.map Text.lowerAscii = l :=
    (List.map_congr_left hlower).trans (List.map_id l)
  have hany : ¬l.any forbiddenInDomain = true := by
    rw [Bool.not_eq_true, List.any_eq_false]
    intro c hc
    rw [hallowed c hc]
    exact Bool.false_ne_true
  unfold domainToAscii
  dsimp only
  rw [String.toList_ofList, hmap, if_pos hplain, if_neg hany]

/-- The small letters of a name. -/
def lowered (name : String) : List Char := name.toList.map Text.lowerAscii

/-- A plain name is written in small letters, and that is how it is written again. -/
theorem domainToAscii_read_of_plain {domain : String} (hplain : isPlain (lowered name) = true)
    (h : domainToAscii name = some domain) : domainToAscii domain = some domain := by
  unfold domainToAscii at h
  dsimp only at h
  change (if isPlain (lowered name) = true then _ else _) = _ at h
  rw [if_pos hplain] at h
  split at h
  · cases h
  · rename_i hallowed
    obtain rfl := Option.some.inj h
    refine domainToAscii_of_plain (fun c hc => ?_) hplain fun c hc => ?_
    · obtain ⟨d, -, rfl⟩ := List.mem_map.1 hc
      exact Text.lowerAscii_lowerAscii d
    · rw [Bool.not_eq_true, List.any_eq_false] at hallowed
      exact Bool.not_eq_true _ ▸ hallowed c hc

/-! ### Encoded labels -/

namespace Punycode

/-- The digits of encoded labels. -/
def isDigit (c : Char) : Bool := Text.isAsciiDigit c || decide ('a' ≤ c ∧ c ≤ 'z')

theorem isDigit_digit {value : Nat} (h : value < 36) : isDigit (digit value) = true :=
  (by decide : ∀ value < 36, isDigit (digit value) = true) value h

theorem isDigit_of_mem_numberDigits {bias position number : Nat} {c : Char}
    (h : c ∈ numberDigits bias position number) : isDigit c = true := by
  induction number using Nat.strongRecOn generalizing position with
  | ind number ih =>
    have hthreshold : 1 ≤ threshold bias position ∧ threshold bias position ≤ 26 := by
      unfold threshold
      omega
    unfold numberDigits at h
    dsimp only at h
    split at h
    · rename_i hlast
      rw [List.mem_singleton.1 h]
      exact isDigit_digit (by omega)
    · rename_i hmore
      rcases List.mem_cons.1 h with rfl | h
      · have hmod : (number - threshold bias position) % (36 - threshold bias position) <
            36 - threshold bias position := Nat.mod_lt _ (by omega)
        exact isDigit_digit (by omega)
      · exact ih _ (Nat.lt_of_le_of_lt (Nat.div_le_self _ _) (by omega)) h

theorem digits_pass {code basics : Nat} {w : Writing} (c : Char)
    (h : ∀ d ∈ w.digits, isDigit d = true) :
    ∀ d ∈ (w.pass code basics c).digits, isDigit d = true := by
  unfold Writing.pass
  split
  · exact h
  · split
    · intro d hd
      rcases List.mem_append.1 hd with hd | hd
      · exact h d hd
      · exact isDigit_of_mem_numberDigits hd
    · exact h

theorem digits_writeCodes {label : List Char} {basics next : Nat} {codes : List Nat} {w : Writing}
    (h : ∀ d ∈ w.digits, isDigit d = true) :
    ∀ d ∈ (writeCodes label basics next codes w).digits, isDigit d = true := by
  induction codes generalizing next w with
  | nil => exact h
  | cons code codes ih =>
    refine ih ?_
    exact List.foldlRecOn label _ (motive := fun w : Writing => ∀ d ∈ w.digits, isDigit d = true)
      h fun w hw c _ => digits_pass c hw

theorem mem_encode {label : List Char} {c : Char} (h : c ∈ encode label) :
    c ∈ label ∨ c = '-' ∨ isDigit c = true := by
  unfold encode at h
  dsimp only at h
  rw [List.mem_append, List.mem_append] at h
  rcases h with (h | h) | h
  · exact .inl (List.mem_filter.1 h).1
  · split at h
    · cases h
    · exact .inr (.inl (List.mem_singleton.1 h))
  · exact .inr (.inr (digits_writeCodes (fun _ hd => absurd hd List.not_mem_nil) c h))

end Punycode

theorem forbiddenInDomain_of_isDigit (h : Punycode.isDigit c = true) :
    forbiddenInDomain c = false := by
  have hpart : isSchemePart c = true := by
    rw [Punycode.isDigit, Bool.or_eq_true] at h
    rw [isSchemePart, Text.isAsciiLetter]
    rcases h with h | h <;> simp [h]
  exact forall_ascii (P := fun c => Punycode.isDigit c = true → forbiddenInDomain c = false)
    (by decide) (toNat_of_isSchemePart hpart) h

theorem allowed_writeLabel? {label written : List Char} (h : writeLabel? label = some written)
    (hallowed : ∀ c ∈ label, forbiddenInDomain c = false) :
    ∀ c ∈ written, forbiddenInDomain c = false := by
  unfold writeLabel? at h
  split at h
  · obtain rfl := Option.some.inj h
    exact hallowed
  · split at h
    · cases h
    · obtain rfl := Option.some.inj h
      intro c hc
      rcases List.mem_append.1 hc with hc | hc
      · exact forall_mem_of_all (P := fun c => forbiddenInDomain c = false) (by decide) c hc
      · rcases Punycode.mem_encode hc with hc | rfl | hc
        · exact hallowed c hc
        · decide
        · exact forbiddenInDomain_of_isDigit hc

theorem allowed_decodeLabel? {encoded label : List Char} (h : decodeLabel? encoded = some label) :
    ∀ c ∈ label, forbiddenInDomain c = false := by
  unfold decodeLabel? at h
  split at h
  · cases h
  · obtain ⟨decoded, -, h⟩ := Option.bind_eq_some_iff.1 h
    split at h
    · rename_i hdecoded
      obtain rfl := Option.some.inj h
      intro c hc
      rw [isDecodedLabel, Bool.and_eq_true, List.all_eq_true] at hdecoded
      have hvalid := hdecoded.2 c hc
      simp only [Bool.and_eq_true, Bool.not_eq_true'] at hvalid
      exact hvalid.2
    · cases h

theorem allowed_readLabel? {label read : List Char} (h : readLabel? label = some read)
    (hallowed : ∀ c ∈ label, forbiddenInDomain c = false) :
    ∀ c ∈ read, forbiddenInDomain c = false := by
  unfold readLabel? at h
  dsimp only at h
  split at h
  · obtain ⟨decoded, hdecoded, h⟩ := Option.bind_eq_some_iff.1 h
    split at h
    · cases h
    · obtain rfl := Option.some.inj h
      exact allowed_decodeLabel? hdecoded
  · obtain ⟨_, hlabel, h⟩ := Option.bind_eq_some_iff.1 h
    obtain rfl := Option.some.inj hlabel
    split at h
    · cases h
    · obtain rfl := Option.some.inj h
      exact hallowed

theorem mem_intercalate {separator c : Char} {parts : List (List Char)} :
    c ∈ [separator].intercalate parts →
      c = separator ∨ ∃ part ∈ parts, c ∈ part := by
  induction parts with
  | nil => exact fun h => nomatch h
  | cons part parts ih =>
    cases parts with
    | nil =>
      rw [List.intercalate_singleton]
      exact fun h => .inr ⟨part, List.mem_cons_self, h⟩
    | cons next parts =>
      rw [List.intercalate_cons_cons, List.mem_append, List.mem_append, List.mem_singleton]
      rintro ((h | h) | h)
      · exact .inr ⟨part, List.mem_cons_self, h⟩
      · exact .inl h
      · exact (ih h).imp_right fun ⟨p, hp, hc⟩ => ⟨p, List.mem_cons_of_mem part hp, hc⟩

theorem mem_intercalate_of_mem {separator c : Char} {part : List Char} {parts : List (List Char)}
    (hpart : part ∈ parts) (hc : c ∈ part) : c ∈ [separator].intercalate parts := by
  induction parts with
  | nil => cases hpart
  | cons first parts ih =>
    cases parts with
    | nil =>
      rw [List.intercalate_singleton, ← List.mem_singleton.1 hpart]
      exact hc
    | cons next parts =>
      rw [List.intercalate_cons_cons, List.mem_append, List.mem_append]
      rcases List.mem_cons.1 hpart with rfl | hpart
      · exact .inl (.inl hc)
      · exact .inr (ih hpart)

theorem mem_of_mem_splitOn {l part : List Char} {separator c : Char}
    (hpart : part ∈ l.splitOn separator) (hc : c ∈ part) : c ∈ l := by
  have hjoined : [separator].intercalate (l.splitOn separator) = l :=
    List.intercalate_splitOn separator
  rw [← hjoined]
  exact mem_intercalate_of_mem hpart hc

theorem allowed_labels? {labels : List (List Char)} {l : List Char} (h : labels? l = some labels) :
    ∀ label ∈ labels, ∀ c ∈ label, forbiddenInDomain c = false := by
  unfold labels? at h
  dsimp only at h
  obtain ⟨mapped, -, h⟩ := Option.bind_eq_some_iff.1 h
  split at h
  · cases h
  · rename_i hallowed
    obtain ⟨read, hread, h⟩ := Option.bind_eq_some_iff.1 h
    split at h
    · cases h
    · obtain rfl := Option.some.inj h
      intro label hlabel
      obtain ⟨part, hpart, hlabel⟩ := exists_of_mem_mapM hread label hlabel
      refine allowed_readLabel? hlabel fun c hc => ?_
      rw [Bool.not_eq_true, List.any_eq_false] at hallowed
      exact Bool.not_eq_true _ ▸ hallowed c (mem_of_mem_splitOn hpart hc)

/-- No name is written with a character that could end it. -/
theorem allowed_domainToAscii {domain : String} (h : domainToAscii name = some domain) :
    ∀ c ∈ domain.toList, forbiddenInDomain c = false := by
  unfold domainToAscii at h
  dsimp only at h
  split at h
  · split at h
    · cases h
    · rename_i hallowed
      obtain rfl := Option.some.inj h
      intro c hc
      rw [String.toList_ofList] at hc
      rw [Bool.not_eq_true, List.any_eq_false] at hallowed
      exact Bool.not_eq_true _ ▸ hallowed c hc
  · obtain ⟨labels, hlabels, h⟩ := Option.bind_eq_some_iff.1 h
    obtain ⟨written, hwritten, h⟩ := Option.bind_eq_some_iff.1 h
    obtain rfl := Option.some.inj h
    intro c hc
    rw [String.toList_ofList] at hc
    rcases mem_intercalate hc with rfl | ⟨part, hpart, hc⟩
    · decide
    · obtain ⟨label, hlabel, hpart⟩ := exists_of_mem_mapM hwritten part hpart
      exact allowed_writeLabel? hpart (allowed_labels? hlabels label hlabel) c hc

/-! ### Special hosts -/

theorem unescape_of_plain {l : List Char} (h : '%' ∉ l) :
    unescape l = l.flatMap String.utf8EncodeChar := by
  induction l with
  | nil => rfl
  | cons c l ih =>
    have hc : c ≠ '%' := fun hc => h (hc ▸ List.mem_cons_self)
    rw [unescape, toList_toUTF8_singleton, ih fun hl => h (List.mem_cons_of_mem c hl),
      List.flatMap_cons]
    · rintro _ _ _ rfl
      exact absurd rfl hc

theorem fromUTF8?_bytes (l : List Char) :
    String.fromUTF8? ⟨(l.flatMap String.utf8EncodeChar).toArray⟩ = some (String.ofList l) := by
  have hbytes : (⟨(l.flatMap String.utf8EncodeChar).toArray⟩ : ByteArray) =
      (String.ofList l).toByteArray := by
    rw [String.toByteArray_ofList, List.utf8Encode]
    exact ByteArray.ext List.data_toByteArray.symm
  rw [hbytes, String.fromUTF8?, dif_pos (String.isValidUTF8 _)]
  rfl

/-- What is left of a host: an IPv6 address, an IPv4 address, or a name that ends in no number. -/
theorem specialHost?_cases (h : specialHost? chars = some host) :
    (∃ pieces, IsIpv6 pieces ∧ host = "[" ++ ipv6Text pieces ++ "]") ∨
      (∃ address, address < 256 ^ 4 ∧ host = ipv4Text address) ∨
      ∃ name, domainToAscii name = some host ∧ host ≠ "" ∧
        endsInNumber (host.toList.splitOn '.') = false := by
  unfold specialHost? at h
  split at h
  · exact .inl (bracketHost?_cases h)
  · obtain ⟨name, -, h⟩ := Option.bind_eq_some_iff.1 h
    obtain ⟨domain, hdomain, h⟩ := Option.bind_eq_some_iff.1 h
    split at h
    · cases h
    · rename_i hne
      dsimp only at h
      split at h
      · obtain ⟨address, haddress, rfl⟩ := Option.map_eq_some_iff.1 h
        exact .inr (.inl ⟨address, ipv4Address?_lt haddress, rfl⟩)
      · rename_i hnumber
        obtain rfl := Option.some.inj h
        exact .inr (.inr ⟨name, hdomain, by simpa using hne, by simpa using hnumber⟩)

/-- A name that is its own ASCII form is read as it is. -/
theorem specialHost?_of_domain {domain : String} (h : domainToAscii domain = some domain)
    (hne : domain ≠ "") : specialHost? domain.toList =
      if endsInNumber (domain.toList.splitOn '.') then
        (ipv4Address? (domain.toList.splitOn '.')).map ipv4Text
      else some domain := by
  have hallowed := allowed_domainToAscii h
  have hpercent : '%' ∉ domain.toList := fun hc => absurd (hallowed '%' hc) (by decide)
  unfold specialHost?
  split
  · rename_i rest hbracket
    exact absurd (hallowed '[' (hbracket ▸ List.mem_cons_self)) (by decide)
  · rw [unescape_of_plain hpercent, fromUTF8?_bytes, String.ofList_toList]
    simp only [Option.bind_eq_bind, Option.bind_some]
    rw [h]
    simp only [Option.bind_some]
    rw [if_neg (by simpa using hne)]

theorem mem_ipv4Text {address : Nat} (hc : c ∈ (ipv4Text address).toList) :
    Text.isAsciiDigit c = true ∨ c = '.' := by
  rw [toList_ipv4Text] at hc
  rcases mem_intercalate hc with rfl | ⟨part, hpart, hc⟩
  · exact .inr rfl
  · obtain ⟨i, -, rfl⟩ := List.mem_map.1 hpart
    exact .inl (Text.isAsciiDigit_of_mem_toString hc)

theorem splitOn_ipv4Text (address : Nat) :
    (ipv4Text address).toList.splitOn '.' = ipv4Labels address := by
  rw [toList_ipv4Text, List.splitOn_intercalate]
  · intro label hlabel hdot
    obtain ⟨i, -, rfl⟩ := List.mem_map.1 hlabel
    exact absurd (Text.isAsciiDigit_of_mem_toString hdot) (by decide)
  · exact List.cons_ne_nil _ _

theorem ipv4Text_ne_empty (address : Nat) : ipv4Text address ≠ "" := by
  intro hempty
  have hlength := congrArg List.length (splitOn_ipv4Text address)
  have hfour : (ipv4Labels address).length = 4 := rfl
  rw [hempty, hfour] at hlength
  exact absurd hlength (by decide)

theorem domainToAscii_ipv4Text (address : Nat) :
    domainToAscii (ipv4Text address) = some (ipv4Text address) := by
  have hchars : ∀ c ∈ (ipv4Text address).toList, Text.lowerAscii c = c ∧
      Punycode.isAscii c = true ∧ forbiddenInDomain c = false := by
    intro c hc
    have hc := mem_ipv4Text hc
    have hpart : isSchemePart c = true := by
      rw [isSchemePart]
      rcases hc with hc | rfl
      · simp [hc]
      · rfl
    exact forall_ascii (P := fun c => Text.isAsciiDigit c = true ∨ c = '.' →
      Text.lowerAscii c = c ∧ Punycode.isAscii c = true ∧ forbiddenInDomain c = false) (by decide)
      (toNat_of_isSchemePart hpart) hc
  have hunmarked : ((ipv4Text address).toList.splitOn '.').any encodedMark.isPrefixOf = false := by
    rw [splitOn_ipv4Text, List.any_eq_false]
    intro label hlabel hmark
    obtain ⟨i, -, rfl⟩ := List.mem_map.1 hlabel
    have hx : 'x' ∈ (toString (address / Nat.pow 256 i % 256)).toList :=
      (List.isPrefixOf_iff_prefix.1 hmark).subset List.mem_cons_self
    exact absurd (Text.isAsciiDigit_of_mem_toString hx) (by decide)
  have hplain : isPlain (ipv4Text address).toList = true := by
    rw [isPlain, hunmarked, List.all_eq_true.2 fun c hc => (hchars c hc).2.1]
    rfl
  have hread := domainToAscii_of_plain (fun c hc => (hchars c hc).1) hplain
    fun c hc => (hchars c hc).2.2
  rwa [String.ofList_toList] at hread

theorem endsInNumber_ipv4Labels (address : Nat) : endsInNumber (ipv4Labels address) = true := by
  have hreverse : (ipv4Labels address).reverse =
      (toString (address / Nat.pow 256 0 % 256)).toList :: [1, 2, 3].map fun i =>
        (toString (address / Nat.pow 256 i % 256)).toList := rfl
  have hne := Text.toList_toString_ne_nil (address / Nat.pow 256 0 % 256)
  have hdigits : (toString (address / Nat.pow 256 0 % 256)).toList.all Text.isAsciiDigit = true :=
    List.all_eq_true.2 fun c hc => Text.isAsciiDigit_of_mem_toString hc
  unfold endsInNumber
  rw [hreverse]
  generalize (toString (address / Nat.pow 256 0 % 256)).toList = last at hne hdigits ⊢
  cases last with
  | nil => exact absurd rfl hne
  | cons digit digits =>
    dsimp only
    rw [hdigits]
    rfl

theorem specialHost?_ipv4Text {address : Nat} (h : address < 256 ^ 4) :
    specialHost? (ipv4Text address).toList = some (ipv4Text address) := by
  rw [specialHost?_of_domain (domainToAscii_ipv4Text address) (ipv4Text_ne_empty address),
    splitOn_ipv4Text, if_pos (endsInNumber_ipv4Labels address), ipv4Address?_text h]
  rfl

/-- A host is read back, unless it is a name that is not its own ASCII form; such a name was written
with other characters or with an encoded label. -/
theorem specialHost?_read (h : specialHost? chars = some host) :
    specialHost? host.toList = some host ∨
      ∃ name, domainToAscii name = some host ∧ isPlain (lowered name) = false ∧
        domainToAscii host ≠ some host := by
  rcases specialHost?_cases h with ⟨pieces, hpieces, rfl⟩ | ⟨address, haddress, rfl⟩ |
    ⟨name, hname, hne, hnumber⟩
  · rw [toList_bracketed]
    exact .inl (bracketHost?_read hpieces)
  · exact .inl (specialHost?_ipv4Text haddress)
  · by_cases hself : domainToAscii host = some host
    · rw [specialHost?_of_domain hself hne, hnumber, if_neg Bool.false_ne_true]
      exact .inl rfl
    · refine .inr ⟨name, hname, ?_, hself⟩
      by_contra hplain
      rw [Bool.not_eq_false] at hplain
      exact hself (domainToAscii_read_of_plain hplain hname)

theorem specialHost?_ne_empty (h : specialHost? chars = some host) : host ≠ "" := by
  rcases specialHost?_cases h with ⟨pieces, -, rfl⟩ | ⟨address, -, rfl⟩ | ⟨name, -, hne, -⟩
  · intro hempty
    have htext := toList_bracketed pieces
    rw [hempty] at htext
    cases htext
  · exact ipv4Text_ne_empty address
  · exact hne

theorem forbiddenInDomain_hostEnds : ∀ c ∈ hostEnds, forbiddenInDomain c = true :=
  forall_mem_of_all (by decide)

theorem specialHost?_text (h : specialHost? chars = some host) : IsHostText host := by
  have hname {name : String} (hname : domainToAscii name = some host) : IsHostText host := by
    refine .plain fun c hc => ?_
    have hallowed := allowed_domainToAscii hname c hc
    constructor
    · rw [forbiddenInDomain, Bool.or_eq_false_iff, Bool.or_eq_false_iff,
        decide_eq_false_iff_not] at hallowed
      omega
    · intro hend
      cases hallowed.symm.trans (forbiddenInDomain_hostEnds c hend)
  rcases specialHost?_cases h with ⟨pieces, -, rfl⟩ | ⟨address, -, rfl⟩ | ⟨name, hdomain, -, -⟩
  · exact isHostText_bracketed pieces
  · exact hname (domainToAscii_ipv4Text address)
  · exact hname hdomain

end Url

end JsonTyping
