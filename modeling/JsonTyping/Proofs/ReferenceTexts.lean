import JsonTyping.Schema.Reference
import Mathlib.Data.List.TakeWhile

/-!
# Texts of references

A reference is written as its address, `#` and its path, and read back from there
(`Reference.parse_text_iff`), as SPEC_FULL.md §8 has it of every reference. But three kinds of
references have no text of their own: an empty key behind the root is written as the root alone, a
path that begins with an empty key as one that begins with the root or has no step, and an address
alone stands for the root of its document.
-/

namespace JsonTyping

namespace Pointer

/-- A key in which only the tildes are escaped. -/
def escapeTildes : List Char → List Char
  | [] => []
  | '~' :: rest => '~' :: '0' :: escapeTildes rest
  | c :: rest => c :: escapeTildes rest

theorem escapeTildes_cons {c : Char} (h : c ≠ '~') (rest : List Char) :
    escapeTildes (c :: rest) = c :: escapeTildes rest := by
  rw [escapeTildes.eq_def]
  split <;> simp_all

theorem escape_cons {c : Char} (htilde : c ≠ '~') (hslash : c ≠ '/') (rest : List Char) :
    escape (c :: rest) = c :: escape rest := by
  rw [escape.eq_def]
  split <;> simp_all

theorem unescapeOne_cons {c : Char} (h : c ≠ '~') (digit whole : Char) (rest : List Char) :
    unescapeOne digit whole (c :: rest) = c :: unescapeOne digit whole rest := by
  rw [unescapeOne.eq_def]
  split <;> simp_all

theorem unescapeOne_tilde (digit whole d : Char) (rest : List Char) :
    unescapeOne digit whole ('~' :: d :: rest) =
      if d = digit then whole :: unescapeOne digit whole rest
      else '~' :: unescapeOne digit whole (d :: rest) := by
  rw [unescapeOne]

/-- Reading slashes first leaves the tildes escaped. -/
theorem unescapeOne_escape (key : List Char) :
    unescapeOne '1' '/' (escape key) = escapeTildes key := by
  induction key with
  | nil => rfl
  | cons c rest ih =>
    by_cases htilde : c = '~'
    · subst htilde
      rw [escape, escapeTildes, unescapeOne_tilde, if_neg (by decide),
        unescapeOne_cons (by decide), ih]
    by_cases hslash : c = '/'
    · subst hslash
      rw [escape, escapeTildes_cons (by decide), unescapeOne_tilde, if_pos rfl, ih]
    · rw [escape_cons htilde hslash, escapeTildes_cons htilde, unescapeOne_cons htilde, ih]

theorem unescapeOne_escapeTildes (key : List Char) :
    unescapeOne '0' '~' (escapeTildes key) = key := by
  induction key with
  | nil => rfl
  | cons c rest ih =>
    by_cases htilde : c = '~'
    · subst htilde
      rw [escapeTildes, unescapeOne_tilde, if_pos rfl, ih]
    · rw [escapeTildes_cons htilde, unescapeOne_cons htilde, ih]

theorem unescape_escape (key : List Char) : unescape (escape key) = key := by
  rw [unescape, unescapeOne_escape, unescapeOne_escapeTildes]

theorem slash_not_mem_escape (key : List Char) : '/' ∉ escape key := by
  induction key with
  | nil => exact List.not_mem_nil
  | cons c rest ih =>
    by_cases htilde : c = '~'
    · subst htilde
      simpa [escape] using ih
    by_cases hslash : c = '/'
    · subst hslash
      simpa [escape] using ih
    · rw [escape_cons htilde hslash, List.mem_cons, not_or]
      exact ⟨fun h => hslash h.symm, ih⟩

theorem escape_eq_nil_iff {key : List Char} : escape key = [] ↔ key = [] := by
  constructor
  · intro h
    rw [← unescape_escape key, h]
    rfl
  · rintro rfl
    rfl

/-- Keys as they are written, with slashes between them. -/
def written (names : List String) : List Char :=
  ['/'].intercalate (names.map fun name => escape name.toList)

theorem written_cons (name : String) (names : List String) :
    written (name :: names) =
      escape name.toList ++ names.flatMap fun next => '/' :: escape next.toList := by
  induction names generalizing name with
  | nil => simp [written]
  | cons next names ih =>
    rw [List.flatMap_cons, List.cons_append, ← ih next]
    simp [written, List.intercalate]

/-- Keys are read back from what is written, unless there are none. -/
theorem keys_written {names : List String} (h : names ≠ []) : keys (written names) = names := by
  have hslash : ∀ segment ∈ names.map fun name => escape name.toList, '/' ∉ segment := by
    intro segment hsegment
    obtain ⟨name, -, rfl⟩ := List.mem_map.1 hsegment
    exact slash_not_mem_escape name.toList
  have hread : ((fun segment => String.ofList (unescape segment)) ∘
      fun name : String => escape name.toList) = id := by
    funext name
    dsimp only [Function.comp_apply]
    rw [unescape_escape, String.ofList_toList]
    rfl
  rw [keys, written, List.splitOn_intercalate '/' hslash (by simpa using h), List.map_map, hread,
    List.map_id]

/-- Nothing is written for no key, and nothing for one that is empty. -/
theorem written_eq_nil_iff {names : List String} :
    written names = [] ↔ names = [] ∨ names = [""] := by
  cases names with
  | nil => exact iff_of_true rfl (.inl rfl)
  | cons name names =>
    rw [written_cons, List.append_eq_nil_iff, escape_eq_nil_iff, List.flatMap_eq_nil_iff]
    constructor
    · rintro ⟨hname, hnames⟩
      obtain rfl : names = [] :=
        List.eq_nil_iff_forall_not_mem.2 fun next hnext => List.cons_ne_nil _ _ (hnames next hnext)
      exact .inr (by rw [String.toList_eq_nil_iff.1 hname])
    · rintro (h | h)
      · cases h
      · obtain ⟨rfl, rfl⟩ := List.cons.inj h
        exact ⟨rfl, nofun⟩

/-- What is written begins with a slash only after an empty key. -/
theorem head?_written_cons {name : String} (h : name ≠ "") (names : List String) :
    (written (name :: names)).head? ≠ some '/' := by
  rw [written_cons]
  cases hescaped : escape name.toList with
  | nil => exact absurd (String.toList_eq_nil_iff.1 (escape_eq_nil_iff.1 hescaped)) h
  | cons c rest =>
    rw [List.cons_append, List.head?_cons]
    rintro hc
    refine slash_not_mem_escape name.toList ?_
    rw [hescaped, Option.some.inj hc]
    exact List.mem_cons_self

end Pointer

namespace Reference

/-- The path has the root at most as its first step, and keys otherwise. -/
def IsKeyed (path : List Step) : Prop :=
  ∃ names : List String, path = names.map .key ∨ path = .root :: names.map .key

theorem pathChars_keys (names : List String) :
    pathChars false (names.map .key) =
      names.flatMap fun name => '/' :: Pointer.escape name.toList := by
  induction names with
  | nil => rfl
  | cons name names ih =>
    rw [List.map_cons, pathChars, ih, List.flatMap_cons]
    · rfl
    · exact nofun

theorem pathChars_firstKeys (names : List String) :
    pathChars true (names.map .key) = Pointer.written names := by
  cases names with
  | nil => rfl
  | cons name names =>
    rw [List.map_cons, pathChars, pathChars_keys, Pointer.written_cons]
    · rfl
    · exact nofun

theorem pathOfChars_slash (rest : List Char) :
    pathOfChars ('/' :: rest) =
      .root :: if rest.isEmpty then [] else (Pointer.keys rest).map .key := rfl

theorem pathOfChars_of_head? {chars : List Char} (h : chars.head? ≠ some '/') :
    pathOfChars chars = if chars.isEmpty then [] else (Pointer.keys chars).map .key := by
  unfold pathOfChars
  dsimp only
  split
  · exact absurd rfl h
  · rfl

theorem keysOfWritten (names : List String) :
    (if (Pointer.written names).isEmpty then []
      else (Pointer.keys (Pointer.written names)).map .key) =
      if names = [""] then [] else names.map Step.key := by
  by_cases hone : names = [""]
  · rw [if_pos hone, if_pos (List.isEmpty_iff.2 (Pointer.written_eq_nil_iff.2 (.inr hone)))]
  · rw [if_neg hone]
    by_cases hnil : names = []
    · rw [hnil]
      rfl
    · have hwritten : ¬ (Pointer.written names).isEmpty = true := by
        rw [List.isEmpty_iff, Pointer.written_eq_nil_iff]
        exact not_or.2 ⟨hnil, hone⟩
      rw [if_neg hwritten, Pointer.keys_written hnil]

/-- A path is read back from what is written for it, unless it is an empty key behind the root or
begins with an empty key. -/
theorem pathOfChars_pathChars_iff {path : List Step} (h : IsKeyed path) :
    pathOfChars (pathChars true path) = path ↔
      path ≠ [.root, .key ""] ∧ path.head? ≠ some (.key "") := by
  obtain ⟨names, rfl | rfl⟩ := h
  · rw [pathChars_firstKeys]
    cases names with
    | nil => exact iff_of_true rfl ⟨nofun, nofun⟩
    | cons name names =>
      by_cases hname : name = ""
      · subst hname
        refine iff_of_false (fun hread => ?_) fun hkept => hkept.2 rfl
        -- With nothing before its first slash, the text is that of a path from the root.
        rw [Pointer.written_cons] at hread
        cases names with
        | nil => cases hread
        | cons next names => cases hread
      · have hfirst : (Step.key name) ≠ .key "" := fun heq => hname (Step.key.inj heq)
        refine iff_of_true ?_ ⟨nofun, fun hhead => hfirst (Option.some.inj hhead)⟩
        rw [pathOfChars_of_head? (Pointer.head?_written_cons hname names), keysOfWritten,
          if_neg fun heq => hname (List.cons.inj heq).1]
  · rw [pathChars, pathChars_firstKeys, pathOfChars_slash, keysOfWritten, List.cons_inj_right]
    by_cases hone : names = [""]
    · subst hone
      exact iff_of_false nofun fun hkept => hkept.1 rfl
    · rw [if_neg hone]
      refine iff_of_true rfl ⟨fun heq => hone ?_, nofun⟩
      exact (List.map_inj_right fun _ _ => Step.key.inj).1 (List.cons.inj heq).2

/-! ### Texts -/

/-- The address can be written in front of a path and is kept when it is read. -/
structure IsKept (address : String) : Prop where
  ne_empty : address ≠ ""
  not_mem : '#' ∉ address.toList
  normalize : Address.normalize address = address

theorem ne_mark_of_mem {chars : List Char} (h : '#' ∉ chars) :
    ∀ c ∈ chars, (c != '#') = true := by
  intro c hc
  rw [bne_iff_ne]
  rintro rfl
  exact h hc

theorem parse_of_chars {before : List Char} (h : '#' ∉ before) (fragment : List Char) :
    parse (String.ofList (before ++ '#' :: fragment)) =
      let address :=
        if before.isEmpty then none else some (Address.normalize (String.ofList before))
      ⟨address, if address.isSome ∧ fragment.isEmpty then [.root] else pathOfChars fragment⟩ := by
  have hpos := ne_mark_of_mem h
  have hbefore : (before ++ '#' :: fragment).takeWhile (· != '#') = before := by
    rw [List.takeWhile_append_of_pos hpos, List.takeWhile_cons_of_neg (by decide), List.append_nil]
  have hfragment : ((before ++ '#' :: fragment).dropWhile (· != '#')).drop 1 = fragment := by
    rw [List.dropWhile_append_of_pos hpos, List.dropWhile_cons_of_neg (by decide)]
    rfl
  simp only [parse, parseWith, String.toList_ofList, hbefore, hfragment]
  rfl

/-- An address alone means the root of its document. -/
theorem path_parse_of_not_mem {address : String} (hempty : address ≠ "")
    (h : '#' ∉ address.toList) : (parse address).path = [.root] := by
  have hpos := ne_mark_of_mem h
  have hnonempty : ¬ address.toList.isEmpty = true := by
    rw [List.isEmpty_iff, String.toList_eq_nil_iff]
    exact hempty
  simp only [parse, parseWith, List.takeWhile_eq_self_iff.2 hpos, List.dropWhile_eq_nil_iff.2 hpos,
    if_neg hnonempty, Option.isSome_some, List.drop_nil, List.isEmpty_nil, and_self, if_true]

/-- What is read from a path behind an address that is kept, if there is one. -/
theorem parse_written {address : Option String} (h : ∀ own, address = some own → IsKept own)
    (fragment : List Char) :
    parse (String.ofList ((address.getD "").toList ++ '#' :: fragment)) =
      ⟨address, if address.isSome ∧ fragment.isEmpty then [.root] else pathOfChars fragment⟩ := by
  cases address with
  | none => exact parse_of_chars List.not_mem_nil fragment
  | some own =>
    obtain ⟨hempty, hmark, hnormal⟩ := h own rfl
    have hnonempty : ¬ own.toList.isEmpty = true := by
      rw [List.isEmpty_iff, String.toList_eq_nil_iff]
      exact hempty
    rw [Option.getD_some, parse_of_chars hmark]
    simp only [if_neg hnonempty, String.ofList_toList, hnormal]

theorem text_of_path {address : Option String} {path : List Step}
    (h : address = none ∨ path ≠ []) :
    text ⟨address, path⟩ =
      String.ofList ((address.getD "").toList ++ '#' :: pathChars true path) := by
  rw [← String.toList_inj, String.toList_ofList]
  cases address with
  | none => simp [text]
  | some own =>
    cases path with
    | nil => exact absurd rfl (h.resolve_left nofun)
    | cons step path => simp [text]

/-- A reference whose address is kept is read back from its text, unless it is an empty key behind
the root, begins with an empty key, or has an address and no path. -/
theorem parse_text_iff {r : Reference} (hpath : IsKeyed r.path)
    (haddress : ∀ address, r.address = some address → IsKept address) :
    parse r.text = r ↔
      r.path ≠ [.root, .key ""] ∧ r.path.head? ≠ some (.key "") ∧
        ¬ (r.address.isSome = true ∧ r.path = []) := by
  obtain ⟨address, path⟩ := r
  dsimp only at hpath haddress ⊢
  by_cases halone : address.isSome = true ∧ path = []
  · obtain ⟨hsome, rfl⟩ := halone
    obtain ⟨own, rfl⟩ := Option.isSome_iff_exists.1 hsome
    refine iff_of_false (fun hread => ?_) fun hkept => hkept.2.2 ⟨rfl, rfl⟩
    have hroot := path_parse_of_not_mem (haddress own rfl).ne_empty (haddress own rfl).not_mem
    cases hroot.symm.trans (congrArg Reference.path hread)
  · have hwritten : address = none ∨ path ≠ [] := by
      cases address with
      | none => exact .inl rfl
      | some own => exact .inr fun hnil => halone ⟨rfl, hnil⟩
    rw [text_of_path hwritten, parse_written haddress, ← and_assoc, and_iff_left halone,
      ← pathOfChars_pathChars_iff hpath, Reference.mk.injEq, and_iff_right rfl]
    by_cases hroot : address.isSome = true ∧ (pathChars true path).isEmpty = true
    · -- Behind an address, a path for which nothing is written is read as the root.
      rw [if_pos hroot, List.isEmpty_iff.1 hroot.2]
      refine iff_of_false ?_ ?_
      · rintro rfl
        cases hroot.2
      · rintro rfl
        exact halone ⟨hroot.1, rfl⟩
    · rw [if_neg hroot]

/-- A key with a slash, a tilde and a mark in it, and an empty one behind it. -/
theorem parse_text_iff_escaped :
    let r : Reference := ⟨some "dir/a.json", [.root, .key "a/b~1#", .key ""]⟩
    r.text = "dir/a.json#/a~1b~01#/" ∧ parse r.text = r := by
  refine ⟨by decide +kernel, (parse_text_iff ⟨["a/b~1#", ""], .inr rfl⟩ ?_).2 (by decide)⟩
  intro address haddress
  obtain rfl := Option.some.inj haddress
  exact ⟨by decide, by decide, by decide +kernel⟩

end Reference

end JsonTyping
