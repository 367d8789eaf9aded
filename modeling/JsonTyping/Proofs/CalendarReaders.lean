import JsonTyping.Format.Calendar
import Mathlib.Data.List.Basic
import Mathlib.Data.List.TakeWhile

/-!
# What the readers of dates and times read

The lenient readers do not look past a character that no date and no time is made of, so a date is
read in front of a `T` as it is read alone, and a time in front of an offset. How many `-` and `:` a
text has tells dates, times and timestamps from each other.

A timestamp is what the lenient readers take for a date, a time and an offset, if in addition the
date and the time are written in full: `timestamp?_eq_some`.
-/

namespace JsonTyping.Calendar

open Text (isAsciiDigit isDecimalDigit isWhiteSpace decimalValue)

variable {c : Char} {chars rest left : List Char}

theorem takeWhile_take_append {p : Char → Bool} (hc : p c = false) (most : Nat)
    (chars rest : List Char) :
    ((chars ++ c :: rest).take most).takeWhile p = (chars.take most).takeWhile p := by
  induction chars generalizing most with
  | nil => cases most <;> simp [hc]
  | cons d chars ih =>
    cases most with
    | zero => simp
    | succ most => simp only [List.cons_append, List.take_succ_cons, List.takeWhile_cons, ih]

theorem length_takeWhile_take_le (p : Char → Bool) (most : Nat) (chars : List Char) :
    ((chars.take most).takeWhile p).length ≤ chars.length :=
  Nat.le_trans (List.takeWhile_prefix p).length_le (List.length_take_le' most chars)

theorem digits?_append (hc : isAsciiDigit c = false) (least most : Nat) (chars rest : List Char) :
    digits? least most (chars ++ c :: rest)
      = (digits? least most chars).map fun (n, left) => (n, left ++ c :: rest) := by
  have hle := length_takeWhile_take_le isAsciiDigit most chars
  simp only [digits?, takeWhile_take_append hc]
  split
  · rfl
  · rw [List.drop_append_of_le_length hle]
    rfl

/-- A run of digits may be as long as the text, or longer. -/
theorem digits?_of_length_le {least most : Nat} (h : chars.length ≤ most) :
    digits? least most chars = digits? least chars.length chars := by
  rw [digits?, digits?, List.take_of_length_le h, List.take_length]

theorem dropWhile_append_stop {p : Char → Bool} (hc : p c = false) (chars rest : List Char) :
    (chars ++ c :: rest).dropWhile p = chars.dropWhile p ++ c :: rest := by
  rw [List.dropWhile_append]
  split
  · next h => simp [hc, List.isEmpty_iff.mp h]
  · rfl

theorem lenientNumber?_append (hc : isAsciiDigit c = false) (hs : isWhiteSpace c = false)
    (chars rest : List Char) :
    lenientNumber? (chars ++ c :: rest)
      = (lenientNumber? chars).map fun (n, left) => (n, left ++ c :: rest) := by
  rw [lenientNumber?, dropWhile_append_stop hs, digits?_append hc, lenientNumber?]

theorem char?_append {d : Char} (hd : c ≠ d) (chars rest : List Char) :
    char? d (chars ++ c :: rest) = (char? d chars).map (· ++ c :: rest) := by
  cases chars with
  | nil => simp [char?, hd]
  | cons e chars => by_cases he : e = d <;> simp [char?, he]

theorem fraction?_append (hc : isAsciiDigit c = false) (hd : c ≠ '.') (chars rest : List Char) :
    fraction? (chars ++ c :: rest) = (fraction? chars).map (· ++ c :: rest) := by
  match chars with
  | [] => simp [fraction?, hd]
  | e :: chars =>
    by_cases he : e = '.'
    · subst he
      have htake := takeWhile_take_append hc (chars ++ c :: rest).length chars rest
      rw [List.take_length, List.take_of_length_le (by simp)] at htake
      simp only [fraction?, List.cons_append, htake, dropWhile_append_stop hc]
      split <;> rfl
    · simp [fraction?, he]

theorem year?_append (hc : isAsciiDigit c = false) (hs : isWhiteSpace c = false) (hm : c ≠ '-')
    (hp : c ≠ '+') (chars rest : List Char) :
    year? (chars ++ c :: rest) = (year? chars).map fun (n, left) => (n, left ++ c :: rest) := by
  have signed (more : List Char) :
      digits? 1 (more ++ c :: rest).length (more ++ c :: rest)
        = (digits? 1 more.length more).map fun (n, left) => (n, left ++ c :: rest) := by
    rw [digits?_append hc, digits?_of_length_le (by simp)]
  have unsigned (more : List Char) := digits?_append hc 1 4 more rest
  simp only [year?, dropWhile_append_stop hs]
  generalize chars.dropWhile isWhiteSpace = more
  match more with
  | [] =>
    have := unsigned []
    simp_all [Option.map_map, Function.comp_def]
  | e :: more =>
    have := unsigned (e :: more)
    by_cases hm : e = '-'
    · subst hm
      simp only [List.cons_append, signed, Option.map_map]
      rfl
    · by_cases hp : e = '+'
      · subst hp
        simp only [List.cons_append, signed, Option.map_map]
        rfl
      · simp_all [Option.map_map, Function.comp_def]

/-- A step that is taken alike in front of more text, and then more such steps. -/
theorem bind_map_eq {α α' β β' : Type} {x : Option α} {f : α → α'} {g : α → Option β}
    {g' : α' → Option β'} {k : β → β'} (h : ∀ a, g' (f a) = (g a).map k) :
    (x.map f).bind g' = (x.bind g).map k := by
  cases x <;> simp [h]

theorem date?_append_t (chars rest : List Char) :
    date? (chars ++ 'T' :: rest) = (date? chars).map (· ++ 'T' :: rest) := by
  have hc : isAsciiDigit 'T' = false := by decide
  have hs : isWhiteSpace 'T' = false := by decide
  rw [date?, date?, year?_append hc hs (by decide) (by decide)]
  refine bind_map_eq fun (year, chars) => ?_
  dsimp only
  rw [char?_append (by decide)]
  refine bind_map_eq fun chars => ?_
  rw [lenientNumber?_append hc hs]
  refine bind_map_eq fun (month, chars) => ?_
  dsimp only
  rw [char?_append (by decide)]
  refine bind_map_eq fun chars => ?_
  rw [lenientNumber?_append hc hs]
  refine bind_map_eq fun (day, chars) => ?_
  dsimp only
  split <;> rfl

/-- The characters with which an offset begins, and the `T`, are none that a time goes on with. -/
theorem stop_of_mem (hc : c ∈ ['T', 'Z', '+', '-']) :
    isDecimalDigit c = false ∧ isAsciiDigit c = false ∧ isWhiteSpace c = false ∧ c ≠ ':'
      ∧ c ≠ '.' ∧ c ≠ 'd' := by
  simp only [List.mem_cons, List.not_mem_nil, or_false] at hc
  rcases hc with rfl | rfl | rfl | rfl <;> decide

theorem time?_append (hc : c ∈ ['T', 'Z', '+', '-']) (chars rest : List Char) :
    time? (chars ++ c :: rest) = (time? chars).map (· ++ c :: rest) := by
  obtain ⟨-, hd, hs, hcolon, hdot, -⟩ := stop_of_mem hc
  rw [time?, time?, lenientNumber?_append hd hs]
  refine bind_map_eq fun (hour, chars) => ?_
  dsimp only
  rw [char?_append hcolon]
  refine bind_map_eq fun chars => ?_
  rw [lenientNumber?_append hd hs]
  refine bind_map_eq fun (minute, chars) => ?_
  dsimp only
  rw [char?_append hcolon]
  refine bind_map_eq fun chars => ?_
  rw [lenientNumber?_append hd hs]
  refine bind_map_eq fun (second, chars) => ?_
  dsimp only
  rw [fraction?_append hd hdot]
  refine bind_map_eq fun chars => ?_
  split <;> rfl

/-! ### What is read, and what is left -/

theorem digits?_eq_some {least most n : Nat} (h : digits? least most chars = some (n, left)) :
    ∃ run, chars = run ++ left ∧ least ≤ run.length ∧ run.length ≤ most
      ∧ (∀ d ∈ run, isAsciiDigit d = true) ∧ n = decimalValue run := by
  rw [digits?] at h
  split at h
  · cases h
  · next hleast =>
    simp only [Option.some.injEq, Prod.mk.injEq] at h
    obtain ⟨hn, hleft⟩ := h
    have hprefix : (chars.take most).takeWhile isAsciiDigit <+: chars :=
      (List.takeWhile_prefix _).trans (List.take_prefix _ _)
    refine ⟨(chars.take most).takeWhile isAsciiDigit, ?_, by omega, ?_, ?_, hn.symm⟩
    · rw [← hleft]
      exact (List.prefix_iff_eq_append.mp hprefix).symm
    · exact Nat.le_trans (List.takeWhile_prefix _).length_le (List.length_take_le _ _)
    · exact fun d hd => List.mem_takeWhile_imp hd

theorem count_eq_zero_of_forall {p : Char → Bool} (hc : p c = false)
    (h : ∀ d ∈ chars, p d = true) : chars.count c = 0 :=
  List.count_eq_zero_of_not_mem fun hmem => by simp [h c hmem] at hc

theorem count_dropWhile {p : Char → Bool} (hc : p c = false) (chars : List Char) :
    (chars.dropWhile p).count c = chars.count c := by
  induction chars with
  | nil => rfl
  | cons d chars ih =>
    rw [List.dropWhile_cons]
    split
    · next hd => rw [ih, List.count_cons_of_ne (by rintro rfl; simp_all)]
    · rfl

section Count

variable (hd : isAsciiDigit c = false) (hs : isWhiteSpace c = false)
include hd

theorem digits?_count {least most n : Nat} (h : digits? least most chars = some (n, left)) :
    chars.count c = left.count c := by
  obtain ⟨run, rfl, -, -, hrun, -⟩ := digits?_eq_some h
  rw [List.count_append, count_eq_zero_of_forall hd hrun, Nat.zero_add]

theorem fraction?_count (hdot : c ≠ '.') (h : fraction? chars = some left) :
    chars.count c = left.count c := by
  rw [fraction?.eq_def] at h
  split at h
  · split at h
    · cases h
    · cases h
      rw [count_dropWhile hd, List.count_cons_of_ne hdot.symm]
  · cases h
    rfl

include hs

theorem lenientNumber?_count {n : Nat} (h : lenientNumber? chars = some (n, left)) :
    chars.count c = left.count c := by
  rw [← count_dropWhile hs]
  exact digits?_count hd h

end Count

/-- In front of a year there may be a sign. -/
theorem year?_count (hd : isAsciiDigit c = false) (hs : isWhiteSpace c = false) {n : Int}
    (h : year? chars = some (n, left)) :
    ∃ sign ∈ [[], ['-'], ['+']], chars.count c = sign.count c + left.count c := by
  rw [← count_dropWhile hs chars]
  simp only [year?] at h
  split at h
  all_goals
    obtain ⟨⟨n, left⟩, hread, heq⟩ := Option.map_eq_some_iff.mp h
    cases heq
    have hcount := digits?_count hd hread
  · next rest hrest =>
    exact ⟨['-'], by simp, by simp [hrest, hcount, List.count_cons, Nat.add_comm]⟩
  · next rest hrest =>
    exact ⟨['+'], by simp, by simp [hrest, hcount, List.count_cons, Nat.add_comm]⟩
  · next rest _ _ => exact ⟨[], by simp, by simp [hcount]⟩

theorem char?_eq_some {d : Char} (h : char? d chars = some left) : chars = d :: left := by
  cases chars with
  | nil => cases h
  | cons e chars =>
    simp only [char?] at h
    split at h
    · next he => rw [he, Option.some.inj h]
    · cases h

theorem date?_count (hd : isAsciiDigit c = false) (hs : isWhiteSpace c = false)
    (h : date? chars = some left) :
    ∃ sign ∈ [[], ['-'], ['+']],
      chars.count c = sign.count c + ['-', '-'].count c + left.count c := by
  simp only [date?, Option.bind_eq_bind, Option.bind_eq_some_iff, Prod.exists,
    Option.ite_none_right_eq_some, Option.some.injEq] at h
  obtain ⟨year, c₁, hyear, c₂, hsep, month, c₃, hmonth, c₄, hsep', day, c₅, hday, -, hleft⟩ := h
  rw [char?_eq_some hsep] at hyear
  rw [char?_eq_some hsep'] at hmonth
  rw [hleft] at hday
  obtain ⟨sign, hsign, hyear⟩ := year?_count hd hs hyear
  have hmonth := lenientNumber?_count hd hs hmonth
  have hday := lenientNumber?_count hd hs hday
  refine ⟨sign, hsign, ?_⟩
  simp only [List.count_cons, List.count_nil] at hyear hmonth ⊢
  omega

/-- The numbers of a time stand between colons, and a fraction may follow. -/
theorem time?_eq_some (h : time? chars = some left) :
    ∃ hour c₁ minute c₂ second c₃, lenientNumber? chars = some (hour, ':' :: c₁)
      ∧ lenientNumber? c₁ = some (minute, ':' :: c₂) ∧ lenientNumber? c₂ = some (second, c₃)
      ∧ fraction? c₃ = some left := by
  simp only [time?, Option.bind_eq_bind, Option.bind_eq_some_iff, Prod.exists,
    Option.ite_none_right_eq_some, Option.some.injEq] at h
  obtain ⟨hour, _, hhour, c₁, hsep, minute, _, hminute, c₂, hsep', second, c₃, hsecond, _,
    hfraction, -, rfl⟩ := h
  rw [char?_eq_some hsep] at hhour
  rw [char?_eq_some hsep'] at hminute
  exact ⟨hour, c₁, minute, c₂, second, c₃, hhour, hminute, hsecond, hfraction⟩

theorem time?_count (hd : isAsciiDigit c = false) (hs : isWhiteSpace c = false) (hdot : c ≠ '.')
    (h : time? chars = some left) :
    chars.count c = [':', ':'].count c + left.count c := by
  obtain ⟨hour, c₁, minute, c₂, second, c₃, hhour, hminute, hsecond, hfraction⟩ := time?_eq_some h
  have hhour := lenientNumber?_count hd hs hhour
  have hminute := lenientNumber?_count hd hs hminute
  have hsecond := lenientNumber?_count hd hs hsecond
  have hfraction := fraction?_count hd hdot hfraction
  simp only [List.count_cons, List.count_nil] at hhour hminute ⊢
  omega

theorem lenientNumber?_suffix {n : Nat} (h : lenientNumber? chars = some (n, left)) :
    left <:+ chars := by
  obtain ⟨run, hrun, -⟩ := digits?_eq_some h
  exact (List.suffix_append run left).trans (hrun ▸ List.dropWhile_suffix _)

theorem fraction?_suffix (h : fraction? chars = some left) : left <:+ chars := by
  rw [fraction?.eq_def] at h
  split at h
  · split at h
    · cases h
    · cases h
      exact (List.dropWhile_suffix _).trans (List.suffix_cons _ _)
  · cases h
    exact List.suffix_refl _

theorem char?_suffix (h : char? c chars = some left) : left <:+ chars :=
  char?_eq_some h ▸ List.suffix_cons c left

theorem time?_suffix (h : time? chars = some left) : left <:+ chars := by
  obtain ⟨hour, c₁, minute, c₂, second, c₃, hhour, hminute, hsecond, hfraction⟩ := time?_eq_some h
  have hhour : c₁ <:+ chars := (List.suffix_cons _ _).trans (lenientNumber?_suffix hhour)
  have hminute : c₂ <:+ c₁ := (List.suffix_cons _ _).trans (lenientNumber?_suffix hminute)
  have hsecond : left <:+ c₂ := (fraction?_suffix hfraction).trans (lenientNumber?_suffix hsecond)
  exact hsecond.trans (hminute.trans hhour)

/-- Whether a text starts in a shape, where a `d` of the shape stands for any digit. -/
def startsAs (isDigit : Char → Bool) : List Char → List Char → Bool
  | [], _ => true
  | p :: shape, c :: chars =>
    (if p = 'd' then isDigit c else c == p) && startsAs isDigit shape chars
  | _ :: _, [] => false

/-- Whether a whole text has a shape. -/
def hasShape (isDigit : Char → Bool) (shape chars : List Char) : Bool :=
  startsAs isDigit shape chars && chars.length == shape.length

def dateShape : List Char := "dddd-dd-dd".toList

def timeShape : List Char := "dd:dd:dd".toList

theorem startsAs_cons {isDigit : Char → Bool} {p : Char} {shape : List Char} :
    startsAs isDigit (p :: shape) chars = true ↔
      ∃ c rest, chars = c :: rest ∧ (if p = 'd' then isDigit c = true else c = p)
        ∧ startsAs isDigit shape rest = true := by
  cases chars with
  | nil => simp [startsAs]
  | cons c rest => by_cases hp : p = 'd' <;> simp [startsAs, hp, and_assoc]

/-- A shape does not look past a character that is neither in it nor a digit. -/
theorem startsAs_append {isDigit : Char → Bool} {shape : List Char} (hc : isDigit c = false)
    (hshape : c ∉ shape) (chars rest : List Char) :
    startsAs isDigit shape (chars ++ c :: rest) = startsAs isDigit shape chars := by
  induction shape generalizing chars with
  | nil => rfl
  | cons p shape ih =>
    obtain ⟨hp, hshape⟩ := List.ne_and_not_mem_of_not_mem_cons hshape
    cases chars with
    | nil => simp [startsAs, hc, hp]
    | cons d chars => simp only [List.cons_append, startsAs, ih hshape]

/-- With more digits to choose from, a text keeps its shape. -/
theorem startsAs_mono {p q : Char → Bool} (hpq : ∀ c, p c = true → q c = true) {shape : List Char}
    (h : startsAs p shape chars = true) : startsAs q shape chars = true := by
  induction shape generalizing chars with
  | nil => rfl
  | cons d shape ih =>
    obtain ⟨c, rest, rfl, hc, hrest⟩ := startsAs_cons.mp h
    refine startsAs_cons.mpr ⟨c, rest, rfl, ?_, ih hrest⟩
    split
    · next hd => exact hpq c (by simpa [hd] using hc)
    · next hd => simpa [hd] using hc

theorem startsAs_char {p : Char} (hp : p ≠ 'd') {shape : List Char} :
    startsAs isAsciiDigit (p :: shape) chars = true ↔
      ∃ rest, char? p chars = some rest ∧ startsAs isAsciiDigit shape rest = true := by
  cases chars with
  | nil => simp [startsAs, char?]
  | cons c chars => by_cases hc : c = p <;> simp [startsAs, char?, hp, hc]

/-! ### Numbers in full, and timestamps -/

theorem digits?_exact {k n : Nat} : digits? k k chars = some (n, left) ↔
    ∃ run, chars = run ++ left ∧ run.length = k ∧ (∀ d ∈ run, isAsciiDigit d = true)
      ∧ n = decimalValue run := by
  constructor
  · intro h
    obtain ⟨run, hrun, hleast, hmost, hall, hn⟩ := digits?_eq_some h
    exact ⟨run, hrun, Nat.le_antisymm hmost hleast, hall, hn⟩
  · rintro ⟨run, rfl, rfl, hall, rfl⟩
    have htake : ((run ++ left).take run.length).takeWhile isAsciiDigit = run := by
      rw [List.take_left, List.takeWhile_eq_self_iff.mpr hall]
    rw [digits?, htake, if_neg (Nat.lt_irrefl _), List.drop_left]

/-- As many digits as a number may have are read in any case. -/
theorem digits?_of_exact {least most : Nat} (hleast : least ≤ most) {x : Nat × List Char}
    (h : digits? most most chars = some x) : digits? least most chars = some x := by
  rw [digits?] at h ⊢
  split at h
  · cases h
  · next hrun =>
    rw [if_neg (by omega)]
    exact h

theorem startsAs_digits {k : Nat} {shape : List Char} :
    startsAs isAsciiDigit (List.replicate k 'd' ++ shape) chars = true ↔
      ∃ n rest, digits? k k chars = some (n, rest) ∧ startsAs isAsciiDigit shape rest = true := by
  have hexact : (∃ n rest, digits? k k chars = some (n, rest)
        ∧ startsAs isAsciiDigit shape rest = true) ↔
      ∃ run rest, chars = run ++ rest ∧ run.length = k ∧ (∀ d ∈ run, isAsciiDigit d = true)
        ∧ startsAs isAsciiDigit shape rest = true := by
    simp only [digits?_exact]
    grind
  rw [hexact]
  clear hexact
  induction k generalizing chars with
  | zero => simp
  | succ k ih =>
    rw [List.replicate_succ, List.cons_append, startsAs_cons]
    simp only [if_true, ih]
    constructor
    · rintro ⟨c, _, rfl, hc, run, rest, rfl, rfl, hall, hrest⟩
      exact ⟨c :: run, rest, rfl, rfl, List.forall_mem_cons.mpr ⟨hc, hall⟩, hrest⟩
    · rintro ⟨_ | ⟨c, run⟩, rest, rfl, hk, hall, hrest⟩
      · cases hk
      · obtain ⟨hc, hall⟩ := List.forall_mem_cons.mp hall
        exact ⟨c, run ++ rest, rfl, hc, run, rest, rfl, Nat.succ.inj hk, hall, hrest⟩

theorem startsAs_date : startsAs isAsciiDigit dateShape chars = true ↔
    ∃ year c₁, digits? 4 4 chars = some (year, c₁) ∧ ∃ c₂, char? '-' c₁ = some c₂
      ∧ ∃ month c₃, digits? 2 2 c₂ = some (month, c₃) ∧ ∃ c₄, char? '-' c₃ = some c₄
      ∧ ∃ day c₅, digits? 2 2 c₄ = some (day, c₅) := by
  have hshape : dateShape = List.replicate 4 'd'
      ++ '-' :: (List.replicate 2 'd' ++ '-' :: (List.replicate 2 'd' ++ [])) := by decide
  rw [hshape]
  simp only [startsAs_digits, startsAs_char (show '-' ≠ 'd' by decide), startsAs, and_true]

theorem startsAs_time : startsAs isAsciiDigit timeShape chars = true ↔
    ∃ hour c₁, digits? 2 2 chars = some (hour, c₁) ∧ ∃ c₂, char? ':' c₁ = some c₂
      ∧ ∃ minute c₃, digits? 2 2 c₂ = some (minute, c₃) ∧ ∃ c₄, char? ':' c₃ = some c₄
      ∧ ∃ second c₅, digits? 2 2 c₄ = some (second, c₅) := by
  have hshape : timeShape = List.replicate 2 'd'
      ++ ':' :: (List.replicate 2 'd' ++ ':' :: (List.replicate 2 'd' ++ [])) := by decide
  rw [hshape]
  simp only [startsAs_digits, startsAs_char (show ':' ≠ 'd' by decide), startsAs, and_true]

theorem isWhiteSpace_of_isAsciiDigit (h : isAsciiDigit c = true) : isWhiteSpace c = false := by
  have h : 48 ≤ c.toNat ∧ c.toNat ≤ 57 := of_decide_eq_true h
  simp only [isWhiteSpace, Bool.or_eq_false_iff, decide_eq_false_iff_not, beq_eq_false_iff_ne]
  omega

theorem exists_digit_of_exact {k : Nat} (hk : 0 < k) {x : Nat × List Char}
    (h : digits? k k chars = some x) :
    ∃ d rest, chars = d :: rest ∧ isAsciiDigit d = true
      ∧ chars.dropWhile isWhiteSpace = chars := by
  obtain ⟨run, rfl, rfl, hall, -⟩ := digits?_exact.mp h
  obtain ⟨d, run, rfl⟩ := List.exists_cons_of_length_pos hk
  have hd := hall d List.mem_cons_self
  refine ⟨d, run ++ x.2, rfl, hd, ?_⟩
  rw [List.cons_append, List.dropWhile_cons_of_neg (by simp [isWhiteSpace_of_isAsciiDigit hd])]

theorem lenientNumber?_of_exact {x : Nat × List Char} (h : digits? 2 2 chars = some x) :
    lenientNumber? chars = some x := by
  obtain ⟨-, -, -, -, hspace⟩ := exists_digit_of_exact (by decide) h
  rw [lenientNumber?, hspace]
  exact digits?_of_exact (by decide) h

theorem year?_of_exact {n : Nat} (h : digits? 4 4 chars = some (n, left)) :
    year? chars = some ((n : Int), left) := by
  obtain ⟨d, rest, rfl, hd, hspace⟩ := exists_digit_of_exact (by decide) h
  have hread : digits? 1 4 (d :: rest) = some (n, left) := digits?_of_exact (by decide) h
  rw [year?, hspace]
  split
  · next heq => cases heq; cases hd
  · next heq => cases heq; cases hd
  · rw [hread]
    rfl

theorem date?_of_exact {year month day : Nat} {c₁ c₂ c₃ c₄ c₅ : List Char}
    (hyear : digits? 4 4 chars = some (year, c₁)) (hdash : char? '-' c₁ = some c₂)
    (hmonth : digits? 2 2 c₂ = some (month, c₃)) (hdash' : char? '-' c₃ = some c₄)
    (hday : digits? 2 2 c₄ = some (day, c₅)) :
    date? chars = if isDate year month day then some c₅ else none := by
  simp [date?, year?_of_exact hyear, hdash, lenientNumber?_of_exact hmonth, hdash',
    lenientNumber?_of_exact hday]

theorem time?_of_exact {hour minute second : Nat} {c₁ c₂ c₃ c₄ c₅ : List Char}
    (hhour : digits? 2 2 chars = some (hour, c₁)) (hcolon : char? ':' c₁ = some c₂)
    (hminute : digits? 2 2 c₂ = some (minute, c₃)) (hcolon' : char? ':' c₃ = some c₄)
    (hsecond : digits? 2 2 c₄ = some (second, c₅)) :
    time? chars = (fraction? c₅).bind fun left =>
      if isTime hour minute second then some left else none := by
  simp [time?, lenientNumber?_of_exact hhour, hcolon, lenientNumber?_of_exact hminute, hcolon',
    lenientNumber?_of_exact hsecond]

/-- A timestamp is a date and a time, both in full, and an offset. -/
theorem timestamp?_eq_some : timestamp? chars = some left ↔
    startsAs isAsciiDigit dateShape chars = true ∧ ∃ c₁ c₂ c₃, date? chars = some c₁
      ∧ separator? c₁ = some c₂ ∧ startsAs isAsciiDigit timeShape c₂ = true
      ∧ time? c₂ = some c₃ ∧ offset? c₃ = some left := by
  constructor
  · intro h
    simp only [timestamp?, Option.bind_eq_bind, Option.bind_eq_some_iff, Prod.exists,
      Option.ite_none_right_eq_some, Option.some.injEq] at h
    obtain ⟨year, a₁, hyear, a₂, hdash, month, a₃, hmonth, a₄, hdash', day, a₅, hday, b₀, hsep,
      hour, b₁, hhour, b₂, hcolon, minute, b₃, hminute, b₄, hcolon', second, b₅, hsecond, b₆,
      hfraction, _, hoffset, ⟨hdate, htime⟩, rfl⟩ := h
    refine ⟨startsAs_date.mpr ⟨year, a₁, hyear, a₂, hdash, month, a₃, hmonth, a₄, hdash', day, a₅,
      hday⟩, a₅, b₀, b₆, ?_, hsep, startsAs_time.mpr ⟨hour, b₁, hhour, b₂, hcolon, minute, b₃,
      hminute, b₄, hcolon', second, b₅, hsecond⟩, ?_, hoffset⟩
    · rw [date?_of_exact hyear hdash hmonth hdash' hday, if_pos hdate]
    · rw [time?_of_exact hhour hcolon hminute hcolon' hsecond, hfraction, Option.bind_some,
        if_pos htime]
  · rintro ⟨hfull, c₁, c₂, c₃, hdate, hsep, hfull', htime, hoffset⟩
    obtain ⟨year, a₁, hyear, a₂, hdash, month, a₃, hmonth, a₄, hdash', day, a₅, hday⟩ :=
      startsAs_date.mp hfull
    obtain ⟨hour, b₁, hhour, b₂, hcolon, minute, b₃, hminute, b₄, hcolon', second, b₅, hsecond⟩ :=
      startsAs_time.mp hfull'
    simp only [date?_of_exact hyear hdash hmonth hdash' hday, Option.ite_none_right_eq_some,
      Option.some.injEq] at hdate
    simp only [time?_of_exact hhour hcolon hminute hcolon' hsecond, Option.bind_eq_some_iff,
      Option.ite_none_right_eq_some, Option.some.injEq] at htime
    obtain ⟨hdate, rfl⟩ := hdate
    obtain ⟨_, hfraction, htime, rfl⟩ := htime
    simp [timestamp?, hyear, hdash, hmonth, hdash', hday, hsep, hhour, hcolon, hminute, hcolon',
      hsecond, hfraction, hoffset, hdate, htime]

end JsonTyping.Calendar
