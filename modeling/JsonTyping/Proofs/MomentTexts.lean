import JsonTyping.Proofs.CalendarReaders
import Mathlib.Data.List.Infix

/-!
# Dates, times and offsets put together

A text of a date, a `T`, a time and an offset is a timestamp or a local date and time just if its
parts are what they should be. A time alone has to be written in full, a date and time with an
offset as well, but a local date and time need not be.
-/

namespace JsonTyping.Calendar

open Text (isAsciiDigit isDecimalDigit isWhiteSpace decimalValue)

variable {c : Char} {chars rest left d t o : List Char}

theorem isDecimalDigit_of_isAsciiDigit (h : isAsciiDigit c = true) : isDecimalDigit c = true := by
  have h : 48 ≤ c.toNat ∧ c.toNat ≤ 57 := of_decide_eq_true h
  exact List.any_eq_true.mpr ⟨0x30, by decide, decide_eq_true (by omega)⟩

theorem isWhiteSpace_of_isDecimalDigit (h : isDecimalDigit c = true) : isWhiteSpace c = false := by
  have apart : ∀ z ∈ Text.decimalZeros, 13 < z ∧ (z + 10 ≤ 0x2000 ∨ 0x200A < z)
      ∧ ∀ w ∈ [0x20, 0x85, 0xA0, 0x1680, 0x2028, 0x2029, 0x202F, 0x205F, 0x3000],
        z + 10 ≤ w ∨ w < z := by
    decide
  obtain ⟨z, hz, hc⟩ := List.any_eq_true.mp h
  have hc : z ≤ c.toNat ∧ c.toNat < z + 10 := of_decide_eq_true hc
  obtain ⟨hcontrol, hquads, hothers⟩ := apart z hz
  simp only [List.mem_cons, List.not_mem_nil, or_false, forall_eq_or_imp, forall_eq] at hothers
  simp only [isWhiteSpace, Bool.or_eq_false_iff, decide_eq_false_iff_not, beq_eq_false_iff_ne]
  omega

/-- Whether a text is written like an offset, with digits of any script. -/
def isLikeOffset (chars : List Char) : Bool :=
  ["Z", "z", "+dd:dd", "-dd:dd", "\u2212dd:dd"].any fun shape =>
    hasShape isDecimalDigit shape.toList chars

/-- Whether a text is `Z` or a sign with hours and minutes. -/
def isOffset (chars : List Char) : Bool :=
  ["Z", "+dd:dd", "-dd:dd"].any fun shape => hasShape isAsciiDigit shape.toList chars

/-- Whether the hours and minutes of an offset are those of a time of day. -/
def isInDay (offset : List Char) : Bool :=
  decide (decimalValue ((offset.drop 1).take 2) ≤ 23 ∧ decimalValue (offset.drop 4) ≤ 59)

/-- Whether a text ends like an offset. -/
def carriesOffset (chars : List Char) : Bool := chars.tails.any isLikeOffset

@[simp]
theorem hasShape_nil {isDigit : Char → Bool} : hasShape isDigit [] chars = true ↔ chars = [] := by
  simp [hasShape, startsAs]

theorem hasShape_cons {isDigit : Char → Bool} {p : Char} {shape : List Char} :
    hasShape isDigit (p :: shape) chars = true ↔
      ∃ c rest, chars = c :: rest ∧ (if p = 'd' then isDigit c = true else c = p)
        ∧ hasShape isDigit shape rest = true := by
  simp only [hasShape, Bool.and_eq_true, beq_iff_eq, startsAs_cons]
  constructor
  · rintro ⟨⟨c, rest, rfl, hc, hrest⟩, hlength⟩
    exact ⟨c, rest, rfl, hc, hrest, Nat.succ.inj hlength⟩
  · rintro ⟨c, rest, rfl, hc, hrest, hlength⟩
    exact ⟨⟨c, rest, rfl, hc, hrest⟩, congrArg Nat.succ hlength⟩

theorem hasShape_signed {isDigit : Char → Bool} {sign : Char} (hsign : sign ≠ 'd') :
    hasShape isDigit [sign, 'd', 'd', ':', 'd', 'd'] chars = true ↔
      ∃ a b x y, chars = [sign, a, b, ':', x, y] ∧ isDigit a = true ∧ isDigit b = true
        ∧ isDigit x = true ∧ isDigit y = true := by
  simp only [hasShape_cons, hasShape_nil, hsign, if_true, if_false,
    show ':' ≠ 'd' by decide]
  constructor
  · rintro ⟨_, _, rfl, rfl, a, _, rfl, ha, b, _, rfl, hb, _, _, rfl, rfl, x, _, rfl, hx, y, _, rfl,
      hy, rfl⟩
    exact ⟨a, b, x, y, rfl, ha, hb, hx, hy⟩
  · rintro ⟨a, b, x, y, rfl, ha, hb, hx, hy⟩
    exact ⟨_, _, rfl, rfl, _, _, rfl, ha, _, _, rfl, hb, _, _, rfl, rfl, _, _, rfl, hx, _, _, rfl,
      hy, rfl⟩

theorem hasShape_letter {isDigit : Char → Bool} {z : Char} (hz : z ≠ 'd') :
    hasShape isDigit [z] chars = true ↔ chars = [z] := by
  simp only [hasShape_cons, hasShape_nil, hz, if_false]
  constructor
  · rintro ⟨_, _, rfl, rfl, rfl⟩
    rfl
  · rintro rfl
    exact ⟨z, [], rfl, rfl, rfl⟩

theorem isLikeOffset_iff : isLikeOffset chars = true ↔ chars = ['Z'] ∨ chars = ['z'] ∨
    ∃ sign ∈ ['+', '-', '\u2212'], ∃ a b x y, chars = [sign, a, b, ':', x, y]
      ∧ isDecimalDigit a = true ∧ isDecimalDigit b = true ∧ isDecimalDigit x = true
      ∧ isDecimalDigit y = true := by
  simp [isLikeOffset, hasShape_letter, hasShape_signed]

theorem isOffset_iff : isOffset chars = true ↔ chars = ['Z'] ∨
    ∃ sign ∈ ['+', '-'], ∃ a b x y, chars = [sign, a, b, ':', x, y]
      ∧ isAsciiDigit a = true ∧ isAsciiDigit b = true ∧ isAsciiDigit x = true
      ∧ isAsciiDigit y = true := by
  simp [isOffset, hasShape_letter, hasShape_signed]

theorem mem_signs {sign : Char} (h : sign ∈ ['+', '-']) : sign ∈ ['+', '-', '\u2212'] :=
  List.mem_append_left ['\u2212'] h

theorem isLikeOffset_of_isOffset (h : isOffset o = true) : isLikeOffset o = true := by
  obtain ⟨shape, hmem, hshape⟩ := List.any_eq_true.mp h
  obtain ⟨hstarts, hlength⟩ := (Bool.and_eq_true _ _).mp hshape
  have hshape := startsAs_mono (fun _ => isDecimalDigit_of_isAsciiDigit) hstarts
  refine List.any_eq_true.mpr ⟨shape, ?_, (Bool.and_eq_true _ _).mpr ⟨hshape, hlength⟩⟩
  simp only [List.mem_cons, List.not_mem_nil, or_false] at hmem ⊢
  rcases hmem with rfl | rfl | rfl <;> simp

/-- The last character of an offset shows how long it is. -/
theorem length_of_isLikeOffset (h : isLikeOffset o = true) :
    ∃ z, o.getLast? = some z ∧ o.length = if isDecimalDigit z then 6 else 1 := by
  obtain rfl | rfl | ⟨sign, -, a, b, x, y, rfl, -, -, -, hy⟩ := isLikeOffset_iff.mp h
  · exact ⟨'Z', rfl, by decide⟩
  · exact ⟨'z', rfl, by decide⟩
  · exact ⟨y, rfl, by simp [hy]⟩

theorem isLikeOffset_unique {t' o' : List Char} (ho : isLikeOffset o = true)
    (ho' : isLikeOffset o' = true) (h : t ++ o = t' ++ o') : t = t' ∧ o = o' := by
  obtain ⟨z, hz, hlength⟩ := length_of_isLikeOffset ho
  obtain ⟨z', hz', hlength'⟩ := length_of_isLikeOffset ho'
  have hlast := congrArg List.getLast? h
  simp only [List.getLast?_append, hz, hz', Option.some_or, Option.some.injEq] at hlast
  subst hlast
  exact List.append_inj' h (hlength.trans hlength'.symm)

/-- What the reader of offsets reads as a whole. -/
theorem offset?_eq_nil : offset? chars = some [] ↔ chars = ['Z'] ∨ chars = ['z'] ∨
    ∃ sign ∈ ['+', '-', '\u2212'], ∃ a b x y, chars = [sign, a, b, ':', x, y]
      ∧ isAsciiDigit a = true ∧ isAsciiDigit b = true ∧ isAsciiDigit x = true
      ∧ isAsciiDigit y = true ∧ decimalValue [a, b] ≤ 23 ∧ decimalValue [x, y] ≤ 59 := by
  have two {n : Nat} {chars rest : List Char} : digits? 2 2 chars = some (n, rest) ↔
      ∃ a b, chars = a :: b :: rest ∧ isAsciiDigit a = true ∧ isAsciiDigit b = true
        ∧ n = decimalValue [a, b] := by
    simp only [digits?_exact]
    constructor
    · rintro ⟨run, rfl, hlength, hall, rfl⟩
      obtain ⟨a, b, rfl⟩ := List.length_eq_two.mp hlength
      exact ⟨a, b, rfl, hall a (by simp), hall b (by simp), rfl⟩
    · rintro ⟨a, b, rfl, ha, hb, rfl⟩
      exact ⟨[a, b], rfl, rfl, by simp [ha, hb], rfl⟩
  constructor
  · intro h
    rw [offset?.eq_def] at h
    split at h
    · simp_all
    · simp_all
    · split at h
      · next hsign =>
        simp only [Option.bind_eq_bind, Option.bind_eq_some_iff, Prod.exists,
          Option.ite_none_right_eq_some, Option.some.injEq] at h
        obtain ⟨hours, c₁, hhours, c₂, hcolon, minutes, _, hminutes, ⟨hh, hm⟩, rfl⟩ := h
        rw [two] at hhours hminutes
        obtain ⟨a, b, rfl, ha, hb, rfl⟩ := hhours
        obtain ⟨x, y, rfl, hx, hy, rfl⟩ := hminutes
        obtain rfl := char?_eq_some hcolon
        exact .inr (.inr ⟨_, by simpa using hsign, a, b, x, y, rfl, ha, hb, hx, hy, hh, hm⟩)
      · cases h
    · cases h
  · rintro (rfl | rfl | ⟨sign, hsign, a, b, x, y, rfl, ha, hb, hx, hy, hh, hm⟩)
    · rfl
    · rfl
    · have hhours : digits? 2 2 [a, b, ':', x, y] = some (decimalValue [a, b], [':', x, y]) :=
        two.mpr ⟨a, b, rfl, ha, hb, rfl⟩
      have hminutes : digits? 2 2 [x, y] = some (decimalValue [x, y], []) :=
        two.mpr ⟨x, y, rfl, hx, hy, rfl⟩
      simp only [List.mem_cons, List.not_mem_nil, or_false] at hsign
      rcases hsign with rfl | rfl | rfl <;> simp [offset?, hhours, char?, hminutes, hh, hm]

theorem isLikeOffset_of_offset? (h : offset? chars = some []) : isLikeOffset chars = true := by
  have digit {c : Char} := isDecimalDigit_of_isAsciiDigit (c := c)
  obtain rfl | rfl | ⟨sign, hsign, a, b, x, y, rfl, ha, hb, hx, hy, -⟩ := offset?_eq_nil.mp h
  · decide
  · decide
  · exact isLikeOffset_iff.mpr (.inr (.inr ⟨sign, hsign, a, b, x, y, rfl, digit ha, digit hb,
      digit hx, digit hy⟩))

theorem offset?_of_isOffset (h : isOffset o = true) : offset? o = some [] ↔ isInDay o = true := by
  obtain rfl | ⟨sign, hsign, a, b, x, y, rfl, ha, hb, hx, hy⟩ := isOffset_iff.mp h
  · decide
  · rw [offset?_eq_nil, isInDay, decide_eq_true_eq]
    constructor
    · rintro (heq | heq | ⟨_, -, _, _, _, _, heq, -, -, -, -, hh, hm⟩) <;> cases heq
      exact ⟨hh, hm⟩
    · rintro ⟨hh, hm⟩
      exact .inr (.inr ⟨sign, mem_signs hsign, a, b, x, y, rfl, ha, hb, hx, hy, hh, hm⟩)

theorem isLikeOffset_count (h : isLikeOffset o = true) : o.count '-' ≤ 1 := by
  have ne {x : Char} (hx : isDecimalDigit x = true) : x ≠ '-' := by
    rintro rfl
    exact absurd hx (by decide)
  obtain rfl | rfl | ⟨sign, -, a, b, x, y, rfl, ha, hb, hx, hy⟩ := isLikeOffset_iff.mp h
  · decide
  · decide
  · rw [List.count_cons, List.count_eq_zero_of_not_mem]
    · split <;> omega
    · simp [(ne ha).symm, (ne hb).symm, (ne hx).symm, (ne hy).symm]

theorem not_isLikeOffset_of_suffix (ht : carriesOffset t = false) (h : o <:+ t) :
    ¬ isLikeOffset o = true := by
  intro ho
  have hcarries : carriesOffset t = true :=
    List.any_eq_true.mpr ⟨o, (List.mem_tails o t).mpr h, ho⟩
  rw [hcarries] at ht
  cases ht

/-! ### Whole times -/

/-- Two digits of any script are read as a number if both are ASCII, else only the first is. -/
theorem lenientNumber?_decimal {a b : Char} {n : Nat} (ha : isDecimalDigit a = true)
    (h : lenientNumber? (a :: b :: rest) = some (n, left)) :
    isAsciiDigit a = true ∧ (left = b :: rest ∨ isAsciiDigit b = true ∧ left = rest) := by
  rw [lenientNumber?,
    List.dropWhile_cons_of_neg (by simp [isWhiteSpace_of_isDecimalDigit ha])] at h
  obtain ⟨run, hrun, hleast, hmost, hall, -⟩ := digits?_eq_some h
  obtain _ | ⟨x, _ | ⟨y, _ | ⟨z, run⟩⟩⟩ := run
  · simp at hleast
  · cases hrun
    exact ⟨hall _ (by simp), .inl rfl⟩
  · cases hrun
    exact ⟨hall _ (by simp), .inr ⟨hall _ (by simp), rfl⟩⟩
  · simp at hmost

theorem ne_of_isDecimalDigit (h : isDecimalDigit c = true) : c ≠ ':' ∧ c ≠ '.' := by
  constructor
  · rintro rfl
    exact absurd h (by decide)
  · rintro rfl
    exact absurd h (by decide)

theorem timeShape_eq : timeShape = ['d', 'd', ':', 'd', 'd', ':', 'd', 'd'] := by
  decide

theorem startsAs_time_iff {isDigit : Char → Bool} : startsAs isDigit timeShape t = true ↔
    ∃ a b c d e f rest, t = a :: b :: ':' :: c :: d :: ':' :: e :: f :: rest
      ∧ isDigit a = true ∧ isDigit b = true ∧ isDigit c = true ∧ isDigit d = true
      ∧ isDigit e = true ∧ isDigit f = true := by
  simp only [timeShape_eq, startsAs_cons, reduceIte, show ':' ≠ 'd' by decide]
  constructor
  · rintro ⟨a, _, rfl, ha, b, _, rfl, hb, _, _, rfl, rfl, c, _, rfl, hc, d, _, rfl, hd, _, _, rfl,
      rfl, e, _, rfl, he, f, rest, rfl, hf, -⟩
    exact ⟨a, b, c, d, e, f, rest, rfl, ha, hb, hc, hd, he, hf⟩
  · rintro ⟨a, b, c, d, e, f, rest, rfl, ha, hb, hc, hd, he, hf⟩
    exact ⟨_, _, rfl, ha, _, _, rfl, hb, _, _, rfl, rfl, _, _, rfl, hc, _, _, rfl, hd, _, _, rfl,
      rfl, _, _, rfl, he, _, _, rfl, hf, rfl⟩

/-- A text of digits in the shape of times is a time only if the digits are ASCII. -/
theorem ascii_of_time? (hshape : startsAs isDecimalDigit timeShape t = true)
    (htime : time? t = some []) :
    ∃ a b c d e f fraction, t = a :: b :: ':' :: c :: d :: ':' :: e :: f :: fraction
      ∧ isAsciiDigit a = true ∧ isAsciiDigit b = true ∧ isAsciiDigit c = true
      ∧ isAsciiDigit d = true ∧ isAsciiDigit e = true ∧ isAsciiDigit f = true
      ∧ fraction? fraction = some [] := by
  obtain ⟨a, b, c, d, e, f, rest, rfl, ha, hb, hc, hd, he, hf⟩ := startsAs_time_iff.mp hshape
  obtain ⟨hour, c₁, minute, c₂, second, c₃, hhour, hminute, hsecond, hfraction⟩ :=
    time?_eq_some htime
  obtain ⟨ha, heq | ⟨hb, heq⟩⟩ := lenientNumber?_decimal ha hhour
  · exact absurd (List.cons.inj heq).1.symm (ne_of_isDecimalDigit hb).1
  cases heq
  obtain ⟨hc, heq | ⟨hd, heq⟩⟩ := lenientNumber?_decimal hc hminute
  · exact absurd (List.cons.inj heq).1.symm (ne_of_isDecimalDigit hd).1
  cases heq
  obtain ⟨he, rfl | ⟨hf, rfl⟩⟩ := lenientNumber?_decimal he hsecond
  · simp [fraction?, (ne_of_isDecimalDigit hf).2] at hfraction
  exact ⟨a, b, c, d, e, f, _, rfl, ha, hb, hc, hd, he, hf, hfraction⟩

theorem twoDigits?_eq_some : twoDigits? chars = some rest ↔
    ∃ a b, chars = a :: b :: rest ∧ isDecimalDigit a = true ∧ isDecimalDigit b = true := by
  match chars with
  | [] => simp [twoDigits?]
  | [_] => simp [twoDigits?]
  | a :: b :: more =>
    simp only [twoDigits?, Option.ite_none_right_eq_some, Option.some.injEq, List.cons.injEq]
    constructor
    · rintro ⟨⟨ha, hb⟩, rfl⟩
      exact ⟨a, b, ⟨rfl, rfl, rfl⟩, ha, hb⟩
    · rintro ⟨_, _, ⟨rfl, rfl, rfl⟩, ha, hb⟩
      exact ⟨⟨ha, hb⟩, rfl⟩

/-- What stands behind the fraction of a second, in digits of any script. -/
def afterFraction (chars : List Char) : List Char :=
  match chars with
  | '.' :: after =>
    if (after.takeWhile isDecimalDigit).isEmpty then chars else after.dropWhile isDecimalDigit
  | _ => chars

/-- Whether a time may end in a text. -/
def endsTime (chars : List Char) : Bool :=
  match chars with
  | [] | ['Z'] | ['z'] => true
  | sign :: after =>
    (sign == '+' || sign == '-')
      && readsAll (fun r => do twoDigits? (← char? ':' (← twoDigits? r))) after

theorem splitTime?_eq (chars : List Char) : splitTime? chars = (do
    let rest ← twoDigits? (← char? ':' (← twoDigits? (← char? ':' (← twoDigits? chars))))
    if endsTime (afterFraction rest) then
      some (chars.take (chars.length - (afterFraction rest).length), afterFraction rest)
    else none) :=
  rfl

theorem afterFraction_suffix (chars : List Char) : afterFraction chars <:+ chars := by
  unfold afterFraction
  split
  · split
    · exact List.suffix_refl _
    · exact (List.dropWhile_suffix _).trans (List.suffix_cons _ _)
  · exact List.suffix_refl _

theorem isLikeOffset_of_endsTime (h : endsTime o = true) : o = [] ∨ isLikeOffset o = true := by
  unfold endsTime at h
  split at h
  · exact .inl rfl
  · exact .inr (by decide)
  · exact .inr (by decide)
  · next sign after _ _ =>
    simp only [Bool.and_eq_true, Bool.or_eq_true, beq_iff_eq, readsAll, Option.bind_eq_bind,
      Option.bind_eq_some_iff] at h
    obtain ⟨hsign, c₁, hhours, c₂, hcolon, hminutes⟩ := h
    obtain ⟨a, b, rfl, ha, hb⟩ := twoDigits?_eq_some.mp hhours
    obtain rfl := char?_eq_some hcolon
    obtain ⟨x, y, rfl, hx, hy⟩ := twoDigits?_eq_some.mp hminutes
    have hsign := mem_signs (by simpa using hsign)
    exact .inr (isLikeOffset_iff.mpr (.inr (.inr ⟨sign, hsign, a, b, x, y, rfl, ha, hb, hx, hy⟩)))

theorem endsTime_of_isOffset (ho : o = [] ∨ isOffset o = true) : endsTime o = true := by
  have digit {c : Char} := isDecimalDigit_of_isAsciiDigit (c := c)
  obtain rfl | ho := ho
  · rfl
  · obtain rfl | ⟨sign, hsign, a, b, x, y, rfl, ha, hb, hx, hy⟩ := isOffset_iff.mp ho
    · rfl
    · simpa [endsTime, readsAll, twoDigits?, char?, digit ha, digit hb, digit hx, digit hy]
        using hsign

theorem take_length_sub (t o : List Char) : (t ++ o).take ((t ++ o).length - o.length) = t := by
  simp

/-- How a time that stands alone is split. -/
theorem splitTime?_eq_some (h : splitTime? chars = some (t, o)) :
    chars = t ++ o ∧ startsAs isDecimalDigit timeShape t = true
      ∧ (o = [] ∨ isLikeOffset o = true) := by
  simp only [splitTime?_eq, Option.bind_eq_bind, Option.bind_eq_some_iff,
    Option.ite_none_right_eq_some, Option.some.injEq, Prod.mk.injEq] at h
  obtain ⟨c₁, hhour, c₂, hcolon, c₃, hminute, c₄, hcolon', c₅, hsecond, hends, htime, rfl⟩ := h
  obtain ⟨fraction, hfraction⟩ := afterFraction_suffix c₅
  generalize afterFraction c₅ = o at hends htime hfraction ⊢
  obtain ⟨a, b, rfl, ha, hb⟩ := twoDigits?_eq_some.mp hhour
  cases char?_eq_some hcolon
  obtain ⟨c, d, rfl, hc, hd⟩ := twoDigits?_eq_some.mp hminute
  cases char?_eq_some hcolon'
  obtain ⟨e, f, rfl, he, hf⟩ := twoDigits?_eq_some.mp hsecond
  subst hfraction
  have htake := take_length_sub (a :: b :: ':' :: c :: d :: ':' :: e :: f :: fraction) o
  cases htime.symm.trans htake
  exact ⟨rfl, startsAs_time_iff.mpr ⟨a, b, c, d, e, f, fraction, rfl, ha, hb, hc, hd, he, hf⟩,
    isLikeOffset_of_endsTime hends⟩

theorem fraction?_eq_nil (h : fraction? chars = some []) :
    chars = [] ∨ ∃ digits, chars = '.' :: digits ∧ digits ≠ []
      ∧ ∀ c ∈ digits, isAsciiDigit c = true := by
  rw [fraction?.eq_def] at h
  split at h
  · next digits =>
    split at h
    · cases h
    · next hsome =>
      refine .inr ⟨digits, rfl, by rintro rfl; exact hsome rfl, ?_⟩
      exact List.dropWhile_eq_nil_iff.mp (Option.some.inj h)
  · exact .inl (Option.some.inj h)

/-- With what an offset begins, no time goes on. -/
theorem exists_cons_of_isOffset (h : isOffset o = true) :
    ∃ c rest, o = c :: rest ∧ c ∈ ['T', 'Z', '+', '-'] := by
  obtain rfl | ⟨sign, hsign, a, b, x, y, rfl, -⟩ := isOffset_iff.mp h
  · exact ⟨'Z', [], rfl, by decide⟩
  · exact ⟨sign, _, rfl, List.mem_append_right ['T', 'Z'] hsign⟩

theorem afterFraction_append {fraction : List Char} (hfraction : fraction? fraction = some [])
    (ho : o = [] ∨ isOffset o = true) : afterFraction (fraction ++ o) = o := by
  have hstop : o.dropWhile isDecimalDigit = o ∧ ∀ rest, o ≠ '.' :: rest := by
    obtain rfl | ho := ho
    · simp
    · obtain ⟨c, rest, rfl, hc⟩ := exists_cons_of_isOffset ho
      obtain ⟨hdigit, -, -, -, hdot, -⟩ := stop_of_mem hc
      simp [hdigit, hdot]
  obtain rfl | ⟨digits, rfl, hne, hall⟩ := fraction?_eq_nil hfraction
  · unfold afterFraction
    split
    · next heq => exact absurd heq (hstop.2 _)
    · rfl
  · have hall := fun c hc => isDecimalDigit_of_isAsciiDigit (hall c hc)
    simp [afterFraction, List.takeWhile_append_of_pos hall, List.dropWhile_append_of_pos hall,
      hstop.1, hne]

theorem splitTime?_append (hshape : startsAs isAsciiDigit timeShape t = true)
    (htime : time? t = some []) (ho : o = [] ∨ isOffset o = true) :
    splitTime? (t ++ o) = some (t, o) := by
  have digit {c : Char} := isDecimalDigit_of_isAsciiDigit (c := c)
  have hdecimal := startsAs_mono (fun _ => isDecimalDigit_of_isAsciiDigit) hshape
  obtain ⟨a, b, c, d, e, f, fraction, rfl, ha, hb, hc, hd, he, hf, hfraction⟩ :=
    ascii_of_time? hdecimal htime
  have htake := take_length_sub (a :: b :: ':' :: c :: d :: ':' :: e :: f :: fraction) o
  have hrest := afterFraction_append hfraction ho
  simp only [List.cons_append] at htake ⊢
  simpa [splitTime?_eq, twoDigits?, char?, digit ha, digit hb, digit hc, digit hd, digit he,
    digit hf, hrest, endsTime_of_isOffset ho] using htake

/-! ### Dates, times and offsets together -/

/-- No time goes on behind an offset. -/
theorem time?_append_isOffset (ho : isOffset o = true) (t : List Char) :
    time? (t ++ o) = (time? t).map (· ++ o) := by
  obtain ⟨c, rest, rfl, hc⟩ := exists_cons_of_isOffset ho
  exact time?_append hc t rest

theorem time?_append_ne_nil (ho : isOffset o = true) (t : List Char) :
    time? (t ++ o) ≠ some [] := by
  obtain ⟨c, rest, rfl, -⟩ := exists_cons_of_isOffset ho
  rw [time?_append_isOffset ho]
  simp

section Parts

variable (ht : carriesOffset t = false) (ho : o = [] ∨ isOffset o = true)
include ht ho

theorem isTimeText_append : isTimeText (t ++ o) = true ↔
    startsAs isAsciiDigit timeShape t = true ∧ time? t = some [] := by
  constructor
  · intro h
    unfold isTimeText at h
    split at h
    · next t' o' hsplit =>
      obtain ⟨heq, hshape, ho'⟩ := splitTime?_eq_some hsplit
      have htime : time? t' = some [] := beq_iff_eq.mp h
      have hsame : t = t' := by
        obtain rfl | ho := ho <;> obtain rfl | ho' := ho'
        · simpa using heq
        · have hsuffix : o' <:+ t := ⟨t', by simpa using heq.symm⟩
          exact absurd ho' (not_isLikeOffset_of_suffix ht hsuffix)
        · rw [List.append_nil] at heq
          exact absurd (heq ▸ htime) (time?_append_ne_nil ho t)
        · exact (isLikeOffset_unique (isLikeOffset_of_isOffset ho) ho' heq).1
      subst hsame
      obtain ⟨a, b, c, d, e, f, _, rfl, ha, hb, hc, hd, he, hf, -⟩ := ascii_of_time? hshape htime
      exact ⟨startsAs_time_iff.mpr ⟨a, b, c, d, e, f, _, rfl, ha, hb, hc, hd, he, hf⟩, htime⟩
    · cases h
  · rintro ⟨hshape, htime⟩
    rw [isTimeText, splitTime?_append hshape htime ho]
    exact beq_iff_eq.mpr htime

theorem timeHasOffset_append
    (h : o = [] ∨ startsAs isAsciiDigit timeShape t = true ∧ time? t = some []) :
    timeHasOffset (t ++ o) = !o.isEmpty := by
  obtain rfl | ⟨hshape, htime⟩ := h
  · unfold timeHasOffset
    split
    · next t' o' hsplit =>
      obtain ⟨heq, -, rfl | ho'⟩ := splitTime?_eq_some hsplit
      · rfl
      · have hsuffix : o' <:+ t := ⟨t', by simpa using heq.symm⟩
        exact absurd ho' (not_isLikeOffset_of_suffix ht hsuffix)
    · rfl
  · rw [timeHasOffset, splitTime?_append hshape htime ho]

end Parts

theorem isLocalDateTimeText_t (d rest : List Char) : isLocalDateTimeText (d ++ 'T' :: rest) = true ↔
    date? d = some [] ∧ time? rest = some [] := by
  simp only [isLocalDateTimeText, readsAll, beq_iff_eq, Option.bind_eq_bind, date?_append_t,
    Option.bind_eq_some_iff, Option.map_eq_some_iff]
  constructor
  · rintro ⟨_, ⟨_ | ⟨c, l⟩, hdate, rfl⟩, c₁, hsep, htime⟩
    · cases char?_eq_some hsep
      exact ⟨hdate, htime⟩
    · obtain rfl : c₁ = l ++ 'T' :: rest := (List.cons.inj (char?_eq_some hsep)).2.symm
      rw [time?_append (by decide)] at htime
      simp at htime
  · rintro ⟨hdate, htime⟩
    exact ⟨_, ⟨[], hdate, rfl⟩, rest, rfl, htime⟩

theorem not_mem_of_offset? (h : offset? chars = some []) : 'T' ∉ chars := by
  intro hmem
  obtain rfl | rfl | ⟨sign, hsign, a, b, x, y, rfl, ha, hb, hx, hy, -⟩ := offset?_eq_nil.mp h
  · exact absurd hmem (by decide)
  · exact absurd hmem (by decide)
  · have hdigit : isAsciiDigit 'T' = false := by decide
    have hsign' : 'T' ∉ ['+', '-', '\u2212'] := by decide
    simp only [List.mem_cons, List.not_mem_nil, or_false] at hmem
    rcases hmem with rfl | rfl | rfl | h | rfl | rfl <;> simp_all

theorem isTimestampText_t (d rest : List Char) : isTimestampText (d ++ 'T' :: rest) = true ↔
    startsAs isAsciiDigit dateShape d = true ∧ date? d = some []
      ∧ startsAs isAsciiDigit timeShape rest = true
      ∧ ∃ left, time? rest = some left ∧ offset? left = some [] := by
  rw [isTimestampText, readsAll, beq_iff_eq, timestamp?_eq_some,
    startsAs_append (by decide) (by decide)]
  simp only [date?_append_t, Option.map_eq_some_iff]
  constructor
  · rintro ⟨hfull, _, c₂, c₃, ⟨_ | ⟨c, l⟩, hdate, rfl⟩, hsep, hfull', htime, hoffset⟩
    · cases hsep
      exact ⟨hfull, hdate, hfull', c₃, htime, hoffset⟩
    · -- a date that is not all of `d` leaves the `T` for the time or the offset
      have hrest : c₂ = l ++ 'T' :: rest := by
        rw [List.cons_append, separator?.eq_def] at hsep
        split at hsep <;> simp_all
      rw [hrest, time?_append (by decide), Option.map_eq_some_iff] at htime
      obtain ⟨l, -, rfl⟩ := htime
      exact absurd (by simp) (not_mem_of_offset? hoffset)
  · rintro ⟨hfull, hdate, hfull', left, htime, hoffset⟩
    exact ⟨hfull, _, rest, left, ⟨[], hdate, rfl⟩, rfl, hfull', htime, hoffset⟩

theorem isLocalDateTimeText_append (ho : o = [] ∨ isOffset o = true) :
    isLocalDateTimeText (d ++ 'T' :: (t ++ o)) = true ↔
      o = [] ∧ date? d = some [] ∧ time? t = some [] := by
  rw [isLocalDateTimeText_t]
  obtain rfl | ho := ho
  · simp
  · have hne : o ≠ [] := by rintro rfl; cases ho
    simp [time?_append_ne_nil ho t, hne]

section Parts

variable (ht : carriesOffset t = false) (ho : o = [] ∨ isOffset o = true)
include ht ho

theorem isTimestampText_append : isTimestampText (d ++ 'T' :: (t ++ o)) = true ↔
    o ≠ [] ∧ startsAs isAsciiDigit dateShape d = true ∧ date? d = some []
      ∧ startsAs isAsciiDigit timeShape t = true ∧ time? t = some [] ∧ isInDay o = true := by
  rw [isTimestampText_t]
  obtain rfl | ho := ho
  · rw [List.append_nil]
    constructor
    · rintro ⟨-, -, -, left, htime, hoffset⟩
      exact absurd (isLikeOffset_of_offset? hoffset)
        (not_isLikeOffset_of_suffix ht (time?_suffix htime))
    · rintro ⟨hne, -⟩
      exact absurd rfl hne
  · obtain ⟨c, rest, rfl, hc⟩ := exists_cons_of_isOffset ho
    obtain ⟨-, hdigit, -, hcolon, -, hd⟩ := stop_of_mem hc
    have hshape : c ∉ timeShape := by simp [timeShape_eq, hcolon, hd]
    rw [startsAs_append hdigit hshape, time?_append hc, ← offset?_of_isOffset ho]
    simp only [Option.map_eq_some_iff]
    constructor
    · rintro ⟨hfull, hdate, hfull', _, ⟨l, htime, rfl⟩, hoffset⟩
      obtain ⟨rfl, -⟩ := isLikeOffset_unique (t := []) (isLikeOffset_of_offset? hoffset)
        (isLikeOffset_of_isOffset ho) rfl
      exact ⟨by simp, hfull, hdate, hfull', htime, hoffset⟩
    · rintro ⟨-, hfull, hdate, hfull', htime, hoffset⟩
      exact ⟨hfull, hdate, hfull', _, ⟨[], htime, rfl⟩, hoffset⟩

end Parts

end JsonTyping.Calendar
