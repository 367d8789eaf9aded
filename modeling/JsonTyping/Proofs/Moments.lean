import JsonTyping.Format.Basic
import JsonTyping.Proofs.MomentTexts
import Mathlib.Tactic.FinCases
import Mathlib.Tactic.SplitIfs

/-!
# Dates, times and moments

Hyphens and colons tell the formats of strings apart, so a string is recognized as a date, as a time
or as a date and time just if it is one: no format that is tried before them has such a string.

A date, a `T` and a time with or without an offset are recognized together where they are recognized
one by one, as far as they are written in full. The readers differ in what else they take.

- A date alone and a local date and time may have short numbers, a timestamp may not.
- A time alone may not have short numbers, a local date and time may.
- A time alone may have any two digits for the hours and for the minutes of its offset, a timestamp
  only those of a time of day.
-/

namespace JsonTyping.Format

open Text (isAsciiDigit)
open Calendar

variable {chars : List Char} {s : String}

theorem isIntegerText_count (h : isIntegerText chars = true) :
    chars.count '-' ≤ 1 ∧ chars.count ':' = 0 := by
  unfold isIntegerText at h
  split at h
  next negative digits heq =>
  obtain ⟨hcanonical, -⟩ := (Bool.and_eq_true _ _).mp h
  have hall : digits.all isAsciiDigit = true := by
    split at hcanonical
    · decide
    · exact ((Bool.and_eq_true _ _).mp hcanonical).2
    · cases hcanonical
  have hall := List.all_eq_true.mp hall
  have hdash : digits.count '-' = 0 := count_eq_zero_of_forall (by decide) hall
  have hcolon : digits.count ':' = 0 := count_eq_zero_of_forall (by decide) hall
  split at heq
  · cases heq
    simp [hdash, hcolon]
  · cases heq
    exact ⟨by omega, hcolon⟩

/-- Between the groups of an identifier stand hyphens. -/
theorem isHexGroups_count {groups : List Nat} (h : isHexGroups groups chars = true) :
    chars.count '-' = groups.length - 1 ∧ chars.count ':' = 0 := by
  have hhex : Text.isHexDigit '-' = false ∧ Text.isHexDigit ':' = false := by decide
  induction groups, chars using isHexGroups.induct with
  | case1 chars => simp_all [isHexGroups]
  | case2 n chars =>
    obtain ⟨-, hall⟩ := (Bool.and_eq_true _ _).mp h
    have hall := List.all_eq_true.mp hall
    exact ⟨count_eq_zero_of_forall hhex.1 hall, count_eq_zero_of_forall hhex.2 hall⟩
  | case3 n rest chars hrest ih =>
    simp only [isHexGroups, Bool.and_eq_true, beq_iff_eq] at h
    obtain ⟨⟨⟨-, hall⟩, hhyphen⟩, hgroups⟩ := h
    have hall := List.all_eq_true.mp hall
    obtain ⟨hdash, hcolon⟩ := ih hgroups
    have hdrop : chars.drop n = '-' :: chars.drop (n + 1) := by
      rw [← List.tail_drop]
      exact List.eq_cons_of_mem_head? (by simp [hhyphen])
    have hpos : 0 < rest.length := List.length_pos_iff.mpr hrest
    rw [← List.take_append_drop n chars, hdrop, List.count_append, List.count_append,
      count_eq_zero_of_forall hhex.1 hall, count_eq_zero_of_forall hhex.2 hall,
      List.count_cons_self, List.count_cons_of_ne (by decide), hdash, hcolon, List.length_cons]
    omega

theorem isDateText_count (h : isDateText chars = true) :
    2 ≤ chars.count '-' ∧ chars.count '-' ≤ 3 ∧ chars.count ':' = 0 := by
  have hdate : date? chars = some [] := beq_iff_eq.mp h
  obtain ⟨sign, hsign, hdash⟩ := date?_count (c := '-') (by decide) (by decide) hdate
  obtain ⟨sign', hsign', hcolon⟩ := date?_count (c := ':') (by decide) (by decide) hdate
  rw [hdash, hcolon]
  fin_cases hsign <;> fin_cases hsign' <;> decide

theorem isTimeText_count (h : isTimeText chars = true) :
    chars.count '-' ≤ 1 ∧ 2 ≤ chars.count ':' := by
  unfold isTimeText at h
  split at h
  · next t o hsplit =>
    obtain ⟨rfl, -, ho⟩ := splitTime?_eq_some hsplit
    have htime : time? t = some [] := beq_iff_eq.mp h
    have hdash := time?_count (c := '-') (by decide) (by decide) (by decide) htime
    have hcolon := time?_count (c := ':') (by decide) (by decide) (by decide) htime
    have hoffset : o.count '-' ≤ 1 := by
      obtain rfl | ho := ho
      · decide
      · exact isLikeOffset_count ho
    rw [List.count_append, List.count_append, hdash, hcolon]
    simp at *
    omega
  · cases h

theorem count_of_date_time {c₁ c₂ c₃ : List Char} (hdate : date? chars = some c₁)
    (hsuffix : c₂ <:+ c₁) (htime : time? c₂ = some c₃) :
    2 ≤ chars.count '-' ∧ 2 ≤ chars.count ':' := by
  obtain ⟨_, -, hdash⟩ := date?_count (c := '-') (by decide) (by decide) hdate
  obtain ⟨_, -, hcolon⟩ := date?_count (c := ':') (by decide) (by decide) hdate
  have hcolon' := time?_count (c := ':') (by decide) (by decide) (by decide) htime
  have hle := hsuffix.sublist.count_le ':'
  simp only [List.count_cons_self, List.count_nil] at hdash hcolon'
  omega

theorem isDateTimeText_count (h : isDateTimeText chars = true) :
    2 ≤ chars.count '-' ∧ 2 ≤ chars.count ':' := by
  obtain h | h := (Bool.or_eq_true _ _).mp h
  · obtain ⟨-, c₁, c₂, c₃, hdate, hsep, -, htime, -⟩ := timestamp?_eq_some.mp (beq_iff_eq.mp h)
    have hsuffix : c₂ <:+ c₁ := by
      rw [separator?.eq_def] at hsep
      split at hsep <;> cases hsep <;> exact List.suffix_cons _ _
    exact count_of_date_time hdate hsuffix htime
  · have h := beq_iff_eq.mp h
    simp only [Option.bind_eq_bind, Option.bind_eq_some_iff] at h
    obtain ⟨c₁, hdate, c₂, hsep, htime⟩ := h
    exact count_of_date_time hdate (char?_suffix hsep) htime

/-- What stands for a Boolean, a whole number or an identifier has no colon, and no two or three
hyphens. -/
theorem earlier_count (h : (s = "true" ∨ s = "false") ∨ isIntegerText s.toList = true
      ∨ isUuidText s.toList = true) :
    s.toList.count ':' = 0 ∧ (s.toList.count '-' ≤ 1 ∨ s.toList.count '-' = 4) := by
  obtain (rfl | rfl) | h | h := h
  · decide
  · decide
  · exact ⟨(isIntegerText_count h).2, .inl (isIntegerText_count h).1⟩
  · exact ⟨(isHexGroups_count h).2, .inr (isHexGroups_count h).1⟩

/-! ### What is recognized -/

theorem text_of_recognize {f : Format} (h : recognize s = some f) :
    (f = dateTime → isDateTimeText s.toList = true) ∧ (f = date → isDateText s.toList = true)
      ∧ (f = time → isTimeText s.toList = true) := by
  simp only [recognize] at h
  split_ifs at h
  all_goals
    cases h
    simp [*]

theorem recognize_of_not_earlier (hcount : 0 < s.toList.count ':'
      ∨ 2 ≤ s.toList.count '-' ∧ s.toList.count '-' ≤ 3) :
    recognize s = if isDateTimeText s.toList then some dateTime
      else if isDateText s.toList then some date
      else if isTimeText s.toList then some time
      else if isUriText s then some uri
      else none := by
  have hnot (h : (s = "true" ∨ s = "false") ∨ isIntegerText s.toList = true
      ∨ isUuidText s.toList = true) : False := by
    have := earlier_count h
    omega
  simp only [recognize]
  rw [if_neg fun h => hnot (.inl h), if_neg fun h => hnot (.inr (.inl h)),
    if_neg fun h => hnot (.inr (.inr h))]

theorem recognize_eq_dateTime : recognize s = some .dateTime ↔ isDateTimeText s.toList = true := by
  refine ⟨fun h => (text_of_recognize h).1 rfl, fun h => ?_⟩
  have hcount := isDateTimeText_count h
  rw [recognize_of_not_earlier (by omega), if_pos h]

theorem recognize_eq_date : recognize s = some .date ↔ isDateText s.toList = true := by
  refine ⟨fun h => (text_of_recognize h).2.1 rfl, fun h => ?_⟩
  have hcount := isDateText_count h
  have hnot : ¬ isDateTimeText s.toList = true := fun h' => by
    have := isDateTimeText_count h'
    omega
  rw [recognize_of_not_earlier (by omega), if_neg hnot, if_pos h]

theorem recognize_eq_time : recognize s = some .time ↔ isTimeText s.toList = true := by
  refine ⟨fun h => (text_of_recognize h).2.2 rfl, fun h => ?_⟩
  have hcount := isTimeText_count h
  have hnot : ¬ isDateTimeText s.toList = true := fun h' => by
    have := isDateTimeText_count h'
    omega
  have hnot' : ¬ isDateText s.toList = true := fun h' => by
    have := isDateText_count h'
    omega
  rw [recognize_of_not_earlier (by omega), if_neg hnot, if_neg hnot', if_pos h]

section Moment

variable {d t o : String}

theorem toList_moment (d t o : String) :
    (d ++ "T" ++ t ++ o).toList = d.toList ++ 'T' :: (t.toList ++ o.toList) := by
  simp [String.toList_append]

variable (ht : carriesOffset t.toList = false) (ho : o = "" ∨ isOffset o.toList = true)
include ho

theorem toList_eq_nil_or_isOffset : o.toList = [] ∨ isOffset o.toList = true :=
  ho.imp_left fun h => by rw [h]; rfl

include ht

theorem recognize_dateTime_moment : recognize (d ++ "T" ++ t ++ o) = some .dateTime ↔
    recognize d = some .date ∧ time? t.toList = some [] ∧ (o ≠ "" →
      startsAs isAsciiDigit dateShape d.toList = true
        ∧ startsAs isAsciiDigit timeShape t.toList = true ∧ isInDay o.toList = true) := by
  have ho' := toList_eq_nil_or_isOffset ho
  rw [recognize_eq_dateTime, recognize_eq_date, isDateTimeText, Bool.or_eq_true, toList_moment,
    isTimestampText_append ht ho', isLocalDateTimeText_append ho', isDateText, readsAll,
    beq_iff_eq]
  simp only [ne_eq, String.toList_eq_nil_iff]
  constructor
  · rintro (⟨-, hfull, hdate, hfull', htime, hday⟩ | ⟨hempty, hdate, htime⟩)
    · exact ⟨hdate, htime, fun _ => ⟨hfull, hfull', hday⟩⟩
    · exact ⟨hdate, htime, fun hne => absurd hempty hne⟩
  · rintro ⟨hdate, htime, hrest⟩
    by_cases hempty : o = ""
    · exact .inr ⟨hempty, hdate, htime⟩
    · obtain ⟨hfull, hfull', hday⟩ := hrest hempty
      exact .inl ⟨hempty, hfull, hdate, hfull', htime, hday⟩

theorem recognize_time_append : recognize (t ++ o) = some .time ↔
    startsAs isAsciiDigit timeShape t.toList = true ∧ time? t.toList = some [] := by
  rw [recognize_eq_time, String.toList_append,
    isTimeText_append ht (toList_eq_nil_or_isOffset ho)]

/-- Whether there is an offset is seen alike in a moment and in its time. -/
theorem traits_moment (h : recognize (d ++ "T" ++ t ++ o) = some .dateTime) :
    dateTime.traits (d ++ "T" ++ t ++ o) = time.traits (t ++ o)
      ∧ (time.traits (t ++ o)).alwaysOffset = some (decide (o ≠ "")) := by
  have ho' := toList_eq_nil_or_isOffset ho
  obtain ⟨hdate, htime, hrest⟩ := (recognize_dateTime_moment ht ho).mp h
  have hdate : date? d.toList = some [] := beq_iff_eq.mp (recognize_eq_date.mp hdate)
  have hmoment : isTimestampText (d ++ "T" ++ t ++ o).toList = decide (o ≠ "") := by
    rw [Bool.eq_iff_iff, decide_eq_true_eq, toList_moment, isTimestampText_append ht ho', ne_eq,
      String.toList_eq_nil_iff]
    refine ⟨And.left, fun hne => ?_⟩
    obtain ⟨hfull, hfull', hday⟩ := hrest hne
    exact ⟨hne, hfull, hdate, hfull', htime, hday⟩
  have hparts : o.toList = [] ∨
      startsAs isAsciiDigit timeShape t.toList = true ∧ time? t.toList = some [] := by
    by_cases hempty : o = ""
    · exact .inl (String.toList_eq_nil_iff.mpr hempty)
    · exact .inr ⟨(hrest hempty).2.1, htime⟩
  have htime : timeHasOffset (t ++ o).toList = decide (o ≠ "") := by
    rw [String.toList_append, timeHasOffset_append ht ho' hparts, Bool.eq_iff_iff]
    simp
  simp only [traits, hmoment, htime, and_self]

/-- A date, a `T`, a time and an offset are recognized together and one by one. With an offset, they
are a date and time if the date and the time with the offset are recognized, the date is in full and
the offset is less than a day. Without, they are one if the date is recognized and the time can be
read, while the time alone has to be in full as well. In either case the date and time has the
attributes of the time. -/
theorem recognize_moment :
    (o ≠ "" → (recognize (d ++ "T" ++ t ++ o) = some .dateTime ↔
      recognize d = some .date ∧ recognize (t ++ o) = some .time
        ∧ startsAs isAsciiDigit dateShape d.toList = true ∧ isInDay o.toList = true)) ∧
    (o = "" → (recognize (d ++ "T" ++ t ++ o) = some .dateTime ↔
        recognize d = some .date ∧ readsAll time? t.toList = true) ∧
      (recognize (t ++ o) = some .time ↔
        readsAll time? t.toList = true ∧ startsAs isAsciiDigit timeShape t.toList = true)) ∧
    (recognize (d ++ "T" ++ t ++ o) = some .dateTime →
      dateTime.traits (d ++ "T" ++ t ++ o) = time.traits (t ++ o)
        ∧ (time.traits (t ++ o)).alwaysOffset = some (decide (o ≠ ""))) := by
  rw [recognize_dateTime_moment ht ho, recognize_time_append ht ho, readsAll, beq_iff_eq]
  refine ⟨fun hne => ?_, fun hempty => ⟨?_, And.comm⟩, ?_⟩
  · constructor
    · rintro ⟨hdate, htime, hrest⟩
      obtain ⟨hfull, hfull', hday⟩ := hrest hne
      exact ⟨hdate, ⟨hfull', htime⟩, hfull, hday⟩
    · rintro ⟨hdate, ⟨hfull', htime⟩, hfull, hday⟩
      exact ⟨hdate, htime, fun _ => ⟨hfull, hfull', hday⟩⟩
  · constructor
    · rintro ⟨hdate, htime, -⟩
      exact ⟨hdate, htime⟩
    · rintro ⟨hdate, htime⟩
      exact ⟨hdate, htime, fun hne => absurd hempty hne⟩
  · exact fun h => traits_moment ht ho ((recognize_dateTime_moment ht ho).mpr h)

end Moment

/-- The last second of a leap day, with a fraction and an offset that is no whole hour. -/
theorem recognize_moment_leapSecond :
    carriesOffset "23:59:60.5".toList = false ∧ isOffset "-05:30".toList = true ∧
      recognize ("2024-02-29" ++ "T" ++ "23:59:60.5" ++ "-05:30") = some .dateTime ∧
      dateTime.traits ("2024-02-29" ++ "T" ++ "23:59:60.5" ++ "-05:30")
        = time.traits ("23:59:60.5" ++ "-05:30") := by
  have ht : carriesOffset "23:59:60.5".toList = false := by decide
  have ho : isOffset "-05:30".toList = true := by decide
  obtain ⟨hoffset, -, htraits⟩ := recognize_moment (d := "2024-02-29") ht (.inr ho)
  have hmoment := (hoffset (by decide)).mpr ⟨by decide, by decide, by decide, by decide⟩
  exact ⟨ht, ho, hmoment, (htraits hmoment).1⟩

/-- A moment is not always recognized just if its date and its time are: a short date and an offset
of a day go with a time alone but not with a timestamp, and a short time goes with a local date and
time but not alone. -/
theorem recognize_moment_differs :
    (carriesOffset "12:30:00".toList = false ∧ isOffset "Z".toList = true ∧
      ¬ (recognize ("2024-1-1" ++ "T" ++ "12:30:00" ++ "Z") = some .dateTime ↔
        recognize "2024-1-1" = some .date ∧ recognize ("12:30:00" ++ "Z") = some .time)) ∧
    (isOffset "+24:00".toList = true ∧
      ¬ (recognize ("2024-01-01" ++ "T" ++ "12:30:00" ++ "+24:00") = some .dateTime ↔
        recognize "2024-01-01" = some .date ∧ recognize ("12:30:00" ++ "+24:00") = some .time)) ∧
    (carriesOffset "1:2:3".toList = false ∧
      ¬ (recognize ("2024-01-01" ++ "T" ++ "1:2:3" ++ "") = some .dateTime ↔
        recognize "2024-01-01" = some .date ∧ recognize ("1:2:3" ++ "") = some .time)) := by
  refine ⟨⟨by decide, by decide, ?_⟩, ⟨by decide, ?_⟩, by decide, ?_⟩
  · exact fun h => absurd (h.mpr ⟨by decide, by decide⟩) (by decide)
  · exact fun h => absurd (h.mpr ⟨by decide, by decide⟩) (by decide)
  · exact fun h => absurd (h.mp (by decide)).2 (by decide)

end JsonTyping.Format
