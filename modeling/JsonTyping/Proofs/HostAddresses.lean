import JsonTyping.Url.Host
import Mathlib.Data.List.Basic
import Mathlib.Data.List.TakeWhile
import Mathlib.Data.Nat.Digits.Defs

/-!
# Addresses of hosts

An IPv4 address is below 2³² and an IPv6 address has eight pieces below 2¹⁶, however they were
spelled (`Url.ipv4Address?_lt`, `Url.isIpv6_of_read`). Each is written in one way, and what is
written is read as the same address (`Url.ipv4Address?_text`, `Url.ipv6Address?_text`): a double
colon stands for the zeros that were left out for it.
-/

namespace JsonTyping.Url

theorem exists_of_mem_mapM {α β : Type} {f : α → Option β} {l : List α} {l' : List β}
    (h : l.mapM f = some l') : ∀ b ∈ l', ∃ a ∈ l, f a = some b := by
  induction l generalizing l' with
  | nil =>
    obtain rfl : [] = l' := by simpa using h
    exact fun b hb => nomatch hb
  | cons a l ih =>
    rw [List.mapM_cons] at h
    obtain ⟨first, hfirst, h⟩ := Option.bind_eq_some_iff.1 h
    obtain ⟨rest, hrest, h⟩ := Option.bind_eq_some_iff.1 h
    obtain rfl := Option.some.inj h
    intro b hb
    rcases List.mem_cons.1 hb with rfl | hb
    · exact ⟨a, List.mem_cons_self, hfirst⟩
    · obtain ⟨a', ha', hb'⟩ := ih hrest b hb
      exact ⟨a', List.mem_cons_of_mem _ ha', hb'⟩

theorem length_mapM {α β : Type} {f : α → Option β} {l : List α} {l' : List β}
    (h : l.mapM f = some l') : l'.length = l.length := by
  induction l generalizing l' with
  | nil =>
    obtain rfl : [] = l' := by simpa using h
    rfl
  | cons a l ih =>
    rw [List.mapM_cons] at h
    obtain ⟨first, -, h⟩ := Option.bind_eq_some_iff.1 h
    obtain ⟨rest, hrest, h⟩ := Option.bind_eq_some_iff.1 h
    obtain rfl := Option.some.inj h
    rw [List.length_cons, List.length_cons, ih hrest]

theorem mapM_map_eq_some {α β : Type} {f : α → Option β} {g : β → α} {l : List β}
    (h : ∀ b ∈ l, f (g b) = some b) : (l.map g).mapM f = some l := by
  induction l with
  | nil => rfl
  | cons b l ih =>
    rw [List.map_cons, List.mapM_cons, h b List.mem_cons_self,
      ih fun c hc => h c (List.mem_cons_of_mem b hc)]
    rfl

/-! ### IPv4 -/

theorem ipv4Number?_byte : ∀ n < 256, ipv4Number? (toString n).toList = some n := by
  decide +kernel

/-- The labels that an IPv4 address is written in. -/
def ipv4Labels (address : Nat) : List (List Char) :=
  [3, 2, 1, 0].map fun i => (toString (address / Nat.pow 256 i % 256)).toList

theorem toList_ipv4Text (address : Nat) :
    (ipv4Text address).toList = ['.'].intercalate (ipv4Labels address) := by
  rw [ipv4Text, String.toList_intercalate, List.map_map]
  rfl

/-- The numbers of an IPv4 address from a position on, added to the last one. -/
def ipv4Sum (position : Nat) (front : List Nat) (last : Nat) : Nat :=
  (front.zipIdx position).foldl (fun sum (n, i) => sum + n * Nat.pow 256 (3 - i)) last

theorem ipv4Sum_cons (position n : Nat) (front : List Nat) (last : Nat) :
    ipv4Sum position (n :: front) last =
      ipv4Sum (position + 1) front (last + n * Nat.pow 256 (3 - position)) := rfl

/-- The bytes in front of the last number leave it the positions behind them. -/
theorem ipv4Sum_add_le {front : List Nat} (position last : Nat)
    (hposition : position + front.length ≤ 4) (hfront : ∀ n ∈ front, n ≤ 255) :
    ipv4Sum position front last + 256 ^ (4 - (position + front.length)) ≤
      last + 256 ^ (4 - position) := by
  induction front generalizing position last with
  | nil => exact Nat.le_refl _
  | cons n front ih =>
    rw [List.length_cons] at hposition ⊢
    have hn := hfront n List.mem_cons_self
    have hrest := ih (position + 1) (last + n * 256 ^ (3 - position)) (by omega)
      fun m hm => hfront m (List.mem_cons_of_mem n hm)
    have hstep : 256 ^ (4 - position) = 256 * 256 ^ (3 - position) := by
      rw [← Nat.pow_succ']
      congr 1
      omega
    calc ipv4Sum position (n :: front) last + 256 ^ (4 - (position + (front.length + 1)))
        = ipv4Sum (position + 1) front (last + n * 256 ^ (3 - position))
            + 256 ^ (4 - (position + 1 + front.length)) := by
          rw [ipv4Sum_cons, Nat.add_assoc position 1, Nat.add_comm 1]
          rfl
      _ ≤ last + n * 256 ^ (3 - position) + 256 ^ (4 - (position + 1)) := hrest
      _ = last + (n + 1) * 256 ^ (3 - position) := by
          rw [Nat.add_mul, Nat.one_mul, Nat.add_assoc, Nat.sub_add_eq, Nat.sub_right_comm]
      _ ≤ last + 256 ^ (4 - position) := by
          rw [hstep]
          exact Nat.add_le_add_left (Nat.mul_le_mul_right _ (by omega)) _

theorem ipv4Sum_lt {front : List Nat} {last : Nat} (hlength : front.length < 4)
    (hfront : ∀ n ∈ front, n ≤ 255) (hlast : last < 256 ^ (4 - front.length)) :
    ipv4Sum 0 front last < 256 ^ 4 := by
  have hsum := ipv4Sum_add_le 0 last (by omega) hfront
  rw [Nat.zero_add] at hsum
  exact Nat.lt_of_add_lt_add_right (Nat.lt_of_le_of_lt hsum (by
    rw [Nat.add_comm (256 ^ 4)]
    exact Nat.add_lt_add_right hlast _))

theorem ipv4Address?_lt {labels : List (List Char)} {address : Nat}
    (h : ipv4Address? labels = some address) : address < 256 ^ 4 := by
  unfold ipv4Address? at h
  dsimp only at h
  generalize (if labels.getLast? = some [] then labels.dropLast else labels) = labels at h
  split at h
  · cases h
  · rename_i hlength
    obtain ⟨numbers, hnumbers, h⟩ := Option.bind_eq_some_iff.1 h
    obtain ⟨last, hlast, h⟩ := Option.bind_eq_some_iff.1 h
    have hcount := length_mapM hnumbers
    have hpos : numbers ≠ [] := by
      rintro rfl
      cases hlast
    have hfrontLength : numbers.dropLast.length < 4 := by
      have := List.length_pos_iff.2 hpos
      rw [List.length_dropLast]
      omega
    split at h
    · cases h
    · rename_i hbytes
      split at h
      · cases h
      · rename_i hrest
        obtain rfl := Option.some.inj h
        rw [Bool.not_eq_true, List.any_eq_false] at hbytes
        refine ipv4Sum_lt hfrontLength (fun n hn => ?_) (Nat.lt_of_not_le hrest)
        have hsmall := hbytes n hn
        rw [decide_eq_true_eq] at hsmall
        omega

theorem ipv4Address?_of_numbers {labels : List (List Char)} {front : List Nat} {last : Nat}
    (hlabels : labels.getLast? ≠ some []) (hlength : labels.length ≤ 4)
    (hnumbers : labels.mapM ipv4Number? = some (front ++ [last])) (hfront : ∀ n ∈ front, n ≤ 255)
    (hlast : last < Nat.pow 256 (4 - front.length)) :
    ipv4Address? labels = some (ipv4Sum 0 front last) := by
  have hbytes : ¬(front.any fun n => decide (255 < n)) = true := by
    rw [Bool.not_eq_true, List.any_eq_false]
    intro n hn
    have := hfront n hn
    rw [decide_eq_true_eq]
    omega
  unfold ipv4Address?
  dsimp only
  rw [if_neg hlabels, if_neg (Nat.not_lt_of_le hlength), hnumbers]
  simp only [Option.bind_eq_bind, Option.bind_some, List.getLast?_concat, List.dropLast_concat]
  rw [if_neg hbytes, if_neg (Nat.not_le_of_lt hlast)]
  rfl

theorem ipv4Sum_bytes {address : Nat} (h : address < 256 ^ 4) :
    ipv4Sum 0 ([3, 2, 1].map fun i => address / Nat.pow 256 i % 256)
      (address / Nat.pow 256 0 % 256) = address := by
  have hsum (b₃ b₂ b₁ b₀ : Nat) : ipv4Sum 0 [b₃, b₂, b₁] b₀ =
      b₀ + b₃ * Nat.pow 256 3 + b₂ * Nat.pow 256 2 + b₁ * Nat.pow 256 1 := by
    rw [ipv4Sum_cons, ipv4Sum_cons, ipv4Sum_cons]
    rfl
  have hthree : Nat.pow 256 3 = 16777216 := by norm_num
  have htwo : Nat.pow 256 2 = 65536 := by norm_num
  have hone : Nat.pow 256 1 = 256 := by norm_num
  have hzero : Nat.pow 256 0 = 1 := by norm_num
  have hbound : address < 4294967296 := by norm_num at h; exact h
  rw [List.map_cons, List.map_cons, List.map_singleton, hsum, hthree, htwo, hone, hzero]
  omega

/-- An address is read back from its four bytes. -/
theorem ipv4Address?_text {address : Nat} (h : address < 256 ^ 4) :
    ipv4Address? (ipv4Labels address) = some address := by
  have hbyte (i : Nat) : address / Nat.pow 256 i % 256 < 256 := Nat.mod_lt _ (by omega)
  have hnumbers : (ipv4Labels address).mapM ipv4Number? =
      some ([3, 2, 1, 0].map fun i => address / Nat.pow 256 i % 256) := by
    rw [← mapM_map_eq_some (g := fun n : Nat => (toString n).toList), List.map_map]
    · rfl
    · simp only [List.mem_map]
      rintro n ⟨i, -, rfl⟩
      exact ipv4Number?_byte _ (hbyte i)
  have hlabels : (ipv4Labels address).getLast? ≠ some [] := by
    intro hnil
    have hdigits : (Nat.repr (address / Nat.pow 256 0 % 256)).toList = [] := Option.some.inj hnil
    rw [Nat.toList_repr] at hdigits
    exact Nat.toDigits_ne_nil hdigits
  have hfront : ∀ n ∈ [3, 2, 1].map fun i => address / Nat.pow 256 i % 256, n ≤ 255 := by
    intro n hn
    obtain ⟨i, -, rfl⟩ := List.mem_map.1 hn
    exact Nat.le_of_lt_succ (hbyte i)
  rw [ipv4Address?_of_numbers hlabels (Nat.le_refl 4) hnumbers hfront (hbyte 0), ipv4Sum_bytes h]

/-! ### IPv6 -/

def hexDigits : List Char :=
  ['0', '1', '2', '3', '4', '5', '6', '7', '8', '9', 'a', 'b', 'c', 'd', 'e', 'f']

theorem digitChar_spec : ∀ d < 16, Nat.digitChar d ∈ hexDigits ∧
    hexValue? (Nat.digitChar d) = some d := by
  decide

theorem mem_hexDigits {n : Nat} {c : Char} (h : c ∈ Nat.toDigits 16 n) : c ∈ hexDigits := by
  induction n using Nat.strongRecOn with
  | ind n ih =>
    by_cases hn : n < 16
    · rw [Nat.toDigits_of_lt_base hn] at h
      rw [List.mem_singleton.1 h]
      exact (digitChar_spec n hn).1
    · rw [Nat.toDigits_of_base_le (by omega) (by omega), List.mem_append] at h
      rcases h with h | h
      · exact ih (n / 16) (by omega) h
      · rw [List.mem_singleton.1 h]
        exact (digitChar_spec (n % 16) (Nat.mod_lt _ (by omega))).1

theorem foldlM_toDigits (n : Nat) :
    (Nat.toDigits 16 n).foldlM (fun n c => (hexValue? c).map (n * 16 + ·)) 0 = some n := by
  induction n using Nat.strongRecOn with
  | ind n ih =>
    by_cases hn : n < 16
    · rw [Nat.toDigits_of_lt_base hn, List.foldlM_cons, (digitChar_spec n hn).2]
      simp
    · rw [Nat.toDigits_of_base_le (by omega) (by omega), List.foldlM_append,
        ih (n / 16) (by omega)]
      have hlast := (digitChar_spec (n % 16) (Nat.mod_lt _ (by omega))).2
      simp only [Option.bind_eq_bind, Option.bind_some, List.foldlM_cons, hlast, Option.map_some,
        List.foldlM_nil, Option.pure_def, Option.some.injEq]
      omega

theorem ipv6Piece?_toDigits {n : Nat} (h : n < 65536) :
    ipv6Piece? (Nat.toDigits 16 n) = some n := by
  have hlength := (Nat.length_toDigits_le_iff (b := 16) (n := n) (k := 4) (by omega) (by omega)).2 h
  unfold ipv6Piece?
  rw [if_neg, foldlM_toDigits]
  rintro (hempty | hlong)
  · exact Nat.toDigits_ne_nil (List.isEmpty_iff.1 hempty)
  · omega

theorem hexValue?_lt {c : Char} {d : Nat} (h : hexValue? c = some d) : d < 16 := by
  simp only [hexValue?, Char.le_def, UInt32.le_iff_toNat_le, Char.toNat] at h
  split at h
  · rename_i hc
    obtain rfl := Option.some.inj h
    simp at hc ⊢
    omega
  · split at h
    · rename_i hc
      obtain rfl := Option.some.inj h
      simp at hc ⊢
      omega
    · split at h
      · rename_i hc
        obtain rfl := Option.some.inj h
        simp at hc ⊢
        omega
      · cases h

theorem foldlM_hexValue?_lt {part : List Char} {m n : Nat}
    (h : part.foldlM (fun n c => (hexValue? c).map (n * 16 + ·)) m = some n) :
    n < (m + 1) * 16 ^ part.length := by
  induction part generalizing m with
  | nil =>
    obtain rfl := Option.some.inj h
    simp
  | cons c part ih =>
    rw [List.foldlM_cons] at h
    obtain ⟨next, hnext, h⟩ := Option.bind_eq_some_iff.1 h
    obtain ⟨d, hd, rfl⟩ := Option.map_eq_some_iff.1 hnext
    have hdigit := hexValue?_lt hd
    calc n < (m * 16 + d + 1) * 16 ^ part.length := ih h
      _ ≤ ((m + 1) * 16) * 16 ^ part.length := Nat.mul_le_mul_right _ (by omega)
      _ = (m + 1) * 16 ^ (part.length + 1) := by rw [Nat.pow_succ']; ring

theorem ipv6Piece?_lt {part : List Char} {n : Nat} (h : ipv6Piece? part = some n) : n < 65536 := by
  unfold ipv6Piece? at h
  split at h
  · cases h
  · rename_i hshort
    have hlength : part.length ≤ 4 := by
      simp only [not_or] at hshort
      omega
    calc n < (0 + 1) * 16 ^ part.length := foldlM_hexValue?_lt h
      _ ≤ (0 + 1) * 16 ^ 4 := Nat.mul_le_mul_left _ (Nat.pow_le_pow_right (by omega) hlength)

theorem ipv4Byte?_lt {part : List Char} {n : Nat} (h : ipv4Byte? part = some n) : n < 256 := by
  unfold ipv4Byte? at h
  dsimp only at h
  split at h
  · cases h
  · rename_i hvalid
    split at h
    · cases h
    · obtain rfl := Option.some.inj h
      simp only [not_or] at hvalid
      omega

theorem ipv6Pieces?_lt {parts : List (List Char)} {pieces : List Nat}
    (h : ipv6Pieces? parts = some pieces) : ∀ n ∈ pieces, n < 65536 := by
  induction parts generalizing pieces with
  | nil =>
    obtain rfl := Option.some.inj h
    exact fun n hn => nomatch hn
  | cons part rest ih =>
    cases rest with
    | nil =>
      rw [ipv6Pieces?] at h
      split at h
      · obtain ⟨bytes, hbytes, h⟩ := Option.bind_eq_some_iff.1 h
        have hsmall : ∀ b ∈ bytes, b < 256 := by
          intro b hb
          obtain ⟨part, -, hpart⟩ := exists_of_mem_mapM hbytes b hb
          exact ipv4Byte?_lt hpart
        split at h
        · rename_i a b c d
          obtain rfl := Option.some.inj h
          have ha := hsmall a (by simp)
          have hb := hsmall b (by simp)
          have hc := hsmall c (by simp)
          have hd := hsmall d (by simp)
          simp only [List.mem_cons, List.not_mem_nil, or_false]
          rintro n (rfl | rfl) <;> omega
        · cases h
      · obtain ⟨n, hn, rfl⟩ := Option.map_eq_some_iff.1 h
        intro m hm
        rw [List.mem_singleton.1 hm]
        exact ipv6Piece?_lt hn
    | cons next rest =>
      rw [ipv6Pieces?] at h
      · obtain ⟨n, hn, h⟩ := Option.bind_eq_some_iff.1 h
        obtain ⟨ns, hns, h⟩ := Option.bind_eq_some_iff.1 h
        obtain rfl := Option.some.inj h
        exact List.forall_mem_cons.2 ⟨ipv6Piece?_lt hn, ih hns⟩
      · exact List.cons_ne_nil _ _

/-- The eight pieces of an IPv6 address. -/
structure IsIpv6 (pieces : List Nat) : Prop where
  length : pieces.length = 8
  lt : ∀ n ∈ pieces, n < 65536

/-- The pieces on one side of a double colon. -/
def sidePieces? (part : List Char) : Option (List Nat) :=
  if part.isEmpty then some [] else ipv6Pieces? (part.splitOn ':')

theorem ipv6Address?_eq (chars : List Char) : ipv6Address? chars =
    match splitDoubleColon chars with
    | none => (sidePieces? chars).bind fun all => if all.length = 8 then some all else none
    | some (left, right) =>
      if left.contains '.' then none
      else (sidePieces? left).bind fun left => (sidePieces? right).bind fun right =>
        let missing := 8 - (left.length + right.length)
        if missing = 0 then none else some (left ++ List.replicate missing 0 ++ right) := by
  unfold ipv6Address?
  dsimp only
  rcases splitDoubleColon chars with _ | ⟨left, right⟩
  · rfl
  · dsimp only
    split <;> rfl

theorem sidePieces?_lt {part : List Char} {pieces : List Nat}
    (h : sidePieces? part = some pieces) : ∀ n ∈ pieces, n < 65536 := by
  unfold sidePieces? at h
  split at h
  · obtain rfl := Option.some.inj h
    exact fun n hn => nomatch hn
  · exact ipv6Pieces?_lt h

theorem isIpv6_of_read {chars : List Char} {pieces : List Nat}
    (h : ipv6Address? chars = some pieces) : IsIpv6 pieces := by
  rw [ipv6Address?_eq] at h
  split at h
  · obtain ⟨all, hall, h⟩ := Option.bind_eq_some_iff.1 h
    split at h
    · rename_i hlength
      obtain rfl := Option.some.inj h
      exact ⟨hlength, sidePieces?_lt hall⟩
    · cases h
  · split at h
    · cases h
    · obtain ⟨left, hleft, h⟩ := Option.bind_eq_some_iff.1 h
      obtain ⟨right, hright, h⟩ := Option.bind_eq_some_iff.1 h
      dsimp only at h
      split at h
      · cases h
      · rename_i hmissing
        obtain rfl := Option.some.inj h
        refine ⟨?_, fun n hn => ?_⟩
        · rw [List.length_append, List.length_append, List.length_replicate]
          omega
        · rw [List.mem_append, List.mem_append, List.mem_replicate] at hn
          rcases hn with (hn | ⟨-, rfl⟩) | hn
          · exact sidePieces?_lt hleft n hn
          · omega
          · exact sidePieces?_lt hright n hn

/-- Pieces with a colon between two of them. -/
def joinedPieces (pieces : List Nat) : List Char :=
  [':'].intercalate (pieces.map (Nat.toDigits 16))

theorem not_mem_toDigits {n : Nat} {c : Char} (hc : c ∉ hexDigits) : c ∉ Nat.toDigits 16 n :=
  fun h => hc (mem_hexDigits h)

theorem ipv6Pieces?_toDigits {pieces : List Nat} (h : ∀ n ∈ pieces, n < 65536) :
    ipv6Pieces? (pieces.map (Nat.toDigits 16)) = some pieces := by
  induction pieces with
  | nil => rfl
  | cons n pieces ih =>
    have hn := ipv6Piece?_toDigits (h n List.mem_cons_self)
    have hrest := ih fun m hm => h m (List.mem_cons_of_mem n hm)
    cases pieces with
    | nil =>
      have hdot : (Nat.toDigits 16 n).contains '.' = false := by
        rw [List.contains_eq_mem, decide_eq_false_iff_not]
        exact not_mem_toDigits (by decide)
      rw [List.map_singleton, ipv6Pieces?, hdot, if_neg Bool.false_ne_true, hn]
      rfl
    | cons m pieces =>
      rw [List.map_cons, ipv6Pieces?, hn, hrest]
      · rfl
      · rw [List.map_cons]
        exact List.cons_ne_nil _ _

theorem joinedPieces_cons (n m : Nat) (pieces : List Nat) :
    joinedPieces (n :: m :: pieces) = Nat.toDigits 16 n ++ ':' :: joinedPieces (m :: pieces) := by
  rw [joinedPieces, joinedPieces, List.map_cons, List.intercalate_cons_of_ne_nil]
  · simp
  · exact List.cons_ne_nil _ _

theorem joinedPieces_ne_nil (n : Nat) (pieces : List Nat) : joinedPieces (n :: pieces) ≠ [] := by
  cases pieces with
  | nil => simp [joinedPieces]
  | cons m pieces => rw [joinedPieces_cons]; simp

theorem joinedPieces_head? (n : Nat) (pieces : List Nat) :
    (joinedPieces (n :: pieces)).head? = (Nat.toDigits 16 n).head? := by
  obtain ⟨c, digits, hdigits⟩ := List.exists_cons_of_ne_nil (Nat.toDigits_ne_nil (n := n) (b := 16))
  cases pieces with
  | nil => simp [joinedPieces]
  | cons m pieces => rw [joinedPieces_cons, hdigits]; rfl

theorem sidePieces?_joinedPieces {pieces : List Nat} (h : ∀ n ∈ pieces, n < 65536) :
    sidePieces? (joinedPieces pieces) = some pieces := by
  cases pieces with
  | nil => rfl
  | cons n pieces =>
    have hne : joinedPieces (n :: pieces) ≠ [] := joinedPieces_ne_nil n pieces
    unfold sidePieces?
    rw [if_neg (by rwa [List.isEmpty_iff]), joinedPieces, List.splitOn_intercalate,
      ipv6Pieces?_toDigits h]
    · simp only [List.mem_map]
      rintro l ⟨m, -, rfl⟩
      exact not_mem_toDigits (by decide)
    · exact List.cons_ne_nil _ _

theorem splitDoubleColon_append {l : List Char} (h : ':' ∉ l) (rest : List Char) :
    splitDoubleColon (l ++ rest) =
      (splitDoubleColon rest).map fun (left, right) => (l ++ left, right) := by
  induction l with
  | nil => simp
  | cons c l ih =>
    have hc : c ≠ ':' := fun hc => h (hc ▸ List.mem_cons_self)
    have hl : ':' ∉ l := fun hl => h (List.mem_cons_of_mem c hl)
    rw [List.cons_append, splitDoubleColon, ih hl, Option.map_map]
    · rfl
    · rintro rest rfl
      exact absurd rfl hc

theorem splitDoubleColon_colon {c : Char} (hc : c ≠ ':') (rest : List Char) :
    splitDoubleColon (':' :: c :: rest) =
      (splitDoubleColon (c :: rest)).map fun (left, right) => (':' :: left, right) := by
  rw [splitDoubleColon]
  · intro _ _ hrest
    exact hc (List.cons.inj hrest).1

theorem splitDoubleColon_joinedPieces (n : Nat) (pieces : List Nat) (rest : List Char) :
    splitDoubleColon (joinedPieces (n :: pieces) ++ rest) =
      (splitDoubleColon rest).map fun (left, right) =>
        (joinedPieces (n :: pieces) ++ left, right) := by
  have hcolon (m : Nat) : ':' ∉ Nat.toDigits 16 m := not_mem_toDigits (by decide)
  induction pieces generalizing n with
  | nil =>
    have hsingle : joinedPieces [n] = Nat.toDigits 16 n := by simp [joinedPieces]
    rw [hsingle, splitDoubleColon_append (hcolon n)]
  | cons m pieces ih =>
    obtain ⟨c, digits, hdigits⟩ := List.exists_cons_of_ne_nil (joinedPieces_ne_nil m pieces)
    have hc : c ≠ ':' := by
      rintro rfl
      have hhead := joinedPieces_head? m pieces
      rw [hdigits] at hhead
      exact not_mem_toDigits (n := m) (by decide) (List.mem_of_head? hhead.symm)
    have hread := ih m
    rw [joinedPieces_cons, List.append_assoc, splitDoubleColon_append (hcolon n), List.cons_append]
    rw [hdigits, List.cons_append] at hread ⊢
    rw [splitDoubleColon_colon hc, hread, Option.map_map, Option.map_map]
    congr 1
    funext ⟨left, right⟩
    simp

theorem eq_replicate_zeroRun (pieces : List Nat) :
    pieces = List.replicate (zeroRun pieces) 0 ++ pieces.drop (zeroRun pieces) := by
  induction pieces with
  | nil => rfl
  | cons n pieces ih =>
    by_cases hn : n = 0
    · subst hn
      have hrun : zeroRun (0 :: pieces) = zeroRun pieces + 1 := rfl
      rw [hrun, List.replicate_succ, List.cons_append, List.drop_succ_cons, ← ih]
    · have hrun : zeroRun (n :: pieces) = 0 := by
        rw [zeroRun, List.takeWhile_cons_of_neg (by simpa using hn)]
        rfl
      rw [hrun]
      rfl

/-- The best run so far, if there is one, is a whole run of at least two zeros. -/
def IsZeroRun (pieces : List Nat) (best : Option (Nat × Nat)) : Prop :=
  ∀ start length, best = some (start, length) → 1 < length ∧ length = zeroRun (pieces.drop start)

theorem isZeroRun_longestZeroRun (pieces : List Nat) :
    IsZeroRun pieces (longestZeroRun pieces) := by
  refine List.foldlRecOn (List.range pieces.length) _ (motive := IsZeroRun pieces)
    (fun _ _ hnone => nomatch hnone) fun best hbest i _ start length h => ?_
  dsimp only at h
  split at h
  · rename_i first m
    split at h
    · rename_i hlonger
      have hm := (hbest first m rfl).1
      obtain ⟨rfl, rfl⟩ := Prod.mk.inj (Option.some.inj h)
      exact ⟨by omega, rfl⟩
    · exact hbest start length h
  · split at h
    · rename_i hlong
      obtain ⟨rfl, rfl⟩ := Prod.mk.inj (Option.some.inj h)
      exact ⟨hlong, rfl⟩
    · cases h

/-- What is left out for a double colon is a run of at least two zeros. -/
theorem longestZeroRun_spec {pieces : List Nat} {start length : Nat}
    (h : longestZeroRun pieces = some (start, length)) :
    1 < length ∧ pieces = pieces.take start ++ List.replicate length 0 ++
      pieces.drop (start + length) := by
  obtain ⟨hlong, hrun⟩ := isZeroRun_longestZeroRun pieces start length h
  refine ⟨hlong, ?_⟩
  have hdrop := eq_replicate_zeroRun (pieces.drop start)
  rw [← hrun, List.drop_drop] at hdrop
  rw [List.append_assoc, ← hdrop, List.take_append_drop]

theorem toList_joinedPieces (pieces : List Nat) :
    (":".intercalate (pieces.map pieceText)).toList = joinedPieces pieces := by
  rw [String.toList_intercalate, List.map_map, joinedPieces]
  congr 1
  exact List.map_congr_left fun n _ => String.toList_ofList

theorem toList_ipv6Text (pieces : List Nat) : (ipv6Text pieces).toList =
    match longestZeroRun pieces with
    | none => joinedPieces pieces
    | some (start, length) =>
      joinedPieces (pieces.take start) ++ ':' :: ':' ::
        joinedPieces (pieces.drop (start + length)) := by
  unfold ipv6Text
  dsimp only
  rcases longestZeroRun pieces with _ | ⟨start, length⟩
  · exact toList_joinedPieces pieces
  · rw [String.toList_append, String.toList_append, toList_joinedPieces, toList_joinedPieces,
      List.append_assoc]
    rfl

theorem splitDoubleColon_doubleColon (pieces : List Nat) (rest : List Char) :
    splitDoubleColon (joinedPieces pieces ++ ':' :: ':' :: rest) =
      some (joinedPieces pieces, rest) := by
  cases pieces with
  | nil => rfl
  | cons n pieces =>
    rw [splitDoubleColon_joinedPieces]
    simp [splitDoubleColon]

theorem mem_joinedPieces {pieces : List Nat} {c : Char} (h : c ∈ joinedPieces pieces) :
    c = ':' ∨ c ∈ hexDigits := by
  induction pieces with
  | nil => cases h
  | cons n pieces ih =>
    cases pieces with
    | nil =>
      have hsingle : joinedPieces [n] = Nat.toDigits 16 n := by simp [joinedPieces]
      rw [hsingle] at h
      exact .inr (mem_hexDigits h)
    | cons m pieces =>
      rw [joinedPieces_cons, List.mem_append, List.mem_cons] at h
      rcases h with h | h | h
      · exact .inr (mem_hexDigits h)
      · exact .inl h
      · exact ih h

/-- An address is read back from its pieces, and from what stands around the zeros left out. -/
theorem ipv6Address?_text {pieces : List Nat} (h : IsIpv6 pieces) :
    ipv6Address? (ipv6Text pieces).toList = some pieces := by
  rw [toList_ipv6Text, ipv6Address?_eq]
  rcases hrun : longestZeroRun pieces with _ | ⟨start, length⟩
  · obtain ⟨n, rest, rfl⟩ := List.exists_cons_of_length_eq_add_one h.length
    have hnone : splitDoubleColon (joinedPieces (n :: rest)) = none := by
      have hsplit := splitDoubleColon_joinedPieces n rest []
      rwa [List.append_nil] at hsplit
    dsimp only
    rw [hnone, sidePieces?_joinedPieces h.lt]
    exact if_pos h.length
  · -- The first double colon is the one that was written, for no two colons meet inside a side.
    obtain ⟨hlong, hpieces⟩ := longestZeroRun_spec hrun
    have hleft : sidePieces? (joinedPieces (pieces.take start)) = some (pieces.take start) :=
      sidePieces?_joinedPieces fun n hn => h.lt n (List.mem_of_mem_take hn)
    have hright : sidePieces? (joinedPieces (pieces.drop (start + length))) =
        some (pieces.drop (start + length)) :=
      sidePieces?_joinedPieces fun n hn => h.lt n (List.mem_of_mem_drop hn)
    have hdot : ¬(joinedPieces (pieces.take start)).contains '.' = true := by
      rw [List.contains_eq_mem, decide_eq_true_eq]
      intro hmem
      rcases mem_joinedPieces hmem with hcolon | hdigit
      · exact absurd hcolon (by decide)
      · exact absurd hdigit (by decide)
    have hlength := congrArg List.length hpieces
    rw [h.length, List.length_append, List.length_append, List.length_replicate] at hlength
    have hmissing : 8 - ((pieces.take start).length + (pieces.drop (start + length)).length) =
        length := by omega
    dsimp only
    rw [splitDoubleColon_doubleColon]
    dsimp only
    rw [if_neg hdot, hleft, hright]
    dsimp only [Option.bind_some]
    rw [hmissing, if_neg (by omega), ← hpieces]

end JsonTyping.Url
