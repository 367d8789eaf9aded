import JsonTyping.Proofs.PlainEvidence

/-!
# Texts in 16-bit units

`Text.encode16` writes a text in 16-bit units. That the bytes of a text are compared with the limit
first changes nothing: of the texts without format, those of at most so many units are kept, and the
others are dropped (`Table.addText_encode16`).
-/

namespace JsonTyping

namespace Text

/-- The units of a character: its own number, or two surrogates with ten bits each of what the
number is beyond the first 65536. -/
def encodeChar16 (c : Char) : List UInt16 :=
  if c.toNat < 0x10000 then [.ofNat c.toNat]
  else
    let beyond := c.toNat - 0x10000
    [.ofNat (0xD800 + beyond / 0x400), .ofNat (0xDC00 + beyond % 0x400)]

def encode16 (s : String) : List UInt16 := s.toList.flatMap encodeChar16

theorem length_encodeChar16 (c : Char) : (encodeChar16 c).length = charUnits c := by
  unfold encodeChar16 charUnits
  split <;> rfl

theorem length_encode16 (s : String) : (encode16 s).length = units16 s := by
  rw [encode16, units16]
  induction s.toList with
  | nil => rfl
  | cons c rest ih =>
    rw [List.flatMap_cons, List.length_append, length_encodeChar16, ih, List.foldr_cons]

theorem fitsUnits16_iff (s : String) (limit : Nat) :
    fitsUnits16 s limit = true ↔ (encode16 s).length ≤ limit := by
  rw [fitsUnits16_eq, decide_eq_true_iff, length_encode16]

end Text

namespace Table

variable (t : Table) {s : String}

theorem addText_target (s : String) :
    t.addText true s = ((t.intern s).1, .text (t.intern s).2) := rfl

theorem addText_format {f : Format} (hf : t.recognize s = some f) :
    t.addText false s =
      if f.hasTraits then ((t.intern s).1, .traits (t.intern s).2)
      else ((t.intern f.name).1, .format (t.intern f.name).2) := by
  simp only [addText, hf]
  rfl

theorem addText_plain (hf : t.recognize s = none) :
    t.addText false s =
      if (Text.encode16 s).length ≤ t.settings.internMaxLen then
        ((t.intern s).1, .text (t.intern s).2)
      else (t, .dropped) := by
  have hfits := Text.fitsUnits16_iff s t.settings.internMaxLen
  simp only [addText, hf, hfits]
  rfl

/-- To compare bytes first changes neither which texts have at most so many units nor which texts
are dropped or kept. -/
theorem addText_encode16 (s : String) :
    (∀ limit, Text.fitsUnits16 s limit = true ↔ (Text.encode16 s).length ≤ limit) ∧
      ∀ (t : Table) (isTarget : Bool),
        ((t.addText isTarget s).2 = .dropped ↔
          isTarget = false ∧ t.recognize s = none ∧
            t.settings.internMaxLen < (Text.encode16 s).length) ∧
        ((∃ i, (t.addText isTarget s).2 = .text i ∧
            (t.addText isTarget s).1.strings[i]? = some s) ↔
          isTarget = true ∨
            t.recognize s = none ∧ (Text.encode16 s).length ≤ t.settings.internMaxLen) := by
  refine ⟨Text.fitsUnits16_iff s, fun t isTarget => ?_⟩
  have hkept := (t.intern_spec s).2
  cases isTarget with
  | true =>
    rw [addText_target]
    exact ⟨iff_of_false nofun fun h => absurd h.1 nofun, iff_of_true ⟨_, rfl, hkept⟩ (.inl rfl)⟩
  | false =>
    cases hf : t.recognize s with
    | some f =>
      rw [addText_format t hf]
      refine ⟨iff_of_false (fun h => ?_) fun h => absurd h.2.1 nofun, iff_of_false ?_ ?_⟩
      · split at h <;> cases h
      · rintro ⟨i, h, -⟩
        split at h <;> cases h
      · rintro (h | h)
        · cases h
        · cases h.1
    | none =>
      rw [addText_plain t hf]
      by_cases hfits : (Text.encode16 s).length ≤ t.settings.internMaxLen
      · rw [if_pos hfits]
        exact ⟨iff_of_false nofun fun h => Nat.not_lt.2 hfits h.2.2,
          iff_of_true ⟨_, rfl, hkept⟩ (.inr ⟨rfl, hfits⟩)⟩
      · rw [if_neg hfits]
        refine ⟨iff_of_true rfl ⟨rfl, rfl, Nat.lt_of_not_le hfits⟩, iff_of_false nofun ?_⟩
        rintro (h | h)
        · cases h
        · exact hfits h.2

end Table

end JsonTyping
