import JsonTyping.Proofs.Gathering
import JsonTyping.Proofs.TypeTrees

/-!
# What the evidence of a position comes to

The types that the evidence of a position shows, apart from containers, are those that its values
have (`TypeTree.ofScalars_eq`): short texts without format are counted, longer ones are remembered
as dropped, and the formats are gathered with their attributes.
-/

namespace JsonTyping

namespace Text

theorem charUnits_le_utf8Size (c : Char) : charUnits c ≤ c.utf8Size := by
  unfold charUnits
  split
  · exact c.utf8Size_pos
  · next hlarge =>
    have hval : c.val.toNat = c.toNat := rfl
    have hbeyond : ∀ n (hn : n < UInt32.size), n < 0x10000 → ¬ c.val ≤ UInt32.ofNatLT n hn :=
      fun n hn hlt hle => by
        rw [UInt32.le_iff_toNat_le, UInt32.toNat_ofNatLT, hval] at hle
        omega
    unfold Char.utf8Size
    rw [if_neg (hbeyond 127 _ (by decide)), if_neg (hbeyond 2047 _ (by decide)),
      if_neg (hbeyond 65535 _ (by decide))]
    decide

/-- A text has no more 16-bit units than bytes. -/
theorem units16_le_utf8ByteSize (s : String) : units16 s ≤ s.utf8ByteSize := by
  have hlist : ∀ l : List Char,
      l.foldr (fun c n => charUnits c + n) 0 ≤ (String.ofList l).utf8ByteSize := by
    intro l
    induction l with
    | nil => exact Nat.zero_le _
    | cons c l ih =>
      rw [String.ofList_cons, String.utf8ByteSize_append, String.utf8ByteSize_singleton,
        List.foldr_cons]
      exact Nat.add_le_add (charUnits_le_utf8Size c) ih
  have hle := hlist s.toList
  rwa [String.ofList_toList] at hle

theorem fitsUnits16_eq (s : String) (limit : Nat) :
    fitsUnits16 s limit = decide (units16 s ≤ limit) := by
  have hle := units16_le_utf8ByteSize s
  rw [fitsUnits16, Bool.eq_iff_iff, Bool.or_eq_true, decide_eq_true_iff, decide_eq_true_iff]
  omega

end Text

namespace SortedSet

variable {α : Type} [Ord α] [Std.TransOrd α] [Std.LawfulEqOrd α]

/-- The elements of an increasing list are listed as they stand. -/
theorem toList_ofList {l : List α} (h : l.Pairwise fun a b => compare a b = .lt) :
    (ofList l).toList = l := by
  have hset : ofList l = ⟨l, h⟩ := ext_mem fun a => by rw [mem_ofList, mem_iff]
  rw [hset]

end SortedSet

namespace Sighting

theorem keys_gather (found : List (Format × Attributes)) :
    (gather found).keys = (SortedSet.ofList (found.map (·.1))).toList := by
  have hsorted : (gather found).keys.Pairwise fun f g => compare f g = .lt :=
    List.pairwise_map.2 (gather found).sorted
  have hset : SortedSet.ofList (found.map (·.1)) = ⟨(gather found).keys, hsorted⟩ := by
    refine SortedSet.ext_mem fun f => ?_
    rw [SortedSet.mem_ofList, SortedSet.mem_iff, SortedMap.mem_keys, find?_gather]
    simp only [List.mem_map]
    constructor
    · rintro ⟨⟨g, a⟩, hmem, rfl⟩
      have ha := mem_foundWith.2 hmem
      rw [if_neg (List.ne_nil_of_mem ha)]
      exact ⟨_, rfl⟩
    · rintro ⟨b, hb⟩
      split at hb
      · cases hb
      · next hne =>
        obtain ⟨a, ha⟩ := List.exists_mem_of_ne_nil _ hne
        exact ⟨(f, a), mem_foundWith.1 ha, rfl⟩
  rw [hset]

section Plain

variable (settings : Settings) (vs : List Json)

/-- Values that are no targets of references. -/
def plain : List Sighting := vs.map (⟨false, ·⟩)

theorem objects_plain : objects (plain vs) = TypeTree.objects vs := by
  rw [objects, plain, List.filterMap_map]
  refine congrArg (List.filterMap · vs) (funext fun v => ?_)
  cases v <;> rfl

theorem arrays_plain : arrays (plain vs) = TypeTree.arrays vs := by
  rw [arrays, plain, List.filterMap_map]
  rfl

theorem literals_plain :
    (plain vs).filterMap (literal? settings) = TypeTree.literals settings vs := by
  rw [TypeTree.literals, TypeTree.texts, List.filter_filterMap, plain, List.filterMap_map]
  refine congrArg (List.filterMap · vs) (funext fun v => ?_)
  cases v with
  | string s =>
    simp only [Function.comp, literal?, Json.string?, Text.fitsUnits16_eq, Option.filter_some]
    cases settings.formatOf s <;> simp
  | _ => rfl

theorem dropped_plain : (plain vs).any (isDropped settings) = TypeTree.hasLongText settings vs := by
  rw [TypeTree.hasLongText, TypeTree.texts, List.any_filterMap, plain, List.any_map]
  refine congrArg (List.any vs) (funext fun v => ?_)
  cases v with
  | string s =>
    simp only [Function.comp, isDropped, Json.string?, Text.fitsUnits16_eq, Bool.not_false,
      Bool.true_and]
    congr 1
    rw [← decide_not]
    exact decide_eq_decide.2 Nat.not_le
  | _ => rfl

theorem formats_plain :
    (gather ((plain vs).filterMap (format? settings))).keys =
      (TypeTree.formats settings vs).toList := by
  rw [keys_gather, TypeTree.formats, TypeTree.texts, List.map_filterMap, List.filterMap_filterMap,
    plain, List.filterMap_map]
  refine congrArg (fun f => (SortedSet.ofList (List.filterMap f vs)).toList) (funext fun v => ?_)
  cases v with
  | string s =>
    simp only [Function.comp, format?, Json.string?, Option.bind_some]
    cases settings.formatOf s <;> rfl
  | _ => rfl

theorem any_plain (p : Json → Bool) : ((plain vs).any fun x => p x.value) = vs.any p := by
  rw [plain, List.any_map]
  rfl

end Plain

end Sighting

namespace TypeTree

open Sighting

variable (settings : Settings) (vs : List Json)

theorem isEnumeration_eq (cases samples : Nat) :
    Evidence.isEnumeration settings cases samples = fewCases settings cases samples := by
  rw [Evidence.isEnumeration, fewCases]

/-- What evidence says of texts is what the texts are. -/
theorem ofTexts_eq :
    ofTexts settings vs =
      ((evidence settings (plain vs)).texts settings).1.toList.map .primitive
        ++ ((evidence settings (plain vs)).texts settings).2.2.toList.map .enumeration := by
  have hformats : (evidence settings (plain vs)).formats.keys = (formats settings vs).toList :=
    formats_plain settings vs
  have hcount : (evidence settings (plain vs)).literalCount = (literals settings vs).length :=
    congrArg List.length (literals_plain settings vs)
  have hliterals : (evidence settings (plain vs)).literals = .ofList (literals settings vs) :=
    congrArg SortedSet.ofList (literals_plain settings vs)
  have hlong : (evidence settings (plain vs)).unrestricted = hasLongText settings vs :=
    dropped_plain settings vs
  have hnone : (literals settings vs).length = 0 ↔ literals settings vs = [] :=
    List.length_eq_zero_iff
  have hentries : ∀ l, (evidence settings (plain vs)).formats.entries = l →
      (formats settings vs).toList = l.map (·.1) := fun l hl => by
    rw [← hformats, SortedMap.keys, hl]
  unfold Evidence.texts ofTexts
  simp only [hcount, hnone, hliterals, hlong, isEnumeration_eq, SortedSet.size]
  rcases hl : (evidence settings (plain vs)).formats.entries with _ | ⟨⟨f, a⟩, _ | ⟨e, rest⟩⟩
  · simp only [hentries _ hl, List.map_nil, List.length_nil]
    cases hasLongText settings vs with
    | true => simp
    | false =>
      by_cases hnil : literals settings vs = []
      · simp [hnil]
      · by_cases hfew : fewCases settings (SortedSet.ofList (literals settings vs)).toList.length
            (literals settings vs).length = true <;> simp [hnil, hfew]
  · simp only [hentries _ hl, List.map_cons, List.map_nil, List.length_cons, List.length_nil]
    cases hasLongText settings vs <;> by_cases hnil : literals settings vs = [] <;> simp [hnil]
  · simp [hentries _ hl]

/-- The primitive types that evidence shows come in their order. -/
theorem increasing_primitives (null bool integer double : Bool) {text : Option Primitive}
    (htext : ∀ p, text = some p → 5 < p.rank) :
    ((if null then [Primitive.null] else []) ++ (if bool then [Primitive.bool] else [])
      ++ (if double then [Primitive.double] else if integer then [Primitive.integer] else [])
      ++ text.toList).Pairwise fun p q => compare p q = .lt := by
  have hlt : ∀ p q : Primitive, p.rank < q.rank → compare p q = .lt := fun p q h =>
    Nat.compare_eq_lt.2 h
  have hscalars : ((if null then [Primitive.null] else [])
      ++ (if bool then [Primitive.bool] else [])
      ++ (if double then [Primitive.double] else if integer then [Primitive.integer] else []))
      |>.Pairwise fun p q => compare p q = .lt := by
    cases null <;> cases bool <;> cases double <;> cases integer <;> decide
  refine List.pairwise_append.2 ⟨hscalars, ?_, fun p hp q hq => hlt p q ?_⟩
  · cases text <;> simp
  · have hq' := htext q (Option.mem_toList.1 hq)
    have hp' : p.rank ≤ 5 := by
      revert p
      cases null <;> cases bool <;> cases double <;> cases integer <;> decide
    omega

/-- What evidence says apart from containers is what the values are. -/
theorem ofScalars_eq :
    ofScalars settings vs =
      ((evidence settings (plain vs)).unify settings).primitives.toList.map .primitive
        ++ ((evidence settings (plain vs)).unify settings).cases.toList.map .enumeration := by
  have hnull : (evidence settings (plain vs)).null = vs.any Json.isNull := any_plain vs _
  have hbool : (evidence settings (plain vs)).bool = vs.any Json.isBool := any_plain vs _
  have hinteger : (evidence settings (plain vs)).integer = vs.any Json.isInteger := any_plain vs _
  have hdouble : (evidence settings (plain vs)).double = vs.any Json.isDouble := any_plain vs _
  have htext : ∀ p, ((evidence settings (plain vs)).texts settings).1 = some p → 5 < p.rank :=
    fun p hp => by
      unfold Evidence.texts at hp
      split at hp
      · next f _ _ =>
        split at hp
        · obtain rfl := Option.some.inj hp
          cases f <;> decide
        · obtain rfl := Option.some.inj hp
          decide
      · obtain rfl := Option.some.inj hp
        decide
      · split at hp
        · obtain rfl := Option.some.inj hp
          decide
        · split at hp
          · cases hp
          · split at hp
            · cases hp
            · obtain rfl := Option.some.inj hp
              decide
  rw [ofScalars, ofTexts_eq, Evidence.unify]
  generalize (evidence settings (plain vs)).texts settings = found at htext ⊢
  obtain ⟨text, traits, cases⟩ := found
  dsimp only at htext ⊢
  rw [SortedSet.toList_ofList (increasing_primitives _ _ _ _ htext), hnull, hbool, hinteger,
    hdouble]
  cases vs.any Json.isNull <;> cases vs.any Json.isBool <;> cases vs.any Json.isDouble <;>
    cases vs.any Json.isInteger <;> simp

end TypeTree

end JsonTyping
