import JsonTyping.Proofs.AddressPaths
import Mathlib.Data.List.Induction

/-!
# Where a path leads

Read from left to right, a path leads somewhere (`Address.position`): it starts at the root or not,
climbs some levels that cannot be taken back, and descends by names then. Normalizing a path writes
down where it leads, and whether it ends in a slash or nothing (`Address.normalizePathChars_eq`). So
a normalized path leads where the path led, has no segment to leave out, and is the same for all
paths that lead there (`Address.normalizePath_normal`).
-/

namespace JsonTyping.Address

/-- Where a path leads: from the root or from anywhere, some levels up, and then down by names. -/
structure Position where
  absolute : Bool
  climbs : Nat
  names : List (List Char)
  deriving DecidableEq, Repr

namespace Position

/-- One level up; above the root there is nothing. -/
def parent (p : Position) : Position :=
  if p.names ≠ [] then { p with names := p.names.dropLast }
  else if p.absolute then p
  else { p with climbs := p.climbs + 1 }

/-- Goes on by one segment. -/
def follow (p : Position) (segment : List Char) : Position :=
  if segment = [] ∨ segment = ['.'] then p
  else if segment = up then p.parent
  else { p with names := p.names ++ [segment] }

/-- The shortest way to a position. -/
def segments (p : Position) : List (List Char) := List.replicate p.climbs up ++ p.names

/-- Names are names, and nobody climbs above the root. -/
structure Proper (p : Position) : Prop where
  names : ∀ name ∈ p.names, Descends name
  root : p.absolute = true → p.climbs = 0

end Position

def position (path : List Char) : Position :=
  (path.splitOn '/').foldl Position.follow ⟨path.head? == some '/', 0, []⟩

/-- The path is empty or ends in a slash. -/
def EndsOpen (path : List Char) : Prop := (path.splitOn '/').getLast? = some []

instance (path : List Char) : Decidable (EndsOpen path) := inferInstanceAs (Decidable (_ = _))

namespace Position

variable {p : Position} {segment : List Char}

theorem follow_descends (h : Descends segment) :
    p.follow segment = { p with names := p.names ++ [segment] } := by
  rw [follow, if_neg (not_or.2 ⟨h.ne_nil, h.ne_dot⟩), if_neg h.ne_up]

theorem follow_up : p.follow up = p.parent := by
  rw [follow, if_neg (by decide), if_pos rfl]

@[simp]
theorem absolute_parent : p.parent.absolute = p.absolute := by
  unfold parent
  split
  · rfl
  · split <;> rfl

theorem absolute_follow : (p.follow segment).absolute = p.absolute := by
  unfold follow
  split
  · rfl
  · split
    · exact absolute_parent
    · rfl

theorem absolute_foldl (p : Position) (segments : List (List Char)) :
    (segments.foldl follow p).absolute = p.absolute := by
  induction segments generalizing p with
  | nil => rfl
  | cons segment rest ih => rw [List.foldl_cons, ih, absolute_follow]

theorem Proper.parent (h : p.Proper) : p.parent.Proper := by
  unfold Position.parent
  split
  · exact ⟨fun name hname => h.names name (List.dropLast_subset _ hname), h.root⟩
  · split
    · exact h
    · next habsolute => exact ⟨h.names, fun habs => absurd habs habsolute⟩

theorem Proper.follow (h : p.Proper) (hsegment : '/' ∉ segment) : (p.follow segment).Proper := by
  unfold Position.follow
  split
  · exact h
  · next hstay =>
    obtain ⟨hempty, hdot⟩ := not_or.1 hstay
    split
    · exact h.parent
    · next hup =>
      refine ⟨List.forall_mem_append.2 ⟨h.names, List.forall_mem_singleton.2 ?_⟩, h.root⟩
      exact ⟨hempty, hdot, hup, hsegment⟩

theorem Proper.foldl {p : Position} (h : p.Proper) {segments : List (List Char)}
    (hsegments : ∀ segment ∈ segments, '/' ∉ segment) :
    (segments.foldl Position.follow p).Proper := by
  induction segments generalizing p with
  | nil => exact h
  | cons segment rest ih =>
    obtain ⟨hsegment, hrest⟩ := List.forall_mem_cons.1 hsegments
    exact ih (h.follow hsegment) hrest

/-- The segments are followed from the root, or from anywhere. -/
theorem Proper.foldl_segments (h : p.Proper) :
    p.segments.foldl Position.follow ⟨p.absolute, 0, []⟩ = p := by
  have hclimb : ∀ n,
      (List.replicate n up).foldl Position.follow ⟨false, 0, []⟩ = ⟨false, n, []⟩ := by
    intro n
    induction n with
    | zero => rfl
    | succ n ih =>
      rw [List.replicate_succ', List.foldl_append, ih]
      rfl
  have hdescend : ∀ (names done : List (List Char)), (∀ name ∈ names, Descends name) →
      names.foldl Position.follow ⟨p.absolute, p.climbs, done⟩ =
        ⟨p.absolute, p.climbs, done ++ names⟩ := by
    intro names
    induction names with
    | nil => exact fun done _ => by rw [List.append_nil]; rfl
    | cons name names ih =>
      intro done hnames
      obtain ⟨hname, hrest⟩ := List.forall_mem_cons.1 hnames
      rw [List.foldl_cons, follow_descends hname, ih _ hrest, List.append_assoc,
        List.singleton_append]
  have hstart : (List.replicate p.climbs up).foldl Position.follow ⟨p.absolute, 0, []⟩ =
      ⟨p.absolute, p.climbs, []⟩ := by
    cases habsolute : p.absolute with
    | true => rw [h.root habsolute]; rfl
    | false => exact hclimb p.climbs
  rw [segments, List.foldl_append, hstart, hdescend p.names [] h.names, List.nil_append]

end Position

section Follow

variable {p : Position}

theorem Position.Proper.resolve_up (h : p.Proper) (rest : List (List Char)) :
    resolve p.absolute p.segments.reverse (up :: rest) =
      resolve p.parent.absolute p.parent.segments.reverse rest := by
  obtain ⟨absolute, climbs, names⟩ := p
  rw [Position.absolute_parent]
  simp only [Position.segments, List.reverse_append, List.reverse_replicate]
  induction names using List.reverseRecOn with
  | nil =>
    cases absolute with
    | true =>
      obtain rfl := h.root rfl
      exact resolve_up_absolute descends_of_mem_nil rest
    | false => exact resolve_up_replicate climbs rest
  | append_singleton names last _ =>
    have hlast : Descends last := h.names last List.mem_concat_self
    have hparent : Position.parent ⟨absolute, climbs, names ++ [last]⟩ =
        ⟨absolute, climbs, names⟩ := by
      simp [Position.parent]
    rw [hparent, List.reverse_append, List.reverse_singleton, List.singleton_append,
      List.cons_append]
    exact resolve_up_cons hlast absolute _ rest

theorem getLast?_cons_eq_nil {segment : List Char} (h : segment ≠ []) (rest : List (List Char)) :
    (segment :: rest).getLast? = some [] ↔ rest.getLast? = some [] := by
  cases rest with
  | nil => simp [h]
  | cons next rest => rw [List.getLast?_cons_cons]

/-- What stays of segments is the shortest way to where they lead, and an empty last segment. -/
theorem resolve_eq (h : p.Proper) {segments : List (List Char)}
    (hsegments : ∀ segment ∈ segments, '/' ∉ segment) :
    resolve p.absolute p.segments.reverse segments =
      (if segments.getLast? = some [] then [[]] else []) ++
        (segments.foldl Position.follow p).segments.reverse := by
  induction segments generalizing p with
  | nil => rfl
  | cons segment rest ih =>
    obtain ⟨hslash, hrest⟩ := List.forall_mem_cons.1 hsegments
    rw [List.foldl_cons]
    by_cases hempty : segment = []
    · subst hempty
      cases rest with
      | nil => rfl
      | cons next rest =>
        rw [resolve_empty _ _ (List.cons_ne_nil next rest), ih h hrest, List.getLast?_cons_cons]
        rfl
    · simp only [getLast?_cons_eq_nil hempty]
      by_cases hdot : segment = ['.']
      · rw [hdot, resolve_dot, ih h hrest]
        rfl
      by_cases hup : segment = up
      · rw [hup, h.resolve_up, ih h.parent hrest, Position.follow_up]
      · have hsegment : Descends segment := ⟨hempty, hdot, hup, hslash⟩
        have hproper := h.follow hslash
        rw [Position.follow_descends hsegment] at hproper ⊢
        rw [resolve_descends hsegment, ← ih hproper hrest]
        simp only [Position.segments, List.reverse_append, List.reverse_singleton,
          List.singleton_append]
        rfl

end Follow

/-! ### Positions as paths -/

/-- The shortest path that leads to a position, with a slash behind it or not. -/
def Position.path (p : Position) (isOpen : Bool) : List Char :=
  (if p.absolute then ['/'] else []) ++
    ['/'].intercalate (p.segments ++ if isOpen then [[]] else [])

theorem proper_start (absolute : Bool) : (Position.mk absolute 0 []).Proper :=
  ⟨descends_of_mem_nil, fun _ => rfl⟩

theorem proper_position (path : List Char) : (position path).Proper :=
  (proper_start _).foldl (not_mem_of_mem_splitOn path)

theorem absolute_position (path : List Char) :
    (position path).absolute = (path.head? == some '/') :=
  Position.absolute_foldl _ _

/-- A normalized path is the shortest one that leads where the path led. -/
theorem normalizePathChars_eq (path : List Char) :
    normalizePathChars path = (position path).path (decide (EndsOpen path)) := by
  have hresolve : resolve (path.head? == some '/') [] (path.splitOn '/') =
      (if EndsOpen path then [[]] else []) ++ (position path).segments.reverse :=
    resolve_eq (proper_start _) (not_mem_of_mem_splitOn path)
  have hreverse : (resolve (path.head? == some '/') [] (path.splitOn '/')).reverse =
      (position path).segments ++ if decide (EndsOpen path) then [[]] else [] := by
    rw [hresolve, List.reverse_append, List.reverse_reverse]
    by_cases hopen : EndsOpen path
    · rw [if_pos hopen, if_pos (decide_eq_true hopen), List.reverse_singleton]
    · rw [if_neg hopen, if_neg (mt of_decide_eq_true hopen), List.reverse_nil]
  rw [normalizePathChars, hreverse, Position.path, absolute_position]
  cases path.head? == some '/' <;> rfl

theorem splitOn_slash (rest : List Char) : ('/' :: rest).splitOn '/' = [] :: rest.splitOn '/' := by
  rw [List.splitOn_cons_eq_if_modifyHead, if_pos BEq.rfl]

section Path

variable {p : Position}

theorem Position.Proper.not_mem_segments (h : p.Proper) :
    ∀ segment ∈ p.segments, '/' ∉ segment := by
  refine List.forall_mem_append.2 ⟨fun segment hsegment => ?_, fun name hname => ?_⟩
  · rw [List.eq_of_mem_replicate hsegment]
    decide
  · exact (h.names name hname).not_mem

theorem Position.Proper.ne_nil_of_mem_segments (h : p.Proper) :
    ∀ segment ∈ p.segments, segment ≠ [] := by
  refine List.forall_mem_append.2 ⟨fun segment hsegment => ?_, fun name hname => ?_⟩
  · rw [List.eq_of_mem_replicate hsegment]
    exact nofun
  · exact (h.names name hname).ne_nil

theorem Position.Proper.splitOn_path (h : p.Proper) (isOpen : Bool) :
    (p.path isOpen).splitOn '/' =
      (if p.absolute then [[]] else []) ++ p.segments ++
        if isOpen ∨ p.segments = [] then [[]] else [] := by
  have hjoined : (['/'].intercalate (p.segments ++ if isOpen then [[]] else [])).splitOn '/' =
      p.segments ++ if isOpen ∨ p.segments = [] then [[]] else [] := by
    by_cases hnil : p.segments = [] ∧ isOpen = false
    · rw [hnil.1, hnil.2]
      rfl
    · have htail : (if isOpen then [[]] else [] : List (List Char)) =
          if isOpen ∨ p.segments = [] then [[]] else [] := by
        cases isOpen with
        | true => rfl
        | false => simp_all
      rw [htail, List.splitOn_intercalate '/']
      · refine List.forall_mem_append.2 ⟨h.not_mem_segments, fun segment hsegment => ?_⟩
        split at hsegment
        · rw [List.mem_singleton.1 hsegment]
          exact List.not_mem_nil
        · cases hsegment
      · cases isOpen <;> simp_all
  rw [List.append_assoc, ← hjoined, Position.path]
  cases p.absolute with
  | true => exact splitOn_slash _
  | false => rfl

theorem head?_eq_slash_iff (path : List Char) :
    path.head? = some '/' ↔ ∃ next rest, path.splitOn '/' = [] :: next :: rest := by
  cases path with
  | nil => exact iff_of_false nofun fun ⟨next, rest, h⟩ => nomatch h
  | cons c path =>
    obtain ⟨first, rest, hsplit⟩ := List.exists_cons_of_ne_nil (List.splitOn_ne_nil '/' path)
    rw [List.splitOn_cons_eq_if_modifyHead, hsplit]
    by_cases hc : c = '/'
    · rw [if_pos (beq_iff_eq.2 hc), hc]
      exact iff_of_true rfl ⟨first, rest, rfl⟩
    · rw [if_neg (mt beq_iff_eq.1 hc)]
      refine iff_of_false (fun h => hc (Option.some.inj h)) ?_
      rintro ⟨next, more, h⟩
      cases h

theorem Position.Proper.head?_path (h : p.Proper) (isOpen : Bool) :
    ((p.path isOpen).head? == some '/') = p.absolute := by
  cases habsolute : p.absolute with
  | true =>
    rw [Position.path, habsolute]
    rfl
  | false =>
    rw [beq_eq_false_iff_ne, ne_eq, head?_eq_slash_iff, h.splitOn_path, habsolute]
    rintro ⟨next, rest, hsplit⟩
    rw [if_neg Bool.false_ne_true, List.nil_append] at hsplit
    have hsegments := h.ne_nil_of_mem_segments
    cases hp : p.segments with
    | nil =>
      rw [hp, if_pos (.inr rfl)] at hsplit
      cases hsplit
    | cons first more =>
      rw [hp] at hsplit hsegments
      exact hsegments first List.mem_cons_self (List.cons.inj hsplit).1

/-- The path that is made for a position leads there. -/
theorem Position.Proper.position_path (h : p.Proper) (isOpen : Bool) :
    position (p.path isOpen) = p := by
  have hstay : ∀ (b : Prop) [Decidable b] (q : Position),
      (if b then [[]] else []).foldl Position.follow q = q := by
    intro b _ q
    split <;> rfl
  rw [position, h.head?_path, h.splitOn_path, List.foldl_append, List.foldl_append, hstay, hstay,
    h.foldl_segments]

end Path

/-! ### Normal forms -/

/-- No segment of the path could be left out: none stays put, only the last one may be empty, apart
from what stands before the first slash of an absolute path, and only at the start of a relative
path segments climb. -/
structure Normal (path : List Char) : Prop where
  dot : ['.'] ∉ path.splitOn '/'
  empty : ∀ i : Nat, (path.splitOn '/')[i]? = some [] →
    i = 0 ∧ path.head? = some '/' ∨ i + 1 = (path.splitOn '/').length
  climbs : ∀ i : Nat, (path.splitOn '/')[i]? = some up →
    path.head? ≠ some '/' ∧ ∀ j < i, (path.splitOn '/')[j]? = some up

section Normal

variable {p : Position} {tail : List (List Char)} {i : Nat}

theorem Position.Proper.of_mem_names (h : p.Proper) (htail : ∀ segment ∈ tail, segment = []) :
    ∀ name ∈ p.names ++ tail, name ≠ ['.'] ∧ name ≠ up := by
  refine List.forall_mem_append.2 ⟨fun name hname => ?_, fun segment hsegment => ?_⟩
  · exact ⟨(h.names name hname).ne_dot, (h.names name hname).ne_up⟩
  · rw [htail segment hsegment]
    exact ⟨nofun, nofun⟩

theorem Position.Proper.dot_not_mem (h : p.Proper) (htail : ∀ segment ∈ tail, segment = []) :
    ['.'] ∉ p.segments ++ tail := by
  rw [Position.segments, List.append_assoc, List.mem_append, not_or]
  refine ⟨fun hmem => ?_, fun hmem => (h.of_mem_names htail _ hmem).1 rfl⟩
  exact absurd (List.eq_of_mem_replicate hmem) (by decide)

theorem Position.Proper.lt_climbs (h : p.Proper) (htail : ∀ segment ∈ tail, segment = [])
    (hi : (p.segments ++ tail)[i]? = some up) : i < p.climbs := by
  rw [Position.segments, List.append_assoc] at hi
  by_contra hge
  rw [List.getElem?_append_right (by simpa using hge)] at hi
  exact (h.of_mem_names htail up (List.mem_of_getElem? hi)).2 rfl

theorem Position.getElem?_of_lt_climbs (hi : i < p.climbs) :
    (p.segments ++ tail)[i]? = some up := by
  have hlength : i < (List.replicate p.climbs up).length := by simpa using hi
  rw [Position.segments, List.append_assoc, List.getElem?_append_left hlength,
    List.getElem?_replicate, if_pos hi]

/-- Only the last segment may be empty. -/
theorem Position.Proper.succ_eq_length (h : p.Proper) (htail : tail.length ≤ 1)
    (hi : (p.segments ++ tail)[i]? = some []) : i + 1 = (p.segments ++ tail).length := by
  have hlow : p.segments.length ≤ i := by
    by_contra hlt
    rw [List.getElem?_append_left (Nat.lt_of_not_le hlt)] at hi
    exact h.ne_nil_of_mem_segments _ (List.mem_of_getElem? hi) rfl
  rw [List.getElem?_append_right hlow] at hi
  obtain ⟨hbound, -⟩ := List.getElem?_eq_some_iff.1 hi
  rw [List.length_append]
  omega

theorem Position.Proper.normal_path (h : p.Proper) (isOpen : Bool) : Normal (p.path isOpen) := by
  have hhead : (p.path isOpen).head? = some '/' ↔ p.absolute = true := by
    rw [← h.head?_path isOpen, beq_iff_eq]
  obtain ⟨tail, hempty, hlength, hsplit⟩ : ∃ tail : List (List Char),
      (∀ segment ∈ tail, segment = []) ∧ tail.length ≤ 1 ∧ (p.path isOpen).splitOn '/' =
        (if p.absolute then [[]] else []) ++ (p.segments ++ tail) := by
    refine ⟨_, ?_, ?_, (h.splitOn_path isOpen).trans (List.append_assoc ..)⟩
    · intro segment hsegment
      split at hsegment
      · exact List.mem_singleton.1 hsegment
      · cases hsegment
    · split <;> decide
  cases habsolute : p.absolute with
  | true =>
    rw [habsolute, if_pos rfl, List.singleton_append] at hsplit
    refine ⟨?_, fun i hi => ?_, fun i hi => ?_⟩
    · rw [hsplit, List.mem_cons, not_or]
      exact ⟨nofun, h.dot_not_mem hempty⟩
    · rw [hsplit] at hi ⊢
      cases i with
      | zero => exact .inl ⟨rfl, hhead.2 habsolute⟩
      | succ i => exact .inr (congrArg Nat.succ (h.succ_eq_length hlength hi))
    · rw [hsplit] at hi
      cases i with
      | zero => cases hi
      | succ i =>
        have hclimbs := h.lt_climbs hempty hi
        rw [h.root habsolute] at hclimbs
        exact absurd hclimbs (Nat.not_lt_zero i)
  | false =>
    rw [habsolute, if_neg Bool.false_ne_true, List.nil_append] at hsplit
    have hrelative : (p.path isOpen).head? ≠ some '/' := fun hslash =>
      Bool.false_ne_true (habsolute.symm.trans (hhead.1 hslash))
    refine ⟨?_, fun i hi => .inr ?_, fun i hi => ⟨hrelative, fun j hj => ?_⟩⟩
    · rw [hsplit]
      exact h.dot_not_mem hempty
    · rw [hsplit] at hi ⊢
      exact h.succ_eq_length hlength hi
    · rw [hsplit] at hi ⊢
      exact Position.getElem?_of_lt_climbs (hj.trans (h.lt_climbs hempty hi))

end Normal

/-- A normalized path is its own normal form and has no segment to leave out. It starts at the root
if the path does, and leads where the path leads. All paths that lead there have one normal form, if
they are alike in whether they end in a slash or nothing. -/
theorem normalizePath_normal (path : String) :
    normalizePath (normalizePath path) = normalizePath path ∧
      Normal (normalizePath path).toList ∧
      ((normalizePath path).toList.head? = some '/' ↔ path.toList.head? = some '/') ∧
      position (normalizePath path).toList = position path.toList ∧
      ∀ other : String, position other.toList = position path.toList →
        (EndsOpen other.toList ↔ EndsOpen path.toList) →
          normalizePath other = normalizePath path := by
  have hproper := proper_position path.toList
  have hchars : (normalizePath path).toList = normalizePathChars path.toList :=
    String.toList_ofList
  rw [hchars, normalizePathChars_eq]
  refine ⟨normalizePath_idem path, hproper.normal_path _, ?_, hproper.position_path _, ?_⟩
  · rw [← beq_iff_eq, hproper.head?_path, absolute_position, beq_iff_eq]
  · intro other hposition hopen
    rw [normalizePath, normalizePath, normalizePathChars_eq, normalizePathChars_eq, hposition]
    simp only [hopen]

/-- Two ways that climb from where they start and lead to the same directory have one normal
form. -/
theorem normalizePath_normal_folded :
    position "x/../../a/c/".toList = position "../a/./b//../c/".toList ∧
      (EndsOpen "x/../../a/c/".toList ↔ EndsOpen "../a/./b//../c/".toList) ∧
      normalizePath "x/../../a/c/" = normalizePath "../a/./b//../c/" := by
  have hposition : position "x/../../a/c/".toList = position "../a/./b//../c/".toList := by
    decide
  have hopen : EndsOpen "x/../../a/c/".toList ↔ EndsOpen "../a/./b//../c/".toList := by decide
  exact ⟨hposition, hopen, (normalizePath_normal "../a/./b//../c/").2.2.2.2 _ hposition hopen⟩

end JsonTyping.Address
