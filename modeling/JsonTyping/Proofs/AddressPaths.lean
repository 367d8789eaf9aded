import JsonTyping.Schema.Address
import Mathlib.Data.List.TakeWhile

/-!
# Paths as addresses

Normalizing leaves a relative path that climbs first and descends then (`Address.exists_settled`).
Such a path is its own normal form, and so is every path that was normalized
(`Address.normalizePath_idem`). Seen from itself, a path has its own directories before it, and
that is the same path only if as many of them climb as descend
(`Address.Settled.normalizePathChars_directory`, `Address.join_normalize_self`).
-/

namespace JsonTyping.Address

theorem not_mem_of_mem_splitOn (path : List Char) :
    ∀ segment ∈ path.splitOn '/', '/' ∉ segment := by
  induction path with
  | nil =>
    intro segment hsegment
    rw [List.splitOn_nil, List.mem_singleton] at hsegment
    rw [hsegment]
    exact List.not_mem_nil
  | cons c path ih =>
    rw [List.splitOn_cons_eq_if_modifyHead]
    by_cases hc : c = '/'
    · rw [if_pos (beq_iff_eq.2 hc)]
      exact List.forall_mem_cons.2 ⟨List.not_mem_nil, ih⟩
    · rw [if_neg (mt beq_iff_eq.1 hc)]
      cases hsplit : path.splitOn '/' with
      | nil => exact absurd hsplit (List.splitOn_ne_nil _ _)
      | cons first rest =>
        rw [hsplit] at ih
        obtain ⟨hfirst, hrest⟩ := List.forall_mem_cons.1 ih
        refine List.forall_mem_cons.2 ⟨?_, hrest⟩
        rw [List.mem_cons, not_or]
        exact ⟨fun h => hc h.symm, hfirst⟩

/-- The segment that climbs. -/
def up : List Char := ['.', '.']

/-- The segment descends. -/
structure Descends (segment : List Char) : Prop where
  ne_nil : segment ≠ []
  ne_dot : segment ≠ ['.']
  ne_up : segment ≠ up
  not_mem : '/' ∉ segment

theorem descends_of_mem_nil : ∀ segment ∈ ([] : List (List Char)), Descends segment := nofun

theorem resolve_dot (absolute : Bool) (done rest : List (List Char)) :
    resolve absolute done (['.'] :: rest) = resolve absolute done rest := by
  rw [resolve.eq_def]
  exact if_pos rfl

theorem resolve_empty (absolute : Bool) (done : List (List Char)) {rest : List (List Char)}
    (h : rest ≠ []) : resolve absolute done ([] :: rest) = resolve absolute done rest := by
  rw [resolve.eq_def]
  exact (if_neg (by decide)).trans (if_pos ⟨rfl, h⟩)

theorem resolve_descends {segment : List Char} (h : Descends segment) (absolute : Bool)
    (done rest : List (List Char)) :
    resolve absolute done (segment :: rest) = resolve absolute (segment :: done) rest := by
  rw [resolve.eq_def]
  dsimp only
  rw [if_neg h.ne_dot, if_neg fun hempty => h.ne_nil hempty.1]
  exact if_neg h.ne_up

theorem resolve_append_descending {segments : List (List Char)}
    (h : ∀ segment ∈ segments, Descends segment) (absolute : Bool)
    (done rest : List (List Char)) :
    resolve absolute done (segments ++ rest) =
      resolve absolute (segments.reverse ++ done) rest := by
  induction segments generalizing done with
  | nil => rfl
  | cons segment segments ih =>
    obtain ⟨hsegment, hsegments⟩ := List.forall_mem_cons.1 h
    rw [List.cons_append, resolve_descends hsegment, ih hsegments, List.reverse_cons,
      List.append_assoc, List.singleton_append]

theorem resolve_up_cons {segment : List Char} (h : Descends segment) (absolute : Bool)
    (done rest : List (List Char)) :
    resolve absolute (segment :: done) (up :: rest) = resolve absolute done rest := by
  rw [resolve.eq_def]
  dsimp only
  rw [if_neg (by decide), if_neg fun hempty => absurd hempty.1 (by decide)]
  exact (if_pos rfl).trans (if_neg h.ne_up)

/-- Where nothing is left to leave, a relative path climbs on. -/
theorem resolve_up_replicate (climbed : Nat) (rest : List (List Char)) :
    resolve false (List.replicate climbed up) (up :: rest) =
      resolve false (List.replicate (climbed + 1) up) rest := by
  rw [resolve.eq_def]
  dsimp only
  rw [if_neg (by decide), if_neg fun hempty => absurd hempty.1 (by decide)]
  cases climbed <;> rfl

/-- Climbing leaves the segments that descend, latest first, and goes on when none is left. -/
theorem resolve_replicate_up {down : List (List Char)}
    (h : ∀ segment ∈ down, Descends segment) (climbed steps : Nat) (rest : List (List Char)) :
    resolve false (down ++ List.replicate climbed up) (List.replicate steps up ++ rest) =
      resolve false (down.drop steps ++ List.replicate (climbed + (steps - down.length)) up)
        rest := by
  induction steps generalizing down climbed with
  | zero => rw [Nat.zero_sub]; rfl
  | succ steps ih =>
    rw [List.replicate_succ, List.cons_append]
    cases down with
    | nil =>
      have hrest := ih descends_of_mem_nil (climbed + 1)
      simp only [List.nil_append, List.drop_nil, List.length_nil, Nat.sub_zero] at hrest ⊢
      rw [resolve_up_replicate, hrest, Nat.add_assoc, Nat.add_comm 1]
    | cons segment down =>
      obtain ⟨hsegment, hdown⟩ := List.forall_mem_cons.1 h
      rw [List.cons_append, resolve_up_cons hsegment, ih hdown, List.drop_succ_cons,
        List.length_cons, Nat.add_sub_add_right]

/-- What is left when segments are followed: some climb and the others descend after them, except
that the last one may be empty. -/
theorem resolve_cases {down : List (List Char)} (h : ∀ segment ∈ down, Descends segment)
    (climbed : Nat) {segments : List (List Char)}
    (hsegments : ∀ segment ∈ segments, '/' ∉ segment) :
    ∃ down' climbed', (∀ segment ∈ down', Descends segment) ∧
      (resolve false (down ++ List.replicate climbed up) segments =
          down' ++ List.replicate climbed' up ∨
        resolve false (down ++ List.replicate climbed up) segments =
          [] :: (down' ++ List.replicate climbed' up)) := by
  induction segments generalizing down climbed with
  | nil => exact ⟨down, climbed, h, .inl rfl⟩
  | cons segment segments ih =>
    obtain ⟨hslash, hrest⟩ := List.forall_mem_cons.1 hsegments
    by_cases hdot : segment = ['.']
    · rw [hdot, resolve_dot]
      exact ih h climbed hrest
    by_cases hempty : segment = []
    · subst hempty
      cases segments with
      | nil => exact ⟨down, climbed, h, .inr rfl⟩
      | cons next segments =>
        rw [resolve_empty false _ (List.cons_ne_nil next segments)]
        exact ih h climbed hrest
    by_cases hup : segment = up
    · subst hup
      have hclimb := resolve_replicate_up h climbed 1 segments
      rw [List.replicate_one, List.singleton_append] at hclimb
      rw [hclimb]
      exact ih (fun s hs => h s (List.mem_of_mem_drop hs)) _ hrest
    · have hsegment : Descends segment := ⟨hempty, hdot, hup, hslash⟩
      rw [resolve_descends hsegment, ← List.cons_append]
      exact ih (List.forall_mem_cons.2 ⟨hsegment, h⟩) climbed hrest

/-- What stands before the last segment of a path. -/
def directories (path : List Char) : List (List Char) := (path.splitOn '/').dropLast

theorem directory_of_not_mem {path : List Char} (h : '/' ∉ path) : directory path = [] := by
  have hdrop : path.reverse.dropWhile (· != '/') = [] := by
    rw [List.dropWhile_eq_nil_iff]
    intro c hc
    rw [bne_iff_ne]
    rintro rfl
    exact h (List.mem_reverse.1 hc)
  rw [directory, hdrop]
  rfl

theorem directory_append_cons (path : List Char) {last : List Char} (h : '/' ∉ last) :
    directory (path ++ '/' :: last) = path ++ ['/'] := by
  have hlast : ∀ c ∈ last.reverse, (c != '/') = true := by
    intro c hc
    rw [bne_iff_ne]
    rintro rfl
    exact h (List.mem_reverse.1 hc)
  rw [directory, List.reverse_append, List.reverse_cons, List.append_assoc,
    List.dropWhile_append_of_pos hlast, List.singleton_append,
    List.dropWhile_cons_of_neg (by decide), List.reverse_cons, List.reverse_reverse]

/-- A path has a last segment, after its directory if it has one. -/
theorem eq_last_or_append_cons (path : List Char) :
    '/' ∉ path ∨ ∃ before last, path = before ++ '/' :: last ∧ '/' ∉ last := by
  by_cases h : '/' ∈ path
  · obtain ⟨last, before, hpath, hlast⟩ := List.eq_append_cons_of_mem (List.mem_reverse.2 h)
    refine .inr ⟨before.reverse, last.reverse, ?_, fun hmem => hlast (List.mem_reverse.1 hmem)⟩
    rw [← List.reverse_reverse path, hpath, List.reverse_append, List.reverse_cons,
      List.append_assoc, List.singleton_append]
  · exact .inl h

theorem splitOn_directory_append (path : List Char) :
    (directory path ++ path).splitOn '/' = directories path ++ path.splitOn '/' := by
  obtain h | ⟨before, last, rfl, hlast⟩ := eq_last_or_append_cons path
  · rw [directory_of_not_mem h, directories, List.splitOn_eq_singleton h, List.nil_append,
      List.splitOn_eq_singleton h, List.dropLast_singleton, List.nil_append]
  · rw [directory_append_cons before hlast, directories, List.append_assoc, List.singleton_append,
      List.splitOn_append_cons_self, List.splitOn_append_cons_self, List.splitOn_eq_singleton hlast,
      List.dropLast_concat]

theorem head?_directory_append (path : List Char) :
    (directory path ++ path).head? = path.head? := by
  obtain h | ⟨before, last, rfl, hlast⟩ := eq_last_or_append_cons path
  · rw [directory_of_not_mem h, List.nil_append]
  · rw [directory_append_cons before hlast]
    cases before <;> rfl

/-! ### Settled and absolute paths -/

/-- The path climbs first and descends then, up to its last segment, which may be empty. -/
structure Settled (path : List Char) (climbs : Nat) (down : List (List Char)) (last : List Char) :
    Prop where
  segments : path.splitOn '/' = List.replicate climbs up ++ down ++ [last]
  descends : ∀ segment ∈ down, Descends segment
  last_ne_dot : last ≠ ['.']
  climbs_on : last = up → down = []

section Settled

variable {path last : List Char} {climbs : Nat} {down : List (List Char)}

theorem settled_intercalate (climbs : Nat) (hdown : ∀ segment ∈ down, Descends segment)
    (hdot : last ≠ ['.']) (hup : last = up → down = []) (hslash : '/' ∉ last) :
    Settled (['/'].intercalate (List.replicate climbs up ++ down ++ [last])) climbs down last where
  segments := by
    refine List.splitOn_intercalate '/' (fun segment hsegment => ?_) (by simp)
    rw [List.mem_append, List.mem_append, List.mem_singleton] at hsegment
    rcases hsegment with (hsegment | hsegment) | rfl
    · rw [List.eq_of_mem_replicate hsegment]
      decide
    · exact (hdown segment hsegment).not_mem
    · exact hslash
  descends := hdown
  last_ne_dot := hdot
  climbs_on := hup

theorem normalizePathChars_of_relative (h : path.head? ≠ some '/') :
    normalizePathChars path = ['/'].intercalate (resolve false [] (path.splitOn '/')).reverse := by
  have habsolute : (path.head? == some '/') = false := by
    rw [beq_eq_false_iff_ne]
    exact h
  rw [normalizePathChars, habsolute]
  rfl

/-- A relative path is normalized to one that climbs first and descends then. -/
theorem exists_settled (h : path.head? ≠ some '/') :
    ∃ climbs down last, Settled (normalizePathChars path) climbs down last := by
  obtain ⟨down, climbs, hdown, hresolve⟩ :=
    resolve_cases descends_of_mem_nil 0 (not_mem_of_mem_splitOn path)
  have hreverse : ∀ segment ∈ down.reverse, Descends segment := fun segment hsegment =>
    hdown segment (List.mem_reverse.1 hsegment)
  rw [normalizePathChars_of_relative h]
  change resolve false [] (path.splitOn '/') = _ ∨
    resolve false [] (path.splitOn '/') = _ at hresolve
  rcases hresolve with hresolve | hresolve
  · rw [hresolve, List.reverse_append, List.reverse_replicate]
    cases down with
    | nil =>
      cases climbs with
      | zero =>
        exact ⟨0, [], [], @settled_intercalate [] [] 0 descends_of_mem_nil (by decide)
          (fun _ => rfl) (by decide)⟩
      | succ climbs =>
        refine ⟨climbs, [], up, ?_⟩
        have hsettled :=
          @settled_intercalate up [] climbs descends_of_mem_nil (by decide) (fun _ => rfl)
            (by decide)
        rw [List.append_nil, ← List.replicate_succ'] at hsettled
        rwa [List.reverse_nil, List.append_nil]
    | cons last down =>
      obtain ⟨hlast, hdown⟩ := List.forall_mem_cons.1 hdown
      refine ⟨climbs, down.reverse, last, ?_⟩
      rw [List.reverse_cons, ← List.append_assoc]
      exact settled_intercalate climbs
        (fun segment hsegment => hdown segment (List.mem_reverse.1 hsegment)) hlast.ne_dot
        (fun hup => absurd hup hlast.ne_up) hlast.not_mem
  · rw [hresolve, List.reverse_cons, List.reverse_append, List.reverse_replicate]
    exact ⟨climbs, down.reverse, [],
      settled_intercalate climbs hreverse (by decide) nofun List.not_mem_nil⟩

theorem Settled.directories_eq (h : Settled path climbs down last) :
    directories path = List.replicate climbs up ++ down := by
  rw [directories, h.segments, List.dropLast_concat]

theorem Settled.splitOn_eq (h : Settled path climbs down last) :
    path.splitOn '/' = directories path ++ [last] := by
  rw [h.directories_eq, h.segments]

/-- A path that begins with a slash has an empty directory. -/
theorem Settled.relative (h : Settled path climbs down last) : path.head? ≠ some '/' := by
  intro hhead
  obtain ⟨rest, rfl⟩ : ∃ rest, path = '/' :: rest := by
    cases path with
    | nil => cases hhead
    | cons c rest => exact ⟨rest, by rw [Option.some.inj hhead]⟩
  have hsegments := h.segments
  rw [List.splitOn_cons_eq_if_modifyHead, if_pos BEq.rfl] at hsegments
  have hempty : [] ∈ directories ('/' :: rest) := by
    rw [directories, List.splitOn_cons_eq_if_modifyHead, if_pos BEq.rfl,
      List.dropLast_cons_of_ne_nil (List.splitOn_ne_nil _ _)]
    exact List.mem_cons_self
  rw [h.directories_eq, List.mem_append] at hempty
  rcases hempty with hmem | hmem
  · cases List.eq_of_mem_replicate hmem
  · exact (h.descends _ hmem).ne_nil rfl

/-- The last segment stays the last one. -/
theorem Settled.resolve_last (h : Settled path climbs down last) {done : List (List Char)}
    (hdone : down = [] → done = []) (climbed : Nat) :
    resolve false (done ++ List.replicate climbed up) [last] =
      last :: (done ++ List.replicate climbed up) := by
  by_cases hup : last = up
  · rw [hdone (h.climbs_on hup), hup, List.nil_append, resolve_up_replicate]
    rfl
  · rw [resolve.eq_def]
    dsimp only
    rw [if_neg h.last_ne_dot, if_neg fun hempty => hempty.2 rfl]
    exact if_neg hup

/-- Following the directories of a path that climbs first and descends then. -/
theorem Settled.resolve_directories (h : Settled path climbs down last)
    {done : List (List Char)} (hdone : ∀ segment ∈ done, Descends segment) (climbed : Nat)
    (rest : List (List Char)) :
    resolve false (done ++ List.replicate climbed up) (directories path ++ rest) =
      resolve false (down.reverse ++ done.drop climbs ++
        List.replicate (climbed + (climbs - done.length)) up) rest := by
  rw [h.directories_eq, List.append_assoc, resolve_replicate_up hdone,
    resolve_append_descending h.descends, List.append_assoc]

theorem Settled.normalizePathChars (h : Settled path climbs down last) :
    normalizePathChars path = path := by
  have hfollow := h.resolve_directories descends_of_mem_nil 0 [last]
  rw [List.nil_append, List.drop_nil, List.append_nil, List.length_nil, Nat.zero_add,
    Nat.sub_zero, h.resolve_last (fun hnil => by rw [hnil]; rfl), List.replicate_zero,
    ← h.splitOn_eq] at hfollow
  rw [normalizePathChars_of_relative h.relative, hfollow, List.reverse_cons, List.reverse_append,
    List.reverse_replicate, List.reverse_reverse, ← h.segments, List.intercalate_splitOn]

/-- Seen from itself, a path is the same if as many of its directories climb as descend, and else it
is another one. -/
theorem Settled.normalizePathChars_directory (h : Settled path climbs down last) :
    Address.normalizePathChars (directory path ++ path) = path ↔ climbs = down.length := by
  have hrelative : (directory path ++ path).head? ≠ some '/' := by
    rw [head?_directory_append]
    exact h.relative
  have hreverse : ∀ segment ∈ down.reverse, Descends segment := fun segment hsegment =>
    h.descends segment (List.mem_reverse.1 hsegment)
  -- Its directories are followed twice, and its last segment once.
  have hfollow : resolve false [] (directories path ++ path.splitOn '/') =
      last :: (down.reverse ++ down.reverse.drop climbs ++
        List.replicate (climbs + (climbs - down.length)) up) := by
    have honce := h.resolve_directories descends_of_mem_nil 0 (path.splitOn '/')
    rw [List.nil_append, List.drop_nil, List.append_nil, List.length_nil, Nat.zero_add,
      Nat.sub_zero, h.splitOn_eq, h.resolve_directories hreverse, List.length_reverse,
      h.resolve_last fun hnil => by rw [hnil, List.reverse_nil, List.drop_nil]; rfl] at honce
    rw [h.splitOn_eq]
    exact honce
  rw [normalizePathChars_of_relative hrelative, splitOn_directory_append, hfollow,
    List.reverse_cons, List.reverse_append, List.reverse_append, List.reverse_replicate,
    List.reverse_reverse]
  constructor
  · intro hsame
    have hdown : ∀ segment ∈ (down.reverse.drop climbs).reverse ++ down, Descends segment := by
      intro segment hsegment
      rcases List.mem_append.1 hsegment with hmem | hmem
      · exact hreverse segment (List.mem_of_mem_drop (List.mem_reverse.1 hmem))
      · exact h.descends segment hmem
    have hlast : '/' ∉ last := by
      refine not_mem_of_mem_splitOn path last ?_
      rw [h.segments]
      exact List.mem_append_right _ (List.mem_singleton_self last)
    have htwice := (settled_intercalate (climbs + (climbs - down.length)) hdown h.last_ne_dot
      (fun hup => by rw [h.climbs_on hup, List.reverse_nil, List.drop_nil]; rfl) hlast).segments
    rw [hsame, h.segments] at htwice
    have hlength := congrArg List.length htwice
    simp only [List.length_append, List.length_replicate, List.length_reverse, List.length_drop,
      List.length_singleton] at hlength
    omega
  · rintro rfl
    rw [Nat.sub_self, Nat.add_zero, ← List.length_reverse, List.drop_length, List.reverse_nil,
      List.nil_append, List.length_reverse, ← h.segments, List.intercalate_splitOn]

/-- Half of the directories climb. -/
theorem Settled.count_up (h : Settled path climbs down last) :
    2 * (directories path).count up = (directories path).length ↔ climbs = down.length := by
  have hdown : down.count up = 0 :=
    List.count_eq_zero.2 fun hmem => (h.descends up hmem).ne_up rfl
  rw [h.directories_eq, List.count_append, List.count_replicate_self, hdown, List.length_append,
    List.length_replicate]
  omega

end Settled

theorem resolve_up_absolute {down : List (List Char)} (h : ∀ segment ∈ down, Descends segment)
    (rest : List (List Char)) : resolve true down (up :: rest) = resolve true down.tail rest := by
  cases down with
  | nil =>
    rw [resolve.eq_def]
    rfl
  | cons segment down => exact resolve_up_cons (h segment List.mem_cons_self) true down rest

/-- What is left of an absolute path descends, except that the last segment may be empty. -/
theorem resolve_absolute_cases {down : List (List Char)} (h : ∀ segment ∈ down, Descends segment)
    {segments : List (List Char)} (hsegments : ∀ segment ∈ segments, '/' ∉ segment) :
    ∃ down', (∀ segment ∈ down', Descends segment) ∧
      (resolve true down segments = down' ∨ resolve true down segments = [] :: down') := by
  induction segments generalizing down with
  | nil => exact ⟨down, h, .inl rfl⟩
  | cons segment segments ih =>
    obtain ⟨hslash, hrest⟩ := List.forall_mem_cons.1 hsegments
    by_cases hdot : segment = ['.']
    · rw [hdot, resolve_dot]
      exact ih h hrest
    by_cases hempty : segment = []
    · subst hempty
      cases segments with
      | nil => exact ⟨down, h, .inr rfl⟩
      | cons next segments =>
        rw [resolve_empty true _ (List.cons_ne_nil next segments)]
        exact ih h hrest
    by_cases hup : segment = up
    · subst hup
      rw [resolve_up_absolute h]
      exact ih (fun s hs => h s (List.mem_of_mem_tail hs)) hrest
    · have hsegment : Descends segment := ⟨hempty, hdot, hup, hslash⟩
      rw [resolve_descends hsegment]
      exact ih (List.forall_mem_cons.2 ⟨hsegment, h⟩) hrest

theorem normalizePathChars_slash (rest : List Char) :
    normalizePathChars ('/' :: rest) =
      '/' :: ['/'].intercalate (resolve true [] (rest.splitOn '/')).reverse := by
  have hsplit : ('/' :: rest).splitOn '/' = [] :: rest.splitOn '/' := by
    rw [List.splitOn_cons_eq_if_modifyHead, if_pos BEq.rfl]
  rw [normalizePathChars, hsplit, List.head?_cons, beq_self_eq_true, resolve_empty]
  · rfl
  · exact List.splitOn_ne_nil _ _

theorem normalizePathChars_descending {down : List (List Char)}
    (hdown : ∀ segment ∈ down, Descends segment) (hnil : down ≠ []) :
    normalizePathChars ('/' :: ['/'].intercalate down) = '/' :: ['/'].intercalate down := by
  have hslash : ∀ segment ∈ down, '/' ∉ segment := fun segment hsegment =>
    (hdown segment hsegment).not_mem
  have hresolve := resolve_append_descending hdown true [] []
  rw [List.append_nil, List.append_nil] at hresolve
  rw [normalizePathChars_slash, List.splitOn_intercalate '/' hslash hnil, hresolve, resolve,
    List.reverse_reverse]

theorem normalizePathChars_descending_empty {down : List (List Char)}
    (hdown : ∀ segment ∈ down, Descends segment) :
    normalizePathChars ('/' :: ['/'].intercalate (down ++ [[]])) =
      '/' :: ['/'].intercalate (down ++ [[]]) := by
  have hslash : ∀ segment ∈ down ++ [[]], '/' ∉ segment := by
    intro segment hsegment
    rcases List.mem_append.1 hsegment with hmem | hmem
    · exact (hdown segment hmem).not_mem
    · rw [List.mem_singleton.1 hmem]
      exact List.not_mem_nil
  have hresolve : resolve true [] (down ++ [[]]) = [] :: down.reverse := by
    rw [resolve_append_descending hdown, List.append_nil]
    rfl
  rw [normalizePathChars_slash, List.splitOn_intercalate '/' hslash (by simp), hresolve,
    List.reverse_cons, List.reverse_reverse]

/-- A path that was normalized is in its normal form. -/
theorem normalizePathChars_idem (path : List Char) :
    normalizePathChars (normalizePathChars path) = normalizePathChars path := by
  by_cases hhead : path.head? = some '/'
  · obtain ⟨rest, rfl⟩ : ∃ rest, path = '/' :: rest := by
      cases path with
      | nil => cases hhead
      | cons c rest => exact ⟨rest, by rw [Option.some.inj hhead]⟩
    obtain ⟨down, hdown, hresolve⟩ :=
      resolve_absolute_cases descends_of_mem_nil (not_mem_of_mem_splitOn rest)
    have hreverse : ∀ segment ∈ down.reverse, Descends segment := fun segment hsegment =>
      hdown segment (List.mem_reverse.1 hsegment)
    rw [normalizePathChars_slash rest]
    rcases hresolve with hresolve | hresolve
    · rw [hresolve]
      by_cases hnil : down.reverse = []
      · rw [hnil]
        exact normalizePathChars_descending_empty descends_of_mem_nil
      · exact normalizePathChars_descending hreverse hnil
    · rw [hresolve, List.reverse_cons]
      exact normalizePathChars_descending_empty hreverse
  · obtain ⟨climbs, down, last, hsettled⟩ := exists_settled hhead
    exact hsettled.normalizePathChars

theorem normalizePath_idem (path : String) :
    normalizePath (normalizePath path) = normalizePath path := by
  rw [normalizePath, normalizePath, String.toList_ofList, normalizePathChars_idem]

/-! ### Paths and URLs as addresses -/

section Library

variable {urls : UrlLibrary} {address : String}

theorem normalizeWith_of_url {url : urls.Url} (h : urls.parse? address = some url) :
    normalizeWith urls address = urls.text (urls.withoutFragment url) := by
  rw [normalizeWith, h]

theorem normalizeWith_of_path (h : urls.parse? address = none) :
    normalizeWith urls address = normalizePath address := by
  rw [normalizeWith, h]

theorem joinWith_of_url (h : (urls.parse? address).isSome) (base : String) :
    joinWith urls address base = normalizeWith urls address := if_pos h

theorem joinWith_self_of_path (h : urls.parse? address = none) : joinWith urls address address =
    if address.toList.head? = some '/' then normalizePath address
    else String.ofList (normalizePathChars (directory address.toList ++ address.toList)) := by
  rw [joinWith, h]
  rfl

end Library

theorem normalize_of_path {address : String} (h : Url.parse? address = none) :
    normalize address = normalizePath address :=
  @normalizeWith_of_path Url.library address h

theorem join_self_of_path {address : String} (h : Url.parse? address = none) :
    join address address = if address.toList.head? = some '/' then normalizePath address
      else String.ofList (normalizePathChars (directory address.toList ++ address.toList)) :=
  @joinWith_self_of_path Url.library address h

/-- The address is a URL or an absolute path. -/
def IsAbsolute (address : String) : Prop :=
  (Url.parse? address).isSome ∨ address.toList.head? = some '/'

theorem join_self_of_isAbsolute {address : String} (h : IsAbsolute address) :
    join address address = normalize address := by
  by_cases hsome : (Url.parse? address).isSome = true
  · exact @joinWith_of_url Url.library address hsome address
  · have hurl := Option.not_isSome_iff_eq_none.1 hsome
    rw [join_self_of_path hurl, normalize_of_path hurl]
    exact if_pos (h.resolve_left hsome)

theorem head?_normalizePathChars {path : List Char} (h : path.head? = some '/') :
    (normalizePathChars path).head? = some '/' := by
  have habsolute : (path.head? == some '/') = true := beq_iff_eq.2 h
  rw [normalizePathChars, habsolute]
  rfl

/-- A relative path that was normalized is the same path when it is seen from itself if half of its
directories climb, and only then. -/
theorem join_normalize_self {address : String} (hpath : Url.parse? address = none) :
    join (normalize address) (normalize address) = normalize (normalize address) ↔
      IsAbsolute (normalize address) ∨
        let above := directories (normalize address).toList
        2 * above.count up = above.length := by
  by_cases habsolute : IsAbsolute (normalize address)
  · exact iff_of_true (join_self_of_isAbsolute habsolute) (.inl habsolute)
  · have hnormal : (normalize address).toList = normalizePathChars address.toList := by
      rw [normalize_of_path hpath]
      exact String.toList_ofList
    obtain ⟨hurl, hslash⟩ := not_or.1 habsolute
    rw [Bool.not_eq_true, Option.isSome_eq_false_iff, Option.isNone_iff_eq_none] at hurl
    have hrelative : address.toList.head? ≠ some '/' := fun hhead =>
      hslash (hnormal ▸ head?_normalizePathChars hhead)
    obtain ⟨climbs, down, last, hsettled⟩ := exists_settled hrelative
    rw [← hnormal] at hsettled
    have hjoin : join (normalize address) (normalize address) = String.ofList
        (normalizePathChars (directory (normalize address).toList ++
          (normalize address).toList)) := by
      rw [join_self_of_path hurl]
      exact if_neg hslash
    have hself : normalize (normalize address) = normalize address := by
      rw [normalize_of_path hurl]
      exact (congrArg String.ofList hsettled.normalizePathChars).trans String.ofList_toList
    rw [hjoin, hself, or_iff_right habsolute, hsettled.count_up,
      ← hsettled.normalizePathChars_directory, ← String.toList_inj, String.toList_ofList]

end JsonTyping.Address
