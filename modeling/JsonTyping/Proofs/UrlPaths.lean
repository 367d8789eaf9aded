import JsonTyping.Proofs.UrlCharacters

/-!
# Paths of URLs

The segments that reading a path leaves are texts that can stand between two slashes, none of them a
dot segment, and those of a file do not begin with an empty one (`Url.isRoute_takeRoute`). Only the
name of a drive that is written without a slash behind it lets a dot segment of a file through.
Written out, such segments are read back one by one (`Url.takeRoute_segmentChars` and, for a file on
no host, `Url.takeRoute_file`).
-/

namespace JsonTyping.Url

variable {special file more : Bool} {route : Route} {s : String} {c : Char}
variable {raw chars after : List Char} {done segments : List String}

/-- A text that can stand between two slashes. -/
def IsPiece (special : Bool) (s : String) : Prop :=
  ∀ c ∈ s.toList, escapedInPath c = false ∧ isSlash special c = false

/-- A segment that stands for a directory which is there already. -/
def isDots (s : String) : Bool := isDot s || isDoubleDot s

theorem isPiece_empty : IsPiece special "" := fun _ hc => nomatch hc

theorem escapeChars_inPath :
    ∀ c ∈ escapeChars, escapedInPath c = false ∧ isSlash special c = false :=
  forall_mem_of_all (by cases special <;> decide)

theorem isPiece_escape (h : ∀ c ∈ raw, isSlash special c = false) :
    IsPiece special (escape escapedInPath raw) := by
  intro c hc
  rcases mem_escape hc with hc | ⟨hraw, hc⟩
  · exact escapeChars_inPath c hc
  · exact ⟨hc, h c hraw⟩

theorem IsPiece.kept (h : IsPiece special s) : Kept escapedInPath s := fun c hc => (h c hc).1

theorem IsPiece.inside (h : IsPiece special s) (hc : c ∈ s.toList) :
    (!(isSlash special c || endsPath c)) = true := by
  obtain ⟨hescaped, hslash⟩ := h c hc
  have hends : endsPath c = false := by
    rw [endsPath, Bool.or_eq_false_iff, beq_eq_false_iff_ne, beq_eq_false_iff_ne]
    constructor <;> rintro rfl <;> exact absurd hescaped (by decide)
  rw [hslash, hends]
  rfl

theorem isPiece_drive {letter : Char} (h : Text.isAsciiLetter letter = true) :
    IsPiece special (String.ofList [letter, ':']) := by
  have hletter : escapedInPath letter = false ∧ isSlash special letter = false :=
    forall_ascii (P := fun c => Text.isAsciiLetter c = true →
      escapedInPath c = false ∧ isSlash special c = false) (by cases special <;> decide)
      (toNat_of_isSchemePart (by rw [isSchemePart, h]; rfl)) h
  intro c hc
  rw [String.toList_ofList] at hc
  rcases List.mem_cons.1 hc with rfl | hc
  · exact hletter
  · rw [List.mem_singleton.1 hc]
    cases special <;> decide

theorem takeSegment_raw (hc : c ∈ (takeSegment special chars).1) : isSlash special c = false := by
  have hinside : c ∈ chars.takeWhile fun c => !(isSlash special c || endsPath c) := by
    unfold takeSegment at hc
    dsimp only at hc
    split at hc
    · split at hc <;> exact hc
    · exact hc
  have h := List.mem_takeWhile_imp hinside
  rw [Bool.not_eq_true', Bool.or_eq_false_iff] at h
  exact h.1

theorem length_takeSegment (h : (takeSegment special chars).2.1 = true) :
    (takeSegment special chars).2.2.length < chars.length := by
  have hsplit := congrArg List.length (List.takeWhile_append_dropWhile
    (p := fun c => !(isSlash special c || endsPath c)) (l := chars))
  rw [List.length_append] at hsplit
  unfold takeSegment at h ⊢
  dsimp only at h ⊢
  split at h
  · rename_i c rest hdrop
    rw [hdrop, List.length_cons] at hsplit
    split at h
    · rename_i hslash
      rw [if_pos hslash]
      dsimp only
      omega
    · cases h
  · cases h

theorem takeSegment_slash (h : IsPiece special s) (rest : List Char) :
    takeSegment special (s.toList ++ '/' :: rest) = (s.toList, true, rest) := by
  have hstop : ∀ c, ('/' :: rest).head? = some c →
      (!(isSlash special c || endsPath c)) = false := by
    rintro c ⟨⟩
    rfl
  unfold takeSegment
  dsimp only
  rw [takeWhile_append_stop (fun c hc => h.inside hc) hstop,
    dropWhile_append_stop (fun c hc => h.inside hc) hstop]
  rfl

theorem takeSegment_last (h : IsPiece special s)
    (hafter : ∀ c, after.head? = some c → endsPath c = true) :
    takeSegment special (s.toList ++ after) = (s.toList, false, after) := by
  have hstop : ∀ c, after.head? = some c → (!(isSlash special c || endsPath c)) = false := by
    intro c hc
    rw [hafter c hc, Bool.or_true]
    rfl
  unfold takeSegment
  dsimp only
  rw [takeWhile_append_stop (fun c hc => h.inside hc) hstop,
    dropWhile_append_stop (fun c hc => h.inside hc) hstop]
  cases after with
  | nil => rfl
  | cons c rest =>
    have hslash : isSlash special c = false := by
      have hc := hafter c rfl
      rw [endsPath, Bool.or_eq_true, beq_iff_eq, beq_iff_eq] at hc
      rcases hc with rfl | rfl <;> cases special <;> rfl
    dsimp only
    rw [hslash]
    rfl

theorem mem_of_mem_parent (h : s ∈ parent done) : s ∈ done := by
  unfold parent at h
  split at h
  · split at h
    · exact h
    · exact (List.dropLast_sublist _).mem h
  · exact h

theorem isPiece_fileSegment (hraw : ∀ c ∈ raw, isSlash special c = false)
    (h : s ∈ fileSegment done raw) : IsPiece special s := by
  unfold fileSegment at h
  split at h
  · split at h
    · rename_i letter mark hdrive
      obtain rfl := List.mem_singleton.1 h
      exact isPiece_drive (Bool.and_eq_true_iff.1 hdrive).1
    · obtain rfl := List.mem_singleton.1 h
      exact isPiece_escape hraw
  · split at h
    · rename_i letter rest hne hletter
      rcases List.mem_cons.1 h with rfl | h
      · exact isPiece_drive hletter
      · obtain rfl := List.mem_singleton.1 h
        exact isPiece_escape fun c hc =>
          hraw c (List.mem_cons_of_mem _ (List.mem_cons_of_mem _ hc))
    · obtain rfl := List.mem_singleton.1 h
      exact isPiece_escape hraw
  · obtain rfl := List.mem_singleton.1 h
    exact isPiece_escape hraw

theorem fileSegment_ne_nil : fileSegment done raw ≠ [] := by
  unfold fileSegment
  split
  · split <;> exact List.cons_ne_nil _ _
  · split <;> exact List.cons_ne_nil _ _
  · exact List.cons_ne_nil _ _

/-- The segments of a route after one more are old ones, an empty last one, or come from it. -/
theorem Route.mem_step (h : s ∈ (route.step file raw more).segments) :
    s ∈ route.segments ∨ s = "" ∨
      (if file then s ∈ fileSegment route.segments raw
        else s = escape escapedInPath raw ∧ isDots s = false) := by
  have hlast : s ∈ (if more then [] else [""]) → s = "" := by
    intro h
    cases more with
    | true => cases h
    | false => exact List.mem_singleton.1 h
  unfold Route.step at h
  dsimp only at h
  split at h
  · rcases List.mem_append.1 h with h | h
    · exact .inl (mem_of_mem_parent h)
    · exact .inr (.inl (hlast h))
  · rename_i hdouble
    split at h
    · rcases List.mem_append.1 h with h | h
      · exact .inl h
      · exact .inr (.inl (hlast h))
    · rename_i hdot
      split at h <;> rename_i hfile
      · rw [hfile, if_pos rfl]
        exact (List.mem_append.1 h).imp_right .inr
      · rw [if_neg hfile]
        refine (List.mem_append.1 h).imp_right fun h => .inr ?_
        obtain rfl := List.mem_singleton.1 h
        rw [Bool.not_eq_true] at hdouble hdot
        exact ⟨rfl, by rw [isDots, hdot, hdouble]; rfl⟩

theorem Route.step_last_ne_nil : (route.step file raw false).segments ≠ [] := by
  unfold Route.step
  dsimp only
  split
  · simp
  · split
    · simp
    · split
      · simp [fileSegment_ne_nil]
      · simp

/-! ### Whole routes -/

/-- What holds of the segments that stand and of those that are added holds of all. -/
theorem resolveSegments_forall {P : String → Prop}
    (hstep : ∀ (route : Route) (raw : List Char) (more : Bool), (∀ s ∈ route.segments, P s) →
      (∀ c ∈ raw, isSlash special c = false) → ∀ s ∈ (route.step file raw more).segments, P s)
    (fuel : Nat) (hroute : ∀ s ∈ route.segments, P s) :
    ∀ s ∈ (resolveSegments special file route chars fuel).1.segments, P s := by
  induction fuel generalizing route chars with
  | zero => exact hroute
  | succ fuel ih =>
    rw [resolveSegments]
    dsimp only
    have hnext := hstep route (takeSegment special chars).1 (takeSegment special chars).2.1 hroute
      fun c hc => takeSegment_raw hc
    split
    · exact ih hnext
    · exact hnext

theorem resolveSegments_ne_nil (fuel : Nat) (hfuel : chars.length < fuel) :
    (resolveSegments special file route chars fuel).1.segments ≠ [] := by
  induction fuel generalizing route chars with
  | zero => cases hfuel
  | succ fuel ih =>
    rw [resolveSegments]
    dsimp only
    split
    · rename_i hmore
      have hlength := length_takeSegment hmore
      exact ih (Nat.lt_of_lt_of_le hlength (Nat.le_of_lt_succ hfuel))
    · rename_i hmore
      rw [Bool.not_eq_true] at hmore
      rw [hmore]
      exact Route.step_last_ne_nil

theorem mem_of_mem_dropEmptyFront (h : s ∈ dropEmptyFront done) : s ∈ done := by
  induction done using dropEmptyFront.induct with
  | case1 s' rest ih =>
    rw [dropEmptyFront] at h
    exact List.mem_cons_of_mem _ (ih h)
  | case2 l hl =>
    rwa [dropEmptyFront] at h
    exact hl

theorem dropEmptyFront_ne_nil (h : done ≠ []) : dropEmptyFront done ≠ [] := by
  induction done using dropEmptyFront.induct with
  | case1 s' rest ih =>
    rw [dropEmptyFront]
    exact ih (List.cons_ne_nil _ _)
  | case2 l hl =>
    rwa [dropEmptyFront]
    exact hl

/-- Only one segment alone can be empty in front. -/
theorem dropEmptyFront_front {rest : List String} (h : dropEmptyFront done = "" :: rest) :
    rest = [] := by
  induction done using dropEmptyFront.induct with
  | case1 s' others ih =>
    rw [dropEmptyFront] at h
    exact ih h
  | case2 l hl =>
    rw [dropEmptyFront] at h
    · cases rest with
      | nil => rfl
      | cons s' others => exact absurd h (hl s' others)
    · exact hl

theorem dropEmptyFront_eq_self (h : ∀ rest, done = "" :: rest → rest = []) :
    dropEmptyFront done = done := by
  rw [dropEmptyFront]
  rintro s rest rfl
  cases h _ rfl

/-- The segments of a path that was read. -/
structure IsRoute (scheme : String) (segments : List String) : Prop where
  ne_nil : segments ≠ []
  pieces : ∀ s ∈ segments, IsPiece (isSpecialScheme scheme) s
  dots : scheme ≠ "file" → ∀ s ∈ segments, isDots s = false
  front : scheme = "file" → ∀ rest, segments = "" :: rest → rest = []

theorem isRoute_takeRoute {scheme : String}
    (hpieces : ∀ s ∈ done, IsPiece (isSpecialScheme scheme) s)
    (hdots : scheme ≠ "file" → ∀ s ∈ done, isDots s = false) :
    IsRoute scheme (takeRoute scheme done chars).1.segments := by
  have hne : (resolveSegments (isSpecialScheme scheme) (scheme == "file") ⟨done, false⟩ chars
      (chars.length + 1)).1.segments ≠ [] := resolveSegments_ne_nil _ (Nat.lt_succ_self _)
  have hallPieces : ∀ s ∈ (resolveSegments (isSpecialScheme scheme) (scheme == "file")
      ⟨done, false⟩ chars (chars.length + 1)).1.segments, IsPiece (isSpecialScheme scheme) s := by
    refine resolveSegments_forall (fun route raw more hroute hraw s hs => ?_) _ hpieces
    rcases Route.mem_step hs with hs | rfl | hs
    · exact hroute s hs
    · exact isPiece_empty
    · split at hs
      · exact isPiece_fileSegment hraw hs
      · rw [hs.1]
        exact isPiece_escape hraw
  unfold takeRoute
  dsimp only
  by_cases hfile : scheme = "file"
  · rw [if_pos (beq_iff_eq.2 hfile)]
    exact ⟨dropEmptyFront_ne_nil hne, fun s hs => hallPieces s (mem_of_mem_dropEmptyFront hs),
      fun hother => absurd hfile hother, fun _ _ hrest => dropEmptyFront_front hrest⟩
  · have hnotFile : (scheme == "file") = false := beq_eq_false_iff_ne.2 hfile
    have hallDots : ∀ s ∈ (resolveSegments (isSpecialScheme scheme) (scheme == "file")
        ⟨done, false⟩ chars (chars.length + 1)).1.segments, isDots s = false := by
      refine resolveSegments_forall (fun route raw more hroute _ s hs => ?_) _ (hdots hfile)
      rcases Route.mem_step hs with hs | rfl | hs
      · exact hroute s hs
      · rfl
      · rw [hnotFile, if_neg Bool.false_ne_true] at hs
        exact hs.2
    rw [if_neg (by rw [hnotFile]; exact Bool.false_ne_true)]
    exact ⟨hne, hallPieces, fun _ => hallDots, fun h => absurd h hfile⟩

/-- Segments as they are written, each after a slash. -/
def segmentChars (segments : List String) : List Char := segments.flatMap fun s => '/' :: s.toList

theorem segmentChars_cons (s : String) (segments : List String) :
    segmentChars (s :: segments) = '/' :: (s.toList ++ segmentChars segments) := rfl

theorem toList_join (texts : List String) :
    (String.join texts).toList = texts.flatMap String.toList := by
  have hfold (done : String) : (texts.foldl (· ++ ·) done).toList =
      done.toList ++ texts.flatMap String.toList := by
    induction texts generalizing done with
    | nil => simp
    | cons s texts ih =>
      rw [List.foldl_cons, ih, String.toList_append, List.flatMap_cons, List.append_assoc]
  exact hfold ""

theorem toList_text_segments (segments : List String) :
    (Path.segments segments).text.toList = segmentChars segments := by
  rw [Path.text, toList_join, List.flatMap_map]
  exact List.flatMap_congr fun s _ => String.toList_append

theorem length_le_segmentChars (segments : List String) :
    segments.length ≤ (segmentChars segments).length := by
  induction segments with
  | nil => exact Nat.zero_le _
  | cons s segments ih =>
    rw [segmentChars_cons, List.length_cons, List.length_cons, List.length_append]
    omega

/-- Whether a segment begins with a letter and a colon, or is the name of a drive. -/
def beginsWithDrive (segment : List Char) : Bool :=
  isDrive segment || match segment with
    | letter :: ':' :: _ => Text.isAsciiLetter letter
    | _ => false

theorem isDrive_of_beginsWithDrive (h : beginsWithDrive raw = false) : isDrive raw = false :=
  (Bool.or_eq_false_iff.1 h).1

theorem fileSegment_piece (h : IsPiece special s)
    (hdrive : done ≠ [] ∨ beginsWithDrive s.toList = false) :
    fileSegment done s.toList = [s] := by
  have hescape := h.kept.escape_eq
  cases done with
  | cons first done => rw [fileSegment, hescape] <;> simp
  | nil =>
    have hfree := hdrive.resolve_left fun hne => hne rfl
    generalize s.toList = l at hfree hescape ⊢
    unfold fileSegment
    split
    · rw [if_neg (by rw [isDrive_of_beginsWithDrive hfree]; exact Bool.false_ne_true), hescape]
    · rename_i letter rest _ _
      have hletter : Text.isAsciiLetter letter = false := (Bool.or_eq_false_iff.1 hfree).2
      rw [if_neg (by rw [hletter]; exact Bool.false_ne_true), hescape]
    · rw [hescape]

/-- A segment that is no dot segment stays itself. -/
theorem Route.step_piece (h : IsPiece special s) (hdots : isDots s = false)
    (hdrive : file = true → route.segments ≠ [] ∨ beginsWithDrive s.toList = false) :
    route.step file s.toList more = { route with segments := route.segments ++ [s] } := by
  rw [isDots, Bool.or_eq_false_iff] at hdots
  unfold Route.step
  dsimp only
  rw [h.kept.escape_eq, hdots.1, hdots.2, if_neg Bool.false_ne_true, if_neg Bool.false_ne_true]
  cases file with
  | false => rfl
  | true =>
    have hnew : (route.segments.isEmpty && isDrive s.toList) = false := by
      rcases hdrive rfl with hne | hfree
      · rw [List.isEmpty_eq_false_iff.2 hne, Bool.false_and]
      · rw [isDrive_of_beginsWithDrive hfree, Bool.and_false]
    rw [if_pos rfl, fileSegment_piece h (hdrive rfl), hnew, Bool.or_false]

theorem resolveSegments_segmentChars (hpieces : ∀ t ∈ s :: segments, IsPiece special t)
    (hdots : ∀ t ∈ s :: segments, isDots t = false)
    (hdrive : file = true → route.segments ≠ [] ∨ beginsWithDrive s.toList = false)
    (hafter : ∀ c, after.head? = some c → endsPath c = true)
    (fuel : Nat) (hfuel : segments.length < fuel) :
    resolveSegments special file route (s.toList ++ (segmentChars segments ++ after)) fuel =
      ({ route with segments := route.segments ++ s :: segments }, after) := by
  have hpiece := hpieces s List.mem_cons_self
  have hdot := hdots s List.mem_cons_self
  -- Only the first segment can be a drive that is not kept: `hdrive` is free once one was read.
  induction segments generalizing s route fuel with
  | nil =>
    cases fuel with
    | zero => cases hfuel
    | succ fuel =>
      rw [segmentChars, List.flatMap_nil, List.nil_append, resolveSegments,
        takeSegment_last hpiece hafter]
      dsimp only
      rw [if_neg Bool.false_ne_true, Route.step_piece hpiece hdot hdrive]
  | cons t segments ih =>
    cases fuel with
    | zero => cases hfuel
    | succ fuel =>
      rw [segmentChars_cons, List.cons_append, List.append_assoc, resolveSegments,
        takeSegment_slash hpiece]
      dsimp only
      rw [if_pos rfl, Route.step_piece hpiece hdot hdrive,
        ih (fun u hu => hpieces u (List.mem_cons_of_mem s hu))
          (fun u hu => hdots u (List.mem_cons_of_mem s hu))
          (fun _ => .inl (by simp)) fuel (Nat.lt_of_succ_lt_succ hfuel)
          (hpieces t (List.mem_cons_of_mem s List.mem_cons_self))
          (hdots t (List.mem_cons_of_mem s List.mem_cons_self)),
        List.append_assoc]
      rfl

section Read

variable {scheme : String}
  (hafter : ∀ c, after.head? = some c → endsPath c = true)
include hafter

/-- Segments that are written behind a slash are read back, but for a drive in front. -/
theorem takeRoute_segmentChars (hroute : IsRoute scheme (s :: segments))
    (hdots : ∀ t ∈ s :: segments, isDots t = false)
    (hdrive : scheme = "file" → beginsWithDrive s.toList = false) :
    takeRoute scheme [] (s.toList ++ (segmentChars segments ++ after)) =
      (⟨s :: segments, false⟩, after) := by
  have hlength := length_le_segmentChars segments
  have hread : resolveSegments (isSpecialScheme scheme) (scheme == "file") ⟨[], false⟩
      (s.toList ++ (segmentChars segments ++ after))
      ((s.toList ++ (segmentChars segments ++ after)).length + 1) =
        (⟨s :: segments, false⟩, after) :=
    resolveSegments_segmentChars hroute.pieces hdots
      (fun hfile => .inr (hdrive (beq_iff_eq.1 hfile))) hafter _
      (by rw [List.length_append, List.length_append]; omega)
  unfold takeRoute
  dsimp only
  rw [hread]
  dsimp only
  split
  · rename_i hfile
    rw [dropEmptyFront_eq_self (hroute.front (beq_iff_eq.1 hfile))]
  · rfl

/-- Behind the slash of a file the segments are read back, also a drive. -/
theorem takeRoute_file (hroute : IsRoute "file" segments)
    (hdots : ∀ t ∈ segments, isDots t = false) :
    takeRoute "file" [] (segmentChars segments ++ after) = (⟨segments, false⟩, after) := by
  obtain ⟨s, rest, rfl⟩ := List.exists_cons_of_ne_nil hroute.ne_nil
  have hpieces : ∀ t ∈ "" :: s :: rest, IsPiece true t :=
    List.forall_mem_cons.2 ⟨isPiece_empty, hroute.pieces⟩
  have hlength := length_le_segmentChars (s :: rest)
  have hread : resolveSegments true true ⟨[], false⟩ (segmentChars (s :: rest) ++ after)
      ((segmentChars (s :: rest) ++ after).length + 1) = (⟨"" :: s :: rest, false⟩, after) :=
    resolveSegments_segmentChars hpieces (List.forall_mem_cons.2 ⟨rfl, hdots⟩)
      (fun _ => .inr rfl) hafter _ (by rw [List.length_append]; omega)
  have hfront : dropEmptyFront ("" :: s :: rest) = s :: rest :=
    dropEmptyFront_eq_self (hroute.front rfl)
  have hspecial : isSpecialScheme "file" = true := by decide
  unfold takeRoute
  dsimp only
  rw [hspecial, beq_self_eq_true, hread, if_pos rfl, hfront]

/-- A dot segment in front of the path, which keeps it from looking like a host, goes nowhere. -/
theorem takeRoute_dot (hweb : scheme ≠ "file") (hroute : IsRoute scheme (s :: segments)) :
    takeRoute scheme [] ('.' :: (segmentChars (s :: segments) ++ after)) =
      (⟨s :: segments, false⟩, after) := by
  have hdot : IsPiece (isSpecialScheme scheme) "." := by
    intro c hc
    obtain rfl := List.mem_singleton.1 hc
    cases isSpecialScheme scheme <;> decide
  have hfile : (scheme == "file") = false := beq_eq_false_iff_ne.2 hweb
  have hlength := length_le_segmentChars segments
  have hread : resolveSegments (isSpecialScheme scheme) false ⟨[], false⟩
      (s.toList ++ (segmentChars segments ++ after))
      ('.' :: (segmentChars (s :: segments) ++ after)).length = (⟨s :: segments, false⟩, after) :=
    resolveSegments_segmentChars hroute.pieces (hroute.dots hweb)
      (fun hfalse : false = true => nomatch hfalse) hafter _
      (by rw [segmentChars_cons]; simp only [List.length_cons, List.length_append]; omega)
  have hfirst (fuel : Nat) :
      resolveSegments (isSpecialScheme scheme) false ⟨[], false⟩
        ('.' :: (segmentChars (s :: segments) ++ after)) (fuel + 1) =
      resolveSegments (isSpecialScheme scheme) false ⟨[], false⟩
        (s.toList ++ (segmentChars segments ++ after)) fuel := by
    have htake := takeSegment_slash hdot (s.toList ++ (segmentChars segments ++ after))
    have hstay : Route.step false ⟨[], false⟩ ".".toList true = ⟨[], false⟩ := by decide
    have hchars : '.' :: (segmentChars (s :: segments) ++ after) =
        ".".toList ++ '/' :: (s.toList ++ (segmentChars segments ++ after)) := by
      rw [segmentChars_cons, List.cons_append, List.append_assoc]
      rfl
    rw [hchars, resolveSegments, htake]
    dsimp only
    rw [hstay, if_pos rfl]
  unfold takeRoute
  dsimp only
  rw [hfile, if_neg Bool.false_ne_true, hfirst, hread]

end Read

end JsonTyping.Url
