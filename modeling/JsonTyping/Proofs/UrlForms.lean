import JsonTyping.Proofs.UrlAuthorities
import JsonTyping.Proofs.UrlPaths

/-!
# Well-formed URLs

The parts of a URL that is read are in their normal forms, and stand together in one of five ways
(`Url.Form`): behind a scheme of the web or of files, behind another scheme with an authority or
with a path alone, or as a plain text. This holds of every text without a fragment that stands alone
(`Url.wellFormed_parse?`) and of every one that is joined to such a URL (`Url.wellFormed_join?`).
-/

namespace JsonTyping.Url

variable {scheme : String} {u base : Url} {chars : List Char}

/-- The ways in which authority, path and query stand together behind a scheme. -/
inductive Form (scheme : String) : Option Authority → Path → Option String → Prop
  | web {a segments query} (hspecial : isSpecialScheme scheme = true) (hweb : scheme ≠ "file")
      (ha : Authority.WellFormed scheme a) (hroute : IsRoute scheme segments) :
      Form scheme (some a) (.segments segments) query
  | file {host segments query} (hfile : scheme = "file")
      (hhost : host = "" ∨ host ≠ "localhost" ∧ ∃ chars, specialHost? chars = some host)
      (hroute : IsRoute scheme segments) :
      Form scheme (fileAuthority host) (.segments segments) query
  | other {a segments query} (hother : isSpecialScheme scheme = false)
      (ha : Authority.WellFormed scheme a) (hroute : segments = [] ∨ IsRoute scheme segments) :
      Form scheme (some a) (.segments segments) query
  /-- A path without an authority in front. -/
  | rooted {segments query} (hother : isSpecialScheme scheme = false)
      (hroute : IsRoute scheme segments) : Form scheme none (.segments segments) query
  | plain {text query} (hother : isSpecialScheme scheme = false) (hkept : Kept isControl text)
      (hslash : text.toList.head? ≠ some '/') (hends : ∀ c ∈ text.toList, endsPath c = false)
      (hblank : query = none → text.toList.getLast? ≠ some ' ') :
      Form scheme none (.plain text) query

/-- The URLs that reading gives; nothing is said of the fragment. -/
structure WellFormed (u : Url) : Prop where
  scheme : IsScheme u.scheme
  form : Form u.scheme u.authority u.path u.query
  query : ∀ q, u.query = some q → Kept (escapedInQuery (isSpecialScheme u.scheme)) q

theorem WellFormed.withFragment (h : u.WellFormed) (fragment : Option String) :
    ({ u with fragment } : Url).WellFormed := ⟨h.scheme, h.form, h.query⟩

theorem wellFormed_assemble {authority : Option Authority} {path : Path} (hscheme : IsScheme scheme)
    (hform : Form scheme authority path (tail (isSpecialScheme scheme) chars).1) :
    (assemble scheme authority path chars).WellFormed :=
  ⟨hscheme, hform, fun _ hq => kept_tail hq⟩

theorem isRoute_takePath (scheme : String) (chars : List Char) :
    IsRoute scheme (takeRoute scheme [] chars).1.segments :=
  isRoute_takeRoute (List.forall_mem_nil _)
    fun _ => List.forall_mem_nil _

theorem exists_takePathAfterHost (scheme : String) (chars : List Char) :
    ∃ segments, (takePathAfterHost scheme chars).1 = .segments segments ∧
      (IsRoute scheme segments ∨ isSpecialScheme scheme = false ∧ segments = []) := by
  unfold takePathAfterHost
  dsimp only
  split
  · split
    · exact ⟨_, rfl, .inl (isRoute_takePath scheme [])⟩
    · rename_i hother
      exact ⟨[], rfl, .inr ⟨Bool.not_eq_true _ ▸ hother, rfl⟩⟩
  · split
    · exact ⟨_, rfl, .inl (isRoute_takePath scheme _)⟩
    · split
      · rename_i hends
        rw [Bool.and_eq_true, Bool.not_eq_true'] at hends
        exact ⟨[], rfl, .inr ⟨hends.2, rfl⟩⟩
      · exact ⟨_, rfl, .inl (isRoute_takePath scheme _)⟩

theorem wellFormed_afterSlashes? (hscheme : IsScheme scheme) (hweb : scheme ≠ "file")
    (h : afterSlashes? scheme chars = some u) : u.WellFormed := by
  obtain ⟨a, after, ha, rfl⟩ := afterSlashes?_cases h
  obtain ⟨segments, hpath, hroute⟩ := exists_takePathAfterHost scheme after
  refine wellFormed_assemble hscheme ?_
  rw [hpath]
  cases hspecial : isSpecialScheme scheme with
  | true =>
    rcases hroute with hroute | ⟨hother, -⟩
    · exact .web hspecial hweb ha hroute
    · cases hspecial.symm.trans hother
  | false => exact .other hspecial ha (hroute.symm.imp And.right id)

theorem isSpecialScheme_file : isSpecialScheme "file" = true := by decide

/-- The hosts of files: none, or one that is not this machine. -/
def IsFileHost (host : String) : Prop :=
  host = "" ∨ host ≠ "localhost" ∧ ∃ chars, specialHost? chars = some host

theorem wellFormed_file {host : String} {done : List String} (hscheme : IsScheme "file")
    (hhost : IsFileHost host) (hdone : ∀ s ∈ done, IsPiece true s) (chars : List Char) :
    (assemble "file" (fileAuthority host) (takePath "file" done chars).1
      (takePath "file" done chars).2).WellFormed := by
  have hroute : IsRoute "file" (takeRoute "file" done chars).1.segments :=
    isRoute_takeRoute hdone fun hweb => absurd rfl hweb
  exact wellFormed_assemble hscheme (.file rfl hhost hroute)

theorem wellFormed_fileAfterSlashes? (hscheme : IsScheme "file")
    (h : fileAfterSlashes? chars = some u) : u.WellFormed := by
  unfold fileAfterSlashes? at h
  dsimp only at h
  split at h
  · obtain rfl := Option.some.inj h
    exact wellFormed_file hscheme (.inl rfl) (List.forall_mem_nil _) chars
  · obtain ⟨host, hhost, h⟩ := Option.bind_eq_some_iff.1 h
    split at h
    · obtain rfl := Option.some.inj h
      exact wellFormed_file hscheme (.inl rfl) (List.forall_mem_nil _) _
    · rename_i hlocal
      obtain rfl := Option.some.inj h
      have hdropped (drive : Bool) : IsFileHost (if drive then "" else host) := by
        cases drive with
        | true => exact .inl rfl
        | false => exact .inr ⟨by simpa using hlocal, _, hhost⟩
      exact wellFormed_assemble hscheme (.file rfl (hdropped _) (isRoute_takePath "file" _))

theorem WellFormed.file_cases (h : u.WellFormed) (hfile : u.scheme = "file") :
    ∃ host segments, u.authority = fileAuthority host ∧ u.path = .segments segments ∧
      IsFileHost host ∧ IsRoute "file" segments := by
  have hspecial : isSpecialScheme u.scheme = true := hfile ▸ isSpecialScheme_file
  obtain ⟨-, hform, -⟩ := h
  rw [hfile] at hform hspecial
  generalize u.authority = authority at hform
  generalize u.path = path at hform
  cases hform with
  | web _ hweb => exact absurd rfl hweb
  | file _ hhost hroute => exact ⟨_, _, rfl, rfl, hhost, hroute⟩
  | other hother => cases hspecial.symm.trans hother
  | rooted hother => cases hspecial.symm.trans hother
  | plain hother => cases hspecial.symm.trans hother

theorem wellFormed_relativeFile {base : Option Url} (hscheme : IsScheme "file")
    (hbase : ∀ b, base = some b → b.WellFormed ∧ b.scheme = "file")
    (h : parseFile?.relativeFile base chars = some u) : u.WellFormed := by
  unfold parseFile?.relativeFile at h
  dsimp only at h
  split at h
  · obtain rfl := Option.some.inj h
    exact wellFormed_file hscheme (.inl rfl) (List.forall_mem_nil _) _
  · obtain rfl := Option.some.inj h
    exact wellFormed_file hscheme (.inl rfl) (List.forall_mem_nil _) []
  · rename_i base
    obtain ⟨hbase, hfile⟩ := hbase base rfl
    obtain ⟨host, segments, hauthority, hpath, hhost, hroute⟩ := hbase.file_cases hfile
    have hown : (base.authority.map (·.host)).getD "" = host := by
      rw [hauthority]
      rfl
    rw [hown, hpath] at h
    split at h
    · obtain rfl := Option.some.inj h
      exact hbase.withFragment none
    · obtain rfl := Option.some.inj h
      refine wellFormed_assemble hscheme ?_
      rw [hauthority]
      exact .file rfl hhost hroute
    · obtain rfl := Option.some.inj h
      exact hpath ▸ hbase.withFragment _
    · rename_i c rest _ _
      split at h
      · split at h
        · obtain rfl := Option.some.inj h
          exact wellFormed_file hscheme (.inl rfl) (List.forall_mem_nil _) rest
        · split at h
          · rename_i first others hsegments
            have hfirst : ∀ s ∈ [first], IsPiece true s := by
              intro s hs
              obtain rfl : segments = first :: others := hsegments
              rw [List.mem_singleton.1 hs]
              exact hroute.pieces first List.mem_cons_self
            split at h
            · obtain rfl := Option.some.inj h
              exact wellFormed_file hscheme (.inl rfl) hfirst rest
            · obtain rfl := Option.some.inj h
              exact wellFormed_file hscheme hhost (List.forall_mem_nil _) rest
          · obtain rfl := Option.some.inj h
            exact wellFormed_file hscheme hhost (List.forall_mem_nil _) rest
      · split at h
        · obtain rfl := Option.some.inj h
          exact wellFormed_file hscheme (.inl rfl) (List.forall_mem_nil _) _
        · obtain rfl := Option.some.inj h
          refine wellFormed_file hscheme hhost (fun s hs => hroute.pieces s ?_) _
          split at hs
          · exact hs
          · exact (List.dropLast_sublist _).mem hs

theorem wellFormed_parseFile? {base : Option Url} (hscheme : IsScheme "file")
    (hbase : ∀ b, base = some b → b.WellFormed ∧ b.scheme = "file")
    (h : parseFile? base chars = some u) : u.WellFormed := by
  unfold parseFile? at h
  split at h
  · split at h
    · exact wellFormed_fileAfterSlashes? hscheme h
    · exact wellFormed_relativeFile hscheme hbase h
  · exact wellFormed_relativeFile hscheme hbase h

/-- A base with segments lends its authority to other segments. -/
theorem Form.withRoute {authority : Option Authority} {segments others : List String}
    {query query' : Option String} (h : Form scheme authority (.segments segments) query)
    (hweb : scheme ≠ "file") (hroute : IsRoute scheme others) :
    Form scheme authority (.segments others) query' := by
  cases h with
  | web hspecial hweb ha => exact .web hspecial hweb ha hroute
  | file hfile => exact absurd hfile hweb
  | other hother ha => exact .other hother ha (.inr hroute)
  | rooted hother => exact .rooted hother hroute

theorem Form.withQuery {authority : Option Authority} {segments : List String}
    {query query' : Option String} (h : Form scheme authority (.segments segments) query) :
    Form scheme authority (.segments segments) query' := by
  cases h with
  | web hspecial hweb ha hroute => exact .web hspecial hweb ha hroute
  | file hfile hhost hroute => exact .file hfile hhost hroute
  | other hother ha hroute => exact .other hother ha hroute
  | rooted hother hroute => exact .rooted hother hroute

theorem Form.exists_segments {authority : Option Authority} {path : Path} {query : Option String}
    (h : Form scheme authority path query) (hspecial : isSpecialScheme scheme = true) :
    ∃ segments, path = .segments segments := by
  cases h with
  | plain hother => cases hspecial.symm.trans hother
  | _ => exact ⟨_, rfl⟩

theorem Form.segments_spec {authority : Option Authority} {segments : List String}
    {query : Option String} (h : Form scheme authority (.segments segments) query) :
    (∀ s ∈ segments, IsPiece (isSpecialScheme scheme) s) ∧
      (scheme ≠ "file" → ∀ s ∈ segments, isDots s = false) := by
  cases h with
  | web _ _ _ hroute => exact ⟨hroute.pieces, hroute.dots⟩
  | file _ _ hroute => exact ⟨hroute.pieces, hroute.dots⟩
  | rooted _ hroute => exact ⟨hroute.pieces, hroute.dots⟩
  | other _ _ hroute =>
    rcases hroute with rfl | hroute
    · exact ⟨List.forall_mem_nil _, fun _ => List.forall_mem_nil _⟩
    · exact ⟨hroute.pieces, hroute.dots⟩

theorem wellFormed_parseRelative? {segments : List String} (hbase : base.WellFormed)
    (hweb : base.scheme ≠ "file") (hpath : base.path = .segments segments)
    (h : parseRelative? base chars = some u) : u.WellFormed := by
  have hform := hbase.form
  rw [hpath] at hform
  obtain ⟨hpieces, hdots⟩ := hform.segments_spec
  have hroute {done : List String} (hdone : ∀ s ∈ done, s ∈ segments) (chars : List Char) :
      (assemble base.scheme base.authority (takePath base.scheme done chars).1
        (takePath base.scheme done chars).2).WellFormed :=
    wellFormed_assemble hbase.scheme (hform.withRoute hweb (isRoute_takeRoute
      (fun s hs => hpieces s (hdone s hs)) fun hweb s hs => hdots hweb s (hdone s hs)))
  unfold parseRelative? at h
  dsimp only at h
  split at h
  · obtain rfl := Option.some.inj h
    exact hbase.withFragment none
  · obtain rfl := Option.some.inj h
    refine wellFormed_assemble hbase.scheme ?_
    rw [hpath]
    exact hform.withQuery
  · obtain rfl := Option.some.inj h
    exact hbase.withFragment _
  · split at h
    · split at h
      · exact wellFormed_afterSlashes? hbase.scheme hweb h
      · obtain rfl := Option.some.inj h
        exact hroute (List.forall_mem_nil _) _
    · obtain rfl := Option.some.inj h
      rw [hpath]
      exact hroute (fun _ hs => (List.dropLast_sublist _).mem hs) _

/-! ### Reading any URL -/

theorem isControl_escapeChars : ∀ c ∈ escapeChars,
    isControl c = false ∧ endsPath c = false ∧ c ≠ '/' ∧ c ≠ ' ' :=
  forall_mem_of_all (by decide)

theorem head?_takeWhile {p : Char → Bool} {c : Char} (h : (chars.takeWhile p).head? = some c) :
    chars.head? = some c := by
  cases chars with
  | nil => cases h
  | cons first rest =>
    rw [List.takeWhile_cons] at h
    split at h
    · exact h
    · cases h

/-- A plain path ends in no blank, if nothing follows it. -/
theorem form_takePlainPath (hother : isSpecialScheme scheme = false)
    (hslash : chars.head? ≠ some '/') (hhash : '#' ∉ chars)
    (hlast : ∀ c, chars.getLast? = some c → 0x20 < c.toNat) :
    Form scheme none (takePlainPath chars).1
      (tail (isSpecialScheme scheme) (takePlainPath chars).2).1 := by
  refine .plain hother (kept_escape fun c hc => (isControl_escapeChars c hc).1) ?_ ?_ ?_
  · intro hhead
    rcases head?_escape hhead with hc | hhead
    · exact (isControl_escapeChars _ hc).2.2.1 rfl
    · exact hslash (head?_takeWhile hhead)
  · intro c hc
    rcases mem_escape hc with hc | ⟨hc, -⟩
    · exact (isControl_escapeChars c hc).2.1
    · have hc := List.mem_takeWhile_imp (p := (!endsPath ·)) hc
      rwa [Bool.not_eq_true'] at hc
  · intro hquery hblank
    -- Nothing but a query can end the path, so it goes on to the end of the text.
    have hsplit := List.takeWhile_append_dropWhile (p := (!endsPath ·)) (l := chars)
    have hall : chars.takeWhile (!endsPath ·) = chars := by
      have hstop := List.head?_dropWhile_not (!endsPath ·) chars
      unfold takePlainPath at hquery
      dsimp only at hquery
      cases hrest : chars.dropWhile (!endsPath ·) with
      | nil => rwa [hrest, List.append_nil] at hsplit
      | cons c rest =>
        rw [hrest] at hstop hquery hsplit
        have hc : c = '?' ∨ c = '#' := by
          have hends : endsPath c = true := by simpa using hstop
          rw [endsPath, Bool.or_eq_true] at hends
          exact hends.imp beq_iff_eq.1 beq_iff_eq.1
        rcases hc with rfl | rfl
        · cases hquery
        · exact absurd (hsplit ▸ List.mem_append_right _ List.mem_cons_self) hhash
    rw [hall] at hblank
    rcases getLast?_escape hblank with hc | hblank
    · exact (isControl_escapeChars _ hc).2.2.2 rfl
    · exact absurd (hlast ' ' hblank) (by decide)

theorem wellFormed_parseAfterScheme? {base : Option Url} (hscheme : IsScheme scheme)
    (hbase : ∀ b, base = some b → b.WellFormed) (hhash : '#' ∉ chars)
    (hlast : ∀ c, chars.getLast? = some c → 0x20 < c.toNat)
    (h : parseAfterScheme? base scheme chars = some u) : u.WellFormed := by
  unfold parseAfterScheme? at h
  split at h
  · rename_i hfile
    obtain rfl := beq_iff_eq.1 hfile
    refine wellFormed_parseFile? hscheme (fun b hb => ?_) h
    obtain ⟨hb, hfile⟩ := Option.filter_eq_some_iff.1 hb
    exact ⟨hbase b hb, beq_iff_eq.1 hfile⟩
  · rename_i hweb
    rw [beq_iff_eq] at hweb
    split at h
    · rename_i hspecial
      dsimp only at h
      split at h
      · rename_i b
        split at h
        · rename_i hsame
          obtain rfl := beq_iff_eq.1 hsame.2
          have hb := hbase b rfl
          obtain ⟨segments, hpath⟩ := hb.form.exists_segments hspecial
          exact wellFormed_parseRelative? hb hweb hpath h
        · exact wellFormed_afterSlashes? hscheme hweb h
      · exact wellFormed_afterSlashes? hscheme hweb h
    · rename_i hother
      rw [Bool.not_eq_true] at hother
      split at h
      · exact wellFormed_afterSlashes? hscheme hweb h
      · obtain rfl := Option.some.inj h
        exact wellFormed_assemble hscheme (.rooted hother (isRoute_takePath scheme _))
      · rename_i _ hslash
        obtain rfl := Option.some.inj h
        refine wellFormed_assemble hscheme (form_takePlainPath hother ?_ hhash hlast)
        intro hhead
        cases chars with
        | nil => cases hhead
        | cons c rest =>
          obtain rfl := Option.some.inj hhead
          exact hslash rest rfl

/-- What follows the scheme of a text without a fragment, and does not end in a blank. -/
theorem afterScheme_spec {s : String} (hhash : '#' ∉ s.toList) {rest : List Char}
    (h : takeScheme? (strip s) = some (scheme, rest)) :
    IsScheme scheme ∧ '#' ∉ rest ∧ ∀ c, rest.getLast? = some c → 0x20 < c.toNat := by
  obtain ⟨hscheme, front, hstrip⟩ := takeScheme?_spec h
  have hrest : ∀ c ∈ rest, c ∈ s.toList := by
    intro c hc
    apply mem_of_mem_strip
    rw [hstrip]
    exact List.mem_append_right front (List.mem_cons_of_mem _ hc)
  refine ⟨hscheme, fun hc => hhash (hrest _ hc), fun c hc => ?_⟩
  have hlast : (strip s).getLast? = some c := by
    rw [hstrip, List.getLast?_append, List.getLast?_cons, hc]
    rfl
  exact getLast?_strip hlast

theorem wellFormed_parse? {s : String} (hhash : '#' ∉ s.toList) (h : parse? s = some u) :
    u.WellFormed := by
  unfold parse? at h
  split at h
  · rename_i scheme rest hscheme
    obtain ⟨hscheme, hhash, hlast⟩ := afterScheme_spec hhash hscheme
    exact wellFormed_parseAfterScheme? hscheme (fun _ hb => by cases hb) hhash hlast h
  · cases h

theorem wellFormed_join? {s : String} (hbase : base.WellFormed) (hhash : '#' ∉ s.toList)
    (h : base.join? s = some u) : u.WellFormed := by
  unfold join? at h
  dsimp only at h
  split at h
  · rename_i scheme rest hscheme
    obtain ⟨hscheme, hhash, hlast⟩ := afterScheme_spec hhash hscheme
    exact wellFormed_parseAfterScheme? hscheme (fun b hb => Option.some.inj hb ▸ hbase) hhash
      hlast h
  · split at h
    · obtain rfl := Option.some.inj h
      exact hbase.withFragment _
    · cases h
    · rename_i segments hpath
      split at h
      · rename_i hfile
        have hfile := beq_iff_eq.1 hfile
        have hscheme := hbase.scheme
        rw [hfile] at hscheme
        exact wellFormed_parseFile? hscheme (fun b hb => Option.some.inj hb ▸ ⟨hbase, hfile⟩) h
      · rename_i hweb
        exact wellFormed_parseRelative? hbase (by simpa using hweb) hpath h

end JsonTyping.Url
