import JsonTyping.Proofs.UrlForms

/-!
# Texts of URLs

The text of a well-formed URL is read as that URL again (`Url.parse?_text`), unless the URL is
irregular: its host is a name that is not its own ASCII form, or it is a file on a host with a drive
in front, or a file with a dot segment that stood directly behind the name of a drive.
-/

namespace JsonTyping.Url

variable {scheme : String} {u : Url} {chars : List Char}

/-- What can keep a URL from being read back. -/
inductive Irregular (u : Url) : Prop
  /-- The host is a name that was encoded, and is not its own ASCII form. -/
  | name (a : Authority) (name : String) (hauthority : u.authority = some a)
      (hspecial : isSpecialScheme u.scheme = true) (hname : domainToAscii name = some a.host)
      (hplain : isPlain (lowered name) = false) (hself : domainToAscii a.host ≠ some a.host)
  /-- A file on a host has a drive in front, which stands on no host. -/
  | drive (host first : String) (rest : List String) (hfile : u.scheme = "file")
      (hauthority : u.authority = fileAuthority host) (hhost : host ≠ "")
      (hpath : u.path = .segments (first :: rest)) (hdrive : beginsWithDrive first.toList = true)
  /-- A dot segment of a file stood directly behind the name of a drive. -/
  | dots (segments : List String) (s : String) (hfile : u.scheme = "file")
      (hpath : u.path = .segments segments) (hs : s ∈ segments) (hdots : isDots s = true)

theorem assemble_queryChars {authority : Option Authority} {path : Path} {query : Option String}
    (h : ∀ q, query = some q → Kept (escapedInQuery (isSpecialScheme scheme)) q) :
    assemble scheme authority path (queryChars query) = ⟨scheme, authority, path, query, none⟩ := by
  unfold assemble
  rw [tail_queryChars h]

/-- What is written between the scheme and the path. -/
def frontChars (authority : Option Authority) (path : Path) : List Char :=
  match authority with
  | some a => '/' :: '/' :: a.text.toList
  | none => if path.looksLikeHost then ['/', '.'] else []

theorem toList_text (u : Url) (hfragment : u.fragment = none) :
    u.text.toList = u.scheme.toList ++ ':' :: (frontChars u.authority u.path ++
      (u.path.text.toList ++ queryChars u.query)) := by
  have hdot : (if u.path.looksLikeHost then "/." else "").toList =
      if u.path.looksLikeHost then ['/', '.'] else [] := by
    split <;> rfl
  unfold text frontChars queryChars
  rw [hfragment]
  cases u.authority <;> cases u.query <;> simp [hdot]

theorem frontChars_file (host : String) (path : Path) :
    frontChars (fileAuthority host) path = '/' :: '/' :: host.toList := by
  rw [fileAuthority, frontChars, toList_authorityText, toList_userText]
  simp [numberChars]

theorem queryChars_endsPath (query : Option String) :
    ∀ c, (queryChars query).head? = some c → endsPath c = true := by
  cases query with
  | none => exact fun _ hc => by cases hc
  | some q =>
    rintro c ⟨⟩
    rfl

theorem queryChars_ends {special : Bool} (query : Option String) :
    Ends special (queryChars query) := by
  intro c hc
  rw [isInside, queryChars_endsPath query c hc, Bool.or_true, Bool.not_true]

theorem IsScheme.visible (h : IsScheme scheme) : ∀ c ∈ scheme.toList, 0x20 < c.toNat := by
  intro c hc
  have hpart := (h.parts c hc).1
  exact forall_ascii (P := fun c => isSchemePart c = true → 0x20 < c.toNat) (by decide)
    (toNat_of_isSchemePart hpart) hpart

/-- What stands behind the scheme is read, if no blanks are stripped from it. -/
theorem parse?_ofList (hscheme : IsScheme scheme) (hinner : ∀ c ∈ chars, 0x20 ≤ c.toNat)
    (hlast : ∀ c, chars.getLast? = some c → 0x20 < c.toNat) :
    parse? (String.ofList (scheme.toList ++ ':' :: chars)) =
      parseAfterScheme? none scheme chars := by
  have hstrip : strip (String.ofList (scheme.toList ++ ':' :: chars)) =
      scheme.toList ++ ':' :: chars := by
    refine strip_ofList (fun c hc => ?_) (fun c hc => ?_) fun c hc => ?_
    · rcases List.mem_append.1 hc with hc | hc
      · exact Nat.le_of_lt (hscheme.visible c hc)
      · rcases List.mem_cons.1 hc with rfl | hc
        · decide
        · exact hinner c hc
    · obtain ⟨first, rest, hfirst, -⟩ := hscheme.first
      rw [hfirst] at hc
      obtain rfl := Option.some.inj hc
      exact hscheme.visible first (hfirst ▸ List.mem_cons_self)
    · rw [List.getLast?_append, List.getLast?_cons] at hc
      cases hend : chars.getLast? with
      | none =>
        rw [hend] at hc
        obtain rfl := Option.some.inj hc
        decide
      | some last =>
        rw [hend] at hc
        obtain rfl := Option.some.inj hc
        exact hlast last hend
  unfold parse?
  rw [hstrip, hscheme.takeScheme?_append]

theorem parse?_visible (hscheme : IsScheme scheme) (hvisible : ∀ c ∈ chars, 0x20 < c.toNat) :
    parse? (String.ofList (scheme.toList ++ ':' :: chars)) =
      parseAfterScheme? none scheme chars :=
  parse?_ofList hscheme (fun c hc => Nat.le_of_lt (hvisible c hc))
    fun c hc => hvisible c (List.mem_of_getLast? hc)

theorem authority_spec (special : Bool) {a : Authority} (ha : a.WellFormed scheme) {c : Char}
    (hc : c ∈ a.text.toList) : isInside special c = true ∧ 0x20 < c.toNat := by
  rw [toList_authorityText, toList_userText, List.mem_append, List.mem_append] at hc
  rcases hc with hc | hc | hc
  · split at hc
    · cases hc
    · rcases List.mem_append.1 hc with hc | hc
      · exact (userChars_spec ha.username ha.password hc).imp_right And.right
      · obtain rfl := List.mem_singleton.1 hc
        cases special <;> decide
  · obtain ⟨chars, hhost⟩ := ha.host
    exact ((hostOf?_text hhost).spec special hc).imp_right And.right
  · exact (numberChars_spec hc).imp_right And.right

theorem segmentChars_spec {special : Bool} {segments : List String}
    (h : ∀ s ∈ segments, IsPiece special s) :
    ∀ c ∈ segmentChars segments, 0x20 < c.toNat ∧ c ≠ '#' := by
  intro c hc
  obtain ⟨s, hs, hc⟩ := List.mem_flatMap.1 hc
  rcases List.mem_cons.1 hc with rfl | hc
  · decide
  · have hkept := (h s hs c hc).1
    refine ⟨visible_of_notInPath hkept, ?_⟩
    rintro rfl
    exact absurd hkept (by decide)

theorem queryChars_spec {special : Bool} {query : Option String}
    (h : ∀ q, query = some q → Kept (escapedInQuery special) q) :
    ∀ c ∈ queryChars query, 0x20 < c.toNat ∧ c ≠ '#' := by
  intro c hc
  cases query with
  | none => cases hc
  | some q =>
    rcases List.mem_cons.1 hc with rfl | hc
    · decide
    · have hkept := h q rfl c hc
      refine ⟨visible_of_notInQuery hkept, ?_⟩
      rintro rfl
      revert hkept
      cases special <;> decide

/-- A host that is no name of another spelling is read back. -/
theorem hostOf?_regular {a : Authority} (ha : a.WellFormed u.scheme)
    (hauthority : u.authority = some a) (hregular : ¬u.Irregular) :
    hostOf? (isSpecialScheme u.scheme) a.host.toList = some a.host := by
  obtain ⟨chars, hhost⟩ := ha.host
  cases hspecial : isSpecialScheme u.scheme with
  | false =>
    rw [hspecial] at hhost
    exact otherHost?_read hhost
  | true =>
    rw [hspecial] at hhost
    rcases specialHost?_read hhost with hread | ⟨name, hname, hplain, hself⟩
    · exact hread
    · exact absurd (.name a name hauthority hspecial hname hplain hself) hregular

theorem ne_file_of_other (hother : isSpecialScheme scheme = false) : scheme ≠ "file" := by
  rintro rfl
  cases isSpecialScheme_file.symm.trans hother

theorem ends_segmentChars {special : Bool} (segments : List String) (query : Option String) :
    Ends special (segmentChars segments ++ queryChars query) := by
  cases segments with
  | nil => exact queryChars_ends query
  | cons s segments =>
    rintro c ⟨⟩
    cases special <;> rfl

theorem takePathAfterHost_segments {segments : List String} (query : Option String)
    (hweb : scheme ≠ "file") (hroute : IsRoute scheme segments) :
    takePathAfterHost scheme (segmentChars segments ++ queryChars query) =
      (.segments segments, queryChars query) := by
  obtain ⟨s, rest, rfl⟩ := List.exists_cons_of_ne_nil hroute.ne_nil
  have hslash : isSlash (isSpecialScheme scheme) '/' = true := rfl
  rw [segmentChars_cons, List.cons_append, List.append_assoc]
  unfold takePathAfterHost takePath
  dsimp only
  rw [hslash, if_pos rfl, takeRoute_segmentChars (queryChars_endsPath query) hroute
    (hroute.dots hweb) fun hfile => absurd hfile hweb]

theorem takePathAfterHost_nil (query : Option String) (hother : isSpecialScheme scheme = false) :
    takePathAfterHost scheme (queryChars query) = (.segments [], queryChars query) := by
  unfold takePathAfterHost
  dsimp only
  rw [hother]
  cases query <;> rfl

theorem parseAfterScheme?_other (hother : isSpecialScheme scheme = false) (chars : List Char) :
    parseAfterScheme? none scheme chars =
      match chars with
      | '/' :: '/' :: rest => afterSlashes? scheme rest
      | '/' :: rest =>
        some (assemble scheme none (takePath scheme [] rest).1 (takePath scheme [] rest).2)
      | chars => some (assemble scheme none (takePlainPath chars).1 (takePlainPath chars).2) := by
  have hweb := ne_file_of_other hother
  unfold parseAfterScheme?
  refine (if_neg ?_).trans (if_neg ?_)
  · rwa [beq_iff_eq]
  · rw [hother]
    exact Bool.false_ne_true

theorem parseAfterScheme?_slash (hother : isSpecialScheme scheme = false)
    (hchars : chars.head? ≠ some '/') : parseAfterScheme? none scheme ('/' :: chars) =
      some (assemble scheme none (takePath scheme [] chars).1 (takePath scheme [] chars).2) := by
  rw [parseAfterScheme?_other hother]
  split
  · rename_i rest heq
    obtain rfl : chars = '/' :: rest := (List.cons.inj heq).2
    exact absurd rfl hchars
  · rename_i rest _ heq
    obtain rfl : chars = rest := (List.cons.inj heq).2
    rfl
  · rename_i _ hslash
    exact absurd rfl (hslash chars)

theorem parseAfterScheme?_plain (hother : isSpecialScheme scheme = false)
    (hchars : chars.head? ≠ some '/') : parseAfterScheme? none scheme chars =
      some (assemble scheme none (takePlainPath chars).1 (takePlainPath chars).2) := by
  rw [parseAfterScheme?_other hother]
  split
  · exact absurd rfl hchars
  · exact absurd rfl hchars
  · rfl

section Forms

variable {a : Authority} {segments : List String} {query : Option String}
  (hscheme : IsScheme scheme)
  (hquery : ∀ q, query = some q → Kept (escapedInQuery (isSpecialScheme scheme)) q)

theorem Authority.WellFormed.text_ne_nil (ha : a.WellFormed scheme)
    (hspecial : isSpecialScheme scheme = true) : a.text.toList ≠ [] := by
  intro hnil
  rw [toList_authorityText, List.append_eq_nil_iff, List.append_eq_nil_iff] at hnil
  have hhost := ha.hostless (String.toList_eq_nil_iff.1 hnil.2.1)
  cases hspecial.symm.trans hhost.1

include hscheme hquery

/-- Behind two slashes an authority, segments and a query are read. -/
theorem parse?_authority (ha : a.WellFormed scheme)
    (hroute : segments = [] ∨ IsRoute scheme segments) :
    parse? (String.ofList (scheme.toList ++ ':' :: '/' :: '/' ::
      (a.text.toList ++ (segmentChars segments ++ queryChars query)))) =
        parseAfterScheme? none scheme
          ('/' :: '/' :: (a.text.toList ++ (segmentChars segments ++ queryChars query))) := by
  have hpieces : ∀ s ∈ segments, IsPiece (isSpecialScheme scheme) s := by
    rcases hroute with rfl | hroute
    · exact List.forall_mem_nil _
    · exact hroute.pieces
  refine parse?_visible hscheme fun c hc => ?_
  simp only [List.mem_cons, List.mem_append] at hc
  rcases hc with rfl | rfl | hc | hc | hc
  · decide
  · decide
  · exact (authority_spec true ha hc).2
  · exact (segmentChars_spec hpieces c hc).1
  · exact (queryChars_spec hquery c hc).1

theorem parse?_web (hspecial : isSpecialScheme scheme = true) (hweb : scheme ≠ "file")
    (ha : a.WellFormed scheme)
    (hhost : hostOf? (isSpecialScheme scheme) a.host.toList = some a.host)
    (hroute : IsRoute scheme segments) :
    parse? (String.ofList (scheme.toList ++ ':' :: '/' :: '/' ::
      (a.text.toList ++ (segmentChars segments ++ queryChars query)))) =
        some ⟨scheme, some a, .segments segments, query, none⟩ := by
  have hdrop :
      ('/' :: '/' :: (a.text.toList ++ (segmentChars segments ++ queryChars query))).dropWhile
        (fun c => c == '/' || c == '\\') =
        a.text.toList ++ (segmentChars segments ++ queryChars query) := by
    obtain ⟨first, rest, htext⟩ := List.exists_cons_of_ne_nil (ha.text_ne_nil hspecial)
    have hfirst := (authority_spec true ha (htext ▸ List.mem_cons_self)).1
    rw [htext]
    refine dropWhile_append_stop (l := ['/', '/']) (forall_mem_of_all (by decide)) fun c hc => ?_
    obtain rfl := Option.some.inj hc
    rw [isInside, Bool.not_eq_true', Bool.or_eq_false_iff] at hfirst
    simpa [isSlash] using hfirst.1
  have hnotFile : ¬(scheme == "file") = true := by rwa [beq_iff_eq]
  rw [parse?_authority hscheme hquery ha (.inr hroute)]
  unfold parseAfterScheme?
  dsimp only
  rw [if_neg hnotFile, if_pos hspecial, hdrop,
    afterSlashes?_text ha hhost (ends_segmentChars segments query),
    takePathAfterHost_segments query hweb hroute, assemble_queryChars hquery]

theorem parse?_other (hother : isSpecialScheme scheme = false) (ha : a.WellFormed scheme)
    (hhost : hostOf? (isSpecialScheme scheme) a.host.toList = some a.host)
    (hroute : segments = [] ∨ IsRoute scheme segments) :
    parse? (String.ofList (scheme.toList ++ ':' :: '/' :: '/' ::
      (a.text.toList ++ (segmentChars segments ++ queryChars query)))) =
        some ⟨scheme, some a, .segments segments, query, none⟩ := by
  have hweb := ne_file_of_other hother
  have hpath : takePathAfterHost scheme (segmentChars segments ++ queryChars query) =
      (.segments segments, queryChars query) := by
    rcases hroute with rfl | hroute
    · exact takePathAfterHost_nil query hother
    · exact takePathAfterHost_segments query hweb hroute
  rw [parse?_authority hscheme hquery ha hroute, parseAfterScheme?_other hother]
  change afterSlashes? scheme (a.text.toList ++ (segmentChars segments ++ queryChars query)) = _
  rw [afterSlashes?_text ha hhost (ends_segmentChars segments query), hpath,
    assemble_queryChars hquery]

theorem parse?_rooted (hother : isSpecialScheme scheme = false) (hroute : IsRoute scheme segments) :
    parse? (String.ofList (scheme.toList ++ ':' :: (frontChars none (.segments segments) ++
      (segmentChars segments ++ queryChars query)))) =
        some ⟨scheme, none, .segments segments, query, none⟩ := by
  have hweb := ne_file_of_other hother
  have hvisible : ∀ c ∈ frontChars none (.segments segments) ++
      (segmentChars segments ++ queryChars query), 0x20 < c.toNat := by
    intro c hc
    rw [List.mem_append, List.mem_append] at hc
    rcases hc with hc | hc | hc
    · have hdot : c ∈ ['/', '.'] := by
        unfold frontChars at hc
        dsimp only at hc
        split at hc
        · exact hc
        · cases hc
      exact forall_mem_of_all (P := fun c => 0x20 < c.toNat) (by decide) c hdot
    · exact (segmentChars_spec hroute.pieces c hc).1
    · exact (queryChars_spec hquery c hc).1
  have hassemble : assemble scheme none (.segments segments) (queryChars query) =
      ⟨scheme, none, .segments segments, query, none⟩ := assemble_queryChars hquery
  rw [parse?_visible hscheme hvisible]
  obtain ⟨s, rest, rfl⟩ := List.exists_cons_of_ne_nil hroute.ne_nil
  -- A path that begins with two slashes is written behind a dot, which reading drops again.
  by_cases hhost : (Path.segments (s :: rest)).looksLikeHost = true
  · have hfront : frontChars none (.segments (s :: rest)) = ['/', '.'] := if_pos hhost
    have hdot : (['.'] ++ (segmentChars (s :: rest) ++ queryChars query)).head? ≠ some '/' :=
      fun hhead => absurd (Option.some.inj hhead) (by decide)
    rw [hfront, List.cons_append, parseAfterScheme?_slash hother hdot, takePath,
      List.singleton_append, takeRoute_dot (queryChars_endsPath query) hweb hroute]
    exact congrArg some hassemble
  · have hfront : frontChars none (.segments (s :: rest)) = [] := if_neg hhost
    have hhead : (s.toList ++ (segmentChars rest ++ queryChars query)).head? ≠ some '/' := by
      intro hhead
      cases hs : s.toList with
      | cons c chars =>
        rw [hs] at hhead
        obtain rfl : c = '/' := Option.some.inj hhead
        have hslash := (hroute.pieces s List.mem_cons_self '/' (hs ▸ List.mem_cons_self)).2
        cases hslash
      | nil =>
        rw [hs, List.nil_append] at hhead
        obtain rfl : s = "" := String.toList_eq_nil_iff.1 hs
        cases rest with
        | nil => exact absurd (queryChars_endsPath query '/' hhead) (by decide)
        | cons t rest => exact hhost rfl
    rw [hfront, List.nil_append, segmentChars_cons, List.cons_append, List.append_assoc,
      parseAfterScheme?_slash hother hhead, takePath,
      takeRoute_segmentChars (queryChars_endsPath query) hroute (hroute.dots hweb)
        fun hfile => absurd hfile hweb]
    exact congrArg some hassemble

theorem parse?_plain {text : String} (hother : isSpecialScheme scheme = false)
    (hkept : Kept isControl text) (hslash : text.toList.head? ≠ some '/')
    (hends : ∀ c ∈ text.toList, endsPath c = false)
    (hblank : query = none → text.toList.getLast? ≠ some ' ') :
    parse? (String.ofList (scheme.toList ++ ':' :: (text.toList ++ queryChars query))) =
      some ⟨scheme, none, .plain text, query, none⟩ := by
  have hinner : ∀ c ∈ text.toList ++ queryChars query, 0x20 ≤ c.toNat := by
    intro c hc
    rcases List.mem_append.1 hc with hc | hc
    · have hcontrol := hkept c hc
      rw [isControl, Bool.or_eq_false_iff, decide_eq_false_iff_not] at hcontrol
      exact Nat.le_of_not_lt hcontrol.1
    · exact Nat.le_of_lt ((queryChars_spec hquery c hc).1)
  have hlast : ∀ c, (text.toList ++ queryChars query).getLast? = some c → 0x20 < c.toNat := by
    intro c hc
    rw [List.getLast?_append] at hc
    cases query with
    | some q =>
      obtain ⟨last, hlast⟩ : ∃ last, (queryChars (some q)).getLast? = some last :=
        ⟨_, List.getLast?_cons⟩
      rw [hlast] at hc
      obtain rfl := Option.some.inj hc
      exact (queryChars_spec hquery last (List.mem_of_getLast? hlast)).1
    | none =>
      have hc : text.toList.getLast? = some c := hc
      refine visible_of_not_control (hkept c (List.mem_of_getLast? hc)) ?_
      rintro rfl
      exact hblank rfl hc
  have hhead : (text.toList ++ queryChars query).head? ≠ some '/' := by
    intro hhead
    cases htext : text.toList with
    | cons c rest => exact hslash (by rwa [htext] at hhead ⊢)
    | nil =>
      rw [htext, List.nil_append] at hhead
      exact absurd (queryChars_endsPath query '/' hhead) (by decide)
  have hpath : takePlainPath (text.toList ++ queryChars query) =
      (.plain text, queryChars query) := by
    have hinside : ∀ c ∈ text.toList, (!endsPath c) = true := fun c hc => by rw [hends c hc]; rfl
    have hstop : ∀ c, (queryChars query).head? = some c → (!endsPath c) = false :=
      fun c hc => by rw [queryChars_endsPath query c hc]; rfl
    unfold takePlainPath
    rw [takeWhile_append_stop hinside hstop, dropWhile_append_stop hinside hstop, hkept.escape_eq]
  rw [parse?_ofList hscheme hinner hlast, parseAfterScheme?_plain hother hhead, hpath,
    assemble_queryChars hquery]

end Forms

section File

variable {host : String} {segments : List String} {query : Option String}

theorem IsHostText.not_isDrive (h : IsHostText host) : isDrive host.toList = false := by
  by_contra hdrive
  rw [Bool.not_eq_false] at hdrive
  unfold isDrive at hdrive
  split at hdrive
  · rename_i letter mark hhost
    rw [Bool.and_eq_true, Bool.or_eq_true, beq_iff_eq, beq_iff_eq] at hdrive
    cases h with
    | bracketed inner hbracket =>
      rw [hbracket] at hhost
      obtain rfl := (List.cons.inj hhost).1
      exact absurd hdrive.1 (by decide)
    | plain h =>
      have hend := (h mark (hhost ▸ List.mem_cons_of_mem _ List.mem_cons_self)).2
      rcases hdrive.2 with rfl | rfl <;> exact hend (by decide)
  · cases hdrive

theorem fileAfterSlashes?_text (hhost : IsFileHost host) (hroute : IsRoute "file" segments)
    (hread : host ≠ "" → specialHost? host.toList = some host)
    (hdrive : host ≠ "" → ∀ first rest, segments = first :: rest →
      beginsWithDrive first.toList = false)
    (hdots : ∀ s ∈ segments, isDots s = false) :
    fileAfterSlashes? (host.toList ++ (segmentChars segments ++ queryChars query)) =
      some (assemble "file" (fileAuthority host) (.segments segments) (queryChars query)) := by
  have hends := queryChars_endsPath query
  by_cases hempty : host = ""
  · subst hempty
    obtain ⟨s, rest, rfl⟩ := List.exists_cons_of_ne_nil hroute.ne_nil
    have htake : (segmentChars (s :: rest) ++ queryChars query).takeWhile
        (fun c => !(isSlash true c || endsPath c)) = [] := rfl
    unfold fileAfterSlashes? takePath
    dsimp only
    rw [String.toList_empty, List.nil_append, htake, if_pos (.inr rfl),
      takeRoute_file hends hroute hdots]
    rfl
  · obtain ⟨hlocal, chars, hchars⟩ := hhost.resolve_left hempty
    have htext := specialHost?_text hchars
    have hinside : ∀ c ∈ host.toList, isInside true c = true := fun c hc => (htext.spec true hc).1
    have hstop : Ends true (segmentChars segments ++ queryChars query) :=
      ends_segmentChars segments query
    obtain ⟨s, rest, rfl⟩ := List.exists_cons_of_ne_nil hroute.ne_nil
    have htake : (host.toList ++ (segmentChars (s :: rest) ++ queryChars query)).takeWhile
        (fun c => !(isSlash true c || endsPath c)) = host.toList :=
      takeWhile_append_stop hinside hstop
    have hdrop : (host.toList ++ (segmentChars (s :: rest) ++ queryChars query)).dropWhile
        (fun c => !(isSlash true c || endsPath c)) =
          '/' :: (s.toList ++ (segmentChars rest ++ queryChars query)) := by
      rw [← List.append_assoc s.toList]
      exact dropWhile_append_stop hinside hstop
    have hnone : ¬(isDrive host.toList = true ∨ host.toList.isEmpty = true) := by
      rw [htext.not_isDrive, List.isEmpty_iff, String.toList_eq_nil_iff]
      simpa using hempty
    have hother : ¬(host == "localhost") = true := by rwa [beq_iff_eq]
    have hpath := takeRoute_segmentChars hends hroute hdots fun _ => hdrive hempty s rest rfl
    unfold fileAfterSlashes?
    dsimp only
    rw [htake, hdrop, if_neg hnone, hread hempty]
    simp only [Option.bind_eq_bind, Option.bind_some]
    rw [if_neg hother]
    change some (assemble "file" (fileAuthority (if (takeRoute "file" []
        (s.toList ++ (segmentChars rest ++ queryChars query))).1.namesDrive then "" else host))
      (.segments (takeRoute "file" []
        (s.toList ++ (segmentChars rest ++ queryChars query))).1.segments)
      (takeRoute "file" [] (s.toList ++ (segmentChars rest ++ queryChars query))).2) = _
    rw [hpath]
    rfl

theorem parse?_file (hscheme : IsScheme "file")
    (hquery : ∀ q, query = some q → Kept (escapedInQuery (isSpecialScheme "file")) q)
    (hhost : IsFileHost host) (hroute : IsRoute "file" segments)
    (hread : host ≠ "" → specialHost? host.toList = some host)
    (hdrive : host ≠ "" → ∀ first rest, segments = first :: rest →
      beginsWithDrive first.toList = false)
    (hdots : ∀ s ∈ segments, isDots s = false) :
    parse? (String.ofList ("file".toList ++ ':' :: '/' :: '/' ::
      (host.toList ++ (segmentChars segments ++ queryChars query)))) =
        some ⟨"file", fileAuthority host, .segments segments, query, none⟩ := by
  have hvisible : ∀ c ∈ '/' :: '/' :: (host.toList ++ (segmentChars segments ++ queryChars query)),
      0x20 < c.toNat := by
    intro c hc
    simp only [List.mem_cons, List.mem_append] at hc
    rcases hc with rfl | rfl | hc | hc | hc
    · decide
    · decide
    · rcases hhost with rfl | ⟨-, chars, hchars⟩
      · cases hc
      · exact ((specialHost?_text hchars).spec true hc).2.2
    · exact (segmentChars_spec hroute.pieces c hc).1
    · exact (queryChars_spec hquery c hc).1
  rw [parse?_visible hscheme hvisible, ← assemble_queryChars hquery,
    ← fileAfterSlashes?_text hhost hroute hread hdrive hdots]
  rfl

end File

/-- A well-formed URL is read from its text, unless it is irregular. -/
theorem parse?_text (h : u.WellFormed) (hregular : ¬u.Irregular) (hfragment : u.fragment = none) :
    parse? u.text = some u := by
  have htext := toList_text u hfragment
  have hhost {a : Authority} (ha : a.WellFormed u.scheme) (hauthority : u.authority = some a) :=
    hostOf?_regular ha hauthority hregular
  obtain ⟨scheme, authority, path, query, fragment⟩ := u
  obtain ⟨hscheme, hform, hquery⟩ := h
  dsimp only at hscheme hform hquery htext hfragment hhost
  subst hfragment
  rw [← String.ofList_toList (s := text _), htext]
  cases hform with
  | web hspecial hweb ha hroute =>
    rw [toList_text_segments]
    exact parse?_web hscheme hquery hspecial hweb ha (hhost ha rfl) hroute
  | other hother ha hroute =>
    rw [toList_text_segments]
    exact parse?_other hscheme hquery hother ha (hhost ha rfl) hroute
  | rooted hother hroute =>
    rw [toList_text_segments]
    exact parse?_rooted hscheme hquery hother hroute
  | plain hother hkept hslash hends hblank =>
    exact parse?_plain hscheme hquery hother hkept hslash hends hblank
  | @file host segments query hfile hlocal hroute =>
    subst hfile
    have hread (hne : host ≠ "") : specialHost? host.toList = some host := by
      obtain ⟨-, chars, hchars⟩ := hlocal.resolve_left hne
      rcases specialHost?_read hchars with hread | ⟨name, hname, hplain, hself⟩
      · exact hread
      · exact absurd (.name _ name rfl isSpecialScheme_file hname hplain hself) hregular
    have hdrive (hne : host ≠ "") (first : String) (rest : List String)
        (hsegments : segments = first :: rest) : beginsWithDrive first.toList = false := by
      by_contra hdrive
      rw [Bool.not_eq_false] at hdrive
      exact hregular (.drive host first rest rfl rfl hne (congrArg Path.segments hsegments) hdrive)
    have hdots : ∀ s ∈ segments, isDots s = false := by
      intro s hs
      by_contra hdots
      rw [Bool.not_eq_false] at hdots
      exact hregular (.dots segments s rfl rfl hs hdots)
    rw [frontChars_file, toList_text_segments]
    exact parse?_file hscheme hquery hlocal hroute hread hdrive hdots

end JsonTyping.Url
