import JsonTyping.Proofs.UrlHosts

/-!
# Authorities of URLs

The user, the password, the host and the number behind the host are separated by characters that do
not occur in them. So an authority that is written is taken apart again into the same parts, one
after the other (`Url.takeUser_text`, `Url.takeHost_text`, `Url.takePortNumber?_text`), and reading
leaves only such authorities (`Url.afterSlashes?_cases`).
-/

namespace JsonTyping.Url

variable {special bracket : Bool} {c : Char} {l after : List Char} {host : String}

/-- Whether a character belongs to an authority and does not end it. -/
def isInside (special : Bool) (c : Char) : Bool := !(isSlash special c || endsPath c)

/-- What follows an authority: the path, the query, the fragment, or nothing. -/
def Ends (special : Bool) (after : List Char) : Prop :=
  ∀ c, after.head? = some c → isInside special c = false

theorem eq_of_not_isInside (h : isInside special c = false) :
    c = '/' ∨ c = '\\' ∨ c = '?' ∨ c = '#' := by
  rw [isInside, Bool.not_eq_false', Bool.or_eq_true, isSlash, endsPath, Bool.or_eq_true,
    Bool.or_eq_true, Bool.and_eq_true] at h
  simp only [beq_iff_eq] at h
  tauto

theorem isInside_of_keptUser (h : escapedInUserInfo c = false) : isInside special c = true := by
  by_contra hc
  rw [Bool.not_eq_true] at hc
  rcases eq_of_not_isInside hc with rfl | rfl | rfl | rfl <;> cases h

theorem isInside_of_not_hostEnds (h : c ∉ hostEnds) : isInside special c = true := by
  by_contra hc
  rw [Bool.not_eq_true] at hc
  rcases eq_of_not_isInside hc with rfl | rfl | rfl | rfl <;> exact h (by decide)

theorem bracketChars_spec : ∀ c ∈ ':' :: '[' :: ']' :: hexDigits,
    isInside special c = true ∧ c ≠ '@' ∧ 0x20 < c.toNat :=
  forall_mem_of_all (by cases special <;> decide)

theorem mem_bracketed {inner : List Char} (hinner : ∀ c ∈ inner, c = ':' ∨ c ∈ hexDigits)
    (hc : c ∈ '[' :: (inner ++ [']'])) : c ∈ ':' :: '[' :: ']' :: hexDigits := by
  simp only [List.mem_cons, List.mem_append, List.not_mem_nil, or_false] at hc ⊢
  rcases hc with hc | hc | hc
  · exact .inr (.inl hc)
  · exact (hinner c hc).imp id fun hc => .inr (.inr hc)
  · exact .inr (.inr (.inl hc))

theorem IsHostText.spec (special : Bool) (h : IsHostText host) (hc : c ∈ host.toList) :
    isInside special c = true ∧ c ≠ '@' ∧ 0x20 < c.toNat := by
  cases h with
  | bracketed inner h hinner =>
    rw [h] at hc
    exact bracketChars_spec c (mem_bracketed hinner hc)
  | plain h =>
    obtain ⟨hvisible, hend⟩ := h c hc
    refine ⟨isInside_of_not_hostEnds hend, ?_, hvisible⟩
    rintro rfl
    exact hend (by decide)

/-- What follows a host: the number behind it, or what follows an authority. -/
def EndsHost (special : Bool) (after : List Char) : Prop :=
  ∀ c, after.head? = some c → c = ':' ∨ isInside special c = false

theorem takeHost_stop (hafter : EndsHost special after) : takeHost special false after = ([], after)
    := by
  cases after with
  | nil => rfl
  | cons c rest =>
    have hstop : (c == ':' && !false || isSlash special c || endsPath c) = true := by
      rcases hafter c rfl with rfl | hc
      · rfl
      · rw [isInside, Bool.not_eq_false'] at hc
        rw [Bool.or_assoc, hc, Bool.or_true]
    rw [takeHost, if_pos hstop]

theorem takeHost_plain (hl : ∀ c ∈ l, c ∉ hostEnds) (hafter : EndsHost special after) :
    takeHost special false (l ++ after) = (l, after) := by
  induction l with
  | nil => exact takeHost_stop hafter
  | cons c l ih =>
    have hc := hl c List.mem_cons_self
    have hgo : ¬(c == ':' && !false || isSlash special c || endsPath c) = true := by
      have hinside : isInside special c = true := isInside_of_not_hostEnds hc
      rw [isInside, Bool.not_eq_true'] at hinside
      rw [Bool.or_assoc, hinside, Bool.or_false, Bool.not_false, Bool.and_true, beq_iff_eq]
      rintro rfl
      exact hc (by decide)
    have hopen : (c == '[') = false := beq_eq_false_iff_ne.2 (by rintro rfl; exact hc (by decide))
    have hclose : (c == ']') = false := beq_eq_false_iff_ne.2 (by rintro rfl; exact hc (by decide))
    rw [List.cons_append, takeHost, if_neg hgo]
    dsimp only
    rw [hopen, hclose, if_neg Bool.false_ne_true, if_neg Bool.false_ne_true,
      ih fun d hd => hl d (List.mem_cons_of_mem c hd)]

theorem takeHost_goesOn (special : Bool) : ∀ c ∈ ':' :: hexDigits,
    ¬(c == ':' && !true || isSlash special c || endsPath c) = true ∧
      (c == '[') = false ∧ (c == ']') = false :=
  forall_mem_of_all (by cases special <;> decide)

/-- Inside of brackets a colon belongs to the host. -/
theorem takeHost_inner {inner : List Char} (hinner : ∀ c ∈ inner, c = ':' ∨ c ∈ hexDigits)
    (hafter : EndsHost special after) :
    takeHost special true (inner ++ ']' :: after) = (inner ++ [']'], after) := by
  induction inner with
  | nil =>
    have hclose : takeHost special true (']' :: after) =
        (']' :: (takeHost special false after).1, (takeHost special false after).2) := by
      cases special <;> rfl
    rw [List.nil_append, hclose, takeHost_stop hafter]
    rfl
  | cons c inner ih =>
    have hc : c ∈ ':' :: hexDigits := List.mem_cons.2 (hinner c List.mem_cons_self)
    have hgo := takeHost_goesOn special c hc
    rw [List.cons_append, takeHost, if_neg hgo.1]
    dsimp only
    rw [hgo.2.1, hgo.2.2, if_neg Bool.false_ne_true, if_neg Bool.false_ne_true,
      ih fun d hd => hinner d (List.mem_cons_of_mem c hd)]
    rfl

theorem takeHost_text (h : IsHostText host) (hafter : EndsHost special after) :
    takeHost special false (host.toList ++ after) = (host.toList, after) := by
  cases h with
  | bracketed inner h hinner =>
    have hopen : takeHost special false ('[' :: (inner ++ ']' :: after)) =
        ('[' :: (takeHost special true (inner ++ ']' :: after)).1,
          (takeHost special true (inner ++ ']' :: after)).2) := by
      cases special <;> rfl
    rw [h, List.cons_append, List.cons_append, List.append_assoc, List.singleton_append, hopen,
      takeHost_inner hinner hafter]
  | plain h => exact takeHost_plain (fun c hc => (h c hc).2) hafter

/-- A number as it is written behind a host. -/
def numberChars : Option Nat → List Char
  | some n => ':' :: (toString n).toList
  | none => []

theorem isInside_digit (h : Text.isAsciiDigit c = true) : isInside special c = true ∧
    c ≠ '@' ∧ 0x20 < c.toNat := by
  have hpart : isSchemePart c = true := by
    rw [isSchemePart]
    simp [h]
  exact forall_ascii (P := fun c => Text.isAsciiDigit c = true → isInside special c = true ∧
    c ≠ '@' ∧ 0x20 < c.toNat) (by cases special <;> decide) (toNat_of_isSchemePart hpart) h

theorem Ends.head_ne_colon (hafter : Ends special after) : after.head? ≠ some ':' := by
  intro hcolon
  have hstop := hafter ':' hcolon
  revert hstop
  cases special <;> decide

/-- Whether the digits of a number can end here. -/
def endsNumber (after : List Char) : Bool :=
  match after with
  | [] => true
  | c :: _ => isSlash true c || endsPath c

theorem Ends.endsNumber (hafter : Ends special after) : endsNumber after = true := by
  cases after with
  | nil => rfl
  | cons c rest =>
    rcases eq_of_not_isInside (hafter c rfl) with rfl | rfl | rfl | rfl <;> rfl

theorem takePortNumber?_colon (scheme : String) (rest : List Char) :
    takePortNumber? scheme (':' :: rest) =
      if (!endsNumber (rest.dropWhile Text.isAsciiDigit) ||
          decide (65535 < Text.decimalValue (rest.takeWhile Text.isAsciiDigit))) = true then none
      else if ((rest.takeWhile Text.isAsciiDigit).isEmpty ||
          defaultPortNumber? scheme == some (Text.decimalValue (rest.takeWhile Text.isAsciiDigit)))
          = true then some (none, rest.dropWhile Text.isAsciiDigit)
      else some (some (Text.decimalValue (rest.takeWhile Text.isAsciiDigit)),
        rest.dropWhile Text.isAsciiDigit) := rfl

theorem takePortNumber?_text {scheme : String} {portNumber : Option Nat}
    (hnumber : ∀ n, portNumber = some n → n ≤ 65535 ∧ defaultPortNumber? scheme ≠ some n)
    (hafter : Ends special after) :
    takePortNumber? scheme (numberChars portNumber ++ after) = some (portNumber, after) := by
  cases portNumber with
  | none =>
    have hcolon := hafter.head_ne_colon
    rw [numberChars, List.nil_append]
    unfold takePortNumber?
    split
    · exact absurd rfl hcolon
    · rfl
  | some n =>
    obtain ⟨hsmall, hown⟩ := hnumber n rfl
    have hdigits : ∀ c ∈ (toString n).toList, Text.isAsciiDigit c = true :=
      fun c hc => Text.isAsciiDigit_of_mem_toString hc
    have hstop : ∀ c, after.head? = some c → Text.isAsciiDigit c = false := by
      intro c hc
      rw [← Bool.not_eq_true]
      intro hdigit
      cases (hafter c hc).symm.trans (isInside_digit hdigit).1
    have htake := takeWhile_append_stop hdigits hstop
    have hdrop := dropWhile_append_stop hdigits hstop
    have hempty : (toString n).toList.isEmpty = false :=
      List.isEmpty_eq_false_iff.2 (Text.toList_toString_ne_nil n)
    have hother : (defaultPortNumber? scheme == some n) = false := beq_eq_false_iff_ne.2 hown
    have hlarge : decide (65535 < n) = false := decide_eq_false (Nat.not_lt_of_le hsmall)
    rw [numberChars, List.cons_append, takePortNumber?_colon, htake, hdrop,
      Text.decimalValue_toString, hempty, hother, hafter.endsNumber, hlarge]
    rfl

theorem takePortNumber?_spec {scheme : String} {portNumber : Option Nat}
    (h : takePortNumber? scheme l = some (portNumber, after)) :
    ∀ n, portNumber = some n → n ≤ 65535 ∧ defaultPortNumber? scheme ≠ some n := by
  rintro n rfl
  unfold takePortNumber? at h
  split at h
  · rename_i rest
    change takePortNumber? scheme (':' :: rest) = _ at h
    rw [takePortNumber?_colon] at h
    split at h
    · cases h
    · rename_i hvalid
      split at h
      · cases h
      · rename_i hown
        obtain ⟨hn, -⟩ := Prod.mk.inj (Option.some.inj h)
        rw [Option.some.inj hn] at hvalid hown
        simp only [Bool.or_eq_true, not_or, beq_iff_eq, decide_eq_true_eq] at hvalid hown
        exact ⟨by omega, hown.2⟩
  · cases h

theorem numberChars_spec {portNumber : Option Nat} (hc : c ∈ numberChars portNumber) :
    isInside special c = true ∧ c ≠ '@' ∧ 0x20 < c.toNat := by
  cases portNumber with
  | none => cases hc
  | some n =>
    rcases List.mem_cons.1 hc with rfl | hc
    · cases special <;> decide
    · exact isInside_digit (Text.isAsciiDigit_of_mem_toString hc)

theorem takePortNumber?_none {scheme : String} {portNumber : Option Nat} (hl : l.head? ≠ some ':')
    (h : takePortNumber? scheme l = some (portNumber, after)) : portNumber = none := by
  unfold takePortNumber? at h
  split at h
  · exact absurd rfl hl
  · exact (Prod.mk.inj (Option.some.inj h)).1.symm

/-! ### Users and authorities -/

/-- The user and the password as they are written, without the sign behind them. -/
def userChars (username password : String) : List Char :=
  username.toList ++ if password = "" then [] else ':' :: password.toList

theorem toList_userText (a : Authority) : a.userText.toList =
    if a.username = "" ∧ a.password = "" then [] else userChars a.username a.password ++ ['@'] := by
  unfold Authority.userText userChars
  simp only [String.isEmpty_iff]
  split
  · rfl
  · rw [String.toList_append, String.toList_append]
    split
    · rfl
    · rw [String.toList_append]
      rfl

theorem userChars_spec {username password : String} (husername : Kept escapedInUserInfo username)
    (hpassword : Kept escapedInUserInfo password) (hc : c ∈ userChars username password) :
    isInside special c = true ∧ c ≠ '@' ∧ 0x20 < c.toNat := by
  have hkept (c : Char) (hc : escapedInUserInfo c = false) :
      isInside special c = true ∧ c ≠ '@' ∧ 0x20 < c.toNat := by
    refine ⟨isInside_of_keptUser hc, ?_, visible_of_notInUserInfo hc⟩
    rintro rfl
    cases hc
  rw [userChars, List.mem_append] at hc
  rcases hc with hc | hc
  · exact hkept c (husername c hc)
  · split at hc
    · cases hc
    · rcases List.mem_cons.1 hc with rfl | hc
      · cases special <;> decide
      · exact hkept c (hpassword c hc)

/-- The user is taken back from the characters in front of the colon, the password from those behind
it. -/
theorem splitUser {username : String} (password : String)
    (husername : Kept escapedInUserInfo username) :
    (userChars username password).takeWhile (· != ':') = username.toList ∧
      ((userChars username password).dropWhile (· != ':')).drop 1 = password.toList := by
  have hcolon : ∀ c ∈ username.toList, (c != ':') = true := by
    intro c hc
    rw [bne_iff_ne]
    rintro rfl
    cases husername _ hc
  have hstop : ∀ c, (if password = "" then [] else ':' :: password.toList).head? = some c →
      (c != ':') = false := by
    intro c hc
    split at hc
    · cases hc
    · obtain rfl := Option.some.inj hc
      rfl
  rw [userChars, takeWhile_append_stop hcolon hstop, dropWhile_append_stop hcolon hstop]
  refine ⟨rfl, ?_⟩
  split
  · rename_i hempty
    rw [hempty]
    rfl
  · rfl

theorem takeUser_eq (chars : List Char) : takeUser special chars =
    let authority := chars.takeWhile (isInside special)
    if !authority.contains '@' then some (("", ""), chars)
    else
      let hostPart := (authority.reverse.takeWhile (· != '@')).reverse
      let userPart := authority.take (authority.length - hostPart.length - 1)
      let rest := hostPart ++ chars.dropWhile (isInside special)
      if userPart.isEmpty then
        match rest with
        | c :: _ => if isSlash special c || endsPath c then none else some (("", ""), rest)
        | [] => some (("", ""), rest)
      else
        let name := userPart.takeWhile (· != ':')
        let password := (userPart.dropWhile (· != ':')).drop 1
        some ((escape escapedInUserInfo name, escape escapedInUserInfo password), rest) := rfl

theorem userChars_ne_nil {username password : String} (h : ¬(username = "" ∧ password = "")) :
    userChars username password ≠ [] := by
  intro hnil
  rw [userChars, List.append_eq_nil_iff] at hnil
  refine h ⟨String.toList_eq_nil_iff.1 hnil.1, ?_⟩
  by_contra hpassword
  rw [if_neg hpassword] at hnil
  cases hnil.2

theorem takeUser_text {a : Authority} (husername : Kept escapedInUserInfo a.username)
    (hpassword : Kept escapedInUserInfo a.password)
    (hl : ∀ c ∈ l, isInside special c = true ∧ c ≠ '@') (hafter : Ends special after) :
    takeUser special (a.userText.toList ++ (l ++ after)) =
      some ((a.username, a.password), l ++ after) := by
  have hsign : ∀ c ∈ l, (c != '@') = true := fun c hc => bne_iff_ne.2 (hl c hc).2
  rw [toList_userText, takeUser_eq]
  split
  · rename_i hnone
    have hcontains : l.contains '@' = false := by
      rw [List.contains_eq_mem, decide_eq_false_iff_not]
      exact fun hc => (hl '@' hc).2 rfl
    dsimp only
    rw [List.nil_append, takeWhile_append_stop (fun c hc => (hl c hc).1) hafter, hcontains,
      hnone.1, hnone.2]
    rfl
  · rename_i hsome
    have hne := userChars_ne_nil hsome
    obtain ⟨hname, hword⟩ := splitUser a.password husername
    have huser : ∀ c ∈ userChars a.username a.password ++ '@' :: l,
        isInside special c = true := by
      intro c hc
      rcases List.mem_append.1 hc with hc | hc
      · exact (userChars_spec husername hpassword hc).1
      · rcases List.mem_cons.1 hc with rfl | hc
        · cases special <;> rfl
        · exact (hl c hc).1
    -- Neither the host nor the number has the sign, so the last one ends the user.
    generalize userChars a.username a.password = user at hne hname hword huser ⊢
    have happend : user ++ ['@'] ++ (l ++ after) = (user ++ '@' :: l) ++ after := by simp
    have hcontains : (user ++ '@' :: l).contains '@' = true := by simp
    have hhost : ((user ++ '@' :: l).reverse.takeWhile (· != '@')).reverse = l := by
      have hreverse : (user ++ '@' :: l).reverse = l.reverse ++ '@' :: user.reverse := by simp
      rw [hreverse, takeWhile_append_stop (fun c hc => hsign c (List.mem_reverse.1 hc)),
        List.reverse_reverse]
      rintro c ⟨⟩
      rfl
    have htake : (user ++ '@' :: l).take ((user ++ '@' :: l).length - l.length - 1) = user := by
      have hlength : (user ++ '@' :: l).length - l.length - 1 = user.length := by
        rw [List.length_append, List.length_cons]
        omega
      rw [hlength, List.take_left]
    have hempty : ¬user.isEmpty = true := by rwa [List.isEmpty_iff]
    dsimp only
    rw [happend, takeWhile_append_stop huser hafter, dropWhile_append_stop huser hafter, hcontains,
      hhost, htake, Bool.not_true, if_neg Bool.false_ne_true, if_neg hempty, hname, hword,
      husername.escape_eq, hpassword.escape_eq]

/-- The host of a text, in the form that the scheme asks for. -/
def hostOf? (special : Bool) (chars : List Char) : Option String :=
  if special then specialHost? chars else otherHost? chars

/-- The authorities that reading leaves. Without a host there is nothing else. -/
structure Authority.WellFormed (scheme : String) (a : Authority) : Prop where
  username : Kept escapedInUserInfo a.username
  password : Kept escapedInUserInfo a.password
  host : ∃ chars, hostOf? (isSpecialScheme scheme) chars = some a.host
  hostless : a.host = "" → isSpecialScheme scheme = false ∧ a.username = "" ∧ a.password = "" ∧
    a.portNumber = none
  number : ∀ n, a.portNumber = some n → n ≤ 65535 ∧ defaultPortNumber? scheme ≠ some n

theorem hostOf?_text (h : hostOf? special l = some host) : IsHostText host := by
  unfold hostOf? at h
  split at h
  · exact specialHost?_text h
  · exact otherHost?_text h

theorem hostOf?_empty (h : hostOf? special l = some "") : special = false ∧ l = [] := by
  unfold hostOf? at h
  split at h
  · exact absurd rfl (specialHost?_ne_empty h)
  · rename_i hspecial
    exact ⟨Bool.not_eq_true _ ▸ hspecial, otherHost?_empty h⟩

theorem escapedInUserInfo_escapeChars : ∀ c ∈ escapeChars, escapedInUserInfo c = false :=
  forall_mem_of_all (by decide)

theorem kept_takeUser {username password : String} {rest : List Char}
    (h : takeUser special l = some ((username, password), rest)) :
    Kept escapedInUserInfo username ∧ Kept escapedInUserInfo password := by
  have hempty : Kept escapedInUserInfo "" := fun c hc => absurd hc List.not_mem_nil
  rw [takeUser_eq] at h
  dsimp only at h
  split at h
  · cases h
    exact ⟨hempty, hempty⟩
  · split at h
    · split at h
      · split at h
        · cases h
        · cases h
          exact ⟨hempty, hempty⟩
      · cases h
        exact ⟨hempty, hempty⟩
    · cases h
      exact ⟨kept_escape escapedInUserInfo_escapeChars, kept_escape escapedInUserInfo_escapeChars⟩

theorem toList_authorityText (a : Authority) :
    a.text.toList = a.userText.toList ++ (a.host.toList ++ numberChars a.portNumber) := by
  unfold Authority.text numberChars
  rw [String.toList_append, String.toList_append, List.append_assoc]
  cases a.portNumber with
  | none => rfl
  | some n => rw [String.toList_append]; rfl

theorem afterSlashes?_eq (scheme : String) (l : List Char) : afterSlashes? scheme l =
    (takeUser (isSpecialScheme scheme) l).bind fun ((username, password), rest) =>
      let (hostChars, rest) := takeHost (isSpecialScheme scheme) false rest
      if hostChars.isEmpty ∧ (isSpecialScheme scheme ∨ !username.isEmpty ∨ !password.isEmpty ∨
          rest.head? = some ':') then none
      else (hostOf? (isSpecialScheme scheme) hostChars).bind fun host =>
        (takePortNumber? scheme rest).bind fun (portNumber, rest) =>
          let (path, rest) := takePathAfterHost scheme rest
          some (assemble scheme (some ⟨username, password, host, portNumber⟩) path rest) := by
  unfold afterSlashes? hostOf?
  dsimp only
  rcases takeUser (isSpecialScheme scheme) l with _ | ⟨⟨username, password⟩, rest⟩
  · rfl
  · dsimp only [Option.bind_some, Option.bind_eq_bind]
    split
    · rfl
    · cases isSpecialScheme scheme <;> rfl

/-- What an authority is followed by is the path, which is read then. -/
theorem afterSlashes?_text {scheme : String} {a : Authority} (ha : a.WellFormed scheme)
    (hhost : hostOf? (isSpecialScheme scheme) a.host.toList = some a.host)
    (hafter : Ends (isSpecialScheme scheme) after) :
    afterSlashes? scheme (a.text.toList ++ after) =
      some (assemble scheme (some a) (takePathAfterHost scheme after).1
        (takePathAfterHost scheme after).2) := by
  have hinside : ∀ c ∈ a.host.toList ++ numberChars a.portNumber,
      isInside (isSpecialScheme scheme) c = true ∧ c ≠ '@' := by
    intro c hc
    rcases List.mem_append.1 hc with hc | hc
    · obtain ⟨hc, hsign, -⟩ := (hostOf?_text hhost).spec _ hc
      exact ⟨hc, hsign⟩
    · obtain ⟨hc, hsign, -⟩ := numberChars_spec hc
      exact ⟨hc, hsign⟩
  have hends : EndsHost (isSpecialScheme scheme) (numberChars a.portNumber ++ after) := by
    intro c hc
    cases hnumber : a.portNumber with
    | none =>
      rw [hnumber] at hc
      exact .inr (hafter c hc)
    | some n =>
      rw [hnumber] at hc
      exact .inl (Option.some.inj hc).symm
  have hnonempty : ¬(a.host.toList.isEmpty = true ∧ (isSpecialScheme scheme = true ∨
      (!a.username.isEmpty) = true ∨ (!a.password.isEmpty) = true ∨
      (numberChars a.portNumber ++ after).head? = some ':')) := by
    rintro ⟨hempty, hrest⟩
    have hnil := String.toList_eq_nil_iff.1 (List.isEmpty_iff.1 hempty)
    obtain ⟨hspecial, husername, hpassword, hnumber⟩ := ha.hostless hnil
    rw [hspecial, husername, hpassword, hnumber] at hrest
    rcases hrest with hfalse | hfalse | hfalse | hcolon
    · cases hfalse
    · cases hfalse
    · cases hfalse
    · exact hafter.head_ne_colon hcolon
  rw [toList_authorityText, List.append_assoc, afterSlashes?_eq,
    takeUser_text ha.username ha.password hinside hafter, List.append_assoc, Option.bind_some]
  dsimp only
  rw [takeHost_text (hostOf?_text hhost) hends]
  dsimp only
  rw [if_neg hnonempty, hhost, Option.bind_some, takePortNumber?_text ha.number hafter]
  rfl

/-- What is read behind two slashes is an authority and the path after it. -/
theorem afterSlashes?_cases {scheme : String} {u : Url} (h : afterSlashes? scheme l = some u) :
    ∃ a after, Authority.WellFormed scheme a ∧
      u = assemble scheme (some a) (takePathAfterHost scheme after).1
        (takePathAfterHost scheme after).2 := by
  rw [afterSlashes?_eq] at h
  obtain ⟨⟨⟨username, password⟩, rest⟩, huser, h⟩ := Option.bind_eq_some_iff.1 h
  dsimp only at h
  split at h
  · cases h
  · rename_i hhostless
    obtain ⟨host, hhost, h⟩ := Option.bind_eq_some_iff.1 h
    obtain ⟨⟨portNumber, after⟩, hnumber, h⟩ := Option.bind_eq_some_iff.1 h
    obtain ⟨husername, hpassword⟩ := kept_takeUser huser
    refine ⟨⟨username, password, host, portNumber⟩, after, ⟨husername, hpassword, ⟨_, hhost⟩, ?_,
      takePortNumber?_spec hnumber⟩, (Option.some.inj h).symm⟩
    rintro rfl
    obtain ⟨hspecial, hnil⟩ := hostOf?_empty hhost
    rw [hspecial] at hnil hhostless hnumber
    rw [hnil] at hhostless
    simp only [List.isEmpty_nil, true_and, Bool.false_eq_true, false_or, not_or, Bool.not_eq_true,
      Bool.not_eq_false', String.isEmpty_iff] at hhostless
    exact ⟨hspecial, hhostless.1, hhostless.2.1, takePortNumber?_none hhostless.2.2 hnumber⟩

end JsonTyping.Url
