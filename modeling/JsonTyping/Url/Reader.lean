import JsonTyping.Url.Basic

/-!
# Reading URLs

`Url.parse?` reads a URL that stands alone and `Url.join?` one that may be relative to another.
Blanks around a URL and line ends and tabs inside of it do not count.

The program reads URLs with the library `url`, release 2.5, which `Url.parse?` and `Url.join?` stand
for. Releases differ in what comes of more text behind a drive letter (`file://h/C:x`); which
addresses are canonical is said for all of them (`Reference.Obtained.address_canonical`).
-/

namespace JsonTyping.Url

/-- The text without the controls and blanks around it and without tabs and line ends. -/
def strip (s : String) : List Char :=
  let outer (c : Char) : Bool := decide (c.toNat ≤ 0x20)
  let chars := ((s.toList.dropWhile outer).reverse.dropWhile outer).reverse
  chars.filter fun c => c != '\t' && c != '\n' && c != '\r'

def endsPath (c : Char) : Bool := c == '?' || c == '#'

/-- Whether a character separates segments: also a backslash in special schemes. -/
def isSlash (special : Bool) (c : Char) : Bool := c == '/' || (special && c == '\\')

def takeScheme? (chars : List Char) : Option (String × List Char) :=
  let isPart (c : Char) : Bool :=
    Text.isAsciiLetter c || Text.isAsciiDigit c || c == '+' || c == '-' || c == '.'
  match chars.takeWhile isPart, chars.dropWhile isPart with
  | first :: rest, ':' :: after =>
    if Text.isAsciiLetter first then
      some (String.ofList ((first :: rest).map Text.lowerAscii), after)
    else none
  | _, _ => none

def tail (special : Bool) (chars : List Char) : Option String × Option String :=
  let fragmentOf : List Char → Option String
    | '#' :: f => some (escape escapedInFragment f)
    | _ => none
  match chars with
  | '?' :: rest =>
    (some (escape (escapedInQuery special) (rest.takeWhile (· != '#'))),
      fragmentOf (rest.dropWhile (· != '#')))
  | chars => (none, fragmentOf chars)

/-! ### Paths -/

/-- A letter and a colon or bar: the name of a drive. -/
def isDrive (segment : List Char) : Bool :=
  match segment with
  | [letter, mark] => Text.isAsciiLetter letter && (mark == ':' || mark == '|')
  | _ => false

def isNormalDrive (segment : List Char) : Bool := isDrive segment && segment.getLast? == some ':'

def isDot (segment : String) : Bool := [".", "%2e"].contains (Text.lowerAsciiText segment)

def isDoubleDot (segment : String) : Bool :=
  ["..", "%2e%2e", ".%2e", "%2e."].contains (Text.lowerAsciiText segment)

/-- Leaves the innermost directory; a drive is never left. -/
def parent (done : List String) : List String :=
  match done.getLast? with
  | some last => if isDrive last.toList then done else done.dropLast
  | none => done

/-- Splits off the segment in front of the next slash; `true` if there is one. -/
def takeSegment (special : Bool) (chars : List Char) : List Char × Bool × List Char :=
  let inside (c : Char) : Bool := !(isSlash special c || endsPath c)
  let segment := chars.takeWhile inside
  match chars.dropWhile inside with
  | c :: rest => if isSlash special c then (segment, true, rest) else (segment, false, c :: rest)
  | [] => (segment, false, [])

/-- The segments of a path of the scheme `file`: nothing stands after a drive but a slash, a bar in
the name of the first drive becomes a colon, and empty segments in front are dropped. -/
def fileSegment (done : List String) (segment : List Char) : List String :=
  match done, segment with
  | [], [letter, mark] =>
    if isDrive [letter, mark] then [String.ofList [letter, ':']]
    else [escape escapedInPath segment]
  | [], letter :: ':' :: rest =>
    if Text.isAsciiLetter letter then
      [String.ofList [letter, ':'], escape escapedInPath rest]
    else [escape escapedInPath segment]
  | _, _ => [escape escapedInPath segment]

/-- The segments of a path while they are read, and whether a drive has stood first among them as a
segment of its own.
-/
structure Route where
  segments : List String
  namesDrive : Bool
  deriving DecidableEq, Repr

def Route.step (file : Bool) (route : Route) (raw : List Char) (more : Bool) : Route :=
  let segment := escape escapedInPath raw
  let last := if more then [] else [""]
  if isDoubleDot segment then { route with segments := parent route.segments ++ last }
  else if isDot segment then { route with segments := route.segments ++ last }
  else if file then
    { segments := route.segments ++ fileSegment route.segments raw
      namesDrive := route.namesDrive || (route.segments.isEmpty && isDrive raw) }
  else { route with segments := route.segments ++ [segment] }

/-- Resolves the segments of a path on top of a route, and gives what follows the path. `fuel`
bounds the number of segments.
-/
def resolveSegments (special file : Bool) (route : Route) (chars : List Char) :
    Nat → Route × List Char
  | 0 => (route, chars)
  | fuel + 1 =>
    let (raw, more, rest) := takeSegment special chars
    let next := route.step file raw more
    if more then resolveSegments special file next rest fuel else (next, rest)

def dropEmptyFront : List String → List String
  | "" :: s :: rest => dropEmptyFront (s :: rest)
  | l => l

/-- The route that begins here, on top of the directories `done`, and what follows it. -/
def takeRoute (scheme : String) (done : List String) (chars : List Char) : Route × List Char :=
  let file := scheme == "file"
  let (route, rest) :=
    resolveSegments (isSpecialScheme scheme) file ⟨done, false⟩ chars (chars.length + 1)
  (if file then { route with segments := dropEmptyFront route.segments } else route, rest)

def takePath (scheme : String) (done : List String) (chars : List Char) : Path × List Char :=
  let (route, rest) := takeRoute scheme done chars
  (.segments route.segments, rest)

/-- The path after an authority. Special schemes always have one. -/
def takePathAfterHost (scheme : String) (chars : List Char) : Path × List Char :=
  let special := isSpecialScheme scheme
  match chars with
  | [] => if special then takePath scheme [] [] else (.segments [], [])
  | c :: rest =>
    if isSlash special c then takePath scheme [] rest
    else if endsPath c && !special then (.segments [], chars)
    else takePath scheme [] chars

def takePlainPath (chars : List Char) : Path × List Char :=
  (.plain (escape isControl (chars.takeWhile (!endsPath ·))), chars.dropWhile (!endsPath ·))

/-- Puts the parts of a URL together; `chars` is what follows the path. -/
def assemble (scheme : String) (authority : Option Authority) (path : Path) (chars : List Char) :
    Url :=
  let (query, fragment) := tail (isSpecialScheme scheme) chars
  { scheme, authority, path, query, fragment }

/-! ### Authorities and files -/

/-- Splits the user and password off the text in front of the last `@`; `none` if no host can
follow.
-/
def takeUser (special : Bool) (chars : List Char) : Option ((String × String) × List Char) :=
  let inside (c : Char) : Bool := !(isSlash special c || endsPath c)
  let authority := chars.takeWhile inside
  if !authority.contains '@' then some (("", ""), chars)
  else
    let hostPart := (authority.reverse.takeWhile (· != '@')).reverse
    let userPart := authority.take (authority.length - hostPart.length - 1)
    let rest := hostPart ++ chars.dropWhile inside
    if userPart.isEmpty then
      match rest with
      | c :: _ => if isSlash special c || endsPath c then none else some (("", ""), rest)
      | [] => some (("", ""), rest)
    else
      let name := userPart.takeWhile (· != ':')
      let password := (userPart.dropWhile (· != ':')).drop 1
      some ((escape escapedInUserInfo name, escape escapedInUserInfo password), rest)

/-- Splits off the characters of a host; a colon inside of brackets belongs to it. -/
def takeHost (special : Bool) : Bool → List Char → List Char × List Char
  | _, [] => ([], [])
  | bracket, c :: rest =>
    if (c == ':' && !bracket) || isSlash special c || endsPath c then ([], c :: rest)
    else
      let bracket := if c == '[' then true else if c == ']' then false else bracket
      let (host, after) := takeHost special bracket rest
      (c :: host, after)

/-- Splits off the number behind a host; the default one of the scheme counts as none. -/
def takePortNumber? (scheme : String) (chars : List Char) : Option (Option Nat × List Char) :=
  match chars with
  | ':' :: rest =>
    let digits := rest.takeWhile Text.isAsciiDigit
    let after := rest.dropWhile Text.isAsciiDigit
    let value := Text.decimalValue digits
    let valid := match after with
      | [] => true
      | c :: _ => isSlash true c || endsPath c
    if !valid || 65535 < value then none
    else if digits.isEmpty || defaultPortNumber? scheme == some value then some (none, after)
    else some (some value, after)
  | chars => some (none, chars)

def afterSlashes? (scheme : String) (chars : List Char) : Option Url := do
  let special := isSpecialScheme scheme
  let ((username, password), chars) ← takeUser special chars
  let (hostChars, chars) := takeHost special false chars
  if hostChars.isEmpty ∧ (special ∨ !username.isEmpty ∨ !password.isEmpty ∨ chars.head? = some ':')
  then none
  let host ← if special then specialHost? hostChars else otherHost? hostChars
  let (portNumber, chars) ← takePortNumber? scheme chars
  let (path, chars) := takePathAfterHost scheme chars
  return assemble scheme (some ⟨username, password, host, portNumber⟩) path chars

def fileAuthority (host : String) : Option Authority := some ⟨"", "", host, none⟩

def startsWithDrive (chars : List Char) : Bool :=
  isDrive (chars.take 2) && match chars.drop 2 with
    | [] => true
    | c :: _ => isSlash true c || endsPath c

/-- Reads the host of a file and what follows; `localhost` is no host, and a drive stands on no
host.
-/
def fileAfterSlashes? (chars : List Char) : Option Url := do
  let inside (c : Char) : Bool := !(isSlash true c || endsPath c)
  let hostChars := chars.takeWhile inside
  if isDrive hostChars ∨ hostChars.isEmpty then
    let (path, rest) := takePath "file" [] chars
    return assemble "file" (fileAuthority "") path rest
  let host ← specialHost? hostChars
  let chars := chars.dropWhile inside
  if host == "localhost" then
    let (path, rest) := takePath "file" [] chars
    return assemble "file" (fileAuthority "") path rest
  let (route, rest) := takeRoute "file" [] (match chars with
    | c :: after => if isSlash true c then after else chars
    | [] => [])
  return assemble "file" (fileAuthority (if route.namesDrive then "" else host))
    (.segments route.segments) rest

def Path.list : Path → List String
  | .segments list => list
  | .plain _ => []

/-- Reads a file from behind the scheme on, relative to `base` if that is a file. -/
def parseFile? (base : Option Url) (chars : List Char) : Option Url :=
  match chars with
  | a :: b :: rest =>
    if isSlash true a ∧ isSlash true b then fileAfterSlashes? rest
    else relativeFile base chars
  | _ => relativeFile base chars
where
  relativeFile (base : Option Url) (chars : List Char) : Option Url :=
    let absolute (host : String) (done : List String) (chars : List Char) : Url :=
      let (path, rest) := takePath "file" done chars
      assemble "file" (fileAuthority host) path rest
    match base, chars with
    | none, c :: rest => some (absolute "" [] (if isSlash true c then rest else chars))
    | none, [] => some (absolute "" [] [])
    | some base, chars =>
      let host := (base.authority.map (·.host)).getD ""
      match chars with
      | [] => some base.withoutFragment
      | '?' :: _ => some (assemble "file" base.authority base.path chars)
      | '#' :: _ => some { base with fragment := (tail true chars).2 }
      | c :: rest =>
        if isSlash true c then
          if startsWithDrive rest then some (absolute "" [] rest)
          else
            match base.path.list with
            | first :: _ =>
              if isNormalDrive first.toList then some (absolute "" [first] rest)
              else some (absolute host [] rest)
            | [] => some (absolute host [] rest)
        else if startsWithDrive chars then some (absolute "" [] chars)
        else
          let done := base.path.list
          some (absolute host (if isNormalDrive (done.headD "").toList ∧ done.length = 1 then done
            else done.dropLast) chars)

/-! ### Whole URLs -/

/-- Reads a URL that is relative to `base`, which is not a file and has a path with segments. -/
def parseRelative? (base : Url) (chars : List Char) : Option Url :=
  let special := isSpecialScheme base.scheme
  match chars with
  | [] => some base.withoutFragment
  | '?' :: _ => some (assemble base.scheme base.authority base.path chars)
  | '#' :: _ => some { base with fragment := (tail special chars).2 }
  | c :: rest =>
    let slash (c : Char) : Bool := c == '/' || c == '\\'
    if slash c then
      if (chars.takeWhile slash).length ≥ 2 then
        afterSlashes? base.scheme (match chars with
          | '/' :: '/' :: after => after
          | _ => chars.dropWhile slash)
      else
        let (path, after) := takePath base.scheme [] rest
        some (assemble base.scheme base.authority path after)
    else
      let (path, after) := takePath base.scheme base.path.list.dropLast chars
      some (assemble base.scheme base.authority path after)

def parseAfterScheme? (base : Option Url) (scheme : String) (chars : List Char) : Option Url :=
  if scheme == "file" then parseFile? (base.filter (·.scheme == "file")) chars
  else if isSpecialScheme scheme then
    let slash (c : Char) : Bool := c == '/' || c == '\\'
    let slashes := (chars.takeWhile slash).length
    match base with
    | some base =>
      if slashes < 2 ∧ base.scheme == scheme then parseRelative? base chars
      else afterSlashes? scheme (chars.dropWhile slash)
    | none => afterSlashes? scheme (chars.dropWhile slash)
  else
    match chars with
    | '/' :: '/' :: rest => afterSlashes? scheme rest
    | '/' :: rest =>
      let (path, after) := takePath scheme [] rest
      some (assemble scheme none path after)
    | chars =>
      let (path, after) := takePlainPath chars
      some (assemble scheme none path after)

def parse? (s : String) : Option Url :=
  match takeScheme? (strip s) with
  | some (scheme, rest) => parseAfterScheme? none scheme rest
  | none => none

def join? (base : Url) (s : String) : Option Url :=
  let chars := strip s
  match takeScheme? chars with
  | some (scheme, rest) => parseAfterScheme? (some base) scheme rest
  | none =>
    match base.path, chars with
    | .plain _, '#' :: _ => some { base with fragment := (tail false chars).2 }
    | .plain _, _ => none
    | .segments _, _ =>
      if base.scheme == "file" then parseFile? (some base) chars else parseRelative? base chars

end JsonTyping.Url
