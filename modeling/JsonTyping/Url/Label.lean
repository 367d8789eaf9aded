import JsonTyping.Text.Composed
import JsonTyping.Text.Direction
import JsonTyping.Text.Joining
import JsonTyping.Text.Mark
import JsonTyping.Url.DomainMapping
import JsonTyping.Url.Punycode

/-!
# Labels of domain names

A label is what stands between the dots of a domain name. Rules on marks, joiners and directions
keep labels from looking like others. They are the rules of the library `idna`, as `url` 2.5 calls
it.
-/

namespace JsonTyping.Url

/-- The direction of the last character of a label that is no mark. -/
def lastDirection (label : List Char) : Option Text.Direction :=
  ((label.map Text.direction).reverse.dropWhile (· == .mark)).head?

def runsRight (label : List Char) : Bool :=
  (label.all fun c => [.leftToRight, .number, .neutral, .mark].contains (Text.direction c))
    && [some .leftToRight, some .number].contains (lastDirection label)

/-- Whether a label is written from right to left alone, with one kind of digits. -/
def runsLeft (label : List Char) : Bool :=
  let directions := label.map Text.direction
  (directions.all [.rightToLeft, .arabicNumber, .number, .neutral, .mark].contains)
    && [some .rightToLeft, some .arabicNumber, some .number].contains (lastDirection label)
    && !(directions.contains .arabicNumber && directions.contains .number)

/-- Whether a label begins with a letter and keeps to the direction of that letter. -/
def keepsDirection (label : List Char) : Bool :=
  match label with
  | [] => true
  | first :: _ =>
    match Text.direction first with
    | .leftToRight => runsRight label
    | .rightToLeft => runsLeft label
    | _ => false

def hasRightToLeft (label : List Char) : Bool :=
  label.any fun c => [.rightToLeft, .arabicNumber].contains (Text.direction c)

/-- Whether the nearest character that takes part in joining has one of two kinds. -/
def nearestJoins (kinds : List Text.Joining) (chars : List Char) : Bool :=
  match (chars.map Text.joining).dropWhile (· == .across) with
  | joining :: _ => kinds.contains joining
  | [] => false

/-- Whether the last of these characters, which are written backwards, takes the vowel off its
consonant. -/
def endsInVirama (before : List Char) : Bool :=
  match before with
  | c :: _ => Text.combiningClass c == Text.viramaClass
  | [] => false

/-- Whether all joiners and non-joiners stand where a script needs them; `before` is what comes
before, backwards. -/
def joinersFit (before : List Char) : List Char → Bool
  | [] => true
  | c :: after =>
    (if c = '\u200d' then endsInVirama before
      else if c = '\u200c' then
        endsInVirama before
          || (nearestJoins [.next, .both] before && nearestJoins [.previous, .both] after)
      else true)
    && joinersFit (c :: before) after

def encodedMark : List Char := ['x', 'n', '-', '-']

def maxEncoded : Nat := 2000

def maxLabel : Nat := 1000

def forbiddenInDomain (c : Char) : Bool :=
  decide (c.toNat ≤ 0x20) || c.toNat == 0x7F
    || ['#', '%', '/', ':', '<', '>', '?', '@', '[', '\\', ']', '^', '|'].contains c

/-- Whether a decoded label is one that would be encoded: composed, of valid characters, without a
dot. -/
def isDecodedLabel (label : List Char) : Bool :=
  Text.composed label == label
    && label.all fun c => inDomain? c == some [c] && c != '.' && !forbiddenInDomain c

def decodeLabel? (encoded : List Char) : Option (List Char) := do
  if encoded.isEmpty ∨ encoded.getLast? = some '-' ∨ maxEncoded < encoded.length then none
  let label ← Punycode.decode? encoded
  if isDecodedLabel label then some label else none

def readLabel? (label : List Char) : Option (List Char) := do
  let label ← if encodedMark.isPrefixOf label then decodeLabel? (label.drop 4) else some label
  if (label.head?.any Text.isMark) ∨ !joinersFit [] label then none else some label

def writeLabel? (label : List Char) : Option (List Char) :=
  if label.all Punycode.isAscii then some label
  else if maxLabel < label.length then none
  else some (encodedMark ++ Punycode.encode label)

end JsonTyping.Url
