import JsonTyping.Text.CharClass

/-!
# Percent encoding

A character outside of what a part of a URL may hold is written as its bytes, each as `%` and two
upper-case hexadecimal digits. Characters beyond ASCII are always written so. The sets of characters
are those of the library `url`, release 2.5.
-/

namespace JsonTyping.Url

def upperHex (n : Nat) : Char :=
  if n < 10 then Char.ofNat ('0'.toNat + n) else Char.ofNat ('A'.toNat + n - 10)

def escapeByte (b : UInt8) : List Char := ['%', upperHex (b.toNat / 16), upperHex (b.toNat % 16)]

/-- Controls and characters beyond ASCII, which no part of a URL may hold. -/
def isControl (c : Char) : Bool := decide (c.toNat < 0x20) || decide (0x7F ≤ c.toNat)

def escapedInFragment (c : Char) : Bool := isControl c || [' ', '"', '<', '>', '`'].contains c

/-- Characters that a query may not hold; one of a web address may not hold an apostrophe either. -/
def escapedInQuery (special : Bool) (c : Char) : Bool :=
  isControl c || [' ', '"', '#', '<', '>'].contains c || (special && c == '\'')

def escapedInPath (c : Char) : Bool :=
  escapedInFragment c || ['#', '?', '\x7b', '\x7d'].contains c

def escapedInUserInfo (c : Char) : Bool :=
  escapedInPath c || ['/', ':', ';', '=', '@', '[', '\\', ']', '^', '|'].contains c

def escape (escaped : Char → Bool) (chars : List Char) : String :=
  String.ofList <| chars.flatMap fun c =>
    if escaped c then (String.singleton c).toUTF8.toList.flatMap escapeByte else [c]

def hexValue? (c : Char) : Option Nat :=
  if '0' ≤ c ∧ c ≤ '9' then some (c.toNat - '0'.toNat)
  else if 'a' ≤ c ∧ c ≤ 'f' then some (c.toNat - 'a'.toNat + 10)
  else if 'A' ≤ c ∧ c ≤ 'F' then some (c.toNat - 'A'.toNat + 10)
  else none

def unescape : List Char → List UInt8
  | '%' :: h :: l :: rest =>
    match hexValue? h, hexValue? l with
    | some h, some l => (h * 16 + l).toUInt8 :: unescape rest
    | _, _ => '%'.toNat.toUInt8 :: unescape (h :: l :: rest)
  | c :: rest => (String.singleton c).toUTF8.toList ++ unescape rest
  | [] => []

end JsonTyping.Url
