import JsonTyping.Json.Value
import JsonTyping.Text.CharClass

/-!
# Pointers into documents

A pointer is empty, for the whole document, or a slash and segments with slashes between them. A
segment is the key of a member or the index of an item; in a key `~1` stands for a slash and `~0`
for a tilde.
-/

namespace JsonTyping.Pointer

def escape : List Char → List Char
  | [] => []
  | '~' :: rest => '~' :: '0' :: escape rest
  | '/' :: rest => '~' :: '1' :: escape rest
  | c :: rest => c :: escape rest

def unescapeOne (digit c : Char) : List Char → List Char
  | '~' :: d :: rest =>
    if d = digit then c :: unescapeOne digit c rest else '~' :: unescapeOne digit c (d :: rest)
  | d :: rest => d :: unescapeOne digit c rest
  | [] => []

/-- The key of a written segment: first `~1` is read as a slash, then `~0` as a tilde. -/
def unescape (segment : List Char) : List Char := unescapeOne '0' '~' (unescapeOne '1' '/' segment)

def keys (text : List Char) : List String :=
  (text.splitOn '/').map fun segment => String.ofList (unescape segment)

/-- The index that a key means: digits without leading zeros, of less than 2⁶⁴. -/
def index? (key : String) : Option Nat :=
  let digits := key.toList
  let canonical := match digits with
    | ['0'] => true
    | first :: rest => first != '0' && (first :: rest).all Text.isAsciiDigit
    | [] => false
  if canonical && decide (Text.decimalValue digits ≤ 0xFFFFFFFFFFFFFFFF) then
    some (Text.decimalValue digits)
  else none

def child? (v : Json) (key : String) : Option Json :=
  match v with
  | .object members => members.lookup key
  | .array items => (index? key).bind fun i => items[i]?
  | _ => none

def find? (pointer : String) (document : Json) : Option Json :=
  match pointer.toList with
  | [] => some document
  | '/' :: rest => (keys rest).foldlM child? document
  | _ => none

end JsonTyping.Pointer
