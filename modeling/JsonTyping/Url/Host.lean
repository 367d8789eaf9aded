import JsonTyping.Url.Domain
import JsonTyping.Url.Percent

/-!
# Hosts

The host of a web address is an IPv6 address between brackets, an IPv4 address in one of its many
spellings, or a domain name. Each is written in one way only. The rules are those of the library
`url`, release 2.5.
-/

namespace JsonTyping.Url

/-- A number of an IPv4 address: decimal, octal after `0`, hexadecimal after `0x`; `none` if it is
no number at all. -/
def ipv4Number? (part : List Char) : Option Nat :=
  let (radix, digits) : Nat × List Char :=
    match part with
    | '0' :: 'x' :: rest => (16, rest)
    | '0' :: 'X' :: rest => (16, rest)
    | '0' :: d :: rest => (8, d :: rest)
    | digits => (10, digits)
  if part.isEmpty then none
  else digits.foldlM (fun n c =>
    match hexValue? c with
    | some d => if d < radix then some (n * radix + d) else none
    | none => none) 0

/-- Whether the last label of a domain name is a number, so that it must be an IPv4 address. -/
def endsInNumber (labels : List (List Char)) : Bool :=
  let last? := match labels.reverse with
    | [] :: last :: _ => some last
    | [] :: [] => none
    | last :: _ => some last
    | [] => none
  match last? with
  | none => false
  | some last =>
    (!last.isEmpty && last.all Text.isAsciiDigit) || (ipv4Number? last).isSome

/-- The address of up to four numbers: the last fills the bytes that the others leave. -/
def ipv4Address? (labels : List (List Char)) : Option Nat := do
  let labels := if labels.getLast? = some [] then labels.dropLast else labels
  if 4 < labels.length then none
  let numbers ← labels.mapM ipv4Number?
  let last ← numbers.getLast?
  let front := numbers.dropLast
  if front.any (255 < ·) then none
  else if Nat.pow 256 (4 - front.length) ≤ last then none
  else some (front.zipIdx.foldl (fun sum (n, i) => sum + n * Nat.pow 256 (3 - i)) last)

def ipv4Text (address : Nat) : String :=
  ".".intercalate ([3, 2, 1, 0].map fun i => toString (address / Nat.pow 256 i % 256))

def ipv6Piece? (part : List Char) : Option Nat :=
  if part.isEmpty ∨ 4 < part.length then none
  else part.foldlM (fun n c => (hexValue? c).map (n * 16 + ·)) 0

def ipv4Byte? (part : List Char) : Option Nat :=
  let value := Text.decimalValue part
  if part.isEmpty ∨ !part.all Text.isAsciiDigit ∨ 255 < value then none
  else if part.length ≠ 1 ∧ part.head? = some '0' then none
  else some value

/-- The pieces of colon-separated parts, the last of which may be a dotted IPv4 address. -/
def ipv6Pieces? : List (List Char) → Option (List Nat)
  | [] => some []
  | [last] =>
    if last.contains '.' then do
      let bytes ← (last.splitOn '.').mapM ipv4Byte?
      match bytes with
      | [a, b, c, d] => some [a * 256 + b, c * 256 + d]
      | _ => none
    else (ipv6Piece? last).map ([·])
  | part :: rest => do return (← ipv6Piece? part) :: (← ipv6Pieces? rest)

def splitDoubleColon : List Char → Option (List Char × List Char)
  | ':' :: ':' :: rest => some ([], rest)
  | c :: rest => (splitDoubleColon rest).map fun (a, b) => (c :: a, b)
  | [] => none

/-- The eight pieces of an IPv6 address; a double colon stands for as many zeros as are missing. -/
def ipv6Address? (chars : List Char) : Option (List Nat) := do
  let pieces (part : List Char) : Option (List Nat) :=
    if part.isEmpty then some [] else ipv6Pieces? (part.splitOn ':')
  match splitDoubleColon chars with
  | none =>
    let all ← pieces chars
    if all.length = 8 then some all else none
  | some (left, right) =>
    if left.contains '.' then none
    let left ← pieces left
    let right ← pieces right
    let missing := 8 - (left.length + right.length)
    if missing = 0 then none else some (left ++ List.replicate missing 0 ++ right)

def zeroRun (pieces : List Nat) : Nat := (pieces.takeWhile (· == 0)).length

/-- Start and length of the longest run of at least two zeros; of equal ones the first. -/
def longestZeroRun (pieces : List Nat) : Option (Nat × Nat) :=
  (List.range pieces.length).foldl
    (fun best i =>
      let n := zeroRun (pieces.drop i)
      match best with
      | some (_, m) => if m < n then some (i, n) else best
      | none => if 1 < n then some (i, n) else none)
    none

def pieceText (n : Nat) : String := String.ofList (Nat.toDigits 16 n)

def ipv6Text (pieces : List Nat) : String :=
  let join (l : List Nat) := ":".intercalate (l.map pieceText)
  match longestZeroRun pieces with
  | none => join pieces
  | some (start, length) => join (pieces.take start) ++ "::" ++ join (pieces.drop (start + length))

def bracketHost? (chars : List Char) : Option String :=
  match chars.reverse with
  | ']' :: inner => (ipv6Address? inner.reverse).map fun pieces => "[" ++ ipv6Text pieces ++ "]"
  | _ => none

def specialHost? (chars : List Char) : Option String :=
  match chars with
  | '[' :: rest => bracketHost? rest
  | _ => do
    let name ← String.fromUTF8? ⟨(unescape chars).toArray⟩
    let domain ← domainToAscii name
    if domain.isEmpty then none
    let labels := domain.toList.splitOn '.'
    if endsInNumber labels then (ipv4Address? labels).map ipv4Text else some domain

def forbiddenInHost (c : Char) : Bool :=
  ['\x00', '\t', '\n', '\r', ' ', '#', '/', ':', '<', '>', '?', '@', '[', '\\', ']', '^',
    '|'].contains c

def otherHost? (chars : List Char) : Option String :=
  match chars with
  | '[' :: rest => bracketHost? rest
  | _ => if chars.any forbiddenInHost then none else some (escape isControl chars)

end JsonTyping.Url
