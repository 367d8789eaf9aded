/-!
# Handles of sampled values

Of a sampled value only what matters for its type is kept. A `Handle` says what was kept and, for
texts and containers, where it is found in the table that gave it. It is the tagged value of
SPEC_FULL.md §3. The program packs a handle into 32 bits, the kind into the lowest four; what is
seen of this is that no index is larger than `Handle.maxIndex`.
-/

namespace JsonTyping

/-- A sampled value in the table that gave it. -/
inductive Handle where
  | null
  | bool (value : Bool)
  | integer
  | double
  /-- A short text, kept at an index. -/
  | text (index : Nat)
  /-- A long text, which was not kept. -/
  | dropped
  /-- An object, with its members in a row. -/
  | object (row : Nat)
  /-- An array, with its items in a row. -/
  | array (row : Nat)
  /-- A text in a format; the name of the format is kept at an index. -/
  | format (index : Nat)
  /-- A text in a format that has attributes; the text itself is kept at an index. -/
  | traits (index : Nat)
  deriving DecidableEq, Repr, Inhabited

namespace Handle

def kindName : Handle → String
  | null => "Null"
  | bool false => "False"
  | bool true => "True"
  | integer => "Integer"
  | double => "Double"
  | text _ => "InternedString"
  | dropped => "UninternedString"
  | object _ => "Object"
  | array _ => "Array"
  | format _ => "StringFormat"
  | traits _ => "TransformedString"

/-- Where the value is found; 0 if nothing but its kind was kept. -/
def index : Handle → Nat
  | text i | object i | array i | format i | traits i => i
  | _ => 0

/-- The largest index of 28 bits. -/
def maxIndex : Nat := 0xFFFFFFF

def label (h : Handle) : String := h.kindName ++ "#" ++ toString h.index

end Handle

end JsonTyping
