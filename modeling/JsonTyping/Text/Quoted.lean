import JsonTyping.Text.Unprintable

/-!
# Quoted text in messages

A quoted text stands between double quotes, with backslashes, quotes and every character without a
printed form escaped.
-/

namespace JsonTyping.Text

def hexDigits (n : Nat) : String := String.ofList (Nat.toDigits 16 n)

def quoteChar (c : Char) : String :=
  match c with
  | '\x00' => "\\0"
  | '\t' => "\\t"
  | '\r' => "\\r"
  | '\n' => "\\n"
  | '\\' => "\\\\"
  | '"' => "\\\""
  | c => if isUnprintable c then "\\u\x7b" ++ hexDigits c.toNat ++ "\x7d" else String.singleton c

def quote (s : String) : String := "\"" ++ String.join (s.toList.map quoteChar) ++ "\""

def quoteList (l : List String) : String := "[" ++ ", ".intercalate (l.map quote) ++ "]"

end JsonTyping.Text
