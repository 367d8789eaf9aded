import JsonTyping.Url.Host

/-!
# URLs

A `Url` is kept in parts, each in its normal form; `Url.text` writes it. A path is a list of
segments, or a text without structure after schemes such as `mailto`. What a `Url` is made of is
that of the library `url`, release 2.5.
-/

namespace JsonTyping

inductive Url.Path where
  /-- Segments, each after a slash. -/
  | segments (list : List String)
  /-- A text that does not begin with a slash. -/
  | plain (text : String)
  deriving DecidableEq, Repr

structure Url.Authority where
  username : String
  password : String
  host : String
  /-- The number behind the host, if it is not the scheme's own. -/
  portNumber : Option Nat
  deriving DecidableEq, Repr

/-- A URL in its normal form. -/
structure Url where
  scheme : String
  authority : Option Url.Authority
  path : Url.Path
  query : Option String
  fragment : Option String
  deriving DecidableEq, Repr

namespace Url

/-- Schemes whose URLs name a host and a hierarchy; `file` is one. -/
def isSpecialScheme (scheme : String) : Bool :=
  ["http", "https", "ws", "wss", "ftp", "file"].contains scheme

def defaultPortNumber? (scheme : String) : Option Nat :=
  match scheme with
  | "http" | "ws" => some 80
  | "https" | "wss" => some 443
  | "ftp" => some 21
  | _ => none

def Path.text : Path → String
  | .segments list => String.join (list.map ("/" ++ ·))
  | .plain text => text

/-- Whether a path would be taken for a host if nothing stood in front of it. -/
def Path.looksLikeHost : Path → Bool
  | .segments ("" :: _ :: _) => true
  | _ => false

def Authority.userText (a : Authority) : String :=
  if a.username.isEmpty ∧ a.password.isEmpty then ""
  else a.username ++ (if a.password.isEmpty then "" else ":" ++ a.password) ++ "@"

def Authority.text (a : Authority) : String :=
  a.userText ++ a.host ++ match a.portNumber with
    | some n => ":" ++ toString n
    | none => ""

def text (u : Url) : String :=
  let front := match u.authority with
    | some a => "//" ++ a.text
    | none => if u.path.looksLikeHost then "/." else ""
  let query := match u.query with
    | some q => "?" ++ q
    | none => ""
  let fragment := match u.fragment with
    | some f => "#" ++ f
    | none => ""
  u.scheme ++ ":" ++ front ++ u.path.text ++ query ++ fragment

/-- Whether a URL names no machine but this one. -/
def isOnThisMachine (u : Url) : Bool :=
  match u.authority with
  | some a => a.host.isEmpty || a.host == "localhost"
  | none => true

def withoutFragment (u : Url) : Url := { u with fragment := none }

end Url

end JsonTyping
