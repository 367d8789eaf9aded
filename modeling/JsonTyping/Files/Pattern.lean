/-!
# Patterns of file names

In a pattern `?` stands for any character, `*` for any characters, brackets for one of several
characters or, after an exclamation mark, for any other one. Two stars stand for any directories and
must be a whole part of a path. The patterns are those of the library `glob`, release 0.3.3.
-/

namespace JsonTyping

inductive CharRange where
  | single (c : Char)
  | between (low high : Char)
  deriving DecidableEq, Repr

def CharRange.covers (c : Char) : CharRange → Bool
  | single d => c == d
  | between low high => decide (low ≤ c ∧ c ≤ high)

inductive PatternToken where
  | char (c : Char)
  | anyChar
  | within (ranges : List CharRange)
  | except (ranges : List CharRange)
  | anyChars
  | anyDirectories
  deriving DecidableEq, Repr

def PatternToken.char? : PatternToken → Option Char
  | char c => some c
  | _ => none

inductive PatternProblem where
  | tooManyStars
  | recursiveInsidePart
  | invalidRange
  deriving DecidableEq, Repr

structure PatternError where
  position : Nat
  problem : PatternProblem
  deriving DecidableEq, Repr

namespace PatternError

def message (e : PatternError) : String :=
  "Pattern syntax error near position " ++ toString e.position ++ ": " ++ match e.problem with
    | .tooManyStars => "wildcards are either regular `*` or recursive `**`"
    | .recursiveInsidePart => "recursive wildcards must form a single path component"
    | .invalidRange => "invalid range pattern"

end PatternError

abbrev Pattern := List PatternToken

namespace Pattern

def ranges : List Char → List CharRange
  | low :: '-' :: high :: rest => .between low high :: ranges rest
  | c :: rest => .single c :: ranges rest
  | [] => []

def cutAtBracket : List Char → Option (List Char × List Char)
  | [] => none
  | ']' :: rest => some ([], rest)
  | c :: rest => (cutAtBracket rest).map fun (inside, after) => (c :: inside, after)

theorem length_cutAtBracket {l inside after : List Char}
    (h : cutAtBracket l = some (inside, after)) : after.length < l.length := by
  fun_induction cutAtBracket l generalizing inside with
  | case1 => simp at h
  | case2 rest => simp_all
  | case3 c rest _ ih =>
    obtain ⟨⟨a, b⟩, hab, heq⟩ := Option.map_eq_some_iff.1 h
    simp only [Prod.mk.injEq] at heq
    have := ih (heq.2 ▸ hab)
    simp
    omega

/-- The rule for two stars: a slash or nothing on either side. -/
def recursiveFits (previous : Option Char) : Bool := previous.isNone || previous == some '/'

def compileAt (previous : Option Char) (position : Nat) (chars : List Char) :
    Except PatternError Pattern :=
  match chars with
  | [] => .ok []
  | '?' :: rest => return .anyChar :: (← compileAt (some '?') (position + 1) rest)
  | '*' :: '*' :: '*' :: _ => .error ⟨position + 2, .tooManyStars⟩
  | '*' :: '*' :: rest =>
    if recursiveFits previous then
      match rest with
      | [] => .ok [.anyDirectories]
      | '/' :: after => return .anyDirectories :: (← compileAt (some '/') (position + 3) after)
      | _ => .error ⟨position + 2, .recursiveInsidePart⟩
    else .error ⟨position - 1, .recursiveInsidePart⟩
  | '*' :: rest => return .anyChars :: (← compileAt (some '*') (position + 1) rest)
  | '[' :: '!' :: c :: rest =>
    match h : cutAtBracket rest with
    | some (inside, after) =>
      have := length_cutAtBracket h
      return .except (ranges (c :: inside))
        :: (← compileAt (some ']') (position + inside.length + 4) after)
    | none => .error ⟨position, .invalidRange⟩
  | '[' :: '!' :: _ => .error ⟨position, .invalidRange⟩
  | '[' :: c :: rest =>
    match h : cutAtBracket rest with
    | some (inside, after) =>
      have := length_cutAtBracket h
      return .within (ranges (c :: inside))
        :: (← compileAt (some ']') (position + inside.length + 3) after)
    | none => .error ⟨position, .invalidRange⟩
  | '[' :: [] => .error ⟨position, .invalidRange⟩
  | c :: rest => return .char c :: (← compileAt (some c) (position + 1) rest)
termination_by chars.length

def compile (text : List Char) : Except PatternError Pattern := compileAt none 0 text

def isRecursive (p : Pattern) : Bool := p.contains .anyDirectories

def literal? (p : Pattern) : Option String := (p.mapM PatternToken.char?).map String.ofList

def covers : Pattern → List Char → Bool
  | [], chars => chars.isEmpty
  | .anyChars :: p, [] => covers p []
  | .anyDirectories :: p, [] => covers p []
  | .anyChars :: p, c :: rest => covers p (c :: rest) || covers (.anyChars :: p) rest
  | .anyDirectories :: p, c :: rest => covers p (c :: rest) || covers (.anyDirectories :: p) rest
  | .anyChar :: p, _ :: rest => covers p rest
  | .char d :: p, c :: rest => c == d && covers p rest
  | .within ranges :: p, c :: rest => ranges.any (·.covers c) && covers p rest
  | .except ranges :: p, c :: rest => !ranges.any (·.covers c) && covers p rest
  | _ :: _, [] => false
termination_by p chars => (p.length, chars.length)

end Pattern

end JsonTyping
