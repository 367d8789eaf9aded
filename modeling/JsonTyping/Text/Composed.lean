import JsonTyping.Text.CombiningClass
import JsonTyping.Text.Composites

/-!
# Composed texts

The same letters and marks can be written in several ways. The composed form takes all composites
apart, puts the marks of a letter into one order, and puts together again what can be one character.
Characters that are only another spelling of one character, or that are never put together again,
are no composites here: whoever composes a text has replaced them before. This stands for what the
library `idna` calls to compose names.
-/

namespace JsonTyping.Text

/-- A character without its last marks, at most as many as `layers`, and these marks. -/
def takeApart : (layers : Nat) → Char → List Char
  | 0, c => [c]
  | layers + 1, c =>
    match parts? c with
    | some (a, b) => takeApart layers a ++ [b]
    | none => [c]

/-- The most marks that a composite holds. -/
def maxLayers : Nat := 4

/-- Puts a character after a text that is written backwards: a mark passes the marks of greater
class. -/
def placeMark (c : Char) : List Char → List Char
  | [] => [c]
  | d :: rest =>
    if combiningClass c ≠ 0 ∧ combiningClass c < combiningClass d then d :: placeMark c rest
    else c :: d :: rest

def orderMarks (chars : List Char) : List Char :=
  (chars.foldl (fun done c => placeMark c done) []).reverse

/-- A text in the course of being composed: what is finished, backwards, the last letter, and the
marks after it that did not melt into it, backwards. -/
structure Composing where
  done : List Char := []
  letter : Option Char := none
  marks : List Char := []

def Composing.all (t : Composing) : List Char := t.marks ++ t.letter.toList ++ t.done

/-- Whether a character can still reach the letter: no mark between them has its class or a greater
one. -/
def Composing.reaches (t : Composing) (c : Char) : Bool :=
  match t.marks with
  | [] => true
  | mark :: _ => decide (combiningClass mark < combiningClass c)

def Composing.melt? (t : Composing) (c : Char) : Option Char :=
  match t.letter with
  | some letter => if t.reaches c then composite? letter c else none
  | none => none

def Composing.push (t : Composing) (c : Char) : Composing :=
  match t.melt? c with
  | some whole => { t with letter := some whole }
  | none =>
    if combiningClass c = 0 then { done := t.all, letter := some c }
    else { t with marks := c :: t.marks }

def composed (chars : List Char) : List Char :=
  ((orderMarks (chars.flatMap (takeApart maxLayers))).foldl Composing.push {}).all.reverse

end JsonTyping.Text
