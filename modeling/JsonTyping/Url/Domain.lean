import JsonTyping.Url.Label

/-!
# Domain names

A domain name is written in ASCII characters and small letters: other characters are first replaced
by the ones that are written for them, and labels that still hold some are encoded. This stands for
the library `idna` as `url` 2.5 calls it.
-/

namespace JsonTyping.Url

/-- Whether a name in small ASCII letters is written as it is: no label of it is encoded. -/
def isPlain (name : List Char) : Bool :=
  name.all Punycode.isAscii && !(name.splitOn '.').any encodedMark.isPrefixOf

def labels? (name : List Char) : Option (List (List Char)) := do
  let written := Text.composed (← name.mapM inDomain?).flatten
  if written.any forbiddenInDomain then none
  let labels ← (written.splitOn '.').mapM readLabel?
  if labels.any hasRightToLeft ∧ !labels.all keepsDirection then none
  return labels

def domainToAscii (name : String) : Option String :=
  let chars := name.toList.map Text.lowerAscii
  if isPlain chars then
    if chars.any forbiddenInDomain then none else some (String.ofList chars)
  else do
    let labels ← (← labels? chars).mapM writeLabel?
    return String.ofList (['.'].intercalate labels)

end JsonTyping.Url
