/-!
# Settings of the inference from samples
-/

namespace JsonTyping

/-- What the inference from samples may do; every setting has a default. -/
structure Settings where
  /-- Objects with more distinct keys than this become maps. -/
  mapThreshold : Nat := 500
  /-- The text of longer strings, counted in 16-bit units, is not kept. -/
  internMaxLen : Nat := 64
  /-- Whether objects may become maps. -/
  inferMaps : Bool := true
  /-- Whether strings may become enumerations. -/
  inferEnums : Bool := true
  /-- Fewer strings than this never become an enumeration. -/
  minEnumSamples : Nat := 10
  /-- Whether formats of strings are recognized. -/
  inferStringFormats : Bool := true
  /-- Whether objects whose only member is `$ref` are references. -/
  handleRefs : Bool := false
  deriving DecidableEq, Repr

namespace Settings

def withRefs (s : Settings) : Settings := { s with handleRefs := true }

end Settings

end JsonTyping
