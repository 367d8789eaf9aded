import JsonTyping.Url.Reader

/-!
# A library of URLs

Of URLs the addresses of documents need four functions, which are not the program's own: it takes
them from the library `url`. What is said of addresses for any such library is said with a
`UrlLibrary` as a parameter; the program runs with `Url.library`.
-/

namespace JsonTyping

structure UrlLibrary where
  Url : Type
  /-- The URL that an absolute text stands for. -/
  parse? : String → Option Url
  /-- The URL that a text stands for when it is seen from another URL. -/
  join? : Url → String → Option Url
  withoutFragment : Url → Url
  text : Url → String

def Url.library : UrlLibrary where
  Url := Url
  parse? := Url.parse?
  join? := Url.join?
  withoutFragment := Url.withoutFragment
  text := Url.text

end JsonTyping
