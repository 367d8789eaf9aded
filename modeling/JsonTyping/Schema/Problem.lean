import JsonTyping.Misuse
import JsonTyping.Schema.Reference
import JsonTyping.Text.Quoted

/-!
# What can be wrong with schemas

A `SchemaError` names what is wrong and where. A conversion can stop for other reasons as well
(`Halt`).
-/

namespace JsonTyping

inductive SchemaError where
  | notASchema (place : Reference) (actual : String)
  | falseSchema (place : Reference)
  | invalidTypeList (place : Reference)
  | unknownTypeName (place : Reference) (name : String)
  | requiredNotStringArray (place : Reference)
  | propertiesNotObject (place : Reference)
  | invalidItems (place : Reference)
  | casesNotArray (place : Reference) (operation : String)
  | refNotString (place : Reference)
  | additionalForbidRequired (place : Reference) (names : List String)
  | badLookup (place : Reference) (cause : LookupError)
  | refNotFound (base target : Reference)
  | noAddress (target : Reference)
  | noSchemaStore (address : String)
  | invalidSource (name : String) (message : String)
  deriving DecidableEq, Repr

namespace SchemaError

def message : SchemaError → String
  | notASchema place actual =>
    place.text ++ ": a schema must be an object or a boolean, found " ++ actual
  | falseSchema place => place.text ++ ": `false` schemas are not supported"
  | invalidTypeList place => place.text ++ ": `type` must be a string or an array of strings"
  | unknownTypeName place name => place.text ++ ": unknown type name `" ++ name ++ "`"
  | requiredNotStringArray place => place.text ++ ": `required` must be an array of strings"
  | propertiesNotObject place => place.text ++ ": `properties` must be an object"
  | invalidItems place =>
    place.text ++ ": array `items` must be a schema object, an array or a boolean"
  | casesNotArray place operation => place.text ++ ": `" ++ operation ++ "` cases must be an array"
  | refNotString place => place.text ++ ": `$ref` must be a string"
  | additionalForbidRequired place names =>
    place.text ++ ": properties " ++ Text.quoteList names
      ++ " are required but `additionalProperties` is false"
  | badLookup place cause => cause.message place
  | refNotFound base target =>
    "could not resolve `" ++ target.text ++ "` from `" ++ base.text ++ "`"
  | noAddress target => "reference `" ++ target.text ++ "` has no address to fetch"
  | noSchemaStore address => "no schema store configured, cannot fetch `" ++ address ++ "`"
  | invalidSource name message => "invalid schema source `" ++ name ++ "`: " ++ message

def isFatal : SchemaError → Bool
  | noSchemaStore _ => true
  | _ => false

end SchemaError

inductive Halt where
  | schema (error : SchemaError)
  | misuse (cause : Misuse)
  /-- The bound on the depth was reached. -/
  | tooDeep
  deriving DecidableEq, Repr

namespace Halt

def message : Halt → String
  | schema error => error.message
  | misuse cause => cause.message
  | tooDeep => "the references of the schemas nest too deeply"

def isFatal : Halt → Bool
  | schema error => error.isFatal
  | _ => true

def ofLookup (place : Reference) : LookupError → Halt
  | .syntheticStep => misuse (.syntheticStep place.text)
  | cause => schema (.badLookup place cause)

end Halt

end JsonTyping
