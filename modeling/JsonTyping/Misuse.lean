import JsonTyping.Graph.NodeId

/-!
# Misuse

Some functions are only meant for some states: a value needs a place to go, members are set once.
Such a function answers a `Misuse` where it is not meant to be used. These are the violations of
rules in SPEC_FULL.md §7.
-/

namespace JsonTyping

/-- A use of the library that its rules exclude. -/
inductive Misuse where
  | unionWithoutMembers
  | membersAlreadySet (node : NodeId)
  | notASetOperation (node : NodeId) (kind : String)
  | rootCommittedTwice
  | valueWithoutKey
  | keySetTwice
  | keyOutsideObject
  | noOpenObject
  | danglingKey
  | noOpenArray
  | stillOpen (count : Nat)
  | noRoot
  | tableOverflow
  | notAnObject (value : String)
  | notAnArray (value : String)
  | noString (kind : String)
  | twoTypesForPlace (place : String)
  | unionAttributesWithoutUnion
  | caseCount
  | syntheticStep (reference : String)
  deriving DecidableEq, Repr

def Misuse.message : Misuse → String
  | unionWithoutMembers => "union without members"
  | membersAlreadySet node => "members of " ++ node.text ++ " already set"
  | notASetOperation node kind => node.text ++ " is a " ++ kind ++ ", not a set operation"
  | rootCommittedTwice => "root value committed twice"
  | valueWithoutKey => "object value committed without a key"
  | keySetTwice => "object key set twice"
  | keyOutsideObject => "object key outside an object context"
  | noOpenObject => "finish_object without an open object context"
  | danglingKey => "object finished with a dangling key"
  | noOpenArray => "finish_array without an open array context"
  | stillOpen count => toString count ++ " parse contexts still open"
  | noRoot => "no root value committed"
  | tableOverflow => "value store table overflow"
  | notAnObject value => "not an object: " ++ value
  | notAnArray value => "not an array: " ++ value
  | noString kind => kind ++ " carries no string"
  | twoTypesForPlace place => place ++ " converted to two different types"
  | unionAttributesWithoutUnion => "union attributes without a union"
  | caseCount => "one attribute set per case"
  | syntheticStep reference => "cannot look up synthetic path element in " ++ reference

end JsonTyping
