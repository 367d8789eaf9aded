/-!
# Numbers of nodes

Nodes are numbered as they are made. The program has 32 bits for a number, so what is said of graphs
is meant for those of at most 2³² nodes.
-/

namespace JsonTyping

abbrev NodeId := Nat

def NodeId.text (t : NodeId) : String := "t" ++ toString t

end JsonTyping
