import Script.Proofs.Tree.Places
import Script.Tree.Reading
import Script.Tree.Written
/-!
# Types of nodes

What is said of every type of node alike: each has its nodes, a way to write and to read them, and
the positions that stand in them.
-/

namespace Script

inductive NodeKind where
  | position
  | reference
  | literal
  | call
  | value
  | assignment
  | parameter
  | function
  | forHeader
  | declaration
  | statement
  | element
  | root
deriving DecidableEq, Repr

namespace NodeKind

def Node : NodeKind → Type
  | .position => Position
  | .reference => Reference
  | .literal => Literal
  | .call => Call Value
  | .value => Value
  | .assignment => Assignment
  | .parameter => Parameter
  | .function => Function Element
  | .forHeader => ForHeader Element
  | .declaration => Declaration Element
  | .statement => Statement Element
  | .element => Element
  | .root => Root

def write : (kind : NodeKind) → kind.Node → Json
  | .position, p => Position.toJson p
  | .reference, r => Reference.toJson r
  | .literal, l => Literal.toJson l
  | .call, c => Call.toJson c
  | .value, v => Value.toJson v
  | .assignment, a => Assignment.toJson a
  | .parameter, p => Parameter.toJson p
  | .function, f => Function.toJson f
  | .forHeader, h => ForHeader.toJson h
  | .declaration, d => Declaration.toJson d
  | .statement, s => Statement.toJson s
  | .element, e => Element.toJson e
  | .root, r => Root.toJson r

/-- Reads a node. Some types are read the same way in either spelling. -/
def read : (kind : NodeKind) → Spelling → Json → Except ReadError kind.Node
  | .position, _, j => orMalformed (Position.ofJson? j)
  | .reference, _, j => orMalformed (Reference.ofJson? j)
  | .literal, spelling, j => orMalformed (Literal.ofJson? spelling j)
  | .call, spelling, j => orMalformed (Call.ofJson? spelling j)
  | .value, spelling, j => orMalformed (Value.ofJson? spelling j)
  | .assignment, spelling, j => orMalformed (Assignment.ofJson? spelling j)
  | .parameter, _, j => orMalformed (Parameter.ofJson? j)
  | .function, spelling, j => Function.ofJson spelling j
  | .forHeader, spelling, j => ForHeader.ofJson spelling j
  | .declaration, _, j => Declaration.ofJson j
  | .statement, spelling, j => Statement.ofJson spelling j
  | .element, spelling, j => Element.ofJson spelling j
  | .root, _, j => Root.ofJson j

def names : NodeKind → List Json → List String
  | .position => Position.names
  | .reference => Reference.names
  | .literal => Literal.names
  | .call => Call.names
  | .value => Value.names
  | .assignment => Assignment.names
  | .parameter => Parameter.names
  | .function => Function.names
  | .forHeader => ForHeader.names
  | .declaration => Declaration.names
  | .statement => Statement.names
  | .element => Element.names
  | .root => Root.names

def positions : (kind : NodeKind) → kind.Node → List Position
  | .position, p => [p]
  | .reference, r => [Reference.position r]
  | .literal, l => [Literal.position l]
  | .call, c => Call.positions c
  | .value, v => Value.positions v
  | .assignment, a => Assignment.positions a
  | .parameter, p => [Parameter.position p]
  | .function, f => Function.positions f
  | .forHeader, h => ForHeader.positions h
  | .declaration, d => Declaration.positions d
  | .statement, s => Statement.positions s
  | .element, e => Element.positions e
  | .root, r => Root.positions r

end NodeKind

end Script
