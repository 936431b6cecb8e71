import Script.Position
/-!
# The tree

What a source means: declarations, assignments, values and control flow statements, nested in one
another. Every node knows the position of its first token.
-/

namespace Script

inductive LiteralKind where
  | string
  | boolean
  | null
  | int
  | float
  | double
deriving DecidableEq, Repr

namespace LiteralKind

def all : List LiteralKind := [.string, .boolean, .null, .int, .float, .double]

def name : LiteralKind → String
  | .string => "string"
  | .boolean => "boolean"
  | .null => "null"
  | .int => "int"
  | .float => "float"
  | .double => "double"

def ofName? (name : String) : Option LiteralKind := all.find? (·.name == name)

@[simp] theorem ofName?_name (kind : LiteralKind) : ofName? kind.name = some kind := by
  cases kind <;> rfl

theorem ofName?_eq_some_iff {name : String} {kind : LiteralKind} :
    ofName? name = some kind ↔ kind.name = name := by
  constructor
  · intro h
    simpa using List.find?_some h
  · rintro rfl
    exact ofName?_name kind

end LiteralKind

/-- A constant written in the source. A string is kept without quotes and escapes, a number without
its suffix and in decimal. -/
structure Literal where
  kind : LiteralKind
  text : String
  position : Position
deriving DecidableEq, Repr

structure Reference where
  name : String
  position : Position
deriving DecidableEq, Repr

/-- A call with arguments that are nodes of type `ν`. Calls of built in operations are internal and
have no name that a source could call. -/
structure Call (ν : Type) where
  name : String
  internal : Bool
  arguments : List ν
  position : Position
deriving DecidableEq, Repr

inductive Value where
  | call (node : Call Value)
  | reference (node : Reference)
  | literal (node : Literal)

structure Assignment where
  name : String
  value : Value
  position : Position

structure Parameter where
  name : String
  type : String
  position : Position
deriving DecidableEq, Repr

structure Function (ε : Type) where
  returnType : String
  parameters : List Parameter
  body : List ε
deriving DecidableEq, Repr

inductive Binding (ε : Type) where
  | function (function : Function ε)
  | constant (type : String) (value : Value)
  /-- A variable may be left without a value. -/
  | variable (type : String) (value? : Option Value)

structure Declaration (ε : Type) where
  name : String
  exported : Bool
  position : Position
  binding : Binding ε

structure ForHeader (ε : Type) where
  initial : ε
  condition : Value
  repeated : ε

inductive Statement (ε : Type) where
  | ifThen (condition : Value) (body : List ε) (position : Position)
  | otherwise (body : List ε) (position : Position)
  | forLoop (header : ForHeader ε) (body : List ε) (position : Position)
  | whileLoop (condition : Value) (body : List ε) (position : Position)

inductive Element where
  | declaration (node : Declaration Element)
  | assignment (node : Assignment)
  | value (node : Value)
  | statement (node : Statement Element)

structure Root where
  file : Option String
  elements : List Element

/-- The type that every function is declared with. -/
def functionType : String := "function"

namespace Value

def position : Value → Position
  | .call node => node.position
  | .reference node => node.position
  | .literal node => node.position

end Value

namespace Declaration

variable {ε : Type}

/-- Functions and constants keep their first value. -/
def isConstant (d : Declaration ε) : Bool :=
  match d.binding with
  | .function _ | .constant .. => true
  | .variable .. => false

def typeName (d : Declaration ε) : String :=
  match d.binding with
  | .function _ => functionType
  | .constant type _ => type
  | .variable type _ => type

def value? (d : Declaration ε) : Option Value :=
  match d.binding with
  | .function _ => none
  | .constant _ value => some value
  | .variable _ value? => value?

def function? (d : Declaration ε) : Option (Function ε) :=
  match d.binding with
  | .function function => some function
  | _ => none

end Declaration

namespace Statement

variable {ε : Type}

def position : Statement ε → Position
  | .ifThen _ _ position => position
  | .otherwise _ position => position
  | .forLoop _ _ position => position
  | .whileLoop _ _ position => position

def body : Statement ε → List ε
  | .ifThen _ body _ => body
  | .otherwise body _ => body
  | .forLoop _ body _ => body
  | .whileLoop _ body _ => body

end Statement

namespace Element

def position : Element → Position
  | .declaration node => node.position
  | .assignment node => node.position
  | .value node => node.position
  | .statement node => node.position

def value? : Element → Option Value
  | .value node => some node
  | _ => none

end Element

end Script
