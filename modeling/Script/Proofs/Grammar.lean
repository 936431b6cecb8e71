import Script.Parser.Declaration
import Script.Proofs.Tree.Unplaced
/-!
# The grammar

What may be written, told without a parser: a relation between tokens and what they spell for each
kind of phrase. Only the texts of the tokens decide whether they are a phrase; their positions are
handed on to the nodes.
-/

namespace Script.Grammar

open Script.Parser (Modifiers)

variable {α : Type}

def Word (token : Token) : Prop := Identifier.isValid token.value = true

def statementWords : List String := ["return", "if", "else", "for", "while"]

def declarationWords : List String := ["export", "const", "func"]

def start (tokens : List Token) : Position := (tokens.head?.map Token.position).getD {}

/-! ### Types -/

inductive Suffixes : List Token → String → Prop
  | nil : Suffixes [] ""
  | joined {token : Token} {ts : List Token} {s : String} (ht : token.value = "[]")
      (h : Suffixes ts s) : Suffixes (token :: ts) ("[]" ++ s)
  | split {left right : Token} {ts : List Token} {s : String} (hl : left.value = "[")
      (hr : right.value = "]") (h : Suffixes ts s) : Suffixes (left :: right :: ts) ("[]" ++ s)

inductive TypeName : List Token → String → Prop
  | intro {word : Token} {ts : List Token} {s : String} (hw : Word word) (h : Suffixes ts s) :
      TypeName (word :: ts) (word.value ++ s)

/-! ### Lists in parentheses -/

/-- At least one item, with commas between them and the closing parenthesis behind them. -/
inductive Items (item : List Token → α → Prop) : List Token → List α → Prop
  | last {ts : List Token} {a : α} {right : Token} (h : item ts a) (hr : right.value = ")") :
      Items item (ts ++ [right]) [a]
  | more {ts us : List Token} {a : α} {as : List α} {comma : Token} (h : item ts a)
      (hc : comma.value = ",") (hs : Items item us as) : Items item (ts ++ comma :: us) (a :: as)

inductive Parenthesized (item : List Token → α → Prop) : List Token → List α → Prop
  | none {left right : Token} (hl : left.value = "(") (hr : right.value = ")") :
      Parenthesized item [left, right] []
  | some {left : Token} {ts : List Token} {as : List α} (hl : left.value = "(")
      (h : Items item ts as) : Parenthesized item (left :: ts) as

/-! ### Values -/

/-- A variable counted up or down. The end of the statement belongs to it. -/
inductive Step : List Token → Value → Prop
  | before {sign name semicolon : Token} (hs : sign.value = "++" ∨ sign.value = "--")
      (hn : Word name) (he : semicolon.value = ";") :
      Step [sign, name, semicolon]
        (.call ⟨if sign.value = "++" then "preincrement" else "predecrement", true,
          [.reference ⟨name.value, name.position⟩], sign.position⟩)
  | behind {name sign semicolon : Token} (hn : Word name)
      (hs : sign.value = "++" ∨ sign.value = "--") (he : semicolon.value = ";") :
      Step [name, sign, semicolon]
        (.call ⟨if sign.value = "++" then "postincrement" else "postdecrement", true,
          [.reference ⟨name.value, name.position⟩], name.position⟩)

mutual

inductive Expression : List Token → Value → Prop
  | step {ts : List Token} {v : Value} (h : Step ts v) : Expression ts v
  | plain {ts : List Token} {v : Value} (h : Plain ts v) : Expression ts v

/-- What stands for a value and does not end a statement. A word that is a literal is no
reference. -/
inductive Plain : List Token → Value → Prop
  | group {left right : Token} {ts : List Token} {v : Value} (hl : left.value = "(")
      (h : Expression ts v) (hr : right.value = ")") : Plain (left :: (ts ++ [right])) v
  | call {name : Token} {ts : List Token} {vs : List Value} (hn : Word name)
      (h : Parenthesized Expression ts vs) :
      Plain (name :: ts) (.call ⟨name.value, false, vs, name.position⟩)
  | literal {token : Token} {literal : Literal} (h : Literal.ofToken token = .ok literal) :
      Plain [token] (.literal literal)
  | reference {token : Token} {kind : SyntaxError} (h : Literal.ofToken token = .error kind)
      (hw : Word token) : Plain [token] (.reference ⟨token.value, token.position⟩)

end

inductive Terminated : List Token → Value → Prop
  | step {ts : List Token} {v : Value} (h : Step ts v) : Terminated ts v
  | plain {ts : List Token} {v : Value} {semicolon : Token} (h : Plain ts v)
      (he : semicolon.value = ";") : Terminated (ts ++ [semicolon]) v

/-! ### Parts of declarations -/

/-- Modifiers, each of them at most once. -/
inductive Modified : List Token → Modifiers → Prop
  | none : Modified [] ⟨false, false⟩
  | exported {e : Token} (he : e.value = "export") : Modified [e] ⟨true, false⟩
  | constant {c : Token} (hc : c.value = "const") : Modified [c] ⟨false, true⟩
  | exportedConstant {e c : Token} (he : e.value = "export") (hc : c.value = "const") :
      Modified [e, c] ⟨true, true⟩
  | constantExported {c e : Token} (hc : c.value = "const") (he : e.value = "export") :
      Modified [c, e] ⟨true, true⟩

/-- What follows a declared name. A constant cannot go without its value. -/
inductive Initializer : Bool → List Token → Option Value → Prop
  | none {semicolon : Token} (he : semicolon.value = ";") : Initializer false [semicolon] none
  | some {constant : Bool} {equals : Token} {ts : List Token} {v : Value}
      (he : equals.value = "=") (h : Terminated ts v) :
      Initializer constant (equals :: ts) (some v)

/-- What a name of this type is bound to. A variable may be left without a value. -/
inductive Bound (type : String) : Bool → Option Value → Binding Element → Prop
  | constant (v : Value) : Bound type true (some v) (.constant type v)
  | changeable (value? : Option Value) : Bound type false value? (.variable type value?)

inductive DeclaredParameter : List Token → Parameter → Prop
  | intro {ts : List Token} {type : String} {name : Token} (ht : TypeName ts type)
      (hn : Word name) : DeclaredParameter (ts ++ [name]) ⟨name.value, type, start ts⟩

/-! ### Sentences -/

mutual

/-- What spells one element of a program, or none. -/
inductive Sentence : List Token → Option Element → Prop
  | empty {semicolon : Token} (he : semicolon.value = ";") : Sentence [semicolon] none
  | step {ts : List Token} {v : Value} (h : Step ts v) : Sentence ts (some (.value v))
  | returned {word : Token} {ts : List Token} {v : Value} (hw : word.value = "return")
      (h : Terminated ts v) :
      Sentence (word :: ts) (some (.value (.call ⟨"return", true, [v], word.position⟩)))
  | call {name semicolon : Token} {ts : List Token} {vs : List Value} (hn : Word name)
      (hs : name.value ∉ statementWords) (h : Parenthesized Expression ts vs)
      (he : semicolon.value = ";") :
      Sentence (name :: (ts ++ [semicolon]))
        (some (.value (.call ⟨name.value, false, vs, name.position⟩)))
  | group {left left' right' right semicolon : Token} {ts : List Token} {v : Value}
      (hl : left.value = "(") (hl' : left'.value = "(") (h : Expression ts v)
      (hr' : right'.value = ")") (hr : right.value = ")") (he : semicolon.value = ";") :
      Sentence (left :: left' :: (ts ++ [right', right, semicolon])) (some (.value v))
  | declared {ms ts us : List Token} {m : Modifiers} {word name : Token} {type : String}
      {value? : Option Value} {bound : Binding Element} (hm : Modified ms m)
      (ht : TypeName (word :: ts) type)
      (hd : word.value ∉ declarationWords) (hs : ms = [] → word.value ∉ statementWords)
      (hn : Word name) (h : Initializer m.constant us value?)
      (hb : Bound type m.constant value? bound) :
      Sentence (ms ++ (word :: (ts ++ name :: us)))
        (some (.declaration ⟨name.value, m.exported, start (ms ++ [word]), bound⟩))
  | function {ms ps ts us : List Token} {exported : Bool} {func name left right : Token}
      {parameters : List Parameter} {returnType : String} {body : List Element}
      (hm : Modified ms ⟨exported, false⟩) (hf : func.value = "func") (hn : Word name)
      (hp : Parenthesized DeclaredParameter ps parameters) (ht : TypeName ts returnType)
      (hl : left.value = "\x7b") (h : Program us body) (hr : right.value = "\x7d") :
      Sentence (ms ++ (func :: name :: (ps ++ (ts ++ left :: (us ++ [right])))))
        (some (.declaration ⟨name.value, exported, start (ms ++ [func]),
          .function ⟨returnType, parameters, body⟩⟩))
  | assigned {name equals : Token} {ts : List Token} {v : Value} (hn : Word name)
      (hs : name.value ∉ statementWords) (hd : name.value ∉ declarationWords)
      (he : equals.value = "=") (h : Terminated ts v) :
      Sentence (name :: equals :: ts) (some (.assignment ⟨name.value, v, name.position⟩))

/-- Sentences one after the other, and the elements they spell. -/
inductive Program : List Token → List Element → Prop
  | nil : Program [] []
  | cons {ts us : List Token} {element? : Option Element} {elements : List Element}
      (h : Sentence ts element?) (hs : Program us elements) :
      Program (ts ++ us) (element?.toList ++ elements)

end

/-- The texts spell the elements: tokens with these texts, wherever they stand, spell elements that
are the same up to their positions. -/
def Derives (values : List String) (elements : List Element) : Prop :=
  ∃ tokens placed, tokens.map Token.value = values ∧ Program tokens placed ∧
    placed.map Element.unplaced = elements

end Script.Grammar
