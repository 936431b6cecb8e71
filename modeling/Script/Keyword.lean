/-!
# Keywords

The words with a meaning of their own. They are spelled in lower case only.
-/

namespace Script

inductive Keyword where
  | exportWord
  | constWord
  | funcWord
  | returnWord
  | trueWord
  | falseWord
  | nullWord
  | ifWord
  | elseWord
  | forWord
  | whileWord
deriving DecidableEq, Repr

namespace Keyword

def all : List Keyword :=
  [.exportWord, .constWord, .funcWord, .returnWord, .trueWord, .falseWord, .nullWord, .ifWord,
    .elseWord, .forWord, .whileWord]

def text : Keyword → String
  | .exportWord => "export"
  | .constWord => "const"
  | .funcWord => "func"
  | .returnWord => "return"
  | .trueWord => "true"
  | .falseWord => "false"
  | .nullWord => "null"
  | .ifWord => "if"
  | .elseWord => "else"
  | .forWord => "for"
  | .whileWord => "while"

def ofText? (text : String) : Option Keyword := all.find? (·.text == text)

def isStatement : Keyword → Bool
  | .ifWord | .elseWord | .forWord | .whileWord => true
  | _ => false

def isModifier : Keyword → Bool
  | .exportWord | .constWord => true
  | _ => false

@[simp] theorem ofText?_text (k : Keyword) : ofText? k.text = some k := by
  cases k <;> rfl

theorem ofText?_eq_some_iff {text : String} {k : Keyword} :
    ofText? text = some k ↔ k.text = text := by
  constructor
  · intro h
    simpa using List.find?_some h
  · rintro rfl
    exact ofText?_text k

end Keyword

end Script
