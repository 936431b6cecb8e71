import Script.Parser.Expression
/-!
# Rules for statements

Where a value is due, only the rules that produce values are asked, and so it is for every value
inside of a value. The rules for statements do not matter there: neither for the value or the fault
that is found, nor for the cursor that is left behind.
-/

namespace Script.Parser

variable (rules : List Rule)

private theorem first?_filter_producesValue (window : Window) :
    Rule.first? (rules.filter Rule.producesValue) true window = Rule.first? rules true window := by
  rw [Rule.first?, Rule.first?, List.find?_filter]
  congr 1
  funext rule
  cases rule.producesValue <;> simp

private theorem byRule_filter_producesValue :
    byRule (rules.filter Rule.producesValue) true = byRule rules true := by
  simp only [byRule, first?_filter_producesValue]

/-- The recursion runs from one value to those inside of it, and each of them asks the rules in the
same way. -/
theorem expression_filter_producesValue :
    expression (rules.filter Rule.producesValue) = expression rules := by
  have hbody : expressionBody (rules.filter Rule.producesValue) = expressionBody rules := by
    funext inner
    rw [expressionBody, expressionBody, byRule_filter_producesValue]
  rw [expression, expression, hbody]

/-- Rules that produce no values never matter for an expression: without them the same value is
read or the same fault is found, and the same cursor is left either way. -/
theorem expression_ignores_statement_rules (c : Cursor) :
    (expression (rules.filter Rule.producesValue)).run c = (expression rules).run c ∧
      (expression (rules.filter Rule.producesValue)).stop c = (expression rules).stop c := by
  rw [expression_filter_producesValue]
  exact ⟨rfl, rfl⟩

/-- A call stops before the argument that no comma separates from the one before. -/
example :
    let c := Cursor.start (["f", "(", "g", "(", "a", ")", "b", ")"].map (Token.mk {}))
    (expression Rule.defaults).stop c = c.advance 6 := by
  decide

end Script.Parser
