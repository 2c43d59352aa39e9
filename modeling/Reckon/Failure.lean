import Reckon.Scanner.Machine

/-! What can go wrong, and how it is said. -/

namespace Reckon

/-- Why tokens in reverse Polish notation have no value. All causes but the last two name a
token. -/
inductive Failure where
  | malformed (f : Fault)
  | missingOperand (o : Operator)
  | divisionByZero (o : Operator)
  | overflow (o : Operator)
  /-- Parentheses have no place in reverse Polish notation. -/
  | unexpectedParenthesis (p : Parenthesis)
  /-- More than one value was left at the end. -/
  | expectedOperator
  | emptyExpression
  deriving DecidableEq

namespace Failure

def message : Failure → String
  | malformed f =>
    "cannot evaluate invalid expression: " ++ f.message ++ " \x60" ++ f.span.text ++ "\x60"
  | missingOperand o => "not enough arguments for operator " ++ o.kind.char.toString
  | divisionByZero _ => "division by zero"
  | overflow o => "integer overflow while applying operator " ++ o.kind.char.toString
  | unexpectedParenthesis p => "unexpected token " ++ p.span.text
  | expectedOperator => "expected operator"
  | emptyExpression => "empty expression"

def span? : Failure → Option Span
  | malformed f => some f.span
  | missingOperand o | divisionByZero o | overflow o => some o.span
  | unexpectedParenthesis p => some p.span
  | expectedOperator | emptyExpression => none

/-- A hint to show beside the text under the span. -/
def help? : Failure → Option String
  | malformed _ => some "the expression is malformed here"
  | missingOperand _ => some "this operator is missing an operand"
  | divisionByZero _ => some "the right operand of this division is zero"
  | overflow _ => some "the result does not fit into a 32-bit integer"
  | unexpectedParenthesis _ =>
    some "parentheses never reach the evaluator of a correctly parsed expression"
  | expectedOperator | emptyExpression => none

/-- Whether the fault lies with the stage that made the tokens, not with the expression. -/
def isInternal : Failure → Bool
  | unexpectedParenthesis _ => true
  | _ => false

end Failure

/-- What a calculation reports: a failed evaluation, or a scanner driven past its end. -/
inductive Error where
  | evaluation (f : Failure)
  | usage (e : Scanner.UsageError)
  deriving DecidableEq

namespace Error

def message : Error → String
  | evaluation f => "An error occurred while evaluating the expression: " ++ f.message
  | usage e => "The pipeline was driven incorrectly: " ++ e.message

def span? : Error → Option Span
  | evaluation f => f.span?
  | usage _ => none

def help? : Error → Option String
  | evaluation f => f.help?
  | usage _ => none

end Error

end Reckon
