import LoxLang.Value.Basic

/-!
# Operators on values

Equality is defined between all values and never fails. Values of different kinds are
different, a number that is no number equals itself, and functions, classes and objects
are compared by identity. The other operators demand operands of certain kinds.
-/

namespace LoxLang

variable {Home : Type}

namespace Value

/-- Only `nil` and `false` count as false. -/
def isTruthy : Value Home → Bool
  | nil => false
  | bool value => value
  | _ => true

def same : Value Home → Value Home → Bool
  | nil, nil => true
  | bool left, bool right => left == right
  | number left, number right => left == right || (left.isNaN && right.isNaN)
  | string left, string right => left == right
  | function left _, function right _ => left == right
  | native left, native right => left.identity == right.identity
  | classValue left, classValue right => left.identity == right.identity
  | object left _, object right _ => left == right
  | _, _ => false

end Value

inductive OperandFault where
  | numberNeeded
  | numbersNeeded
  | numbersOrStringsNeeded
  deriving DecidableEq, Repr

def OperandFault.message : OperandFault → String
  | numberNeeded => "Operand must be a number."
  | numbersNeeded => "Operands must be numbers."
  | numbersOrStringsNeeded => "Operands must be two numbers or two strings."

def Value.combine (operation : Float → Float → Value Home) :
    Value Home → Value Home → Except OperandFault (Value Home)
  | .number left, .number right => .ok (operation left right)
  | _, _ => .error .numbersNeeded

def Value.add : Value Home → Value Home → Except OperandFault (Value Home)
  | .number left, .number right => .ok (.number (left + right))
  | .string left, .string right => .ok (.string (left ++ right))
  | _, _ => .error .numbersOrStringsNeeded

/-- The quotient of two numbers. Division by zero gives an infinity, or no number if the
dividend is zero or no number. -/
def divide (left right : Float) : Float := left / right

def BinaryOperator.apply :
    BinaryOperator → Value Home → Value Home → Except OperandFault (Value Home)
  | equal, left, right => .ok (.bool (left.same right))
  | notEqual, left, right => .ok (.bool (!left.same right))
  | greater, left, right =>
    left.combine (fun left right => .bool (decide (left > right))) right
  | greaterEqual, left, right =>
    left.combine (fun left right => .bool (decide (left ≥ right))) right
  | less, left, right =>
    left.combine (fun left right => .bool (decide (left < right))) right
  | lessEqual, left, right =>
    left.combine (fun left right => .bool (decide (left ≤ right))) right
  | add, left, right => left.add right
  | subtract, left, right => left.combine (fun left right => .number (left - right)) right
  | multiply, left, right => left.combine (fun left right => .number (left * right)) right
  | divide, left, right =>
    left.combine (fun left right => .number (LoxLang.divide left right)) right

def UnaryOperator.apply : UnaryOperator → Value Home → Except OperandFault (Value Home)
  | not, value => .ok (.bool (!value.isTruthy))
  | negate, .number value => .ok (.number (-value))
  | negate, _ => .error .numberNeeded

/-- Whether the left operand of a logical operator already is its result. -/
def LogicalOperator.decidedBy : LogicalOperator → Value Home → Bool
  | conjunction, left => !left.isTruthy
  | disjunction, left => left.isTruthy

end LoxLang
