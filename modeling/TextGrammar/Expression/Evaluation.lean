import TextGrammar.Expression.Instruction
import TextGrammar.Namespace

/-!
# Evaluation of Expressions

Expressions are instructions in postfix order, evaluated from left to right on
a stack of operands. The value on top at the end is the result; what lies below
it is ignored.

## Main definitions

* `Expression`: A sequence of instructions.
* `EvaluationError`: An operator without enough operands, or no result at all.
* `Expression.run`: The stack after the instructions.
* `Expression.evaluate`: The result, which is missing when the last value is a
  look-up of a missing name.
* `Expression.isTrue`: The truth value of the result.
-/

namespace TextGrammar

/-- Instructions in postfix order. -/
structure Expression where
  instructions : List Instruction

/-- Why an expression has no value. -/
inductive EvaluationError where
  | notEnoughOperands (instruction : Instruction) (expression : Expression)
  | noValue (expression : Expression)

namespace Expression

/-- The text of an expression: its instructions with spaces between. -/
def toText (e : Expression) : String := " ".intercalate (e.instructions.map Instruction.toText)

/-- The number of instructions. -/
def size (e : Expression) : Nat := e.instructions.length

/-- Equality of expressions, instruction by instruction. -/
def equal (a b : Expression) : Bool :=
  a.size == b.size && (a.instructions.zip b.instructions).all fun pair => pair.1.equal pair.2

/-- A stack of operands, the top one first. A missing datum is an operand too. -/
abbrev Stack := List (Option Datum)

/-- The stack after one instruction, or nothing if operands are lacking. -/
def step (ns : Namespace) : Instruction → Stack → Option Stack
  | .literal d, stack => some (some d :: stack)
  | .get name, stack => some (ns.operand? name :: stack)
  | .not, a :: stack => some (some (.boolean (!BinaryOperator.truth a)) :: stack)
  | .binary op, b :: a :: stack => some (some (op.apply a b) :: stack)
  | _, _ => none

/-- The stack after a sequence of instructions, or the first instruction that
    lacks operands. -/
def run (ns : Namespace) : List Instruction → Stack → Except Instruction Stack
  | [], stack => .ok stack
  | i :: rest, stack =>
    match step ns i stack with
    | some next => run ns rest next
    | none => .error i

/-- The result of an expression. Without instructions it is one, which is true. -/
def evaluate (e : Expression) (ns : Namespace) : Except EvaluationError (Option Datum) :=
  match e.instructions with
  | [] => .ok (some (.number 1))
  | is =>
    match run ns is [] with
    | .error i => .error (.notEnoughOperands i e)
    | .ok [] => .error (.noValue e)
    | .ok (top :: _) => .ok top

/-- The truth value of the result. A missing one is false. -/
def isTrue (e : Expression) (ns : Namespace) : Except EvaluationError Bool :=
  match e.evaluate ns with
  | .ok d => .ok (BinaryOperator.truth d)
  | .error err => .error err

end Expression

/-- The text of the error. -/
def EvaluationError.message : EvaluationError → String
  | .notEnoughOperands i e => "Not enough operands for '" ++ i.toText ++ "' in '" ++ e.toText ++ "'"
  | .noValue e => "Expression '" ++ e.toText ++ "' left no value on the stack"

end TextGrammar
