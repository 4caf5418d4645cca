import TextGrammar.Datum

/-!
# Instructions

The instructions of the stack machine that decides guards, and the rules of
its operators.

Every operator has a rule for missing operands, so a datum that is not there is
never an error. Where a number is expected, data of the other types count as
missing. Arithmetic puts the neutral element of the operation in the place of a
missing operand. Comparison treats a missing left operand as below all numbers
and, only if the left one is a number, a missing right operand likewise.

## Main definitions

* `BinaryOperator`: The operators of two operands.
* `Instruction`: Push a literal, push the datum of a name, negate, or combine.
* `BinaryOperator.apply`: The rule of each operator.
-/

namespace TextGrammar

/-- The operators that take two operands from the stack. -/
inductive BinaryOperator where
  | add
  | subtract
  | multiply
  | divide
  | modulo
  | or
  | and
  | equal
  | notEqual
  | lessThan
  | lessThanOrEquals
  | greaterThanOrEquals
  | greaterThan
  | minimum
  | maximum
deriving DecidableEq

/-- One instruction of an expression. -/
inductive Instruction where
  | literal (d : Datum)
  | get (name : String)
  | not
  | binary (op : BinaryOperator)

namespace BinaryOperator

/-- The word for the operator in the text of an expression. -/
def symbol : BinaryOperator → String
  | .add => "+"
  | .subtract => "-"
  | .multiply => "*"
  | .divide => "/"
  | .modulo => "%"
  | .or => "|"
  | .and => "&"
  | .equal => "="
  | .notEqual => "!="
  | .lessThan => "<"
  | .lessThanOrEquals => "<="
  | .greaterThanOrEquals => ">="
  | .greaterThan => ">"
  | .minimum => "<<"
  | .maximum => ">>"

/-- All operators of two operands. -/
def all : List BinaryOperator :=
  [.add, .subtract, .multiply, .divide, .modulo, .or, .and, .equal, .notEqual, .lessThan,
    .lessThanOrEquals, .greaterThanOrEquals, .greaterThan, .minimum, .maximum]

/-- The operator with the given word. -/
def ofSymbol? (word : String) : Option BinaryOperator := all.find? fun op => op.symbol == word

/-- The number an operand holds. Data of other types hold none, like a missing
    operand. -/
def number? : Option Datum → Option Binary64
  | some (.number x) => some x
  | _ => none

/-- The truth value of an operand. A missing one is false. -/
def truth : Option Datum → Bool
  | some d => d.isTrue
  | none => false

/-- Arithmetic with a neutral element in the place of what is missing. -/
def arithmetic (combine : Binary64 → Binary64 → Binary64) (neutral : Binary64)
    (a b : Option Datum) : Datum :=
  .number (combine ((number? a).getD neutral) ((number? b).getD neutral))

/-- The remainder. Without a dividend it is zero, and without a divisor it is the
    dividend. -/
def remainder (a b : Option Datum) : Datum :=
  match number? a, number? b with
  | none, _ => .number 0
  | some x, none => .number x
  | some x, some y => .number (x % y)

/-- One of two numbers. A number alone is taken, and with none at all the result
    is zero. -/
def choice (choose : Binary64 → Binary64 → Binary64) (a b : Option Datum) : Datum :=
  match number? a, number? b with
  | none, none => .number 0
  | none, some y => .number y
  | some x, none => .number x
  | some x, some y => .number (choose x y)

/-- A comparison of two numbers, with the answers where the left operand is
    missing and where only the right one is. -/
def comparison (test : Binary64 → Binary64 → Bool) (leftMissing rightMissing : Bool)
    (a b : Option Datum) : Datum :=
  match number? a, number? b with
  | none, _ => .boolean leftMissing
  | some _, none => .boolean rightMissing
  | some x, some y => .boolean (test x y)

/-- The result of an operator on its left and right operand. -/
def apply : BinaryOperator → Option Datum → Option Datum → Datum
  | .add, a, b => arithmetic (· + ·) 0 a b
  | .subtract, a, b => arithmetic (· - ·) 0 a b
  | .multiply, a, b => arithmetic (· * ·) 1 a b
  | .divide, a, b => arithmetic (· / ·) 1 a b
  | .modulo, a, b => remainder a b
  | .or, a, b => .boolean (truth a || truth b)
  | .and, a, b => .boolean (truth a && truth b)
  | .equal, a, b => .boolean (Datum.equal? a b)
  | .notEqual, a, b => .boolean (!Datum.equal? a b)
  | .lessThan, a, b => comparison (fun x y => decide (x < y)) true false a b
  | .lessThanOrEquals, a, b => comparison (fun x y => decide (x ≤ y)) true false a b
  | .greaterThanOrEquals, a, b => comparison (fun x y => decide (y ≤ x)) false true a b
  | .greaterThan, a, b => comparison (fun x y => decide (y < x)) false true a b
  | .minimum, a, b => choice Binary64.least a b
  | .maximum, a, b => choice Binary64.greatest a b

end BinaryOperator

/-- An instruction as it is written in the text of an expression. -/
def Instruction.toText : Instruction → String
  | .literal d => d.toText
  | .get name => name ++ "?"
  | .not => "!"
  | .binary op => op.symbol

/-- Equality of instructions, which for literals is equality of data. -/
def Instruction.equal : Instruction → Instruction → Bool
  | .literal d, .literal e => d.equal e
  | .get a, .get b => a == b
  | .not, .not => true
  | .binary p, .binary q => p == q
  | _, _ => false

end TextGrammar
