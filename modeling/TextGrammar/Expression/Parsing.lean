import TextGrammar.Expression.Evaluation
import TextGrammar.Text.Blank

/-!
# Expressions from Text

The text of an expression is its instructions with white space between them:
numbers, operators, and names with a question mark behind.

A word that is a number is a literal even if it could be read otherwise, so
`nan?` is a look-up but `nan` is not.

## Main definitions

* `Instruction.ofWord?`: The instruction that a word stands for.
* `Expression.parse`: The expression of a text, or the first word that stands
  for no instruction.
-/

namespace TextGrammar

/-- The instruction a word stands for: a number, an operator, or a look-up of
    the name in front of a question mark. -/
def Instruction.ofWord? (word : String) : Option Instruction :=
  match Numeral.read? word with
  | some x => some (.literal (.number x))
  | none =>
    if word == "!" then some .not
    else
      match BinaryOperator.ofSymbol? word with
      | some op => some (.binary op)
      | none =>
        match word.toList.reverse with
        | '?' :: c :: rest => some (.get (String.ofList (c :: rest).reverse))
        | _ => none

namespace Expression

/-- The instructions of words, or the first word that stands for none. -/
def ofWords : List String → Except String (List Instruction)
  | [] => .ok []
  | word :: rest =>
    match Instruction.ofWord? word with
    | none => .error word
    | some i =>
      match ofWords rest with
      | .ok is => .ok (i :: is)
      | .error w => .error w

/-- The expression of a text, or the first word that stands for no instruction. -/
def parse (text : String) : Except String Expression :=
  match ofWords ((Text.words text.toList).map String.ofList) with
  | .ok is => .ok ⟨is⟩
  | .error w => .error w

end Expression

end TextGrammar
