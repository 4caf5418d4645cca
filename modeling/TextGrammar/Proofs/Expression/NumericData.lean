import TextGrammar.Proofs.Expression.Comparison
import TextGrammar.Proofs.Expression.Tree

/-!
# Data without Numbers

That to an expression of numbers, data of other types are as good as missing.

Arithmetic, the choice of the smaller or greater number and the comparisons see the
numbers that their operands hold, and nothing else of them. So in a tree of such
operators, the number of each part is settled by the numbers that the namespace holds.
The value of a part that is a name or a literal may still be a text, but what is above it
cannot tell.

A comparison has a value that is no number. It does not matter to what is above it which
of the two values that is, and it is the same one for the same numbers anyway. So an
expression that ends in an operator has the same result, type included, wherever names
stand for the same numbers. To remove data that are not numbers changes no number.

## Main definitions

* `BinaryOperator.numeric`: The operators on numbers.
* `Instruction.IsNumeric`: An instruction has none of the other operators.
* `Namespace.without`: A namespace from which names are removed.

## Theorems

* `BinaryOperator.apply_congr`: An operator on numbers sees nothing but numbers.
* `ExpressionTree.number_value_congr`: The number of a tree depends on the numbers of
  names.
* `Expression.evaluate_congr_numbers`: And so does the result of an expression.
* `Expression.evaluate_without`: The result without data that are not numbers.
-/

namespace TextGrammar

namespace BinaryOperator

/-- The operators on numbers: arithmetic, the comparisons, and the choice of one number. -/
def numeric : List BinaryOperator :=
  [.add, .subtract, .multiply, .divide, .modulo] ++ comparisons ++ [.minimum, .maximum]

section

variable {a b a' b' : Option Datum} (ha : number? a = number? a') (hb : number? b = number? b')

include ha hb

theorem arithmetic_congr (combine : Binary64 → Binary64 → Binary64) (neutral : Binary64) :
    arithmetic combine neutral a b = arithmetic combine neutral a' b' := by
  unfold arithmetic
  rw [ha, hb]

theorem remainder_congr : remainder a b = remainder a' b' := by
  unfold remainder
  rw [ha, hb]

theorem choice_congr (choose : Binary64 → Binary64 → Binary64) :
    choice choose a b = choice choose a' b' := by
  unfold choice
  rw [ha, hb]

/-- An operator on numbers sees nothing of its operands but the numbers they hold. -/
theorem apply_congr {op : BinaryOperator} (hop : op ∈ numeric) : op.apply a b = op.apply a' b' := by
  rcases List.mem_append.1 hop with hop | hop
  · rcases List.mem_append.1 hop with hop | hop
    · simp only [List.mem_cons, List.not_mem_nil, or_false] at hop
      rcases hop with rfl | rfl | rfl | rfl | rfl
      · exact arithmetic_congr ha hb _ _
      · exact arithmetic_congr ha hb _ _
      · exact arithmetic_congr ha hb _ _
      · exact arithmetic_congr ha hb _ _
      · exact remainder_congr ha hb
    · exact apply_congr_of_mem_comparisons hop ha hb
  · simp only [List.mem_cons, List.not_mem_nil, or_false] at hop
    rcases hop with rfl | rfl
    · exact choice_congr ha hb _
    · exact choice_congr ha hb _

end

end BinaryOperator

/-- An instruction pushes a datum, or is an operator on numbers. -/
def Instruction.IsNumeric : Instruction → Prop
  | .literal _ => True
  | .get _ => True
  | .not => False
  | .binary op => op ∈ BinaryOperator.numeric

namespace Namespace

variable {a b : Namespace}

theorem number?_eq (ns : Namespace) (key : String) :
    ns.number? key = BinaryOperator.number? (ns.get? key) := rfl

/-- An operand is a number exactly if there is one under the name. -/
theorem number?_operand? (ns : Namespace) (key : String) :
    BinaryOperator.number? (ns.operand? key) = (ns.number? key).map (Binary64.under key) := by
  rw [operand?, number?]
  cases ns.get? key with
  | none => rfl
  | some d => cases d <;> rfl

/-- A namespace from which names are removed. -/
def without (ns : Namespace) (keys : List String) : Namespace := keys.foldl remove ns

theorem get?_without (ns : Namespace) (keys : List String) (name : String) :
    (ns.without keys).get? name = if name ∈ keys then none else ns.get? name := by
  induction keys generalizing ns with
  | nil => rfl
  | cons key rest ih =>
      rw [show ns.without (key :: rest) = (ns.remove key).without rest from rfl, ih, get?_remove]
      by_cases hrest : name ∈ rest
      · rw [if_pos hrest, if_pos (List.mem_cons_of_mem key hrest)]
      · simp only [List.mem_cons, hrest, or_false, if_false, eq_comm]

/-- The numbers stay if names are removed that hold none. -/
theorem number?_without {ns : Namespace} {keys : List String}
    (h : ∀ key ∈ keys, ns.number? key = none) (name : String) :
    (ns.without keys).number? name = ns.number? name := by
  rw [number?_eq, get?_without]
  by_cases hname : name ∈ keys
  · rw [if_pos hname, h name hname]
    rfl
  · rw [if_neg hname]
    rfl

end Namespace

open ExpressionTree

theorem ExpressionTree.forall_isNumeric_binary_iff {op : BinaryOperator}
    {left right : ExpressionTree} :
    (∀ i ∈ (ExpressionTree.binary op left right).instructions, i.IsNumeric) ↔
      (∀ i ∈ left.instructions, i.IsNumeric) ∧ (∀ i ∈ right.instructions, i.IsNumeric) ∧
        op ∈ BinaryOperator.numeric := by
  rw [ExpressionTree.instructions, List.forall_mem_append, List.forall_mem_append,
    List.forall_mem_singleton, and_assoc]
  rfl

/-- Where names stand for the same numbers, a tree of operators on numbers stands for the
    same number, or for none. -/
theorem ExpressionTree.number_value_congr {a b : Namespace} (h : a.number? = b.number?)
    (tree : ExpressionTree) (hnumeric : ∀ i ∈ tree.instructions, i.IsNumeric) :
    BinaryOperator.number? (tree.value a) = BinaryOperator.number? (tree.value b) := by
  induction tree with
  | literal d => rfl
  | get name =>
      rw [value, value, Namespace.number?_operand?, Namespace.number?_operand?, congrFun h name]
  | not operand ih =>
      -- Negation reads texts and truth values as well, and is no operator on numbers.
      exact (hnumeric .not (List.mem_append_right _ (List.mem_singleton_self _))).elim
  | binary op left right ihl ihr =>
      rcases forall_isNumeric_binary_iff.1 hnumeric with ⟨hl, hr, hop⟩
      rw [value, value, BinaryOperator.apply_congr (ihl hl) (ihr hr) hop]

/-- A tree whose instructions end in an operator has that operator on top. -/
theorem ExpressionTree.eq_binary_of_getLast? {tree : ExpressionTree} {op : BinaryOperator}
    (h : tree.instructions.getLast? = some (.binary op)) :
    ∃ left right, tree = .binary op left right := by
  cases tree with
  | literal d => cases h
  | get name => cases h
  | not operand =>
      rw [ExpressionTree.instructions, List.getLast?_concat] at h
      cases h
  | binary op' left right =>
      rw [ExpressionTree.instructions, List.getLast?_concat] at h
      cases h
      exact ⟨left, right, rfl⟩

namespace Expression

/-- An expression of operators on numbers that ends in one of them has the same result, or
    the same error, wherever names stand for the same numbers. -/
theorem evaluate_congr_numbers {a b : Namespace} (h : a.number? = b.number?) (e : Expression)
    (hnumeric : ∀ i ∈ e.instructions, i.IsNumeric) {op : BinaryOperator}
    (hlast : e.instructions.getLast? = some (.binary op)) : e.evaluate a = e.evaluate b := by
  rcases e with ⟨p⟩
  rcases sequence_or_lacks p with ⟨trees, rfl⟩ | ⟨i, hlacks⟩
  · rcases List.eq_nil_or_concat' trees with rfl | ⟨front, tree, rfl⟩
    · cases hlast
    · have hne : front ++ [tree] ≠ [] := List.append_ne_nil_of_right_ne_nil _ (List.cons_ne_nil _ _)
      rw [sequence_append, sequence_singleton] at hnumeric hlast
      rw [List.getLast?_append_of_ne_nil _ tree.instructions_ne_nil] at hlast
      -- What lies below the last tree is not looked at.
      rw [evaluate_of_sequence a _ hne, evaluate_of_sequence b _ hne,
        List.getLast_append_of_ne_nil _ (List.cons_ne_nil _ _), List.getLast_singleton]
      rcases eq_binary_of_getLast? hlast with ⟨left, right, rfl⟩
      rcases forall_isNumeric_binary_iff.1 (List.forall_mem_append.1 hnumeric).2 with
        ⟨hl, hr, hop⟩
      rw [value, value, BinaryOperator.apply_congr (number_value_congr h left hl)
        (number_value_congr h right hr) hop]
  · rw [evaluate_of_lacks a hlacks, evaluate_of_lacks b hlacks]

/-- To an expression of operators on numbers that ends in one of them, data that are not
    numbers are as good as missing: with any of these removed, it has the same result, or
    fails with the same error. What lies below the last tree on the stack may be anything,
    since the result does not depend on it. -/
theorem evaluate_without (e : Expression) (hnumeric : ∀ i ∈ e.instructions, i.IsNumeric)
    (hlast : ∃ op, e.instructions.getLast? = some (.binary op)) (ns : Namespace)
    (keys : List String) (hkeys : ∀ key ∈ keys, ns.number? key = none) :
    e.evaluate (ns.without keys) = e.evaluate ns ∧ e.isTrue (ns.without keys) = e.isTrue ns := by
  rcases hlast with ⟨op, hop⟩
  have heq : e.evaluate (ns.without keys) = e.evaluate ns :=
    evaluate_congr_numbers (funext (Namespace.number?_without hkeys)) e hnumeric hop
  refine ⟨heq, ?_⟩
  rw [isTrue, isTrue, heq]

/-- A text and a truth value removed from under a sum and a comparison, with a text left
    over below. -/
theorem evaluate_without_textAndTruth :
    let e : Expression := ⟨[.get "name", .get "name", .get "age", .binary .add, .get "seen",
      .binary .greaterThan]⟩
    let ns : Namespace :=
      .ofEntries [("name", .text "Ann"), ("age", .number 1), ("seen", .boolean true)]
    (∀ i ∈ e.instructions, i.IsNumeric) ∧ (∃ op, e.instructions.getLast? = some (.binary op)) ∧
      (∀ key ∈ ["seen", "name"], ns.number? key = none) ∧
      e.evaluate (ns.without ["seen", "name"]) = e.evaluate ns ∧
      e.isTrue (ns.without ["seen", "name"]) = e.isTrue ns ∧
      e.isTrue ns = .ok true := by
  intro e ns
  have hnumeric : ∀ i ∈ e.instructions, i.IsNumeric := by
    simp [e, Instruction.IsNumeric, BinaryOperator.numeric, BinaryOperator.comparisons]
  have hlast : ∃ op, e.instructions.getLast? = some (.binary op) := ⟨.greaterThan, rfl⟩
  have hkeys : ∀ key ∈ ["seen", "name"], ns.number? key = none := by
    simp [ns, Namespace.number?, Namespace.get?, Namespace.ofEntries, Entries.ofList,
      Entries.insert, Entries.find?]
  have hsame := evaluate_without e hnumeric hlast ns ["seen", "name"] hkeys
  exact ⟨hnumeric, hlast, hkeys, hsame.1, hsame.2, rfl⟩

end Expression

end TextGrammar
