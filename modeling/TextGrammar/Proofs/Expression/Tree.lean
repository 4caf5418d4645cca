import Mathlib.Data.List.Basic
import Mathlib.Data.List.Induction
import TextGrammar.Expression.Evaluation

/-!
# Expression Trees

That the stack machine computes the values of expressions written as trees.

A tree is a literal, a look-up, or an operator above its operands. Its value is
found by recursion, and its instructions are those of the operands followed by
the operator. The machine reads a sequence of trees by pushing the value of each,
so the result of an expression is the value of the last tree.

The value of a look-up is what was found under the name, and which object that is.
Equality goes by the object where there is no value to go by, so two look-ups of one
name have equal values even if that is not a number, and two look-ups of different
names have not.

Instructions that do not spell a sequence of trees do so up to some instruction
that takes more operands than there are trees in front of it. This is where the
machine stops. Neither alternative mentions a namespace, and both sides count
operands only.

## Main definitions

* `Instruction.arity`: The number of operands that an instruction takes.
* `ExpressionTree`: Expressions as trees.
* `ExpressionTree.value`: The value of a tree in a namespace.
* `ExpressionTree.instructions`, `ExpressionTree.sequence`: The instructions of a
  tree, and of trees one after the other.
* `Expression.Lacks`: An instruction finds too few operands.

## Theorems

* `Expression.run_sequence`: The machine pushes the values of trees in order.
* `Expression.sequence_or_lacks`: Instructions spell a sequence of trees, or one of
  them lacks operands.
* `Expression.isOk_run_congr`: Whether a run succeeds is a matter of arities.
* `Expression.evaluate_sequence`: The result of an expression, or the error.
-/

namespace TextGrammar

/-- The number of operands that an instruction takes from the stack. -/
def Instruction.arity : Instruction → Nat
  | .literal _ => 0
  | .get _ => 0
  | .not => 1
  | .binary _ => 2

/-- Expressions as trees. -/
inductive ExpressionTree where
  | literal (d : Datum)
  | get (name : String)
  | not (operand : ExpressionTree)
  | binary (op : BinaryOperator) (left right : ExpressionTree)

namespace ExpressionTree

/-- The value of a tree. Each operator applies its rule to the values of its operands,
    which may be missing. -/
def value (ns : Namespace) : ExpressionTree → Option Datum
  | .literal d => some d
  | .get name => ns.operand? name
  | .not operand => some (.boolean (!BinaryOperator.truth (operand.value ns)))
  | .binary op left right => some (op.apply (left.value ns) (right.value ns))

/-- The instructions of a tree: those of the operands from left to right, then the
    operator. -/
def instructions : ExpressionTree → List Instruction
  | .literal d => [.literal d]
  | .get name => [.get name]
  | .not operand => operand.instructions ++ [.not]
  | .binary op left right => left.instructions ++ right.instructions ++ [.binary op]

/-- The instructions of trees one after the other. -/
def sequence (trees : List ExpressionTree) : List Instruction := trees.flatMap instructions

theorem instructions_ne_nil (tree : ExpressionTree) : tree.instructions ≠ [] := by
  cases tree with
  | literal d => exact List.cons_ne_nil _ _
  | get name => exact List.cons_ne_nil _ _
  | not operand => exact List.append_ne_nil_of_right_ne_nil _ (List.cons_ne_nil _ _)
  | binary op left right => exact List.append_ne_nil_of_right_ne_nil _ (List.cons_ne_nil _ _)

theorem sequence_append (before after : List ExpressionTree) :
    sequence (before ++ after) = sequence before ++ sequence after := List.flatMap_append

theorem sequence_singleton (tree : ExpressionTree) : sequence [tree] = tree.instructions :=
  List.flatMap_singleton ..

theorem sequence_eq_nil_iff (trees : List ExpressionTree) : sequence trees = [] ↔ trees = [] := by
  constructor
  · intro h
    cases trees with
    | nil => rfl
    | cons tree rest => exact absurd (List.append_eq_nil_iff.1 h).1 tree.instructions_ne_nil
  · rintro rfl
    rfl

end ExpressionTree

open ExpressionTree

namespace Expression

/-- An instruction stands behind a sequence of fewer trees than it takes operands. -/
def Lacks (p : List Instruction) (i : Instruction) : Prop :=
  ∃ trees after, p = sequence trees ++ i :: after ∧ trees.length < i.arity

/-- The machine stops where the stack is shorter than the operands to take. -/
theorem step_eq_none (ns : Namespace) (i : Instruction) (stack : Stack)
    (h : stack.length < i.arity) : step ns i stack = none := by
  cases i with
  | literal d => exact absurd h (Nat.not_lt_zero _)
  | get name => exact absurd h (Nat.not_lt_zero _)
  | not =>
      cases stack with
      | nil => rfl
      | cons a rest => exact absurd (Nat.lt_of_succ_lt_succ h) (Nat.not_lt_zero _)
  | binary op =>
      match stack with
      | [] => rfl
      | [b] => rfl
      | b :: a :: rest =>
          simp only [List.length_cons, Instruction.arity] at h
          omega

/-- A step takes its operands and leaves one value. -/
theorem exists_step (ns : Namespace) (i : Instruction) (stack : Stack)
    (h : i.arity ≤ stack.length) :
    ∃ next, step ns i stack = some next ∧ next.length + i.arity = stack.length + 1 := by
  cases i with
  | literal d => exact ⟨_, rfl, rfl⟩
  | get name => exact ⟨_, rfl, rfl⟩
  | not =>
      cases stack with
      | nil => exact absurd h (Nat.not_succ_le_zero 0)
      | cons a rest => exact ⟨_, rfl, rfl⟩
  | binary op =>
      match stack with
      | [] => exact absurd h (Nat.not_succ_le_zero 1)
      | [b] => exact absurd (Nat.le_of_succ_le_succ h) (Nat.not_succ_le_zero 0)
      | b :: a :: rest => exact ⟨_, rfl, rfl⟩

/-- The instructions of a tree push its value. -/
theorem run_instructions (ns : Namespace) (tree : ExpressionTree) (rest : List Instruction)
    (stack : Stack) :
    run ns (tree.instructions ++ rest) stack = run ns rest (tree.value ns :: stack) := by
  induction tree generalizing rest stack with
  | literal d => rfl
  | get name => rfl
  | not operand ih =>
      rw [ExpressionTree.instructions, List.append_assoc, ih]
      rfl
  | binary op left right ihl ihr =>
      -- The left value lies below the right one, as the operator takes them.
      rw [ExpressionTree.instructions, List.append_assoc, List.append_assoc, ihl, ihr]
      rfl

/-- A sequence of trees pushes their values, so that the last one is on top. -/
theorem run_sequence (ns : Namespace) (trees : List ExpressionTree) (rest : List Instruction)
    (stack : Stack) :
    run ns (sequence trees ++ rest) stack =
      run ns rest ((trees.map (value ns)).reverse ++ stack) := by
  induction trees generalizing stack with
  | nil => rfl
  | cons tree trees ih =>
      have hpush := run_instructions ns tree (sequence trees ++ rest) stack
      rw [← List.append_assoc] at hpush
      rw [show sequence (tree :: trees) = tree.instructions ++ sequence trees from rfl, hpush, ih,
        List.map_cons, List.reverse_cons, List.append_assoc]
      rfl

/-- The machine stops at an instruction that lacks operands. -/
theorem run_of_lacks (ns : Namespace) {p : List Instruction} {i : Instruction} (h : Lacks p i) :
    run ns p [] = .error i := by
  rcases h with ⟨trees, after, rfl, hlt⟩
  rw [run_sequence, run, step_eq_none]
  rwa [List.append_nil, List.length_reverse, List.length_map]

/-- Instructions spell a sequence of trees, or one of them lacks operands. -/
theorem sequence_or_lacks (p : List Instruction) :
    (∃ trees, p = sequence trees) ∨ ∃ i, Lacks p i := by
  -- From the end, because an operator takes up trees that are already there.
  induction p using List.reverseRecOn with
  | nil => exact Or.inl ⟨[], rfl⟩
  | append_singleton p i ih =>
      rcases ih with ⟨trees, rfl⟩ | ⟨j, trees, after, rfl, hlt⟩
      · by_cases hlt : trees.length < i.arity
        · exact Or.inr ⟨i, trees, [], rfl, hlt⟩
        · -- The operands are the last trees, and the new tree takes their place.
          refine Or.inl ?_
          cases i with
          | literal d =>
              exact ⟨trees ++ [.literal d], by rw [sequence_append, sequence_singleton]; rfl⟩
          | get name =>
              exact ⟨trees ++ [.get name], by rw [sequence_append, sequence_singleton]; rfl⟩
          | not =>
              rcases List.eq_nil_or_concat' trees with rfl | ⟨front, a, rfl⟩
              · exact absurd Nat.one_pos hlt
              · refine ⟨front ++ [.not a], ?_⟩
                simp only [sequence_append, sequence_singleton, ExpressionTree.instructions,
                  List.append_assoc]
          | binary op =>
              rcases List.eq_nil_or_concat' trees with rfl | ⟨front, b, rfl⟩
              · exact absurd Nat.two_pos hlt
              · rcases List.eq_nil_or_concat' front with rfl | ⟨front, a, rfl⟩
                · exact absurd Nat.one_lt_two hlt
                · refine ⟨front ++ [.binary op a b], ?_⟩
                  simp only [sequence_append, sequence_singleton, ExpressionTree.instructions,
                  List.append_assoc]
      · refine Or.inr ⟨j, trees, after ++ [i], ?_, hlt⟩
        rw [List.append_assoc, List.cons_append]

/-- Whether a run succeeds is decided by the arities of its instructions and the
    height of the stack. -/
theorem isOk_run_congr (ns other : Namespace) (p q : List Instruction) (stack stack' : Stack)
    (harity : q.map Instruction.arity = p.map Instruction.arity)
    (hlength : stack'.length = stack.length) :
    (run other q stack').isOk = (run ns p stack).isOk := by
  induction p generalizing q stack stack' with
  | nil =>
      rw [List.map_eq_nil_iff.1 harity]
      rfl
  | cons i p ih =>
      cases q with
      | nil => exact absurd harity nofun
      | cons j q =>
          rcases List.cons.inj harity with ⟨hij, hrest⟩
          rw [run, run]
          -- Either both machines stop here, or both go on with stacks of one height.
          by_cases hlt : stack.length < i.arity
          · rw [step_eq_none ns i stack hlt, step_eq_none other j stack' (by omega)]
            rfl
          · rcases exists_step ns i stack (by omega) with ⟨next, hnext, hlen⟩
            rcases exists_step other j stack' (by omega) with ⟨next', hnext', hlen'⟩
            rw [hnext, hnext']
            exact ih q next next' hrest (by omega)

theorem evaluate_of_ne_nil (ns : Namespace) {p : List Instruction} (hp : p ≠ []) :
    evaluate ⟨p⟩ ns =
      match run ns p [] with
      | .error i => .error (.notEnoughOperands i ⟨p⟩)
      | .ok [] => .error (.noValue ⟨p⟩)
      | .ok (top :: _) => .ok top := by
  cases p with
  | nil => exact absurd rfl hp
  | cons i rest => rfl

theorem run_sequence_nil (ns : Namespace) (trees : List ExpressionTree) :
    run ns (sequence trees) [] = .ok (trees.map (value ns)).reverse := by
  have hrun := run_sequence ns trees [] []
  rwa [List.append_nil, List.append_nil] at hrun

/-- The result of a sequence of trees is the value of the last one. -/
theorem evaluate_of_sequence (ns : Namespace) (trees : List ExpressionTree) (hne : trees ≠ []) :
    evaluate ⟨sequence trees⟩ ns = .ok ((trees.getLast hne).value ns) := by
  rw [evaluate_of_ne_nil ns fun h => hne ((sequence_eq_nil_iff trees).1 h)]
  rw [run_sequence_nil]
  rcases List.eq_nil_or_concat' trees with rfl | ⟨front, tree, rfl⟩
  · exact absurd rfl hne
  · rw [List.map_append, List.reverse_append,
      List.getLast_append_of_ne_nil _ (List.cons_ne_nil _ _)]
    rfl

theorem evaluate_of_lacks (ns : Namespace) {p : List Instruction} {i : Instruction}
    (h : Lacks p i) : evaluate ⟨p⟩ ns = .error (.notEnoughOperands i ⟨p⟩) := by
  have hp : p ≠ [] := by
    rcases h with ⟨trees, after, rfl, _⟩
    exact List.append_ne_nil_of_right_ne_nil _ (List.cons_ne_nil _ _)
  rw [evaluate_of_ne_nil ns hp, run_of_lacks ns h]

/-- A run that succeeds leaves a value. -/
theorem isOk_evaluate (ns : Namespace) {p : List Instruction} (hp : p ≠ []) :
    (evaluate ⟨p⟩ ns).isOk = (run ns p []).isOk := by
  rcases sequence_or_lacks p with ⟨trees, rfl⟩ | ⟨i, hlacks⟩
  · rw [evaluate_of_sequence ns trees fun h => hp ((sequence_eq_nil_iff trees).2 h),
      run_sequence_nil]
    rfl
  · rw [evaluate_of_lacks ns hlacks, run_of_lacks ns hlacks]
    rfl

/-- Evaluation succeeds exactly on the instructions of one or more trees, and gives
    the value of the last one. On all others it fails at the first instruction that
    lacks operands. Which of the two happens depends on arities only, and it never
    happens that no value is left. -/
theorem evaluate_sequence (p : List Instruction) (hp : p ≠ []) (ns : Namespace) :
    ((∃ result, evaluate ⟨p⟩ ns = .ok result) ↔ ∃ trees, trees ≠ [] ∧ p = sequence trees) ∧
      (∀ trees, (hne : trees ≠ []) → p = sequence trees →
        evaluate ⟨p⟩ ns = .ok ((trees.getLast hne).value ns)) ∧
      ((¬ ∃ trees, p = sequence trees) →
        ∃ i, Lacks p i ∧ evaluate ⟨p⟩ ns = .error (.notEnoughOperands i ⟨p⟩)) ∧
      (∀ e, evaluate ⟨p⟩ ns ≠ .error (.noValue e)) ∧
      ∀ q other, q.map Instruction.arity = p.map Instruction.arity →
        (evaluate ⟨q⟩ other).isOk = (evaluate ⟨p⟩ ns).isOk := by
  -- A program is the postfix form of trees, or it lacks an operand somewhere. There is no
  -- third case, which is why the success has only one form.
  have hfails : (¬ ∃ trees, p = sequence trees) →
      ∃ i, Lacks p i ∧ evaluate ⟨p⟩ ns = .error (.notEnoughOperands i ⟨p⟩) := by
    intro hno
    rcases sequence_or_lacks p with hseq | ⟨i, hlacks⟩
    · exact absurd hseq hno
    · exact ⟨i, hlacks, evaluate_of_lacks ns hlacks⟩
  have hvalue : ∀ trees, (hne : trees ≠ []) → p = sequence trees →
      evaluate ⟨p⟩ ns = .ok ((trees.getLast hne).value ns) := by
    rintro trees hne rfl
    exact evaluate_of_sequence ns trees hne
  refine ⟨⟨?_, ?_⟩, hvalue, hfails, ?_, ?_⟩
  · rintro ⟨result, hresult⟩
    rcases sequence_or_lacks p with ⟨trees, rfl⟩ | ⟨i, hlacks⟩
    · exact ⟨trees, fun h => hp ((sequence_eq_nil_iff trees).2 h), rfl⟩
    · rw [evaluate_of_lacks ns hlacks] at hresult
      exact absurd hresult nofun
  · rintro ⟨trees, hne, hseq⟩
    exact ⟨_, hvalue trees hne hseq⟩
  · intro e h
    rcases sequence_or_lacks p with ⟨trees, rfl⟩ | ⟨i, hlacks⟩
    · rw [evaluate_of_sequence ns trees fun h => hp ((sequence_eq_nil_iff trees).2 h)] at h
      exact absurd h nofun
    · rw [evaluate_of_lacks ns hlacks] at h
      exact absurd h nofun
  -- What remains on the stack and where it runs short depends on the arities alone.
  · intro q other harity
    have hq : q ≠ [] := by
      rintro rfl
      exact hp (List.map_eq_nil_iff.1 harity.symm)
    rw [isOk_evaluate ns hp, isOk_evaluate other hq]
    exact isOk_run_congr ns other p q [] [] harity rfl

/-- A value that is ignored, and a conjunction with the negation of a missing datum:
    two trees, of which the second is the result. -/
theorem evaluate_twoTrees :
    [Instruction.get "x", .literal (.boolean true), .get "y", .not, .binary .and] ≠ [] ∧
      evaluate ⟨[.get "x", .literal (.boolean true), .get "y", .not, .binary .and]⟩
        Namespace.empty = .ok (some (.boolean true)) := by
  have hne : [Instruction.get "x", .literal (.boolean true), .get "y", .not, .binary .and] ≠ [] :=
    List.cons_ne_nil _ _
  exact ⟨hne, (evaluate_sequence _ hne Namespace.empty).2.1
    [.get "x", .binary .and (.literal (.boolean true)) (.not (.get "y"))]
    (List.cons_ne_nil _ _) rfl⟩

end Expression

end TextGrammar
