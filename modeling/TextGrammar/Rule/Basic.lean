import TextGrammar.Content
import TextGrammar.Expression.Parsing
import TextGrammar.Text.Order

/-!
# Rules

A rule is a template for one tag, with a weight, a range of priorities and an
optional guard.

The minimum priority lets a rule stay in play over several tiers: it competes
with the rules of its own priority, but as long as only such rules were found,
the search goes on down to the lowest of their minimum priorities.

## Main definitions

* `Rule`: The template and everything that decides when it is used.
* `Rule.create`: A rule from its parts.
* `Rule.canFire`: Whether the guard lets a rule be used.

## Theorems

* `Quantity.not_lt_zero_of_toBinary64?`: A number that is not negative stays so
  as a double.
* `Rule.clampMinimum_le`: A minimum priority never exceeds the priority.
-/

namespace TextGrammar

/-- A number that is not negative as it was given stays so as a double. -/
theorem Quantity.not_lt_zero_of_toBinary64? (q : Quantity) (x : Binary64)
    (hq : ¬ q.isNegative = true) (hx : q.toBinary64? = some x) : ¬ x < 0 := by
  cases q with
  | whole i => exact Binary64.not_lt_zero_of_ofInt? i x (by simpa [isNegative] using hq) hx
  | real y =>
      injection hx with hx
      subst hx
      simpa [isNegative] using hq

/-- A template for one tag. The labels are a sorted list without repetition. A
    preset order is the place that registration would otherwise assign. The
    frequency may be not a number, which is not below zero either. -/
structure Rule where
  tag : Tag
  content : Content
  priority : Int
  minPriority : Int
  frequency : Binary64
  guard : Option Expression
  hashtags : List String
  watchers : Chain
  presetOrder : Option Nat
  minPriority_le : minPriority ≤ priority
  frequency_nonneg : ¬ frequency < 0

namespace Rule

/-- The priority itself, unless a lower minimum was given. -/
def clampMinimum (priority : Int) : Option Int → Int
  | none => priority
  | some m => if priority < m then priority else m

theorem clampMinimum_le (priority : Int) (given : Option Int) :
    clampMinimum priority given ≤ priority := by
  cases given with
  | none => exact Int.le_refl _
  | some m =>
      simp only [clampMinimum]
      split <;> omega

/-- Why the parts do not make a rule. -/
inductive Error where
  | negativeFrequency (given : Quantity)
  | frequencyTooLarge

/-- The text of the error. -/
def Error.message : Error → String
  | .negativeFrequency given => "Rule frequency must be non-negative, got " ++ given.toText
  | .frequencyTooLarge => StoreError.tooLarge.message

/-- The parts of a rule as they are given. The labels may come in any order. -/
structure Parts where
  tag : Tag
  content : Content := []
  priority : Int := 1
  minPriority : Option Int := none
  frequency : Quantity := .whole 1
  guard : Option Expression := none
  hashtags : List String := []
  watchers : Chain := []
  order : Option Int := none

/-- The rule made of its parts. A negative order counts as none. -/
def create (parts : Parts) : Except Error Rule :=
  if hsign : parts.frequency.isNegative then .error (.negativeFrequency parts.frequency)
  else
    match hvalue : parts.frequency.toBinary64? with
    | none => .error .frequencyTooLarge
    | some frequency =>
      .ok {
        tag := parts.tag
        content := parts.content
        priority := parts.priority
        minPriority := clampMinimum parts.priority parts.minPriority
        frequency := frequency
        guard := parts.guard
        hashtags := sortedDistinct parts.hashtags
        watchers := parts.watchers
        presetOrder := match parts.order with
          | some (.ofNat n) => some n
          | _ => none
        minPriority_le := clampMinimum_le parts.priority parts.minPriority
        frequency_nonneg := Quantity.not_lt_zero_of_toBinary64? _ _ hsign hvalue }

/-- Whether the guard lets the rule be used. A rule without a guard can be. -/
def canFire (rule : Rule) (data : Namespace) : Except EvaluationError Bool :=
  match rule.guard with
  | none => .ok true
  | some guard => guard.isTrue data

/-- The rule as text: its tag and its template. -/
def toText (rule : Rule) : String := rule.tag.toText ++ " -> " ++ rule.content.toText

end Rule

end TextGrammar
