import TextGrammar.Proofs.Grammar.Loading

/-!
# The History of a Rule Set

What a rule set shows of the calls that filled it.

Rules come into a set by four calls: one is registered as it is, made from options,
read from a line, or read from a text with others. A call may fail, and then it
registers nothing, but for the rules of a text in front of the error. The set plays
no part in whether a call fails. So all calls together come to the registration of
one list of rules, and the views of the set can be told from that list.

## Main definitions

* `Registration`: A call that registers rules.
* `Registration.rules`: The rules that a call registers.
* `RuleSet.performAll`: The set after a list of calls.
* `RuleSet.ArisesFrom`: The views of a set, told from the rules that were registered.

## Theorems

* `RuleSet.perform_eq_addAll`: What one call leaves.
* `RuleSet.performAll_eq_addAll`: What a list of calls leaves.
* `RuleSet.arisesFrom_performAll`: The views of a set after any calls.
-/

namespace TextGrammar

/-- A call that registers rules as far as it succeeds: a rule as it is, one made from
    options, one that is read from a line, or those of a text. -/
inductive Registration where
  | add (rule : Rule)
  | build (tag : Tag) (content : Content) (options : RuleOptions)
  | read (text : String) (place : Place)
  | load (text : String) (file : Option String)

/-- The rules that a call registers. If it fails there are none, or those of the text in
    front of the error. -/
def Registration.rules : Registration → List Rule
  | .add rule => [rule]
  | .build tag content options => (Rule.build tag content options).toOption.toList
  | .read text place => (Grammar.readRule text place).toOption.toList
  | .load text file => Grammar.textRules text file

namespace RuleSet

/-- The set after a call, whether it succeeds or fails. -/
def perform (rules : RuleSet) : Registration → RuleSet
  | .add rule => (rules.add rule).2
  | .build tag content options =>
    match Rule.build tag content options with
    | .ok rule => (rules.add rule).2
    | .error _ => rules
  | .read text place =>
    match Grammar.readRule text place with
    | .ok rule => (rules.add rule).2
    | .error _ => rules
  | .load text file => (Grammar.load text file rules).2

/-- The set after a list of calls. -/
def performAll (rules : RuleSet) (calls : List Registration) : RuleSet := calls.foldl perform rules

theorem perform_eq_addAll (rules : RuleSet) (call : Registration) :
    rules.perform call = rules.addAll call.rules := by
  cases call with
  | add rule => rfl
  | build tag content options =>
      rw [perform, Registration.rules]
      cases Rule.build tag content options with
      | error e => rfl
      | ok rule => rfl
  | read text place =>
      rw [perform, Registration.rules]
      cases Grammar.readRule text place with
      | error e => rfl
      | ok rule => rfl
  | load text file => exact Grammar.snd_load text file rules

theorem performAll_eq_addAll (rules : RuleSet) (calls : List Registration) :
    rules.performAll calls = rules.addAll (calls.flatMap Registration.rules) := by
  induction calls generalizing rules with
  | nil => rfl
  | cons call rest ih =>
      rw [List.flatMap_cons, addAll_append, ← perform_eq_addAll]
      exact ih (rules.perform call)

/-- The views of a set, told from the rules that were registered in it and the order in
    which they were. -/
structure ArisesFrom (rules : RuleSet) (registered : List RegisteredRule) : Prop where
  rulesFor_eq : ∀ tag,
    rules.rulesFor tag = arranged (registered.filter fun rule => decide (rule.tag = tag))
  tags_eq : rules.tags = (registered.map fun rule => rule.tag).eraseDups
  toList_eq : rules.toList = rules.tags.flatMap rules.rulesFor
  size_eq : rules.size = registered.length
  contains_iff : ∀ tag, rules.contains tag = true ↔ rules.rulesFor tag ≠ []

/-- What has grown from nothing shows just what was added. -/
theorem Grows.arisesFrom {rules : RuleSet} {registered : List RegisteredRule}
    (h : Grows empty rules registered) : ArisesFrom rules registered where
  rulesFor_eq := h.rulesFor_eq
  tags_eq := h.tags_eq
  toList_eq := rules.toList_eq_flatMap_rulesFor
  size_eq := h.size_eq.trans (Nat.zero_add _)
  contains_iff := rules.contains_iff

/-- After any calls, of which some may have failed, the rules of a tag are the stable
    sort of those that were registered; the tags are in the order in which they first
    occurred; and the other views go with them. What brought no number of its own has
    been counted from zero on, without gaps. -/
theorem arisesFrom_performAll (calls : List Registration) :
    ∃ (registered : List RegisteredRule) (count : Nat),
      registered.map RegisteredRule.toRule = calls.flatMap Registration.rules ∧
      (registered.filter fun rule => rule.presetOrder.isNone).map RegisteredRule.order =
        List.range count ∧
      (∀ rule ∈ registered, ∀ order, rule.presetOrder = some order → rule.order = order) ∧
      ArisesFrom (empty.performAll calls) registered := by
  let list := calls.flatMap Registration.rules
  have hcounted := order_of_unnumbered 0 list
  have hviews : ArisesFrom (empty.performAll calls) (numberFrom 0 list) := by
    rw [performAll_eq_addAll]
    exact (grows_addAll empty list).arisesFrom
  rw [← List.range_eq_range'] at hcounted
  exact ⟨numberFrom 0 list, _, map_toRule_numberFrom 0 list, hcounted,
    order_of_presetOrder 0 list, hviews⟩

-- The second text ends with an error in its second line, and no number is lost.
example : ((empty.performAll [.load "a -> x\nb -> y" none, .load "a -> z\na z\na -> w" none,
    .read "b [" {}, .read "b (priority=2) -> v" {}]).toList.map fun r => (r.tag.name, r.order)) =
      [("a", 0), ("a", 2), ("b", 3), ("b", 1)] := by
  decide +kernel

end RuleSet

end TextGrammar
