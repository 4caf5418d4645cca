import TextGrammar.Expansion.Choice
import TextGrammar.Rule.RuleSet

/-!
# Candidates

The rules that may be used for a reference, and the choice among them.

The rules of the tag are tried in their order. One is a candidate when it shares
a label with the reference, if that has any, and its guard holds. The candidates
found so far set a floor, the highest of their minimum priorities, and the
search ends at the first rule below it. Guards behind that rule are not read.

## Main definitions

* `Reference.accepts`: Whether a rule has a label that a reference asks for.
* `Candidates`: Rules with the sum of their frequencies.
* `Candidates.search`: The candidates in a list of rules.
* `Candidates.find`: The candidates for a reference.
* `Candidates.choose`: The candidate that a draw stands for.

## Theorems

* `Candidates.mem_of_find`: The candidates are rules for the tag.
-/

namespace TextGrammar

/-- Whether a rule has a label that the reference asks for. A reference without
    labels accepts every rule. -/
def Reference.accepts (ref : Reference) (rule : Rule) : Bool :=
  ref.hashtags.isEmpty || ref.hashtags.any fun label => rule.hashtags.contains label

/-- Rules with the sum of their frequencies, in the order in which they were
    found. -/
structure Candidates where
  rules : List RegisteredRule
  totalFrequency : Binary64

namespace Candidates

/-- The candidates in a list, with their frequencies added up in order. -/
def ofList (rules : List RegisteredRule) : Candidates :=
  ⟨rules, WeightedChoice.total (fun r => r.frequency) rules⟩

/-- The floor with a candidate's minimum priority taken in: floors only rise. -/
def raise (floor : Option Int) (minPriority : Int) : Int :=
  match floor with
  | none => minPriority
  | some f => if f < minPriority then minPriority else f

/-- Whether a priority lies below the floor. Without a floor none does. -/
def isBelow (priority : Int) : Option Int → Bool
  | none => false
  | some f => decide (priority < f)

/-- The candidates in a list of rules, given the floor so far. -/
def search (ref : Reference) (data : Namespace) :
    Option Int → List RegisteredRule → Except EvaluationError (List RegisteredRule)
  | _, [] => .ok []
  | floor, r :: rest =>
    -- The list is in descending order of priority, so all rules behind are below too.
    if isBelow r.priority floor then .ok []
    else if !ref.accepts r.toRule then search ref data floor rest
    else
      match r.canFire data with
      | .error e => .error e
      | .ok false => search ref data floor rest
      | .ok true =>
        match search ref data (some (raise floor r.minPriority)) rest with
        | .error e => .error e
        | .ok found => .ok (r :: found)

/-- The candidates for a reference. -/
def find (rules : RuleSet) (ref : Reference) (data : Namespace) :
    Except EvaluationError Candidates :=
  match search ref data none (rules.rulesFor ref.tag) with
  | .error e => .error e
  | .ok found => .ok (ofList found)

theorem mem_of_search (ref : Reference) (data : Namespace) (floor : Option Int)
    (rules found : List RegisteredRule) (h : search ref data floor rules = .ok found) :
    ∀ r ∈ found, r ∈ rules := by
  induction rules generalizing floor found with
  | nil =>
      rw [search, Except.ok.injEq] at h
      exact fun r hr => h ▸ hr
  | cons first rest ih =>
      -- A rule is found only where the search comes to it, in each of its branches.
      rw [search] at h
      split at h
      · rw [← Except.ok.inj h]
        exact fun r hr => absurd hr List.not_mem_nil
      · split at h
        · exact fun r hr => List.mem_cons_of_mem _ (ih _ _ h r hr)
        · split at h
          · exact absurd h nofun
          · exact fun r hr => List.mem_cons_of_mem _ (ih _ _ h r hr)
          · split at h
            · exact absurd h nofun
            · rename_i more hmore
              rw [← Except.ok.inj h]
              intro r hr
              rcases List.mem_cons.1 hr with rfl | hr
              · exact List.mem_cons_self ..
              · exact List.mem_cons_of_mem _ (ih _ _ hmore r hr)

/-- The candidates are rules for the tag. -/
theorem mem_of_find (rules : RuleSet) (ref : Reference) (data : Namespace) (found : Candidates)
    (h : find rules ref data = .ok found) : ∀ r ∈ found.rules, r ∈ rules.rulesFor ref.tag := by
  unfold find at h
  split at h
  · exact absurd h nofun
  · rename_i list hlist
    rw [← Except.ok.inj h]
    exact mem_of_search ref data none _ list hlist

/-- The candidate that a draw stands for, if the frequencies reach that far. -/
def choose (c : Candidates) (draw : Binary64) : Option RegisteredRule :=
  WeightedChoice.pick (fun r => r.frequency) (draw * c.totalFrequency) c.rules

end Candidates

end TextGrammar
