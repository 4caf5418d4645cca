import TextGrammar.Proofs.Expansion.Fuel
import TextGrammar.Proofs.Expansion.Visited

/-!
# Pruning

That rules for unreachable tags can be left out.

An expansion asks a rule set for the rules of the tags it visits and for nothing
else. Two sets that agree on a closed set of tags are therefore the same to an
expansion that starts within it, whichever rules are chosen and whatever fails.
The tags reachable from a root are such a set, and leaving out the rules for the
others keeps the rules for these.

## Main definitions

* `RuleSet.without`: A set without the rules for some tags.

## Theorems

* `RuleSet.toList_without`: What is left out.
* `Setup.expand_congr`: Sets that agree on a closed set of tags expand alike.
* `Engine.runWith_without_unreachable`: A run is the same without the rules for
  unreachable tags, and visits no other tags but reachable ones and the root.
-/

namespace TextGrammar

variable {σ : Type}

namespace RuleSet

/-- The set without the rules for some tags. -/
def without (rules : RuleSet) (tags : List Tag) : RuleSet where
  groups := rules.groups.filter fun entry => decide (entry.1 ∉ tags)
  nextOrder := rules.nextOrder
  nodup_tags := rules.nodup_tags.sublist (List.filter_sublist.map Prod.fst)
  isGroup := fun entry hentry => rules.isGroup entry (List.mem_filter.1 hentry).1

/-- Exactly the rules for these tags are left out. -/
theorem toList_without (rules : RuleSet) (tags : List Tag) :
    (rules.without tags).toList = rules.toList.filter fun rule => decide (rule.tag ∉ tags) := by
  unfold toList without
  dsimp only
  -- Only what the groups hold matters, so the induction is on their list.
  have hgroup := rules.isGroup
  generalize rules.groups = groups at hgroup ⊢
  induction groups with
  | nil => rfl
  | cons entry rest ih =>
      have hentry := (hgroup entry (List.mem_cons_self ..)).tag_eq
      have hrest := ih fun other hother => hgroup other (List.mem_cons_of_mem _ hother)
      rw [List.flatMap_cons, List.filter_append, ← hrest, List.filter_cons]
      by_cases htag : entry.1 ∈ tags
      · -- All rules of a group have its tag, so they go together.
        have hnone : entry.2.filter (fun rule => decide (rule.tag ∉ tags)) = [] :=
          List.filter_eq_nil_iff.2 fun rule hrule => by
            rw [hentry rule hrule, decide_eq_true_eq]
            exact fun h => h htag
        rw [hnone, if_neg (by rw [decide_eq_true_eq]; exact fun h => h htag), List.nil_append]
      · have hall : entry.2.filter (fun rule => decide (rule.tag ∉ tags)) = entry.2 :=
          List.filter_eq_self.2 fun rule hrule => by
            rw [hentry rule hrule, decide_eq_true_eq]
            exact htag
        rw [hall, if_pos (decide_eq_true htag), List.flatMap_cons]

/-- The rules for the other tags stay. -/
theorem rulesFor_without (rules : RuleSet) (tags : List Tag) (tag : Tag) (htag : tag ∉ tags) :
    (rules.without tags).rulesFor tag = rules.rulesFor tag := by
  rw [← filter_tag_toList, ← filter_tag_toList, toList_without, List.filter_filter]
  refine List.filter_congr fun rule _ => ?_
  by_cases h : rule.tag = tag
  · rw [h, decide_eq_true htag, Bool.and_true]
  · rw [decide_eq_false h, Bool.false_and]

end RuleSet

namespace Setup

theorem selectRule_congr (setup : Setup σ) (rules : RuleSet) (depth : Nat) (ref : Reference)
    (h : rules.rulesFor ref.tag = setup.rules.rulesFor ref.tag) :
    Setup.selectRule { setup with rules := rules } depth ref = setup.selectRule depth ref := by
  have hfind : Candidates.find rules ref = Candidates.find setup.rules ref := by
    funext data
    rw [Candidates.find, Candidates.find, h]
  unfold selectRule
  rw [hfind]
  rfl

/-- A rule set that agrees with another one on a closed set of tags can stand for it
    in expansions that start within. -/
theorem expand_congr (setup : Setup σ) (rules : RuleSet) {P : Tag → Prop}
    (hclosed : setup.rules.IsClosed P)
    (hagree : ∀ tag, P tag → rules.rulesFor tag = setup.rules.rulesFor tag)
    (fuel depth : Nat) (item : Item) (hitem : item.Within P) :
    Setup.expand { setup with rules := rules } fuel depth item = setup.expand fuel depth item := by
  induction fuel, depth, item using expand_induction with
  | text fuel depth s => rw [expand, expand]
  | lookup fuel depth key chain => rw [expand, expand]
  | foreign fuel depth given => rw [expand, expand]
  | exhausted depth ref =>
      rw [expand, expand, selectRule_congr setup rules depth ref (hagree ref.tag hitem)]
  | reference fuel depth ref ih =>
      have hselect := selectRule_congr setup rules depth ref (hagree ref.tag hitem)
      refine Expansion.ext fun p => ?_
      rcases setup.selectRule_cases depth ref p with ⟨e, q, hrun, _⟩ | ⟨q, hrun, _⟩ |
        ⟨rule, q, hrun, hsel⟩
      · rw [run_expand_of_error _ hrun, run_expand_of_error _ (hselect ▸ hrun)]
      · rw [run_expand_of_none _ hrun, run_expand_of_none _ (hselect ▸ hrun)]
      · -- The same rule is used, and its pieces are within the set again.
        have hwithin := hclosed.within hitem (mem_rulesFor_of_selects _ _ _ _ hsel)
        rw [run_expand_of_some _ hrun, run_expand_of_some _ (hselect ▸ hrun),
          fire_congr rule ref fun item hmem => ih item (hwithin item hmem)]

end Setup

namespace Engine

/-- The references that a run visits. -/
def visited (chooser : Chooser σ) (fuel : Nat) (engine : Engine σ) (rules : RuleSet)
    (scene : Scene) (root : Reference) : List Reference :=
  Setup.visited ⟨rules, engine.maxDepth, chooser⟩ fuel 0 (.reference root)
    ⟨scene, engine.source, engine.metrics⟩

theorem expansions_runWith (chooser : Chooser σ) (fuel : Nat) (engine : Engine σ)
    (rules : RuleSet) (scene : Scene) (root : Reference) :
    (engine.runWith chooser fuel rules scene root).2.2.metrics.expansions =
      engine.metrics.expansions + (engine.visited chooser fuel rules scene root).length := by
  rw [runWith_eq, finish, Metrics.expansions_countRun, Setup.expansions_expand]
  rfl

/-- A run is the same without the rules for unreachable tags: in its outcome, in the scene
    and the metrics that it leaves, and in the source, so that no draw is shifted. It
    visits no tags but reachable ones and that of the root, where the visited references
    are as many as the run counts. -/
theorem runWith_without_unreachable (chooser : Chooser σ) (fuel : Nat) (engine : Engine σ)
    (rules : RuleSet) (scene : Scene) (root : Reference) :
    engine.runWith chooser fuel (rules.without ((Graph.ofRules rules).unreachable root.tag))
        scene root = engine.runWith chooser fuel rules scene root ∧
      (∀ ref ∈ engine.visited chooser fuel rules scene root,
        ref.tag = root.tag ∨ ref.tag ∈ (Graph.ofRules rules).reachable root.tag) ∧
      (engine.runWith chooser fuel rules scene root).2.2.metrics.expansions =
        engine.metrics.expansions + (engine.visited chooser fuel rules scene root).length := by
  have hclosed := rules.isClosed_reachable root.tag
  have hroot : Item.Within (fun tag =>
      tag = root.tag ∨ tag ∈ (Graph.ofRules rules).reachable root.tag) (.reference root) :=
    Or.inl rfl
  have hagree : ∀ tag, tag = root.tag ∨ tag ∈ (Graph.ofRules rules).reachable root.tag →
      (rules.without ((Graph.ofRules rules).unreachable root.tag)).rulesFor tag =
        rules.rulesFor tag := by
    intro tag htag
    refine rules.rulesFor_without _ tag fun hunreachable => ?_
    rcases (Graph.mem_unreachable_iff _ _ _).1 hunreachable with ⟨hdefined, hnot⟩
    rcases htag with rfl | htag
    · -- A root with rules is not unreachable, even if nothing refers to it.
      exact hnot (Graph.mem_reachable_self _ (Graph.defined_subset _ _ hdefined))
    · exact hnot htag
  refine ⟨?_, Setup.visited_mem _ hclosed fuel 0 _ hroot _, expansions_runWith _ _ _ _ _ _⟩
  rw [runWith_eq, runWith_eq]
  rw [Setup.expand_congr ⟨rules, engine.maxDepth, chooser⟩ _ hclosed hagree fuel 0 _ hroot]

end Engine

end TextGrammar
