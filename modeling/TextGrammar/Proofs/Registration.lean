import Mathlib.Data.List.Induction
import TextGrammar.Proofs.Expansion.Likeness
import TextGrammar.Proofs.Registration.Growth

/-!
# The Order of Registration

What of the order in which rules were registered shows in a rule set.

A group is kept in descending order of priority, and a rule that is registered gets a
number greater than all before it. So it is put behind the rules of its priority, and
in front of those of a lower one: the rules of one tag and one priority stand in the
order in which they were registered. Since a list in descending order is
determined by its parts of equal priority, nothing else of the order shows, but for
the numbers themselves, which neither searches nor choices read.

## Main definitions

* `Candidates.unnumbered`: Candidates without the numbers of their registration.

## Theorems

* `RuleSet.rulesFor_add`: What registration does to the rules of a tag.
* `RuleSet.filter_insertRule`: A rule is put behind those of its priority.
* `RuleSet.filter_rulesFor_ofList`: Rules of one priority keep their order.
* `RuleSet.ofList_congr`: Registrations that agree on the order of the rules of each
  tag and priority give sets with the same candidates and the same runs.
-/

namespace TextGrammar

/-- Lists hold the same rules, but for their numbers, if they do so one by one. -/
theorem forall₂_toRule_iff {first second : List RegisteredRule} :
    List.Forall₂ (fun a b => a.toRule = b.toRule) first second ↔
      first.map RegisteredRule.toRule = second.map RegisteredRule.toRule := by
  rw [← List.forall₂_eq_eq_eq, List.forall₂_map_left_iff, List.forall₂_map_right_iff]

/-- Candidates without the numbers of their registration. -/
def Candidates.unnumbered (found : Candidates) : List Rule × Binary64 :=
  (found.rules.map RegisteredRule.toRule, found.totalFrequency)

namespace RuleSet

/-- Registration puts a rule without a number of its own into the group of its tag, with
    the next number. -/
theorem rulesFor_add (rules : RuleSet) {rule : Rule} (hpreset : rule.presetOrder = none)
    (tag : Tag) :
    (rules.add rule).2.rulesFor tag =
      if rule.tag = tag then insertRule ⟨rule, rules.nextOrder⟩ (rules.rulesFor tag)
      else rules.rulesFor tag := by
  rw [add_of_none rules hpreset]
  exact rulesFor_insert rules ⟨rule, rules.nextOrder⟩ (rules.nextOrder + 1) tag

theorem nextOrder_add (rules : RuleSet) {rule : Rule} (hpreset : rule.presetOrder = none) :
    (rules.add rule).2.nextOrder = rules.nextOrder + 1 := by
  rw [add_of_none rules hpreset]
  rfl

/-- A rule with the greatest number is put behind all rules of its priority, and the
    rules of other priorities stay as they are. -/
theorem filter_insertRule {rule : RegisteredRule} {group : List RegisteredRule}
    (hlast : ∀ r ∈ group, r.order < rule.order)
    (hsorted : group.Pairwise fun a b => b.priority ≤ a.priority) (priority : Int) :
    (insertRule rule group).filter (fun r => decide (r.priority = priority)) =
      (group ++ [rule]).filter fun r => decide (r.priority = priority) := by
  induction group with
  | nil => rfl
  | cons first rest ih =>
      rcases List.pairwise_cons.1 hsorted with ⟨hfirst, hrest⟩
      rw [insertRule]
      by_cases hbefore : rule.precedes first = true
      · rw [if_pos hbefore]
        -- The numbers do not decide, so all rules of the list have a lower priority.
        have hlower : first.priority < rule.priority := by
          have hnumber := hlast first (List.mem_cons_self ..)
          rcases (RegisteredRule.precedes_iff _ _).1 hbefore with hlower | ⟨_, horder⟩
          · exact hlower
          · omega
        rw [List.filter_append]
        by_cases hpriority : rule.priority = priority
        · have hnone : (first :: rest).filter (fun r => decide (r.priority = priority)) = [] := by
            refine List.filter_eq_nil_iff.2 fun r hr => ?_
            have hle : r.priority ≤ first.priority :=
              key_of_mem_cons (r := (· ≥ ·)) (fun r => r.priority) hsorted r hr
            rw [decide_eq_true_eq]
            omega
          have hrule : [rule].filter (fun r => decide (r.priority = priority)) = [rule] :=
            List.filter_cons_of_pos (decide_eq_true hpriority)
          rw [List.filter_cons_of_pos (by rwa [decide_eq_true_eq]), hnone, hrule,
            List.nil_append]
        · have hrule : [rule].filter (fun r => decide (r.priority = priority)) = [] :=
            List.filter_cons_of_neg fun h => hpriority (of_decide_eq_true h)
          rw [List.filter_cons_of_neg (by rwa [decide_eq_true_eq]), hrule, List.append_nil]
      · rw [if_neg hbefore, List.cons_append, List.filter_cons, List.filter_cons,
          ih (fun r hr => hlast r (List.mem_cons_of_mem _ hr)) hrest]

theorem ofList_concat (list : List Rule) (rule : Rule) :
    ofList (list ++ [rule]) = ((ofList list).add rule).2 := by
  unfold ofList
  rw [List.foldl_append]
  rfl

/-- Numbers that registration gives are below the next one. -/
theorem order_lt_nextOrder {list : List Rule} (hpreset : ∀ rule ∈ list, rule.presetOrder = none)
    (tag : Tag) : ∀ r ∈ (ofList list).rulesFor tag, r.order < (ofList list).nextOrder := by
  induction list using List.reverseRecOn with
  | nil => exact fun r hr => absurd hr List.not_mem_nil
  | append_singleton list rule ih =>
      have hrule := hpreset rule (List.mem_append_right _ (List.mem_singleton_self rule))
      have hlist := ih fun r hr => hpreset r (List.mem_append_left _ hr)
      intro r hr
      rw [ofList_concat, rulesFor_add _ hrule] at hr
      rw [ofList_concat, nextOrder_add _ hrule]
      by_cases htag : rule.tag = tag
      · rw [if_pos htag] at hr
        rcases (mem_insertRule _ r _).1 hr with rfl | hr
        · exact Nat.lt_succ_self _
        · exact Nat.lt_succ_of_lt (hlist r hr)
      · rw [if_neg htag] at hr
        exact Nat.lt_succ_of_lt (hlist r hr)

/-- The rules of one tag and one priority are in the order in which they were
    registered. -/
theorem filter_rulesFor_ofList {list : List Rule}
    (hpreset : ∀ rule ∈ list, rule.presetOrder = none) (tag : Tag) (priority : Int) :
    (((ofList list).rulesFor tag).filter fun r => decide (r.priority = priority)).map
        RegisteredRule.toRule =
      list.filter fun rule => decide (rule.tag = tag ∧ rule.priority = priority) := by
  induction list using List.reverseRecOn with
  | nil => rfl
  | append_singleton list rule ih =>
      have hrule := hpreset rule (List.mem_append_right _ (List.mem_singleton_self rule))
      have hlist : ∀ r ∈ list, r.presetOrder = none :=
        fun r hr => hpreset r (List.mem_append_left _ hr)
      -- The last rule has the greatest number, so among the rules of its tag and priority it
      -- goes to the end.
      rw [ofList_concat, rulesFor_add _ hrule, List.filter_append, ← ih hlist]
      by_cases htag : rule.tag = tag
      · rw [if_pos htag, filter_insertRule (order_lt_nextOrder hlist tag)
          (pairwise_priority_rulesFor _ tag), List.filter_append, List.map_append]
        congr 1
        by_cases hpriority : rule.priority = priority
        · rw [List.filter_cons_of_pos (by rwa [decide_eq_true_eq]),
            List.filter_cons_of_pos (by rw [decide_eq_true_eq]; exact ⟨htag, hpriority⟩)]
          rfl
        · rw [List.filter_cons_of_neg (by rwa [decide_eq_true_eq]),
            List.filter_cons_of_neg (by rw [decide_eq_true_eq]; exact fun h => hpriority h.2)]
          rfl
      · have hnone : [rule].filter
            (fun rule => decide (rule.tag = tag ∧ rule.priority = priority)) = [] :=
          List.filter_cons_of_neg (by rw [decide_eq_true_eq]; exact fun h => htag h.1)
        rw [if_neg htag, hnone, List.append_nil]

/-- So the rules of a tag are the same, but for their numbers, after registrations that
    agree on the order of the rules of each tag and priority. -/
theorem map_toRule_rulesFor_congr {first second : List Rule}
    (hfirst : ∀ rule ∈ first, rule.presetOrder = none)
    (hsecond : ∀ rule ∈ second, rule.presetOrder = none)
    (horder : ∀ tag priority,
      first.filter (fun rule => decide (rule.tag = tag ∧ rule.priority = priority)) =
        second.filter fun rule => decide (rule.tag = tag ∧ rule.priority = priority))
    (tag : Tag) :
    ((ofList first).rulesFor tag).map RegisteredRule.toRule =
      ((ofList second).rulesFor tag).map RegisteredRule.toRule := by
  have hsorted : ∀ list : List Rule,
      (((ofList list).rulesFor tag).map RegisteredRule.toRule).Pairwise
        fun a b => b.priority ≤ a.priority :=
    fun list => List.pairwise_map.2 (pairwise_priority_rulesFor _ tag)
  refine eq_of_filter_eq (r := (· ≥ ·)) (fun rule => rule.priority) (hsorted first)
    (hsorted second) fun priority => ?_
  rw [List.filter_map, List.filter_map]
  exact (filter_rulesFor_ofList hfirst tag priority).trans
    ((horder tag priority).trans (filter_rulesFor_ofList hsecond tag priority).symm)

/-- Only the relative order of rules of equal tag and priority matters. Two lists of rules
    without numbers of their own that have the same rules of each tag and priority, in
    the same order, and so the same rules altogether, give sets with the same
    candidates for every reference and the same runs: in their outcome, in the scene
    they leave, and in the metrics and the source of the engine. -/
theorem ofList_congr {first second : List Rule}
    (hpreset : ∀ rule ∈ first, rule.presetOrder = none)
    (horder : ∀ tag priority,
      first.filter (fun rule => decide (rule.tag = tag ∧ rule.priority = priority)) =
        second.filter fun rule => decide (rule.tag = tag ∧ rule.priority = priority)) :
    (∀ (ref : Reference) (data : Namespace),
      (Candidates.find (ofList first) ref data).map Candidates.unnumbered =
        (Candidates.find (ofList second) ref data).map Candidates.unnumbered) ∧
    ∀ (σ : Type) [DrawSource σ] (fuel : Nat) (engine : Engine σ) (scene : Scene)
      (root : Reference),
      engine.runWith Chooser.weighted fuel (ofList first) scene root =
        engine.runWith Chooser.weighted fuel (ofList second) scene root := by
  -- A rule of the second list stands in the first one too, since it is among those of its own
  -- tag and priority.
  have hsecond : ∀ rule ∈ second, rule.presetOrder = none := by
    intro rule hrule
    have hmem : rule ∈ second.filter fun r =>
        decide (r.tag = rule.tag ∧ r.priority = rule.priority) :=
      List.mem_filter.2 ⟨hrule, decide_eq_true ⟨rfl, rfl⟩⟩
    rw [← horder] at hmem
    exact hpreset rule (List.mem_filter.1 hmem).1
  -- Rules that are equal but for their numbers look alike, and these stand in the same places.
  have halike : Alike (fun a b => a.toRule = b.toRule) (ofList first) (ofList second) := by
    refine ⟨fun a b hab => ?_, fun tag => ?_⟩
    · exact ⟨congrArg Rule.priority hab, congrArg Rule.minPriority hab,
        congrArg Rule.frequency hab, congrArg Rule.guard hab, congrArg Rule.hashtags hab⟩
    · exact forall₂_toRule_iff.2 (map_toRule_rulesFor_congr hpreset hsecond horder tag)
  refine ⟨fun ref data => ?_, fun σ _ fuel engine scene root => ?_⟩
  · have hfind := Candidates.find_alike halike ref data
    cases hfound : Candidates.find (ofList first) ref data with
    | error e =>
        rw [hfound] at hfind
        rw [hfind.eq_error]
    | ok found =>
        rw [hfound] at hfind
        rcases hfind.exists_ok with ⟨other, hother, hsame⟩
        have hrules : found.rules.map RegisteredRule.toRule =
            other.rules.map RegisteredRule.toRule := forall₂_toRule_iff.1 hsame.rules
        rw [hother]
        exact congrArg Except.ok (Prod.ext hrules hsame.totalFrequency_eq)
  · refine (Engine.runWith_alike halike ?_).symm
    intro rule _ other hother
    exact ⟨congrArg Rule.content hother.symm, congrArg Rule.watchers hother.symm⟩

/-- Registrations of rules that differ in their tag or their priority may change places. -/
theorem filter_append_comm {xs ys : List Rule}
    (h : ∀ a ∈ xs, ∀ b ∈ ys, ¬ (a.tag = b.tag ∧ a.priority = b.priority)) (tag : Tag)
    (priority : Int) :
    (xs ++ ys).filter (fun rule => decide (rule.tag = tag ∧ rule.priority = priority)) =
      (ys ++ xs).filter fun rule => decide (rule.tag = tag ∧ rule.priority = priority) := by
  rw [List.filter_append, List.filter_append]
  by_cases hxs : xs.filter (fun rule => decide (rule.tag = tag ∧ rule.priority = priority)) = []
  · rw [hxs, List.nil_append, List.append_nil]
  · have hys : ys.filter (fun rule => decide (rule.tag = tag ∧ rule.priority = priority)) = [] := by
      rcases List.exists_mem_of_ne_nil _ hxs with ⟨a, ha⟩
      rcases List.mem_filter.1 ha with ⟨hmem, hpart⟩
      rcases of_decide_eq_true hpart with ⟨htag, hpriority⟩
      refine List.filter_eq_nil_iff.2 fun b hb hother => ?_
      rcases of_decide_eq_true hother with ⟨htag', hpriority'⟩
      exact h a hmem b hb ⟨htag.trans htag'.symm, hpriority.trans hpriority'.symm⟩
    rw [hys, List.nil_append, List.append_nil]

/-- Two rules of one tag and priority. -/
def lowRules : List Rule :=
  [ { tag := ⟨"a", none⟩, content := [.text "x"] },
    { tag := ⟨"a", none⟩, content := [.text "y"] } ].filterMap
      fun parts => (Rule.create parts).toOption

/-- A rule of the same tag with a higher priority, which asks for the lower one too, and a
    rule of another tag. -/
def otherRules : List Rule :=
  [ { tag := ⟨"a", none⟩, content := [.reference { tag := ⟨"b", none⟩ }], priority := 2,
      minPriority := some 1 },
    { tag := ⟨"b", none⟩, content := [.text "z"] } ].filterMap
      fun parts => (Rule.create parts).toOption

/-- The numbers are not the same when the rules are registered in another order, but the
    candidates and the runs are. -/
theorem ofList_congr_swapped :
    let first := lowRules ++ otherRules
    let second := otherRules ++ lowRules
    (∀ rule ∈ first, rule.presetOrder = none) ∧
    (∀ tag priority,
      first.filter (fun rule => decide (rule.tag = tag ∧ rule.priority = priority)) =
        second.filter fun rule => decide (rule.tag = tag ∧ rule.priority = priority)) ∧
    ((ofList first).rulesFor ⟨"a", none⟩).map (fun r => r.order) = [2, 0, 1] ∧
    ((ofList second).rulesFor ⟨"a", none⟩).map (fun r => r.order) = [0, 2, 3] ∧
    (∀ (ref : Reference) (data : Namespace),
      (Candidates.find (ofList first) ref data).map Candidates.unnumbered =
        (Candidates.find (ofList second) ref data).map Candidates.unnumbered) ∧
    ∀ (σ : Type) [DrawSource σ] (fuel : Nat) (engine : Engine σ) (scene : Scene)
      (root : Reference),
      engine.runWith Chooser.weighted fuel (ofList first) scene root =
        engine.runWith Chooser.weighted fuel (ofList second) scene root := by
  intro first second
  have hpreset : ∀ rule ∈ first, rule.presetOrder = none := by decide +kernel
  have hdiffer : ∀ a ∈ lowRules, ∀ b ∈ otherRules,
      ¬ (a.tag = b.tag ∧ a.priority = b.priority) := by
    decide +kernel
  have horder := filter_append_comm hdiffer
  exact ⟨hpreset, horder, by decide +kernel, by decide +kernel, ofList_congr hpreset horder⟩

end RuleSet

end TextGrammar
