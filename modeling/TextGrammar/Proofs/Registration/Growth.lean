import Mathlib.Data.Int.Order.Basic
import Mathlib.Data.List.Basic
import Mathlib.Data.Prod.Lex
import TextGrammar.Proofs.Registration.Sorted
import TextGrammar.Rule.RuleSet

/-!
# Growing Rule Sets

What a rule set looks like after more rules have been registered.

Registration puts one rule at a time into the group of its tag. Seen from outside, the
rules of a tag are always the stable sort of those that it had and those that came in
since: by priority from high to low, then by number, and where both are equal in the
order in which they came in. That may happen, because a rule can bring a number that
is taken. New tags come behind the old ones.

## Main definitions

* `RegisteredRule.sortKey`: What rules are sorted by.
* `RuleSet.arranged`: Rules in the order in which they are tried.
* `RuleSet.addAll`: The set with the rules of a list registered one after the other.
* `RuleSet.numberFrom`: The rules of a list with the numbers that they get.
* `RuleSet.Grows`: How a set differs from an earlier one.

## Theorems

* `RuleSet.insertRule_eq_arranged`: To insert is to append and to sort.
* `RuleSet.arranged_append`: What is sorted already may be sorted again.
* `RuleSet.rulesFor_insert`, `RuleSet.tags_insert`, `RuleSet.size_insert`: The views of a
  set with one more rule.
* `RuleSet.toList_eq_flatMap_rulesFor`: The rules of a set are those of its tags.
* `RuleSet.grows_addAll`: Sets grow by the rules that are registered.
-/

namespace TextGrammar

section

variable {α : Type} [DecidableEq α] {xs : List α}

theorem eraseDups_of_nodup (h : xs.Nodup) : xs.eraseDups = xs := by
  induction xs with
  | nil => rfl
  | cons x xs ih =>
      rcases List.nodup_cons.1 h with ⟨hx, hxs⟩
      have hfilter : xs.filter (fun y => !y == x) = xs := by
        refine List.filter_eq_self.2 fun y hy => ?_
        rw [Bool.not_eq_true', beq_eq_false_iff_ne]
        rintro rfl
        exact hx hy
      rw [List.eraseDups_cons, hfilter, ih hxs]

/-- One more element is repeated or new. -/
theorem eraseDups_concat (h : xs.Nodup) (x : α) :
    (xs ++ [x]).eraseDups = if x ∈ xs then xs else xs ++ [x] := by
  rw [List.eraseDups_append, eraseDups_of_nodup h, List.removeAll]
  split
  · rename_i hx
    rw [List.filter_cons_of_neg (by simpa using hx)]
    exact List.append_nil xs
  · rename_i hx
    rw [List.filter_cons_of_pos (by simpa using hx)]
    rfl

/-- Repetitions may be dropped before more elements come in. -/
theorem eraseDups_append_append (h : xs.Nodup) {ys : List α} (hxs : xs = ys.eraseDups)
    (zs : List α) : (xs ++ zs).eraseDups = (ys ++ zs).eraseDups := by
  rw [List.eraseDups_append, List.eraseDups_append, eraseDups_of_nodup h, ← hxs]
  congr 2
  rw [List.removeAll, List.removeAll]
  congr 1
  funext z
  simp [hxs]

end

namespace RegisteredRule

/-- What rules are sorted by: high priorities first, and then low numbers. -/
def sortKey (rule : RegisteredRule) : ℤ ×ₗ ℕ := toLex (-rule.priority, rule.order)

theorem precedes_iff_sortKey_lt (a b : RegisteredRule) :
    a.precedes b = true ↔ a.sortKey < b.sortKey := by
  rw [precedes_iff, sortKey, sortKey, Prod.Lex.toLex_lt_toLex]
  dsimp only
  omega

theorem not_precedes_iff_sortKey_le (a b : RegisteredRule) :
    ¬ b.precedes a = true ↔ a.sortKey ≤ b.sortKey := by
  rw [precedes_iff_sortKey_lt, not_lt]

end RegisteredRule

namespace RuleSet

/-- Rules in the order in which they are tried, by a stable sort. -/
def arranged (rules : List RegisteredRule) : List RegisteredRule :=
  rules.mergeSort fun a b => decide (a.sortKey ≤ b.sortKey)

/-- What stands in the order of trial is in the order of the keys. -/
theorem pairwise_sortKey {rules : List RegisteredRule}
    (h : rules.Pairwise fun a b => ¬ b.precedes a = true) :
    rules.Pairwise fun a b => a.sortKey ≤ b.sortKey :=
  h.imp fun {a b} hab => (a.not_precedes_iff_sortKey_le b).1 hab

theorem arranged_of_pairwise {rules : List RegisteredRule}
    (h : rules.Pairwise fun a b => ¬ b.precedes a = true) : arranged rules = rules :=
  List.mergeSort_of_pairwise ((pairwise_sortKey h).imp fun hab => decide_eq_true hab)

/-- What is arranged already may be arranged again with what is new. -/
theorem arranged_append (xs ys : List RegisteredRule) :
    arranged (arranged xs ++ ys) = arranged (xs ++ ys) := by
  refine eq_mergeSort_key RegisteredRule.sortKey (pairwise_mergeSort_key _ _) fun k => ?_
  rw [arranged, filter_mergeSort_key, List.filter_append, List.filter_append]
  exact congrArg (· ++ _) (filter_mergeSort_key RegisteredRule.sortKey xs k)

/-- A rule is put behind those of its key, and nothing else is moved. -/
theorem filter_sortKey_insertRule (rule : RegisteredRule) {group : List RegisteredRule}
    (hsorted : group.Pairwise fun a b => a.sortKey ≤ b.sortKey) (k : ℤ ×ₗ ℕ) :
    (insertRule rule group).filter (fun r => decide (r.sortKey = k)) =
      (group ++ [rule]).filter fun r => decide (r.sortKey = k) := by
  induction group with
  | nil => rfl
  | cons first rest ih =>
      rw [insertRule]
      by_cases hbefore : rule.precedes first = true
      · rw [if_pos hbefore, ← List.singleton_append, List.filter_append, List.filter_append]
        -- All keys of the group are higher, so one of the two parts is empty.
        by_cases hk : rule.sortKey = k
        · have hnone : (first :: rest).filter (fun r => decide (r.sortKey = k)) = [] := by
            refine List.filter_eq_nil_iff.2 fun r hr => ?_
            have hle := key_of_mem_cons RegisteredRule.sortKey hsorted r hr
            have hlt := (rule.precedes_iff_sortKey_lt first).1 hbefore
            rw [decide_eq_true_eq, ← hk]
            exact (hlt.trans_le hle).ne'
          rw [hnone, List.append_nil, List.nil_append]
        · have hnone : [rule].filter (fun r => decide (r.sortKey = k)) = [] :=
            List.filter_cons_of_neg fun h => hk (of_decide_eq_true h)
          rw [hnone, List.append_nil, List.nil_append]
      · rw [if_neg hbefore, List.cons_append, List.filter_cons, List.filter_cons,
          ih (List.pairwise_cons.1 hsorted).2]

/-- To insert a rule is to append it and to sort. -/
theorem insertRule_eq_arranged (rule : RegisteredRule) {group : List RegisteredRule}
    (h : group.Pairwise fun a b => ¬ b.precedes a = true) :
    insertRule rule group = arranged (group ++ [rule]) :=
  eq_mergeSort_key RegisteredRule.sortKey (pairwise_sortKey (pairwise_insertRule rule group h))
    (filter_sortKey_insertRule rule (pairwise_sortKey h))

theorem lookup_insertGroup (rule : RegisteredRule) (groups : List (Tag × List RegisteredRule))
    (tag : Tag) :
    (insertGroup rule groups).lookup tag =
      if rule.tag = tag then some (insertRule rule ((groups.lookup tag).getD []))
      else groups.lookup tag := by
  induction groups with
  | nil =>
      rw [insertGroup, List.lookup_cons]
      by_cases htag : rule.tag = tag
      · rw [htag, beq_self_eq_true, if_pos rfl]
        rfl
      · rw [if_neg htag, beq_eq_false_iff_ne.2 (Ne.symm htag)]
  | cons entry rest ih =>
      obtain ⟨t, group⟩ := entry
      rw [insertGroup]
      -- The rule goes to the first group with its tag, which is the one that is looked up.
      by_cases hgroup : t = rule.tag
      · subst hgroup
        rw [if_pos rfl, List.lookup_cons, List.lookup_cons]
        by_cases htag : rule.tag = tag
        · rw [htag, beq_self_eq_true, if_pos rfl]
          rfl
        · rw [if_neg htag, beq_eq_false_iff_ne.2 (Ne.symm htag)]
      · rw [if_neg hgroup, List.lookup_cons, List.lookup_cons, ih]
        by_cases htag : rule.tag = tag
        · subst htag
          rw [beq_eq_false_iff_ne.2 (Ne.symm hgroup)]
        · rw [if_neg htag, if_neg htag]

/-- Only the group of the rule's own tag is changed. -/
theorem rulesFor_insert (rules : RuleSet) (rule : RegisteredRule) (nextOrder : Nat) (tag : Tag) :
    (rules.insert rule nextOrder).rulesFor tag =
      if rule.tag = tag then insertRule rule (rules.rulesFor tag) else rules.rulesFor tag := by
  unfold rulesFor insert
  dsimp only
  rw [lookup_insertGroup]
  split
  · rfl
  · rfl

theorem length_insertRule (rule : RegisteredRule) (group : List RegisteredRule) :
    (insertRule rule group).length = group.length + 1 := by
  induction group with
  | nil => rfl
  | cons first rest ih =>
      rw [insertRule]
      split
      · rfl
      · rw [List.length_cons, ih, List.length_cons]

theorem length_insertGroup (rule : RegisteredRule) (groups : List (Tag × List RegisteredRule)) :
    ((insertGroup rule groups).flatMap Prod.snd).length =
      (groups.flatMap Prod.snd).length + 1 := by
  induction groups with
  | nil => rfl
  | cons entry rest ih =>
      rw [insertGroup, List.flatMap_cons, List.length_append]
      split
      · rw [List.flatMap_cons, List.length_append, length_insertRule]
        exact Nat.add_right_comm _ _ _
      · rw [List.flatMap_cons, List.length_append, ih]
        exact (Nat.add_assoc _ _ _).symm

theorem size_insert (rules : RuleSet) (rule : RegisteredRule) (nextOrder : Nat) :
    (rules.insert rule nextOrder).size = rules.size + 1 :=
  length_insertGroup rule rules.groups

/-- A tag that is new comes behind the others. -/
theorem tags_insert (rules : RuleSet) (rule : RegisteredRule) (nextOrder : Nat) :
    (rules.insert rule nextOrder).tags = (rules.tags ++ [rule.tag]).eraseDups :=
  (map_fst_insertGroup rule rules.groups).trans (eraseDups_concat rules.nodup_tags rule.tag).symm

theorem flatMap_snd_eq (groups : List (Tag × List RegisteredRule))
    (hnodup : (groups.map Prod.fst).Nodup) :
    groups.flatMap Prod.snd =
      (groups.map Prod.fst).flatMap fun tag => (groups.lookup tag).getD [] := by
  induction groups with
  | nil => rfl
  | cons entry rest ih =>
      obtain ⟨tag, group⟩ := entry
      rcases List.nodup_cons.1 hnodup with ⟨hnew, hrest⟩
      rw [List.flatMap_cons, ih hrest, List.map_cons, List.flatMap_cons, List.lookup_cons_self]
      congr 1
      refine List.flatMap_congr fun t ht => ?_
      -- The tags of the other groups differ from the first one.
      have hne : (t == tag) = false := beq_eq_false_iff_ne.2 fun h => hnew (h ▸ ht)
      rw [List.lookup_cons, hne]

/-- The rules of a set are those of its tags, tag by tag. -/
theorem toList_eq_flatMap_rulesFor (rules : RuleSet) :
    rules.toList = rules.tags.flatMap rules.rulesFor :=
  flatMap_snd_eq rules.groups rules.nodup_tags

/-- A set contains the tags that have rules. -/
theorem contains_iff (rules : RuleSet) (tag : Tag) :
    rules.contains tag = true ↔ rules.rulesFor tag ≠ [] := by
  rw [contains, List.contains_iff_mem]
  constructor
  · intro htag
    rcases List.mem_map.1 htag with ⟨entry, hentry, rfl⟩
    rcases List.exists_mem_of_ne_nil _ (rules.isGroup entry hentry).ne_nil with ⟨rule, hrule⟩
    refine List.ne_nil_of_mem ((rules.mem_rulesFor _ rule).2 ⟨?_, ?_⟩)
    · exact List.mem_flatMap.2 ⟨entry, hentry, hrule⟩
    · exact (rules.isGroup entry hentry).tag_eq rule hrule
  · intro hrules
    rcases List.exists_mem_of_ne_nil _ hrules with ⟨rule, hrule⟩
    rcases (rules.mem_rulesFor tag rule).1 hrule with ⟨hmem, rfl⟩
    exact rules.tag_mem_tags rule hmem

theorem add_of_some (rules : RuleSet) {rule : Rule} {order : Nat}
    (h : rule.presetOrder = some order) :
    rules.add rule = (⟨rule, order⟩, rules.insert ⟨rule, order⟩ rules.nextOrder) := by
  rw [add, h]

theorem add_of_none (rules : RuleSet) {rule : Rule} (h : rule.presetOrder = none) :
    rules.add rule =
      (⟨rule, rules.nextOrder⟩, rules.insert ⟨rule, rules.nextOrder⟩ (rules.nextOrder + 1)) := by
  rw [add, h]

/-- The set with the rules of a list, registered one after the other. -/
def addAll (rules : RuleSet) (list : List Rule) : RuleSet :=
  list.foldl (fun rules rule => (rules.add rule).2) rules

theorem addAll_cons (rules : RuleSet) (rule : Rule) (list : List Rule) :
    rules.addAll (rule :: list) = (rules.add rule).2.addAll list := rfl

theorem addAll_append (rules : RuleSet) (first second : List Rule) :
    rules.addAll (first ++ second) = (rules.addAll first).addAll second :=
  List.foldl_append

/-- The rules of a list with the numbers that they get. Those that bring a number keep
    it, and the others are counted from the next number on. -/
def numberFrom : Nat → List Rule → List RegisteredRule
  | _, [] => []
  | next, rule :: rest =>
    match rule.presetOrder with
    | some order => ⟨rule, order⟩ :: numberFrom next rest
    | none => ⟨rule, next⟩ :: numberFrom (next + 1) rest

/-- How a set differs from an earlier one. The rules that were added are given in the
    order in which they were registered. -/
structure Grows (before after : RuleSet) (added : List RegisteredRule) : Prop where
  rulesFor_eq : ∀ tag, after.rulesFor tag =
    arranged (before.rulesFor tag ++ added.filter fun rule => decide (rule.tag = tag))
  tags_eq : after.tags = (before.tags ++ added.map fun rule => rule.tag).eraseDups
  size_eq : after.size = before.size + added.length

theorem Grows.refl (rules : RuleSet) : Grows rules rules [] where
  rulesFor_eq := fun tag => by
    rw [List.filter_nil, List.append_nil]
    exact (arranged_of_pairwise (rules.pairwise_rulesFor tag)).symm
  tags_eq := by
    rw [List.map_nil, List.append_nil]
    exact (eraseDups_of_nodup rules.nodup_tags).symm
  size_eq := rfl

theorem Grows.insert (rules : RuleSet) (rule : RegisteredRule) (nextOrder : Nat) :
    Grows rules (rules.insert rule nextOrder) [rule] where
  rulesFor_eq := fun tag => by
    rw [rulesFor_insert]
    split
    · rename_i htag
      rw [List.filter_cons_of_pos (by rwa [decide_eq_true_eq])]
      exact insertRule_eq_arranged rule (rules.pairwise_rulesFor tag)
    · rename_i htag
      rw [List.filter_cons_of_neg (by rwa [decide_eq_true_eq])]
      exact (Grows.refl rules).rulesFor_eq tag
  tags_eq := tags_insert rules rule nextOrder
  size_eq := size_insert rules rule nextOrder

theorem Grows.trans {first second third : RuleSet} {added more : List RegisteredRule}
    (h : Grows first second added) (hmore : Grows second third more) :
    Grows first third (added ++ more) where
  rulesFor_eq := fun tag => by
    rw [hmore.rulesFor_eq, h.rulesFor_eq, arranged_append, List.filter_append, List.append_assoc]
  tags_eq := by
    rw [hmore.tags_eq, List.map_append, ← List.append_assoc]
    exact eraseDups_append_append second.nodup_tags h.tags_eq _
  size_eq := by
    rw [hmore.size_eq, h.size_eq, List.length_append, Nat.add_assoc]

/-- Sets grow by the rules that are registered. -/
theorem grows_addAll (rules : RuleSet) (list : List Rule) :
    Grows rules (rules.addAll list) (numberFrom rules.nextOrder list) := by
  induction list generalizing rules with
  | nil => exact .refl rules
  | cons rule rest ih =>
      rw [addAll_cons, numberFrom]
      cases hpreset : rule.presetOrder with
      | some order =>
          rw [add_of_some rules hpreset]
          exact (Grows.insert rules ⟨rule, order⟩ rules.nextOrder).trans (ih _)
      | none =>
          rw [add_of_none rules hpreset]
          exact (Grows.insert rules ⟨rule, rules.nextOrder⟩ (rules.nextOrder + 1)).trans (ih _)

section

variable (next : Nat) (list : List Rule)

theorem map_toRule_numberFrom : (numberFrom next list).map RegisteredRule.toRule = list := by
  induction list generalizing next with
  | nil => rfl
  | cons rule rest ih =>
      rw [numberFrom]
      split
      · rw [List.map_cons, ih]
      · rw [List.map_cons, ih]

/-- A rule that brings a number keeps it. -/
theorem order_of_presetOrder : ∀ rule ∈ numberFrom next list, ∀ order,
    rule.presetOrder = some order → rule.order = order := by
  induction list generalizing next with
  | nil => exact fun rule hrule => absurd hrule List.not_mem_nil
  | cons first rest ih =>
      rw [numberFrom]
      split
      · rename_i preset hpreset
        refine List.forall_mem_cons.2 ⟨fun order horder => ?_, ih next⟩
        exact Option.some.inj (hpreset.symm.trans horder)
      · rename_i hpreset
        refine List.forall_mem_cons.2 ⟨fun order horder => ?_, ih (next + 1)⟩
        exact absurd (hpreset.symm.trans horder) nofun

/-- The other rules are counted. -/
theorem order_of_unnumbered :
    ((numberFrom next list).filter fun rule => rule.presetOrder.isNone).map
        RegisteredRule.order =
      List.range' next (list.countP fun rule => rule.presetOrder.isNone) := by
  induction list generalizing next with
  | nil => rfl
  | cons rule rest ih =>
      rw [numberFrom]
      split
      · rename_i order hpreset
        rw [List.filter_cons_of_neg (by simp [hpreset]),
          List.countP_cons_of_neg (by simp [hpreset]), ih]
      · rename_i hpreset
        rw [List.filter_cons_of_pos (by simp [hpreset]),
          List.countP_cons_of_pos (by simp [hpreset]), List.map_cons, ih, List.range'_succ]

/-- If no rule brings a number, all are counted. -/
theorem numberFrom_of_unnumbered (h : ∀ rule ∈ list, rule.presetOrder = none) :
    numberFrom next list = list.mapIdx fun i rule => ⟨rule, next + i⟩ := by
  induction list generalizing next with
  | nil => rfl
  | cons rule rest ih =>
      rcases List.forall_mem_cons.1 h with ⟨hrule, hrest⟩
      rw [numberFrom, hrule, List.mapIdx_cons]
      dsimp only
      rw [ih (next + 1) hrest]
      simp only [Nat.add_assoc, Nat.add_comm 1, Nat.add_zero]

end

theorem nextOrder_addAll (rules : RuleSet) (list : List Rule) :
    (rules.addAll list).nextOrder =
      rules.nextOrder + list.countP fun rule => rule.presetOrder.isNone := by
  induction list generalizing rules with
  | nil => rfl
  | cons rule rest ih =>
      rw [addAll_cons, ih]
      cases hpreset : rule.presetOrder with
      | some order =>
          rw [add_of_some rules hpreset, List.countP_cons_of_neg (by simp [hpreset])]
          rfl
      | none =>
          rw [add_of_none rules hpreset, List.countP_cons_of_pos (by simp [hpreset])]
          exact Nat.add_right_comm _ _ _

end RuleSet

end TextGrammar
