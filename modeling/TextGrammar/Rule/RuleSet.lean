import TextGrammar.Rule.Basic

/-!
# Rule Sets

Rules grouped by their tag, each group in the order in which its rules are
tried.

Higher priorities come first, and among equal ones the rule that was registered
first. Registration numbers the rules across all tags; a rule that brings a
number of its own keeps it and uses none up.

What registration maintains is part of the type: no tag has two groups, no group
is empty, and a group holds rules of its tag in order. A search may therefore
stop at the first rule of too low a priority, whatever the history of the set.

## Main definitions

* `RegisteredRule`: A rule with its registration number.
* `IsGroup`: The rules of one tag, in the order in which they are tried.
* `RuleSet`: Groups of rules, in the order in which their tags appeared.
* `RuleSet.add`, `RuleSet.ofList`: Register a rule, and the rules of a list.
* `RuleSet.rulesFor`, `RuleSet.tags`, `RuleSet.toList`: The views of a set.

## Theorems

* `RuleSet.isGroup_insertRule`: Inserting a rule keeps a group in order.
* `RuleSet.filter_tag_toList`: The rules for a tag are those of the set with
  that tag.
* `RuleSet.mem_rulesFor`: Membership in them.
* `RuleSet.pairwise_rulesFor`, `RuleSet.pairwise_priority_rulesFor`: They are in order,
  and so are their priorities.
-/

namespace TextGrammar

/-- A rule with its registration number. -/
structure RegisteredRule extends Rule where
  order : Nat

namespace RegisteredRule

/-- What decides when a rule is tried: its priority and its number. -/
def place (rule : RegisteredRule) : Int × Nat := (rule.priority, rule.order)

/-- Whether the first place is strictly before the second. -/
def isBefore (a b : Int × Nat) : Bool :=
  decide (b.1 < a.1) || (a.1 == b.1 && decide (a.2 < b.2))

/-- Whether the first rule is tried strictly before the second. -/
def precedes (a b : RegisteredRule) : Bool := isBefore a.place b.place

theorem precedes_iff (a b : RegisteredRule) :
    a.precedes b = true ↔
      b.priority < a.priority ∨ (a.priority = b.priority ∧ a.order < b.order) := by
  unfold precedes isBefore
  rw [Bool.or_eq_true, Bool.and_eq_true, decide_eq_true_eq, decide_eq_true_eq, beq_iff_eq]
  exact Iff.rfl

/-- Attach a watcher behind those that a rule has. -/
def withWatcher (watcher : Watcher) (rule : RegisteredRule) : RegisteredRule :=
  { rule with watchers := rule.watchers ++ [watcher] }

end RegisteredRule

/-- The rules of one tag in the order in which they are tried: there are some, and
    none precedes one in front of it. -/
structure IsGroup (tag : Tag) (group : List RegisteredRule) : Prop where
  ne_nil : group ≠ []
  tag_eq : ∀ rule ∈ group, rule.tag = tag
  ordered : group.Pairwise fun a b => ¬ b.precedes a = true

/-- Groups of rules with equal tags. -/
structure RuleSet where
  groups : List (Tag × List RegisteredRule)
  nextOrder : Nat
  nodup_tags : (groups.map Prod.fst).Nodup
  isGroup : ∀ entry ∈ groups, IsGroup entry.1 entry.2

namespace RuleSet

/-- The set without rules. -/
def empty : RuleSet where
  groups := []
  nextOrder := 0
  nodup_tags := List.nodup_nil
  isGroup := fun _ h => absurd h List.not_mem_nil

instance : Inhabited RuleSet := ⟨empty⟩

/-- Put a rule into a group behind all rules that it does not precede. -/
def insertRule (rule : RegisteredRule) : List RegisteredRule → List RegisteredRule
  | [] => [rule]
  | r :: rest => if rule.precedes r then rule :: r :: rest else r :: insertRule rule rest

theorem mem_insertRule (rule r : RegisteredRule) (group : List RegisteredRule) :
    r ∈ insertRule rule group ↔ r = rule ∨ r ∈ group := by
  induction group with
  | nil => simp only [insertRule, List.mem_cons]
  | cons a rest ih =>
      simp only [insertRule]
      split
      · simp only [List.mem_cons]
      · simp only [List.mem_cons, ih]
        exact or_left_comm

theorem pairwise_insertRule (rule : RegisteredRule) (group : List RegisteredRule)
    (h : group.Pairwise fun a b => ¬ b.precedes a = true) :
    (insertRule rule group).Pairwise fun a b => ¬ b.precedes a = true := by
  induction group with
  | nil => exact List.pairwise_singleton _ _
  | cons a rest ih =>
      rcases List.pairwise_cons.1 h with ⟨ha, hrest⟩
      simp only [insertRule]
      split
      · rename_i hbefore
        refine List.pairwise_cons.2 ⟨fun b hb hba => ?_, h⟩
        -- Whatever stands behind `a` is not before it, so it is behind the new rule.
        have hba' := (RegisteredRule.precedes_iff _ _).1 hba
        have hbefore' := (RegisteredRule.precedes_iff _ _).1 hbefore
        rcases List.mem_cons.1 hb with rfl | hb
        · omega
        · exact ha b hb ((RegisteredRule.precedes_iff _ _).2 (by omega))
      · rename_i hbehind
        refine List.pairwise_cons.2 ⟨fun b hb => ?_, ih hrest⟩
        rcases (mem_insertRule rule b rest).1 hb with rfl | hb
        · exact hbehind
        · exact ha b hb

/-- Inserting a rule keeps a group in order. -/
theorem isGroup_insertRule (rule : RegisteredRule) (group : List RegisteredRule)
    (h : IsGroup rule.tag group) : IsGroup rule.tag (insertRule rule group) where
  ne_nil := fun hnil => absurd ((mem_insertRule rule rule group).2 (Or.inl rfl))
    (hnil ▸ List.not_mem_nil)
  tag_eq := by
    intro r hr
    rcases (mem_insertRule rule r group).1 hr with rfl | hr
    · rfl
    · exact h.tag_eq r hr
  ordered := pairwise_insertRule rule group h.ordered

/-- Put a rule into the group of its tag, which is appended if it is new. -/
def insertGroup (rule : RegisteredRule) :
    List (Tag × List RegisteredRule) → List (Tag × List RegisteredRule)
  | [] => [(rule.tag, [rule])]
  | (tag, group) :: rest =>
    if tag = rule.tag then (tag, insertRule rule group) :: rest
    else (tag, group) :: insertGroup rule rest

/-- A new tag comes behind those that are there. -/
theorem map_fst_insertGroup (rule : RegisteredRule) (groups : List (Tag × List RegisteredRule)) :
    (insertGroup rule groups).map Prod.fst =
      if rule.tag ∈ groups.map Prod.fst then groups.map Prod.fst
      else groups.map Prod.fst ++ [rule.tag] := by
  induction groups with
  | nil => rfl
  | cons entry rest ih =>
      obtain ⟨tag, group⟩ := entry
      simp only [insertGroup]
      split
      · rename_i htag
        simp only [List.map_cons, htag, List.mem_cons, true_or, if_true]
      · rename_i htag
        have hne : ¬ rule.tag = tag := fun h => htag h.symm
        simp only [List.map_cons, List.mem_cons, hne, false_or, ih]
        split <;> rfl

theorem nodup_insertGroup (rule : RegisteredRule) (groups : List (Tag × List RegisteredRule))
    (h : (groups.map Prod.fst).Nodup) : ((insertGroup rule groups).map Prod.fst).Nodup := by
  rw [map_fst_insertGroup]
  split
  · exact h
  · rename_i hnew
    refine List.nodup_append.2 ⟨h, List.pairwise_singleton _ _, fun a ha b hb hab => ?_⟩
    rw [List.mem_singleton.1 hb] at hab
    exact hnew (hab ▸ ha)

theorem isGroup_insertGroup (rule : RegisteredRule) (groups : List (Tag × List RegisteredRule))
    (h : ∀ entry ∈ groups, IsGroup entry.1 entry.2) :
    ∀ entry ∈ insertGroup rule groups, IsGroup entry.1 entry.2 := by
  induction groups with
  | nil =>
      intro entry hentry
      rw [List.mem_singleton.1 hentry]
      exact ⟨List.cons_ne_nil _ _, fun r hr => by rw [List.mem_singleton.1 hr],
        List.pairwise_singleton _ _⟩
  | cons first rest ih =>
      obtain ⟨tag, group⟩ := first
      have hfirst : IsGroup tag group := h (tag, group) (List.mem_cons_self ..)
      have hrest : ∀ entry ∈ rest, IsGroup entry.1 entry.2 :=
        fun entry hentry => h entry (List.mem_cons_of_mem _ hentry)
      intro entry hentry
      simp only [insertGroup] at hentry
      split at hentry
      · rename_i htag
        rcases List.mem_cons.1 hentry with rfl | hentry
        · subst htag
          exact isGroup_insertRule rule group hfirst
        · exact hrest entry hentry
      · rcases List.mem_cons.1 hentry with rfl | hentry
        · exact hfirst
        · exact ih hrest entry hentry

/-- The set with a rule in the group of its tag. -/
def insert (rules : RuleSet) (rule : RegisteredRule) (nextOrder : Nat) : RuleSet where
  groups := insertGroup rule rules.groups
  nextOrder := nextOrder
  nodup_tags := nodup_insertGroup rule rules.groups rules.nodup_tags
  isGroup := isGroup_insertGroup rule rules.groups rules.isGroup

/-- Register a rule. It takes the next number unless it has one. -/
def add (rules : RuleSet) (rule : Rule) : RegisteredRule × RuleSet :=
  match rule.presetOrder with
  | some order =>
    let registered : RegisteredRule := ⟨rule, order⟩
    (registered, rules.insert registered rules.nextOrder)
  | none =>
    let registered : RegisteredRule := ⟨rule, rules.nextOrder⟩
    (registered, rules.insert registered (rules.nextOrder + 1))

/-- The set of the rules of a list, registered one after the other. -/
def ofList (list : List Rule) : RuleSet :=
  list.foldl (fun rules rule => (rules.add rule).2) empty

/-- The rules of a tag, in the order in which they are tried. -/
def rulesFor (rules : RuleSet) (tag : Tag) : List RegisteredRule :=
  (rules.groups.lookup tag).getD []

/-- The tags with rules, in the order of their first registration. -/
def tags (rules : RuleSet) : List Tag := rules.groups.map Prod.fst

/-- Whether a tag has rules. -/
def contains (rules : RuleSet) (tag : Tag) : Bool := rules.tags.contains tag

/-- All rules, group by group. -/
def toList (rules : RuleSet) : List RegisteredRule := rules.groups.flatMap Prod.snd

/-- The number of rules. -/
def size (rules : RuleSet) : Nat := rules.toList.length

theorem lookup_eq_none (tag : Tag) (groups : List (Tag × List RegisteredRule))
    (h : tag ∉ groups.map Prod.fst) : groups.lookup tag = none := by
  refine List.lookup_eq_none_iff.2 fun entry hentry => bne_iff_ne.2 fun heq => ?_
  exact h (heq ▸ List.mem_map_of_mem hentry)

theorem filter_tag_flatMap (tag : Tag) (groups : List (Tag × List RegisteredRule))
    (hnodup : (groups.map Prod.fst).Nodup) (hgroup : ∀ entry ∈ groups, IsGroup entry.1 entry.2) :
    (groups.flatMap Prod.snd).filter (fun r => decide (r.tag = tag)) =
      (groups.lookup tag).getD [] := by
  induction groups with
  | nil => rfl
  | cons entry rest ih =>
      obtain ⟨t, group⟩ := entry
      rcases List.nodup_cons.1 hnodup with ⟨hnew, hrest⟩
      have hih := ih hrest fun e he => hgroup e (List.mem_cons_of_mem _ he)
      have htag : ∀ r ∈ group, r.tag = t := (hgroup (t, group) (List.mem_cons_self ..)).tag_eq
      rw [List.flatMap_cons, List.filter_append, hih, List.lookup_cons]
      by_cases h : t = tag
      · -- All rules of the first group are meant, and no other group has the tag.
        subst h
        have hall : group.filter (fun r => decide (r.tag = t)) = group :=
          List.filter_eq_self.2 fun r hr => decide_eq_true (htag r hr)
        rw [hall, lookup_eq_none t rest hnew, beq_self_eq_true]
        exact List.append_nil group
      · have hnone : group.filter (fun r => decide (r.tag = tag)) = [] :=
          List.filter_eq_nil_iff.2 fun r hr => by rw [htag r hr, decide_eq_false h]; exact nofun
        have hne : (tag == t) = false := beq_eq_false_iff_ne.2 fun heq => h heq.symm
        rw [hnone, hne, List.nil_append]

/-- The rules for a tag are those of the set with that tag. -/
theorem filter_tag_toList (rules : RuleSet) (tag : Tag) :
    rules.toList.filter (fun r => decide (r.tag = tag)) = rules.rulesFor tag :=
  filter_tag_flatMap tag rules.groups rules.nodup_tags rules.isGroup

theorem mem_rulesFor (rules : RuleSet) (tag : Tag) (rule : RegisteredRule) :
    rule ∈ rules.rulesFor tag ↔ rule ∈ rules.toList ∧ rule.tag = tag := by
  rw [← filter_tag_toList, List.mem_filter, decide_eq_true_eq]

theorem tag_mem_tags (rules : RuleSet) (rule : RegisteredRule) (h : rule ∈ rules.toList) :
    rule.tag ∈ rules.tags := by
  rcases List.mem_flatMap.1 h with ⟨entry, hentry, hrule⟩
  rw [(rules.isGroup entry hentry).tag_eq rule hrule]
  exact List.mem_map_of_mem hentry

/-- No rule for a tag is tried before one in front of it. -/
theorem pairwise_rulesFor (rules : RuleSet) (tag : Tag) :
    (rules.rulesFor tag).Pairwise fun a b => ¬ b.precedes a = true := by
  unfold rulesFor
  cases h : rules.groups.lookup tag with
  | none => exact List.Pairwise.nil
  | some group =>
      rcases List.lookup_eq_some_iff.1 h with ⟨front, back, hsplit, _⟩
      exact (rules.isGroup (tag, group) (hsplit ▸ by simp)).ordered

/-- The rules of a tag are in descending order of priority. -/
theorem pairwise_priority_rulesFor (rules : RuleSet) (tag : Tag) :
    (rules.rulesFor tag).Pairwise fun a b => b.priority ≤ a.priority := by
  refine (rules.pairwise_rulesFor tag).imp fun {a b} hab => ?_
  rw [RegisteredRule.precedes_iff] at hab
  omega

/-- Change the rule at an index of a list. -/
def modifyAt (f : RegisteredRule → RegisteredRule) :
    Nat → List RegisteredRule → List RegisteredRule
  | _, [] => []
  | 0, r :: rest => f r :: rest
  | n + 1, r :: rest => r :: modifyAt f n rest

/-- What a change of one rule leaves as it was is the same all over the list. -/
theorem map_modifyAt {α : Type} (g : RegisteredRule → α) (f : RegisteredRule → RegisteredRule)
    (h : ∀ r, g (f r) = g r) (n : Nat) (group : List RegisteredRule) :
    (modifyAt f n group).map g = group.map g := by
  induction group generalizing n with
  | nil => simp only [modifyAt]
  | cons r rest ih =>
      cases n with
      | zero => simp only [modifyAt, List.map_cons, h]
      | succ n => simp only [modifyAt, List.map_cons, ih]

/-- Whether rules are a group depends on their tags and their places alone. -/
theorem isGroup_of_map_eq (tag : Tag) (group other : List RegisteredRule)
    (htags : other.map (fun r => r.tag) = group.map fun r => r.tag)
    (hplaces : other.map RegisteredRule.place = group.map RegisteredRule.place)
    (h : IsGroup tag group) : IsGroup tag other where
  ne_nil := fun hnil => h.ne_nil (List.map_eq_nil_iff.1 (by rw [← hplaces, hnil, List.map_nil]))
  tag_eq := by
    intro r hr
    have hmem : r.tag ∈ group.map fun r => r.tag := htags ▸ List.mem_map_of_mem hr
    rcases List.mem_map.1 hmem with ⟨r', hr', heq⟩
    rw [← heq]
    exact h.tag_eq r' hr'
  ordered := by
    have hgroup : (group.map RegisteredRule.place).Pairwise
        fun a b => ¬ RegisteredRule.isBefore b a = true := List.pairwise_map.2 h.ordered
    rw [← hplaces] at hgroup
    exact List.pairwise_map.1 hgroup

/-- Attach a watcher to a rule of a group, given by its tag and its place in it. -/
def attachIn (tag : Tag) (index : Nat) (watcher : Watcher)
    (entry : Tag × List RegisteredRule) : Tag × List RegisteredRule :=
  if entry.1 = tag then (entry.1, modifyAt (RegisteredRule.withWatcher watcher) index entry.2)
  else entry

theorem fst_attachIn (tag : Tag) (index : Nat) (watcher : Watcher)
    (entry : Tag × List RegisteredRule) : (attachIn tag index watcher entry).1 = entry.1 := by
  unfold attachIn
  split <;> rfl

theorem isGroup_attachIn (tag : Tag) (index : Nat) (watcher : Watcher)
    (entry : Tag × List RegisteredRule) (h : IsGroup entry.1 entry.2) :
    IsGroup (attachIn tag index watcher entry).1 (attachIn tag index watcher entry).2 := by
  unfold attachIn
  split
  · exact isGroup_of_map_eq entry.1 entry.2 _
      (map_modifyAt (fun r => r.tag) (RegisteredRule.withWatcher watcher) (fun _ => rfl) index _)
      (map_modifyAt RegisteredRule.place (RegisteredRule.withWatcher watcher) (fun _ => rfl)
        index _) h
  · exact h

/-- Attach a watcher to a rule, which is given by its tag and its place among the
    rules of the tag. -/
def attach (rules : RuleSet) (tag : Tag) (index : Nat) (watcher : Watcher) : RuleSet where
  groups := rules.groups.map (attachIn tag index watcher)
  nextOrder := rules.nextOrder
  nodup_tags := by
    have htags : Prod.fst ∘ attachIn tag index watcher = Prod.fst :=
      funext (fst_attachIn tag index watcher)
    rw [List.map_map, htags]
    exact rules.nodup_tags
  isGroup := by
    intro entry hentry
    rcases List.mem_map.1 hentry with ⟨old, hold, rfl⟩
    exact isGroup_attachIn tag index watcher old (rules.isGroup old hold)

end RuleSet

end TextGrammar
