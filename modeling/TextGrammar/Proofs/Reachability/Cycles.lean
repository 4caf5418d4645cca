import Mathlib.Order.Basic
import TextGrammar.Proofs.Reachability
import TextGrammar.Proofs.Registration.Growth

/-!
# Cycles

What the answers of a graph say of the rules it was made of.

The graph of a rule set has an edge where a rule references a tag, so its paths are the
chains of references. Reachable tags and tags on cycles are computed as closures, and
whether there is a cycle at all is computed by peeling: nodes that no edge leads to are
taken out until all that is left has an edge from what is left. Both agree. A node on a
cycle always has an edge from another node on it, and is never taken out. Conversely, from
a node that is left one can walk back for ever within what is left, while on a way without
cycles every step back would bring one more node with rules ahead.

A node is on a cycle, too, if its component has another member or it has an edge to
itself, where the component holds the nodes from which a path leads there and back.

## Main definitions

* `RuleSet.Refers`: A rule of the first tag references the second.
* `RuleSet.Mentions`: A tag has rules or is referenced.
* `Graph.component`: The nodes on ways there and back.

## Theorems

* `perm_filter_append_filter`: A list is divided by what it shares with another.
* `Graph.leads_ofRules_iff`, `Graph.mem_nodes_ofRules_iff`: Edges and nodes by the rules.
* `Graph.recursive_subset_peel`: Nodes on cycles are never taken out.
* `Graph.targets_peel`: The rounds are enough.
* `Graph.exists_recursive_of_targets_eq`: What cannot be peeled any more holds a cycle.
* `Graph.isAcyclic_iff`: A graph is acyclic if it has no node on a cycle.
* `Graph.mem_recursive_iff_component`: Nodes on cycles by their components.
* `Graph.answers_ofRules`: All answers of the graph of a rule set, by its references.
-/

namespace TextGrammar

/-- Of two lists that repeat nothing, what the first does not share with the second and what
    the second shares with the first make up the first. -/
theorem perm_filter_append_filter {α : Type} [DecidableEq α] {xs ys : List α} (hxs : xs.Nodup)
    (hys : ys.Nodup) :
    ((xs.filter fun x => !ys.contains x) ++ ys.filter xs.contains).Perm xs := by
  have hmem : ∀ x, x ∈ ys.filter xs.contains ↔ x ∈ ys ∧ x ∈ xs := fun x => by
    rw [List.mem_filter, List.contains_iff_mem]
  have hmem' : ∀ x, x ∈ (xs.filter fun x => !ys.contains x) ↔ x ∈ xs ∧ x ∉ ys := fun x => by
    rw [List.mem_filter, Bool.not_eq_true', ← Bool.not_eq_true, List.contains_iff_mem]
  have hnodup : ((xs.filter fun x => !ys.contains x) ++ ys.filter xs.contains).Nodup := by
    refine List.nodup_append.2 ⟨hxs.filter _, hys.filter _, ?_⟩
    rintro x hleft _ hright rfl
    exact ((hmem' x).1 hleft).2 ((hmem x).1 hright).1
  refine (List.perm_ext_iff_of_nodup hnodup hxs).2 fun x => ?_
  rw [List.mem_append, hmem, hmem']
  by_cases hx : x ∈ ys
  · simp [hx]
  · simp [hx]

namespace RuleSet

/-- A rule of the first tag references the second. -/
def Refers (rules : RuleSet) (a b : Tag) : Prop :=
  ∃ rule ∈ rules.rulesFor a, ∃ ref ∈ rule.content.references, ref.tag = b

/-- A tag has rules, or a rule references it. -/
def Mentions (rules : RuleSet) (tag : Tag) : Prop :=
  rules.rulesFor tag ≠ [] ∨ ∃ source, rules.Refers source tag

theorem mem_tags_iff (rules : RuleSet) (tag : Tag) :
    tag ∈ rules.tags ↔ rules.rulesFor tag ≠ [] := by
  rw [← contains_iff, contains, List.contains_iff_mem]

end RuleSet

namespace Graph

theorem leads_ofRules_iff (rules : RuleSet) (a b : Tag) :
    (ofRules rules).Leads a b ↔ rules.Refers a b := by
  unfold Leads RuleSet.Refers
  rw [mem_edges_ofRules]
  simp only [RuleSet.mem_rulesFor, and_assoc]

/-- The paths of the graph are those of the references. -/
theorem leads_ofRules_eq (rules : RuleSet) : (ofRules rules).Leads = rules.Refers :=
  funext fun a => funext fun b => propext (leads_ofRules_iff rules a b)

theorem mem_nodes_ofRules_iff (rules : RuleSet) (tag : Tag) :
    tag ∈ (ofRules rules).nodes ↔ rules.Mentions tag := by
  have hedges : tag ∈ (ruleEdges rules.toList).map Prod.snd ↔
      ∃ source, rules.Refers source tag := by
    rw [List.mem_map]
    constructor
    · rintro ⟨⟨source, target⟩, hedge, rfl⟩
      refine ⟨source, (leads_ofRules_iff rules source target).1 ?_⟩
      exact (mem_appendAll _ _ _).2 (Or.inr hedge)
    · rintro ⟨source, hrefers⟩
      have hlead := (leads_ofRules_iff rules source tag).2 hrefers
      exact ⟨(source, tag), ((mem_appendAll _ _ _).1 hlead).resolve_left List.not_mem_nil, rfl⟩
  unfold RuleSet.Mentions
  rw [← hedges, ← RuleSet.mem_tags_iff]
  exact mem_appendAll _ _ tag

variable (g : Graph)

theorem mem_targets_iff (tags : List Tag) (b : Tag) :
    b ∈ g.targets tags ↔ b ∈ tags ∧ ∃ a ∈ tags, g.Leads a b := by
  unfold targets
  simp only [List.mem_filter, List.contains_iff_mem, mem_image]

/-- An edge from a node on the same cycle leads to each node on a cycle. -/
theorem exists_recursive_leads {b : Tag} (hb : b ∈ g.recursive) :
    ∃ a ∈ g.recursive, g.Leads a b := by
  have hcycle := (g.mem_recursive_iff b).1 hb
  rcases Relation.TransGen.tail'_iff.1 hcycle with ⟨a, hpath, hlead⟩
  -- The last edge of the cycle put first gives the cycle of its source.
  exact ⟨a, (g.mem_recursive_iff a).2 (Relation.TransGen.head' hlead hpath), hlead⟩

/-- A round takes out no node on a cycle. -/
theorem recursive_subset_targets {tags : List Tag} (h : g.recursive ⊆ tags) :
    g.recursive ⊆ g.targets tags := by
  intro b hb
  rcases g.exists_recursive_leads hb with ⟨a, ha, hlead⟩
  exact (g.mem_targets_iff tags b).2 ⟨h hb, a, h ha, hlead⟩

/-- Nor do all rounds together. -/
theorem recursive_subset_peel (n : Nat) {tags : List Tag} (h : g.recursive ⊆ tags) :
    g.recursive ⊆ g.peel n tags := by
  induction n generalizing tags with
  | zero => exact h
  | succ n ih =>
      simp only [peel]
      split
      · exact h
      · exact ih (g.recursive_subset_targets h)

theorem targets_sublist (tags : List Tag) : (g.targets tags).Sublist tags := List.filter_sublist

/-- After as many rounds as there are nodes, each node that is left has an edge from a node
    that is left. Until then every round takes out a node. -/
theorem targets_peel (n : Nat) (tags : List Tag) (hn : tags.length ≤ n) :
    g.targets (g.peel n tags) = g.peel n tags := by
  induction n generalizing tags with
  | zero =>
      have hnil : tags = [] := List.length_eq_zero_iff.1 (by omega)
      simp only [peel, hnil]
      rfl
  | succ n ih =>
      have hless := (g.targets_sublist tags).length_le
      simp only [peel]
      split
      · rename_i hsame
        exact (g.targets_sublist tags).eq_of_length hsame
      · exact ih _ (by omega)

theorem length_definedFrom_le (tag : Tag) : (g.definedFrom tag).length ≤ g.defined.length :=
  List.Nodup.length_le_of_subset (g.nodup_definedFrom tag) fun other hother =>
    ((g.mem_definedFrom_iff tag other).1 hother).1

/-- Nodes that all have an edge from one of them include a node on a cycle. -/
theorem exists_recursive_of_targets_eq {tags : List Tag} (hne : tags ≠ [])
    (htargets : g.targets tags = tags) : ∃ tag ∈ tags, tag ∈ g.recursive := by
  by_contra hnone
  -- Without a cycle, each step back would bring one more node with rules ahead.
  have hback : ∀ n, ∃ tag ∈ tags, n ≤ (g.definedFrom tag).length := by
    intro n
    induction n with
    | zero =>
        rcases List.exists_mem_of_ne_nil tags hne with ⟨tag, htag⟩
        exact ⟨tag, htag, Nat.zero_le _⟩
    | succ n ih =>
        rcases ih with ⟨b, hb, hlength⟩
        rcases ((g.mem_targets_iff tags b).1 (htargets.symm ▸ hb)).2 with ⟨a, ha, hlead⟩
        have hacyclic : a ∉ g.recursive := fun h => hnone ⟨a, ha, h⟩
        have := g.length_definedFrom_lt hlead hacyclic
        exact ⟨a, ha, by omega⟩
  rcases hback (g.defined.length + 1) with ⟨tag, _, hlength⟩
  have := g.length_definedFrom_le tag
  omega

/-- A graph is acyclic exactly if no node is on a cycle. -/
theorem isAcyclic_iff : g.isAcyclic = true ↔ g.recursive = [] := by
  unfold isAcyclic
  rw [List.isEmpty_iff]
  constructor
  · intro hpeel
    have hsub := g.recursive_subset_peel g.nodes.length List.filter_sublist.subset
    rw [hpeel] at hsub
    exact List.subset_nil.1 hsub
  · intro hnone
    by_contra hne
    have htargets := g.targets_peel g.nodes.length g.nodes le_rfl
    rcases g.exists_recursive_of_targets_eq hne htargets with ⟨tag, _, htag⟩
    rw [hnone] at htag
    exact List.not_mem_nil htag

theorem nodup_reachable (root : Tag) : (g.reachable root).Nodup := by
  unfold reachable
  split
  · exact g.nodup_closureOf [root]
  · exact List.nodup_nil

/-- The nodes that paths lead to from a node and back, itself included. -/
def component (tag : Tag) : List Tag :=
  (g.closureOf [tag]).filter fun other => (g.closureOf [other]).contains tag

theorem mem_component_iff (a b : Tag) :
    b ∈ g.component a ↔ Relation.ReflTransGen g.Leads a b ∧ Relation.ReflTransGen g.Leads b a := by
  unfold component
  simp only [List.mem_filter, List.contains_iff_mem, mem_closureOf_iff, List.mem_singleton,
    exists_eq_left]

theorem nodup_component (tag : Tag) : (g.component tag).Nodup := (g.nodup_closureOf _).filter _

/-- A component has more than one member exactly if it has another one. -/
theorem one_lt_length_component_iff (tag : Tag) :
    1 < (g.component tag).length ↔ ∃ other ∈ g.component tag, other ≠ tag := by
  have hself : tag ∈ g.component tag :=
    (g.mem_component_iff tag tag).2 ⟨Relation.ReflTransGen.refl, Relation.ReflTransGen.refl⟩
  constructor
  · intro hlength
    by_contra hnone
    have hsub : g.component tag ⊆ [tag] := fun other hother =>
      List.mem_singleton.2 (by_contra fun hne => hnone ⟨other, hother, hne⟩)
    have := List.Nodup.length_le_of_subset (g.nodup_component tag) hsub
    rw [List.length_singleton] at this
    omega
  · rintro ⟨other, hother, hne⟩
    have hnodup : [other, tag].Nodup := by simp [hne]
    have hsub : [other, tag] ⊆ g.component tag := by simp [hother, hself]
    exact hnodup.length_le_of_subset hsub

/-- The nodes on cycles are those whose component has another member, and those with an edge
    to themselves. -/
theorem mem_recursive_iff_component (tag : Tag) :
    tag ∈ g.recursive ↔ 1 < (g.component tag).length ∨ g.Leads tag tag := by
  rw [mem_recursive_iff, one_lt_length_component_iff]
  constructor
  · intro hcycle
    rcases Relation.TransGen.head'_iff.1 hcycle with ⟨next, hlead, hpath⟩
    by_cases hnext : next = tag
    · exact Or.inr (hnext ▸ hlead)
    · have hthere : Relation.ReflTransGen g.Leads tag next := Relation.ReflTransGen.single hlead
      exact Or.inl ⟨next, (g.mem_component_iff tag next).2 ⟨hthere, hpath⟩, hnext⟩
  · rintro (⟨other, hother, hne⟩ | hlead)
    · rcases (g.mem_component_iff tag other).1 hother with ⟨hthere, hback⟩
      -- The way there is not empty, since it ends elsewhere.
      rcases Relation.reflTransGen_iff_eq_or_transGen.1 hthere with heq | hpath
      · exact absurd heq hne
      · exact hpath.trans_left hback
    · exact Relation.TransGen.single hlead

/-- The answers of the graph of a rule set, by chains of references. From a root that has
    rules or is referenced, the root itself and the ends of such chains are reachable, and
    from any other tag nothing is. The tags with rules are divided into the unreachable and
    the reachable ones. The recursive tags are those with a chain to themselves, which are
    the members of components with more than one member and the tags that reference
    themselves. The report calls the graph acyclic exactly if there is none of them. -/
theorem answers_ofRules (rules : RuleSet) :
    (∀ root, ((ofRules rules).reachable root).Nodup ∧
      ∀ tag, tag ∈ (ofRules rules).reachable root ↔
        rules.Mentions root ∧ (tag = root ∨ Relation.TransGen rules.Refers root tag)) ∧
    ((ofRules rules).defined.Nodup ∧ ∀ root, ((ofRules rules).unreachable root ++
      ((ofRules rules).reachable root).filter (ofRules rules).defined.contains).Perm
        (ofRules rules).defined) ∧
    ((ofRules rules).recursive.Nodup ∧ ∀ tag,
      (tag ∈ (ofRules rules).recursive ↔ Relation.TransGen rules.Refers tag tag) ∧
      (tag ∈ (ofRules rules).recursive ↔
        1 < ((ofRules rules).component tag).length ∨ rules.Refers tag tag)) ∧
    ((GraphReport.ofRules rules).isAcyclic = true ↔ (ofRules rules).recursive = []) := by
  have hdefined : (ofRules rules).defined.Nodup := rules.nodup_tags
  refine ⟨fun root => ⟨(ofRules rules).nodup_reachable root, fun tag => ?_⟩,
    ⟨hdefined, fun root => perm_filter_append_filter hdefined (nodup_reachable _ root)⟩,
    ⟨(ofRules rules).nodup_nodes.filter _, fun tag => ⟨?_, ?_⟩⟩, isAcyclic_iff _⟩
  · rw [mem_reachable_iff, mem_nodes_ofRules_iff, Relation.reflTransGen_iff_eq_or_transGen,
      leads_ofRules_eq]
  · rw [mem_recursive_iff, leads_ofRules_eq]
  · rw [mem_recursive_iff_component, leads_ofRules_iff]

end Graph

end TextGrammar
