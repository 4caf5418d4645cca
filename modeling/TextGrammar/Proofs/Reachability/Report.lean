import Mathlib.Algebra.BigOperators.Group.List.Basic
import Mathlib.Algebra.GroupWithZero.Nat
import Mathlib.Data.List.Forall2
import Mathlib.Data.List.Sort
import TextGrammar.Proofs.Reachability.Cycles

/-!
# Reports

What the report of a rule set shows, told from the rules.

The nodes of a graph are found in two ways: tags with rules are there from the start, and
referenced tags are added where they are met, unless they are there already. How many rules
a node has is looked up later, in the rule set. That the mark of a node and its count agree
rests on two facts about rule sets and edges: no tag is kept without rules, and every edge
leads from a tag with rules.

Edges are kept once each, so the references of a node are the distinct tags that its rules
reference. Every edge is one of them for exactly one node.

## Main definitions

* `NodeReport.Describes`: What is shown of a tag is what its rules say.

## Theorems

* `sortBy_eq_insertionSort`: Sorting by a text is insertion sort.
* `sum_map_count`: Counting all members of a list is counting its things one by one.
* `Graph.sum_length_successors`: The edges, counted node by node.
* `Graph.perm_defined_append_undefined`: Nodes have rules or have none.
* `GraphReport.describes_node`: The report of one node.
* `GraphReport.describes_ofRules`: The report of a rule set.
-/

namespace TextGrammar

section Sorting

variable {α : Type} (key : α → String)

theorem insertBy_eq_orderedInsert (x : α) (xs : List α) :
    insertBy key x xs = xs.orderedInsert (fun a b => key a ≤ key b) x := by
  induction xs with
  | nil => rfl
  | cons y rest ih =>
      rw [insertBy, List.orderedInsert_cons, ih]
      by_cases hlt : key y < key x
      · rw [if_pos hlt, if_neg (String.not_le.2 hlt)]
      · rw [if_neg hlt, if_pos (String.not_lt.1 hlt)]

/-- Sorting by a text is insertion sort. -/
theorem sortBy_eq_insertionSort (xs : List α) :
    sortBy key xs = xs.insertionSort fun a b => key a ≤ key b := by
  unfold sortBy List.insertionSort
  exact congrArg (List.foldr · [] xs) (funext₂ (insertBy_eq_orderedInsert key))

theorem perm_sortBy (xs : List α) : (sortBy key xs).Perm xs := by
  rw [sortBy_eq_insertionSort]
  exact List.perm_insertionSort _ xs

theorem pairwise_sortBy (xs : List α) : (sortBy key xs).Pairwise fun a b => key a ≤ key b := by
  have htotal : Std.Total fun a b => key a ≤ key b := ⟨fun a b => String.le_total (key a) (key b)⟩
  have htrans : IsTrans α fun a b => key a ≤ key b := ⟨fun _ _ _ => String.le_trans⟩
  rw [sortBy_eq_insertionSort]
  exact List.pairwise_insertionSort _ xs

end Sorting

/-- A list whose members all stand in a second one, which repeats nothing, is as long as the
    occurrences of the things of the second one add up to. -/
theorem sum_map_count {α : Type} [DecidableEq α] {ys : List α} (hys : ys.Nodup) {xs : List α}
    (h : xs ⊆ ys) : (ys.map fun y => xs.count y).sum = xs.length := by
  induction xs with
  | nil => simp
  | cons x rest ih =>
      rcases List.cons_subset.1 h with ⟨hx, hrest⟩
      -- The first member counts where it is asked for, which is in one place.
      have hfirst : (ys.map fun y => if x = y then 1 else 0).sum = 1 := by
        rw [List.sum_map_eq_nsmul_single x _ fun y hne _ => if_neg hne.symm,
          List.count_eq_one_of_mem hys hx]
        simp
      simp only [List.count_cons, beq_iff_eq, List.sum_map_add, List.length_cons]
      rw [ih hrest, hfirst]

namespace Graph

variable (g : Graph)

theorem length_successors (tag : Tag) :
    (g.successors tag).length = (g.edges.map Prod.fst).count tag := by
  unfold successors
  rw [List.length_map, ← List.countP_eq_length_filter, List.count, List.countP_map]
  rfl

/-- Every edge leads to a successor of exactly one node. -/
theorem sum_length_successors :
    (g.nodes.map fun tag => (g.successors tag).length).sum = g.edges.length := by
  have hsources : g.edges.map Prod.fst ⊆ g.nodes := by
    intro tag htag
    rcases List.mem_map.1 htag with ⟨edge, hedge, rfl⟩
    exact g.defined_subset _ (g.source_mem edge hedge)
  simp only [length_successors]
  rw [sum_map_count g.nodup_nodes hsources, List.length_map]

theorem nodup_successors (tag : Tag) : (g.successors tag).Nodup := by
  unfold successors
  refine List.Nodup.map_on ?_ (g.nodup_edges.filter _)
  intro edge hedge other hother htarget
  -- The two edges have their source in common as well.
  have hsource : edge.1 = tag := by simpa using (List.mem_filter.1 hedge).2
  have hsource' : other.1 = tag := by simpa using (List.mem_filter.1 hother).2
  exact Prod.ext (hsource.trans hsource'.symm) htarget

theorem successors_eq_nil {tag : Tag} (h : tag ∉ g.defined) : g.successors tag = [] := by
  refine List.eq_nil_iff_forall_not_mem.2 fun b hb => h ?_
  exact g.source_mem (tag, b) ((g.mem_successors tag b).1 hb)

theorem mem_undefined_iff (tag : Tag) : tag ∈ g.undefined ↔ tag ∈ g.nodes ∧ tag ∉ g.defined := by
  unfold undefined
  rw [List.mem_filter, Bool.not_eq_true', ← Bool.not_eq_true, List.contains_iff_mem]

/-- The nodes with rules and those without are all nodes, each once. -/
theorem perm_defined_append_undefined (hdefined : g.defined.Nodup) :
    (g.defined ++ g.undefined).Perm g.nodes := by
  have hall : g.defined.filter g.nodes.contains = g.defined :=
    List.filter_eq_self.2 fun tag htag => List.contains_iff_mem.2 (g.defined_subset tag htag)
  have hperm := perm_filter_append_filter g.nodup_nodes hdefined
  rw [hall] at hperm
  exact List.perm_append_comm.trans hperm

end Graph

/-- What is shown of a tag is what the rules say: how many of them it has, which is some
    exactly if it is marked as defined, and as references the texts of the tags that they
    reference, in order, of each of these tags once. -/
structure NodeReport.Describes (rules : RuleSet) (tag : Tag) (node : NodeReport) : Prop where
  id_eq : node.id = tag.toText
  ruleCount_eq : node.ruleCount = rules.toList.countP fun rule => decide (rule.tag = tag)
  isDefined_iff : node.isDefined = true ↔ 0 < node.ruleCount
  references_perm : ∃ targets : List Tag, targets.Nodup ∧
    (∀ target, target ∈ targets ↔ rules.Refers tag target) ∧
    node.references.Perm (targets.map Tag.toText)
  references_sorted : node.references.Pairwise (· ≤ ·)
  references_eq_nil : node.isDefined = false → node.references = []

namespace GraphReport

/-- What the report of a rule set shows of a node. -/
def node (rules : RuleSet) (tag : Tag) : NodeReport where
  id := tag.toText
  isDefined := (Graph.ofRules rules).defined.contains tag
  ruleCount := (rules.rulesFor tag).length
  references := sortedTexts ((Graph.ofRules rules).successors tag)

theorem nodes_ofRules (rules : RuleSet) :
    (ofRules rules).nodes = (sortBy Tag.toText (Graph.ofRules rules).nodes).map (node rules) := rfl

theorem perm_sortedTexts (tags : List Tag) : (sortedTexts tags).Perm (tags.map Tag.toText) :=
  perm_sortBy id _

theorem describes_node (rules : RuleSet) (tag : Tag) :
    NodeReport.Describes rules tag (node rules tag) where
  id_eq := rfl
  ruleCount_eq := by
    rw [List.countP_eq_length_filter, rules.filter_tag_toList]
    rfl
  isDefined_iff := by
    unfold node
    rw [List.contains_iff_mem, List.length_pos_iff]
    exact rules.mem_tags_iff tag
  references_perm := by
    refine ⟨_, (Graph.ofRules rules).nodup_successors tag, fun target => ?_, perm_sortedTexts _⟩
    rw [Graph.mem_successors, Graph.leads_ofRules_iff]
  references_sorted := pairwise_sortBy id _
  references_eq_nil := by
    intro hundefined
    unfold node at hundefined ⊢
    have hnot : tag ∉ (Graph.ofRules rules).defined := fun htag =>
      Bool.false_ne_true (hundefined.symm.trans (List.contains_iff_mem.2 htag))
    simp only [Graph.successors_eq_nil _ hnot]
    rfl

/-- The report of a rule set shows each tag that has rules or is referenced once, in the
    order of the texts, and of each what its rules say. It counts these nodes, and as edges
    their references. The tags with rules and those without are together all of them, none
    in both, and those without rules are the tags that are referenced and have none. -/
theorem describes_ofRules (rules : RuleSet) :
    (∃ tags : List Tag, tags.Nodup ∧ (∀ tag, tag ∈ tags ↔ rules.Mentions tag) ∧
      (tags.Pairwise fun a b => a.toText ≤ b.toText) ∧
      List.Forall₂ (NodeReport.Describes rules) tags (ofRules rules).nodes ∧
      ((Graph.ofRules rules).defined ++ (Graph.ofRules rules).undefined).Perm tags) ∧
    (ofRules rules).nodeCount = (ofRules rules).nodes.length ∧
    (ofRules rules).edgeCount =
      ((ofRules rules).nodes.map fun node => node.references.length).sum ∧
    (∀ tag, tag ∈ (Graph.ofRules rules).defined ↔ rules.rulesFor tag ≠ []) ∧
    ∀ tag, tag ∈ (Graph.ofRules rules).undefined ↔
      (∃ source, rules.Refers source tag) ∧ rules.rulesFor tag = [] := by
  have hperm := perm_sortBy Tag.toText (Graph.ofRules rules).nodes
  have hnodes := Graph.perm_defined_append_undefined (Graph.ofRules rules) rules.nodup_tags
  refine ⟨⟨sortBy Tag.toText (Graph.ofRules rules).nodes, ?_, fun tag => ?_,
    pairwise_sortBy Tag.toText _, ?_, hnodes.trans hperm.symm⟩, ?_, ?_, rules.mem_tags_iff,
    fun tag => ?_⟩
  · exact hperm.nodup_iff.2 (Graph.ofRules rules).nodup_nodes
  · rw [hperm.mem_iff, Graph.mem_nodes_ofRules_iff]
  · rw [nodes_ofRules, List.forall₂_map_right_iff]
    exact List.forall₂_same.2 fun tag _ => describes_node rules tag
  · rw [nodes_ofRules, List.length_map, hperm.length_eq]
    rfl
  · -- The references of a node are as many as its successors, and in whatever order the
    -- nodes are gone through, these are the edges.
    have hlength : ∀ tag, (node rules tag).references.length =
        ((Graph.ofRules rules).successors tag).length := fun tag =>
      (perm_sortedTexts _).length_eq.trans (List.length_map _)
    rw [nodes_ofRules, List.map_map]
    simp only [Function.comp_def, hlength]
    rw [(hperm.map _).sum_eq]
    exact (Graph.sum_length_successors _).symm
  · rw [Graph.mem_undefined_iff, Graph.mem_nodes_ofRules_iff]
    change _ ∧ tag ∉ rules.tags ↔ _
    rw [rules.mem_tags_iff, not_not]
    unfold RuleSet.Mentions
    tauto

end GraphReport

end TextGrammar
