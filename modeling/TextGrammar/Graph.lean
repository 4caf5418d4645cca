import TextGrammar.Rule.RuleSet
import TextGrammar.Text.Order

/-!
# The Graph of a Rule Set

Which tags can lead to which. The nodes are the tags that have rules or are
referenced, and an edge leads from one tag to another when some rule of the
first holds a reference to the second.

Runs do not consult the graph. It tells an author which references have no
rules, which rules no run from a root can use, and where a run may nest without
end.

## Main definitions

* `Graph`: Nodes and edges.
* `Graph.ofRules`: The graph of a rule set.
* `Graph.reachable`: The nodes on paths from a root.
* `Graph.recursive`: The nodes on cycles.
* `Graph.isAcyclic`: Whether all nodes can be peeled off from the start.
* `GraphReport`: What is shown of a graph.

## Theorems

* `Graph.mem_edges_ofRules`: Which edges the graph of a rule set has.
-/

namespace TextGrammar

/-- The nodes, those with rules first, and for each rule the edges it gives. Both
    are lists without repetition. Edges lead from nodes with rules to nodes. -/
structure Graph where
  defined : List Tag
  nodes : List Tag
  edges : List (Tag × Tag)
  nodup_nodes : nodes.Nodup
  nodup_edges : edges.Nodup
  defined_subset : ∀ tag ∈ defined, tag ∈ nodes
  source_mem : ∀ edge ∈ edges, edge.1 ∈ defined
  target_mem : ∀ edge ∈ edges, edge.2 ∈ nodes

namespace Graph

/-- Append what is not yet in a list. -/
def appendNew {α : Type} [DecidableEq α] (xs : List α) (x : α) : List α :=
  if x ∈ xs then xs else xs ++ [x]

/-- Append the things of a list that are not yet in another. -/
def appendAll {α : Type} [DecidableEq α] (xs ys : List α) : List α := ys.foldl appendNew xs

section AppendAll

variable {α : Type} [DecidableEq α]

theorem mem_appendNew (xs : List α) (x y : α) : y ∈ appendNew xs x ↔ y ∈ xs ∨ y = x := by
  unfold appendNew
  split
  · rename_i hx
    exact ⟨Or.inl, fun h => h.elim id fun h => h ▸ hx⟩
  · rw [List.mem_append, List.mem_singleton]

theorem nodup_appendNew (xs : List α) (x : α) (h : xs.Nodup) : (appendNew xs x).Nodup := by
  unfold appendNew
  split
  · exact h
  · rename_i hx
    refine List.nodup_append.2 ⟨h, List.pairwise_singleton _ _, fun a ha b hb hab => ?_⟩
    rw [List.mem_singleton.1 hb] at hab
    exact hx (hab ▸ ha)

theorem prefix_appendNew (xs : List α) (x : α) : xs <+: appendNew xs x := by
  unfold appendNew
  split
  · exact List.prefix_refl xs
  · exact List.prefix_append xs [x]

theorem mem_appendAll (xs ys : List α) (y : α) : y ∈ appendAll xs ys ↔ y ∈ xs ∨ y ∈ ys := by
  unfold appendAll
  induction ys generalizing xs with
  | nil => simp only [List.foldl_nil, List.not_mem_nil, or_false]
  | cons x rest ih => rw [List.foldl_cons, ih, mem_appendNew, List.mem_cons, or_assoc]

theorem nodup_appendAll (xs ys : List α) (h : xs.Nodup) : (appendAll xs ys).Nodup := by
  unfold appendAll
  induction ys generalizing xs with
  | nil => exact h
  | cons x rest ih => exact ih _ (nodup_appendNew xs x h)

theorem prefix_appendAll (xs ys : List α) : xs <+: appendAll xs ys := by
  unfold appendAll
  induction ys generalizing xs with
  | nil => exact List.prefix_refl xs
  | cons x rest ih => exact (prefix_appendNew xs x).trans (ih _)

end AppendAll

/-- The edges that the rules give, in order and with repetitions. -/
def ruleEdges (rules : List RegisteredRule) : List (Tag × Tag) :=
  rules.flatMap fun rule => rule.content.references.map fun ref => (rule.tag, ref.tag)

theorem mem_ruleEdges (rules : List RegisteredRule) (edge : Tag × Tag) :
    edge ∈ ruleEdges rules ↔
      ∃ rule ∈ rules, rule.tag = edge.1 ∧ ∃ ref ∈ rule.content.references, ref.tag = edge.2 := by
  simp only [ruleEdges, List.mem_flatMap, List.mem_map]
  constructor
  · rintro ⟨rule, hrule, ref, href, rfl⟩
    exact ⟨rule, hrule, rfl, ref, href, rfl⟩
  · rintro ⟨rule, hrule, hsource, ref, href, htarget⟩
    exact ⟨rule, hrule, ref, href, Prod.ext hsource htarget⟩

/-- The graph of a rule set. -/
def ofRules (rules : RuleSet) : Graph where
  defined := rules.tags
  nodes := appendAll rules.tags ((ruleEdges rules.toList).map Prod.snd)
  edges := appendAll [] (ruleEdges rules.toList)
  nodup_nodes := nodup_appendAll _ _ rules.nodup_tags
  nodup_edges := nodup_appendAll _ _ List.nodup_nil
  defined_subset := fun tag htag => (mem_appendAll _ _ tag).2 (Or.inl htag)
  source_mem := by
    intro edge hedge
    have hmem := ((mem_appendAll _ _ edge).1 hedge).resolve_left List.not_mem_nil
    rcases (mem_ruleEdges _ _).1 hmem with ⟨rule, hrule, hsource, _⟩
    exact hsource ▸ rules.tag_mem_tags rule hrule
  target_mem := by
    intro edge hedge
    have hmem := ((mem_appendAll _ _ edge).1 hedge).resolve_left List.not_mem_nil
    exact (mem_appendAll _ _ edge.2).2 (Or.inr (List.mem_map_of_mem hmem))

/-- An edge leads from one tag to another when a rule of the first holds a
    reference to the second. -/
theorem mem_edges_ofRules (rules : RuleSet) (a b : Tag) :
    (a, b) ∈ (ofRules rules).edges ↔
      ∃ rule ∈ rules.toList, rule.tag = a ∧ ∃ ref ∈ rule.content.references, ref.tag = b := by
  rw [show (ofRules rules).edges = appendAll [] (ruleEdges rules.toList) from rfl, mem_appendAll,
    or_iff_right List.not_mem_nil, mem_ruleEdges]

/-- The nodes without rules. -/
def undefined (g : Graph) : List Tag := g.nodes.filter fun tag => !g.defined.contains tag

/-- The nodes that edges lead to from a node. -/
def successors (g : Graph) (tag : Tag) : List Tag :=
  (g.edges.filter fun edge => edge.1 == tag).map Prod.snd

/-- The nodes that edges lead to from any of some nodes. -/
def image (g : Graph) (tags : List Tag) : List Tag := tags.flatMap g.successors

/-- Nodes together with those that edges lead to in a number of steps. The last
    argument holds the nodes that the step before has added, and only the edges
    from these are followed. -/
def closure (g : Graph) : Nat → List Tag → List Tag → List Tag
  | 0, seen, _ => seen
  | n + 1, seen, fresh =>
    let next := appendAll seen (g.image fresh)
    match next.drop seen.length with
    | [] => next
    | added => closure g n next added

/-- The nodes that paths from some nodes lead to, those included. As many steps
    as there are nodes are enough. -/
def closureOf (g : Graph) (tags : List Tag) : List Tag :=
  let start := appendAll [] tags
  g.closure g.nodes.length start start

/-- The nodes on paths from a root, itself included. There are none from a tag
    that is no node. -/
def reachable (g : Graph) (root : Tag) : List Tag :=
  if g.nodes.contains root then g.closureOf [root] else []

/-- The nodes with rules that no path from a root leads to. -/
def unreachable (g : Graph) (root : Tag) : List Tag :=
  let reached := g.reachable root
  g.defined.filter fun tag => !reached.contains tag

/-- Whether a path with at least one edge leads from a node to itself. -/
def isRecursive (g : Graph) (tag : Tag) : Bool := (g.closureOf (g.successors tag)).contains tag

/-- The nodes on cycles. -/
def recursive (g : Graph) : List Tag := g.nodes.filter g.isRecursive

/-- The nodes of a list that some edge from a node of the list leads to. -/
def targets (g : Graph) (tags : List Tag) : List Tag :=
  let reached := g.image tags
  tags.filter fun tag => reached.contains tag

/-- Take out the nodes of a list that no edge from a node of the list leads to, over
    and over until none is taken out, at most as often as the first argument says. -/
def peel (g : Graph) : Nat → List Tag → List Tag
  | 0, tags => tags
  | n + 1, tags =>
    let left := g.targets tags
    if left.length = tags.length then tags else peel g n left

/-- Whether all nodes can be peeled off from the start, so that they have an
    order in which every edge leads forward. -/
def isAcyclic (g : Graph) : Bool := (g.peel g.nodes.length g.nodes).isEmpty

end Graph

/-- What is shown of one node. -/
structure NodeReport where
  id : String
  isDefined : Bool
  ruleCount : Nat
  references : List String

/-- What is shown of a graph, with the nodes sorted by their texts. -/
structure GraphReport where
  nodeCount : Nat
  edgeCount : Nat
  isAcyclic : Bool
  nodes : List NodeReport

/-- The tags of a list as texts in ascending order. -/
def sortedTexts (tags : List Tag) : List String := sortBy id (tags.map Tag.toText)

/-- What is shown of the graph of a rule set. -/
def GraphReport.ofRules (rules : RuleSet) : GraphReport :=
  let g := Graph.ofRules rules
  { nodeCount := g.nodes.length
    edgeCount := g.edges.length
    isAcyclic := g.isAcyclic
    nodes := (sortBy Tag.toText g.nodes).map fun tag =>
      { id := tag.toText
        isDefined := g.defined.contains tag
        ruleCount := (rules.rulesFor tag).length
        references := sortedTexts (g.successors tag) } }

end TextGrammar
