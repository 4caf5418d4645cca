import Mathlib.Logic.Relation
import Mathlib.Tactic.ByContra
import TextGrammar.Graph

/-!
# Reachability

What the closures of a graph hold, said by paths.

A closure is computed in rounds. A round follows the edges from the nodes that
the round before has added, and the first one that adds nothing ends it. Only
nodes are ever added and none twice, so as many rounds as there are nodes are
enough, and the outcome holds every edge's target with its source.

A node on no cycle has strictly more nodes with rules ahead of it than any of
its successors, provided it has rules itself. The number of these nodes
therefore bounds how often rules can be nested.

## Main definitions

* `Graph.Leads`: An edge leads from one tag to another.
* `Graph.definedFrom`: The nodes with rules on paths from a node.

## Theorems

* `Graph.closed_closure`: The closure holds the targets of its nodes.
* `Graph.mem_closureOf_iff`: The closure holds what paths lead to.
* `Graph.mem_reachable_iff`, `Graph.mem_recursive_iff`: The same for the
  reachable nodes and for those on cycles.
* `Graph.mem_reachable_of_leads`: Reachable nodes lead to reachable ones.
* `Graph.length_definedFrom_lt`: Fewer nodes with rules lie ahead after an edge.
-/

namespace TextGrammar

namespace Graph

variable (g : Graph)

/-- An edge leads from the first tag to the second. -/
def Leads (a b : Tag) : Prop := (a, b) ∈ g.edges

theorem mem_successors (a b : Tag) : b ∈ g.successors a ↔ g.Leads a b := by
  unfold successors Leads
  simp only [List.mem_map, List.mem_filter, beq_iff_eq]
  constructor
  · rintro ⟨⟨x, y⟩, ⟨hmem, rfl⟩, rfl⟩
    exact hmem
  · intro hmem
    exact ⟨(a, b), ⟨hmem, rfl⟩, rfl⟩

theorem mem_image (tags : List Tag) (b : Tag) : b ∈ g.image tags ↔ ∃ a ∈ tags, g.Leads a b := by
  unfold image
  simp only [List.mem_flatMap, mem_successors]

theorem mem_nodes_of_leads {a b : Tag} (h : g.Leads a b) : b ∈ g.nodes := g.target_mem (a, b) h

/-- The nodes that a list lacks. -/
def lacking (seen : List Tag) : List Tag := g.nodes.filter fun tag => decide (tag ∉ seen)

theorem mem_lacking (seen : List Tag) (tag : Tag) :
    tag ∈ g.lacking seen ↔ tag ∈ g.nodes ∧ tag ∉ seen := by
  unfold lacking
  rw [List.mem_filter, decide_eq_true_eq]

/-- A list that holds more lacks fewer nodes. -/
theorem length_lacking_lt (seen next : List Tag) (tag : Tag) (hsub : ∀ a ∈ seen, a ∈ next)
    (hnode : tag ∈ g.nodes) (hseen : tag ∉ seen) (hnext : tag ∈ next) :
    (g.lacking next).length < (g.lacking seen).length := by
  -- The node that is new stands in front of what is still lacking, all of which was
  -- lacking before.
  have hnodup : (tag :: g.lacking next).Nodup := by
    refine List.nodup_cons.2 ⟨fun h => ((g.mem_lacking next tag).1 h).2 hnext, ?_⟩
    exact g.nodup_nodes.filter _
  have hincl : tag :: g.lacking next ⊆ g.lacking seen := by
    intro a ha
    rw [mem_lacking]
    rcases List.mem_cons.1 ha with rfl | ha
    · exact ⟨hnode, hseen⟩
    · rcases (g.mem_lacking next a).1 ha with ⟨hmem, hnot⟩
      exact ⟨hmem, fun h => hnot (hsub a h)⟩
  have := hnodup.length_le_of_subset hincl
  rw [List.length_cons] at this
  omega

/-- The rounds lose nothing. -/
theorem subset_closure (n : Nat) (seen fresh : List Tag) :
    ∀ a ∈ seen, a ∈ g.closure n seen fresh := by
  induction n generalizing seen fresh with
  | zero => exact fun a ha => ha
  | succ n ih =>
      intro a ha
      have hnext : a ∈ appendAll seen (g.image fresh) := (mem_appendAll _ _ a).2 (Or.inl ha)
      simp only [closure]
      split
      · exact hnext
      · exact ih _ _ a hnext

/-- What holds of the nodes at the start and passes along edges holds of all that
    the rounds add. -/
theorem closure_induction (P : Tag → Prop) (hstep : ∀ a b, P a → g.Leads a b → P b)
    (n : Nat) (seen fresh : List Tag) (hseen : ∀ a ∈ seen, P a) (hfresh : ∀ a ∈ fresh, a ∈ seen) :
    ∀ a ∈ g.closure n seen fresh, P a := by
  induction n generalizing seen fresh with
  | zero => exact hseen
  | succ n ih =>
      have hnext : ∀ a ∈ appendAll seen (g.image fresh), P a := by
        intro a ha
        rcases (mem_appendAll _ _ a).1 ha with ha | ha
        · exact hseen a ha
        · rcases (g.mem_image fresh a).1 ha with ⟨b, hb, hlead⟩
          exact hstep b a (hseen b (hfresh b hb)) hlead
      simp only [closure]
      split
      · exact hnext
      · exact ih _ _ hnext fun a ha => List.mem_of_mem_drop ha

theorem nodup_closure (n : Nat) (seen fresh : List Tag) (h : seen.Nodup) :
    (g.closure n seen fresh).Nodup := by
  induction n generalizing seen fresh with
  | zero => exact h
  | succ n ih =>
      have hnext := nodup_appendAll seen (g.image fresh) h
      simp only [closure]
      split
      · exact hnext
      · exact ih _ _ hnext

/-- The outcome of enough rounds holds the targets of its nodes. In between, this
    is true of all nodes but those that the last round has added. -/
theorem closed_closure (n : Nat) (seen fresh : List Tag) (hnodup : seen.Nodup)
    (hclosed : ∀ a ∈ seen, a ∉ fresh → ∀ b, g.Leads a b → b ∈ seen)
    (hn : (g.lacking seen).length ≤ n) :
    ∀ a ∈ g.closure n seen fresh, ∀ b, g.Leads a b → b ∈ g.closure n seen fresh := by
  induction n generalizing seen fresh with
  | zero =>
      -- No node is lacking, so there is no target to be added either.
      intro a _ b hlead
      by_contra hb
      have hmem := (g.mem_lacking seen b).2 ⟨g.mem_nodes_of_leads hlead, hb⟩
      have := List.length_pos_of_mem hmem
      omega
  | succ n ih =>
      -- The round splits into what was there and what it adds.
      rcases prefix_appendAll seen (g.image fresh) with ⟨added, hadded⟩
      have hnext : ∀ a ∈ seen, ∀ b, g.Leads a b → b ∈ seen ++ added := by
        intro a ha b hlead
        rw [hadded, mem_appendAll]
        by_cases hfresh : a ∈ fresh
        · exact Or.inr ((g.mem_image fresh b).2 ⟨a, hfresh, hlead⟩)
        · exact Or.inl (hclosed a ha hfresh b hlead)
      have hdisjoint : (seen ++ added).Nodup := hadded ▸ nodup_appendAll _ _ hnodup
      simp only [closure, ← hadded, List.drop_left]
      cases added with
      | nil =>
          -- Nothing new, so what was there holds its targets already.
          rw [List.append_nil] at hnext ⊢
          exact hnext
      | cons tag rest =>
          -- Something new, so fewer nodes are lacking, and what was there is closed.
          have htag : tag ∈ appendAll seen (g.image fresh) :=
            hadded ▸ List.mem_append_right seen (List.mem_cons_self ..)
          have hnew : tag ∉ seen := fun h =>
            (List.nodup_append.1 hdisjoint).2.2 tag h tag (List.mem_cons_self ..) rfl
          have hnode : tag ∈ g.nodes := by
            rcases (mem_appendAll _ _ tag).1 htag with h | h
            · exact absurd h hnew
            · rcases (g.mem_image fresh tag).1 h with ⟨a, _, hlead⟩
              exact g.mem_nodes_of_leads hlead
          have hfewer := g.length_lacking_lt seen (seen ++ tag :: rest) tag
            (fun a ha => List.mem_append_left _ ha) hnode hnew
            (List.mem_append_right _ (List.mem_cons_self ..))
          refine ih _ _ hdisjoint (fun a ha hnot b hlead => ?_) (by omega)
          exact hnext a ((List.mem_append.1 ha).resolve_right hnot) b hlead

theorem nodup_closureOf (tags : List Tag) : (g.closureOf tags).Nodup :=
  g.nodup_closure _ _ _ (nodup_appendAll [] tags List.nodup_nil)

/-- The closure of some nodes holds what paths lead to from any of them. -/
theorem mem_closureOf_iff (tags : List Tag) (b : Tag) :
    b ∈ g.closureOf tags ↔ ∃ a ∈ tags, Relation.ReflTransGen g.Leads a b := by
  have hstart : ∀ a, a ∈ appendAll [] tags ↔ a ∈ tags := fun a => by
    rw [mem_appendAll, or_iff_right List.not_mem_nil]
  constructor
  · refine g.closure_induction (fun b => ∃ a ∈ tags, Relation.ReflTransGen g.Leads a b) ?_ _ _ _
      (fun a ha => ?_) (fun a ha => ha) b
    · rintro b c ⟨a, ha, hpath⟩ hlead
      exact ⟨a, ha, hpath.tail hlead⟩
    · exact ⟨a, (hstart a).1 ha, Relation.ReflTransGen.refl⟩
  · rintro ⟨a, ha, hpath⟩
    have hfew : (g.lacking (appendAll [] tags)).length ≤ g.nodes.length :=
      List.length_filter_le _ _
    have hclosed := g.closed_closure g.nodes.length (appendAll [] tags) (appendAll [] tags)
      (nodup_appendAll [] tags List.nodup_nil) (fun a ha hnot => absurd ha hnot) hfew
    induction hpath with
    | refl => exact g.subset_closure _ _ _ a ((hstart a).2 ha)
    | tail _ hlead ih => exact hclosed _ ih _ hlead

/-- The reachable nodes are those on paths from the root, which has to be a node. -/
theorem mem_reachable_iff (root b : Tag) :
    b ∈ g.reachable root ↔ root ∈ g.nodes ∧ Relation.ReflTransGen g.Leads root b := by
  unfold reachable
  by_cases hroot : root ∈ g.nodes
  · rw [if_pos (List.contains_iff_mem.2 hroot), mem_closureOf_iff]
    simp only [List.mem_singleton, exists_eq_left, hroot, true_and]
  · rw [if_neg (fun h => hroot (List.contains_iff_mem.1 h))]
    simp only [List.not_mem_nil, hroot, false_and]

theorem mem_reachable_of_leads {root a b : Tag} (ha : a ∈ g.reachable root) (hlead : g.Leads a b) :
    b ∈ g.reachable root := by
  rcases (g.mem_reachable_iff root a).1 ha with ⟨hroot, hpath⟩
  exact (g.mem_reachable_iff root b).2 ⟨hroot, hpath.tail hlead⟩

theorem mem_reachable_self {root : Tag} (hroot : root ∈ g.nodes) : root ∈ g.reachable root :=
  (g.mem_reachable_iff root root).2 ⟨hroot, Relation.ReflTransGen.refl⟩

theorem mem_unreachable_iff (root tag : Tag) :
    tag ∈ g.unreachable root ↔ tag ∈ g.defined ∧ tag ∉ g.reachable root := by
  unfold unreachable
  rw [List.mem_filter, Bool.not_eq_true', ← Bool.not_eq_true, List.contains_iff_mem]

/-- The recursive nodes are those with a path of at least one edge to themselves. -/
theorem mem_recursive_iff (tag : Tag) :
    tag ∈ g.recursive ↔ Relation.TransGen g.Leads tag tag := by
  unfold recursive isRecursive
  rw [List.mem_filter, List.contains_iff_mem, mem_closureOf_iff]
  constructor
  · rintro ⟨_, a, ha, hpath⟩
    exact Relation.TransGen.head' ((g.mem_successors tag a).1 ha) hpath
  · intro hcycle
    rcases Relation.TransGen.tail'_iff.1 hcycle with ⟨last, _, hlast⟩
    rcases Relation.TransGen.head'_iff.1 hcycle with ⟨a, ha, hpath⟩
    exact ⟨g.mem_nodes_of_leads hlast, a, (g.mem_successors tag a).2 ha, hpath⟩

/-- The nodes with rules on paths from a node. -/
def definedFrom (tag : Tag) : List Tag := (g.closureOf [tag]).filter g.defined.contains

theorem mem_definedFrom_iff (a b : Tag) :
    b ∈ g.definedFrom a ↔ b ∈ g.defined ∧ Relation.ReflTransGen g.Leads a b := by
  unfold definedFrom
  rw [List.mem_filter, mem_closureOf_iff, List.contains_iff_mem]
  simp only [List.mem_singleton, exists_eq_left]
  exact and_comm

theorem nodup_definedFrom (tag : Tag) : (g.definedFrom tag).Nodup := (g.nodup_closureOf _).filter _

/-- After an edge from a node on no cycle, that node itself does not lie ahead any
    more, and everything that does lay ahead before. -/
theorem length_definedFrom_lt {a b : Tag} (hlead : g.Leads a b) (hacyclic : a ∉ g.recursive) :
    (g.definedFrom b).length < (g.definedFrom a).length := by
  have hself : a ∉ g.definedFrom b := fun h => by
    rcases (g.mem_definedFrom_iff b a).1 h with ⟨_, hpath⟩
    exact hacyclic ((g.mem_recursive_iff a).2 (Relation.TransGen.head' hlead hpath))
  have hincl : a :: g.definedFrom b ⊆ g.definedFrom a := by
    intro c hc
    rw [mem_definedFrom_iff]
    rcases List.mem_cons.1 hc with rfl | hc
    · exact ⟨g.source_mem (c, b) hlead, Relation.ReflTransGen.refl⟩
    · rcases (g.mem_definedFrom_iff b c).1 hc with ⟨hdefined, hpath⟩
      exact ⟨hdefined, hpath.head hlead⟩
  have := (List.nodup_cons.2 ⟨hself, g.nodup_definedFrom b⟩).length_le_of_subset hincl
  rw [List.length_cons] at this
  omega

end Graph

end TextGrammar
