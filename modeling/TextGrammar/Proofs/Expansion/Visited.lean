import TextGrammar.Proofs.Expansion.Execution
import TextGrammar.Proofs.Reachability

/-!
# Visited References

Which references an expansion comes to, in order, and that none of them lies
outside of a set of tags that the rules do not lead out of.

The list follows an expansion step by step: pieces are visited one after the
other until one fails, each from the state that the piece before it has left
behind. It leaves nothing out, since it is as long as the count of expanded
references in the metrics grows.

## Main definitions

* `Setup.visited`, `Setup.visitedAll`: The references that the expansion of a piece
  or of several visits.
* `RuleSet.IsClosed`: No rule leads out of a set of tags.

## Theorems

* `Setup.expansions_expand`: An expansion counts what it visits.
* `Setup.visited_mem`: It visits tags of a closed set only.
* `RuleSet.isClosed_reachable`: The tags reachable from a root, and the root, are
  closed.
-/

namespace TextGrammar

variable {σ : Type}

/-- No rule for a tag of a set holds a reference to a tag outside of the set. -/
def RuleSet.IsClosed (rules : RuleSet) (P : Tag → Prop) : Prop :=
  ∀ tag, P tag → ∀ rule ∈ rules.rulesFor tag, ∀ ref, .reference ref ∈ rule.content → P ref.tag

/-- Membership of a piece in a set of tags: that of its tag if it is a reference. -/
def Item.Within (P : Tag → Prop) : Item → Prop
  | .reference ref => P ref.tag
  | _ => True

theorem Content.mem_references (content : Content) (ref : Reference) :
    ref ∈ content.references ↔ .reference ref ∈ content := by
  unfold references
  rw [List.mem_filterMap]
  constructor
  · rintro ⟨item, hmem, hitem⟩
    cases item with
    | reference other => exact Option.some.inj hitem ▸ hmem
    | text s => exact absurd hitem nofun
    | lookup key chain => exact absurd hitem nofun
    | foreign given => exact absurd hitem nofun
  · intro hmem
    exact ⟨.reference ref, hmem, rfl⟩

/-- The pieces of a template of a closed set stay within the set. -/
theorem RuleSet.IsClosed.within {rules : RuleSet} {P : Tag → Prop} (hclosed : rules.IsClosed P)
    {tag : Tag} (htag : P tag) {rule : RegisteredRule} (hrule : rule ∈ rules.rulesFor tag) :
    ∀ item ∈ rule.content, item.Within P := by
  intro item hitem
  cases item with
  | reference ref => exact hclosed tag htag rule hrule ref hitem
  | text s => trivial
  | lookup key chain => trivial
  | foreign given => trivial

theorem Graph.leads_ofRules (rules : RuleSet) {tag : Tag} {rule : RegisteredRule}
    (hrule : rule ∈ rules.rulesFor tag) {ref : Reference} (href : .reference ref ∈ rule.content) :
    (Graph.ofRules rules).Leads tag ref.tag := by
  rcases (rules.mem_rulesFor tag rule).1 hrule with ⟨hmem, htag⟩
  refine (Graph.mem_edges_ofRules rules tag ref.tag).2 ⟨rule, hmem, htag, ref, ?_, rfl⟩
  exact (Content.mem_references _ _).2 href

/-- The tags reachable from a root are closed together with the root, which itself
    is not reachable when it is no node. -/
theorem RuleSet.isClosed_reachable (rules : RuleSet) (root : Tag) :
    rules.IsClosed fun tag => tag = root ∨ tag ∈ (Graph.ofRules rules).reachable root := by
  intro tag htag rule hrule ref href
  have hlead := Graph.leads_ofRules rules hrule href
  -- An edge leads to a reachable tag, from the root as well as from any other.
  refine Or.inr ?_
  rcases htag with rfl | htag
  · -- A root with rules is a node, and so reachable from itself.
    have hnode : tag ∈ (Graph.ofRules rules).nodes :=
      Graph.defined_subset _ _ (Graph.source_mem _ _ hlead)
    exact (Graph.mem_reachable_iff _ _ _).2 ⟨hnode, Relation.ReflTransGen.single hlead⟩
  · exact Graph.mem_reachable_of_leads _ htag hlead

namespace Setup

/-- The references that the expansion of pieces visits, one piece after the other
    until one fails, for a way to expand a piece and what that visits. -/
def visitedAll (expandItem : Item → Expansion σ String)
    (visitedItem : Item → Progress σ → List Reference) : Content → Progress σ → List Reference
  | [], _ => []
  | item :: rest, p =>
    visitedItem item p ++
      match (expandItem item).run p with
      | (.ok _, q) => visitedAll expandItem visitedItem rest q
      | (.error _, _) => []

/-- The references that the expansion of a piece visits. -/
def visited (setup : Setup σ) : Nat → Nat → Item → Progress σ → List Reference
  | _, _, .text _, _ => []
  | _, _, .lookup _ _, _ => []
  | _, _, .foreign _, _ => []
  | 0, _, .reference ref, _ => [ref]
  | fuel + 1, depth, .reference ref, p =>
    ref ::
      match (setup.selectRule depth ref).run p with
      | (.ok (some rule), q) =>
        visitedAll (setup.expand fuel (depth + 1)) (visited setup fuel (depth + 1)) rule.content
          { q with scene := q.scene.enter rule ref }
      | _ => []

theorem expansions_selectRule (setup : Setup σ) (depth : Nat) (ref : Reference) (p : Progress σ) :
    ((setup.selectRule depth ref).run p).2.metrics.expansions = p.metrics.expansions + 1 := by
  rcases hrun : (setup.selectRule depth ref).run p with ⟨outcome, q⟩
  cases setup.selects depth ref p hrun <;> rfl

theorem expansions_expandAll (expandItem : Item → Expansion σ String)
    (visitedItem : Item → Progress σ → List Reference) (content : Content)
    (h : ∀ item ∈ content, ∀ p, ((expandItem item).run p).2.metrics.expansions =
      p.metrics.expansions + (visitedItem item p).length) (p : Progress σ) :
    ((expandAll expandItem content).run p).2.metrics.expansions =
      p.metrics.expansions + (visitedAll expandItem visitedItem content p).length := by
  induction content generalizing p with
  | nil => rfl
  | cons item rest ih =>
      have hitem := h item (List.mem_cons_self ..) p
      -- The pieces behind count from where the first one has left the metrics, unless
      -- it fails and they are neither expanded nor visited.
      rw [run_expandAll_cons]
      simp only [visitedAll, List.length_append]
      rcases hrun : (expandItem item).run p with ⟨outcome, q⟩
      rw [hrun] at hitem
      cases outcome with
      | error e => exact hitem
      | ok text =>
          have hrest := ih (fun other hother => h other (List.mem_cons_of_mem _ hother)) q
          dsimp only at hitem ⊢
          rcases hmore : (expandAll expandItem rest).run q with ⟨outcome, q'⟩
          rw [hmore] at hrest
          cases outcome with
          | error e =>
              dsimp only at hrest ⊢
              omega
          | ok more =>
              dsimp only at hrest ⊢
              omega

/-- An expansion counts the references that it visits. -/
theorem expansions_expand (setup : Setup σ) (fuel depth : Nat) (item : Item) (p : Progress σ) :
    ((setup.expand fuel depth item).run p).2.metrics.expansions =
      p.metrics.expansions + (setup.visited fuel depth item p).length := by
  induction fuel, depth, item using expand_induction generalizing p with
  | text fuel depth s =>
      rw [expand, visited]
      rfl
  | lookup fuel depth key chain =>
      rw [expand, visited, run_expandLookup]
      rfl
  | foreign fuel depth given =>
      rw [expand, visited]
      rfl
  | exhausted depth ref =>
      have hselect := setup.expansions_selectRule depth ref p
      rw [run_expand_zero_reference, visited]
      rcases setup.selectRule_cases depth ref p with ⟨e, q, hrun, _⟩ | ⟨q, hrun, _⟩ |
        ⟨rule, q, hrun, _⟩
      all_goals
        rw [hrun] at hselect ⊢
        exact hselect
  | reference fuel depth ref ih =>
      have hselect := setup.expansions_selectRule depth ref p
      rw [visited]
      rcases setup.selectRule_cases depth ref p with ⟨e, q, hrun, _⟩ | ⟨q, hrun, _⟩ |
        ⟨rule, q, hrun, _⟩
      · rw [run_expand_of_error _ hrun, hrun]
        rw [hrun] at hselect
        exact hselect
      · rw [run_expand_of_none _ hrun, hrun]
        rw [hrun] at hselect
        exact hselect
      · -- The calls around the template count nothing, so what is left to count are the
        -- visits of its pieces.
        have hcontent := expansions_expandAll (setup.expand fuel (depth + 1))
          (setup.visited fuel (depth + 1)) rule.content (fun item _ p => ih item p)
          { q with scene := q.scene.enter rule ref }
        rw [hrun] at hselect
        rw [run_expand_of_some _ hrun, hrun, run_fire, List.length_cons]
        rcases hall : (expandAll (setup.expand fuel (depth + 1)) rule.content).run
          { q with scene := q.scene.enter rule ref } with ⟨outcome, q'⟩
        rw [hall] at hcontent
        dsimp only at hselect hcontent ⊢
        omega

/-- A template of tags of a closed set visits tags of the set. -/
theorem visitedAll_mem {P : Tag → Prop} (expandItem : Item → Expansion σ String)
    (visitedItem : Item → Progress σ → List Reference) (content : Content)
    (h : ∀ item ∈ content, ∀ p, ∀ ref ∈ visitedItem item p, P ref.tag) (p : Progress σ) :
    ∀ ref ∈ visitedAll expandItem visitedItem content p, P ref.tag := by
  induction content generalizing p with
  | nil => exact fun ref href => absurd href List.not_mem_nil
  | cons item rest ih =>
      intro ref href
      rw [visitedAll] at href
      rcases List.mem_append.1 href with href | href
      · exact h item (List.mem_cons_self ..) p ref href
      · rcases hrun : (expandItem item).run p with ⟨outcome, q⟩
        rw [hrun] at href
        cases outcome with
        | error e => exact absurd href List.not_mem_nil
        | ok text =>
            exact ih (fun other hother => h other (List.mem_cons_of_mem _ hother)) q ref href

/-- An expansion does not leave a closed set of tags. -/
theorem visited_mem (setup : Setup σ) {P : Tag → Prop} (hclosed : setup.rules.IsClosed P)
    (fuel depth : Nat) (item : Item) (hitem : item.Within P) (p : Progress σ) :
    ∀ ref ∈ setup.visited fuel depth item p, P ref.tag := by
  induction fuel, depth, item using expand_induction generalizing p with
  | text fuel depth s =>
      rw [visited]
      exact fun ref href => absurd href List.not_mem_nil
  | lookup fuel depth key chain =>
      rw [visited]
      exact fun ref href => absurd href List.not_mem_nil
  | foreign fuel depth given =>
      rw [visited]
      exact fun ref href => absurd href List.not_mem_nil
  | exhausted depth root =>
      intro ref href
      rw [visited] at href
      rw [List.mem_singleton.1 href]
      exact hitem
  | reference fuel depth root ih =>
      intro ref href
      rw [visited] at href
      rcases List.mem_cons.1 href with rfl | href
      · exact hitem
      · rcases setup.selectRule_cases depth root p with ⟨e, q, hrun, _⟩ | ⟨q, hrun, _⟩ |
          ⟨rule, q, hrun, hsel⟩
        · rw [hrun] at href
          exact absurd href List.not_mem_nil
        · rw [hrun] at href
          exact absurd href List.not_mem_nil
        · -- The rule is one for a tag of the set, which it does not lead out of.
          have hrule := mem_rulesFor_of_selects _ _ _ _ hsel
          have hwithin := hclosed.within hitem hrule
          rw [hrun] at href
          exact visitedAll_mem _ _ rule.content
            (fun item hmem p => ih item (hwithin item hmem) p) _ ref href

end Setup

end TextGrammar
