import TextGrammar.Proofs.Expansion.Fuel
import TextGrammar.Proofs.Expansion.Visited

/-!
# Termination

That an expansion ends without a depth limit when no reachable tag is on a cycle.

There is no measure on templates that an expansion makes smaller. What becomes
smaller is the number of tags with rules ahead: it falls with every rule that is
used, because the tag of the rule is no longer ahead of the references in its
template. A tag with nothing ahead has no rules, and a reference to it neither
meets the limit nor needs fuel.

With this number as the measure, both the fuel and the room below the limit are
bounds that an expansion within them does not notice. So all expansions with
enough of both are the same, and the number at the root is enough.

## Main definitions

* `Graph.rank`, `Item.rank`: The number of tags with rules ahead.

## Theorems

* `Graph.rank_lt`: A template has a smaller rank than the tag of its rule.
* `Setup.expand_eq_unlimited`: Within the rank, no limit is noticed.
* `Engine.ends_of_not_recursive`: A run ends, and with enough room in every limit
  it is the same.
-/

namespace TextGrammar

variable {σ : Type}

namespace Graph

/-- The number of nodes with rules on paths from a node. -/
def rank (g : Graph) (tag : Tag) : Nat := (g.definedFrom tag).length

end Graph

/-- The rank of a piece: that of its tag if it is a reference. -/
def Item.rank (g : Graph) : Item → Nat
  | .reference ref => g.rank ref.tag
  | _ => 0

namespace Graph

/-- A tag with rules has a rank, since it is ahead of itself. -/
theorem rank_pos (rules : RuleSet) {tag : Tag} {rule : RegisteredRule}
    (hrule : rule ∈ rules.rulesFor tag) : 0 < (ofRules rules).rank tag := by
  rcases (rules.mem_rulesFor tag rule).1 hrule with ⟨hmem, htag⟩
  have hdefined : tag ∈ (ofRules rules).defined := htag ▸ rules.tag_mem_tags rule hmem
  exact List.length_pos_of_mem
    ((mem_definedFrom_iff _ tag tag).2 ⟨hdefined, Relation.ReflTransGen.refl⟩)

theorem rulesFor_eq_nil (rules : RuleSet) {tag : Tag} (h : (ofRules rules).rank tag = 0) :
    rules.rulesFor tag = [] := by
  refine List.eq_nil_iff_forall_not_mem.2 fun rule hrule => ?_
  have := rank_pos rules hrule
  omega

/-- The pieces of a template have a smaller rank than the tag of the rule, if it is
    on no cycle. -/
theorem rank_lt (rules : RuleSet) {tag : Tag} (hacyclic : tag ∉ (ofRules rules).recursive)
    {rule : RegisteredRule} (hrule : rule ∈ rules.rulesFor tag) {item : Item}
    (hitem : item ∈ rule.content) : item.rank (ofRules rules) < (ofRules rules).rank tag := by
  cases item with
  | reference ref => exact length_definedFrom_lt _ (leads_ofRules rules hrule hitem) hacyclic
  | text s => exact rank_pos rules hrule
  | lookup key chain => exact rank_pos rules hrule
  | foreign given => exact rank_pos rules hrule

/-- The rank of a root is at most the number of reachable tags with rules. -/
theorem rank_le_length_reachable (g : Graph) (root : Tag) :
    g.rank root ≤ ((g.reachable root).filter g.defined.contains).length := by
  -- Whatever has rules ahead of the root makes the root a node.
  refine List.Nodup.length_le_of_subset (g.nodup_definedFrom root) fun tag htag => ?_
  rcases (g.mem_definedFrom_iff root tag).1 htag with ⟨hdefined, hpath⟩
  have hroot : root ∈ g.nodes := by
    rcases Relation.ReflTransGen.cases_head hpath with rfl | ⟨next, hlead, _⟩
    · exact g.defined_subset root hdefined
    · exact g.defined_subset root (g.source_mem (root, next) hlead)
  refine List.mem_filter.2 ⟨(g.mem_reachable_iff root tag).2 ⟨hroot, hpath⟩, ?_⟩
  exact List.contains_iff_mem.2 hdefined

end Graph

namespace Setup

/-- The setup without a depth limit. -/
def unlimited (setup : Setup σ) : Setup σ := { setup with maxDepth := none }

/-- The depth limit refuses no expansion at a depth. -/
def HasRoom (setup : Setup σ) (depth room : Nat) : Prop :=
  ∀ limit ∈ setup.maxDepth, depth + room ≤ limit

theorem isTooDeep_of_hasRoom {setup : Setup σ} {depth room : Nat}
    (h : setup.HasRoom depth (room + 1)) : setup.isTooDeep depth = none := by
  unfold isTooDeep
  cases hlimit : setup.maxDepth with
  | none => rfl
  | some limit =>
      have := h limit hlimit
      exact if_neg (by omega)

/-- A limit that leaves room is not noticed by a selection. -/
theorem selectRule_unlimited {setup : Setup σ} {depth : Nat} (ref : Reference)
    (h : setup.isTooDeep depth = none) :
    setup.selectRule depth ref = setup.unlimited.selectRule depth ref := by
  refine Expansion.ext fun p => ?_
  rw [run_selectRule, run_selectRule, h]
  rfl

/-- A reference to a tag without rules gives the tag. -/
theorem run_expand_of_nil (setup : Setup σ) (fuel depth : Nat) (ref : Reference) (p : Progress σ)
    (h : setup.rules.rulesFor ref.tag = []) :
    (setup.expand fuel depth (.reference ref)).run p =
      (.ok ref.tag.toText, p.countExpansion.countUnmatched) := by
  have hfind : Candidates.find setup.rules ref p.scene.data = .ok (Candidates.ofList []) := by
    rw [Candidates.find, h, Candidates.search]
  exact run_expand_of_none fuel (run_of_selects _ _ _ _ (.unmatched _ hfind rfl))

/-- Within its rank, an expansion notices neither a limit nor how much fuel it has. -/
theorem expand_eq_unlimited (setup : Setup σ) {P : Tag → Prop}
    (hclosed : setup.rules.IsClosed P)
    (hacyclic : ∀ tag, P tag → tag ∉ (Graph.ofRules setup.rules).recursive)
    (room fuel depth : Nat) (item : Item) (hitem : item.Within P)
    (hrank : item.rank (Graph.ofRules setup.rules) ≤ room) (hfuel : room ≤ fuel)
    (hroom : setup.HasRoom depth room) :
    setup.expand fuel depth item = setup.unlimited.expand room depth item := by
  induction room, depth, item using expand_induction generalizing fuel with
  | text room depth s => rw [expand, expand]
  | lookup room depth key chain => rw [expand, expand]
  | foreign room depth given => rw [expand, expand]
  | exhausted depth ref =>
      -- Without a rank there are no rules, and the reference ends here on both sides.
      have hnil := Graph.rulesFor_eq_nil setup.rules (Nat.le_zero.1 hrank)
      refine Expansion.ext fun p => ?_
      rw [run_expand_of_nil setup _ _ _ _ hnil, run_expand_of_nil setup.unlimited _ _ _ _ hnil]
  | reference room depth ref ih =>
      cases fuel with
      | zero => omega
      | succ fuel =>
          have hselect := selectRule_unlimited ref (isTooDeep_of_hasRoom hroom)
          refine Expansion.ext fun p => ?_
          rcases setup.selectRule_cases depth ref p with ⟨e, q, hrun, _⟩ | ⟨q, hrun, _⟩ |
            ⟨rule, q, hrun, hsel⟩
          · rw [run_expand_of_error _ hrun, run_expand_of_error _ (hselect ▸ hrun)]
          · rw [run_expand_of_none _ hrun, run_expand_of_none _ (hselect ▸ hrun)]
          · -- The template has a smaller rank and is one level further down, so that one
            -- level less of room is enough for it.
            have hrule := mem_rulesFor_of_selects _ _ _ _ hsel
            rw [run_expand_of_some _ hrun, run_expand_of_some _ (hselect ▸ hrun),
              fire_congr rule ref fun item hmem => ?_]
            have hlt := Graph.rank_lt setup.rules (hacyclic _ hitem) hrule hmem
            have hless : item.rank (Graph.ofRules setup.rules) < room + 1 :=
              Nat.lt_of_lt_of_le hlt hrank
            refine ih item fuel (hclosed.within hitem hrule item hmem)
              (by omega) (by omega) fun limit hlimit => ?_
            have := hroom limit hlimit
            omega

/-- A failure that is not that of a bound on the nesting. -/
def IsUnbounded : ExpansionError → Prop
  | .tooDeep _ _ => False
  | .outOfFuel => False
  | _ => True

/-- Within its rank, an expansion without a limit does not fail with a bound. -/
theorem failsOnly_unlimited (setup : Setup σ) {P : Tag → Prop} (hclosed : setup.rules.IsClosed P)
    (hacyclic : ∀ tag, P tag → tag ∉ (Graph.ofRules setup.rules).recursive)
    (room depth : Nat) (item : Item) (hitem : item.Within P)
    (hrank : item.rank (Graph.ofRules setup.rules) ≤ room) :
    Expansion.FailsOnly IsUnbounded (setup.unlimited.expand room depth item) := by
  induction room, depth, item using expand_induction with
  | text room depth s =>
      rw [expand]
      exact Expansion.failsOnly_pure s
  | lookup room depth key chain =>
      rw [expand]
      exact failsOnly_expandLookup trivial key chain
  | foreign room depth given =>
      rw [expand]
      exact Expansion.failsOnly_throw trivial
  -- Without fuel the rank is zero, and a tag of rank zero has no rules. So nothing is fired.
  | exhausted depth ref =>
      have hnil := Graph.rulesFor_eq_nil setup.rules (Nat.le_zero.1 hrank)
      intro p e h
      rw [run_expand_of_nil setup.unlimited _ _ _ _ hnil] at h
      cases h
  | reference room depth ref ih =>
      refine setup.unlimited.failsOnly_selectRule_bind depth ref (fun _ => trivial)
        (fun _ => trivial) (fun limit h => absurd h.symm (Option.some_ne_none limit))
        (Expansion.failsOnly_pure _) fun _ rule hrule => ?_
      refine failsOnly_fire trivial rule ref fun item hmem => ?_
      -- The rank falls with each level, and so does the fuel.
      have hlt := Graph.rank_lt setup.rules (hacyclic _ hitem) hrule hmem
      have hless : item.rank (Graph.ofRules setup.rules) < room + 1 :=
        Nat.lt_of_lt_of_le hlt hrank
      exact ih item (hclosed.within hitem hrule item hmem) (by omega)

end Setup

namespace Engine

/-- When no reachable tag is on a cycle, a run without a depth limit ends, and not
    with a bound on the nesting. With a limit of at least the number of reachable
    tags with rules, the run gives the same outcome, scene, source and metrics. -/
theorem ends_of_not_recursive [DrawSource σ] (engine : Engine σ) (rules : RuleSet) (scene : Scene)
    (root : Reference)
    (hacyclic : ∀ tag ∈ (Graph.ofRules rules).reachable root.tag,
      tag ∉ (Graph.ofRules rules).recursive) :
    ∃ outcome final source metrics,
      Ends Chooser.weighted { engine with maxDepth := none } rules scene root
        (outcome, final, ⟨none, source, metrics⟩) ∧
      (∀ limit tag, outcome ≠ .error (.tooDeep limit tag)) ∧
      ∀ limit, (((Graph.ofRules rules).reachable root.tag).filter
          (Graph.ofRules rules).defined.contains).length ≤ limit →
        Engine.run { engine with maxDepth := some limit } rules scene root =
          (outcome, final, ⟨some limit, source, metrics⟩) := by
  let g := Graph.ofRules rules
  have hclosed := rules.isClosed_reachable root.tag
  have hall : ∀ tag, tag = root.tag ∨ tag ∈ g.reachable root.tag → tag ∉ g.recursive := by
    rintro tag (rfl | htag)
    · -- A root on a cycle is a node, and thus reachable from itself.
      intro hcycle
      have hnode := (List.mem_filter.1 hcycle).1
      exact hacyclic _ (g.mem_reachable_self hnode) hcycle
    · exact hacyclic tag htag
  have hroot : Item.Within (fun tag => tag = root.tag ∨ tag ∈ g.reachable root.tag)
      (.reference root) := Or.inl rfl
  let setup : Setup σ := ⟨rules, none, Chooser.weighted⟩
  let result := (setup.expand (g.rank root.tag) 0 (.reference root)).run
    ⟨scene, engine.source, engine.metrics⟩
  -- This is the expansion with the least fuel that is surely enough.
  have hfails : ∀ e, result.1 = .error e → Setup.IsUnbounded e :=
    setup.failsOnly_unlimited hclosed hall (g.rank root.tag) 0 _ hroot (Nat.le_refl _) _
  refine ⟨result.1, result.2.scene, result.2.source, result.2.metrics.countRun result.1,
    ⟨fun h => hfails _ h, g.rank root.tag, runWith_eq _ _ _ _ _ _⟩, fun _ _ h => hfails _ h, ?_⟩
  intro limit hlimit
  -- Any limit that holds the root's rank leaves room for the same expansion.
  have hle := Nat.le_trans (g.rank_le_length_reachable root.tag) hlimit
  let limited : Setup σ := ⟨rules, some limit, Chooser.weighted⟩
  have hroom : limited.HasRoom 0 (g.rank root.tag) := by
    intro bound hbound
    rw [← Option.some.inj hbound]
    omega
  have hsame : limited.expand limit 0 (.reference root) =
      setup.expand (g.rank root.tag) 0 (.reference root) :=
    limited.expand_eq_unlimited hclosed hall (g.rank root.tag) limit 0 _ hroot (Nat.le_refl _)
      hle hroom
  have hrun := runWith_eq Chooser.weighted { engine with maxDepth := some limit } rules scene root
    limit
  rw [show Setup.expand _ limit 0 (.reference root) = _ from hsame] at hrun
  exact hrun

/-- A rule that refers twice to a tag with a rule of its own, and once to a tag
    without rules. -/
def twoLevels : RuleSet :=
  RuleSet.ofList ([
    { tag := ⟨"a", none⟩,
      content := [.reference { tag := ⟨"b", none⟩ }, .reference { tag := ⟨"b", none⟩ },
        .reference { tag := ⟨"c", none⟩ }] },
    { tag := ⟨"b", none⟩, content := [.text "x"] }].filterMap
      fun parts => (Rule.create parts).toOption)

/-- Two is the least limit that promises the outcome of no limit. -/
theorem ends_twoLevels :
    (∀ tag ∈ (Graph.ofRules twoLevels).reachable ⟨"a", none⟩,
      tag ∉ (Graph.ofRules twoLevels).recursive) ∧
      ∃ outcome final source metrics,
        Ends Chooser.weighted ⟨none, Script.ofList [], {}⟩ twoLevels ⟨Namespace.empty, []⟩
          { tag := ⟨"a", none⟩ } (outcome, final, ⟨none, source, metrics⟩) ∧
        Engine.run ⟨some 2, Script.ofList [], {}⟩ twoLevels ⟨Namespace.empty, []⟩
          { tag := ⟨"a", none⟩ } = (outcome, final, ⟨some 2, source, metrics⟩) := by
  have hacyclic : ∀ tag ∈ (Graph.ofRules twoLevels).reachable ⟨"a", none⟩,
      tag ∉ (Graph.ofRules twoLevels).recursive := by decide +kernel
  rcases ends_of_not_recursive ⟨none, Script.ofList [], {}⟩ twoLevels ⟨Namespace.empty, []⟩
    { tag := ⟨"a", none⟩ } hacyclic with ⟨outcome, final, source, metrics, hends, _, hlimit⟩
  refine ⟨hacyclic, outcome, final, source, metrics, hends, hlimit 2 ?_⟩
  decide +kernel

end Engine

end TextGrammar
