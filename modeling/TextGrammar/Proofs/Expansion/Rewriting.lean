import TextGrammar.Proofs.Expansion.Likeness

/-!
# Rewriting Unused Rules

Rules that a run does not use leave no trace in it but their weight.

The template and the watchers of any rules may be replaced by others. If the run on
the rules as they were has used none of these, the run on the new ones is the same,
with everything that it leaves behind. What is kept are the conditions and the
frequencies, which decide whether a rule is a candidate and which candidate a draw
stands for.

A rule is told from others by its position, its tag and its place in the group of the
tag. Two rules may be equal in every other respect, so that their values do not tell
which of them was used. To see the positions in a run, the rules of each group are
numbered by their places, which changes nothing in what the run does.

## Main definitions

* `RuleSet.mapGroups`: A rule set with changed groups.
* `RuleSet.numbered`: The same rules, numbered by their places.
* `RuleSet.rewrite`: Rules with other templates and watchers at some positions.
* `Engine.firedPositions`: The positions of the rules that a run uses.

## Theorems

* `RuleSet.isGroup_mapIdx`: Changes that keep a group in order.
* `Engine.runWith_numbered`: Runs are the same on numbered rules.
* `Engine.runWith_rewrite`: Runs are the same after unused rules were rewritten.
-/

namespace TextGrammar

variable {σ : Type}

/-- Two rules that differ at most in their tags, their numbers and their preset numbers. -/
structure RegisteredRule.SameUse (a b : RegisteredRule) : Prop where
  looksLike : a.LooksLike b
  content_eq : b.content = a.content
  watchers_eq : b.watchers = a.watchers

/-- The rule with another number. -/
def RegisteredRule.withOrder (order : Nat) (rule : RegisteredRule) : RegisteredRule :=
  { rule with order := order }

/-- The rule with another template and other watchers. -/
def Rule.withBody (body : Content × Chain) (rule : Rule) : Rule :=
  { rule with content := body.1, watchers := body.2 }

/-- The rule with another template and other watchers, if some are given. -/
def RegisteredRule.withBody (body : Option (Content × Chain)) (rule : RegisteredRule) :
    RegisteredRule :=
  body.elim rule fun body => ⟨rule.toRule.withBody body, rule.order⟩

theorem RegisteredRule.tag_withBody (body : Option (Content × Chain)) (rule : RegisteredRule) :
    (rule.withBody body).tag = rule.tag := by
  cases body with
  | none => rfl
  | some body => rfl

theorem RegisteredRule.place_withBody (body : Option (Content × Chain)) (rule : RegisteredRule) :
    (rule.withBody body).place = rule.place := by
  cases body with
  | none => rfl
  | some body => rfl

theorem RegisteredRule.looksLike_withBody (body : Option (Content × Chain)) (order : Nat)
    (rule : RegisteredRule) : (rule.withOrder order).LooksLike (rule.withBody body) := by
  cases body with
  | none => exact ⟨rfl, rfl, rfl, rfl, rfl⟩
  | some body => exact ⟨rfl, rfl, rfl, rfl, rfl⟩

namespace RuleSet

theorem lookup_map_snd (f : Tag → List RegisteredRule → List RegisteredRule)
    (groups : List (Tag × List RegisteredRule)) (tag : Tag) :
    (groups.map fun entry => (entry.1, f entry.1 entry.2)).lookup tag =
      (groups.lookup tag).map (f tag) := by
  induction groups with
  | nil => rfl
  | cons entry rest ih =>
      rw [List.map_cons, List.lookup_cons, List.lookup_cons, ih]
      by_cases htag : tag = entry.1
      · rw [htag, beq_self_eq_true]
        rfl
      · rw [beq_eq_false_iff_ne.2 htag]

/-- A rule set with each of its groups changed into another group of the same tag. -/
def mapGroups (rules : RuleSet) (f : Tag → List RegisteredRule → List RegisteredRule)
    (hf : ∀ tag group, IsGroup tag group → IsGroup tag (f tag group)) : RuleSet where
  groups := rules.groups.map fun entry => (entry.1, f entry.1 entry.2)
  nextOrder := rules.nextOrder
  nodup_tags := by
    rw [List.map_map]
    exact rules.nodup_tags
  isGroup := by
    intro entry hentry
    rcases List.mem_map.1 hentry with ⟨old, hold, rfl⟩
    exact hf old.1 old.2 (rules.isGroup old hold)

theorem rulesFor_mapGroups (rules : RuleSet)
    {f : Tag → List RegisteredRule → List RegisteredRule}
    (hf : ∀ tag group, IsGroup tag group → IsGroup tag (f tag group)) {tag : Tag}
    (hnil : f tag [] = []) : (rules.mapGroups f hf).rulesFor tag = f tag (rules.rulesFor tag) := by
  unfold rulesFor
  rw [show (rules.mapGroups f hf).groups.lookup tag = _ from lookup_map_snd f rules.groups tag]
  cases rules.groups.lookup tag with
  | none => exact hnil.symm
  | some group => rfl

/-- Rules that are changed by their places stay a group, if their tags are kept and no rule
    comes to precede one in front of it. -/
theorem isGroup_mapIdx {f : Nat → RegisteredRule → RegisteredRule} {tag : Tag}
    {group : List RegisteredRule} (h : IsGroup tag group)
    (htag : ∀ i rule, (f i rule).tag = rule.tag)
    (hordered : ∀ i j a b, i < j → ¬ b.precedes a = true → ¬ (f j b).precedes (f i a) = true) :
    IsGroup tag (group.mapIdx f) where
  ne_nil := fun hnil => h.ne_nil (List.mapIdx_eq_nil_iff.1 hnil)
  tag_eq := by
    intro rule hrule
    rcases List.mem_mapIdx.1 hrule with ⟨i, hi, rfl⟩
    rw [htag]
    exact h.tag_eq _ (List.getElem_mem hi)
  ordered := by
    rw [List.pairwise_iff_getElem]
    intro i j hi hj hij
    rw [List.getElem_mapIdx, List.getElem_mapIdx]
    rw [List.length_mapIdx] at hi hj
    exact hordered i j _ _ hij (List.pairwise_iff_getElem.1 h.ordered i j hi hj hij)

/-- The same rules, each numbered by its place in its group. -/
def numbered (rules : RuleSet) : RuleSet :=
  rules.mapGroups (fun _ group => group.mapIdx RegisteredRule.withOrder) fun tag group h => by
    refine isGroup_mapIdx h (fun _ _ => rfl) fun i j a b hij hab => ?_
    rw [RegisteredRule.precedes_iff] at hab ⊢
    dsimp only [RegisteredRule.withOrder]
    omega

/-- The rules with other templates and watchers at some positions. -/
def rewrite (rules : RuleSet) (bodies : Tag → Nat → Option (Content × Chain)) : RuleSet :=
  rules.mapGroups (fun tag group => group.mapIdx fun i => RegisteredRule.withBody (bodies tag i))
    fun tag group h => by
      refine isGroup_mapIdx h (fun i rule => RegisteredRule.tag_withBody _ rule) ?_
      intro i j a b _ hab
      unfold RegisteredRule.precedes at hab ⊢
      rw [RegisteredRule.place_withBody, RegisteredRule.place_withBody]
      exact hab

/-- A relation between the numbered rules of a tag and the same rules after a change. -/
theorem forall₂_numbered {R : RegisteredRule → RegisteredRule → Prop} (rules : RuleSet)
    (tag : Tag) (f : Nat → RegisteredRule → RegisteredRule)
    (h : ∀ i rule, rule.tag = tag → R (rule.withOrder i) (f i rule)) :
    List.Forall₂ R (rules.numbered.rulesFor tag) ((rules.rulesFor tag).mapIdx f) := by
  rw [numbered, rulesFor_mapGroups rules _ List.mapIdx_nil, List.forall₂_iff_get]
  refine ⟨by rw [List.length_mapIdx, List.length_mapIdx], fun i hi hj => ?_⟩
  rw [List.length_mapIdx] at hi
  rw [List.get_eq_getElem, List.get_eq_getElem, List.getElem_mapIdx, List.getElem_mapIdx]
  exact h i _ ((rules.mem_rulesFor tag _).1 (List.getElem_mem hi)).2

end RuleSet

namespace Engine

variable [DrawSource σ] (fuel : Nat) (engine : Engine σ) (rules : RuleSet) (scene : Scene)
  (root : Reference)

/-- The positions of the rules that a run uses, in order: for each its tag and its place
    among the rules of the tag. -/
def firedPositions : List (Tag × Nat) :=
  (engine.firedRules Chooser.weighted fuel rules.numbered scene root).map
    fun rule => (rule.tag, rule.order)

/-- Numbers do not matter to runs. -/
theorem runWith_numbered :
    engine.runWith Chooser.weighted fuel rules.numbered scene root =
      engine.runWith Chooser.weighted fuel rules scene root := by
  have halike : RuleSet.Alike RegisteredRule.SameUse rules.numbered rules := by
    refine ⟨fun _ _ h => h.looksLike, fun tag => ?_⟩
    have hsame := rules.forall₂_numbered (R := RegisteredRule.SameUse) tag (fun _ rule => rule)
      fun i rule _ => ⟨⟨rfl, rfl, rfl, rfl, rfl⟩, rfl, rfl⟩
    have hself : (rules.rulesFor tag).mapIdx (fun _ rule => rule) = rules.rulesFor tag :=
      List.mapIdx_eq_iff.2 fun i => by rw [Option.map_id']
    rwa [hself] at hsame
  exact (runWith_alike halike fun _ _ _ h => ⟨h.content_eq, h.watchers_eq⟩).symm

/-- Rules that are not used leave no trace but their weight. Other templates and watchers
    for rules at positions that a run does not use change nothing of the run: it has the
    same outcome, leaves the same namespace and the same calls, and the same metrics and
    source in its engine. -/
theorem runWith_rewrite (bodies : Tag → Nat → Option (Content × Chain))
    (hunused : ∀ position ∈ engine.firedPositions fuel rules scene root,
      bodies position.1 position.2 = none) :
    engine.runWith Chooser.weighted fuel (rules.rewrite bodies) scene root =
      engine.runWith Chooser.weighted fuel rules scene root := by
  -- A rewritten rule looks like the numbered one, and has its body unless its position,
  -- which the numbered one shows, is one where another was given.
  let R : RegisteredRule → RegisteredRule → Prop := fun a b =>
    a.LooksLike b ∧
      (bodies a.tag a.order = none → b.content = a.content ∧ b.watchers = a.watchers)
  have halike : RuleSet.Alike R rules.numbered (rules.rewrite bodies) := by
    refine ⟨fun _ _ h => h.1, fun tag => ?_⟩
    rw [RuleSet.rewrite, RuleSet.rulesFor_mapGroups rules _ List.mapIdx_nil]
    refine rules.forall₂_numbered tag _ fun i rule htag => ⟨?_, fun hnone => ?_⟩
    · exact rule.looksLike_withBody _ i
    · subst htag
      have hkept : bodies rule.tag i = none := hnone
      rw [hkept]
      exact ⟨rfl, rfl⟩
  have hbody : ∀ rule ∈ engine.firedRules Chooser.weighted fuel rules.numbered scene root,
      KeepsBody R rule := by
    intro rule hrule other hother
    have hmem : (rule.tag, rule.order) ∈ engine.firedPositions fuel rules scene root :=
      List.mem_map_of_mem hrule
    exact hother.2 (hunused _ hmem)
  exact (runWith_alike halike hbody).trans (runWith_numbered fuel engine rules scene root)

/-- Two rules that are equal in every respect, their numbers included. -/
def twins : RuleSet :=
  RuleSet.ofList ([
    { tag := ⟨"a", none⟩, content := [.text "x"], order := some 0 },
    { tag := ⟨"a", none⟩, content := [.text "x"], order := some 0 }].filterMap
      fun parts => (Rule.create parts).toOption)

/-- The draw stands for the first of them, so the second one may even hold a piece that
    cannot be expanded. -/
theorem runWith_rewrite_twins :
    let root : Reference := { tag := ⟨"a", none⟩ }
    let scene : Scene := ⟨.empty, []⟩
    let engine : Engine Script := ⟨none, Script.ofList [0], {}⟩
    let bodies : Tag → Nat → Option (Content × Chain) := fun tag place =>
      if tag = root.tag ∧ place = 1 then some ([.foreign none], [.capture "seen"]) else none
    engine.firedPositions 5 twins scene root = [(root.tag, 0)] ∧
      (∀ position ∈ engine.firedPositions 5 twins scene root,
        bodies position.1 position.2 = none) ∧
      ((twins.rewrite bodies).rulesFor root.tag).map (fun rule => rule.content) =
        [[.text "x"], [.foreign none]] ∧
      engine.runWith Chooser.weighted 5 (twins.rewrite bodies) scene root =
        engine.runWith Chooser.weighted 5 twins scene root := by
  intro root scene engine bodies
  have hfired : engine.firedPositions 5 twins scene root = [(root.tag, 0)] := by decide +kernel
  have hunused : ∀ position ∈ engine.firedPositions 5 twins scene root,
      bodies position.1 position.2 = none := by
    rw [hfired]
    decide +kernel
  exact ⟨hfired, hunused, by decide +kernel,
    runWith_rewrite 5 engine twins scene root bodies hunused⟩

end Engine

end TextGrammar
