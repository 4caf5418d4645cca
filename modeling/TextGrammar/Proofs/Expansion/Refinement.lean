import TextGrammar.Proofs.ExactChoice
import TextGrammar.Proofs.Expansion.Semantics

/-!
# Refinement

That runs are what the semantics without draws allows, and that with exact
arithmetic they are all of it.

For the second part a derivation is given, and the draws are found along it. Each
use of a rule puts one draw in front of those that its template takes, a draw
that chooses the rule among the candidates. The pieces of a template take their
draws one after the other, so theirs are put behind each other. What the list
holds beyond these draws, and the metrics, have no influence, and neither has
fuel beyond some amount.

## Main definitions

* `Setup.expandSubject`: The text of a piece or of several.
* `Setup.Produces`: An expansion that uses up given draws comes to an outcome.

## Theorems

* `Setup.exists_draw_selects`: Some draw selects a candidate with a frequency.
* `Setup.exists_draws`: Some draws produce a possible outcome.
* `Engine.run_refines`: Runs and the semantics without draws.
-/

namespace TextGrammar

namespace Setup

/-- The text of a piece or of several that are joined. -/
def expandSubject {σ : Type} (setup : Setup σ) (fuel depth : Nat) : Subject → Expansion σ String
  | .piece item => setup.expand fuel depth item
  | .pieces content => expandAll (setup.expand fuel depth) content

variable (setup : Setup (List ℚ))

/-- With enough fuel, the expansion of a subject uses up given draws and comes to an
    outcome and a scene, whatever the metrics are and whatever draws follow. -/
def Produces (draws : List ℚ) (depth : Nat) (subject : Subject) (scene : Scene)
    (outcome : Except ExpansionError String) (final : Scene) : Prop :=
  ∃ enough, ∀ fuel, enough ≤ fuel → ∀ rest metrics, ∃ after,
    (setup.expandSubject fuel depth subject).run ⟨scene, draws ++ rest, metrics⟩ =
      (outcome, ⟨final, rest, after⟩)

/-- An expansion that leaves the source as it is needs no draws. -/
theorem produces_nil {depth : Nat} {subject : Subject} {scene final : Scene}
    {outcome : Except ExpansionError String}
    (h : ∀ fuel source metrics, ∃ after,
      (setup.expandSubject fuel depth subject).run ⟨scene, source, metrics⟩ =
        (outcome, ⟨final, source, after⟩)) :
    setup.Produces [] depth subject scene outcome final :=
  ⟨0, fun fuel _ rest metrics => h fuel rest metrics⟩

theorem produces_lookup (depth : Nat) (key : String) (chain : Chain) (scene : Scene) :
    setup.Produces [] depth (.piece (.lookup key chain)) scene (scene.lookup key chain).1
      (scene.lookup key chain).2 := by
  refine setup.produces_nil fun fuel source metrics => ⟨metrics, ?_⟩
  rw [expandSubject, expand]
  exact run_expandLookup key chain _

/-- Some draw selects a candidate with a frequency, and is used up by that. -/
theorem exists_draw_selects (hexact : setup.chooser = Chooser.exact) {depth : Nat}
    {ref : Reference} {scene : Scene} {found : Candidates} {rule : RegisteredRule}
    (hfind : Candidates.find setup.rules ref scene.data = .ok found) (hrule : rule ∈ found.rules)
    (hpos : 0 < rule.frequency.toRat) (hroom : setup.isTooDeep depth = none) :
    ∃ draw : ℚ, (0 ≤ draw ∧ draw < 1) ∧ ∀ rest metrics, ∃ after,
      (setup.selectRule depth ref).run ⟨scene, draw :: rest, metrics⟩ =
        (.ok (some rule), ⟨scene, rest, after⟩) := by
  rcases WeightedChoice.exists_draw (fun r : RegisteredRule => r.frequency.toRat) found.rules
    (fun r _ => Binary64.toRat_nonneg r.frequency_nonneg) rule hrule hpos with
    ⟨draw, hlow, hhigh, hdraw⟩
  refine ⟨draw, ⟨hlow, hhigh⟩, fun rest metrics => ?_⟩
  -- The chooser takes the draw off the list and leaves the others for the template.
  have hchoose : setup.chooser found (draw :: rest) = (some rule, rest) := by
    rw [hexact]
    exact Prod.ext hdraw rfl
  exact ⟨_, run_of_selects _ _ _ _
    (.chosen found rule rest hfind (List.ne_nil_of_mem hrule) hroom hchoose)⟩

/-- The use of a rule takes a draw in front of those for its template. -/
theorem produces_fired (hexact : setup.chooser = Chooser.exact) {depth : Nat}
    {ref : Reference} {scene inner : Scene} {found : Candidates} {rule : RegisteredRule}
    {outcome : Except ExpansionError String} {draws : List ℚ}
    (hfind : Candidates.find setup.rules ref scene.data = .ok found) (hrule : rule ∈ found.rules)
    (hpos : 0 < rule.frequency.toRat) (hroom : setup.isTooDeep depth = none)
    (hcontent : setup.Produces draws (depth + 1) (.pieces rule.content) (scene.enter rule ref)
      outcome inner) :
    ∃ draw : ℚ, (0 ≤ draw ∧ draw < 1) ∧
      setup.Produces (draw :: draws) depth (.piece (.reference ref)) scene
        (inner.leave rule ref outcome).1 (inner.leave rule ref outcome).2 := by
  rcases setup.exists_draw_selects hexact hfind hrule hpos hroom with ⟨draw, hdraw, hselect⟩
  rcases hcontent with ⟨enough, hcontent⟩
  refine ⟨draw, hdraw, enough + 1, fun fuel hfuel rest metrics => ?_⟩
  cases fuel with
  | zero => omega
  | succ fuel =>
      -- The template starts with the metrics that the selection has changed.
      rcases hselect (draws ++ rest) metrics with ⟨selected, hselect⟩
      rcases hcontent fuel (by omega) rest selected with ⟨after, hcontent⟩
      have hall : (expandAll (setup.expand fuel (depth + 1)) rule.content).run
          ⟨scene.enter rule ref, draws ++ rest, selected⟩ = (outcome, ⟨inner, rest, after⟩) :=
        hcontent
      refine ⟨after, (run_expand_of_some fuel hselect).trans ?_⟩
      rw [run_fire]
      dsimp only
      rw [hall]

/-- The draws of a piece stand in front of those of the pieces behind it. -/
theorem produces_cons {depth : Nat} {item : Item} {rest : Content} {scene middle final : Scene}
    {text : String} {outcome : Except ExpansionError String} {front back : List ℚ}
    (hitem : setup.Produces front depth (.piece item) scene (.ok text) middle)
    (hrest : setup.Produces back depth (.pieces rest) middle outcome final) :
    setup.Produces (front ++ back) depth (.pieces (item :: rest)) scene (outcome.map (text ++ ·))
      final := by
  rcases hitem with ⟨m, hitem⟩
  rcases hrest with ⟨n, hrest⟩
  -- What the piece leaves over begins with the draws of the others.
  refine ⟨max m n, fun fuel hfuel more metrics => ?_⟩
  rcases hitem fuel (by omega) (back ++ more) metrics with ⟨between, hitem⟩
  rcases hrest fuel (by omega) more between with ⟨after, hrest⟩
  have hone : (setup.expand fuel depth item).run ⟨scene, front ++ (back ++ more), metrics⟩ =
      (.ok text, ⟨middle, back ++ more, between⟩) := hitem
  have hothers : (expandAll (setup.expand fuel depth) rest).run ⟨middle, back ++ more, between⟩ =
      (outcome, ⟨final, more, after⟩) := hrest
  refine ⟨after, ?_⟩
  rw [List.append_assoc]
  change (expandAll (setup.expand fuel depth) (item :: rest)).run _ = _
  rw [run_expandAll_cons, hone]
  dsimp only
  rw [hothers]
  cases outcome with
  | error e => rfl
  | ok more => rfl

theorem produces_stop {depth : Nat} {item : Item} {rest : Content} {scene final : Scene}
    {e : ExpansionError} {draws : List ℚ}
    (hitem : setup.Produces draws depth (.piece item) scene (.error e) final) :
    setup.Produces draws depth (.pieces (item :: rest)) scene (.error e) final := by
  rcases hitem with ⟨enough, hitem⟩
  refine ⟨enough, fun fuel hfuel more metrics => ?_⟩
  rcases hitem fuel hfuel more metrics with ⟨after, hitem⟩
  have hone : (setup.expand fuel depth item).run ⟨scene, draws ++ more, metrics⟩ =
      (.error e, ⟨final, more, after⟩) := hitem
  refine ⟨after, ?_⟩
  change (expandAll (setup.expand fuel depth) (item :: rest)).run _ = _
  rw [run_expandAll_cons, hone]

/-- With finite frequencies, some draws produce an outcome that is possible with
    rules of positive frequency. -/
theorem exists_draws (hexact : setup.chooser = Chooser.exact)
    (hfinite : ∀ rule ∈ setup.rules.toList, rule.frequency.IsFinite) {depth : Nat}
    {subject : Subject} {scene final : Scene} {outcome : Except ExpansionError String}
    (h : Possible setup.rules setup.maxDepth (fun rule => 0 < rule.frequency) depth subject scene
      outcome final) :
    ∃ draws : List ℚ, (∀ draw ∈ draws, 0 ≤ draw ∧ draw < 1) ∧
      setup.Produces draws depth subject scene outcome final := by
  have hnone : ∀ draw ∈ ([] : List ℚ), 0 ≤ draw ∧ draw < 1 :=
    fun draw hdraw => absurd hdraw List.not_mem_nil
  induction h with
  | text depth s scene =>
      refine ⟨[], hnone, setup.produces_nil fun fuel source metrics => ⟨metrics, ?_⟩⟩
      rw [expandSubject, expand]
      rfl
  | lookup depth key chain scene => exact ⟨[], hnone, setup.produces_lookup depth key chain scene⟩
  | foreign depth given scene =>
      refine ⟨[], hnone, setup.produces_nil fun fuel source metrics => ⟨metrics, ?_⟩⟩
      rw [expandSubject, expand]
      rfl
  | malformed depth ref scene e hfind =>
      refine ⟨[], hnone, setup.produces_nil fun fuel source metrics => ?_⟩
      have hselect := setup.run_of_selects depth ref ⟨scene, source, metrics⟩ (.malformed e hfind)
      exact ⟨_, run_expand_of_error fuel hselect⟩
  | unmatched depth ref scene found hfind hnil =>
      refine ⟨[], hnone, setup.produces_nil fun fuel source metrics => ?_⟩
      have hselect := setup.run_of_selects depth ref ⟨scene, source, metrics⟩
        (.unmatched found hfind hnil)
      exact ⟨_, run_expand_of_none fuel hselect⟩
  | refused depth limit ref scene found hfind hne hlimit hdeep =>
      -- The limit refuses before a draw is taken.
      have hrefused : setup.isTooDeep depth = some limit := by
        simp only [isTooDeep, hlimit, if_pos hdeep]
      refine ⟨[], hnone, setup.produces_nil fun fuel source metrics => ?_⟩
      have hselect := setup.run_of_selects depth ref ⟨scene, source, metrics⟩
        (.refused found limit hfind hne hrefused)
      exact ⟨_, run_expand_of_error fuel hselect⟩
  | fired depth ref scene found rule outcome inner hfind hrule hmay hroom hcontent ih =>
      rcases ih with ⟨draws, hdraws, hproduces⟩
      -- A candidate is a rule of the set, so its frequency is finite and has a value.
      have hmem := ((setup.rules.mem_rulesFor ref.tag rule).1
        (Candidates.mem_of_find _ _ _ found hfind rule hrule)).1
      have hpos := Binary64.toRat_pos (hfinite rule hmem) hmay
      rcases setup.produces_fired hexact hfind hrule hpos
        ((setup.isTooDeep_eq_none_iff depth).2 hroom) hproduces with ⟨draw, hdraw, hfired⟩
      refine ⟨draw :: draws, fun other hother => ?_, hfired⟩
      rcases List.mem_cons.1 hother with rfl | hother
      · exact hdraw
      · exact hdraws other hother
  | nil depth scene => exact ⟨[], hnone, setup.produces_nil fun _ _ metrics => ⟨metrics, rfl⟩⟩
  | cons depth item rest scene middle final text outcome hitem hrest ihitem ihrest =>
      rcases ihitem with ⟨front, hfront, hitem⟩
      rcases ihrest with ⟨back, hback, hrest⟩
      refine ⟨front ++ back, fun draw hdraw => ?_, setup.produces_cons hitem hrest⟩
      rcases List.mem_append.1 hdraw with hdraw | hdraw
      · exact hfront draw hdraw
      · exact hback draw hdraw
  | stop depth item rest scene final e hitem ih =>
      rcases ih with ⟨draws, hdraws, hproduces⟩
      exact ⟨draws, hdraws, setup.produces_stop hproduces⟩

end Setup

namespace Engine

/-- The runs of a rule set are what the semantics without draws allows, unless a
    choice misses all candidates. If all frequencies are finite, and taken exactly,
    each outcome of rules with positive frequencies is that of a run with some
    draws, which are all used up. -/
theorem run_refines (rules : RuleSet) (scene : Scene) (root : Reference) :
    (∀ (σ : Type) [DrawSource σ] (engine : Engine σ)
        (result : Except ExpansionError String × Scene × Engine σ),
      Ends Chooser.weighted engine rules scene root result →
      (∀ total, result.1 ≠ .error (.nothingChosen total)) →
      Possible rules engine.maxDepth (fun _ => True) 0 (.piece (.reference root)) scene
        result.1 result.2.1) ∧
    ((∀ rule ∈ rules.toList, rule.frequency.IsFinite) →
      ∀ (maxDepth : Option Nat) (outcome : Except ExpansionError String) (final : Scene),
      Possible rules maxDepth (fun rule => 0 < rule.frequency) 0 (.piece (.reference root)) scene
        outcome final →
      ∃ draws : List ℚ, (∀ draw ∈ draws, 0 ≤ draw ∧ draw < 1) ∧ ∀ metrics, ∃ after,
        Ends Chooser.exact ⟨maxDepth, draws, metrics⟩ rules scene root
          (outcome, final, ⟨maxDepth, [], after⟩)) := by
  refine ⟨fun σ _ engine result hends hchosen => possible_of_ends hends hchosen, ?_⟩
  -- The other part: the draws found along the derivation, with nothing behind them.
  intro hfinite maxDepth outcome final hpossible
  let setup : Setup (List ℚ) := ⟨rules, maxDepth, Chooser.exact⟩
  rcases setup.exists_draws rfl hfinite hpossible with ⟨draws, hdraws, enough, hrun⟩
  refine ⟨draws, hdraws, fun metrics => ?_⟩
  rcases hrun enough (Nat.le_refl _) [] metrics with ⟨after, hrun⟩
  rw [List.append_nil] at hrun
  refine ⟨after.countRun outcome, (isFollowed_of_possible hpossible).1, enough, ?_⟩
  rw [runWith_eq]
  exact congrArg (finish maxDepth) hrun

/-- Two rules of one tag with equal frequencies. -/
def twoChoices : RuleSet :=
  RuleSet.ofList ([
    { tag := ⟨"a", none⟩, content := [.text "x"] },
    { tag := ⟨"a", none⟩, content := [.text "y"] } ].filterMap
      fun parts => (Rule.create parts).toOption)

theorem find_twoChoices :
    ∃ found, Candidates.find twoChoices { tag := ⟨"a", none⟩ } Namespace.empty = .ok found ∧
      ∃ rule ∈ found.rules, rule.content = [.text "y"] ∧ rule.watchers = [] ∧
        0 < rule.frequency := by
  let parts (rule : RegisteredRule) := (rule.content, rule.watchers, decide (0 < rule.frequency))
  have hparts : (Candidates.find twoChoices { tag := ⟨"a", none⟩ } Namespace.empty).toOption.map
      (fun found => found.rules.map parts) =
      some [([.text "x"], [], true), ([.text "y"], [], true)] := by decide +kernel
  cases hfind : Candidates.find twoChoices { tag := ⟨"a", none⟩ } Namespace.empty with
  | error e =>
      rw [hfind] at hparts
      exact absurd hparts nofun
  | ok found =>
      rw [hfind] at hparts
      have hmap : found.rules.map parts = [([.text "x"], [], true), ([.text "y"], [], true)] :=
        Option.some.inj hparts
      have hmem : ([.text "y"], [], true) ∈ found.rules.map parts :=
        hmap ▸ List.mem_cons_of_mem _ (List.mem_singleton.2 rfl)
      rcases List.mem_map.1 hmem with ⟨rule, hrule, heq⟩
      simp only [parts, Prod.mk.injEq, decide_eq_true_eq] at heq
      exact ⟨found, rfl, rule, hrule, heq⟩

/-- A run with a script gives the text of the first rule, which is therefore possible.
    The text of the second rule is possible, and therefore that of some run. -/
theorem run_refines_twoChoices :
    (∀ rule ∈ twoChoices.toList, rule.frequency.IsFinite) ∧
    (∃ final, Possible twoChoices (some 1) (fun _ => True) 0
      (.piece (.reference { tag := ⟨"a", none⟩ })) ⟨Namespace.empty, []⟩ (.ok "x") final) ∧
    ∃ draws : List ℚ, (∀ draw ∈ draws, 0 ≤ draw ∧ draw < 1) ∧ ∃ final after,
      Ends Chooser.exact ⟨some 1, draws, {}⟩ twoChoices ⟨Namespace.empty, []⟩
        { tag := ⟨"a", none⟩ } (.ok "y", final, ⟨some 1, [], after⟩) := by
  have hrefines := run_refines twoChoices ⟨Namespace.empty, []⟩ { tag := ⟨"a", none⟩ }
  have hfinite : ∀ rule ∈ twoChoices.toList, rule.frequency.IsFinite := by decide +kernel
  refine ⟨hfinite, ?_, ?_⟩
  · let engine : Engine Script := ⟨some 1, Script.ofList [], {}⟩
    have hends := ends_run engine twoChoices ⟨Namespace.empty, []⟩ { tag := ⟨"a", none⟩ } rfl
    have htext : (engine.run twoChoices ⟨Namespace.empty, []⟩ { tag := ⟨"a", none⟩ }).1.toOption =
        some "x" := by decide +kernel
    rcases hrun : engine.run twoChoices ⟨Namespace.empty, []⟩ { tag := ⟨"a", none⟩ } with
      ⟨outcome, final, left⟩
    rw [hrun] at hends htext
    cases outcome with
    | error e => exact absurd htext nofun
    | ok text =>
        have heq : text = "x" := Option.some.inj htext
        exact ⟨final, heq ▸ hrefines.1 Script engine _ hends fun _ => nofun⟩
  · rcases find_twoChoices with ⟨found, hfind, rule, hrule, hcontent, hwatchers, hpos⟩
    let opened := Scene.enter rule { tag := ⟨"a", none⟩ } ⟨Namespace.empty, []⟩
    have hpieces : Possible twoChoices (some 1) (fun rule => 0 < rule.frequency) 1
        (.pieces rule.content) opened (.ok ("y" ++ "")) opened := by
      rw [hcontent]
      exact .cons 1 (.text "y") [] opened opened opened "y" (.ok "") (.text ..) (.nil ..)
    rw [String.append_empty] at hpieces
    -- Without watchers the calls after the template leave the text as it is.
    have hleave : (opened.leave rule { tag := ⟨"a", none⟩ } (.ok "y")).1 = .ok "y" := by
      unfold Scene.leave
      rw [hwatchers]
      rfl
    have hpossible := Possible.fired 0 { tag := ⟨"a", none⟩ } ⟨Namespace.empty, []⟩ found rule
      (.ok "y") opened hfind hrule hpos (fun limit h => by rw [← Option.some.inj h]; omega) hpieces
    rw [hleave] at hpossible
    rcases hrefines.2 hfinite (some 1) (.ok "y") _ hpossible with ⟨draws, hdraws, hends⟩
    exact ⟨draws, hdraws, _, hends {}⟩

end Engine

end TextGrammar
