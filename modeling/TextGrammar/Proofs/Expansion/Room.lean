import TextGrammar.Proofs.Expansion.DepthLimit
import TextGrammar.Proofs.Expansion.Selection

/-!
# Room for Nested Calls

What a run comes to where there is room for some levels only.

The room is the fuel, so a run that gets by with it does what it does with more. One that
does not ends where the room does. As this is above its own limit, such a run is one that
would have exceeded the number of levels as a limit: up to that depth the two are the same
computation. So the lack of room shows where a lower limit would show, and nowhere else.

That it shows at all is no matter of how much room there is. Where the only rule for a tag
begins with the tag itself, a run goes on until it meets the limit, whatever is drawn. If
there is less room than the limit allows for, it meets the end of the room first.

## Main definitions

* `Setup.Repeats`: A reference selects a rule that begins with the same reference.

## Theorems

* `Engine.runWithin_of_le`: Room for as many levels as the limit is enough.
* `Engine.runWithin_cases`: A run is as it is with any room, or it lacks room where a lower
  limit would have been exceeded.
* `Setup.run_expand_of_repeats`: A reference that repeats itself uses up all room.
* `Setup.repeats_of_rulesFor`: The only rule for a tag repeats it if it begins with it.
* `Engine.runWithin_of_rulesFor`: So does every run from it, below its limit.
-/

namespace TextGrammar

open DrawSource

variable {σ : Type}

/-- The only rule for a tag is the only candidate, if it has no guard and no labels are asked
    for. -/
theorem Candidates.find_of_rulesFor_eq_singleton {rules : RuleSet} {ref : Reference}
    {rule : RegisteredRule} (hrules : rules.rulesFor ref.tag = [rule]) (hguard : rule.guard = none)
    (hlabels : ref.hashtags = []) (data : Namespace) :
    find rules ref data = .ok (ofList [rule]) := by
  have haccepts : ref.accepts rule.toRule = true := by
    rw [Reference.accepts, hlabels]
    rfl
  have hfires : rule.canFire data = .ok true := by
    rw [Rule.canFire, hguard]
  simp [find, hrules, search, isBelow, haccepts, hfires]

namespace Setup

/-- From states of some kind and above the limit, a reference selects a rule that begins
    with the same reference, and comes to a state of that kind inside of it. -/
def Repeats (setup : Setup σ) (ref : Reference) (kind : Progress σ → Prop) : Prop :=
  ∀ depth p, kind p → setup.isTooDeep depth = none →
    ∃ rule rest q, (setup.selectRule depth ref).run p = (.ok (some rule), q) ∧
      rule.content = .reference ref :: rest ∧ kind { q with scene := q.scene.enter rule ref }

/-- A reference that repeats itself uses up all room that there is above the limit. -/
theorem run_expand_of_repeats {setup : Setup σ} {ref : Reference} {kind : Progress σ → Prop}
    (hrepeats : setup.Repeats ref kind) {fuel depth : Nat} {p : Progress σ} (hp : kind p)
    (hbound : ∀ bound ∈ setup.maxDepth, depth + fuel < bound) :
    ((setup.expand fuel depth (.reference ref)).run p).1 = .error .outOfFuel := by
  induction fuel generalizing depth p with
  | zero =>
      have hroom : setup.isTooDeep depth = none :=
        setup.isTooDeep_of_lt hbound (Nat.lt_succ_self depth)
      rcases hrepeats depth p hp hroom with ⟨rule, _, q, hselect, _, _⟩
      rw [run_expand_zero_reference, hselect]
  | succ fuel ih =>
      have hroom : setup.isTooDeep depth = none :=
        setup.isTooDeep_of_lt hbound (show depth < depth + (fuel + 1) + 1 by omega)
      rcases hrepeats depth p hp hroom with ⟨rule, rest, q, hselect, hcontent, hnext⟩
      have hdeeper : ∀ bound ∈ setup.maxDepth, depth + 1 + fuel < bound := by
        simpa only [Nat.add_assoc, Nat.add_comm 1 fuel] using hbound
      -- The template fails at its first piece, which is the reference with less room.
      have hinner := ih hnext hdeeper
      rw [expand_reference, run_expandReference, hselect]
      dsimp only
      rw [run_fire, hcontent, run_expandAll_cons]
      rcases hrun : (setup.expand fuel (depth + 1) (.reference ref)).run
        { q with scene := q.scene.enter rule ref } with ⟨outcome, after⟩
      rw [hrun] at hinner
      cases hinner
      rfl

/-- If the only rule for a tag has no guard and begins with a reference to the tag, then that
    reference repeats itself, whatever is drawn. -/
theorem repeats_of_rulesFor [DrawSource σ] (setup : Setup σ)
    (hweighted : setup.chooser = Chooser.weighted) (hcovered : setup.rules.IsCovered)
    {ref : Reference} {rule : RegisteredRule} {rest : Content}
    (hrules : setup.rules.rulesFor ref.tag = [rule]) (hguard : rule.guard = none)
    (hlabels : ref.hashtags = []) (hcontent : rule.content = .reference ref :: rest) :
    setup.Repeats ref fun p => YieldsDraws p.source := by
  intro depth p hdraws hroom
  have hfind := Candidates.find_of_rulesFor_eq_singleton hrules hguard hlabels p.scene.data
  have hne : (Candidates.ofList [rule]).rules ≠ [] := List.cons_ne_nil rule []
  -- As the draw does not miss the rule, it is the one that is chosen.
  have hchoice : (Candidates.ofList [rule]).choose (next p.source).1 = some rule := by
    have hcover := (Candidates.isCovered_iff hfind).1 (hcovered ref _ _ hfind hne)
    cases hother : (Candidates.ofList [rule]).choose (next p.source).1 with
    | none => exact absurd hother (hcover _ hdraws.next.1)
    | some other =>
        have hmem := WeightedChoice.mem_of_pick _ _ [rule] other hother
        rw [List.mem_singleton.1 hmem]
  have hchoose : setup.chooser (Candidates.ofList [rule]) p.source =
      (some rule, (next p.source).2) := by
    rw [hweighted]
    exact congrArg (·, (next p.source).2) hchoice
  have hselect := setup.run_of_selects depth ref p (.chosen _ rule _ hfind hne hroom hchoose)
  exact ⟨rule, rest, _, hselect, hcontent, hdraws.next.2⟩

end Setup

namespace Engine

variable [DrawSource σ] {engine : Engine σ} {rules : RuleSet} {limit levels : Nat}

/-- With room for as many levels as the limit, a run is as it is with any room. -/
theorem runWithin_of_le (hlimit : engine.maxDepth = some limit) (hle : limit ≤ levels)
    (scene : Scene) (root : Reference) :
    engine.runWithin levels rules scene root = engine.run rules scene root := by
  have hfuel : engine.fuel 0 ≤ levels := by
    simpa only [fuel, hlimit, Nat.sub_zero] using hle
  rw [runWithin, Nat.min_eq_left hfuel]
  rfl

/-- A run is as it is with any room, or it ends for lack of it. In that case there is less
    room than the limit allows for, and with that many levels as its limit the run would have
    exceeded the limit. -/
theorem runWithin_cases (hlimit : engine.maxDepth = some limit) (levels : Nat) (scene : Scene)
    (root : Reference) :
    engine.runWithin levels rules scene root = engine.run rules scene root ∨
      (engine.runWithin levels rules scene root).1 = .error .outOfFuel ∧ levels < limit ∧
        ∃ bound tag, (Engine.run { engine with maxDepth := some levels } rules scene root).1 =
          .error (.tooDeep bound tag) := by
  by_cases houtcome : (engine.runWithin levels rules scene root).1 = .error .outOfFuel
  · right
    have hless : levels < limit := by
      refine Nat.lt_of_not_le fun hle => ?_
      rw [runWithin_of_le hlimit hle] at houtcome
      exact (ends_run engine rules scene root hlimit).1 houtcome
    refine ⟨houtcome, hless, ?_⟩
    let setup : Setup σ := ⟨rules, some limit, Chooser.weighted⟩
    let start : Progress σ := ⟨scene, engine.source, engine.metrics⟩
    let lower : Engine σ := { engine with maxDepth := some levels }
    have hlower := runWith_eq Chooser.weighted lower rules scene root levels
    have hbound : ∀ bound ∈ setup.maxDepth, levels ≤ bound := by
      rintro bound ⟨⟩
      exact hless.le
    -- If the lower limit did not cut the run off, it would be the run with the greater one.
    by_contra hkept
    have hwhole : ∀ e, (((setup.limitedTo levels).expand levels 0 (.reference root)).run start).1 =
        .error e → ¬ e.IsCutOff := by
      intro e he hcut
      have hrun : (lower.run rules scene root).1 = .error e :=
        (congrArg Prod.fst hlower).trans he
      cases e with
      | tooDeep bound tag => exact hkept ⟨bound, tag, hrun⟩
      | outOfFuel => exact (ends_run lower rules scene root rfl).1 hrun
      | _ => exact hcut
    have hsame := setup.extends_limitedTo hbound (Nat.le_refl levels) _ start hwhole
    have hfuel : min (engine.fuel 0) levels = levels :=
      Nat.min_eq_right (by simpa only [fuel, hlimit, Nat.sub_zero] using hless.le)
    rw [runWithin, hfuel, runWith_eq, hlimit] at houtcome
    exact hwhole .outOfFuel ((congrArg Prod.fst hsame).symm.trans houtcome) trivial
  · exact Or.inl (runWith_of_le Chooser.weighted engine rules scene root
      (Nat.min_le_left _ _) houtcome).symm

/-- Where the only rule for a tag has no guard and begins with a reference to the tag, every
    run from that reference ends for lack of room, if there is less of it than the limit
    allows for. -/
theorem runWithin_of_rulesFor (hcovered : rules.IsCovered) {root : Reference}
    {rule : RegisteredRule} {rest : Content} (hrules : rules.rulesFor root.tag = [rule])
    (hguard : rule.guard = none) (hlabels : root.hashtags = [])
    (hcontent : rule.content = .reference root :: rest) (hdraws : YieldsDraws engine.source)
    (hlimit : engine.maxDepth = some limit) (hless : levels < limit) (scene : Scene) :
    (engine.runWithin levels rules scene root).1 = .error .outOfFuel := by
  let setup : Setup σ := ⟨rules, engine.maxDepth, Chooser.weighted⟩
  have hrepeats := setup.repeats_of_rulesFor rfl hcovered hrules hguard hlabels hcontent
  rw [runWithin, runWith_eq]
  refine Setup.run_expand_of_repeats hrepeats hdraws fun bound hmem => ?_
  cases hlimit.symm.trans hmem
  have hfuel := Nat.min_le_right (engine.fuel 0) levels
  omega

end Engine

end TextGrammar
