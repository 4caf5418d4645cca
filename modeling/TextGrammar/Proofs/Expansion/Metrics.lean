import TextGrammar.Proofs.Expansion.Account

/-!
# Metrics and Runs

That metrics are kept and never read.

An expansion adds to the metrics and does not look at them, so with other metrics at
the start it does the same: the outcome, the scene and the source are those that they
were. This is shown on courses, each of which has a course like it from any metrics.

What one run of an engine can mean for the next one is therefore left to the source.
A run that gives text has taken one draw off it for each rule that it used, and nothing
else happens to a source.

## Main definitions

* `Progress.withMetrics`, `Engine.withMetrics`: A state and an engine with other metrics.

## Theorems

* `Setup.withMetrics_of_selects`, `Setup.withMetrics_of_course`: The same selection and
  the same course from other metrics.
* `Engine.run_withMetrics`: The same run.
* `Engine.source_of_run`: The source behind a run that gives text.
-/

namespace TextGrammar

variable {σ : Type}

/-- The state with other metrics. -/
def Progress.withMetrics (p : Progress σ) (metrics : Metrics) : Progress σ :=
  { p with metrics := metrics }

namespace Setup

variable {setup : Setup σ} {fuel depth : Nat} {p q : Progress σ}

/-- A selection goes the same way from other metrics. -/
theorem withMetrics_of_selects {ref : Reference}
    {outcome : Except ExpansionError (Option RegisteredRule)}
    (h : Selects setup depth ref p outcome q) (metrics : Metrics) :
    ∃ after, Selects setup depth ref (p.withMetrics metrics) outcome (q.withMetrics after) := by
  cases h with
  | malformed e hfind => exact ⟨_, .malformed e hfind⟩
  | unmatched found hfind hnil => exact ⟨_, .unmatched found hfind hnil⟩
  | refused found limit hfind hne hdeep => exact ⟨_, .refused found limit hfind hne hdeep⟩
  | missed found source hfind hne hroom hchoose =>
      exact ⟨_, .missed found source hfind hne hroom hchoose⟩
  | chosen found rule source hfind hne hroom hchoose =>
      exact ⟨_, .chosen found rule source hfind hne hroom hchoose⟩

/-- So does a whole expansion. -/
theorem withMetrics_of_course {subject : Subject} {outcome : Except ExpansionError String}
    {events : List Event} (h : setup.Course fuel depth subject p outcome events q)
    (metrics : Metrics) :
    ∃ after, setup.Course fuel depth subject (p.withMetrics metrics) outcome events
      (q.withMetrics after) := by
  -- The metrics at the end depend on those at the start, so they are found anew for each part
  -- and passed on from left to right.
  induction h generalizing metrics with
  | text fuel depth s p => exact ⟨metrics, .text fuel depth s _⟩
  | lookup fuel depth key chain p opened text hopened htext =>
      subst hopened
      exact ⟨metrics, .lookup fuel depth key chain _ _ text rfl htext⟩
  | foreign fuel depth given p => exact ⟨metrics, .foreign fuel depth given _⟩
  | failed fuel depth ref p q e hselect =>
      rcases withMetrics_of_selects hselect metrics with ⟨after, hselect⟩
      exact ⟨after, .failed fuel depth ref _ _ e hselect⟩
  | unmatched fuel depth ref p q hselect =>
      rcases withMetrics_of_selects hselect metrics with ⟨after, hselect⟩
      exact ⟨after, .unmatched fuel depth ref _ _ hselect⟩
  | exhausted depth ref p q rule hselect =>
      rcases withMetrics_of_selects hselect metrics with ⟨after, hselect⟩
      exact ⟨after, .exhausted depth ref _ _ rule hselect⟩
  | fired fuel depth ref p q r rule outcome inner target events hselect htarget _ hinner ih =>
      rcases withMetrics_of_selects hselect metrics with ⟨counted, hselect⟩
      rcases ih counted with ⟨after, hcontent⟩
      exact ⟨after, .fired fuel depth ref _ _ _ rule outcome inner target events hselect htarget
        hcontent hinner⟩
  | nil fuel depth p => exact ⟨metrics, .nil fuel depth _⟩
  | cons fuel depth item rest p q r text outcome events more _ _ ihitem ihrest =>
      rcases ihitem metrics with ⟨between, hitem⟩
      rcases ihrest between with ⟨after, hrest⟩
      exact ⟨after, .cons fuel depth item rest _ _ _ text outcome events more hitem hrest⟩
  | stop fuel depth item rest p q e events _ ih =>
      rcases ih metrics with ⟨after, hitem⟩
      exact ⟨after, .stop fuel depth item rest _ _ e events hitem⟩

end Setup

namespace Engine

/-- The engine with other metrics. -/
def withMetrics (engine : Engine σ) (metrics : Metrics) : Engine σ :=
  { engine with metrics := metrics }

variable [DrawSource σ] (engine : Engine σ) (rules : RuleSet) (scene : Scene) (root : Reference)

/-- An engine with other metrics makes the same run. -/
theorem run_withMetrics (metrics : Metrics) :
    ∃ after, (engine.withMetrics metrics).run rules scene root =
      let result := engine.run rules scene root
      (result.1, result.2.1, result.2.2.withMetrics after) := by
  rcases course_runWith Chooser.weighted (engine.fuel 0) engine rules scene root with
    ⟨outcome, events, q, hcourse, hresult⟩
  rcases Setup.withMetrics_of_course hcourse metrics with ⟨after, hother⟩
  refine ⟨after.countRun outcome, ?_⟩
  have hrun := Setup.run_of_course hother
  have hsame := runWith_eq Chooser.weighted (engine.withMetrics metrics) rules scene root
    (engine.fuel 0)
  unfold run
  rw [hresult]
  exact hsame.trans (congrArg (finish engine.maxDepth) hrun)

/-- A run that gives text takes one draw for each rule that it uses, and leaves the
    source behind the last of them. -/
theorem source_of_run {text : String} {final : Scene} {after : Engine σ}
    (h : engine.run rules scene root = (.ok text, final, after)) :
    after.maxDepth = engine.maxDepth ∧
      ∃ draws, after.metrics.totalFired = engine.metrics.totalFired + draws ∧
        after.source = DrawSource.skip draws engine.source := by
  rcases course_runWith Chooser.weighted (engine.fuel 0) engine rules scene root with
    ⟨outcome, events, q, hcourse, hresult⟩
  rcases Setup.account_of_course hcourse with ⟨unmatched, fired, haccount⟩
  have hfinish : finish engine.maxDepth (outcome, q) = (.ok text, final, after) :=
    hresult.symm.trans h
  cases hfinish
  refine ⟨rfl, fired, ?_, ?_⟩
  · exact (Metrics.totalFired_countRun _ _).trans haccount.fired_eq
  · exact haccount.takes.eq_skip

end Engine

end TextGrammar
