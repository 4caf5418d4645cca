import Mathlib.Logic.Function.Iterate
import TextGrammar.Proofs.Expansion.Selection

/-!
# Accounts

What the metrics and the source of draws tell of the work that was done.

Every reference that is expanded ends in one of three ways. It has no candidate,
or a rule is used for it, or the selection of a rule fails: at a malformed guard, at
the depth limit or in a choice without result. The metrics count the first two, and
a failed selection ends the whole run, so there is at most one of them in a run. A
choice is made for every rule that is used and for every choice without result, and
for nothing else.

This is an account of a stretch of work, and accounts add up. Each step of an
expansion has one, so an expansion has one too, however it ends: a watcher that
fails after its rule was counted changes nothing in the account. Over a series of
runs the accounts give an invariant of the engine, which holds at the start and is
kept by each run.

## Main definitions

* `Metrics.totalFired`: The number of all rules used.
* `DrawSource.skip`, `Chooser.Takes`: A source after a number of draws, or of choices.
* `FailedSelection`: An outcome that the selection of a rule has caused.
* `Account`: What a stretch of work has added to the metrics and taken off the source.
* `Engine.runAll`: The outcomes of several runs of one engine.
* `Engine.Balanced`: The invariant of an engine.

## Theorems

* `Setup.account_of_selects`, `Setup.account_of_course`: The account of a selection and
  that of an expansion.
* `Engine.Balanced.run`, `Engine.Balanced.runAll`: Runs keep the balance.
* `Engine.runAll_accounts`: The metrics and the draws of a series of runs.
-/

namespace TextGrammar

variable {σ : Type}

/-- Writing a number puts it in the place of the one that was there. -/
theorem Entries.sum_insert (es : Entries Nat) (key : String) (n : Nat) :
    ((es.insert key n).map Prod.snd).sum + (es.find? key).getD 0 =
      (es.map Prod.snd).sum + n := by
  induction es with
  | nil => simp [insert, find?]
  | cons e rest ih =>
      obtain ⟨k, v⟩ := e
      by_cases hk : k = key
      · simp only [insert, find?, hk, if_true, List.map_cons, List.sum_cons, Option.getD_some]
        omega
      · simp only [insert, find?, hk, if_false, List.map_cons, List.sum_cons]
        omega

namespace Metrics

/-- The number of all rules used, for whatever tag. -/
def totalFired (m : Metrics) : Nat := (m.fired.map Prod.snd).sum

theorem totalFired_countFired (m : Metrics) (tag : Tag) :
    (m.countFired tag).totalFired = m.totalFired + 1 := by
  have hsum := Entries.sum_insert m.fired tag.toText ((m.fired.find? tag.toText).getD 0 + 1)
  simp only [totalFired, countFired]
  omega

theorem totalFired_countRun (m : Metrics) (outcome : Except ExpansionError String) :
    (m.countRun outcome).totalFired = m.totalFired := by
  cases outcome <;> rfl

theorem unmatched_countRun (m : Metrics) (outcome : Except ExpansionError String) :
    (m.countRun outcome).unmatched = m.unmatched := by
  cases outcome <;> rfl

end Metrics

/-- A source after a number of draws. -/
def DrawSource.skip [DrawSource σ] (n : Nat) (source : σ) : σ :=
  (fun source => (DrawSource.next source).2)^[n] source

namespace Chooser

/-- A number of choices, one after the other, lead from one source to another. -/
inductive Takes (chooser : Chooser σ) : Nat → σ → σ → Prop
  | none (source : σ) : Takes chooser 0 source source
  | choice (n : Nat) (source final : σ) (found : Candidates)
      (h : Takes chooser n (chooser found source).2 final) : Takes chooser (n + 1) source final

theorem Takes.trans {chooser : Chooser σ} {m n : Nat} {s t u : σ} (h : chooser.Takes m s t)
    (hnext : chooser.Takes n t u) : chooser.Takes (m + n) s u := by
  induction h with
  | none source =>
      rw [Nat.zero_add]
      exact hnext
  | choice m source final found _ ih =>
      rw [Nat.add_right_comm]
      exact .choice _ source u found (ih hnext)

/-- A weighted choice takes one draw, whatever the candidates are. -/
theorem Takes.eq_skip [DrawSource σ] {n : Nat} {s t : σ}
    (h : (Chooser.weighted : Chooser σ).Takes n s t) : t = DrawSource.skip n s := by
  induction h with
  | none source => rfl
  | choice n source final found _ ih =>
      rw [ih]
      exact (Function.iterate_succ_apply _ n source).symm

end Chooser

/-- An outcome that the selection of a rule has caused: a guard was malformed, the depth
    limit was reached, or the choice had no result. -/
def FailedSelection : Except ExpansionError String → Prop
  | .error (.evaluation _) | .error (.tooDeep _ _) | .error (.nothingChosen _) => True
  | _ => False

instance : (outcome : Except ExpansionError String) → Decidable (FailedSelection outcome)
  | .error (.evaluation _) | .error (.tooDeep _ _) | .error (.nothingChosen _) => .isTrue trivial
  | .ok _ | .error (.foreignItem _) | .error .undefinedNumeric | .error .outOfFuel => .isFalse id

/-- Watchers neither hide nor cause failures of a kind that texts and numbers do not have. -/
theorem Chain.finish_iff (chain : Chain) {P : Except ExpansionError String → Prop}
    (hok : ∀ text, ¬ P (.ok text)) (hnumeric : ¬ P (.error .undefinedNumeric))
    (outcome : Except ExpansionError String) : P (chain.finish outcome) ↔ P outcome := by
  cases outcome with
  | error e => exact Iff.rfl
  | ok text =>
      have hfinish : ¬ P (chain.finish (.ok text)) := by
        unfold finish
        dsimp only
        split
        · exact hok _
        · exact hnumeric
      exact iff_of_false hfinish (hok text)

/-- A stretch of work with some outcome: so many references had no candidate, so many
    rules were used, and the outcome tells whether a selection failed. -/
structure Account (chooser : Chooser σ) (unmatched fired : Nat)
    (outcome : Except ExpansionError String) (p q : Progress σ) : Prop where
  runs_eq : q.metrics.runs = p.metrics.runs
  unmatched_eq : q.metrics.unmatched = p.metrics.unmatched + unmatched
  fired_eq : q.metrics.totalFired = p.metrics.totalFired + fired
  expansions_eq : q.metrics.expansions =
    p.metrics.expansions + (unmatched + fired + [outcome].countP (FailedSelection ·))
  takes : chooser.Takes (fired + [outcome].countP (Missed ·)) p.source q.source

namespace Account

variable {chooser : Chooser σ} {unmatched fired : Nat} {outcome : Except ExpansionError String}
  {p q r : Progress σ}

theorem nothing (p : Progress σ) (text : String) : Account chooser 0 0 (.ok text) p p :=
  ⟨rfl, rfl, rfl, rfl, .none p.source⟩

/-- Only whether a selection failed matters of the outcome. -/
theorem congr {other : Except ExpansionError String}
    (h : Account chooser unmatched fired outcome p q)
    (hfailed : FailedSelection other ↔ FailedSelection outcome)
    (hmissed : Missed other ↔ Missed outcome) : Account chooser unmatched fired other p q where
  runs_eq := h.runs_eq
  unmatched_eq := h.unmatched_eq
  fired_eq := h.fired_eq
  expansions_eq := by
    have heq := h.expansions_eq
    simpa only [List.countP_singleton, hfailed] using heq
  takes := by
    have htakes := h.takes
    simpa only [List.countP_singleton, hmissed] using htakes

/-- The account of two stretches of work, the first of which did not fail. -/
theorem trans {unmatched' fired' : Nat} {text : String}
    (h : Account chooser unmatched' fired' (.ok text) p q)
    (hnext : Account chooser unmatched fired outcome q r) :
    Account chooser (unmatched' + unmatched) (fired' + fired) outcome p r where
  runs_eq := hnext.runs_eq.trans h.runs_eq
  unmatched_eq := by rw [hnext.unmatched_eq, h.unmatched_eq, Nat.add_assoc]
  fired_eq := by rw [hnext.fired_eq, h.fired_eq, Nat.add_assoc]
  expansions_eq := by
    have hfirst : q.metrics.expansions = p.metrics.expansions + (unmatched' + fired') :=
      h.expansions_eq
    rw [hnext.expansions_eq, hfirst]
    omega
  takes := by
    have hfirst : chooser.Takes fired' p.source q.source := h.takes
    rw [Nat.add_assoc]
    exact hfirst.trans hnext.takes

/-- Events count nothing. -/
theorem play (h : Account chooser unmatched fired outcome p q) (events : List Event) :
    Account chooser unmatched fired outcome p (q.play events) :=
  ⟨h.runs_eq, h.unmatched_eq, h.fired_eq, h.expansions_eq, h.takes⟩

end Account

namespace Setup

variable {setup : Setup σ} {fuel depth : Nat} {p q : Progress σ}

/-- The account of a selection. Only a selection that finds a rule, or none among
    candidates, takes a choice. -/
theorem account_of_selects {ref : Reference}
    {outcome : Except ExpansionError (Option RegisteredRule)}
    (h : Selects setup depth ref p outcome q) :
    match outcome with
    | .error e => Account setup.chooser 0 0 (.error e) p q
    | .ok none => Account setup.chooser 1 0 (.ok ref.tag.toText) p q
    | .ok (some _) => Account setup.chooser 0 1 (.ok "") p q := by
  have htakes : ∀ found choice source, setup.chooser found p.source = (choice, source) →
      setup.chooser.Takes 1 p.source source := by
    intro found choice source hchoose
    refine .choice 0 p.source source found ?_
    rw [hchoose]
    exact .none source
  cases h with
  | malformed e _ => exact ⟨rfl, rfl, rfl, rfl, .none p.source⟩
  | unmatched found _ _ => exact ⟨rfl, rfl, rfl, rfl, .none p.source⟩
  | refused found limit _ _ _ => exact ⟨rfl, rfl, rfl, rfl, .none p.source⟩
  | missed found source _ _ _ hchoose =>
      exact ⟨rfl, rfl, rfl, rfl, htakes found none source hchoose⟩
  | chosen found rule source _ _ _ hchoose =>
      exact ⟨rfl, rfl, Metrics.totalFired_countFired _ _, rfl,
        htakes found (some rule) source hchoose⟩

/-- The account of an expansion. What happens to the text after a rule was used, or
    instead of it for want of fuel, has no part in it. -/
theorem account_of_course {subject : Subject} {outcome : Except ExpansionError String}
    {events : List Event} (h : setup.Course fuel depth subject p outcome events q) :
    ∃ unmatched fired, Account setup.chooser unmatched fired outcome p q := by
  have hfinish : ∀ (chain : Chain) (outcome : Except ExpansionError String),
      (FailedSelection (chain.finish outcome) ↔ FailedSelection outcome) ∧
        (Missed (chain.finish outcome) ↔ Missed outcome) := fun chain outcome =>
    ⟨chain.finish_iff (fun _ => id) id outcome, chain.finish_iff (fun _ => id) id outcome⟩
  induction h with
  | text fuel depth s p => exact ⟨0, 0, .nothing p s⟩
  | lookup fuel depth key chain p opened text hopened htext =>
      subst hopened
      have hnothing : Account setup.chooser 0 0 (.ok text) p p := .nothing p text
      have hcalls := (hnothing.play (chain.opening (Item.lookupText key))).play
        (chain.ending (Item.lookupText key) (.ok text))
      exact ⟨0, 0, hcalls.congr (hfinish chain _).1 (hfinish chain _).2⟩
  | foreign fuel depth given p => exact ⟨0, 0, rfl, rfl, rfl, rfl, .none p.source⟩
  | failed fuel depth ref p q e hselect => exact ⟨0, 0, account_of_selects hselect⟩
  | unmatched fuel depth ref p q hselect => exact ⟨1, 0, account_of_selects hselect⟩
  | exhausted depth ref p q rule hselect =>
      have haccount : Account setup.chooser 0 1 (.ok "") p q := account_of_selects hselect
      exact ⟨0, 1, haccount.congr Iff.rfl Iff.rfl⟩
  | fired fuel depth ref p q r rule outcome inner target events hselect _ _ hinner ih =>
      -- The rule is counted first, then everything in its template.
      subst hinner
      have haccount : Account setup.chooser 0 1 (.ok "") p q := account_of_selects hselect
      rcases ih with ⟨unmatched, fired, hcontent⟩
      have hopened := (haccount.play (rule.watchers.opening target)).play
        (ref.watchers.opening target)
      have hwhole := ((hopened.trans hcontent).play (ref.watchers.ending target outcome)).play
        (rule.watchers.ending target (ref.watchers.finish outcome))
      refine ⟨_, _, hwhole.congr ?_ ?_⟩
      · exact (hfinish rule.watchers _).1.trans (hfinish ref.watchers _).1
      · exact (hfinish rule.watchers _).2.trans (hfinish ref.watchers _).2
  | nil fuel depth p => exact ⟨0, 0, .nothing p ""⟩
  | cons fuel depth item rest p q r text outcome events more _ _ ihitem ihrest =>
      rcases ihitem with ⟨unmatched, fired, hfirst⟩
      rcases ihrest with ⟨unmatched', fired', hrest⟩
      refine ⟨_, _, (hfirst.trans hrest).congr ?_ ?_⟩
      · cases outcome <;> exact Iff.rfl
      · cases outcome <;> exact Iff.rfl
  | stop fuel depth item rest p q e events _ ih => exact ih

end Setup

/-- What an engine is asked to run: the rules, the scene to start from and the root,
    and the fuel, which says how deep the run is followed. -/
structure Job where
  rules : RuleSet
  scene : Scene
  root : Reference
  fuel : Nat

namespace Engine

variable {chooser : Chooser σ}

/-- The outcomes of runs that one engine makes one after the other, and the engine after
    them. A run that fails does not keep the next one from being made. -/
def runAll (chooser : Chooser σ) :
    List Job → Engine σ → List (Except ExpansionError String) × Engine σ
  | [], engine => ([], engine)
  | job :: rest, engine =>
    let (outcome, _, engine) := engine.runWith chooser job.fuel job.rules job.scene job.root
    let (outcomes, engine) := runAll chooser rest engine
    (outcome :: outcomes, engine)

/-- The metrics and the source of an engine agree with the outcomes of its runs so far
    and with the source that it had before the first of them. -/
structure Balanced (chooser : Chooser σ) (start : σ)
    (outcomes : List (Except ExpansionError String)) (engine : Engine σ) : Prop where
  runs_eq : engine.metrics.runs = outcomes.countP fun outcome => outcome.isOk
  expansions_eq : engine.metrics.expansions =
    engine.metrics.unmatched + engine.metrics.totalFired + outcomes.countP (FailedSelection ·)
  takes : chooser.Takes (engine.metrics.totalFired + outcomes.countP (Missed ·)) start
    engine.source

theorem runs_countRun (m : Metrics) (outcome : Except ExpansionError String) :
    (m.countRun outcome).runs = m.runs + [outcome].countP fun outcome => outcome.isOk := by
  cases outcome <;> rfl

/-- A run keeps the balance. -/
theorem Balanced.run {start : σ} {outcomes : List (Except ExpansionError String)}
    {engine : Engine σ} (h : Balanced chooser start outcomes engine) (job : Job) :
    let result := engine.runWith chooser job.fuel job.rules job.scene job.root
    Balanced chooser start (outcomes ++ [result.1]) result.2.2 := by
  intro result
  rcases course_runWith chooser job.fuel engine job.rules job.scene job.root with
    ⟨outcome, events, q, hcourse, hresult⟩
  rcases Setup.account_of_course hcourse with ⟨unmatched, fired, haccount⟩
  have hruns := haccount.runs_eq
  have hunmatched := haccount.unmatched_eq
  have hfired := haccount.fired_eq
  have hexpansions := haccount.expansions_eq
  have hstart := h.runs_eq
  have hbalance := h.expansions_eq
  rw [show result = _ from hresult]
  dsimp only [finish] at hruns hunmatched hfired hexpansions ⊢
  -- The run adds its own account to the one so far.
  refine ⟨?_, ?_, ?_⟩
  · rw [runs_countRun, List.countP_append]
    omega
  · rw [Metrics.expansions_countRun, Metrics.unmatched_countRun, Metrics.totalFired_countRun,
      List.countP_append]
    omega
  · rw [Metrics.totalFired_countRun, List.countP_append, hfired]
    have htakes := h.takes.trans haccount.takes
    rwa [Nat.add_add_add_comm] at htakes

/-- So does a series of runs. -/
theorem Balanced.runAll {start : σ} {outcomes : List (Except ExpansionError String)}
    {engine : Engine σ} (h : Balanced chooser start outcomes engine) (jobs : List Job) :
    Balanced chooser start (outcomes ++ (Engine.runAll chooser jobs engine).1)
      (Engine.runAll chooser jobs engine).2 := by
  induction jobs generalizing outcomes engine with
  | nil =>
      rw [Engine.runAll, List.append_nil]
      exact h
  | cons job rest ih =>
      have hrest := ih (h.run job)
      rw [List.append_assoc] at hrest
      exact hrest

/-- The metrics of an engine that started without any account for all of its runs, and so
    does its source. As many runs are counted as gave text. The expanded references are
    those without candidates, those that a rule was used for, and one for each run that
    failed in the selection of a rule. A draw was taken for every rule that was used
    and for every run that missed all candidates. What uses no rule, and does not miss
    any, takes no draw. -/
theorem runAll_accounts [DrawSource σ] (maxDepth : Option Nat) (source : σ) (jobs : List Job) :
    let outcomes := (runAll Chooser.weighted jobs ⟨maxDepth, source, {}⟩).1
    let engine := (runAll Chooser.weighted jobs ⟨maxDepth, source, {}⟩).2
    engine.metrics.runs = outcomes.countP (fun outcome => outcome.isOk) ∧
    engine.metrics.expansions =
      engine.metrics.unmatched + engine.metrics.totalFired + outcomes.countP (FailedSelection ·) ∧
    engine.source =
      DrawSource.skip (engine.metrics.totalFired + outcomes.countP (Missed ·)) source ∧
    ∀ (engine : Engine σ) (fuel : Nat) (rules : RuleSet) (scene : Scene) (depth : Nat)
      (item : Item),
      let result := engine.performWith Chooser.weighted fuel rules scene depth item
      result.2.2.metrics.totalFired = engine.metrics.totalFired → ¬ Missed result.1 →
        result.2.2.source = engine.source := by
  intro outcomes engine
  have hstart : Balanced Chooser.weighted source [] ⟨maxDepth, source, {}⟩ :=
    ⟨rfl, rfl, .none source⟩
  have hall : Balanced Chooser.weighted source outcomes engine := hstart.runAll jobs
  refine ⟨hall.runs_eq, hall.expansions_eq, hall.takes.eq_skip, ?_⟩
  -- A step on its own has an account as well. Without a firing and without a miss it has taken
  -- no draw.
  intro engine fuel rules scene depth item result hfired hmissed
  rcases course_performWith Chooser.weighted fuel engine rules scene depth item with
    ⟨outcome, events, q, hcourse, hresult⟩
  rcases Setup.account_of_course hcourse with ⟨unmatched, fired, haccount⟩
  rw [show result = _ from hresult] at hfired hmissed ⊢
  have hnone : fired = 0 := by
    have heq := haccount.fired_eq
    dsimp only at hfired heq
    omega
  have htakes := haccount.takes.eq_skip
  rw [hnone, List.countP_singleton, if_neg (by rwa [decide_eq_true_eq])] at htakes
  exact htakes

/-- Tags with one rule, with one that nests, and with two whose frequencies have an
    infinite sum. -/
def fourEndings : RuleSet :=
  RuleSet.ofList ([
    { tag := ⟨"word", none⟩, content := [.text "x"] },
    { tag := ⟨"nest", none⟩, content := [.reference { tag := ⟨"word", none⟩ }] },
    { tag := ⟨"heavy", none⟩, frequency := .whole (10 ^ 308) },
    { tag := ⟨"heavy", none⟩, frequency := .whole (10 ^ 308) }].filterMap
      fun parts => (Rule.create parts).toOption)

/-- A reference to a tag without rules. -/
def lostTag : Item := .reference { tag := ⟨"lost", none⟩ }

/-- The outcomes of runs with all four ways to end, and the engine after them: a text, a
    failure at the depth limit, a missed choice, and a tag without rules. -/
def afterFourJobs : List (Except ExpansionError String) × Engine Script :=
  runAll Chooser.weighted
    (["word", "nest", "heavy", "lost"].map fun name =>
      ⟨fourEndings, ⟨.empty, []⟩, { tag := ⟨name, none⟩ }, 5⟩)
    ⟨some 1, Script.ofList [Binary64.ofRatio 1 2], {}⟩

/-- Two of these runs give text. Of the five references that they expand, one has no
    candidate, two have a rule used for them, and two are those that runs fail at. Three
    draws are taken, and none more for a tag without rules. -/
theorem runAll_accounts_fourJobs :
    (afterFourJobs.1.countP (FailedSelection ·) = 2 ∧ afterFourJobs.1.countP (Missed ·) = 1 ∧
      afterFourJobs.2.metrics.unmatched = 1 ∧ afterFourJobs.2.metrics.totalFired = 2) ∧
    afterFourJobs.2.metrics.runs = afterFourJobs.1.countP (fun outcome => outcome.isOk) ∧
    afterFourJobs.2.metrics.expansions = 1 + 2 + 2 ∧
    afterFourJobs.2.source =
      DrawSource.skip (2 + 1) (Script.ofList [Binary64.ofRatio 1 2]) ∧
    (afterFourJobs.2.performWith Chooser.weighted 5 fourEndings ⟨.empty, []⟩ 0
      lostTag).2.2.source = afterFourJobs.2.source := by
  have hcounts : afterFourJobs.1.countP (FailedSelection ·) = 2 ∧
      afterFourJobs.1.countP (Missed ·) = 1 ∧ afterFourJobs.2.metrics.unmatched = 1 ∧
      afterFourJobs.2.metrics.totalFired = 2 := by
    decide +kernel
  have hfired : (afterFourJobs.2.performWith Chooser.weighted 5 fourEndings ⟨.empty, []⟩ 0
      lostTag).2.2.metrics.totalFired = afterFourJobs.2.metrics.totalFired := by
    decide +kernel
  have hmissed : ¬ Missed (afterFourJobs.2.performWith Chooser.weighted 5 fourEndings
      ⟨.empty, []⟩ 0 lostTag).1 := by
    decide +kernel
  have haccounts := runAll_accounts (some 1) (Script.ofList [Binary64.ofRatio 1 2])
    (["word", "nest", "heavy", "lost"].map fun name =>
      ⟨fourEndings, ⟨.empty, []⟩, { tag := ⟨name, none⟩ }, 5⟩)
  rw [← afterFourJobs] at haccounts
  rcases haccounts with ⟨hruns, hexpansions, hsource, hnone⟩
  rcases hcounts with ⟨hfailed, hmiss, hunmatched, htotal⟩
  rw [hfailed, hunmatched, htotal] at hexpansions
  rw [hmiss, htotal] at hsource
  have hlost := hnone afterFourJobs.2 5 fourEndings ⟨.empty, []⟩ 0 lostTag hfired hmissed
  exact ⟨⟨hfailed, hmiss, hunmatched, htotal⟩, hruns, hexpansions, hsource, hlost⟩

end Engine

end TextGrammar
