import TextGrammar.Proofs.Expansion.Semantics
import TextGrammar.Proofs.Watcher.Events

/-!
# Courses

The course of an expansion: everything that it does to the state, step by step.

A course is a derivation. It has a rule for each way in which the expansion of a
piece or of a template can go, with the state before, the outcome, the events of
the watchers on the way and the state after. Selections keep the form they have
for a single reference, so nothing of the candidates, the draws or the metrics is
hidden. What is left out are the calls of the watchers, in whose place their
events stand.

Every expansion has a course, and every course is that of the expansion, which makes
them the same thing. Facts about all expansions are shown by induction on the course,
with no need to open the monad or to follow the fuel again.

The events of a template stand within those of the chain around it. Of the two
chains around the use of a rule, that of the rule is the outer one.

## Main definitions

* `Progress.play`: The state after some events.
* `Chain.finish`, `Chain.ending`: The outcome and the events at the end of a
  substitution.
* `Chain.enclose`: The events of a substitution within those of a chain.
* `Namespace.textFor`: The text that a look-up of a name finds.
* `Setup.Course`: The course of the expansion of a subject.

## Theorems

* `Setup.course_expand`: Every expansion has a course.
* `Setup.run_of_course`: It is the expansion.
* `Setup.Course.scene_eq`: The scene is changed by the events alone.
* `Engine.course_performWith`, `Engine.course_runWith`: The courses of what an engine
  does.
-/

namespace TextGrammar

variable {σ : Type}

/-- The state after some events. -/
def Progress.play (p : Progress σ) (events : List Event) : Progress σ :=
  { p with scene := p.scene.play events }

namespace Chain

/-- The outcome of a substitution after the calls of a chain. A failure is not
    called back. -/
def finish (chain : Chain) : Except ExpansionError String → Except ExpansionError String
  | .error e => .error e
  | .ok text =>
    match chain.rewrite? text with
    | .ok text => .ok text
    | .error .undefinedNumeric => .error .undefinedNumeric

/-- The events of a chain after a substitution with some outcome. -/
def ending (chain : Chain) (target : String) : Except ExpansionError String → List Event
  | .error _ => []
  | .ok text => chain.closing target text

/-- The events of a substitution with some outcome, within those of a chain. -/
def enclose (chain : Chain) (target : String) (outcome : Except ExpansionError String)
    (events : List Event) : List Event :=
  chain.opening target ++ events ++ chain.ending target outcome

theorem close_eq (chain : Chain) (target text : String) (scene : Scene) :
    chain.close target text scene =
      (chain.finish (.ok text), scene.play (chain.ending target (.ok text))) := by
  rw [close_eq_mapError, after?_eq]
  unfold finish ending
  dsimp only
  cases chain.rewrite? text with
  | ok result => rfl
  | error e =>
      cases e with
      | undefinedNumeric => rfl

end Chain

/-- The text that a look-up of a name finds, which for a missing name is the look-up
    itself. -/
def Namespace.textFor (data : Namespace) (key : String) : String :=
  match data.get? key with
  | some d => d.toText
  | none => Item.lookupText key

namespace Scene

theorem lookup_eq (key : String) (chain : Chain) (scene : Scene) :
    scene.lookup key chain =
      let opened := scene.play (chain.opening (Item.lookupText key))
      let text := opened.data.textFor key
      (chain.finish (.ok text), opened.play (chain.ending (Item.lookupText key) (.ok text))) := by
  unfold lookup
  dsimp only
  rw [Chain.before_eq, Chain.close_eq]
  rfl

theorem enter_eq (rule : RegisteredRule) (ref : Reference) (scene : Scene) :
    scene.enter rule ref =
      (scene.play (rule.watchers.opening ref.tag.toText)).play
        (ref.watchers.opening ref.tag.toText) := by
  unfold enter
  rw [Chain.before_eq, Chain.before_eq]

theorem leave_eq (rule : RegisteredRule) (ref : Reference)
    (outcome : Except ExpansionError String) (scene : Scene) :
    scene.leave rule ref outcome =
      let inner := ref.watchers.finish outcome
      (rule.watchers.finish inner,
        (scene.play (ref.watchers.ending ref.tag.toText outcome)).play
          (rule.watchers.ending ref.tag.toText inner)) := by
  cases outcome with
  | error e =>
      change (Except.error e, scene) = (_, (scene.play []).play [])
      rw [play_nil, play_nil]
      rfl
  | ok text =>
      unfold leave
      dsimp only
      rw [Chain.close_eq]
      cases ref.watchers.finish (.ok text) with
      | error e => exact congrArg (Prod.mk _) (play_nil _).symm
      | ok inner => exact Chain.close_eq rule.watchers ref.tag.toText inner _

end Scene

theorem Progress.enter_eq (rule : RegisteredRule) (ref : Reference) (p : Progress σ) :
    ({ p with scene := p.scene.enter rule ref } : Progress σ) =
      (p.play (rule.watchers.opening ref.tag.toText)).play
        (ref.watchers.opening ref.tag.toText) := by
  rw [Scene.enter_eq]
  rfl

namespace Setup

/-- The course of the expansion of a subject: the fuel and the depth, the state
    before, the outcome, the events of the watchers, and the state after. -/
inductive Course (setup : Setup σ) : Nat → Nat → Subject → Progress σ →
    Except ExpansionError String → List Event → Progress σ → Prop
  | text (fuel depth : Nat) (s : String) (p : Progress σ) :
      Course setup fuel depth (.piece (.text s)) p (.ok s) [] p
  | lookup (fuel depth : Nat) (key : String) (chain : Chain) (p opened : Progress σ)
      (text : String) (hopened : opened = p.play (chain.opening (Item.lookupText key)))
      (htext : text = opened.scene.data.textFor key) :
      Course setup fuel depth (.piece (.lookup key chain)) p (chain.finish (.ok text))
        (chain.enclose (Item.lookupText key) (.ok text) [])
        (opened.play (chain.ending (Item.lookupText key) (.ok text)))
  | foreign (fuel depth : Nat) (given : Option String) (p : Progress σ) :
      Course setup fuel depth (.piece (.foreign given)) p (.error (.foreignItem given)) [] p
  | failed (fuel depth : Nat) (ref : Reference) (p q : Progress σ) (e : ExpansionError)
      (hselect : Selects setup depth ref p (.error e) q) :
      Course setup fuel depth (.piece (.reference ref)) p (.error e) [] q
  | unmatched (fuel depth : Nat) (ref : Reference) (p q : Progress σ)
      (hselect : Selects setup depth ref p (.ok none) q) :
      Course setup fuel depth (.piece (.reference ref)) p (.ok ref.tag.toText) [] q
  | exhausted (depth : Nat) (ref : Reference) (p q : Progress σ) (rule : RegisteredRule)
      (hselect : Selects setup depth ref p (.ok (some rule)) q) :
      Course setup 0 depth (.piece (.reference ref)) p (.error .outOfFuel) [] q
  | fired (fuel depth : Nat) (ref : Reference) (p q r : Progress σ) (rule : RegisteredRule)
      (outcome inner : Except ExpansionError String) (target : String) (events : List Event)
      (hselect : Selects setup depth ref p (.ok (some rule)) q)
      (htarget : target = ref.tag.toText)
      (hcontent : Course setup fuel (depth + 1) (.pieces rule.content)
        ((q.play (rule.watchers.opening target)).play (ref.watchers.opening target))
        outcome events r)
      (hinner : inner = ref.watchers.finish outcome) :
      Course setup (fuel + 1) depth (.piece (.reference ref)) p (rule.watchers.finish inner)
        (rule.watchers.enclose target inner (ref.watchers.enclose target outcome events))
        ((r.play (ref.watchers.ending target outcome)).play (rule.watchers.ending target inner))
  | nil (fuel depth : Nat) (p : Progress σ) :
      Course setup fuel depth (.pieces []) p (.ok "") [] p
  | cons (fuel depth : Nat) (item : Item) (rest : Content) (p q r : Progress σ) (text : String)
      (outcome : Except ExpansionError String) (events more : List Event)
      (hitem : Course setup fuel depth (.piece item) p (.ok text) events q)
      (hrest : Course setup fuel depth (.pieces rest) q outcome more r) :
      Course setup fuel depth (.pieces (item :: rest)) p (outcome.map (text ++ ·))
        (events ++ more) r
  | stop (fuel depth : Nat) (item : Item) (rest : Content) (p q : Progress σ)
      (e : ExpansionError) (events : List Event)
      (hitem : Course setup fuel depth (.piece item) p (.error e) events q) :
      Course setup fuel depth (.pieces (item :: rest)) p (.error e) events q

variable (setup : Setup σ)

/-- Pieces have a course if each of them has. -/
theorem course_expandAll (fuel depth : Nat) (content : Content)
    (h : ∀ item ∈ content, ∀ p, ∃ events, setup.Course fuel depth (.piece item) p
      ((setup.expand fuel depth item).run p).1 events ((setup.expand fuel depth item).run p).2)
    (p : Progress σ) :
    ∃ events, setup.Course fuel depth (.pieces content) p
      ((expandAll (setup.expand fuel depth) content).run p).1 events
      ((expandAll (setup.expand fuel depth) content).run p).2 := by
  induction content generalizing p with
  | nil => exact ⟨[], .nil fuel depth p⟩
  | cons item rest ih =>
      rcases h item (List.mem_cons_self ..) p with ⟨events, hitem⟩
      rw [run_expandAll_cons]
      rcases hrun : (setup.expand fuel depth item).run p with ⟨outcome, q⟩
      rw [hrun] at hitem
      cases outcome with
      | error e => exact ⟨events, .stop fuel depth item rest p q e events hitem⟩
      | ok text =>
          rcases ih (fun other hother => h other (List.mem_cons_of_mem _ hother)) q with
            ⟨more, hrest⟩
          dsimp only at hitem ⊢
          rcases hmore : (expandAll (setup.expand fuel depth) rest).run q with ⟨outcome, r⟩
          rw [hmore] at hrest
          -- The course goes on behind the first piece, whether or not a later one fails.
          have hcourse :=
            Course.cons fuel depth item rest p q r text outcome events more hitem hrest
          cases outcome with
          | error e => exact ⟨_, hcourse⟩
          | ok tail => exact ⟨_, hcourse⟩

/-- Every expansion has a course. -/
theorem course_expand (fuel depth : Nat) (item : Item) (p : Progress σ) :
    ∃ events, setup.Course fuel depth (.piece item) p ((setup.expand fuel depth item).run p).1
      events ((setup.expand fuel depth item).run p).2 := by
  induction fuel, depth, item using expand_induction generalizing p with
  | text fuel depth s =>
      rw [expand]
      exact ⟨[], .text fuel depth s p⟩
  | lookup fuel depth key chain =>
      rw [expand, run_expandLookup, Scene.lookup_eq]
      exact ⟨_, .lookup fuel depth key chain p _ _ rfl rfl⟩
  | foreign fuel depth given =>
      rw [expand]
      exact ⟨[], .foreign fuel depth given p⟩
  -- A reference goes the way of its selection, which is one of three.
  | exhausted depth ref =>
      rcases setup.selectRule_cases depth ref p with ⟨e, q, hrun, hselect⟩ | ⟨q, hrun, hselect⟩ |
        ⟨rule, q, hrun, hselect⟩
      · rw [run_expand_of_error 0 hrun]
        exact ⟨[], .failed 0 depth ref p q e hselect⟩
      · rw [run_expand_of_none 0 hrun]
        exact ⟨[], .unmatched 0 depth ref p q hselect⟩
      · rw [run_expand_zero_reference, hrun]
        exact ⟨[], .exhausted depth ref p q rule hselect⟩
  | reference fuel depth ref ih =>
      rcases setup.selectRule_cases depth ref p with ⟨e, q, hrun, hselect⟩ | ⟨q, hrun, hselect⟩ |
        ⟨rule, q, hrun, hselect⟩
      · rw [run_expand_of_error (fuel + 1) hrun]
        exact ⟨[], .failed (fuel + 1) depth ref p q e hselect⟩
      · rw [run_expand_of_none (fuel + 1) hrun]
        exact ⟨[], .unmatched (fuel + 1) depth ref p q hselect⟩
      -- The pieces of the template have courses with less fuel, and the calls of the two
      -- chains stand around them.
      · rcases setup.course_expandAll fuel (depth + 1) rule.content (fun item _ p => ih item p)
          { q with scene := q.scene.enter rule ref } with ⟨events, hcontent⟩
        rw [run_expand_of_some fuel hrun, run_fire]
        rcases hall : (expandAll (setup.expand fuel (depth + 1)) rule.content).run
          { q with scene := q.scene.enter rule ref } with ⟨outcome, r⟩
        rw [hall, Progress.enter_eq] at hcontent
        dsimp only
        rw [Scene.leave_eq]
        exact ⟨_, .fired fuel depth ref p q r rule outcome _ _ events hselect rfl hcontent rfl⟩

variable {setup} {fuel depth : Nat} {subject : Subject} {p q : Progress σ}
  {outcome : Except ExpansionError String} {events : List Event}

/-- The text of a piece or of several, as an expansion gives it. -/
theorem run_of_course (h : setup.Course fuel depth subject p outcome events q) :
    match subject with
    | .piece item => (setup.expand fuel depth item).run p = (outcome, q)
    | .pieces content => (expandAll (setup.expand fuel depth) content).run p = (outcome, q) := by
  induction h with
  | text fuel depth s p =>
      dsimp only
      rw [expand]
      rfl
  | lookup fuel depth key chain p opened text hopened htext =>
      subst hopened htext
      dsimp only
      rw [expand, run_expandLookup, Scene.lookup_eq]
      rfl
  | foreign fuel depth given p =>
      dsimp only
      rw [expand]
      rfl
  -- Selections have the same form on both sides, so they only have to be carried out.
  | failed fuel depth ref p q e hselect =>
      exact run_expand_of_error fuel (setup.run_of_selects depth ref p hselect)
  | unmatched fuel depth ref p q hselect =>
      exact run_expand_of_none fuel (setup.run_of_selects depth ref p hselect)
  | exhausted depth ref p q rule hselect =>
      dsimp only
      rw [run_expand_zero_reference, setup.run_of_selects depth ref p hselect]
  | fired fuel depth ref p q r rule outcome inner target events hselect htarget hcontent hinner
      ih =>
      subst htarget hinner
      dsimp only at ih ⊢
      -- Before the template the scene is that of the opening events, and behind it the two
      -- chains close what they have opened.
      rw [run_expand_of_some fuel (setup.run_of_selects depth ref p hselect), run_fire,
        Progress.enter_eq, ih]
      dsimp only
      rw [Scene.leave_eq]
      rfl
  | nil fuel depth p => rfl
  | cons fuel depth item rest p q r text outcome events more hitem hrest ihitem ihrest =>
      dsimp only at ihitem ihrest ⊢
      rw [run_expandAll_cons, ihitem]
      dsimp only
      rw [ihrest]
      cases outcome with
      | error e => rfl
      | ok tail => rfl
  | stop fuel depth item rest p q e events hitem ih =>
      dsimp only at ih ⊢
      rw [run_expandAll_cons, ih]

/-- A selection does not touch the scene. -/
theorem scene_of_selects {ref : Reference}
    {outcome : Except ExpansionError (Option RegisteredRule)}
    (h : Selects setup depth ref p outcome q) : q.scene = p.scene := by
  cases h <;> rfl

/-- The scene is changed by the events alone. -/
theorem Course.scene_eq (h : setup.Course fuel depth subject p outcome events q) :
    q.scene = p.scene.play events := by
  induction h with
  | text _ _ _ p => exact (Scene.play_nil p.scene).symm
  | lookup fuel depth key chain p opened text hopened htext =>
      rw [Chain.enclose, List.append_nil, Scene.play_append, hopened]
      rfl
  | foreign _ _ _ p => exact (Scene.play_nil p.scene).symm
  | failed _ _ _ p _ _ hselect => rw [scene_of_selects hselect, Scene.play_nil]
  | unmatched _ _ _ p _ hselect => rw [scene_of_selects hselect, Scene.play_nil]
  | exhausted _ _ p _ _ hselect => rw [scene_of_selects hselect, Scene.play_nil]
  | fired fuel depth ref p q r rule outcome inner target events hselect _ hcontent _ ih =>
      have hinside : r.scene =
          ((p.scene.play (rule.watchers.opening target)).play (ref.watchers.opening target)).play
            events := by
        rw [← scene_of_selects hselect]
        exact ih
      simp only [Chain.enclose, Scene.play_append, ← hinside]
      rfl
  | nil _ _ p => exact (Scene.play_nil p.scene).symm
  | cons fuel depth item rest p q r text outcome events more hitem hrest ihitem ihrest =>
      rw [Scene.play_append, ← ihitem, ihrest]
  | stop _ _ _ _ _ _ _ _ _ ih => exact ih

end Setup

namespace Engine

variable (chooser : Chooser σ) (fuel : Nat) (engine : Engine σ) (rules : RuleSet) (scene : Scene)

/-- What an engine performs has a course. -/
theorem course_performWith (depth : Nat) (item : Item) :
    ∃ outcome events q,
      Setup.Course ⟨rules, engine.maxDepth, chooser⟩ fuel depth (.piece item)
        ⟨scene, engine.source, engine.metrics⟩ outcome events q ∧
      engine.performWith chooser fuel rules scene depth item =
        (outcome, q.scene, ⟨engine.maxDepth, q.source, q.metrics⟩) := by
  let setup : Setup σ := ⟨rules, engine.maxDepth, chooser⟩
  rcases setup.course_expand fuel depth item ⟨scene, engine.source, engine.metrics⟩ with
    ⟨events, hcourse⟩
  exact ⟨_, events, _, hcourse, rfl⟩

/-- So has a run, which counts itself when it gives text. -/
theorem course_runWith (root : Reference) :
    ∃ outcome events q,
      Setup.Course ⟨rules, engine.maxDepth, chooser⟩ fuel 0 (.piece (.reference root))
        ⟨scene, engine.source, engine.metrics⟩ outcome events q ∧
      engine.runWith chooser fuel rules scene root = finish engine.maxDepth (outcome, q) := by
  let setup : Setup σ := ⟨rules, engine.maxDepth, chooser⟩
  rcases setup.course_expand fuel 0 (.reference root) ⟨scene, engine.source, engine.metrics⟩ with
    ⟨events, hcourse⟩
  exact ⟨_, events, _, hcourse, runWith_eq chooser engine rules scene root fuel⟩

end Engine

end TextGrammar
