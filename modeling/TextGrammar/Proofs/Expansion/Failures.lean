import TextGrammar.Proofs.Candidates.Guards
import TextGrammar.Proofs.Expansion.Room
import TextGrammar.Proofs.Expression.Strict
import TextGrammar.Proofs.Grammar.Diagnosis
import TextGrammar.Proofs.Grammar.Loaded

/-!
# Declared Failures

How a run on a loaded grammar can fail, and how it cannot.

A template can be given pieces that are no pieces, and a watcher can be one that does
not say how it rewrites numbers. Neither can be written down: a text spells look-ups,
references and plain text, with captures and filters around them, and all of these are
total. What is left are the failures of selections, because an outcome passes through
the watchers around it unchanged if it is an error. So an expansion fails like one of
its selections does, or for lack of room for nested calls.

A selection fails at a malformed guard, at the limit or in the choice. Guards whose
instructions spell trees are not malformed, and then the first of the three is out of
question too.

The lack of room is not for the grammar to declare, as it depends on the interpreter. It
cannot be ruled out by a limit either, if that is greater than the number of levels for
which there is room: then a run ends for lack of room where it would have exceeded that
number as a limit, and nowhere else. This does happen on a loaded grammar.

## Main definitions

* `Watcher.IsTotal`: A watcher never fails after a substitution.
* `Item.IsWritten`, `Rule.IsWritten`, `RuleSet.IsWritten`: Pieces, rules and rule sets
  as texts can spell them.
* `ExpansionError.IsDeclared`: The errors of selections under a limit.

## Theorems

* `Watcher.IsOwn.isTotal`: Captures and filters are total.
* `Grammar.Loaded.isWritten`: Loaded sets have nothing that cannot be spelled.
* `Setup.error_of_course`: An expansion fails like its selections, or for lack of room.
* `Setup.isDeclared_of_selects`, `Setup.ne_evaluation_of_selects`: How selections fail, and
  how they do not if all guards spell trees.
* `Engine.error_of_runWith`: A run fails like its selections, or for lack of room.
* `Engine.run_fails_as_declared`: The failures of runs on loaded grammars, with any room.
* `Engine.run_fails_undeclared`: A run on a loaded grammar that ends for lack of room.
-/

namespace TextGrammar

variable {σ : Type}

namespace Watcher

/-- The watcher never fails after a substitution. -/
def IsTotal (w : Watcher) : Prop :=
  ∀ target text scene, ∃ result next, w.after? target text scene = .ok (result, next)

/-- Captures and filters rewrite all texts. -/
theorem IsOwn.exists_rewrite? {w : Watcher} (h : w.IsOwn) (text : String) :
    ∃ result, w.rewrite? text = .ok result := by
  cases w with
  | capture key => exact ⟨_, rfl⟩
  | sentence => exact ⟨_, rfl⟩
  | idle => exact absurd h id
  | numeric => exact absurd h id
  | trace name => exact absurd h id
  | count key => exact absurd h id
  | _ =>
      -- A filter of numbers passes what is no number, and says what it makes of one.
      simp only [rewrite?, rewriteNumber]
      cases Numeral.read? text with
      | none => exact ⟨_, rfl⟩
      | some x => exact ⟨_, rfl⟩

theorem IsOwn.isTotal {w : Watcher} (h : w.IsOwn) : w.IsTotal := by
  intro target text scene
  rcases h.exists_rewrite? text with ⟨result, hresult⟩
  rw [after?_eq, hresult]
  exact ⟨result, _, rfl⟩

end Watcher

namespace Chain

theorem exists_rewrite? {chain : Chain} (hown : ∀ w ∈ chain, w.IsOwn) (text : String) :
    ∃ result, chain.rewrite? text = .ok result := by
  induction chain with
  | nil => exact ⟨text, rfl⟩
  | cons w rest ih =>
      rcases ih fun v hv => hown v (List.mem_cons_of_mem _ hv) with ⟨inner, hinner⟩
      rw [rewrite?, hinner]
      exact (hown w (List.mem_cons_self ..)).exists_rewrite? inner

/-- Own watchers cause no failure. -/
theorem error_of_finish {chain : Chain} (hown : ∀ w ∈ chain, w.IsOwn)
    {outcome : Except ExpansionError String} {e : ExpansionError}
    (h : chain.finish outcome = .error e) : outcome = .error e := by
  cases outcome with
  | error reason => exact h
  | ok text =>
      rcases exists_rewrite? hown text with ⟨result, hresult⟩
      unfold finish at h
      dsimp only at h
      rw [hresult] at h
      exact absurd h nofun

end Chain

/-- A piece that a text can spell: no foreign one, and with own watchers. -/
def Item.IsWritten (item : Item) : Prop :=
  (∀ given, item ≠ .foreign given) ∧ ∀ w ∈ item.watchers, w.IsOwn

/-- A rule that a text can spell. -/
def Rule.IsWritten (rule : Rule) : Prop :=
  (∀ w ∈ rule.watchers, w.IsOwn) ∧ ∀ item ∈ rule.content, item.IsWritten

/-- A rule set of rules that a text can spell. -/
def RuleSet.IsWritten (rules : RuleSet) : Prop := ∀ rule ∈ rules.toList, rule.toRule.IsWritten

namespace Grammar

theorem ItemForm.StandsFor.ne_foreign {form : ItemForm} {item : Item} (h : form.StandsFor item)
    (given : Option String) : item ≠ .foreign given := by
  cases h <;> nofun

/-- A rule that is read can be spelled, of course. -/
theorem isWritten_of_readRuleChars {text : List Char} {place : Place} {rule : Rule}
    (h : readRuleChars text place = .ok rule) : rule.IsWritten := by
  rcases allWatchers_of_readRuleChars h with ⟨hwatchers, hitems⟩
  refine ⟨hwatchers, fun item hitem => ⟨?_, hitems item hitem⟩⟩
  cases (readRuleChars_eq_ok_iff _ _ _).1 h with
  | intro _ _ _ _ _ _ _ _ _ _ hcontent _ hrule =>
      rw [hrule.content] at hitem
      exact forall_of_forall₂ hcontent
        (fun _ _ hform => ItemForm.StandsFor.ne_foreign hform) item hitem

/-- A loaded set has nothing that cannot be spelled. -/
theorem Loaded.isWritten {rules : RuleSet} (h : Loaded rules) : rules.IsWritten :=
  h.forall_rules fun _ _ _ => isWritten_of_readRuleChars

end Grammar

/-- A search that fails has met a malformed guard. -/
theorem Candidates.exists_malformed_of_find {rules : RuleSet} {ref : Reference} {data : Namespace}
    {e : EvaluationError} (h : find rules ref data = .error e) :
    ∃ rule ∈ rules.toList, rule.toRule.HasMalformedGuard := by
  have hsorted := rules.pairwise_priority_rulesFor ref.tag
  have hsearch : search ref data none (rules.rulesFor ref.tag) = .error e := by
    unfold find at h
    split at h
    · rename_i reason hreason
      rw [hreason, Except.error.inj h]
    · exact absurd h nofun
  have hfloor : IsFloor ref data [] none := isFloor_nil
  rcases (search_eq_error_iff hfloor hsorted e).1 hsearch with
    ⟨i, rule, _, ⟨hget, _, hguard, _⟩, _⟩
  have hmem := List.mem_of_getElem? hget
  rw [List.nil_append] at hmem
  exact ⟨rule, ((rules.mem_rulesFor _ _).1 hmem).1, hguard⟩

/-- An expansion of what can be spelled fails like one of its selections, or for lack of
    room. -/
theorem Setup.error_of_course {setup : Setup σ} (kind : ExpansionError → Prop)
    (hrules : setup.rules.IsWritten) (hfuel : kind .outOfFuel)
    (hselect : ∀ depth ref p q e, Selects setup depth ref p (.error e) q → kind e)
    {fuel depth : Nat} {subject : Subject} {p q : Progress σ}
    {outcome : Except ExpansionError String} {events : List Event}
    (h : setup.Course fuel depth subject p outcome events q)
    (hsubject : subject.Forall Item.IsWritten) {e : ExpansionError} (he : outcome = .error e) :
    kind e := by
  induction h generalizing e with
  | text => exact absurd he nofun
  | lookup _ _ key chain => exact absurd (Chain.error_of_finish hsubject.2 he) nofun
  | foreign _ _ given => exact absurd rfl (hsubject.1 given)
  | failed _ _ ref _ _ reason hfailed =>
      rw [← Except.error.inj he]
      exact hselect _ ref _ _ reason hfailed
  | unmatched => exact absurd he nofun
  | exhausted =>
      rw [← Except.error.inj he]
      exact hfuel
  | fired _ _ ref _ _ _ rule _ _ _ _ hchosen _ _ hinner ih =>
      have hrule := hrules rule ((setup.rules.mem_rulesFor _ _).1
        (mem_rulesFor_of_selects _ _ _ _ hchosen)).1
      -- The error comes from the template, through the chains around it.
      have herror := Chain.error_of_finish hrule.1 he
      rw [hinner] at herror
      exact ih hrule.2 (Chain.error_of_finish hsubject.2 herror)
  | nil => exact absurd he nofun
  | cons _ _ item rest _ _ _ _ outcome _ _ _ _ _ ihrest =>
      cases outcome with
      | ok text => exact absurd he nofun
      | error reason =>
          exact ihrest (fun other hother => hsubject other (List.mem_cons_of_mem _ hother))
            he
  | stop _ _ item _ _ _ _ _ _ ih => exact ih (hsubject item (List.mem_cons_self ..)) he

/-- The errors of selections under a limit. -/
inductive ExpansionError.IsDeclared (limit : Nat) : ExpansionError → Prop
  | evaluation (e : EvaluationError) : IsDeclared limit (.evaluation e)
  | tooDeep (tag : Tag) : IsDeclared limit (.tooDeep limit tag)
  | nothingChosen (total : Binary64) : IsDeclared limit (.nothingChosen total)

theorem Setup.isDeclared_of_selects {setup : Setup σ} {limit : Nat}
    (hlimit : setup.maxDepth = some limit) {depth : Nat} {ref : Reference} {p q : Progress σ}
    {e : ExpansionError} (h : Selects setup depth ref p (.error e) q) : e.IsDeclared limit := by
  rcases error_of_selects _ _ _ _ h with ⟨reason, rfl⟩ | ⟨bound, hdeep, rfl⟩ | ⟨total, rfl⟩
  · exact .evaluation reason
  · have hbound := (isTooDeep_eq_some hdeep).1
    rw [hlimit] at hbound
    cases hbound
    exact .tooDeep ref.tag
  · exact .nothingChosen total

/-- Where all guards spell trees, no selection fails at a guard. -/
theorem Setup.ne_evaluation_of_selects {setup : Setup σ}
    (htrees : ∀ rule ∈ setup.rules.toList, ∀ guard ∈ rule.guard,
      ∃ trees, guard.instructions = ExpressionTree.sequence trees)
    {depth : Nat} {ref : Reference} {p q : Progress σ} {e : ExpansionError}
    (h : Selects setup depth ref p (.error e) q) (reason : EvaluationError) :
    e ≠ .evaluation reason := by
  cases h with
  | malformed reason hfind =>
      rcases Candidates.exists_malformed_of_find hfind with ⟨rule, hrule, guard, hguard, hbad⟩
      exact absurd (htrees rule hrule guard hguard) hbad
  | refused => nofun
  | missed => nofun

namespace Engine

variable [DrawSource σ] (engine : Engine σ) {rules : RuleSet}

/-- A run on what can be spelled fails like one of its selections, or for lack of room. -/
theorem error_of_runWith (kind : ExpansionError → Prop) (hrules : rules.IsWritten)
    (hselect : ∀ depth ref p q e,
      Setup.Selects ⟨rules, engine.maxDepth, (Chooser.weighted : Chooser σ)⟩ depth ref p
        (.error e) q → kind e)
    (fuel : Nat) (scene : Scene) (root : Reference) (hroot : ∀ w ∈ root.watchers, w.IsOwn)
    {e : ExpansionError}
    (h : (engine.runWith Chooser.weighted fuel rules scene root).1 = .error e) :
    e = .outOfFuel ∨ kind e := by
  rcases course_runWith Chooser.weighted fuel engine rules scene root with
    ⟨outcome, events, q, hcourse, hresult⟩
  have houtcome : outcome = .error e := (congrArg Prod.fst hresult).symm.trans h
  exact Setup.error_of_course (fun e => e = .outOfFuel ∨ kind e) hrules (Or.inl rfl)
    (fun depth ref p q e hfailed => Or.inr (hselect depth ref p q e hfailed)) hcourse
    ⟨nofun, hroot⟩ houtcome

/-- With a limit, such a run fails like one of its selections, or for lack of room. -/
theorem isDeclared_of_runWith (hrules : rules.IsWritten) {limit : Nat}
    (hlimit : engine.maxDepth = some limit) (fuel : Nat) (scene : Scene) (root : Reference)
    (hroot : ∀ w ∈ root.watchers, w.IsOwn) {e : ExpansionError}
    (h : (engine.runWith Chooser.weighted fuel rules scene root).1 = .error e) :
    e = .outOfFuel ∨ e.IsDeclared limit :=
  error_of_runWith engine (ExpansionError.IsDeclared limit) hrules
    (fun _ _ _ _ _ hfailed => Setup.isDeclared_of_selects hlimit hfailed) fuel scene root hroot h

/-- Where there is room for a number of levels, runs on a loaded grammar, within a limit and
    from a tag that is given by its text, give text, or fail at a guard, at the limit or in a
    choice, or they end for lack of room. That happens only if there is less room than the
    limit allows for, to a run that would have exceeded the number of levels as a limit. At a
    guard runs only fail if the instructions of some guard spell no trees. Nothing in a
    loaded grammar is foreign, its watchers never fail, a captured text can always be
    stored, and the strict machine for guards stops for lack of operands alone. -/
theorem run_fails_as_declared (hloaded : Grammar.Loaded rules) :
    (∀ limit, engine.maxDepth = some limit →
      ∀ (levels : Nat) (scene : Scene) (root : String),
      let outcome := (engine.runWithin levels rules scene { tag := Tag.parse root }).1
      ((∃ text, outcome = .ok text) ∨ (∃ e, outcome = .error (.evaluation e)) ∨
        (∃ tag, outcome = .error (.tooDeep limit tag)) ∨
        (∃ total, outcome = .error (.nothingChosen total)) ∨
        outcome = .error .outOfFuel ∧ levels < limit ∧
          ∃ tag, (Engine.run { engine with maxDepth := some levels } rules scene
            { tag := Tag.parse root }).1 = .error (.tooDeep levels tag)) ∧
      ((∀ rule ∈ rules.toList, ∀ guard ∈ rule.guard,
          ∃ trees, guard.instructions = ExpressionTree.sequence trees) →
        ∀ e, outcome ≠ .error (.evaluation e))) ∧
    (∀ rule ∈ rules.toList, ∀ item ∈ rule.content, ∀ given, item ≠ .foreign given) ∧
    (∀ rule ∈ rules.toList, rule.AllWatchers Watcher.IsTotal) ∧
    (∀ (data : Namespace) (key text : String),
      data.set? key (.text text) = .ok (data.put key (.text text))) ∧
    ∀ (guard : Expression) (data : Namespace),
      Expression.strictRun data guard.instructions [] =
        (Expression.run data guard.instructions []).mapError .lacking := by
  have hwritten := hloaded.isWritten
  have hown : ∀ rule ∈ rules.toList, rule.AllWatchers Watcher.IsTotal := fun rule hrule =>
    ⟨fun w hw => ((hwritten rule hrule).1 w hw).isTotal,
      fun item hitem w hw => (((hwritten rule hrule).2 item hitem).2 w hw).isTotal⟩
  refine ⟨fun limit hlimit levels scene root => ?_, fun rule hrule item hitem =>
    ((hwritten rule hrule).2 item hitem).1, hown, fun _ _ _ => rfl, fun guard data =>
    Expression.strictRun_eq data guard.instructions []⟩
  intro outcome
  constructor
  · cases houtcome : outcome with
    | ok text => exact Or.inl ⟨text, rfl⟩
    | error e =>
        rcases isDeclared_of_runWith engine hwritten hlimit _ scene { tag := Tag.parse root }
          nofun houtcome with rfl | hdeclared
        · -- The run is not what it is with any room, since that never ends for lack of it.
          refine Or.inr (Or.inr (Or.inr (Or.inr ⟨rfl, ?_⟩)))
          rcases runWithin_cases hlimit levels scene { tag := Tag.parse root } with
            hsame | ⟨_, hless, bound, tag, hlower⟩
          · have hends := (ends_run engine rules scene { tag := Tag.parse root } hlimit).1
            exact absurd ((congrArg Prod.fst hsame).symm.trans houtcome) hends
          · let lower : Engine σ := { engine with maxDepth := some levels }
            rcases isDeclared_of_runWith lower hwritten rfl _ scene { tag := Tag.parse root }
              nofun hlower with hroom | hdeclared
            · cases hroom
            · cases hdeclared
              exact ⟨hless, tag, hlower⟩
        · cases hdeclared with
          | evaluation reason => exact Or.inr (Or.inl ⟨reason, rfl⟩)
          | tooDeep tag => exact Or.inr (Or.inr (Or.inl ⟨tag, rfl⟩))
          | nothingChosen total => exact Or.inr (Or.inr (Or.inr (Or.inl ⟨total, rfl⟩)))
  · intro htrees e houtcome
    have hkind := error_of_runWith engine (fun e => ∀ reason, e ≠ .evaluation reason) hwritten
      (fun _ _ _ _ _ hfailed => Setup.ne_evaluation_of_selects htrees hfailed) _ scene
      { tag := Tag.parse root } nofun houtcome
    exact hkind.elim nofun fun hne => hne e rfl

/-- A grammar that divides by a number from outside in a guard, with filters on a rule, on
    a reference and on a look-up. -/
def rankedText : String :=
  "root (if=\"5 place? / 1 >\", sentence) -> [rank ordinal as name] of [=place cardinal]\nrank -> 3"

/-- The number from outside is zero, and there is room for two levels. -/
theorem run_fails_as_declared_rankedText :
    let engine : Engine Script := ⟨some 2, Script.ofList [0], {}⟩
    let rules := (Grammar.load rankedText none .empty).2
    let scene : Scene := ⟨.ofEntries [("place", .number 0)], []⟩
    let outcome := (engine.runWithin 2 rules scene { tag := Tag.parse "root" }).1
    engine.maxDepth = some 2 ∧ Grammar.Loaded rules ∧
      (∀ rule ∈ rules.toList, ∀ guard ∈ rule.guard,
        ∃ trees, guard.instructions = ExpressionTree.sequence trees) ∧
      ((∃ text, outcome = .ok text) ∨ (∃ e, outcome = .error (.evaluation e)) ∨
        (∃ tag, outcome = .error (.tooDeep 2 tag)) ∨
        (∃ total, outcome = .error (.nothingChosen total)) ∨
        outcome = .error .outOfFuel ∧ 2 < 2 ∧
          ∃ tag, (Engine.run { engine with maxDepth := some 2 } rules scene
            { tag := Tag.parse "root" }).1 = .error (.tooDeep 2 tag)) ∧
      (∀ e, outcome ≠ .error (.evaluation e)) ∧ outcome.toOption = some "Third of 0." := by
  intro engine rules scene outcome
  have hloaded : Grammar.Loaded rules := .load rankedText none .empty .empty
  have hsound : ∀ rule ∈ rules.toList, ¬ rule.toRule.HasMalformedGuard := by decide +kernel
  have htrees : ∀ rule ∈ rules.toList, ∀ guard ∈ rule.guard,
      ∃ trees, guard.instructions = ExpressionTree.sequence trees := fun rule hrule guard hguard =>
    not_not.1 fun hbad => hsound rule hrule ⟨guard, hguard, hbad⟩
  rcases (run_fails_as_declared engine hloaded).1 2 rfl 2 scene "root" with
    ⟨hdeclared, hguards⟩
  exact ⟨rfl, hloaded, htrees, hdeclared, hguards htrees, by decide +kernel⟩

/-- A grammar whose only rule begins with its own tag. -/
def endlessText : String := "root -> [root]"

theorem rulesFor_endlessText :
    ∃ rule, (Grammar.load endlessText none .empty).2.rulesFor (Tag.parse "root") = [rule] ∧
      rule.guard = none ∧ rule.content = [.reference { tag := Tag.parse "root" }] := by
  have hshape : ((Grammar.load endlessText none .empty).2.rulesFor (Tag.parse "root")).map
      (fun rule => (rule.guard.isNone, rule.content)) =
        [(true, [.reference { tag := Tag.parse "root" }])] := by decide +kernel
  rcases List.map_eq_singleton_iff.1 hshape with ⟨rule, hrules, hrule⟩
  rcases Prod.mk.inj hrule with ⟨hguard, hcontent⟩
  exact ⟨rule, hrules, Option.isNone_iff_eq_none.1 hguard, hcontent⟩

/-- The rule has the default frequency, so that no draw misses it. -/
theorem isGrained_endlessText : (Grammar.load endlessText none .empty).2.IsGrained :=
  RuleSet.isGrained_of_forall_frequency_eq_one (by decide +kernel) (by decide +kernel)

/-- A run on this grammar uses up any room below its limit. -/
theorem runWithin_endlessText {levels limit : Nat} (hless : levels < limit) :
    (runWithin levels ⟨some limit, Script.ofList [0], {}⟩
      (Grammar.load endlessText none .empty).2 ⟨.empty, []⟩ { tag := Tag.parse "root" }).1 =
        .error .outOfFuel := by
  have hcovered := isGrained_endlessText.isCovered
  have hspelled := rulesFor_endlessText
  -- These two facts are all that is needed of the text, which is not to be read again.
  generalize (Grammar.load endlessText none .empty).2 = rules at hcovered hspelled ⊢
  rcases hspelled with ⟨rule, hrules, hguard, hcontent⟩
  exact runWithin_of_rulesFor hcovered hrules hguard rfl hcontent
    (Script.yieldsDraws_singleton Binary64.isDraw_zero) rfl hless ⟨.empty, []⟩

/-- With a limit of four hundred, a run on this grammar uses up the room that an interpreter
    has, and fails in none of the declared ways. -/
theorem run_fails_undeclared :
    let engine : Engine Script := ⟨some 400, Script.ofList [0], {}⟩
    let rules := (Grammar.load endlessText none .empty).2
    let outcome :=
      (engine.runWithin stackLevels rules ⟨.empty, []⟩ { tag := Tag.parse "root" }).1
    engine.maxDepth = some 400 ∧ Grammar.Loaded rules ∧ outcome = .error .outOfFuel ∧
      ¬ ((∃ text, outcome = .ok text) ∨ (∃ e, outcome = .error (.evaluation e)) ∨
        (∃ tag, outcome = .error (.tooDeep 400 tag)) ∨
        ∃ total, outcome = .error (.nothingChosen total)) := by
  intro engine rules outcome
  have houtcome : outcome = .error .outOfFuel :=
    runWithin_endlessText (show stackLevels < 400 by decide)
  refine ⟨rfl, .load endlessText none .empty .empty, houtcome, ?_⟩
  rw [houtcome]
  rintro (⟨_, h⟩ | ⟨_, h⟩ | ⟨_, h⟩ | ⟨_, h⟩) <;> cases h

end Engine

end TextGrammar
