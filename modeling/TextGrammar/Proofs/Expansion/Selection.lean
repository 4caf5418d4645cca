import TextGrammar.Grammar.Load
import TextGrammar.Proofs.Expansion.Course
import TextGrammar.Proofs.RoundedChoice

/-!
# Selection by Draws

When no run misses all candidates of a reference.

A rule set is covered when, for every reference and all data, the candidates that
are found have a finite sum of frequencies and the greatest draw reaches one of
them. A run on a covered set never ends in a choice without result, whatever it
draws: each of its choices is one among such candidates, with a number that its
source yields, and the source goes on yielding draws. A set that is not covered
has a run that does end so, which is the run from the reference in question with
the same draw over and over.

A set is not covered as soon as two rules of one tag can be candidates together
whose frequencies add up to infinity, or one rule whose frequency is infinite or
not a number. It need not be covered either when all sums are finite, as three
candidates with the frequencies 0.4, 0.8 and 0.3 show. Frequencies that are whole
multiples of one power of two are safe up to 2 ^ 53 times that power, which takes in all
sets of rules without frequencies of their own.

## Main definitions

* `DrawSource.YieldsDraws`: A source all of whose numbers lie from zero up to one.
* `RuleSet.IsCovered`: No candidates can be missed.
* `RuleSet.IsGrained`: The frequencies for each tag have exact sums.
* `Missed`: An outcome that a choice without result has caused.

## Theorems

* `RuleSet.isGrained_of_forall_frequency_eq_one`: Rules of the default frequency have
  exact sums.
* `Setup.yieldsDraws_of_course`: An expansion leaves a source of draws.
* `Setup.not_missed_of_course`: It does not miss covered candidates.
* `Engine.run_chooses_iff_isCovered`: The sets on which no run misses.
* `Engine.run_misses`: Two grammars on which runs do.
-/

namespace TextGrammar

open Binary64

namespace DrawSource

variable {σ : Type} [DrawSource σ]

/-- The number that a source yields after some others. -/
def drawAfter : Nat → σ → Binary64
  | 0, source => (next source).1
  | n + 1, source => drawAfter n (next source).2

/-- All numbers of a source lie from zero up to but not including one. -/
def YieldsDraws (source : σ) : Prop := ∀ n, (drawAfter n source).IsDraw

theorem YieldsDraws.next {source : σ} (h : YieldsDraws source) :
    (DrawSource.next source).1.IsDraw ∧ YieldsDraws (DrawSource.next source).2 :=
  ⟨h 0, fun n => h (n + 1)⟩

end DrawSource

open DrawSource

theorem Script.next_singleton (draw : Binary64) (used : Nat) :
    DrawSource.next (Script.mk [draw] used) = (draw, ⟨[draw], used + 1⟩) := by
  have hplace : used % [draw].length = 0 := Nat.mod_one used
  change (([draw][used % [draw].length]?).getD 0, _) = _
  rw [hplace]
  rfl

/-- A script of one draw yields it over and over. -/
theorem Script.yieldsDraws_singleton {draw : Binary64} (hdraw : draw.IsDraw) :
    YieldsDraws (Script.ofList [draw]) := by
  have hall : ∀ n used, drawAfter n (Script.mk [draw] used) = draw := by
    intro n
    induction n with
    | zero =>
        intro used
        rw [drawAfter, Script.next_singleton]
    | succ n ih =>
        intro used
        rw [drawAfter, Script.next_singleton]
        exact ih (used + 1)
  intro n
  rw [Script.ofList, hall]
  exact hdraw

namespace RuleSet

/-- The candidates for any reference and data, if there are some, are covered. -/
def IsCovered (rules : RuleSet) : Prop :=
  ∀ ref data found, Candidates.find rules ref data = .ok found → found.rules ≠ [] →
    found.IsCovered

/-- The frequencies of the rules for each tag are whole multiples of one power of two,
    no more than 2 ^ 53 of them together. -/
def IsGrained (rules : RuleSet) : Prop :=
  ∀ tag, ∃ grain, WeightedChoice.IsGrained (fun rule => rule.frequency) grain (rules.rulesFor tag)

/-- Rules that all have the frequency one have exact sums, up to 2 ^ 53 rules. -/
theorem isGrained_of_forall_frequency_eq_one {rules : RuleSet}
    (hone : ∀ rule ∈ rules.toList, rule.frequency = 1) (hsize : rules.size ≤ Nat.pow 2 53) :
    rules.IsGrained := by
  intro tag
  refine ⟨Number.unitExponent, WeightedChoice.isGrained_of_forall_eq_one (fun rule hrule => ?_) ?_⟩
  · exact hone rule ((rules.mem_rulesFor tag rule).1 hrule).1
  · rw [← rules.filter_tag_toList]
    exact (List.length_filter_le _ _).trans hsize

/-- Candidates with exact sums are covered, and they are some of the rules for a tag. -/
theorem IsGrained.isCovered {rules : RuleSet} (h : rules.IsGrained) : rules.IsCovered := by
  intro ref data found hfind hne
  rcases h ref.tag with ⟨grain, hgrain⟩
  rcases Candidates.eq_ofList_of_find hfind with ⟨heq, hsub⟩
  refine (Candidates.isCovered_iff hfind).2 fun draw hdraw => ?_
  rw [heq]
  exact WeightedChoice.choose_ne_none_of_isGrained hne (fun rule _ => rule.frequency_nonneg)
    (hgrain.of_sublist hsub) hdraw

end RuleSet

variable {σ : Type}

/-- An outcome that a choice without result has caused. -/
def Missed : Except ExpansionError String → Prop
  | .error (.nothingChosen _) => True
  | _ => False

instance : (outcome : Except ExpansionError String) → Decidable (Missed outcome)
  | .error (.nothingChosen _) => .isTrue trivial
  | .ok _ => .isFalse id
  | .error (.evaluation _) => .isFalse id
  | .error (.tooDeep _ _) => .isFalse id
  | .error (.foreignItem _) => .isFalse id
  | .error .undefinedNumeric => .isFalse id
  | .error .outOfFuel => .isFalse id

/-- The calls of watchers do not miss candidates. -/
theorem Chain.not_missed_finish (chain : Chain) {outcome : Except ExpansionError String}
    (h : ¬ Missed outcome) : ¬ Missed (chain.finish outcome) := by
  cases outcome with
  | error e => exact h
  | ok text =>
      unfold finish
      dsimp only
      split <;> exact id

namespace Setup

section

variable [DrawSource σ] {setup : Setup σ} {depth : Nat} {ref : Reference} {p q : Progress σ}

/-- A selection takes a number off a source of draws or leaves it alone. -/
theorem yieldsDraws_of_selects (hweighted : setup.chooser = Chooser.weighted)
    {outcome : Except ExpansionError (Option RegisteredRule)}
    (h : Selects setup depth ref p outcome q) (hdraws : YieldsDraws p.source) :
    YieldsDraws q.source := by
  have htaken : ∀ found choice source, setup.chooser found p.source = (choice, source) →
      YieldsDraws source := by
    intro found choice source hchoose
    rw [hweighted] at hchoose
    exact (Prod.mk.inj hchoose).2 ▸ hdraws.next.2
  cases h with
  | malformed => exact hdraws
  | unmatched => exact hdraws
  | refused => exact hdraws
  | missed found source _ _ _ hchoose => exact htaken found none source hchoose
  | chosen found rule source _ _ _ hchoose => exact htaken found (some rule) source hchoose

/-- A selection by a draw does not miss covered candidates. -/
theorem not_missed_of_selects (hweighted : setup.chooser = Chooser.weighted)
    (hcovered : setup.rules.IsCovered) {e : ExpansionError}
    (h : Selects setup depth ref p (.error e) q) (hdraws : YieldsDraws p.source) :
    ¬ Missed (.error e) := by
  cases h with
  | malformed => exact id
  | refused => exact id
  | missed found source hfind hne _ hchoose =>
      rw [hweighted] at hchoose
      have hcover := (Candidates.isCovered_iff hfind).1 (hcovered ref p.scene.data found hfind hne)
      exact absurd (Prod.mk.inj hchoose).1 (hcover _ hdraws.next.1)

end

variable [DrawSource σ] {setup : Setup σ} {fuel depth : Nat} {subject : Subject}
  {p q : Progress σ} {outcome : Except ExpansionError String} {events : List Event}

/-- An expansion leaves a source of draws. -/
theorem yieldsDraws_of_course (hweighted : setup.chooser = Chooser.weighted)
    (h : setup.Course fuel depth subject p outcome events q) (hdraws : YieldsDraws p.source) :
    YieldsDraws q.source := by
  induction h with
  | text => exact hdraws
  | lookup fuel depth key chain p opened text hopened htext =>
      subst hopened
      exact hdraws
  | foreign => exact hdraws
  | failed _ _ _ _ _ _ hselect => exact yieldsDraws_of_selects hweighted hselect hdraws
  | unmatched _ _ _ _ _ hselect => exact yieldsDraws_of_selects hweighted hselect hdraws
  | exhausted _ _ _ _ _ hselect => exact yieldsDraws_of_selects hweighted hselect hdraws
  | fired _ _ _ _ _ _ _ _ _ _ _ hselect _ _ _ ih =>
      have hselected := yieldsDraws_of_selects hweighted hselect hdraws
      exact ih hselected
  | nil => exact hdraws
  | cons _ _ _ _ _ _ _ _ _ _ _ _ _ ihitem ihrest => exact ihrest (ihitem hdraws)
  | stop _ _ _ _ _ _ _ _ _ ih => exact ih hdraws

/-- An expansion with draws does not miss covered candidates. -/
theorem not_missed_of_course (hweighted : setup.chooser = Chooser.weighted)
    (hcovered : setup.rules.IsCovered)
    (h : setup.Course fuel depth subject p outcome events q) (hdraws : YieldsDraws p.source) :
    ¬ Missed outcome := by
  induction h with
  | text => exact id
  | lookup _ _ _ chain => exact chain.not_missed_finish id
  | foreign => exact id
  | failed _ _ _ _ _ _ hselect =>
      exact not_missed_of_selects hweighted hcovered hselect hdraws
  | unmatched => exact id
  | exhausted => exact id
  | fired _ _ ref _ _ _ rule _ _ _ _ hselect _ _ hinner ih =>
      subst hinner
      have hselected := yieldsDraws_of_selects hweighted hselect hdraws
      exact rule.watchers.not_missed_finish (ref.watchers.not_missed_finish (ih hselected))
  | nil => exact id
  | cons _ _ _ _ _ _ _ text outcome _ _ hitem _ _ ihrest =>
      have hrest := ihrest (yieldsDraws_of_course hweighted hitem hdraws)
      cases outcome with
      | error e => exact hrest
      | ok more => exact id
  | stop _ _ _ _ _ _ _ _ _ ih => exact ih hdraws

end Setup

namespace Engine

/-- A run from a reference whose candidates a draw misses ends in that. -/
theorem run_of_missed {rules : RuleSet} {ref : Reference} {data : Namespace} {found : Candidates}
    {draw : Binary64} (hfind : Candidates.find rules ref data = .ok found)
    (hne : found.rules ≠ []) (hmiss : found.choose draw = none) :
    Missed (Engine.run ⟨none, Script.ofList [draw], {}⟩ rules ⟨data, []⟩ ref).1 := by
  unfold run
  rw [runWith_eq]
  let setup : Setup Script := ⟨rules, none, Chooser.weighted⟩
  let p : Progress Script := ⟨⟨data, []⟩, Script.ofList [draw], {}⟩
  have hchoose : setup.chooser found p.source = (none, ⟨[draw], 1⟩) := by
    change (let (taken, rest) := DrawSource.next (Script.mk [draw] 0)
      (found.choose taken, rest)) = _
    rw [Script.next_singleton]
    exact congrArg (·, _) hmiss
  have hselect := setup.run_of_selects 0 ref p (.missed found _ hfind hne rfl hchoose)
  rw [Setup.run_expand_of_error _ hselect]
  trivial

/-- No draw misses all candidates of a reference exactly if the rules are covered, and
    then no run whose draws all lie from zero up to one does. Rules whose frequencies
    have exact sums are covered. Where sums are rounded, the last of them may be less than
    the scaled draw, or not a finite number, and then there are draws that nothing covers. -/
theorem run_chooses_iff_isCovered (rules : RuleSet) :
    ((∀ ref data found, Candidates.find rules ref data = .ok found → found.rules ≠ [] →
        ∀ draw, IsDraw draw → found.choose draw ≠ none) ↔ rules.IsCovered) ∧
    ((∀ (σ : Type) [DrawSource σ] (engine : Engine σ) (scene : Scene) (root : Reference),
        YieldsDraws engine.source → ¬ Missed (engine.run rules scene root).1) ↔
      rules.IsCovered) ∧
    (rules.IsGrained → rules.IsCovered) := by
  have hchoices : (∀ ref data found, Candidates.find rules ref data = .ok found →
      found.rules ≠ [] → ∀ draw, IsDraw draw → found.choose draw ≠ none) ↔ rules.IsCovered := by
    refine forall₃_congr fun ref data found => forall₂_congr fun hfind _ => ?_
    exact (Candidates.isCovered_iff hfind).symm
  refine ⟨hchoices, ⟨fun h => ?_, fun hcovered => ?_⟩, RuleSet.IsGrained.isCovered⟩
  · -- A draw that misses candidates is taken over and over.
    refine hchoices.1 fun ref data found hfind hne draw hdraw hmiss => ?_
    exact h Script ⟨none, Script.ofList [draw], {}⟩ ⟨data, []⟩ ref
      (Script.yieldsDraws_singleton hdraw) (run_of_missed hfind hne hmiss)
  · intro σ _ engine scene root hdraws
    rcases course_runWith Chooser.weighted (engine.fuel 0) engine rules scene root with
      ⟨outcome, events, q, hcourse, hrun⟩
    rw [run, hrun]
    exact Setup.not_missed_of_course rfl hcovered hcourse hdraws

/-- Three frequencies whose sum, in double precision, is more than they can use up. -/
def driftingText : String :=
  "root (freq=0.4) -> x\nroot (freq=0.8) -> x\nroot (freq=0.3) -> x\n"

/-- Two finite frequencies whose sum is infinite. -/
def overflowingText : String := "root (freq=1e308) -> x\nroot (freq=1e308) -> x\n"

/-- Both grammars load, and runs on them miss all candidates: on the first one with the
    greatest draw, on the second one with one half. -/
theorem run_misses :
    ((Grammar.load driftingText none .empty).1.isOk ∧ belowOne.IsDraw ∧
      Missed (Engine.run ⟨some 100, Script.ofList [belowOne], {}⟩
        (Grammar.load driftingText none .empty).2 ⟨.empty, []⟩ { tag := ⟨"root", none⟩ }).1) ∧
    (Grammar.load overflowingText none .empty).1.isOk ∧ (ofRatio 1 2).IsDraw ∧
      Missed (Engine.run ⟨some 100, Script.ofList [ofRatio 1 2], {}⟩
        (Grammar.load overflowingText none .empty).2 ⟨.empty, []⟩ { tag := ⟨"root", none⟩ }).1 := by
  refine ⟨⟨?_, isDraw_belowOne, ?_⟩, ?_, ?_, ?_⟩
  · decide +kernel
  · decide +kernel
  · decide +kernel
  · decide +kernel
  · decide +kernel

end Engine

end TextGrammar
