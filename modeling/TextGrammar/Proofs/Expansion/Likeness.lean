import TextGrammar.Proofs.Expansion.Account

/-!
# Likeness

What a run takes notice of in the rules that it does not use.

A search reads the priorities, the labels and the guards of rules, and a choice by a
draw their frequencies and their order. Two rule sets whose rules look alike in these
respects, tag by tag and in the same order, therefore have candidates that look alike,
and a draw stands for the same place among them. Only then are the template and the
watchers of a rule read, those of the chosen one.

Which rules are used is known from the run alone. A chooser can note them without any
effect on what it chooses: the notes are part of the source of draws, and are only
ever added to. So a run on one set that notes its rules is followed, step by step, by a
run on the other one, as long as the rules that it notes have the same template and
watchers there.

## Main definitions

* `RegisteredRule.LooksLike`: What searches and choices read of two rules is the same.
* `SameResult`: Results that are related, or fail for the same reason.
* `Candidates.Alike`: Candidates that are related one by one, with the same sum.
* `RuleSet.Alike`: Rule sets that are related so, tag by tag, by rules that look alike.
* `Chooser.noting`: A chooser that also notes what it has chosen.
* `Engine.firedRules`: The rules that a run uses, in order.
* `KeepsBody`: Related rules have the template and the watchers of a rule.

## Theorems

* `Candidates.search_alike`, `Candidates.find_alike`: Candidates among rules that look
  alike.
* `Chooser.weighted_alike`: A draw stands for the same place among them.
* `Setup.notes_of_course`: As many rules are noted as the metrics count.
* `Setup.forget_of_course`: An expansion follows one that notes its rules.
* `Engine.runWith_alike`: Runs on rule sets that differ in rules that are not used.
-/

namespace TextGrammar

variable {σ : Type} {R : RegisteredRule → RegisteredRule → Prop}

/-- Two rules look alike to searches and choices. Their templates, their watchers and
    their numbers may differ. -/
structure RegisteredRule.LooksLike (a b : RegisteredRule) : Prop where
  priority_eq : a.priority = b.priority
  minPriority_eq : a.minPriority = b.minPriority
  frequency_eq : a.frequency = b.frequency
  guard_eq : a.guard = b.guard
  hashtags_eq : a.hashtags = b.hashtags

theorem RegisteredRule.LooksLike.of_eq {a b : RegisteredRule} (h : a = b) : a.LooksLike b := by
  subst h
  exact ⟨rfl, rfl, rfl, rfl, rfl⟩

/-- Every rule that is related to a rule has its template and its watchers. -/
def KeepsBody (R : RegisteredRule → RegisteredRule → Prop) (rule : RegisteredRule) : Prop :=
  ∀ other, R rule other → other.content = rule.content ∧ other.watchers = rule.watchers

/-- Two results are related, or failures for the same reason. -/
def SameResult {ε α β : Type} (S : α → β → Prop) : Except ε α → Except ε β → Prop
  | .ok a, .ok b => S a b
  | .error e, .error e' => e = e'
  | _, _ => False

namespace SameResult

variable {ε α β : Type} {S : α → β → Prop}

theorem eq_error {e : ε} {y : Except ε β} (h : SameResult S (.error e) y) : y = .error e := by
  cases y with
  | error e' => exact congrArg Except.error (Eq.symm h)
  | ok b => exact absurd h id

theorem exists_ok {a : α} {y : Except ε β} (h : SameResult S (.ok a) y) :
    ∃ b, y = .ok b ∧ S a b := by
  cases y with
  | error e' => exact absurd h id
  | ok b => exact ⟨b, rfl, h⟩

end SameResult

/-- Candidates are related one by one, and their frequencies have the same sum. -/
structure Candidates.Alike (R : RegisteredRule → RegisteredRule → Prop)
    (found other : Candidates) : Prop where
  rules : List.Forall₂ R found.rules other.rules
  totalFrequency_eq : found.totalFrequency = other.totalFrequency

/-- The rules of each tag are related one by one, and related rules look alike. -/
structure RuleSet.Alike (R : RegisteredRule → RegisteredRule → Prop) (first second : RuleSet) :
    Prop where
  looksLike : ∀ a b, R a b → a.LooksLike b
  rulesFor : ∀ tag, List.Forall₂ R (first.rulesFor tag) (second.rulesFor tag)

theorem RuleSet.alike_self (rules : RuleSet) : RuleSet.Alike (· = ·) rules rules where
  looksLike := fun _ _ => RegisteredRule.LooksLike.of_eq
  rulesFor := fun _ => List.forall₂_same.2 fun _ _ => rfl

namespace Candidates

/-- A search goes the same way through rules that look alike. -/
theorem search_alike (hlike : ∀ a b, R a b → a.LooksLike b) (ref : Reference)
    (data : Namespace) (floor : Option Int) {first second : List RegisteredRule}
    (h : List.Forall₂ R first second) :
    SameResult (List.Forall₂ R) (search ref data floor first)
      (search ref data floor second) := by
  induction h generalizing floor with
  | nil => exact List.Forall₂.nil
  | @cons a b rest others hab _ ih =>
      have hsame := hlike a b hab
      have haccepts : ref.accepts a.toRule = ref.accepts b.toRule := by
        unfold Reference.accepts
        rw [hsame.hashtags_eq]
      have hfires : a.canFire data = b.canFire data := by
        unfold Rule.canFire
        rw [hsame.guard_eq]
      -- All that the search asks of the first rule has the same answer for the other one.
      rw [search, search, hsame.priority_eq, hsame.minPriority_eq, haccepts, hfires]
      by_cases hbelow : isBelow b.priority floor = true
      · rw [if_pos hbelow, if_pos hbelow]
        exact List.Forall₂.nil
      · rw [if_neg hbelow, if_neg hbelow]
        split
        · exact ih floor
        · cases b.canFire data with
          | error e => exact rfl
          | ok fires =>
              cases fires with
              | false => exact ih floor
              | true =>
                  -- Both are candidates, and the rest is searched above the same floor.
                  have hrest := ih (some (raise floor b.minPriority))
                  cases hfound : search ref data (some (raise floor b.minPriority)) rest with
                  | error e =>
                      rw [hfound] at hrest
                      rw [hrest.eq_error]
                      exact rfl
                  | ok found =>
                      rw [hfound] at hrest
                      rcases hrest.exists_ok with ⟨other, hother, hmore⟩
                      rw [hother]
                      exact List.Forall₂.cons hab hmore

/-- Rules that look alike have the same sum of frequencies. -/
theorem total_alike (hlike : ∀ a b, R a b → a.LooksLike b) {first second : List RegisteredRule}
    (h : List.Forall₂ R first second) :
    WeightedChoice.total (fun r => r.frequency) first =
      WeightedChoice.total (fun r => r.frequency) second := by
  have hfold : ∀ sum : Binary64, first.foldl (fun sum r => sum + r.frequency) sum =
      second.foldl (fun sum r => sum + r.frequency) sum := by
    induction h with
    | nil => exact fun sum => rfl
    | cons hab _ ih =>
        intro sum
        rw [List.foldl_cons, List.foldl_cons, (hlike _ _ hab).frequency_eq]
        exact ih _
  exact hfold 0

/-- The same rest is covered by rules that look alike. -/
theorem pick_alike (hlike : ∀ a b, R a b → a.LooksLike b) (left : Binary64)
    {first second : List RegisteredRule} (h : List.Forall₂ R first second) :
    Option.Rel R (WeightedChoice.pick (fun r => r.frequency) left first)
      (WeightedChoice.pick (fun r => r.frequency) left second) := by
  induction h generalizing left with
  | nil => exact .none
  | @cons a b rest others hab _ ih =>
      rw [WeightedChoice.pick, WeightedChoice.pick, (hlike a b hab).frequency_eq]
      split
      · exact .some hab
      · exact ih _

/-- The candidates in sets whose rules look alike. -/
theorem find_alike {first second : RuleSet} (h : RuleSet.Alike R first second) (ref : Reference)
    (data : Namespace) :
    SameResult (Alike R) (find first ref data) (find second ref data) := by
  have hsearch := search_alike h.looksLike ref data none (h.rulesFor ref.tag)
  unfold find
  cases hfound : search ref data none (first.rulesFor ref.tag) with
  | error e =>
      rw [hfound] at hsearch
      rw [hsearch.eq_error]
      exact rfl
  | ok found =>
      rw [hfound] at hsearch
      rcases hsearch.exists_ok with ⟨other, hother, hrules⟩
      rw [hother]
      exact ⟨hrules, total_alike h.looksLike hrules⟩

end Candidates

/-- A draw stands for the same place among candidates that look alike. -/
theorem Chooser.weighted_alike [DrawSource σ] (hlike : ∀ a b, R a b → a.LooksLike b)
    {found other : Candidates} (h : found.Alike R other) (source : σ) :
    Option.Rel R ((Chooser.weighted : Chooser σ) found source).1 (Chooser.weighted other source).1 ∧
      ((Chooser.weighted : Chooser σ) found source).2 = (Chooser.weighted other source).2 := by
  refine ⟨?_, rfl⟩
  have hpick := Candidates.pick_alike hlike
    ((DrawSource.next source).1 * found.totalFrequency) h.rules
  rw [h.totalFrequency_eq] at hpick
  change Option.Rel R (WeightedChoice.pick _ _ _) (WeightedChoice.pick _ _ _)
  rw [h.totalFrequency_eq]
  exact hpick

/-- A chooser that notes what it has chosen behind what it noted before. -/
def Chooser.noting (chooser : Chooser σ) : Chooser (σ × List RegisteredRule) where
  choose found source :=
    ((chooser found source.1).1, (chooser found source.1).2,
      source.2 ++ (chooser found source.1).1.toList)
  mem_of_choose found source rule h := chooser.mem_of_choose found source.1 rule h

/-- A state without the notes. -/
def Progress.forget (p : Progress (σ × List RegisteredRule)) : Progress σ :=
  ⟨p.scene, p.source.1, p.metrics⟩

namespace Setup

variable {rules first second : RuleSet} {maxDepth : Option Nat} {fuel depth : Nat}
  {ref : Reference} {p q : Progress (σ × List RegisteredRule)}

/-- A selection notes the rule that it finds. -/
theorem notes_of_selects {chooser : Chooser σ}
    {outcome : Except ExpansionError (Option RegisteredRule)}
    (h : Selects ⟨rules, maxDepth, chooser.noting⟩ depth ref p outcome q) :
    match outcome with
    | .ok (some rule) => q.source.2 = p.source.2 ++ [rule]
    | _ => q.source.2 = p.source.2 := by
  have hnotes : ∀ found choice source, chooser.noting found p.source = (choice, source) →
      source.2 = p.source.2 ++ choice.toList := by
    intro found choice source hchoose
    rcases Prod.mk.inj hchoose with ⟨rfl, rfl⟩
    rfl
  cases h with
  | malformed => rfl
  | unmatched => rfl
  | refused => rfl
  | missed found source _ _ _ hchoose =>
      have hsource := hnotes found none source hchoose
      rw [Option.toList_none, List.append_nil] at hsource
      exact hsource
  | chosen found rule source _ _ _ hchoose => exact hnotes found (some rule) source hchoose

/-- An expansion notes as many rules as the metrics count, behind those noted before. -/
theorem notes_of_course {chooser : Chooser σ} {subject : Subject}
    {outcome : Except ExpansionError String} {events : List Event}
    (h : Course ⟨rules, maxDepth, chooser.noting⟩ fuel depth subject p outcome events q) :
    ∃ noted, q.source.2 = p.source.2 ++ noted ∧
      q.metrics.totalFired = p.metrics.totalFired + noted.length := by
  induction h with
  | text fuel depth s p => exact ⟨[], (List.append_nil _).symm, rfl⟩
  | lookup fuel depth key chain p opened text hopened htext =>
      subst hopened
      exact ⟨[], (List.append_nil _).symm, rfl⟩
  | foreign fuel depth given p => exact ⟨[], (List.append_nil _).symm, rfl⟩
  | failed fuel depth ref p q e hselect =>
      have hnotes : q.source.2 = p.source.2 := notes_of_selects hselect
      have haccount : Account _ 0 0 (.error e) p q := account_of_selects hselect
      exact ⟨[], by rw [hnotes, List.append_nil], haccount.fired_eq⟩
  | unmatched fuel depth ref p q hselect =>
      have hnotes : q.source.2 = p.source.2 := notes_of_selects hselect
      have haccount : Account _ 1 0 (.ok ref.tag.toText) p q := account_of_selects hselect
      exact ⟨[], by rw [hnotes, List.append_nil], haccount.fired_eq⟩
  -- A selected rule is noted even if there is no fuel left to use it.
  | exhausted depth ref p q rule hselect =>
      have haccount : Account _ 0 1 (.ok "") p q := account_of_selects hselect
      exact ⟨[rule], notes_of_selects hselect, haccount.fired_eq⟩
  | fired fuel depth ref p q r rule outcome inner target events hselect _ _ _ ih =>
      -- The rule is noted first, and those of its template behind it.
      have hnotes : q.source.2 = p.source.2 ++ [rule] := notes_of_selects hselect
      have haccount : Account _ 0 1 (.ok "") p q := account_of_selects hselect
      have hfired := haccount.fired_eq
      rcases ih with ⟨noted, hcontent, hcount⟩
      refine ⟨rule :: noted, ?_, ?_⟩
      · refine hcontent.trans ?_
        change q.source.2 ++ noted = _
        rw [hnotes, List.append_assoc, List.singleton_append]
      · change r.metrics.totalFired = _
        change _ = q.metrics.totalFired + _ at hcount
        rw [List.length_cons]
        omega
  | nil fuel depth p => exact ⟨[], (List.append_nil _).symm, rfl⟩
  | cons fuel depth item rest p q r text outcome events more _ _ ihitem ihrest =>
      rcases ihitem with ⟨noted, hitem, hcount⟩
      rcases ihrest with ⟨later, hrest, hmore⟩
      refine ⟨noted ++ later, by rw [hrest, hitem, List.append_assoc], ?_⟩
      rw [List.length_append]
      omega
  | stop fuel depth item rest p q e events _ ih => exact ih

/-- What was noted before an expansion is still noted after it. -/
theorem mem_notes_of_course {chooser : Chooser σ} {subject : Subject}
    {outcome : Except ExpansionError String} {events : List Event}
    (h : Course ⟨rules, maxDepth, chooser.noting⟩ fuel depth subject p outcome events q)
    {rule : RegisteredRule} (hrule : rule ∈ p.source.2) : rule ∈ q.source.2 := by
  rcases notes_of_course h with ⟨noted, hnotes, _⟩
  rw [hnotes]
  exact List.mem_append_left noted hrule

section

variable [DrawSource σ]

/-- Among candidates that look alike, a choice follows one that notes what it chooses. -/
theorem choose_of_noting (hlike : ∀ a b, R a b → a.LooksLike b) {found other : Candidates}
    (h : found.Alike R other) {source next : σ × List RegisteredRule}
    {choice : Option RegisteredRule}
    (hchoose : Chooser.weighted.noting found source = (choice, next)) :
    ∃ choice', Option.Rel R choice choice' ∧
      Chooser.weighted other source.1 = (choice', next.1) := by
  rcases Prod.mk.inj hchoose with ⟨rfl, rfl⟩
  rcases Chooser.weighted_alike hlike h source.1 with ⟨hrel, hsource⟩
  exact ⟨_, hrel, Prod.ext rfl hsource.symm⟩

/-- A selection follows one that notes its rule, among rules that look alike. -/
theorem forget_of_selects (halike : RuleSet.Alike R first second)
    {outcome : Except ExpansionError (Option RegisteredRule)}
    (h : Selects ⟨first, maxDepth, Chooser.weighted.noting⟩ depth ref p outcome q) :
    ∃ other, SameResult (Option.Rel R) outcome other ∧
      Selects ⟨second, maxDepth, Chooser.weighted⟩ depth ref p.forget other q.forget := by
  have hfind := Candidates.find_alike halike ref p.scene.data
  have hne : ∀ {found other : Candidates}, found.Alike R other → found.rules ≠ [] →
      other.rules ≠ [] := by
    intro found other hsame hne hnil
    have hrules := hsame.rules
    rw [hnil, List.forall₂_nil_right_iff] at hrules
    exact hne hrules
  -- The second search has the result of the first one, and there is a candidate in both or in
  -- none. So the second selection goes the same way as the first.
  cases h with
  | malformed e he =>
      rw [he] at hfind
      exact ⟨.error (.evaluation e), rfl, .malformed e hfind.eq_error⟩
  | unmatched found hfound hnil =>
      rw [hfound] at hfind
      rcases hfind.exists_ok with ⟨other, hother, hsame⟩
      have hrules := hsame.rules
      rw [hnil, List.forall₂_nil_left_iff] at hrules
      exact ⟨.ok none, .none, .unmatched other hother hrules⟩
  | refused found limit hfound hsome hdeep =>
      rw [hfound] at hfind
      rcases hfind.exists_ok with ⟨other, hother, hsame⟩
      exact ⟨.error (.tooDeep limit ref.tag), rfl,
        .refused other limit hother (hne hsame hsome) hdeep⟩
  | missed found source hfound hsome hroom hchoose =>
      rw [hfound] at hfind
      rcases hfind.exists_ok with ⟨other, hother, hsame⟩
      rcases choose_of_noting halike.looksLike hsame hchoose with ⟨choice, hrel, hchoose⟩
      cases hrel
      refine ⟨.error (.nothingChosen other.totalFrequency), ?_, ?_⟩
      · exact congrArg ExpansionError.nothingChosen hsame.totalFrequency_eq
      · exact .missed other source.1 hother (hne hsame hsome) hroom hchoose
  | chosen found rule source hfound hsome hroom hchoose =>
      rw [hfound] at hfind
      rcases hfind.exists_ok with ⟨other, hother, hsame⟩
      rcases choose_of_noting halike.looksLike hsame hchoose with ⟨choice, hrel, hchoose⟩
      cases hrel with
      | @some _ rule' hrule =>
          exact ⟨.ok (some rule'), .some hrule,
            .chosen other rule' source.1 hother (hne hsame hsome) hroom hchoose⟩

/-- If a rule is selected and noted, a related one is selected. -/
theorem forget_of_selects_some (halike : RuleSet.Alike R first second)
    {rule : RegisteredRule}
    (h : Selects ⟨first, maxDepth, Chooser.weighted.noting⟩ depth ref p (.ok (some rule)) q) :
    ∃ other, R rule other ∧
      Selects ⟨second, maxDepth, Chooser.weighted⟩ depth ref p.forget (.ok (some other))
        q.forget := by
  rcases forget_of_selects halike h with ⟨outcome, hsame, hother⟩
  rcases hsame.exists_ok with ⟨choice, rfl, hrel⟩
  cases hrel with
  | @some _ other hrule => exact ⟨other, hrule, hother⟩

/-- An expansion follows one that notes its rules, among rules that look alike, if those
    that are noted have the same template and watchers. -/
theorem forget_of_course (halike : RuleSet.Alike R first second)
    {subject : Subject} {outcome : Except ExpansionError String} {events : List Event}
    (h : Course ⟨first, maxDepth, Chooser.weighted.noting⟩ fuel depth subject p outcome events q)
    (hbody : ∀ rule ∈ q.source.2, KeepsBody R rule) :
    Course ⟨second, maxDepth, Chooser.weighted⟩ fuel depth subject p.forget outcome events
      q.forget := by
  induction h with
  | text fuel depth s p => exact .text fuel depth s p.forget
  | lookup fuel depth key chain p opened text hopened htext =>
      subst hopened
      exact .lookup fuel depth key chain p.forget _ text rfl htext
  | foreign fuel depth given p => exact .foreign fuel depth given p.forget
  | failed fuel depth ref p q e hselect =>
      rcases forget_of_selects halike hselect with ⟨other, hsame, hother⟩
      rw [hsame.eq_error] at hother
      exact .failed fuel depth ref _ _ e hother
  | unmatched fuel depth ref p q hselect =>
      rcases forget_of_selects halike hselect with ⟨other, hsame, hother⟩
      rcases hsame.exists_ok with ⟨choice, rfl, hrel⟩
      cases hrel
      exact .unmatched fuel depth ref _ _ hother
  | exhausted depth ref p q rule hselect =>
      rcases forget_of_selects_some halike hselect with ⟨other, _, hother⟩
      exact .exhausted depth ref _ _ other hother
  | fired fuel depth ref p q r rule outcome inner target events hselect htarget hcontent hinner
      ih =>
      rcases forget_of_selects_some halike hselect with ⟨other, hrule, hother⟩
      -- The rule was noted when it was selected, and the notes are kept ever since.
      have hnotes : q.source.2 = p.source.2 ++ [rule] := notes_of_selects hselect
      have hmem : rule ∈ q.source.2 := by
        rw [hnotes]
        exact List.mem_append_right _ (List.mem_singleton_self rule)
      have hnoted : rule ∈ r.source.2 := mem_notes_of_course hcontent hmem
      rcases hbody rule hnoted other hrule with ⟨htemplate, hwatchers⟩
      have hinside := ih hbody
      rw [← htemplate, ← hwatchers] at hinside
      have hcourse := Course.fired fuel depth ref p.forget q.forget r.forget other outcome
        inner target events hother htarget hinside hinner
      rw [hwatchers] at hcourse
      exact hcourse
  | nil fuel depth p => exact .nil fuel depth p.forget
  | cons fuel depth item rest p q r text outcome events more _ hrest ihitem ihrest =>
      have hfirst := ihitem fun rule hrule => hbody rule (mem_notes_of_course hrest hrule)
      exact .cons fuel depth item rest _ q.forget _ text outcome events more hfirst (ihrest hbody)
  | stop fuel depth item rest p q e events _ ih =>
      exact .stop fuel depth item rest _ _ e events (ih hbody)

end

end Setup

namespace Engine

/-- An engine that has noted nothing yet. -/
def noting (engine : Engine σ) : Engine (σ × List RegisteredRule) :=
  ⟨engine.maxDepth, (engine.source, []), engine.metrics⟩

/-- The rules that a run uses, in order. -/
def firedRules (chooser : Chooser σ) (fuel : Nat) (engine : Engine σ) (rules : RuleSet)
    (scene : Scene) (root : Reference) : List RegisteredRule :=
  (engine.noting.runWith chooser.noting fuel rules scene root).2.2.source.2

/-- A run that notes the rules it uses has a course, at whose end they are noted. -/
theorem exists_noting (chooser : Chooser σ) (fuel : Nat) (engine : Engine σ) (rules : RuleSet)
    (scene : Scene) (root : Reference) :
    ∃ outcome events q, Setup.Course ⟨rules, engine.maxDepth, chooser.noting⟩ fuel 0
        (.piece (.reference root)) ⟨scene, (engine.source, []), engine.metrics⟩ outcome events q ∧
      engine.firedRules chooser fuel rules scene root = q.source.2 := by
  rcases course_runWith chooser.noting fuel engine.noting rules scene root with
    ⟨outcome, events, q, hcourse, hresult⟩
  exact ⟨outcome, events, q, hcourse, congrArg (·.2.2.source.2) hresult⟩

variable [DrawSource σ] {first second : RuleSet} {fuel : Nat} {engine : Engine σ} {scene : Scene}
  {root : Reference}

/-- A run follows one that notes its rules, among rules that look alike, if those that are
    noted have the same template and watchers. -/
theorem runWith_of_noting (halike : RuleSet.Alike R first second)
    {outcome : Except ExpansionError String} {events : List Event}
    {q : Progress (σ × List RegisteredRule)}
    (h : Setup.Course ⟨first, engine.maxDepth, Chooser.weighted.noting⟩ fuel 0
      (.piece (.reference root)) ⟨scene, (engine.source, []), engine.metrics⟩ outcome events q)
    (hbody : ∀ rule ∈ q.source.2, KeepsBody R rule) :
    engine.runWith Chooser.weighted fuel second scene root =
      finish engine.maxDepth (outcome, q.forget) := by
  have hcourse : Setup.Course ⟨second, engine.maxDepth, Chooser.weighted⟩ fuel 0
      (.piece (.reference root)) ⟨scene, engine.source, engine.metrics⟩ outcome events q.forget :=
    Setup.forget_of_course halike h hbody
  rw [runWith_eq, Setup.run_of_course hcourse]

/-- In particular, a run is the same without the notes. -/
theorem runWith_of_noting_self {rules : RuleSet} {outcome : Except ExpansionError String}
    {events : List Event} {q : Progress (σ × List RegisteredRule)}
    (h : Setup.Course ⟨rules, engine.maxDepth, Chooser.weighted.noting⟩ fuel 0
      (.piece (.reference root)) ⟨scene, (engine.source, []), engine.metrics⟩ outcome events q) :
    engine.runWith Chooser.weighted fuel rules scene root =
      finish engine.maxDepth (outcome, q.forget) := by
  refine runWith_of_noting rules.alike_self h ?_
  intro rule _ other heq
  subst heq
  exact ⟨rfl, rfl⟩

/-- Runs are the same on two sets whose rules look alike, if the rules that the first run
    uses have the same template and watchers in the second set. -/
theorem runWith_alike (halike : RuleSet.Alike R first second)
    (hbody : ∀ rule ∈ engine.firedRules Chooser.weighted fuel first scene root,
      KeepsBody R rule) :
    engine.runWith Chooser.weighted fuel second scene root =
      engine.runWith Chooser.weighted fuel first scene root := by
  rcases exists_noting Chooser.weighted fuel engine first scene root with
    ⟨outcome, events, q, hcourse, hnoted⟩
  rw [hnoted] at hbody
  have hsecond := runWith_of_noting halike hcourse hbody
  exact hsecond.trans (runWith_of_noting_self hcourse).symm

end Engine

end TextGrammar
