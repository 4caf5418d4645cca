import TextGrammar.Proofs.Expansion.Account
import TextGrammar.Proofs.Expansion.Captures

/-!
# Unmatched References

Grammars whose runs leave no tag in brackets.

A reference without labels accepts every rule of its tag, and a rule without a
guard can always be used. Such a rule may still be left out, but only for the sake
of a rule that was found before it: as long as nothing was found there is no floor,
and nothing is below it. So a tag that has a default, a rule without a guard, never
lacks candidates when it is asked for without labels.

If this is so for all tags that a root leads to, it is so for all references of a
run from the root, at any depth and whatever the watchers have made of the
namespace by then. Guards that are malformed make runs fail, but leave no tag in
brackets either.

## Main definitions

* `Item.IsUnlabelled`: A piece asks for no label.
* `RuleSet.HasDefaults`: All tags of a set have a rule without a guard.

## Theorems

* `Candidates.search_ne_nil`: A search over a list with a default finds something.
* `Setup.not_selects_none`: A selection for a tag with a default finds candidates.
* `Setup.unmatched_of_course`: An expansion among such tags leaves none unmatched.
* `Engine.unmatched_runWith`: Neither does a run.
-/

namespace TextGrammar

variable {σ : Type}

/-- A piece asks for no label: if it is a reference, it accepts every rule. -/
def Item.IsUnlabelled : Item → Prop
  | .reference ref => ref.hashtags = []
  | _ => True

/-- Every tag of a set has a rule without a guard. -/
def RuleSet.HasDefaults (rules : RuleSet) (P : Tag → Prop) : Prop :=
  ∀ tag, P tag → ∃ rule ∈ rules.rulesFor tag, rule.guard = none

theorem Reference.accepts_of_unlabelled {ref : Reference} (h : ref.hashtags = []) (rule : Rule) :
    ref.accepts rule = true := by
  rw [accepts, h]
  rfl

/-- A rule that is turned down has a guard. -/
theorem Rule.guard_ne_none_of_canFire {rule : Rule} {data : Namespace}
    (h : rule.canFire data = .ok false) : rule.guard ≠ none := by
  intro hguard
  rw [canFire, hguard] at h
  exact Bool.noConfusion (Except.ok.inj h)

namespace Candidates

/-- A search without a floor over a list with a default finds something, unless it
    fails at a guard. -/
theorem search_ne_nil {ref : Reference} (hlabels : ref.hashtags = []) {data : Namespace}
    {rules found : List RegisteredRule} (hdefault : ∃ rule ∈ rules, rule.guard = none)
    (h : search ref data none rules = .ok found) : found ≠ [] := by
  induction rules with
  | nil =>
      rcases hdefault with ⟨rule, hrule, _⟩
      exact absurd hrule List.not_mem_nil
  | cons first rest ih =>
      have habove : isBelow first.priority none = false := rfl
      have haccepts := Reference.accepts_of_unlabelled hlabels first.toRule
      rw [search, habove, haccepts, if_neg Bool.false_ne_true, Bool.not_true,
        if_neg Bool.false_ne_true] at h
      split at h
      · cases h
      · -- The first rule is not the default, and there is still no floor behind it.
        rename_i hfire
        have hguard := Rule.guard_ne_none_of_canFire hfire
        refine ih ?_ h
        rcases hdefault with ⟨rule, hrule, hnone⟩
        rcases List.mem_cons.1 hrule with rfl | hrule
        · exact absurd hnone hguard
        · exact ⟨rule, hrule, hnone⟩
      · -- From here on there may be a floor, but there is a candidate as well.
        split at h
        · cases h
        · rw [← Except.ok.inj h]
          exact List.cons_ne_nil _ _

/-- A reference without labels to a tag with a default has candidates. -/
theorem find_ne_nil {rules : RuleSet} {ref : Reference} (hlabels : ref.hashtags = [])
    {data : Namespace} {found : Candidates}
    (hdefault : ∃ rule ∈ rules.rulesFor ref.tag, rule.guard = none)
    (h : find rules ref data = .ok found) : found.rules ≠ [] := by
  unfold find at h
  split at h
  · cases h
  · rename_i list hsearch
    have hne := search_ne_nil hlabels hdefault hsearch
    rw [← Except.ok.inj h]
    exact hne

end Candidates

namespace Setup

variable {setup : Setup σ} {P : Tag → Prop} {fuel depth : Nat} {p q : Progress σ}

/-- The selection of a rule for a tag with a default finds candidates. -/
theorem not_selects_none {ref : Reference} (hlabels : ref.hashtags = [])
    (hdefault : ∃ rule ∈ setup.rules.rulesFor ref.tag, rule.guard = none) :
    ¬ Selects setup depth ref p (.ok none) q := by
  intro h
  cases h with
  | unmatched found hfind hnil => exact Candidates.find_ne_nil hlabels hdefault hfind hnil

/-- An expansion among tags with defaults, none of which is asked for with labels,
    leaves no reference unmatched. -/
theorem unmatched_of_course (hclosed : setup.rules.IsClosed P)
    (hdefaults : setup.rules.HasDefaults P)
    (hplain : ∀ tag, P tag → ∀ rule ∈ setup.rules.rulesFor tag, ∀ item ∈ rule.content,
      item.IsUnlabelled)
    {subject : Subject} {outcome : Except ExpansionError String} {events : List Event}
    (h : setup.Course fuel depth subject p outcome events q)
    (hsubject : subject.Forall fun item => item.Within P ∧ item.IsUnlabelled) :
    q.metrics.unmatched = p.metrics.unmatched := by
  induction h with
  | text => rfl
  | lookup fuel depth key chain p opened text hopened htext =>
      subst hopened
      rfl
  | foreign => rfl
  | failed fuel depth ref p q e hselect =>
      have haccount : Account setup.chooser 0 0 (.error e) p q := account_of_selects hselect
      exact haccount.unmatched_eq
  | unmatched fuel depth ref p q hselect =>
      have hdefault := hdefaults ref.tag hsubject.1
      exact absurd hselect (not_selects_none hsubject.2 hdefault)
  | exhausted depth ref p q rule hselect =>
      have haccount : Account setup.chooser 0 1 (.ok "") p q := account_of_selects hselect
      exact haccount.unmatched_eq
  | fired fuel depth ref p q r rule outcome inner target events hselect _ _ _ ih =>
      have haccount : Account setup.chooser 0 1 (.ok "") p q := account_of_selects hselect
      -- The tags of the template belong to the set, and it asks for no labels.
      have hrule := mem_rulesFor_of_selects _ _ _ _ hselect
      have hwithin := hclosed.within hsubject.1 hrule
      have hcontent := ih fun item hitem =>
        ⟨hwithin item hitem, hplain ref.tag hsubject.1 rule hrule item hitem⟩
      exact hcontent.trans haccount.unmatched_eq
  | nil => rfl
  | cons fuel depth item rest p q r text outcome events more _ _ ihitem ihrest =>
      have hfirst := ihitem (hsubject item (List.mem_cons_self ..))
      have hrest := ihrest fun other hother => hsubject other (List.mem_cons_of_mem _ hother)
      exact hrest.trans hfirst
  | stop fuel depth item rest p q e events _ ih =>
      exact ih (hsubject item (List.mem_cons_self ..))

end Setup

namespace Engine

/-- A run leaves no tag in brackets when the tags that its root leads to have defaults
    and no rule of them asks for labels. The metrics count no unmatched reference, and
    every reference that was expanded had a rule used for it, but for the last one of a
    run that failed in a selection. That these tags have rules at all is part of
    their having defaults. -/
theorem unmatched_runWith (chooser : Chooser σ) (fuel : Nat) (engine : Engine σ)
    (rules : RuleSet) (scene : Scene) (root : Tag) (chain : Chain) (hroot : root ∈ rules.tags)
    (hdefaults : rules.HasDefaults (· ∈ (Graph.ofRules rules).reachable root))
    (hlabels : ∀ tag ∈ (Graph.ofRules rules).reachable root, ∀ rule ∈ rules.rulesFor tag,
      ∀ ref ∈ rule.content.references, ref.hashtags = []) :
    let result := engine.runWith chooser fuel rules scene ⟨root, [], chain⟩
    let before := engine.metrics
    let after := result.2.2.metrics
    after.unmatched = before.unmatched ∧
      after.expansions + before.totalFired =
        before.expansions + after.totalFired + [result.1].countP (FailedSelection ·) := by
  intro result before after
  let P : Tag → Prop := (· ∈ (Graph.ofRules rules).reachable root)
  have hself : P root := Graph.mem_reachable_self _ (Graph.defined_subset _ _ hroot)
  have hclosed : rules.IsClosed P := by
    intro tag htag rule hrule ref href
    exact Graph.mem_reachable_of_leads _ htag (Graph.leads_ofRules rules hrule href)
  -- No reference that a run comes to asks for labels.
  have hplain : ∀ tag, P tag → ∀ rule ∈ rules.rulesFor tag, ∀ item ∈ rule.content,
      item.IsUnlabelled := by
    intro tag htag rule hrule item hitem
    cases item with
    | reference ref =>
        exact hlabels tag htag rule hrule ref ((Content.mem_references _ _).2 hitem)
    | text s => trivial
    | lookup key chain => trivial
    | foreign given => trivial
  rcases course_runWith chooser fuel engine rules scene ⟨root, [], chain⟩ with
    ⟨outcome, events, q, hcourse, hresult⟩
  have hnone : q.metrics.unmatched = engine.metrics.unmatched :=
    Setup.unmatched_of_course hclosed hdefaults hplain hcourse ⟨hself, rfl⟩
  -- With no reference unmatched, each expansion has used a rule or ended in a failed
  -- selection.
  rcases Setup.account_of_course hcourse with ⟨unmatched, fired, haccount⟩
  have hunmatched := haccount.unmatched_eq
  have hfired := haccount.fired_eq
  have hexpansions := haccount.expansions_eq
  dsimp only [after, before]
  rw [show result = _ from hresult]
  dsimp only [finish] at hunmatched hfired hexpansions ⊢
  rw [Metrics.unmatched_countRun, Metrics.expansions_countRun, Metrics.totalFired_countRun]
  refine ⟨hnone, ?_⟩
  omega

/-- A tag with a default that another rule of its tag keeps from being a candidate
    whenever it can be used itself. -/
def hiddenDefault : RuleSet :=
  RuleSet.ofList ([
    { tag := ⟨"a", none⟩,
      content := [.reference { tag := ⟨"b", none⟩ }, .reference { tag := ⟨"b", none⟩ }] },
    { tag := ⟨"b", none⟩, content := [.text "x"], priority := 2, guard := some ⟨[.get "calm"]⟩ },
    { tag := ⟨"b", none⟩, content := [.text "y"] }].filterMap
      fun parts => (Rule.create parts).toOption)

theorem unmatched_runWith_hiddenDefault :
    let root : Tag := ⟨"a", none⟩
    let scene : Scene := ⟨.ofEntries [("calm", .boolean true)], []⟩
    let engine : Engine Script := ⟨none, Script.ofList [0], {}⟩
    root ∈ hiddenDefault.tags ∧
      hiddenDefault.HasDefaults (· ∈ (Graph.ofRules hiddenDefault).reachable root) ∧
      (∀ tag ∈ (Graph.ofRules hiddenDefault).reachable root,
        ∀ rule ∈ hiddenDefault.rulesFor tag, ∀ ref ∈ rule.content.references, ref.hashtags = []) ∧
      (engine.runWith Chooser.weighted 5 hiddenDefault scene ⟨root, [], []⟩).1.toOption =
        some "xx" ∧
      let result := engine.runWith Chooser.weighted 5 hiddenDefault scene ⟨root, [], []⟩
      let before := engine.metrics
      let after := result.2.2.metrics
      after.unmatched = before.unmatched ∧
        after.expansions + before.totalFired =
          before.expansions + after.totalFired + [result.1].countP (FailedSelection ·) := by
  intro root scene engine
  have hroot : root ∈ hiddenDefault.tags := by decide +kernel
  have hdefaults : ∀ tag ∈ (Graph.ofRules hiddenDefault).reachable root,
      ∃ rule ∈ hiddenDefault.rulesFor tag, rule.guard = none := by
    decide +kernel
  have hlabels : ∀ tag ∈ (Graph.ofRules hiddenDefault).reachable root,
      ∀ rule ∈ hiddenDefault.rulesFor tag, ∀ ref ∈ rule.content.references,
        ref.hashtags = [] := by
    decide +kernel
  refine ⟨hroot, hdefaults, hlabels, by decide +kernel, ?_⟩
  exact unmatched_runWith Chooser.weighted 5 engine hiddenDefault scene root [] hroot hdefaults
    hlabels

end Engine

end TextGrammar
