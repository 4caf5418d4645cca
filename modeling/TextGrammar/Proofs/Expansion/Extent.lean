import Mathlib.Algebra.Order.Ring.GeomSum
import TextGrammar.Proofs.Expansion.Account
import TextGrammar.Proofs.Expansion.DepthLimit
import TextGrammar.Proofs.Expansion.Pruning

/-!
# The Extent of Expansions

How far an expansion goes under a depth limit, whatever the rules are.

An expansion visits references, each at some depth and in some state, and the visits
tell all that the limit has to do with. They are the references that count as expanded, a
rule is used for a visit or not, and the limit refuses a visit or not. What the steps of
an expansion tell adds up, so that the ledger of a whole one is read off its visits. A
refusal is the last of them, since it ends the expansion.

With the fuel that the limit leaves, no visit is below the limit. If no template has
more than so many references, the visits of a reference are at most that one and as
many times those of a reference one level further down: a geometric sum. Nothing is
assumed of the graph of the rules, which may have any cycles.

## Main definitions

* `Visit`: A reference that an expansion comes to, with its depth and the state.
* `Setup.visits`, `Setup.visitsAll`: The visits of the expansion of a piece or of
  several.
* `Setup.fires`: A rule is selected for a visit.
* `Ledger`: What visits tell of the metrics and of the depth limit.
* `Engine.visits`: The visits of a run.

## Theorems

* `Setup.map_ref_visits`: They are the references that count as expanded.
* `Setup.depth_le_of_mem_visits`, `Setup.length_visits_le`: How deep they are and how
  many.
* `Setup.ledger_of_course`: Every expansion has the ledger of its visits.
* `Engine.run_bounded`: The extent of a run with a depth limit.
-/

namespace TextGrammar

variable {σ : Type}

/-- A reference that an expansion comes to: how deep it is nested, and the state in
    which it is come to. -/
structure Visit (σ : Type) where
  depth : Nat
  ref : Reference
  state : Progress σ

namespace Setup

/-- The visits of the expansion of pieces, one piece after the other until one fails,
    for a way to expand a piece and the visits of a piece. -/
def visitsAll (expandItem : Item → Expansion σ String)
    (visitsItem : Item → Progress σ → List (Visit σ)) : Content → Progress σ → List (Visit σ)
  | [], _ => []
  | item :: rest, p =>
    visitsItem item p ++
      match (expandItem item).run p with
      | (.ok _, q) => visitsAll expandItem visitsItem rest q
      | (.error _, _) => []

/-- The visits of the expansion of a piece, in order. -/
def visits (setup : Setup σ) : Nat → Nat → Item → Progress σ → List (Visit σ)
  | _, _, .text _, _ => []
  | _, _, .lookup _ _, _ => []
  | _, _, .foreign _, _ => []
  | 0, depth, .reference ref, p => [⟨depth, ref, p⟩]
  | fuel + 1, depth, .reference ref, p =>
    ⟨depth, ref, p⟩ ::
      match (setup.selectRule depth ref).run p with
      | (.ok (some rule), q) =>
        visitsAll (setup.expand fuel (depth + 1)) (visits setup fuel (depth + 1)) rule.content
          { q with scene := q.scene.enter rule ref }
      | _ => []

/-- The visits of the expansion of a subject. -/
def visitsOf (setup : Setup σ) (fuel depth : Nat) : Subject → Progress σ → List (Visit σ)
  | .piece item => setup.visits fuel depth item
  | .pieces content => visitsAll (setup.expand fuel depth) (setup.visits fuel depth) content

/-- A rule is selected for the reference of a visit. -/
def fires (setup : Setup σ) (v : Visit σ) : Bool :=
  match (setup.selectRule v.depth v.ref).run v.state with
  | (.ok (some _), _) => true
  | _ => false

/-- A rule is used above the depth limit only. -/
theorem isTooDeep_of_fires {setup : Setup σ} {v : Visit σ} (h : setup.fires v = true) :
    setup.isTooDeep v.depth = none := by
  unfold fires at h
  split at h
  · exact isTooDeep_of_selects _ _ _ _ (setup.selects _ _ _ ‹_›)
  · exact absurd h Bool.false_ne_true

section Equations

variable {expandItem : Item → Expansion σ String}
  {visitsItem : Item → Progress σ → List (Visit σ)} {item : Item} {p q : Progress σ}

theorem visitsAll_of_ok {text : String} (rest : Content)
    (h : (expandItem item).run p = (.ok text, q)) :
    visitsAll expandItem visitsItem (item :: rest) p =
      visitsItem item p ++ visitsAll expandItem visitsItem rest q := by
  rw [visitsAll, h]

theorem visitsAll_of_error {e : ExpansionError} (rest : Content)
    (h : (expandItem item).run p = (.error e, q)) :
    visitsAll expandItem visitsItem (item :: rest) p = visitsItem item p := by
  rw [visitsAll, h, List.append_nil]

variable {setup : Setup σ} {depth : Nat} {ref : Reference}

theorem visits_of_some {rule : RegisteredRule} (fuel : Nat)
    (h : (setup.selectRule depth ref).run p = (.ok (some rule), q)) :
    setup.visits (fuel + 1) depth (.reference ref) p =
      ⟨depth, ref, p⟩ :: setup.visitsOf fuel (depth + 1) (.pieces rule.content)
        { q with scene := q.scene.enter rule ref } := by
  rw [visits, h]
  rfl

/-- Without a rule for it, a reference is the only visit, whatever the fuel. -/
theorem visits_of_not_some {choice : Except ExpansionError (Option RegisteredRule)} (fuel : Nat)
    (h : Selects setup depth ref p choice q) (hchoice : ∀ rule, choice ≠ .ok (some rule)) :
    setup.visits fuel depth (.reference ref) p = [⟨depth, ref, p⟩] := by
  cases fuel with
  | zero => rw [visits]
  | succ fuel =>
      rw [visits, setup.run_of_selects depth ref p h]
      cases h with
      | chosen _ rule => exact absurd rfl (hchoice rule)
      | _ => rfl

end Equations

theorem map_ref_visitsAll {expandItem : Item → Expansion σ String}
    {visitsItem : Item → Progress σ → List (Visit σ)}
    {visitedItem : Item → Progress σ → List Reference}
    (h : ∀ item p, (visitsItem item p).map Visit.ref = visitedItem item p) (content : Content)
    (p : Progress σ) :
    (visitsAll expandItem visitsItem content p).map Visit.ref =
      visitedAll expandItem visitedItem content p := by
  induction content generalizing p with
  | nil => rfl
  | cons item rest ih =>
      rw [visitsAll, visitedAll, List.map_append, h item p]
      rcases (expandItem item).run p with ⟨_ | text, q⟩
      · rfl
      · dsimp only
        rw [ih q]

/-- What is visited are the references that count as expanded. -/
theorem map_ref_visits (setup : Setup σ) (fuel depth : Nat) (item : Item) (p : Progress σ) :
    (setup.visits fuel depth item p).map Visit.ref = setup.visited fuel depth item p := by
  induction fuel, depth, item using expand_induction generalizing p with
  | text fuel depth s => rw [visits, visited, List.map_nil]
  | lookup fuel depth key chain => rw [visits, visited, List.map_nil]
  | foreign fuel depth given => rw [visits, visited, List.map_nil]
  | exhausted depth ref => rw [visits, visited, List.map_singleton]
  | reference fuel depth ref ih =>
      rw [visits, visited, List.map_cons]
      rcases setup.selectRule_cases depth ref p with ⟨e, q, hrun, _⟩ | ⟨q, hrun, _⟩ |
        ⟨rule, q, hrun, _⟩ <;> rw [hrun]
      · rfl
      · rfl
      · dsimp only
        rw [map_ref_visitsAll ih]

/-- What is visited in several pieces is visited in one of them. -/
theorem exists_of_mem_visitsAll {expandItem : Item → Expansion σ String}
    {visitsItem : Item → Progress σ → List (Visit σ)} {content : Content} {p : Progress σ}
    {v : Visit σ} (h : v ∈ visitsAll expandItem visitsItem content p) :
    ∃ item ∈ content, ∃ q, v ∈ visitsItem item q := by
  induction content generalizing p with
  | nil => exact absurd h List.not_mem_nil
  | cons item rest ih =>
      have hrest : ∀ {q}, v ∈ visitsAll expandItem visitsItem rest q →
          ∃ other ∈ item :: rest, ∃ q, v ∈ visitsItem other q := fun h => by
        rcases ih h with ⟨other, hother, q, hv⟩
        exact ⟨other, List.mem_cons_of_mem _ hother, q, hv⟩
      rw [visitsAll] at h
      rcases List.mem_append.1 h with h | h
      · exact ⟨item, List.mem_cons_self .., p, h⟩
      · split at h
        · exact hrest h
        · exact absurd h List.not_mem_nil

/-- Pieces have at most so many times the visits that each reference among them has. -/
theorem length_visitsAll_le {expandItem : Item → Expansion σ String}
    {visitsItem : Item → Progress σ → List (Visit σ)} {n : Nat}
    (h : ∀ item p, (visitsItem item p).length ≤ (Content.references [item]).length * n)
    (content : Content) (p : Progress σ) :
    (visitsAll expandItem visitsItem content p).length ≤ content.references.length * n := by
  induction content generalizing p with
  | nil => exact Nat.zero_le _
  | cons item rest ih =>
      have hreferences : (Content.references (item :: rest)).length =
          (Content.references [item]).length + (Content.references rest).length := by
        unfold Content.references
        rw [← List.length_append, ← List.filterMap_append, List.singleton_append]
      rw [visitsAll, List.length_append, hreferences, Nat.add_mul]
      refine Nat.add_le_add (h item p) ?_
      split
      · exact ih _
      · exact Nat.zero_le _

/-- The visits of a selection's reference, and those of the template of the rule. -/
theorem visits_reference_cases (setup : Setup σ) (fuel depth : Nat) (ref : Reference)
    (p : Progress σ) :
    setup.visits (fuel + 1) depth (.reference ref) p = [⟨depth, ref, p⟩] ∨
      ∃ rule ∈ setup.rules.rulesFor ref.tag, ∃ q,
        setup.visits (fuel + 1) depth (.reference ref) p = ⟨depth, ref, p⟩ ::
          visitsAll (setup.expand fuel (depth + 1)) (setup.visits fuel (depth + 1))
            rule.content q := by
  rcases setup.selectRule_cases depth ref p with ⟨e, q, _, hsel⟩ | ⟨q, _, hsel⟩ |
    ⟨rule, q, hrun, hsel⟩
  · exact Or.inl (visits_of_not_some _ hsel (by simp))
  · exact Or.inl (visits_of_not_some _ hsel (by simp))
  · exact Or.inr ⟨rule, mem_rulesFor_of_selects _ _ _ _ hsel, _, visits_of_some fuel hrun⟩

/-- No visit is deeper than the fuel goes. -/
theorem depth_le_of_mem_visits (setup : Setup σ) (fuel depth : Nat) (item : Item)
    (p : Progress σ) : ∀ v ∈ setup.visits fuel depth item p, v.depth ≤ depth + fuel := by
  induction fuel, depth, item using expand_induction generalizing p with
  | text fuel depth s =>
      rw [visits]
      exact fun v hv => absurd hv List.not_mem_nil
  | lookup fuel depth key chain =>
      rw [visits]
      exact fun v hv => absurd hv List.not_mem_nil
  | foreign fuel depth given =>
      rw [visits]
      exact fun v hv => absurd hv List.not_mem_nil
  | exhausted depth ref =>
      intro v hv
      rw [visits] at hv
      rw [List.mem_singleton.1 hv]
      exact Nat.le_refl depth
  | reference fuel depth ref ih =>
      intro v hv
      rcases setup.visits_reference_cases fuel depth ref p with h | ⟨rule, _, q, h⟩
      · rw [h] at hv
        rw [List.mem_singleton.1 hv]
        exact Nat.le_add_right _ _
      -- The visits below are one level deeper, with one unit of fuel less.
      · rw [h] at hv
        rcases List.mem_cons.1 hv with rfl | hv
        · exact Nat.le_add_right _ _
        · rcases exists_of_mem_visitsAll hv with ⟨item, _, q, hv⟩
          have hle := ih item q v hv
          omega

/-- With at most so many references in each template, the visits of a reference are at
    most a geometric sum. -/
theorem length_visits_le (setup : Setup σ) {width : Nat}
    (hwidth : ∀ rule ∈ setup.rules.toList, rule.content.references.length ≤ width)
    (fuel depth : Nat) (item : Item) (p : Progress σ) :
    (setup.visits fuel depth item p).length ≤
      (Content.references [item]).length * ∑ i ∈ Finset.range (fuel + 1), width ^ i := by
  induction fuel, depth, item using expand_induction generalizing p with
  | text fuel depth s =>
      rw [visits]
      exact Nat.zero_le _
  | lookup fuel depth key chain =>
      rw [visits]
      exact Nat.zero_le _
  | foreign fuel depth given =>
      rw [visits]
      exact Nat.zero_le _
  | exhausted depth ref =>
      rw [visits]
      simp [Content.references]
  | reference fuel depth ref ih =>
      have hone : (Content.references [.reference ref]).length = 1 := rfl
      rw [hone, Nat.one_mul, geom_sum_succ]
      rcases setup.visits_reference_cases fuel depth ref p with h | ⟨rule, hrule, q, h⟩
      · rw [h]
        exact Nat.le_add_left _ _
      · -- The template is one level further down, and each of its references has at most
        -- the sum up to there.
        rw [h, List.length_cons]
        have hmem := ((setup.rules.mem_rulesFor ref.tag rule).1 hrule).1
        exact Nat.succ_le_succ (Nat.le_trans (length_visitsAll_le ih rule.content q)
          (Nat.mul_le_mul_right _ (hwidth rule hmem)))

end Setup

/-- What the visits of a stretch of work tell of it: a rule was used for those that have
    one selected for them, and the limit refused one of them exactly if the outcome says
    so. -/
structure Ledger (setup : Setup σ) (visits : List (Visit σ))
    (outcome : Except ExpansionError String) (p q : Progress σ) : Prop where
  fired_eq : q.metrics.totalFired = p.metrics.totalFired + visits.countP setup.fires
  tooDeep_iff : ∀ limit tag, outcome = .error (.tooDeep limit tag) ↔
    ∃ v ∈ visits, setup.isTooDeep v.depth = some limit ∧ v.ref.tag = tag ∧
      setup.hasCandidates v.ref v.state = true

namespace Ledger

variable {setup : Setup σ} {visits : List (Visit σ)} {outcome : Except ExpansionError String}
  {p q r : Progress σ}

/-- Without visits nothing is counted, and nothing is refused. -/
theorem nothing (p : Progress σ) (text : String) : Ledger setup [] (.ok text) p p :=
  ⟨rfl, fun _ _ => iff_of_false nofun fun ⟨_, hv, _⟩ => absurd hv List.not_mem_nil⟩

/-- Only whether the limit has refused something matters of the outcome. -/
theorem congr {other : Except ExpansionError String} (h : Ledger setup visits outcome p q)
    (hother : ∀ limit tag,
      other = .error (.tooDeep limit tag) ↔ outcome = .error (.tooDeep limit tag)) :
    Ledger setup visits other p q :=
  ⟨h.fired_eq, fun limit tag => (hother limit tag).trans (h.tooDeep_iff limit tag)⟩

/-- Events count nothing. -/
theorem play (h : Ledger setup visits outcome p q) (events : List Event) :
    Ledger setup visits outcome p (q.play events) :=
  ⟨h.fired_eq, h.tooDeep_iff⟩

/-- The visits of two stretches of work, the first of which did not fail. -/
theorem append {more : List (Visit σ)} {text : String} (h : Ledger setup visits (.ok text) p q)
    (hnext : Ledger setup more outcome q r) : Ledger setup (visits ++ more) outcome p r where
  fired_eq := by rw [hnext.fired_eq, h.fired_eq, List.countP_append, Nat.add_assoc]
  tooDeep_iff := by
    intro limit tag
    rw [hnext.tooDeep_iff limit tag]
    constructor
    · rintro ⟨v, hv, hrefused⟩
      exact ⟨v, List.mem_append_right _ hv, hrefused⟩
    · rintro ⟨v, hv, hrefused⟩
      rcases List.mem_append.1 hv with hv | hv
      · -- The first stretch would have ended with the refusal.
        exact absurd ((h.tooDeep_iff limit tag).2 ⟨v, hv, hrefused⟩) nofun
      · exact ⟨v, hv, hrefused⟩

end Ledger

namespace Setup

variable {setup : Setup σ} {fuel depth : Nat} {p q : Progress σ}

theorem hasCandidates_iff (setup : Setup σ) (ref : Reference) (p : Progress σ) :
    setup.hasCandidates ref p = true ↔
      ∃ found, Candidates.find setup.rules ref p.scene.data = .ok found ∧ found.rules ≠ [] := by
  unfold hasCandidates
  cases Candidates.find setup.rules ref p.scene.data with
  | error e => simp
  | ok found => simp

/-- The limit refuses a selection exactly if it stands at that depth and there are
    candidates. -/
theorem tooDeep_iff_of_selects {ref : Reference}
    {choice : Except ExpansionError (Option RegisteredRule)}
    (h : Selects setup depth ref p choice q) (limit : Nat) (tag : Tag) :
    choice = .error (.tooDeep limit tag) ↔
      setup.isTooDeep depth = some limit ∧ ref.tag = tag ∧ setup.hasCandidates ref p = true := by
  rw [hasCandidates_iff]
  -- Only a refused selection has a limit and a candidate. In each of the others one of the two
  -- is missing.
  cases h with
  | malformed e hfind =>
      refine iff_of_false nofun fun ⟨_, _, other, hother, _⟩ => ?_
      cases hfind.symm.trans hother
  | unmatched found hfind hnil =>
      refine iff_of_false nofun fun ⟨_, _, other, hother, hne⟩ => hne ?_
      rw [← Except.ok.inj (hfind.symm.trans hother), hnil]
  | refused found bound hfind hne hdeep =>
      rw [hdeep]
      constructor
      · rintro ⟨⟩
        exact ⟨rfl, rfl, found, hfind, hne⟩
      · rintro ⟨⟨⟩, rfl, _⟩
        rfl
  | missed found source _ _ hroom _ =>
      rw [hroom]
      exact iff_of_false nofun nofun
  | chosen found rule source _ _ hroom _ =>
      rw [hroom]
      exact iff_of_false nofun nofun

/-- The ledger of a selection: its reference is the one visit. -/
theorem ledger_of_selects {ref : Reference} {choice : Except ExpansionError (Option RegisteredRule)}
    (h : Selects setup depth ref p choice q) :
    Ledger setup [⟨depth, ref, p⟩] (choice.map fun _ => "") p q := by
  refine ⟨?_, fun limit tag => ?_⟩
  · rw [List.countP_singleton, fires, setup.run_of_selects depth ref p h]
    cases h with
    | chosen => exact Metrics.totalFired_countFired _ _
    | _ => rfl
  · have hrefused := tooDeep_iff_of_selects h limit tag
    simp only [List.mem_singleton, exists_eq_left]
    rw [← hrefused]
    cases choice with
    | error e => simp [Except.map]
    | ok rule => exact iff_of_false nofun nofun

/-- The ledger of an expansion is that of its visits. What watchers make of a text, or
    of a failure, is no part of it. -/
theorem ledger_of_course {subject : Subject} {outcome : Except ExpansionError String}
    {events : List Event} (h : setup.Course fuel depth subject p outcome events q) :
    Ledger setup (setup.visitsOf fuel depth subject p) outcome p q := by
  have hfinish : ∀ (chain : Chain) (outcome : Except ExpansionError String) (limit : Nat)
      (tag : Tag), chain.finish outcome = .error (.tooDeep limit tag) ↔
        outcome = .error (.tooDeep limit tag) := fun chain outcome limit tag =>
    chain.finish_iff (P := (· = .error (.tooDeep limit tag))) (fun _ => nofun) nofun outcome
  induction h with
  | text fuel depth s p =>
      rw [visitsOf, visits]
      exact .nothing p s
  | lookup fuel depth key chain p opened text hopened htext =>
      subst hopened
      have hnothing : Ledger setup [] (.ok text) p p := .nothing p text
      have hcalls := (hnothing.play (chain.opening (Item.lookupText key))).play
        (chain.ending (Item.lookupText key) (.ok text))
      rw [visitsOf, visits]
      exact hcalls.congr (hfinish chain _)
  | foreign fuel depth given p =>
      rw [visitsOf, visits]
      exact (Ledger.nothing p "").congr fun _ _ => iff_of_false nofun nofun
  | failed fuel depth ref p q e hselect =>
      rw [visitsOf, visits_of_not_some fuel hselect (by simp)]
      exact ledger_of_selects hselect
  | unmatched fuel depth ref p q hselect =>
      rw [visitsOf, visits_of_not_some fuel hselect (by simp)]
      exact (ledger_of_selects hselect).congr fun _ _ => iff_of_false nofun nofun
  | exhausted depth ref p q rule hselect =>
      rw [visitsOf, visits]
      exact (ledger_of_selects hselect).congr fun _ _ => iff_of_false nofun nofun
  | fired fuel depth ref p q r rule outcome inner target events hselect htarget _ hinner ih =>
      -- The visit of the reference comes first, then those of the template of its rule.
      subst hinner htarget
      have hrun := setup.run_of_selects depth ref p hselect
      have hopened := ((ledger_of_selects hselect).play
        (rule.watchers.opening ref.tag.toText)).play (ref.watchers.opening ref.tag.toText)
      have hwhole := ((hopened.append ih).play (ref.watchers.ending ref.tag.toText outcome)).play
        (rule.watchers.ending ref.tag.toText (ref.watchers.finish outcome))
      rw [visitsOf, visits_of_some fuel hrun, Progress.enter_eq]
      exact hwhole.congr fun limit tag =>
        (hfinish rule.watchers _ limit tag).trans (hfinish ref.watchers _ limit tag)
  | nil fuel depth p => exact .nothing p ""
  | cons fuel depth item rest p q r text outcome events more hitem _ ihitem ihrest =>
      rw [visitsOf, visitsAll_of_ok rest (run_of_course hitem)]
      refine (ihitem.append ihrest).congr fun limit tag => ?_
      cases outcome with
      | ok tail => exact iff_of_false nofun nofun
      | error e => exact Iff.rfl
  | stop fuel depth item rest p q e events hitem ih =>
      rw [visitsOf, visitsAll_of_error rest (run_of_course hitem)]
      exact ih

end Setup

namespace Engine

variable [DrawSource σ] (engine : Engine σ) (rules : RuleSet) (scene : Scene)

/-- The visits of a run. -/
def visits (root : Reference) : List (Visit σ) :=
  Setup.visits ⟨rules, engine.maxDepth, Chooser.weighted⟩ (engine.fuel 0) 0 (.reference root)
    ⟨scene, engine.source, engine.metrics⟩

/-- A run counts its visits as expansions. -/
theorem expansions_run (root : Reference) :
    (engine.run rules scene root).2.2.metrics.expansions =
      engine.metrics.expansions + (engine.visits rules scene root).length := by
  have hcount := expansions_runWith Chooser.weighted (engine.fuel 0) engine rules scene root
  unfold visited at hcount
  rwa [← Setup.map_ref_visits, List.length_map] at hcount

/-- A run has the ledger of its visits. -/
theorem ledger_run (root : Reference) :
    let result := engine.run rules scene root
    Ledger ⟨rules, engine.maxDepth, Chooser.weighted⟩ (engine.visits rules scene root) result.1
      ⟨scene, engine.source, engine.metrics⟩
      ⟨result.2.1, result.2.2.source, result.2.2.metrics⟩ := by
  rcases course_runWith Chooser.weighted (engine.fuel 0) engine rules scene root with
    ⟨outcome, events, q, hcourse, hresult⟩
  intro result
  rw [show result = _ from hresult]
  have hledger := Setup.ledger_of_course hcourse
  exact ⟨(Metrics.totalFired_countRun q.metrics outcome).trans hledger.fired_eq,
    hledger.tooDeep_iff⟩

/-- Texts, look-ups and references without candidates are expanded at every depth, and
    fail for no reason but a watcher that meets no number. -/
theorem perform_of_no_candidates (depth : Nat) :
    (∀ s, engine.perform rules scene depth (.text s) = (.ok s, scene, engine)) ∧
    (∀ key chain,
      (engine.perform rules scene depth (.lookup key chain)).1 = chain.finish
        (.ok ((scene.play (chain.opening (Item.lookupText key))).data.textFor key))) ∧
    ∀ ref found, Candidates.find rules ref scene.data = .ok found → found.rules = [] →
      (engine.perform rules scene depth (.reference ref)).1 = .ok ref.tag.toText := by
  refine ⟨fun s => ?_, fun key chain => ?_, fun ref found hfind hnil => ?_⟩
  · rw [perform, performWith, Setup.expand]
    rfl
  · rw [perform, performWith, Setup.expand, Setup.run_expandLookup, Scene.lookup_eq]
  · rw [perform, performWith, Setup.run_expand_of_none _ (Setup.run_of_selects _ _ _ _
      (.unmatched found hfind hnil))]

/-- With a depth limit every run ends, and does so within a geometric sum, whatever
    cycles the rules have. What a run visits are the references that it counts as
    expanded: with at most so many references in each template they are at most the sum
    of the powers of that number up to the limit. A rule is used for a visit above the
    limit only. The run fails at the limit exactly if there is a visit at it that has
    candidates, which is the one that the error names, and everything else is expanded
    there as it is elsewhere. -/
theorem run_bounded (root : Reference) {limit width : Nat} (hlimit : engine.maxDepth = some limit)
    (hwidth : ∀ rule ∈ rules.toList, rule.content.references.length ≤ width) :
    let setup : Setup σ := ⟨rules, some limit, Chooser.weighted⟩
    let visits := engine.visits rules scene root
    let result := engine.run rules scene root
    Ends Chooser.weighted engine rules scene root result ∧
    (result.2.2.metrics.expansions = engine.metrics.expansions + visits.length ∧
      visits.length ≤ ∑ i ∈ Finset.range (limit + 1), width ^ i) ∧
    (result.2.2.metrics.totalFired = engine.metrics.totalFired + visits.countP setup.fires ∧
      ∀ v ∈ visits, v.depth ≤ limit ∧ (setup.fires v = true → v.depth < limit)) ∧
    (∀ bound tag, result.1 = .error (.tooDeep bound tag) ↔
      bound = limit ∧
        ∃ v ∈ visits, v.depth = limit ∧ v.ref.tag = tag ∧
          setup.hasCandidates v.ref v.state = true) ∧
    ∀ scene : Scene,
      (∀ s, engine.perform rules scene limit (.text s) = (.ok s, scene, engine)) ∧
      (∀ key chain,
        (engine.perform rules scene limit (.lookup key chain)).1 = chain.finish
          (.ok ((scene.play (chain.opening (Item.lookupText key))).data.textFor key))) ∧
      ∀ ref found, Candidates.find rules ref scene.data = .ok found → found.rules = [] →
        (engine.perform rules scene limit (.reference ref)).1 = .ok ref.tag.toText := by
  intro setup visits result
  -- With a limit the run has exactly that much fuel, so the facts about fuel and depth 0
  -- apply.
  obtain ⟨maxDepth, source, metrics⟩ := engine
  cases hlimit
  have hledger := ledger_run ⟨some limit, source, metrics⟩ rules scene root
  have hdepth : ∀ v ∈ visits, v.depth ≤ limit := fun v hv => by
    have hle := setup.depth_le_of_mem_visits limit 0 _ _ v hv
    rwa [Nat.zero_add] at hle
  have hlength := setup.length_visits_le hwidth limit 0 (.reference root) ⟨scene, source, metrics⟩
  refine ⟨ends_run _ rules scene root rfl,
    ⟨expansions_run _ rules scene root, hlength.trans_eq (Nat.one_mul _)⟩,
    ⟨hledger.fired_eq, fun v hv => ⟨hdepth v hv, fun hfires => ?_⟩⟩, fun bound tag => ?_,
    fun scene => perform_of_no_candidates _ rules scene limit⟩
  · exact (setup.isTooDeep_eq_none_iff v.depth).1 (Setup.isTooDeep_of_fires hfires) limit rfl
  -- No visit is below the limit, so one that is refused is at the limit itself.
  · rw [hledger.tooDeep_iff bound tag]
    constructor
    · rintro ⟨v, hv, hdeep, htag, hcandidates⟩
      rcases Setup.isTooDeep_eq_some hdeep with ⟨hbound, hle⟩
      cases hbound
      exact ⟨rfl, v, hv, Nat.le_antisymm (hdepth v hv) hle, htag, hcandidates⟩
    · rintro ⟨rfl, v, hv, hat, htag, hcandidates⟩
      exact ⟨v, hv, if_pos hat.ge, htag, hcandidates⟩

/-- A rule that refers to its own tag behind one without rules. -/
def endless : RuleSet :=
  RuleSet.ofList ([
    { tag := ⟨"a", none⟩,
      content := [.reference { tag := ⟨"b", none⟩ }, .reference { tag := ⟨"a", none⟩ }] }].filterMap
      fun parts => (Rule.create parts).toOption)

/-- An engine with a limit of two. -/
def twoDeep : Engine Script := ⟨some 2, Script.ofList [], {}⟩

/-- With a limit of two the rule is used twice and refused once. Five of the seven
    references that there could be are expanded, and one without candidates is as deep as
    the one that is refused. -/
theorem run_bounded_endless :
    (∀ rule ∈ endless.toList, rule.content.references.length ≤ 2) ∧
      (twoDeep.run endless ⟨Namespace.empty, []⟩ { tag := ⟨"a", none⟩ }).1 =
        .error (.tooDeep 2 ⟨"a", none⟩) ∧
      (twoDeep.run endless ⟨Namespace.empty, []⟩ { tag := ⟨"a", none⟩ }).2.2.metrics.expansions =
        twoDeep.metrics.expansions + 5 ∧
      (twoDeep.run endless ⟨Namespace.empty, []⟩ { tag := ⟨"a", none⟩ }).2.2.metrics.totalFired =
        twoDeep.metrics.totalFired + 2 ∧
      5 ≤ ∑ i ∈ Finset.range (2 + 1), 2 ^ i := by
  have hwidth : ∀ rule ∈ endless.toList, rule.content.references.length ≤ 2 := by decide +kernel
  have hlength : (twoDeep.visits endless ⟨Namespace.empty, []⟩ { tag := ⟨"a", none⟩ }).length = 5 :=
    by decide +kernel
  have hfires : (twoDeep.visits endless ⟨Namespace.empty, []⟩ { tag := ⟨"a", none⟩ }).countP
      (Setup.fires ⟨endless, some 2, Chooser.weighted⟩) = 2 := by decide +kernel
  have hrefused : ∃ v ∈ twoDeep.visits endless ⟨Namespace.empty, []⟩ { tag := ⟨"a", none⟩ },
      v.depth = 2 ∧ v.ref.tag = ⟨"a", none⟩ ∧
        Setup.hasCandidates ⟨endless, some 2, (Chooser.weighted : Chooser Script)⟩ v.ref v.state =
          true := by decide +kernel
  rcases run_bounded twoDeep endless ⟨Namespace.empty, []⟩ { tag := ⟨"a", none⟩ } rfl hwidth with
    ⟨_, ⟨hexpansions, hle⟩, ⟨hfired, _⟩, hdeep, _⟩
  rw [hlength] at hexpansions hle
  rw [hfires] at hfired
  exact ⟨hwidth, (hdeep 2 ⟨"a", none⟩).2 ⟨rfl, hrefused⟩, hexpansions, hfired, hle⟩

end Engine

end TextGrammar
