import TextGrammar.Proofs.Expansion.Fuel

/-!
# Semantics Without Draws

What expansions can come to when any candidate may be picked.

The outcomes are given by rules of derivation. They keep everything of an
expansion but the choice: the depth limit, the calls of the watchers around each
substitution, and the one namespace that is handed from piece to piece. There
is neither a source of draws nor fuel, and there are no metrics.

An expansion that neither lacked fuel nor missed all candidates in a choice has
such a derivation, no matter how candidates are chosen, since a chooser only
ever returns one of them. The derivation follows the expansion, so it is found by
induction on the fuel, and for the pieces of a template by induction on these.

## Main definitions

* `Subject`: A piece, or pieces that are joined.
* `Possible`: What the expansion of a subject can come to.
* `IsFollowed`: An outcome other than the lack of fuel or of a choice.

## Theorems

* `isFollowed_of_possible`: What is possible is such an outcome.
* `Setup.possible_expand`: An expansion comes to what it can come to.
* `Engine.possible_of_ends`: So does a run.
-/

namespace TextGrammar

variable {σ : Type}

/-- What is expanded: one piece, or the pieces of a template, which are joined. -/
inductive Subject where
  | piece (item : Item)
  | pieces (content : Content)

/-- The outcomes that the expansion of a subject at a depth can come to from a
    scene, with the scene that they leave behind, if any of the candidates that the
    last parameter allows may be picked for a reference. -/
inductive Possible (rules : RuleSet) (maxDepth : Option Nat) (may : RegisteredRule → Prop) :
    Nat → Subject → Scene → Except ExpansionError String → Scene → Prop
  | text (depth : Nat) (s : String) (scene : Scene) :
      Possible rules maxDepth may depth (.piece (.text s)) scene (.ok s) scene
  | lookup (depth : Nat) (key : String) (chain : Chain) (scene : Scene) :
      Possible rules maxDepth may depth (.piece (.lookup key chain)) scene
        (scene.lookup key chain).1 (scene.lookup key chain).2
  | foreign (depth : Nat) (given : Option String) (scene : Scene) :
      Possible rules maxDepth may depth (.piece (.foreign given)) scene
        (.error (.foreignItem given)) scene
  | malformed (depth : Nat) (ref : Reference) (scene : Scene) (e : EvaluationError)
      (hfind : Candidates.find rules ref scene.data = .error e) :
      Possible rules maxDepth may depth (.piece (.reference ref)) scene
        (.error (.evaluation e)) scene
  | unmatched (depth : Nat) (ref : Reference) (scene : Scene) (found : Candidates)
      (hfind : Candidates.find rules ref scene.data = .ok found) (hnil : found.rules = []) :
      Possible rules maxDepth may depth (.piece (.reference ref)) scene
        (.ok ref.tag.toText) scene
  | refused (depth limit : Nat) (ref : Reference) (scene : Scene) (found : Candidates)
      (hfind : Candidates.find rules ref scene.data = .ok found) (hne : found.rules ≠ [])
      (hlimit : maxDepth = some limit) (hdeep : limit ≤ depth) :
      Possible rules maxDepth may depth (.piece (.reference ref)) scene
        (.error (.tooDeep limit ref.tag)) scene
  | fired (depth : Nat) (ref : Reference) (scene : Scene) (found : Candidates)
      (rule : RegisteredRule) (outcome : Except ExpansionError String) (inner : Scene)
      (hfind : Candidates.find rules ref scene.data = .ok found) (hrule : rule ∈ found.rules)
      (hmay : may rule) (hroom : ∀ limit, maxDepth = some limit → depth < limit)
      (hcontent : Possible rules maxDepth may (depth + 1) (.pieces rule.content)
        (scene.enter rule ref) outcome inner) :
      Possible rules maxDepth may depth (.piece (.reference ref)) scene
        (inner.leave rule ref outcome).1 (inner.leave rule ref outcome).2
  | nil (depth : Nat) (scene : Scene) :
      Possible rules maxDepth may depth (.pieces []) scene (.ok "") scene
  | cons (depth : Nat) (item : Item) (rest : Content) (scene middle final : Scene)
      (text : String) (outcome : Except ExpansionError String)
      (hitem : Possible rules maxDepth may depth (.piece item) scene (.ok text) middle)
      (hrest : Possible rules maxDepth may depth (.pieces rest) middle outcome final) :
      Possible rules maxDepth may depth (.pieces (item :: rest)) scene
        (outcome.map (text ++ ·)) final
  | stop (depth : Nat) (item : Item) (rest : Content) (scene final : Scene) (e : ExpansionError)
      (hitem : Possible rules maxDepth may depth (.piece item) scene (.error e) final) :
      Possible rules maxDepth may depth (.pieces (item :: rest)) scene (.error e) final

/-- An outcome that neither the lack of fuel nor a choice without result has caused. -/
def IsFollowed (outcome : Except ExpansionError String) : Prop :=
  outcome ≠ .error .outOfFuel ∧ ∀ total, outcome ≠ .error (.nothingChosen total)

theorem isFollowed_ok (text : String) : IsFollowed (.ok text) := ⟨nofun, fun _ => nofun⟩

theorem isFollowed_close (chain : Chain) (target text : String) (scene : Scene) :
    IsFollowed (chain.close target text scene).1 :=
  ⟨fun h => absurd (Chain.error_of_close h) nofun,
    fun _ h => absurd (Chain.error_of_close h) nofun⟩

/-- The calls after a template neither hide nor cause such a failure. -/
theorem isFollowed_leave_iff (rule : RegisteredRule) (ref : Reference)
    (outcome : Except ExpansionError String) (scene : Scene) :
    IsFollowed (scene.leave rule ref outcome).1 ↔ IsFollowed outcome := by
  cases outcome with
  | error e => exact Iff.rfl
  | ok text =>
      refine ⟨fun _ => isFollowed_ok text, fun _ => ?_⟩
      have hclose := isFollowed_close ref.watchers ref.tag.toText text scene
      simp only [Scene.leave]
      rcases hrun : ref.watchers.close ref.tag.toText text scene with ⟨result, left⟩
      rw [hrun] at hclose
      cases result with
      | error e => exact hclose
      | ok inner => exact isFollowed_close rule.watchers ref.tag.toText inner left

/-- The semantics without draws has neither of these failures. -/
theorem isFollowed_of_possible {rules : RuleSet} {maxDepth : Option Nat}
    {may : RegisteredRule → Prop} {depth : Nat} {subject : Subject} {scene final : Scene}
    {outcome : Except ExpansionError String}
    (h : Possible rules maxDepth may depth subject scene outcome final) : IsFollowed outcome := by
  induction h with
  | text _ s _ => exact isFollowed_ok s
  | lookup _ key chain scene => exact isFollowed_close chain _ _ _
  | foreign => exact ⟨nofun, fun _ => nofun⟩
  | malformed => exact ⟨nofun, fun _ => nofun⟩
  | unmatched _ ref _ _ _ _ => exact isFollowed_ok ref.tag.toText
  | refused => exact ⟨nofun, fun _ => nofun⟩
  | fired _ ref _ _ rule outcome inner _ _ _ _ _ ih =>
      exact (isFollowed_leave_iff rule ref outcome inner).2 ih
  | nil => exact isFollowed_ok ""
  | cons _ _ _ _ _ _ text outcome _ _ _ ih =>
      cases outcome with
      | error e => exact ih
      | ok more => exact isFollowed_ok (text ++ more)
  | stop _ _ _ _ _ _ _ ih => exact ih

namespace Setup

theorem isTooDeep_eq_some {setup : Setup σ} {depth limit : Nat}
    (h : setup.isTooDeep depth = some limit) : setup.maxDepth = some limit ∧ limit ≤ depth := by
  unfold isTooDeep at h
  split at h
  · rename_i bound hbound
    split at h
    · rename_i hle
      rw [Option.some.inj h] at hbound hle
      exact ⟨hbound, hle⟩
    · exact absurd h nofun
  · exact absurd h nofun

theorem isTooDeep_eq_none_iff (setup : Setup σ) (depth : Nat) :
    setup.isTooDeep depth = none ↔ ∀ limit, setup.maxDepth = some limit → depth < limit := by
  unfold isTooDeep
  cases setup.maxDepth with
  | none => exact ⟨fun _ _ h => absurd h nofun, fun _ => rfl⟩
  | some bound =>
      simp only [Option.some.injEq, forall_eq', ite_eq_right_iff, reduceCtorEq, imp_false]
      omega

/-- Pieces come to what they can come to if each of them does. -/
theorem possible_expandAll {rules : RuleSet} {maxDepth : Option Nat} {may : RegisteredRule → Prop}
    {depth : Nat} (expandItem : Item → Expansion σ String) (content : Content)
    (h : ∀ item ∈ content, ∀ p, IsFollowed ((expandItem item).run p).1 →
      Possible rules maxDepth may depth (.piece item) p.scene ((expandItem item).run p).1
        ((expandItem item).run p).2.scene)
    (p : Progress σ) (hfollowed : IsFollowed ((expandAll expandItem content).run p).1) :
    Possible rules maxDepth may depth (.pieces content) p.scene
      ((expandAll expandItem content).run p).1 ((expandAll expandItem content).run p).2.scene := by
  induction content generalizing p with
  | nil => exact .nil depth p.scene
  | cons item rest ih =>
      have hitem := h item (List.mem_cons_self ..) p
      -- A first piece that fails ends the derivation, and only its failure is known to
      -- be followed. One that gives text is followed whatever comes behind it.
      rw [run_expandAll_cons] at hfollowed ⊢
      rcases hrun : (expandItem item).run p with ⟨outcome, q⟩
      rw [hrun] at hitem hfollowed
      cases outcome with
      | error e => exact .stop depth item rest p.scene q.scene e (hitem hfollowed)
      | ok text =>
          have hrest := ih (fun other hother => h other (List.mem_cons_of_mem _ hother)) q
          dsimp only at hitem hfollowed ⊢
          rcases hmore : (expandAll expandItem rest).run q with ⟨outcome, q'⟩
          rw [hmore] at hrest hfollowed
          have hpiece := hitem ⟨nofun, fun _ => nofun⟩
          cases outcome with
          | error e => exact .cons depth item rest _ _ _ text _ hpiece (hrest hfollowed)
          | ok more =>
              exact .cons depth item rest _ _ _ text _ hpiece (hrest ⟨nofun, fun _ => nofun⟩)

section Selection

variable {setup : Setup σ} {depth : Nat} {ref : Reference} {p q : Progress σ}

theorem possible_of_selects_error {e : ExpansionError}
    (h : Selects setup depth ref p (.error e) q) (he : ∀ total, e ≠ .nothingChosen total) :
    Possible setup.rules setup.maxDepth (fun _ => True) depth (.piece (.reference ref)) p.scene
      (.error e) q.scene := by
  cases h with
  | malformed reason hfind => exact .malformed depth ref p.scene reason hfind
  | refused found limit hfind hne hdeep =>
      rcases isTooDeep_eq_some hdeep with ⟨hlimit, hle⟩
      exact .refused depth limit ref p.scene found hfind hne hlimit hle
  -- The one failure that the semantics does not have.
  | missed found _ _ _ _ _ => exact absurd rfl (he found.totalFrequency)

theorem possible_of_selects_none (h : Selects setup depth ref p (.ok none) q) :
    Possible setup.rules setup.maxDepth (fun _ => True) depth (.piece (.reference ref)) p.scene
      (.ok ref.tag.toText) q.scene := by
  cases h with
  | unmatched found hfind hnil => exact .unmatched depth ref p.scene found hfind hnil

/-- A selected rule is one of the candidates, and what its template can come to
    the reference can come to. -/
theorem possible_of_selects_some {rule : RegisteredRule} {outcome : Except ExpansionError String}
    {inner : Scene} (h : Selects setup depth ref p (.ok (some rule)) q)
    (hcontent : Possible setup.rules setup.maxDepth (fun _ => True) (depth + 1)
      (.pieces rule.content) (q.scene.enter rule ref) outcome inner) :
    Possible setup.rules setup.maxDepth (fun _ => True) depth (.piece (.reference ref)) p.scene
      (inner.leave rule ref outcome).1 (inner.leave rule ref outcome).2 := by
  cases h with
  | chosen found _ source hfind _ hroom hchoose =>
      have hrule := setup.chooser.mem_of_choose found p.source rule (by rw [hchoose])
      exact .fired depth ref p.scene found rule outcome inner hfind hrule trivial
        ((isTooDeep_eq_none_iff setup depth).1 hroom) hcontent

end Selection

theorem possible_lookup (rules : RuleSet) (maxDepth : Option Nat) (may : RegisteredRule → Prop)
    (depth : Nat) (key : String) (chain : Chain) (p : Progress σ) :
    Possible rules maxDepth may depth (.piece (.lookup key chain)) p.scene
      ((expandLookup key chain).run p).1 ((expandLookup key chain).run p).2.scene := by
  rw [run_expandLookup]
  exact .lookup depth key chain p.scene

/-- An expansion that was followed to an outcome comes to what it can come to. -/
theorem possible_expand (setup : Setup σ) (fuel depth : Nat) (item : Item) (p : Progress σ)
    (hfollowed : IsFollowed ((setup.expand fuel depth item).run p).1) :
    Possible setup.rules setup.maxDepth (fun _ => True) depth (.piece item) p.scene
      ((setup.expand fuel depth item).run p).1
      ((setup.expand fuel depth item).run p).2.scene := by
  induction fuel, depth, item using expand_induction generalizing p with
  | text fuel depth s =>
      rw [expand]
      exact .text depth s p.scene
  | lookup fuel depth key chain =>
      rw [expand]
      exact possible_lookup _ _ _ depth key chain p
  | foreign fuel depth given =>
      rw [expand]
      exact .foreign depth given p.scene
  | exhausted depth ref =>
      rcases setup.selectRule_cases depth ref p with ⟨e, q, hrun, hsel⟩ | ⟨q, hrun, hsel⟩ |
        ⟨rule, q, hrun, _⟩
      · rw [run_expand_of_error _ hrun] at hfollowed ⊢
        exact possible_of_selects_error hsel fun total he => hfollowed.2 total (by rw [he])
      · rw [run_expand_of_none _ hrun]
        exact possible_of_selects_none hsel
      · rw [run_expand_zero_reference, hrun] at hfollowed
        exact absurd rfl hfollowed.1
  | reference fuel depth ref ih =>
      rcases setup.selectRule_cases depth ref p with ⟨e, q, hrun, hsel⟩ | ⟨q, hrun, hsel⟩ |
        ⟨rule, q, hrun, hsel⟩
      · rw [run_expand_of_error _ hrun] at hfollowed ⊢
        exact possible_of_selects_error hsel fun total he => hfollowed.2 total (by rw [he])
      · rw [run_expand_of_none _ hrun]
        exact possible_of_selects_none hsel
      · -- The template is expanded with less fuel, from the scene that the calls before
        -- it leave, and its outcome goes through the calls after it.
        have hcontent := possible_expandAll (setup.expand fuel (depth + 1)) rule.content
          (fun item _ p => ih item p) { q with scene := q.scene.enter rule ref }
        rw [run_expand_of_some _ hrun, run_fire] at hfollowed ⊢
        rcases hall : (expandAll (setup.expand fuel (depth + 1)) rule.content).run
          { q with scene := q.scene.enter rule ref } with ⟨outcome, q'⟩
        rw [hall] at hfollowed hcontent
        exact possible_of_selects_some hsel
          (hcontent ((isFollowed_leave_iff rule ref _ _).1 hfollowed))

end Setup

namespace Engine

/-- A run that comes to a result other than a choice that misses all candidates
    comes to what it can come to. -/
theorem possible_of_ends {chooser : Chooser σ} {engine : Engine σ} {rules : RuleSet}
    {scene : Scene} {root : Reference} {result : Except ExpansionError String × Scene × Engine σ}
    (hends : Ends chooser engine rules scene root result)
    (hchosen : ∀ total, result.1 ≠ .error (.nothingChosen total)) :
    Possible rules engine.maxDepth (fun _ => True) 0 (.piece (.reference root)) scene
      result.1 result.2.1 := by
  rcases hends with ⟨hfuel, fuel, rfl⟩
  rw [runWith_eq] at hfuel hchosen ⊢
  exact Setup.possible_expand ⟨rules, engine.maxDepth, chooser⟩ fuel 0 (.reference root)
    ⟨scene, engine.source, engine.metrics⟩ ⟨hfuel, hchosen⟩

end Engine

end TextGrammar
