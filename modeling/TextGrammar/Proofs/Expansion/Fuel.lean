import TextGrammar.Proofs.Expansion.Execution

/-!
# Fuel

That fuel is only a bound on how deep an expansion is followed, and no part of
what it does.

An expansion that was not given up for lack of fuel does the same with more of
it. A run therefore has at most one end, which it shows to everyone who follows
it deep enough. With a depth limit, as much fuel as the limit is deep enough.

Both facts are about which failures a computation can have, and about
computations that differ only where the first one has certain failures. These
two notions pass through sequencing, so they are proved for the use of a rule
from its pieces, and for all expansions by induction on the fuel.

## Main definitions

* `Expansion.FailsOnly`: All failures of a computation are of some kind.
* `Expansion.Extends`: A computation that does what another does, unless that has
  a failure of some kind.
* `Engine.finish`: The result of a run from what its expansion comes to.
* `Engine.Ends`: The result that a run comes to.

## Theorems

* `Setup.failsOnly_fire`, `Setup.extends_fire`: The use of a rule.
* `Setup.expand_extends`: More fuel, or a selection that fails less, changes
  nothing else.
* `Setup.expand_ne_outOfFuel`: With a limit, fuel up to it is enough.
* `Engine.ends_unique`: A run has at most one end.
* `Engine.ends_run`: With a limit, a run ends with its result.
-/

namespace TextGrammar

variable {σ α β : Type}

namespace Expansion

/-- All failures of a computation are of some kind. -/
def FailsOnly (kind : ExpansionError → Prop) (x : Expansion σ α) : Prop :=
  ∀ p e, (x.run p).1 = .error e → kind e

/-- The second computation does what the first one does, unless that has a failure
    of some kind. -/
def Extends (kind : ExpansionError → Prop) (x y : Expansion σ α) : Prop :=
  ∀ p, (∀ e, (x.run p).1 = .error e → ¬ kind e) → y.run p = x.run p

variable {kind : ExpansionError → Prop}

theorem failsOnly_pure (a : α) : FailsOnly kind (pure a : Expansion σ α) := by
  intro p e h
  exact absurd h (by simp only [ExceptT.run_pure]; exact nofun)

theorem failsOnly_throw {e : ExpansionError} (he : kind e) :
    FailsOnly kind (throw e : Expansion σ α) := by
  intro p d h
  exact Except.error.inj h ▸ he

theorem failsOnly_bind {x : Expansion σ α} {f : α → Expansion σ β} (hx : FailsOnly kind x)
    (hf : ∀ a, FailsOnly kind (f a)) : FailsOnly kind (x >>= f) := by
  intro p e h
  rw [run_bind] at h
  rcases hrun : x.run p with ⟨outcome, q⟩
  rw [hrun] at h
  cases outcome with
  | error d =>
      have hd : d = e := Except.error.inj h
      exact hx p e (by rw [hrun, hd])
  | ok a => exact hf a q e h

theorem extends_refl (x : Expansion σ α) : Extends kind x x := fun _ _ => rfl

/-- A failure of the kind may go on in any way. -/
theorem extends_throw {e : ExpansionError} (he : kind e) (y : Expansion σ α) :
    Extends kind (throw e) y := fun _ h => absurd he (h e rfl)

theorem extends_bind {x y : Expansion σ α} {f g : α → Expansion σ β} (hxy : Extends kind x y)
    (hfg : ∀ a, Extends kind (f a) (g a)) : Extends kind (x >>= f) (y >>= g) := by
  intro p h
  rw [run_bind] at h
  rcases hrun : x.run p with ⟨outcome, q⟩
  rw [hrun] at h
  -- The first part either goes on, or fails with what the whole fails with.
  have hy : y.run p = x.run p := hxy p fun e he => by
    rw [hrun] at he
    exact h e (by rw [show outcome = .error e from he])
  rw [run_bind, run_bind, hy, hrun]
  cases outcome with
  | error e => rfl
  | ok a => exact hfg a q h

end Expansion

open Expansion

namespace Setup

variable {kind : ExpansionError → Prop}

theorem failsOnly_callAfter (hnumeric : kind .undefinedNumeric) (chain : Chain)
    (target text : String) : FailsOnly kind (callAfter chain target text : Expansion σ String) := by
  intro p e h
  rw [run_callAfter] at h
  rw [Chain.error_of_close h]
  exact hnumeric

theorem failsOnly_expandLookup (hnumeric : kind .undefinedNumeric) (key : String)
    (chain : Chain) : FailsOnly kind (expandLookup key chain : Expansion σ String) := by
  intro p e h
  rw [run_expandLookup] at h
  rw [Chain.error_of_close h]
  exact hnumeric

theorem failsOnly_expandAll {expandItem : Item → Expansion σ String} {content : Content}
    (h : ∀ item ∈ content, FailsOnly kind (expandItem item)) :
    FailsOnly kind (expandAll expandItem content) := by
  induction content with
  | nil => exact failsOnly_pure ""
  | cons item rest ih =>
      have hrest := ih fun other hother => h other (List.mem_cons_of_mem _ hother)
      exact failsOnly_bind (h item (List.mem_cons_self ..)) fun text =>
        failsOnly_bind hrest fun more => failsOnly_pure (text ++ more)

/-- Using a rule fails like its pieces do, or because a watcher cannot rewrite a
    number. -/
theorem failsOnly_fire (hnumeric : kind .undefinedNumeric)
    {expandItem : Item → Expansion σ String} (rule : RegisteredRule) (ref : Reference)
    (h : ∀ item ∈ rule.content, FailsOnly kind (expandItem item)) :
    FailsOnly kind (fire expandItem rule ref) := by
  rw [fire_eq]
  refine failsOnly_bind (fun _ _ he => absurd he nofun) fun _ => ?_
  refine failsOnly_bind (fun _ _ he => absurd he nofun) fun _ => ?_
  refine failsOnly_bind (failsOnly_expandAll h) fun text => ?_
  exact failsOnly_bind (failsOnly_callAfter hnumeric _ _ _) fun text =>
    failsOnly_callAfter hnumeric _ _ _

theorem extends_expandAll {f g : Item → Expansion σ String} {content : Content}
    (h : ∀ item ∈ content, Extends kind (f item) (g item)) :
    Extends kind (expandAll f content) (expandAll g content) := by
  induction content with
  | nil => exact extends_refl _
  | cons item rest ih =>
      have hrest := ih fun other hother => h other (List.mem_cons_of_mem _ hother)
      exact extends_bind (h item (List.mem_cons_self ..)) fun text =>
        extends_bind hrest fun more => extends_refl _

/-- The use of a rule extends as its pieces do. -/
theorem extends_fire {f g : Item → Expansion σ String} (rule : RegisteredRule) (ref : Reference)
    (h : ∀ item ∈ rule.content, Extends kind (f item) (g item)) :
    Extends kind (fire f rule ref) (fire g rule ref) := by
  rw [fire_eq, fire_eq]
  refine extends_bind (extends_refl _) fun _ => extends_bind (extends_refl _) fun _ => ?_
  exact extends_bind (extends_expandAll h) fun _ => extends_refl _

/-- An expansion with more fuel, and with a selection that fails less, does the same
    unless it was one of these failures or the lack of fuel that ended it. -/
theorem expand_extends (setup other : Setup σ) (hfuel : kind .outOfFuel)
    (hselect : ∀ depth ref,
      Extends kind (setup.selectRule depth ref) (other.selectRule depth ref))
    (fuel more depth : Nat) (item : Item) (hle : fuel ≤ more) :
    Extends kind (setup.expand fuel depth item) (other.expand more depth item) := by
  induction fuel, depth, item using expand_induction generalizing more with
  | text fuel depth s =>
      rw [expand, expand]
      exact extends_refl _
  | lookup fuel depth key chain =>
      rw [expand, expand]
      exact extends_refl _
  | foreign fuel depth given =>
      rw [expand, expand]
      exact extends_refl _
  | exhausted depth ref =>
      -- Only a selected rule tells fuel from no fuel, and then the lack of it is one
      -- of the failures that may go on differently.
      cases more with
      | zero => exact extends_bind (hselect depth ref) fun choice => extends_refl _
      | succ more =>
          refine extends_bind (hselect depth ref) fun choice => ?_
          cases choice with
          | none => exact extends_refl _
          | some rule => exact extends_throw hfuel _
  | reference fuel depth ref ih =>
      cases more with
      | zero => omega
      | succ more =>
          rw [expand_reference, expand_reference]
          refine extends_bind (hselect depth ref) fun choice => ?_
          cases choice with
          | none => exact extends_refl _
          | some rule => exact extends_fire rule ref fun item _ => ih item more (by omega)

/-- What goes on from a selection fails like the selection, or after one of the
    rules for the tag, which are only selected above the depth limit. -/
theorem failsOnly_selectRule_bind (setup : Setup σ) (depth : Nat) (ref : Reference)
    {next : Option RegisteredRule → Expansion σ String}
    (hguard : ∀ reason, kind (.evaluation reason)) (hchoice : ∀ total, kind (.nothingChosen total))
    (hdeep : ∀ limit, setup.isTooDeep depth = some limit → kind (.tooDeep limit ref.tag))
    (hnone : FailsOnly kind (next none))
    (hsome : setup.isTooDeep depth = none →
      ∀ rule ∈ setup.rules.rulesFor ref.tag, FailsOnly kind (next (some rule))) :
    FailsOnly kind (setup.selectRule depth ref >>= next) := by
  intro p e h
  rcases setup.selectRule_cases depth ref p with ⟨d, q, hrun, hsel⟩ | ⟨q, hrun, _⟩ |
    ⟨rule, q, hrun, hsel⟩
  · rw [run_bind, hrun] at h
    rw [← Except.error.inj h]
    rcases error_of_selects _ _ _ _ hsel with ⟨_, rfl⟩ | ⟨limit, hlimit, rfl⟩ | ⟨_, rfl⟩
    · exact hguard _
    · exact hdeep limit hlimit
    · exact hchoice _
  · rw [run_bind, hrun] at h
    exact hnone q e h
  · rw [run_bind, hrun] at h
    exact hsome (isTooDeep_of_selects _ _ _ _ hsel) rule (mem_rulesFor_of_selects _ _ _ _ hsel)
      q e h

/-- With a limit, fuel up to it is enough. -/
theorem expand_ne_outOfFuel (setup : Setup σ) {limit : Nat} (hlimit : setup.maxDepth = some limit)
    (fuel depth : Nat) (item : Item) (hle : limit ≤ depth + fuel) :
    FailsOnly (· ≠ .outOfFuel) (setup.expand fuel depth item) := by
  induction fuel, depth, item using expand_induction with
  | text fuel depth s =>
      rw [expand]
      exact failsOnly_pure s
  | lookup fuel depth key chain =>
      rw [expand]
      exact failsOnly_expandLookup nofun key chain
  | foreign fuel depth given =>
      rw [expand]
      exact failsOnly_throw nofun
  | exhausted depth ref =>
      -- Without fuel left the depth has reached the limit, so no rule is selected.
      have hdeep : setup.isTooDeep depth = some limit := by
        simp only [isTooDeep, hlimit, if_pos (show limit ≤ depth by omega)]
      refine setup.failsOnly_selectRule_bind depth ref (fun _ => nofun)
        (fun _ => nofun) (fun _ _ => nofun) (failsOnly_pure _) fun hroom => ?_
      exact absurd (hdeep.symm.trans hroom) nofun
  | reference fuel depth ref ih =>
      refine setup.failsOnly_selectRule_bind depth ref (fun _ => nofun)
        (fun _ => nofun) (fun _ _ => nofun) (failsOnly_pure _) fun _ rule _ => ?_
      exact failsOnly_fire nofun rule ref fun item _ => ih item (by omega)

end Setup

/-- A run that gives text is counted. -/
def Metrics.countRun (m : Metrics) : Except ExpansionError String → Metrics
  | .ok _ => { m with runs := m.runs + 1 }
  | .error _ => m

theorem Metrics.expansions_countRun (m : Metrics) (outcome : Except ExpansionError String) :
    (m.countRun outcome).expansions = m.expansions := by
  cases outcome with
  | ok text => rfl
  | error e => rfl

namespace Engine

/-- The result of a run from what its expansion comes to. -/
def finish (maxDepth : Option Nat) (result : Except ExpansionError String × Progress σ) :
    Except ExpansionError String × Scene × Engine σ :=
  (result.1, result.2.scene, ⟨maxDepth, result.2.source, result.2.metrics.countRun result.1⟩)

variable (chooser : Chooser σ) (engine : Engine σ) (rules : RuleSet) (scene : Scene)
  (root : Reference)

theorem runWith_eq (fuel : Nat) :
    engine.runWith chooser fuel rules scene root = finish engine.maxDepth
      ((Setup.expand ⟨rules, engine.maxDepth, chooser⟩ fuel 0 (.reference root)).run
        ⟨scene, engine.source, engine.metrics⟩) := by
  unfold runWith performWith
  dsimp only
  rcases (Setup.expand ⟨rules, engine.maxDepth, chooser⟩ fuel 0 (.reference root)).run
    ⟨scene, engine.source, engine.metrics⟩ with ⟨outcome, p⟩
  cases outcome with
  | ok text => rfl
  | error e => rfl

/-- A run comes to a result, which it shows when it is followed deep enough. -/
def Ends (result : Except ExpansionError String × Scene × Engine σ) : Prop :=
  result.1 ≠ .error .outOfFuel ∧ ∃ fuel, engine.runWith chooser fuel rules scene root = result

/-- More fuel does not change what a run comes to. -/
theorem runWith_of_le {fuel more : Nat} (hle : fuel ≤ more)
    (h : (engine.runWith chooser fuel rules scene root).1 ≠ .error .outOfFuel) :
    engine.runWith chooser more rules scene root =
      engine.runWith chooser fuel rules scene root := by
  rw [runWith_eq] at h
  let setup : Setup σ := ⟨rules, engine.maxDepth, chooser⟩
  have hextends : Extends (· = .outOfFuel) (setup.expand fuel 0 (.reference root))
      (setup.expand more 0 (.reference root)) :=
    setup.expand_extends setup (by rfl) (fun _ _ => extends_refl _) fuel more 0 _ hle
  rw [runWith_eq, runWith_eq, hextends _ fun e he => ?_]
  rintro rfl
  exact h he

/-- A run has at most one end. -/
theorem ends_unique {a b : Except ExpansionError String × Scene × Engine σ}
    (ha : Ends chooser engine rules scene root a) (hb : Ends chooser engine rules scene root b) :
    a = b := by
  rcases ha with ⟨hga, m, rfl⟩
  rcases hb with ⟨hgb, n, rfl⟩
  -- Whichever shows its result with less fuel shows it with that of the other too.
  rcases Nat.le_total m n with hle | hle
  · exact (runWith_of_le chooser engine rules scene root hle hga).symm
  · exact runWith_of_le chooser engine rules scene root hle hgb

/-- With a limit, a run ends, and shows its result. -/
theorem ends_run [DrawSource σ] {limit : Nat} (hlimit : engine.maxDepth = some limit) :
    Ends Chooser.weighted engine rules scene root (engine.run rules scene root) := by
  refine ⟨fun h => ?_, engine.fuel 0, rfl⟩
  unfold run at h
  rw [runWith_eq] at h
  -- The fuel of a run with a limit is the limit itself.
  have hfuel : limit ≤ 0 + engine.fuel 0 := by
    simp only [fuel, hlimit]
    omega
  exact Setup.expand_ne_outOfFuel ⟨rules, engine.maxDepth, Chooser.weighted⟩ hlimit _ 0
    (.reference root) hfuel _ _ h rfl

end Engine

end TextGrammar
