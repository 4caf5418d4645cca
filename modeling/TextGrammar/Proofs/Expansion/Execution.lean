import TextGrammar.Expansion.Engine

/-!
# Execution

What each step of an expansion does, said once, so that no later proof opens the
monad it is written in.

An expansion run from a state gives an outcome and a state. `Selects` lists the
ways in which the selection of a rule can go, each with the state it leaves
behind. The use of a rule is three steps: the calls before, which only change the
scene, the pieces of the template in order, and the calls after.

## Main definitions

* `Progress.countExpansion`, `Progress.countUnmatched`, `Progress.countFired`: What
  a selection does to the state.
* `Setup.Selects`: The ways in which the selection of a rule can go.
* `Chain.close`, `Scene.lookup`: The calls after, and the text of a look-up.
* `Scene.enter`, `Scene.leave`: The calls around the template of a rule.
* `Setup.expandAll`: The joined text of pieces.

## Theorems

* `Expansion.run_bind`: What comes after a failure is not done.
* `Setup.selects`: A selection goes in one of the listed ways.
* `Setup.mem_rulesFor_of_selects`: The selected rule is one for the tag.
* `Setup.run_fire`: The use of a rule in its three steps.
* `Setup.run_expandAll_cons`: Pieces are expanded one after the other.
* `Setup.run_expandReference`: The expansion of a reference.
* `Setup.expand_induction`: Induction along an expansion.
-/

namespace TextGrammar

variable {σ : Type}

/-- A computation goes on from the state that its first part leaves behind, unless
    that part fails. -/
theorem Expansion.run_bind {α β : Type} (x : Expansion σ α) (f : α → Expansion σ β)
    (p : Progress σ) :
    (x >>= f).run p =
      match x.run p with
      | (.ok a, q) => (f a).run q
      | (.error e, q) => (.error e, q) := by
  change (match x.run p with | (outcome, q) => ExceptT.bindCont f outcome q) = _
  rcases x.run p with ⟨outcome, q⟩
  cases outcome with
  | error e => rfl
  | ok a => rfl

/-- Reading the state changes nothing. -/
theorem Expansion.run_get_bind {α : Type} (f : Progress σ → Expansion σ α) (p : Progress σ) :
    (get >>= f).run p = (f p).run p :=
  rfl

/-- What follows a change of the state starts from the changed one. -/
theorem Expansion.run_modify_bind {α : Type} (g : Progress σ → Progress σ)
    (f : PUnit → Expansion σ α) (p : Progress σ) :
    (modify g >>= f).run p = (f ⟨⟩).run (g p) :=
  rfl

/-- What follows a new state starts from it. -/
theorem Expansion.run_set_bind {α : Type} (q : Progress σ) (f : PUnit → Expansion σ α)
    (p : Progress σ) : (set q >>= f).run p = (f ⟨⟩).run q :=
  rfl

/-- Computations are equal when they do the same from every state. -/
theorem Expansion.ext {α : Type} {x y : Expansion σ α} (h : ∀ p, x.run p = y.run p) : x = y :=
  ExceptT.ext (funext h)

namespace Progress

/-- One more reference is expanded. -/
def countExpansion (p : Progress σ) : Progress σ :=
  { p with metrics := { p.metrics with expansions := p.metrics.expansions + 1 } }

/-- One more reference has no candidate. -/
def countUnmatched (p : Progress σ) : Progress σ :=
  { p with metrics := { p.metrics with unmatched := p.metrics.unmatched + 1 } }

/-- One more rule is used for a tag. -/
def countFired (tag : Tag) (p : Progress σ) : Progress σ :=
  { p with metrics := p.metrics.countFired tag }

end Progress

namespace Setup

variable (setup : Setup σ) (depth : Nat) (ref : Reference) (p : Progress σ)

/-- The ways in which the selection of a rule can go: a guard is malformed, there
    is no candidate, candidates are refused at this depth, the choice misses them
    all, or it finds one. -/
inductive Selects : Except ExpansionError (Option RegisteredRule) → Progress σ → Prop
  | malformed (e : EvaluationError)
      (hfind : Candidates.find setup.rules ref p.scene.data = .error e) :
      Selects (.error (.evaluation e)) p.countExpansion
  | unmatched (found : Candidates)
      (hfind : Candidates.find setup.rules ref p.scene.data = .ok found)
      (hnil : found.rules = []) :
      Selects (.ok none) p.countExpansion.countUnmatched
  | refused (found : Candidates) (limit : Nat)
      (hfind : Candidates.find setup.rules ref p.scene.data = .ok found)
      (hne : found.rules ≠ []) (hdeep : setup.isTooDeep depth = some limit) :
      Selects (.error (.tooDeep limit ref.tag)) p.countExpansion
  | missed (found : Candidates) (source : σ)
      (hfind : Candidates.find setup.rules ref p.scene.data = .ok found)
      (hne : found.rules ≠ []) (hroom : setup.isTooDeep depth = none)
      (hchoose : setup.chooser found p.source = (none, source)) :
      Selects (.error (.nothingChosen found.totalFrequency))
        { p.countExpansion with source := source }
  | chosen (found : Candidates) (rule : RegisteredRule) (source : σ)
      (hfind : Candidates.find setup.rules ref p.scene.data = .ok found)
      (hne : found.rules ≠ []) (hroom : setup.isTooDeep depth = none)
      (hchoose : setup.chooser found p.source = (some rule, source)) :
      Selects (.ok (some rule))
        (Progress.countFired ref.tag { p.countExpansion with source := source })

theorem run_selectRule :
    (setup.selectRule depth ref).run p =
      match Candidates.find setup.rules ref p.scene.data with
      | .error e => (.error (.evaluation e), p.countExpansion)
      | .ok found =>
        if found.rules.isEmpty then (.ok none, p.countExpansion.countUnmatched)
        else
          match setup.isTooDeep depth with
          | some limit => (.error (.tooDeep limit ref.tag), p.countExpansion)
          | none =>
            match setup.chooser found p.source with
            | (none, source) =>
              (.error (.nothingChosen found.totalFrequency),
                { p.countExpansion with source := source })
            | (some rule, source) =>
              (.ok (some rule),
                Progress.countFired ref.tag { p.countExpansion with source := source }) := by
  -- The count comes first, and the search reads the data as they were before it.
  rw [selectRule, Expansion.run_modify_bind, Expansion.run_get_bind]
  cases Candidates.find setup.rules ref p.scene.data with
  | error e => rfl
  | ok found =>
      dsimp only
      split
      · rfl
      · cases setup.isTooDeep depth with
        | some limit => rfl
        | none =>
            -- The source is stored before the choice is looked at, so a choice that
            -- misses all candidates takes its draw too.
            rcases setup with ⟨rules, maxDepth, ⟨choose, _⟩⟩
            dsimp only
            rw [Expansion.run_set_bind]
            rcases choose found p.source with ⟨choice, source⟩
            cases choice with
            | none => rfl
            | some rule => rfl

/-- A selection goes in one of the listed ways. -/
theorem selects {outcome : Except ExpansionError (Option RegisteredRule)} {q : Progress σ}
    (h : (setup.selectRule depth ref).run p = (outcome, q)) :
    Selects setup depth ref p outcome q := by
  rw [run_selectRule] at h
  -- The cases follow the order of the tests: the search, the candidates, the limit, the draw.
  cases hfind : Candidates.find setup.rules ref p.scene.data with
  | error e =>
      rw [hfind] at h
      cases h
      exact .malformed e hfind
  | ok found =>
      simp only [hfind] at h
      split at h
      · rename_i hnil
        cases h
        exact .unmatched found hfind (List.isEmpty_iff.1 hnil)
      · rename_i hne
        have hne' : found.rules ≠ [] := fun h => hne (List.isEmpty_iff.2 h)
        cases hdeep : setup.isTooDeep depth with
        | some limit =>
            rw [hdeep] at h
            cases h
            exact .refused found limit hfind hne' hdeep
        | none =>
            rcases hchoose : setup.chooser found p.source with ⟨choice, source⟩
            simp only [hdeep, hchoose] at h
            cases choice with
            | none =>
                cases h
                exact .missed found source hfind hne' hdeep hchoose
            | some rule =>
                cases h
                exact .chosen found rule source hfind hne' hdeep hchoose

/-- What is listed does happen. -/
theorem run_of_selects {outcome : Except ExpansionError (Option RegisteredRule)} {q : Progress σ}
    (h : Selects setup depth ref p outcome q) :
    (setup.selectRule depth ref).run p = (outcome, q) := by
  rw [run_selectRule]
  cases h with
  | malformed e hfind => rw [hfind]
  | unmatched found hfind hnil =>
      rw [hfind]
      exact if_pos (List.isEmpty_iff.2 hnil)
  | refused found limit hfind hne hdeep =>
      rw [hfind, hdeep]
      exact if_neg fun h => hne (List.isEmpty_iff.1 h)
  | missed found source hfind hne hroom hchoose =>
      rw [hfind, hroom]
      dsimp only
      rw [hchoose]
      exact if_neg fun h => hne (List.isEmpty_iff.1 h)
  | chosen found rule source hfind hne hroom hchoose =>
      rw [hfind, hroom]
      dsimp only
      rw [hchoose]
      exact if_neg fun h => hne (List.isEmpty_iff.1 h)

/-- The selected rule is one of those for the tag. -/
theorem mem_rulesFor_of_selects {rule : RegisteredRule} {q : Progress σ}
    (h : Selects setup depth ref p (.ok (some rule)) q) :
    rule ∈ setup.rules.rulesFor ref.tag := by
  cases h with
  | chosen found _ source hfind _ _ hchoose =>
      have hmem := setup.chooser.mem_of_choose found p.source rule (by rw [hchoose])
      exact Candidates.mem_of_find setup.rules ref p.scene.data found hfind rule hmem

/-- A selection fails with a guard, at the depth limit or in the choice. -/
theorem error_of_selects {e : ExpansionError} {q : Progress σ}
    (h : Selects setup depth ref p (.error e) q) :
    (∃ reason, e = .evaluation reason) ∨
      (∃ limit, setup.isTooDeep depth = some limit ∧ e = .tooDeep limit ref.tag) ∨
      ∃ total, e = .nothingChosen total := by
  cases h with
  | malformed reason _ => exact Or.inl ⟨reason, rfl⟩
  | refused _ limit _ _ hdeep => exact Or.inr (Or.inl ⟨limit, hdeep, rfl⟩)
  | missed found _ _ _ _ _ => exact Or.inr (Or.inr ⟨found.totalFrequency, rfl⟩)

/-- A rule is selected above the depth limit only. -/
theorem isTooDeep_of_selects {rule : RegisteredRule} {q : Progress σ}
    (h : Selects setup depth ref p (.ok (some rule)) q) : setup.isTooDeep depth = none := by
  cases h with
  | chosen _ _ _ _ _ hroom _ => exact hroom

/-- A selection fails, finds no candidate or selects a rule. -/
theorem selectRule_cases :
    (∃ e q, (setup.selectRule depth ref).run p = (.error e, q) ∧
      Selects setup depth ref p (.error e) q) ∨
    (∃ q, (setup.selectRule depth ref).run p = (.ok none, q) ∧
      Selects setup depth ref p (.ok none) q) ∨
    ∃ rule q, (setup.selectRule depth ref).run p = (.ok (some rule), q) ∧
      Selects setup depth ref p (.ok (some rule)) q := by
  rcases hrun : (setup.selectRule depth ref).run p with ⟨outcome, q⟩
  have hsel := setup.selects depth ref p hrun
  cases outcome with
  | error e => exact Or.inl ⟨e, q, rfl, hsel⟩
  | ok choice =>
      cases choice with
      | none => exact Or.inr (Or.inl ⟨q, rfl, hsel⟩)
      | some rule => exact Or.inr (Or.inr ⟨rule, q, rfl, hsel⟩)

end Setup

/-- The calls of a chain after a substitution, on a text. -/
def Chain.close (chain : Chain) (target text : String) (scene : Scene) :
    Except ExpansionError String × Scene :=
  match chain.after? target text scene with
  | (.ok text, scene) => (.ok text, scene)
  | (.error .undefinedNumeric, scene) => (.error .undefinedNumeric, scene)

/-- The calls after a substitution, their failures taken as those of an expansion. -/
theorem Chain.close_eq_mapError (chain : Chain) (target text : String) (scene : Scene) :
    chain.close target text scene =
      ((chain.after? target text scene).1.mapError fun _ => .undefinedNumeric,
        (chain.after? target text scene).2) := by
  unfold close
  rcases chain.after? target text scene with ⟨outcome, final⟩
  cases outcome with
  | ok result => rfl
  | error e => cases e with | undefinedNumeric => rfl

theorem Chain.error_of_close {chain : Chain} {target text : String} {scene : Scene}
    {e : ExpansionError} (h : (chain.close target text scene).1 = .error e) :
    e = .undefinedNumeric := by
  unfold close at h
  split at h
  · exact absurd h nofun
  · exact (Except.error.inj h).symm

namespace Scene

/-- The text of a look-up. -/
def lookup (key : String) (chain : Chain) (scene : Scene) : Except ExpansionError String × Scene :=
  let target := Item.lookupText key
  let opened := chain.before target scene
  let text := match opened.data.get? key with
    | some d => d.toText
    | none => target
  chain.close target text opened

/-- The calls before the template of a rule: those of the rule, then those of the
    reference. -/
def enter (rule : RegisteredRule) (ref : Reference) (scene : Scene) : Scene :=
  ref.watchers.before ref.tag.toText (rule.watchers.before ref.tag.toText scene)

/-- The calls after the template of a rule, on the outcome of its pieces: those of
    the reference, then those of the rule. A failure is not called back. -/
def leave (rule : RegisteredRule) (ref : Reference) :
    Except ExpansionError String → Scene → Except ExpansionError String × Scene
  | .error e, scene => (.error e, scene)
  | .ok text, scene =>
    match ref.watchers.close ref.tag.toText text scene with
    | (.ok text, scene) => rule.watchers.close ref.tag.toText text scene
    | (.error e, scene) => (.error e, scene)

end Scene

namespace Setup

/-- The joined text of pieces, which are expanded in order. -/
def expandAll (expandItem : Item → Expansion σ String) : Content → Expansion σ String
  | [] => pure ""
  | item :: rest => do
    let text ← expandItem item
    let more ← expandAll expandItem rest
    pure (text ++ more)

theorem intercalate_cons (text : String) (rest : List String) :
    "".intercalate (text :: rest) = text ++ "".intercalate rest := by
  cases rest with
  | nil => rw [String.intercalate_singleton, String.intercalate_nil, String.append_empty]
  | cons t ts => rw [String.intercalate_cons_cons, String.append_empty]

/-- Joining the texts at the end is the same as joining them on the way. -/
theorem expandAll_eq (expandItem : Item → Expansion σ String) (content : Content) :
    expandAll expandItem content = (do
      let parts ← content.mapM expandItem
      pure ("".intercalate parts)) := by
  induction content with
  | nil => rw [expandAll, List.mapM_nil, pure_bind, String.intercalate_nil]
  | cons item rest ih =>
      rw [expandAll, ih, List.mapM_cons]
      simp only [bind_assoc, pure_bind, intercalate_cons]

theorem run_expandAll_cons (expandItem : Item → Expansion σ String) (item : Item) (rest : Content)
    (p : Progress σ) :
    (expandAll expandItem (item :: rest)).run p =
      match (expandItem item).run p with
      | (.error e, q) => (.error e, q)
      | (.ok text, q) =>
        match (expandAll expandItem rest).run q with
        | (.error e, q) => (.error e, q)
        | (.ok more, q) => (.ok (text ++ more), q) := by
  rw [expandAll, Expansion.run_bind]
  rcases (expandItem item).run p with ⟨outcome, q⟩
  cases outcome with
  | error e => rfl
  | ok text =>
      dsimp only
      rw [Expansion.run_bind]
      rcases (expandAll expandItem rest).run q with ⟨outcome, q⟩
      cases outcome with
      | error e => rfl
      | ok more => rfl

theorem run_callAfter (chain : Chain) (target text : String) (p : Progress σ) :
    (callAfter chain target text).run p =
      ((chain.close target text p.scene).1,
        { p with scene := (chain.close target text p.scene).2 }) := by
  -- The scene is stored before the result is looked at, so a failure keeps it.
  rw [callAfter, Expansion.run_get_bind, Chain.close]
  rcases chain.after? target text p.scene with ⟨outcome, scene⟩
  cases outcome with
  | ok text => rfl
  | error e =>
      cases e with
      | undefinedNumeric => rfl

/-- A look-up changes nothing but the scene. -/
theorem run_expandLookup (key : String) (chain : Chain) (p : Progress σ) :
    (expandLookup key chain).run p =
      ((p.scene.lookup key chain).1, { p with scene := (p.scene.lookup key chain).2 }) := by
  unfold expandLookup
  -- The name is read after the calls before, which may have written it.
  change (callAfter chain (Item.lookupText key)
    (match (chain.before (Item.lookupText key) p.scene).data.get? key with
      | some d => d.toText
      | none => Item.lookupText key) : Expansion σ String).run
    { p with scene := chain.before (Item.lookupText key) p.scene } = _
  rw [run_callAfter]
  rfl

theorem fire_eq (expandItem : Item → Expansion σ String) (rule : RegisteredRule)
    (ref : Reference) :
    fire expandItem rule ref = (do
      callBefore rule.watchers ref.tag.toText
      callBefore ref.watchers ref.tag.toText
      let text ← expandAll expandItem rule.content
      let text ← callAfter ref.watchers ref.tag.toText text
      callAfter rule.watchers ref.tag.toText text) := by
  unfold fire
  rw [expandAll_eq]
  simp only [bind_assoc, pure_bind]

theorem expandAll_congr {f g : Item → Expansion σ String} {content : Content}
    (h : ∀ item ∈ content, f item = g item) : expandAll f content = expandAll g content := by
  induction content with
  | nil => rfl
  | cons item rest ih =>
      have hrest := ih fun other hother => h other (List.mem_cons_of_mem _ hother)
      rw [expandAll, expandAll, h item (List.mem_cons_self ..), hrest]

/-- The use of a rule depends on how the pieces of its template are expanded. -/
theorem fire_congr {f g : Item → Expansion σ String} (rule : RegisteredRule) (ref : Reference)
    (h : ∀ item ∈ rule.content, f item = g item) : fire f rule ref = fire g rule ref := by
  rw [fire_eq, fire_eq, expandAll_congr h]

/-- The use of a rule: the calls before, the pieces of its template, the calls after. -/
theorem run_fire (expandItem : Item → Expansion σ String) (rule : RegisteredRule)
    (ref : Reference) (p : Progress σ) :
    (fire expandItem rule ref).run p =
      match (expandAll expandItem rule.content).run { p with scene := p.scene.enter rule ref } with
      | (outcome, q) =>
        ((q.scene.leave rule ref outcome).1,
          { q with scene := (q.scene.leave rule ref outcome).2 }) := by
  rw [fire_eq]
  -- The two calls before the template are one change of the scene.
  change (expandAll expandItem rule.content >>= fun text =>
      callAfter ref.watchers ref.tag.toText text >>= callAfter rule.watchers ref.tag.toText).run
    { p with scene := p.scene.enter rule ref } = _
  rw [Expansion.run_bind]
  rcases (expandAll expandItem rule.content).run { p with scene := p.scene.enter rule ref } with
    ⟨outcome, q⟩
  cases outcome with
  | error e => rfl
  | ok text =>
      dsimp only
      rw [Expansion.run_bind, run_callAfter]
      simp only [Scene.leave]
      rcases ref.watchers.close ref.tag.toText text q.scene with ⟨outcome, scene⟩
      cases outcome with
      | error e => rfl
      | ok text => exact run_callAfter rule.watchers ref.tag.toText text _

/-- The text of a reference, for a way to expand the pieces of the template. -/
def expandReference (setup : Setup σ) (depth : Nat) (ref : Reference)
    (expandItem : Item → Expansion σ String) : Expansion σ String := do
  match ← setup.selectRule depth ref with
  | none => pure ref.tag.toText
  | some rule => fire expandItem rule ref

theorem expand_reference (setup : Setup σ) (fuel depth : Nat) (ref : Reference) :
    setup.expand (fuel + 1) depth (.reference ref) =
      setup.expandReference depth ref (setup.expand fuel (depth + 1)) := rfl

theorem run_expandReference (setup : Setup σ) (depth : Nat) (ref : Reference)
    (expandItem : Item → Expansion σ String) (p : Progress σ) :
    (setup.expandReference depth ref expandItem).run p =
      match (setup.selectRule depth ref).run p with
      | (.error e, q) => (.error e, q)
      | (.ok none, q) => (.ok ref.tag.toText, q)
      | (.ok (some rule), q) => (fire expandItem rule ref).run q := by
  unfold expandReference
  rw [Expansion.run_bind]
  rcases (setup.selectRule depth ref).run p with ⟨outcome, q⟩
  cases outcome with
  | error e => rfl
  | ok choice =>
      cases choice with
      | none => rfl
      | some rule => rfl

/-- Without fuel, a reference for which a rule is selected is given up. -/
theorem run_expand_zero_reference (setup : Setup σ) (depth : Nat) (ref : Reference)
    (p : Progress σ) :
    (setup.expand 0 depth (.reference ref)).run p =
      match (setup.selectRule depth ref).run p with
      | (.error e, q) => (.error e, q)
      | (.ok none, q) => (.ok ref.tag.toText, q)
      | (.ok (some _), q) => (.error .outOfFuel, q) := by
  unfold expand
  rw [Expansion.run_bind]
  rcases (setup.selectRule depth ref).run p with ⟨outcome, q⟩
  cases outcome with
  | error e => rfl
  | ok choice =>
      cases choice with
      | none => rfl
      | some rule => rfl

/-- Induction along an expansion. Pieces other than references are the same with any
    fuel, and a reference goes on one level further down with less of it. -/
@[elab_as_elim]
theorem expand_induction {motive : Nat → Nat → Item → Prop}
    (text : ∀ fuel depth s, motive fuel depth (.text s))
    (lookup : ∀ fuel depth key chain, motive fuel depth (.lookup key chain))
    (foreign : ∀ fuel depth given, motive fuel depth (.foreign given))
    (exhausted : ∀ depth ref, motive 0 depth (.reference ref))
    (reference : ∀ fuel depth ref, (∀ item, motive fuel (depth + 1) item) →
      motive (fuel + 1) depth (.reference ref))
    (fuel depth : Nat) (item : Item) : motive fuel depth item := by
  induction fuel generalizing depth item with
  | zero =>
      cases item with
      | text s => exact text 0 depth s
      | lookup key chain => exact lookup 0 depth key chain
      | foreign given => exact foreign 0 depth given
      | reference ref => exact exhausted depth ref
  | succ fuel ih =>
      cases item with
      | text s => exact text (fuel + 1) depth s
      | lookup key chain => exact lookup (fuel + 1) depth key chain
      | foreign given => exact foreign (fuel + 1) depth given
      | reference ref => exact reference fuel depth ref (ih (depth + 1))

/-- A selection that fails is the end of a reference, whatever the fuel. -/
theorem run_expand_of_error {setup : Setup σ} {depth : Nat} {ref : Reference} {p q : Progress σ}
    {e : ExpansionError} (fuel : Nat) (h : (setup.selectRule depth ref).run p = (.error e, q)) :
    (setup.expand fuel depth (.reference ref)).run p = (.error e, q) := by
  cases fuel with
  | zero => rw [run_expand_zero_reference, h]
  | succ fuel => rw [expand_reference, run_expandReference, h]

/-- A reference without candidates gives the tag, whatever the fuel. -/
theorem run_expand_of_none {setup : Setup σ} {depth : Nat} {ref : Reference} {p q : Progress σ}
    (fuel : Nat) (h : (setup.selectRule depth ref).run p = (.ok none, q)) :
    (setup.expand fuel depth (.reference ref)).run p = (.ok ref.tag.toText, q) := by
  cases fuel with
  | zero => rw [run_expand_zero_reference, h]
  | succ fuel => rw [expand_reference, run_expandReference, h]

/-- A selected rule is used, with less fuel and one level further down. -/
theorem run_expand_of_some {setup : Setup σ} {depth : Nat} {ref : Reference} {p q : Progress σ}
    {rule : RegisteredRule} (fuel : Nat)
    (h : (setup.selectRule depth ref).run p = (.ok (some rule), q)) :
    (setup.expand (fuel + 1) depth (.reference ref)).run p =
      (fire (setup.expand fuel (depth + 1)) rule ref).run q := by
  rw [expand_reference, run_expandReference, h]

end Setup

end TextGrammar
