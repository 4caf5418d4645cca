import TextGrammar.Proofs.Expansion.Fuel

/-!
# The Depth Limit

That the depth limit cuts runs off and does nothing else.

The limit stands between the search for candidates and the draw. Above it, or
without candidates, a selection does not notice it; otherwise the selection
fails. An expansion that was not cut off is therefore the same with a larger
limit or with none, as it is with more fuel.

The other way round, an expansion that finds candidates only above the limit is
never refused, and to be followed as deep as the limit is enough for it. To say
so, one has to know at which depths an expansion finds candidates. This is a list
that follows the expansion step by step, and the two expansions are compared
along it.

## Main definitions

* `Setup.limitedTo`: The same rules and chooser with a depth limit.
* `Setup.hasCandidates`: Whether there are candidates for a reference.
* `Setup.candidateDepths`, `Setup.candidateDepthsAll`: The depths at which the
  expansion of a piece or of several finds candidates.
* `Engine.ComesTo`: The result of a run, with a limit or without one.

## Theorems

* `Setup.extends_limitedTo`: A larger limit changes what was cut off only.
* `Setup.run_expand_limitedTo`: A limit below all candidates changes nothing.
* `Engine.run_of_le_limit`: A run that is not cut off is the same with all larger
  limits, and one that stays above a limit is the same with it.
-/

namespace TextGrammar

variable {σ : Type}

/-- A failure that ends an expansion because of its depth: a refusal, or the lack of
    fuel to follow it further. -/
def ExpansionError.IsCutOff : ExpansionError → Prop
  | .tooDeep _ _ => True
  | .outOfFuel => True
  | _ => False

namespace Setup

/-- The same rules and chooser with a depth limit. -/
def limitedTo (setup : Setup σ) (limit : Nat) : Setup σ := { setup with maxDepth := some limit }

/-- Whether the search finds candidates for a reference. -/
def hasCandidates (setup : Setup σ) (ref : Reference) (p : Progress σ) : Bool :=
  match Candidates.find setup.rules ref p.scene.data with
  | .ok found => !found.rules.isEmpty
  | .error _ => false

variable (setup : Setup σ) {limit depth : Nat} (ref : Reference)

/-- A bound that is at least the limit is not noticed above the limit. -/
theorem isTooDeep_of_lt (hbound : ∀ bound ∈ setup.maxDepth, limit ≤ bound) (h : depth < limit) :
    setup.isTooDeep depth = none := by
  unfold isTooDeep
  cases hmax : setup.maxDepth with
  | none => rfl
  | some bound =>
      have := hbound bound hmax
      exact if_neg (by omega)

/-- Above the limit a selection does not notice it. -/
theorem selectRule_limitedTo (hbound : ∀ bound ∈ setup.maxDepth, limit ≤ bound)
    (h : depth < limit) :
    (setup.limitedTo limit).selectRule depth ref = setup.selectRule depth ref := by
  have hlimited : (setup.limitedTo limit).isTooDeep depth = none := if_neg (Nat.not_le_of_lt h)
  refine Expansion.ext fun p => ?_
  rw [run_selectRule, run_selectRule, hlimited, setup.isTooDeep_of_lt hbound h]
  rfl

/-- Without candidates a selection does not notice the limit. -/
theorem run_selectRule_of_not_hasCandidates {p : Progress σ}
    (h : setup.hasCandidates ref p = false) :
    ((setup.limitedTo limit).selectRule depth ref).run p =
      (setup.selectRule depth ref).run p := by
  unfold hasCandidates at h
  have hrules : (setup.limitedTo limit).rules = setup.rules := rfl
  rw [run_selectRule, run_selectRule, hrules]
  cases hfind : Candidates.find setup.rules ref p.scene.data with
  | error e => rfl
  | ok found =>
      rw [hfind] at h
      have hnil : found.rules.isEmpty = true := by simpa using h
      dsimp only
      rw [if_pos hnil, if_pos hnil]

/-- From the limit on, a reference with candidates is refused. -/
theorem run_selectRule_of_le {p : Progress σ} (h : setup.hasCandidates ref p = true)
    (hle : limit ≤ depth) :
    ((setup.limitedTo limit).selectRule depth ref).run p =
      (.error (.tooDeep limit ref.tag), p.countExpansion) := by
  unfold hasCandidates at h
  cases hfind : Candidates.find setup.rules ref p.scene.data with
  | error e =>
      rw [hfind] at h
      exact absurd h nofun
  | ok found =>
      rw [hfind] at h
      have hne : found.rules ≠ [] := by simpa using h
      exact run_of_selects _ _ _ _ (.refused found limit hfind hne (if_pos hle))

/-- A larger bound changes the selections that the limit refuses, and no others. -/
theorem extends_selectRule_limitedTo (hbound : ∀ bound ∈ setup.maxDepth, limit ≤ bound) :
    Expansion.Extends ExpansionError.IsCutOff ((setup.limitedTo limit).selectRule depth ref)
      (setup.selectRule depth ref) := by
  intro p hkept
  by_cases hlt : depth < limit
  · rw [setup.selectRule_limitedTo ref hbound hlt]
  · cases hcandidates : setup.hasCandidates ref p with
    | false => exact (setup.run_selectRule_of_not_hasCandidates ref hcandidates).symm
    | true =>
        have hrefused : ((setup.limitedTo limit).selectRule depth ref).run p =
            (.error (.tooDeep limit ref.tag), p.countExpansion) :=
          setup.run_selectRule_of_le ref hcandidates (Nat.le_of_not_lt hlt)
        exact absurd trivial (hkept (.tooDeep limit ref.tag) (by rw [hrefused]))

/-- An expansion that the limit has not cut off is the same with a larger bound. -/
theorem extends_limitedTo (hbound : ∀ bound ∈ setup.maxDepth, limit ≤ bound)
    {fuel more : Nat} (hle : fuel ≤ more) (item : Item) :
    Expansion.Extends ExpansionError.IsCutOff ((setup.limitedTo limit).expand fuel depth item)
      (setup.expand more depth item) :=
  expand_extends _ setup trivial
    (fun _ ref => setup.extends_selectRule_limitedTo ref hbound) fuel more depth item hle

/-- The depths at which the expansion of pieces finds candidates, one piece after the
    other until one fails, for a way to expand a piece and the depths for a piece. -/
def candidateDepthsAll (expandItem : Item → Expansion σ String)
    (depthsOf : Item → Progress σ → List Nat) : Content → Progress σ → List Nat
  | [], _ => []
  | item :: rest, p =>
    depthsOf item p ++
      match (expandItem item).run p with
      | (.ok _, q) => candidateDepthsAll expandItem depthsOf rest q
      | (.error _, _) => []

/-- The depths at which the expansion of a piece finds candidates. -/
def candidateDepths (setup : Setup σ) : Nat → Nat → Item → Progress σ → List Nat
  | _, _, .text _, _ => []
  | _, _, .lookup _ _, _ => []
  | _, _, .foreign _, _ => []
  | 0, depth, .reference ref, p => if setup.hasCandidates ref p then [depth] else []
  | fuel + 1, depth, .reference ref, p =>
    (if setup.hasCandidates ref p then [depth] else []) ++
      match (setup.selectRule depth ref).run p with
      | (.ok (some rule), q) =>
        candidateDepthsAll (setup.expand fuel (depth + 1)) (candidateDepths setup fuel (depth + 1))
          rule.content { q with scene := q.scene.enter rule ref }
      | _ => []

/-- A reference notices the limit only at its own depth or in the template of the
    selected rule. -/
theorem run_selectRule_limitedTo {ref : Reference} {p : Progress σ}
    (hbound : ∀ bound ∈ setup.maxDepth, limit ≤ bound)
    (h : ∀ d ∈ (if setup.hasCandidates ref p then [depth] else []), d < limit) :
    ((setup.limitedTo limit).selectRule depth ref).run p =
      (setup.selectRule depth ref).run p := by
  cases hcandidates : setup.hasCandidates ref p with
  | false => exact setup.run_selectRule_of_not_hasCandidates ref hcandidates
  | true =>
      rw [hcandidates] at h
      rw [setup.selectRule_limitedTo ref hbound (h depth (List.mem_singleton_self depth))]

/-- A selected rule was a candidate. -/
theorem hasCandidates_of_selects {p q : Progress σ} {rule : RegisteredRule}
    (h : Selects setup depth ref p (.ok (some rule)) q) : setup.hasCandidates ref p = true := by
  cases h with
  | chosen found _ _ hfind hne _ _ =>
      unfold hasCandidates
      rw [hfind]
      simpa using hne

/-- A reference whose own candidates are above the limit is expanded alike, unless a
    rule is selected and its template is not. -/
theorem run_reference_limitedTo (hbound : ∀ bound ∈ setup.maxDepth, limit ≤ bound)
    (fuel more : Nat) (p : Progress σ)
    (hself : ∀ d ∈ (if setup.hasCandidates ref p then [depth] else []), d < limit)
    (hchosen : ∀ rule q, depth < limit →
      (setup.selectRule depth ref).run p = (.ok (some rule), q) →
      ((setup.limitedTo limit).selectRule depth ref).run p = (.ok (some rule), q) →
      ((setup.limitedTo limit).expand more depth (.reference ref)).run p =
        (setup.expand fuel depth (.reference ref)).run p) :
    ((setup.limitedTo limit).expand more depth (.reference ref)).run p =
      (setup.expand fuel depth (.reference ref)).run p := by
  have hselect := setup.run_selectRule_limitedTo hbound hself
  rcases setup.selectRule_cases depth ref p with ⟨e, q, hrun, _⟩ | ⟨q, hrun, _⟩ |
    ⟨rule, q, hrun, hsel⟩
  · rw [run_expand_of_error _ hrun, run_expand_of_error _ (hselect.trans hrun)]
  · rw [run_expand_of_none _ hrun, run_expand_of_none _ (hselect.trans hrun)]
  · rw [setup.hasCandidates_of_selects ref hsel] at hself
    exact hchosen rule q (hself depth (List.mem_singleton_self depth)) hrun (hselect.trans hrun)

/-- Pieces are expanded alike when each of them is, as far as it stays above the
    limit. -/
theorem run_expandAll_limitedTo {f g : Item → Expansion σ String}
    {depthsOf : Item → Progress σ → List Nat} (content : Content)
    (h : ∀ item ∈ content, ∀ p, (∀ d ∈ depthsOf item p, d < limit) →
      (f item).run p = (g item).run p)
    (p : Progress σ) (habove : ∀ d ∈ candidateDepthsAll g depthsOf content p, d < limit) :
    (expandAll f content).run p = (expandAll g content).run p := by
  induction content generalizing p with
  | nil => rfl
  | cons item rest ih =>
      rw [candidateDepthsAll] at habove
      have hitem := h item (List.mem_cons_self ..) p fun d hd =>
        habove d (List.mem_append_left _ hd)
      rw [run_expandAll_cons, run_expandAll_cons, hitem]
      rcases hrun : (g item).run p with ⟨outcome, q⟩
      cases outcome with
      | error e => rfl
      | ok text =>
          rw [hrun] at habove
          dsimp only
          rw [ih (fun other hother => h other (List.mem_cons_of_mem _ hother)) q fun d hd =>
            habove d (List.mem_append_right _ hd)]

/-- An expansion that finds candidates above the limit only is the same with it, when
    both are followed as deep as the limit. -/
theorem run_expand_limitedTo (hbound : ∀ bound ∈ setup.maxDepth, limit ≤ bound)
    (fuel depth : Nat) (item : Item) (more : Nat) (hfuel : limit ≤ depth + fuel)
    (hmore : limit ≤ depth + more) (p : Progress σ)
    (habove : ∀ d ∈ setup.candidateDepths fuel depth item p, d < limit) :
    ((setup.limitedTo limit).expand more depth item).run p =
      (setup.expand fuel depth item).run p := by
  induction fuel, depth, item using expand_induction generalizing more p with
  | text fuel depth s => rw [expand, expand]
  | lookup fuel depth key chain => rw [expand, expand]
  | foreign fuel depth given => rw [expand, expand]
  | exhausted depth ref =>
      -- Without fuel the depth has reached the limit, so there are no candidates.
      rw [candidateDepths] at habove
      exact setup.run_reference_limitedTo ref hbound 0 more p habove fun _ _ hlt _ _ =>
        absurd hlt (by omega)
  | reference fuel depth ref ih =>
      rw [candidateDepths] at habove
      refine setup.run_reference_limitedTo ref hbound (fuel + 1) more p
        (fun d hd => habove d (List.mem_append_left _ hd)) fun rule q hlt hrun hlimited => ?_
      cases more with
      | zero => omega
      | succ more =>
          -- The template starts from the same state one level further down.
          rw [hrun] at habove
          rw [run_expand_of_some _ hrun, run_expand_of_some _ hlimited, run_fire, run_fire,
            run_expandAll_limitedTo rule.content (fun item _ p hitem =>
              ih item more (by omega) (by omega) p hitem) _ fun d hd =>
                habove d (List.mem_append_right _ hd)]

end Setup

namespace Engine

/-- The result of a run: what it gives if there is a depth limit, and otherwise what
    it ends with when it is followed deep enough. -/
def ComesTo [DrawSource σ] (engine : Engine σ) (rules : RuleSet) (scene : Scene)
    (root : Reference) (result : Except ExpansionError String × Scene × Engine σ) : Prop :=
  match engine.maxDepth with
  | some _ => engine.run rules scene root = result
  | none => Ends Chooser.weighted engine rules scene root result

theorem comesTo_of_ends [DrawSource σ] {engine : Engine σ} {rules : RuleSet} {scene : Scene}
    {root : Reference} {result : Except ExpansionError String × Scene × Engine σ}
    (h : Ends Chooser.weighted engine rules scene root result) :
    engine.ComesTo rules scene root result := by
  unfold ComesTo
  cases hmax : engine.maxDepth with
  | some limit => exact ends_unique _ _ _ _ _ (ends_run engine rules scene root hmax) h
  | none => exact h

/-- The depths at which a run finds candidates, for an amount of fuel. -/
def candidateDepths [DrawSource σ] (fuel : Nat) (engine : Engine σ) (rules : RuleSet)
    (scene : Scene) (root : Reference) : List Nat :=
  Setup.candidateDepths ⟨rules, engine.maxDepth, Chooser.weighted⟩ fuel 0 (.reference root)
    ⟨scene, engine.source, engine.metrics⟩

/-- A run that the limit does not cut off comes to the same with every larger limit and
    with none: the same outcome, namespace, record of calls, draws and metrics. The
    other way round, a run with a larger limit or none that finds candidates above
    the limit only, when it is followed at least that deep, is the same with it. -/
theorem run_of_le_limit [DrawSource σ] (engine : Engine σ) (rules : RuleSet) (scene : Scene)
    (root : Reference) (limit : Nat) :
    ∃ outcome final source metrics,
      Engine.run { engine with maxDepth := some limit } rules scene root =
        (outcome, final, ⟨some limit, source, metrics⟩) ∧
      ∀ larger : Option Nat, (∀ bound ∈ larger, limit ≤ bound) →
        ((∀ bound tag, outcome ≠ .error (.tooDeep bound tag)) →
          ComesTo { engine with maxDepth := larger } rules scene root
            (outcome, final, ⟨larger, source, metrics⟩)) ∧
        (∀ fuel, limit ≤ fuel →
          (∀ depth ∈ candidateDepths fuel { engine with maxDepth := larger } rules scene root,
            depth < limit) →
          ComesTo { engine with maxDepth := larger } rules scene root
            (outcome, final, ⟨larger, source, metrics⟩)) := by
  let limited : Setup σ := ⟨rules, some limit, Chooser.weighted⟩
  let result := (limited.expand limit 0 (.reference root)).run
    ⟨scene, engine.source, engine.metrics⟩
  have hfollowed : ∀ e, result.1 = .error e → e ≠ .outOfFuel :=
    limited.expand_ne_outOfFuel rfl limit 0 _ (by omega) _
  -- Whichever way the expansions turn out to be the same, so are the runs.
  have hends : ∀ (larger : Option Nat) (fuel : Nat),
      (Setup.expand ⟨rules, larger, Chooser.weighted⟩ fuel 0 (.reference root)).run
        ⟨scene, engine.source, engine.metrics⟩ = result →
      ComesTo { engine with maxDepth := larger } rules scene root
        (result.1, result.2.scene,
          ⟨larger, result.2.source, result.2.metrics.countRun result.1⟩) := by
    intro larger fuel hsame
    refine comesTo_of_ends ⟨fun h => hfollowed _ h rfl, fuel, ?_⟩
    rw [runWith_eq]
    exact congrArg (finish larger) hsame
  refine ⟨result.1, result.2.scene, result.2.source, result.2.metrics.countRun result.1,
    runWith_eq Chooser.weighted { engine with maxDepth := some limit } rules scene root limit,
    fun larger hbound => ⟨fun hkept => ?_, fun fuel hle habove => ?_⟩⟩
  · let setup : Setup σ := ⟨rules, larger, Chooser.weighted⟩
    refine hends larger limit (setup.extends_limitedTo hbound (Nat.le_refl limit) _ _ ?_)
    intro e he hcut
    cases e with
    | tooDeep bound tag => exact hkept bound tag he
    | outOfFuel => exact hfollowed _ he rfl
    | _ => exact hcut
  · let setup : Setup σ := ⟨rules, larger, Chooser.weighted⟩
    exact hends larger fuel (setup.run_expand_limitedTo hbound fuel 0 _ limit (by omega)
      (by omega) _ habove).symm

/-- A rule that refers to its own tag, and that its guard allows only as long as it has
    not been used. -/
def usedOnce : RuleSet :=
  RuleSet.ofList ([
    { tag := ⟨"a", none⟩,
      content := [.text "x", .reference { tag := ⟨"a", none⟩ }],
      guard := some ⟨[.get "n", .not]⟩,
      watchers := [.count "n"] }].filterMap
      fun parts => (Rule.create parts).toOption)

/-- Candidates are found at depth zero only, so a limit of one does not cut the run off,
    although the tag is on a cycle. -/
theorem run_of_le_limit_usedOnce :
    (∀ depth ∈ candidateDepths 5 ⟨none, Script.ofList [], {}⟩ usedOnce ⟨Namespace.empty, []⟩
      { tag := ⟨"a", none⟩ }, depth < 1) ∧
      ∃ outcome final source metrics,
        Engine.run ⟨some 1, Script.ofList [], {}⟩ usedOnce ⟨Namespace.empty, []⟩
          { tag := ⟨"a", none⟩ } = (outcome, final, ⟨some 1, source, metrics⟩) ∧
        ComesTo ⟨none, Script.ofList [], {}⟩ usedOnce ⟨Namespace.empty, []⟩
          { tag := ⟨"a", none⟩ } (outcome, final, ⟨none, source, metrics⟩) := by
  have habove : ∀ depth ∈ candidateDepths 5 ⟨none, Script.ofList [], {}⟩ usedOnce
      ⟨Namespace.empty, []⟩ { tag := ⟨"a", none⟩ }, depth < 1 := by decide +kernel
  rcases run_of_le_limit ⟨none, Script.ofList [], {}⟩ usedOnce ⟨Namespace.empty, []⟩
    { tag := ⟨"a", none⟩ } 1 with ⟨outcome, final, source, metrics, hrun, hlarger⟩
  exact ⟨habove, outcome, final, source, metrics, hrun,
    (hlarger none nofun).2 5 (by decide) habove⟩

end Engine

end TextGrammar
