import TextGrammar.CommandLine.Execution
import TextGrammar.Proofs.CommandLine.CountArgument
import TextGrammar.Proofs.Expansion.Metrics

/-!
# Repetition

That the runs of one command line are runs of their own, and that more of them only add
to what is printed.

All runs share an engine. Its metrics are not read, and its source has been moved on by
the draws of the runs in front, so a run prints what it would print alone on a new
engine with a source that is so far on. The namespace is made anew from the assignments
each time. A block of the output is in this way the text of a single run, with the
namespace behind it if that was asked for.

With a greater count the runs are the same as long as there are any, and then more
follow. So the output goes on where it ended, unless a run failed or none was started:
then nothing follows, and the count has no part in the outcome.

## Main definitions

* `CommandLine.IsBlock`: A text that a single run prints on a new engine.
* `CommandLine.RunsApart`: Blocks of runs that share nothing but the source.
* `CommandLine.drawsBehind`: The draws in front of each run, with one run more at the front.
* `CommandLine.TellsRuns`: An outcome told run by run.

## Theorems

* `CommandLine.initialData_eq_ok`: A new namespace holds the assignments.
* `CommandLine.isBlock_of_runOnce`, `CommandLine.RunsApart.cons`: One run, and one in front
  of others.
* `CommandLine.runsApart_runMany`: Any number of runs.
* `CommandLine.runMany_of_le`: More runs.
* `CommandLine.answer_of_le`: What requests for more runs come to.
* `CommandLine.execute_repeats`: Command lines that differ in a count.
-/

namespace TextGrammar

theorem DrawSource.skip_add {σ : Type} [DrawSource σ] (m n : Nat) (source : σ) :
    skip (m + n) source = skip m (skip n source) := Function.iterate_add_apply _ m n source

namespace CommandLine

/-- A namespace that assignments were written into holds what they say, in order. -/
theorem initialData_eq_ok {texts : List String} {ns final : Namespace}
    (h : initialData texts ns = .ok final) :
    ∃ entries : List (String × Datum), texts.map readAssignment? = entries.map some ∧
      final.entries = entries.foldl (fun es e => es.insert e.1 e.2) ns.entries := by
  induction texts generalizing ns with
  | nil =>
      cases h
      exact ⟨[], rfl, rfl⟩
  | cons text rest ih =>
      rw [initialData] at h
      cases hread : readAssignment? text with
      | none =>
          rw [hread] at h
          exact absurd h nofun
      | some e =>
          rw [hread] at h
          rcases ih h with ⟨entries, hentries, hfinal⟩
          refine ⟨e :: entries, ?_, hfinal⟩
          rw [List.map_cons, List.map_cons, hread, hentries]

section Runs

variable (rules : RuleSet) (r : RunRequest)

/-- A text that a single run prints, on an engine without metrics and with a given
    source, and from a namespace that holds the assignments and nothing else. The number
    is that of the draws that it takes, one for each rule that it uses. -/
inductive IsBlock (maxDepth : Option Nat) (source : Twister) : Nat → String → Prop
  | intro (entries : List (String × Datum)) (text : String) (final : Scene)
      (after : Engine Twister)
      (hentries : r.assignments.map readAssignment? = entries.map some)
      (hrun : Engine.run ⟨maxDepth, source, {}⟩ rules ⟨.ofEntries entries, []⟩
        { tag := Tag.parse r.root } = (.ok text, final, after))
      (hsource : after.source = DrawSource.skip after.metrics.totalFired source) :
      IsBlock maxDepth source after.metrics.totalFired
        (text ++ "\n" ++ if r.showData then final.data.layOut "  " else "")

/-- Blocks of runs that share nothing but a source, which each run finds behind the draws
    of those in front, and the failure of the run behind the last block. -/
structure RunsApart (maxDepth : Option Nat) (start : Twister) (drawn : Nat → Nat)
    (blocks : List String) (failure : Option CommandError) : Prop where
  drawn_zero : drawn 0 = 0
  isBlock : ∀ (k : Nat) (block : String), blocks[k]? = some block → ∃ draws,
    IsBlock rules r maxDepth (DrawSource.skip (drawn k) start) draws block ∧
      drawn (k + 1) = drawn k + draws
  fails : ∀ e, failure = some e →
    (runOnce rules r ⟨maxDepth, DrawSource.skip (drawn blocks.length) start, {}⟩).1 = .error e

variable {rules r}

/-- A run that prints a block prints it on an engine without metrics too. -/
theorem isBlock_of_runOnce {engine after : Engine Twister} {block : String}
    (h : runOnce rules r engine = (.ok block, after)) :
    ∃ draws, IsBlock rules r engine.maxDepth engine.source draws block ∧
      after.maxDepth = engine.maxDepth ∧ after.source = DrawSource.skip draws engine.source := by
  unfold runOnce at h
  cases hdata : initialData r.assignments Namespace.empty with
  | error e =>
      rw [hdata] at h
      exact absurd (congrArg Prod.fst h) nofun
  | ok data =>
      rcases initialData_eq_ok hdata with ⟨entries, hentries, hfinal⟩
      -- The block does not depend on what the engine has counted, so it is the block of an
      -- engine that has counted nothing. There the rules fired are the draws taken.
      rcases engine.run_withMetrics rules ⟨data, []⟩ { tag := Tag.parse r.root } {} with
        ⟨metrics, hsame⟩
      rw [hdata] at h
      dsimp only at h hsame
      rcases hrun : engine.run rules ⟨data, []⟩ { tag := Tag.parse r.root } with
        ⟨outcome, scene, final⟩
      rw [hrun] at h hsame
      cases outcome with
      | error e => exact absurd (congrArg Prod.fst h) nofun
      | ok text =>
          cases h
          rcases Engine.source_of_run _ _ _ _ hsame with ⟨hdepth, draws, hdraws, hsource⟩
          have hfired : metrics.totalFired = draws := hdraws.trans (Nat.zero_add draws)
          rw [← hfired] at hsource
          have hnew : data = .ofEntries entries := Namespace.ext hfinal
          rw [hnew] at hsame
          exact ⟨_, .intro entries text scene (after.withMetrics metrics) hentries hsame hsource,
            hdepth, hsource⟩

/-- Whether a run fails does not depend on the metrics either. -/
theorem runOnce_withMetrics (engine : Engine Twister) (metrics : Metrics) :
    (runOnce rules r (engine.withMetrics metrics)).1 = (runOnce rules r engine).1 := by
  unfold runOnce
  cases initialData r.assignments Namespace.empty with
  | error e => rfl
  | ok data =>
      rcases engine.run_withMetrics rules ⟨data, []⟩ { tag := Tag.parse r.root } metrics with
        ⟨after, hsame⟩
      dsimp only at hsame ⊢
      rw [hsame]
      rcases engine.run rules ⟨data, []⟩ { tag := Tag.parse r.root } with ⟨outcome, scene, final⟩
      cases outcome <;> rfl

/-- The draws in front of each run behind one that takes the given number, told from the
    draws in front of each run without that one. -/
def drawsBehind (draws : Nat) (drawn : Nat → Nat) : Nat → Nat
  | 0 => 0
  | k + 1 => drawn k + draws

theorem RunsApart.cons {maxDepth : Option Nat} {start : Twister} {draws : Nat}
    {drawn : Nat → Nat} {block : String} {blocks : List String} {failure : Option CommandError}
    (hblock : IsBlock rules r maxDepth start draws block)
    (h : RunsApart rules r maxDepth (DrawSource.skip draws start) drawn blocks failure) :
    RunsApart rules r maxDepth start (drawsBehind draws drawn) (block :: blocks) failure := by
  have hskip : ∀ k, DrawSource.skip (drawn k) (DrawSource.skip draws start) =
      DrawSource.skip (drawsBehind draws drawn (k + 1)) start :=
    fun k => (DrawSource.skip_add (drawn k) draws start).symm
  refine ⟨rfl, fun k other hother => ?_, fun e he => ?_⟩
  · cases k with
    | zero =>
        rw [← Option.some.inj hother]
        refine ⟨draws, hblock, ?_⟩
        change drawn 0 + draws = 0 + draws
        rw [h.drawn_zero]
    | succ k =>
        rcases h.isBlock k other hother with ⟨more, hmore, hnext⟩
        rw [hskip] at hmore
        refine ⟨more, hmore, ?_⟩
        change drawn (k + 1) + draws = drawn k + draws + more
        omega
  · have hlast := h.fails e he
    rw [hskip] at hlast
    exact hlast

variable (rules r)

/-- Runs one after the other are runs of their own. -/
theorem runsApart_runMany (n : Nat) (engine : Engine Twister) :
    ∃ drawn, RunsApart rules r engine.maxDepth engine.source drawn (runMany rules r n engine).1
      (runMany rules r n engine).2 := by
  induction n generalizing engine with
  | zero =>
      rw [runMany]
      refine ⟨fun _ => 0, rfl, fun k block hblock => ?_, fun e he => ?_⟩
      · exact absurd hblock.symm (Option.some_ne_none block)
      · exact absurd he.symm (Option.some_ne_none e)
  | succ n ih =>
      rw [runMany]
      rcases hrun : runOnce rules r engine with ⟨outcome, after⟩
      cases outcome with
      | error e =>
          refine ⟨fun _ => 0, rfl, fun k block hblock => ?_, fun other hother => ?_⟩
          · exact absurd hblock.symm (Option.some_ne_none block)
          · rw [← Option.some.inj hother]
            exact (runOnce_withMetrics engine {}).trans (congrArg Prod.fst hrun)
      | ok block =>
          rcases isBlock_of_runOnce hrun with ⟨draws, hblock, hdepth, hsource⟩
          rcases ih after with ⟨drawn, hrest⟩
          rw [hdepth, hsource] at hrest
          exact ⟨_, hrest.cons hblock⟩

/-- More runs begin with the same ones. If one of these fails, that is the end, and
    otherwise all of them print a block. -/
theorem runMany_of_le {n m : Nat} (hle : n ≤ m) (engine : Engine Twister) :
    ((runMany rules r n engine).2 = none →
      (runMany rules r n engine).1.length = n ∧
        (runMany rules r n engine).1 <+: (runMany rules r m engine).1) ∧
    ((runMany rules r n engine).2 ≠ none →
      runMany rules r m engine = runMany rules r n engine) := by
  induction n generalizing m engine with
  | zero => exact ⟨fun _ => ⟨rfl, List.nil_prefix⟩, fun h => absurd rfl h⟩
  | succ n ih =>
      cases m with
      | zero => omega
      | succ m =>
          rw [runMany, runMany]
          -- Both make the same first run, and go on from the same engine.
          rcases runOnce rules r engine with ⟨outcome, after⟩
          cases outcome with
          | error e => exact ⟨nofun, fun _ => rfl⟩
          | ok block =>
              rcases ih (Nat.le_of_succ_le_succ hle) after with ⟨hgoes, hfails⟩
              constructor
              · intro hnone
                rcases hgoes hnone with ⟨hlength, hprefix⟩
                exact ⟨congrArg Nat.succ hlength, List.cons_prefix_cons.2 ⟨rfl, hprefix⟩⟩
              · intro hsome
                dsimp only
                rw [hfails hsome]

/-- The count has no part in a single run. -/
theorem runMany_count (n : Nat) (count : Int) (engine : Engine Twister) :
    runMany rules { r with count := count } n engine = runMany rules r n engine := by
  induction n generalizing engine with
  | zero => rfl
  | succ n ih =>
      rw [runMany, runMany, show runOnce rules { r with count := count } engine =
        runOnce rules r engine from rfl]
      rcases runOnce rules r engine with ⟨outcome, after⟩
      cases outcome with
      | error e => rfl
      | ok block =>
          dsimp only
          rw [ih]

end Runs

theorem intercalate_append (xs ys : List String) :
    "".intercalate (xs ++ ys) = "".intercalate xs ++ "".intercalate ys := by
  induction xs with
  | nil => rw [List.nil_append, String.intercalate_nil, String.empty_append]
  | cons x rest ih =>
      rw [List.cons_append, Setup.intercalate_cons, Setup.intercalate_cons, ih,
        String.append_assoc]

section Outcomes

variable (world : World) (r : RunRequest)

/-- An outcome is told run by run: what was printed are the blocks of runs that share
    nothing but a source, as many as were asked for unless one of them failed. -/
def TellsRuns (o : Outcome) : Prop :=
  ∀ path text settings rules, findGrammar? world.files r.target = some (path, text) →
    settingsFor world r = .ok settings → loadFile path text = .ok rules →
    ∃ blocks failure drawn,
      o = { output := "".intercalate blocks, failure := failure.map .command } ∧
      RunsApart rules r settings.maxDepth (Twister.ofSeed (settings.seed.getD world.entropy)) drawn
        blocks failure ∧
      (failure = none → blocks.length = r.count.toNat)

/-- The outcome of a request for runs is told run by run. -/
theorem tellsRuns_answer : TellsRuns world r (answer world (.run r)) := by
  intro path text settings rules hfind hsettings hload
  let engine : Engine Twister :=
    { maxDepth := settings.maxDepth
      source := Twister.ofSeed (settings.seed.getD world.entropy) }
  rcases runsApart_runMany rules r r.count.toNat engine with ⟨drawn, hapart⟩
  have hperform : performRun world path text r = runMany rules r r.count.toNat engine := by
    rw [performRun, hsettings]
    dsimp only
    rw [hload]
  refine ⟨_, _, drawn, ?_, hapart, fun hnone => ?_⟩
  · rw [answer, onGrammar, hfind]
    dsimp only
    rw [hperform]
  · exact ((runMany_of_le rules r (Nat.le_refl _) engine).1 hnone).1

variable {n m : Int}

/-- What more runs of a grammar print. -/
theorem performRun_of_le (hle : n ≤ m) (path text : String) :
    let few := performRun world path text { r with count := n }
    let many := performRun world path text { r with count := m }
    (few.2 = none → few.1 <+: many.1) ∧ (few.2 ≠ none → many = few) := by
  have hsettings : ∀ count, settingsFor world { r with count := count } = settingsFor world r :=
    fun _ => rfl
  unfold performRun
  rw [hsettings n, hsettings m]
  cases settingsFor world r with
  | error e => exact ⟨nofun, fun _ => rfl⟩
  | ok settings =>
      dsimp only
      cases loadFile path text with
      | error e => exact ⟨nofun, fun _ => rfl⟩
      | ok rules =>
          dsimp only
          rw [runMany_count rules r n.toNat n, runMany_count rules r m.toNat m]
          rcases runMany_of_le rules r (Int.toNat_le_toNat hle)
            { maxDepth := settings.maxDepth
              source := Twister.ofSeed (settings.seed.getD world.entropy) } with ⟨hgoes, hfails⟩
          exact ⟨fun hnone => (hgoes hnone).2, hfails⟩

/-- What requests for more runs come to: the output goes on where it ended, and after a
    failure the outcome is the same. -/
theorem answer_of_le (hle : n ≤ m) :
    let few := answer world (.run { r with count := n })
    let many := answer world (.run { r with count := m })
    (few.failure = none → ∃ rest, many.output = few.output ++ rest) ∧
      (few.failure ≠ none → many = few) := by
  intro few many
  have hfew : few = onGrammar world r.target fun path text =>
    performRun world path text { r with count := n } := rfl
  have hmany : many = onGrammar world r.target fun path text =>
    performRun world path text { r with count := m } := rfl
  rw [hfew, hmany]
  unfold onGrammar
  cases findGrammar? world.files r.target with
  | none => exact ⟨nofun, fun _ => rfl⟩
  | some found =>
      rcases found with ⟨path, text⟩
      rcases performRun_of_le world r hle path text with ⟨hgoes, hfails⟩
      dsimp only at hgoes hfails ⊢
      constructor
      · intro hnone
        rcases hgoes (Option.map_eq_none_iff.1 hnone) with ⟨more, hmore⟩
        exact ⟨_, by rw [← hmore, intercalate_append]⟩
      · intro hsome
        rw [hfails fun hnone => hsome (by rw [hnone]; rfl)]

end Outcomes

theorem Outcome.code_eq_zero_iff (o : Outcome) : o.code = 0 ↔ o.failure = none := by
  unfold code
  split
  · rename_i h
    exact iff_of_true rfl h
  · rename_i h
    exact iff_of_false nofun (by rw [h]; nofun)
  · rename_i h
    exact iff_of_false nofun (by rw [h]; nofun)

/-- The same for requests that differ in the number of runs at most, by exit codes. -/
theorem answer_of_sameButCount (world : World) {n m : Int} (hle : n ≤ m) {x y : Request}
    (h : Request.SameButCount n m x y) :
    ((answer world x).code = 0 →
      ∃ rest, (answer world y).output = (answer world x).output ++ rest) ∧
    ((answer world x).code = 1 → answer world y = answer world x) := by
  cases h with
  | same => exact ⟨fun _ => ⟨"", String.append_empty.symm⟩, fun _ => rfl⟩
  | run r =>
      rcases answer_of_le world r hle with ⟨hgoes, hfails⟩
      refine ⟨fun hcode => hgoes ((Outcome.code_eq_zero_iff _).1 hcode), fun hcode => hfails ?_⟩
      intro hnone
      rw [(Outcome.code_eq_zero_iff _).2 hnone] at hcode
      exact absurd hcode nofun

/-- Two requests for runs, or two command lines for them, that differ in the count. The
    command lines are those that write it as `--count N`; one that joins the count to its
    option or shortens the option comes to a request as well, and the half about requests
    speaks for it. If all goes well with the smaller one, its output is the beginning of
    that with the greater one; if a run or anything in front of the runs fails, the outcomes
    are the same. Whatever is printed is told run by run: each block is the result of a run
    of its own, on an engine without metrics and on a namespace that holds the assignments,
    and the runs in front have moved the source on by their draws and done nothing else.
    All integers that are not too long are counts. -/
theorem execute_repeats (world : World) {n m : Int} (hle : n ≤ m) :
    (∀ r : RunRequest,
      let few := answer world (.run { r with count := n })
      let many := answer world (.run { r with count := m })
      (few.code = 0 → ∃ rest, many.output = few.output ++ rest) ∧ (few.code = 1 → many = few) ∧
        TellsRuns world { r with count := n } few) ∧
    (∀ (front back : List String) (s t : String), IsCountText s n → IsCountText t m →
      let few := execute world ("run" :: (front ++ "--count" :: s :: back))
      let many := execute world ("run" :: (front ++ "--count" :: t :: back))
      (few.code = 0 → ∃ rest, many.output = few.output ++ rest) ∧ (few.code = 1 → many = few) ∧
        ∀ r, Request.ofArguments ("run" :: (front ++ "--count" :: s :: back)) = .run r →
          TellsRuns world r few) ∧
    ∀ i : Int, (toString i).toList.countP Char.isDigit ≤ Numeral.integerDigitLimit →
      IsCountText (toString i) i := by
  refine ⟨fun r => ?_, fun front back s t hs ht => ?_, isCountText_toString⟩
  · rcases answer_of_sameButCount world hle (.run r) with ⟨hgoes, hfails⟩
    exact ⟨hgoes, hfails, tellsRuns_answer world { r with count := n }⟩
  · intro few many
    rcases answer_of_sameButCount world hle (sameButCount_ofArguments hs ht front back) with
      ⟨hgoes, hfails⟩
    refine ⟨hgoes, hfails, fun r hr => ?_⟩
    have hfew : few = answer world (.run r) := congrArg (answer world) hr
    rw [hfew]
    exact tellsRuns_answer world r

/-- Two grammars: one has no rules for the root, and the other has one with a malformed
    guard. -/
def twoGrammars : World :=
  ⟨[], [("plain", "name -> Ann"), ("broken", "root (if=\"+\") -> x")], 0⟩

/-- One run and three of either grammar, with the namespace behind each run. -/
theorem execute_repeats_twoGrammars :
    let line : String → String → List String := fun target count =>
      "run" :: ([target, "--set", "n=1"] ++ "--count" :: count :: ["--show-data"])
    IsCountText "1" 1 ∧ IsCountText "3" 3 ∧
      (execute twoGrammars (line "plain" "1")).output = "[root]\n  n: 1\n" ∧
      (∃ rest, (execute twoGrammars (line "plain" "3")).output =
        (execute twoGrammars (line "plain" "1")).output ++ rest) ∧
      (execute twoGrammars (line "broken" "1")).code = 1 ∧
      execute twoGrammars (line "broken" "3") = execute twoGrammars (line "broken" "1") := by
  intro line
  have hone : IsCountText "1" 1 := isCountText_toString 1 (by decide)
  have hthree : IsCountText "3" 3 := isCountText_toString 3 (by decide)
  have hlines := (execute_repeats twoGrammars (show (1 : Int) ≤ 3 by decide)).2.1
  have hplain := hlines ["plain", "--set", "n=1"] ["--show-data"] "1" "3" hone hthree
  have hbroken := hlines ["broken", "--set", "n=1"] ["--show-data"] "1" "3" hone hthree
  have hcode : (execute twoGrammars (line "broken" "1")).code = 1 := by decide +kernel
  exact ⟨hone, hthree, by decide +kernel, hplain.1 (by decide +kernel), hcode, hbroken.2.1 hcode⟩

end CommandLine

end TextGrammar
