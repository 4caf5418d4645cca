import TextGrammar.Proofs.Expansion.Course

/-!
# Nesting

The calls that tracing watchers record are nested like brackets.

A call before a substitution is a bracket that opens, and the call of the same
watcher after the substitution is the one that closes it. The calls of a whole
expansion that succeeds are a balanced word in these brackets. Where an expansion
fails, the brackets that are open at that point stay open, and the calls are the
front of a balanced word.

The watchers of a chain are called in opposite directions before and after a
substitution, so a chain of any length puts one layer of brackets after the other
around what it encloses, and what it encloses may be any balanced word. Everything
else follows the course of the expansion: a template puts balanced words behind
each other, and a rule is enclosed by the chain of its reference and then by its
own.

## Main definitions

* `Balanced`: Words of calls in which brackets are closed in the opposite order.
* `Nested`: Events whose calls are balanced, or go on to be when a failure has cut
  them off.
* `Setup.RecordsNested`: A result whose record goes on with nested calls.

## Theorems

* `Chain.exists_balanced`: A chain encloses balanced words.
* `Setup.nested_of_course`: The calls of an expansion are nested.
* `Engine.performWith_nests`: The calls of what an engine performs are nested.
-/

namespace TextGrammar

variable {σ : Type}

/-- Words of calls in which every call before a substitution is closed by one after it,
    of the same watcher and with the same target, the last one opened first. -/
inductive Balanced : List Call → Prop
  | nil : Balanced []
  | enclose (name target text : String) (inner : List Call) (hinner : Balanced inner) :
      Balanced (.before name target :: inner ++ [.after name target text])
  | append (first second : List Call) (hfirst : Balanced first) (hsecond : Balanced second) :
      Balanced (first ++ second)

/-- The calls of a substitution are balanced if it succeeds, and the front of a
    balanced word if it fails. -/
def Nested (events : List Event) : Except ExpansionError String → Prop
  | .ok _ => Balanced (callsOf events)
  | .error _ => ∃ rest, Balanced (callsOf events ++ rest)

/-- Whatever comes of it, the calls of a substitution are the front of such a word. -/
theorem Nested.exists_balanced {events : List Event} {outcome : Except ExpansionError String}
    (h : Nested events outcome) : ∃ rest, Balanced (callsOf events ++ rest) := by
  cases outcome with
  | error e => exact h
  | ok text => exact ⟨[], by rw [List.append_nil]; exact h⟩

namespace Watcher

/-- A watcher other than a tracing one records nothing. -/
theorem callsOf_of_ne_trace {w : Watcher} (h : ∀ name, w ≠ .trace name) (target : String)
    (result : Except WatcherError String) :
    callsOf (w.opening target) = [] ∧ callsOf (w.ending target result) = [] := by
  cases w with
  | trace name => exact absurd rfl (h name)
  | _ => cases result <;> exact ⟨rfl, rfl⟩

end Watcher

namespace Chain

theorem opening_cons (w : Watcher) (rest : Chain) (target : String) :
    opening (w :: rest) target = w.opening target ++ opening rest target :=
  List.flatMap_cons

/-- A chain gives no text when the watchers behind the first one do not. -/
theorem rewrite?_of_cons {w : Watcher} {rest : Chain} {text : String}
    (h : ∃ result, rewrite? (w :: rest) text = .ok result) :
    ∃ inner, rewrite? rest text = .ok inner := by
  rcases h with ⟨result, h⟩
  rw [rewrite?] at h
  cases hrest : rewrite? rest text with
  | error e =>
      rw [hrest] at h
      cases h
  | ok inner => exact ⟨inner, rfl⟩

/-- Around a balanced word, the calls of a chain are the front of a balanced word, and
    all of it if none of the watchers fails. -/
theorem exists_balanced (chain : Chain) (target text : String) {inner : List Call}
    (hinner : Balanced inner) :
    ∃ rest, Balanced
        (callsOf (chain.opening target) ++ inner ++ callsOf (chain.closing target text) ++ rest) ∧
      ((∃ result, chain.rewrite? text = .ok result) → rest = []) := by
  induction chain with
  | nil =>
      refine ⟨[], ?_, fun _ => rfl⟩
      rw [List.append_nil]
      simpa only [opening, closing, callsOf, List.flatMap_nil, List.nil_append,
        List.append_nil] using hinner
  | cons w more ih =>
      rcases ih with ⟨rest, hword, hrest⟩
      rw [opening_cons, closing, callsOf_append, callsOf_append]
      by_cases htrace : ∃ name, w = .trace name
      · -- A tracing watcher puts its brackets around the word of those behind it.
        rcases htrace with ⟨name, rfl⟩
        cases hmore : rewrite? more text with
        | error e =>
            have henclosed := Balanced.enclose name target text _ hword
            refine ⟨rest ++ [.after name target text], ?_, fun hresult => ?_⟩
            · simpa only [callsOf, Watcher.opening, Watcher.ending, Event.calls, List.flatMap_cons,
                List.flatMap_nil, List.append_nil, List.cons_append, List.nil_append,
                List.append_assoc] using henclosed
            · rcases rewrite?_of_cons hresult with ⟨inner, hinner⟩
              cases hmore.symm.trans hinner
        | ok middle =>
            rw [hrest ⟨middle, hmore⟩] at hword
            have henclosed := Balanced.enclose name target middle _ hword
            refine ⟨[], ?_, fun _ => rfl⟩
            simpa only [callsOf, Watcher.opening, Watcher.ending, Watcher.closing, Event.calls,
              List.flatMap_cons, List.flatMap_nil, List.append_nil, List.cons_append,
              List.nil_append, List.append_assoc] using henclosed
      · rcases Watcher.callsOf_of_ne_trace (fun name h => htrace ⟨name, h⟩) target
          (rewrite? more text) with ⟨hopening, hending⟩
        refine ⟨rest, ?_, fun hresult => hrest (rewrite?_of_cons hresult)⟩
        rw [hopening, hending, List.nil_append, List.append_nil]
        exact hword

theorem exists_of_finish {chain : Chain} {outcome : Except ExpansionError String} {result : String}
    (h : chain.finish outcome = .ok result) :
    ∃ text, outcome = .ok text ∧ chain.rewrite? text = .ok result := by
  cases outcome with
  | error e => exact absurd h nofun
  | ok text =>
      unfold finish at h
      dsimp only at h
      split at h
      · rename_i final hfinal
        exact ⟨text, rfl, hfinal.trans (congrArg _ (Except.ok.inj h))⟩
      · exact absurd h nofun

/-- A chain around nested calls keeps them nested. -/
theorem nested_enclose (chain : Chain) (target : String) {outcome : Except ExpansionError String}
    {events : List Event} (h : Nested events outcome) :
    Nested (chain.enclose target outcome events) (chain.finish outcome) := by
  rcases h.exists_balanced with ⟨inner, hword⟩
  cases outcome with
  | error e =>
      -- The failure is not called back, so the brackets of the chain stay open too.
      rcases chain.exists_balanced target "" hword with ⟨rest, hrest, _⟩
      refine ⟨inner ++ callsOf (chain.closing target "") ++ rest, ?_⟩
      simpa only [enclose, ending, callsOf_append, List.append_nil, List.append_assoc] using hrest
  | ok text =>
      rcases chain.exists_balanced target text h with ⟨rest, hrest, hnil⟩
      have hcalls : callsOf (chain.enclose target (.ok text) events) =
          callsOf (chain.opening target) ++ callsOf events ++
            callsOf (chain.closing target text) := by
        rw [enclose, callsOf_append, callsOf_append]
        rfl
      cases hfinish : chain.finish (.ok text) with
      | error e =>
          refine ⟨rest, ?_⟩
          rw [hcalls]
          exact hrest
      | ok result =>
          rcases exists_of_finish hfinish with ⟨_, heq, hresult⟩
          cases heq
          rw [hnil ⟨result, hresult⟩, List.append_nil] at hrest
          unfold Nested
          rw [hcalls]
          exact hrest

end Chain

theorem nested_ok_nil (text : String) : Nested [] (.ok text) := Balanced.nil

theorem nested_error_nil (e : ExpansionError) : Nested [] (.error e) := ⟨[], Balanced.nil⟩

/-- The calls of an expansion are nested. -/
theorem Setup.nested_of_course {setup : Setup σ} {fuel depth : Nat} {subject : Subject}
    {p q : Progress σ} {outcome : Except ExpansionError String} {events : List Event}
    (h : setup.Course fuel depth subject p outcome events q) : Nested events outcome := by
  induction h with
  | text _ _ s => exact nested_ok_nil s
  | lookup _ _ key chain _ _ text =>
      exact chain.nested_enclose (Item.lookupText key) (nested_ok_nil text)
  | foreign => exact nested_error_nil _
  | failed => exact nested_error_nil _
  | unmatched => exact nested_ok_nil _
  | exhausted => exact nested_error_nil _
  | fired _ _ ref _ _ _ rule _ _ target _ _ _ _ hinner ih =>
      subst hinner
      exact rule.watchers.nested_enclose target (ref.watchers.nested_enclose target ih)
  | nil => exact nested_ok_nil ""
  | cons _ _ _ _ _ _ _ text outcome events more _ _ ihitem ihrest =>
      -- The piece is balanced. The rest is so too, unless it fails, and then it can be
      -- completed behind the piece.
      cases outcome with
      | ok tail =>
          change Balanced (callsOf (events ++ more))
          rw [callsOf_append]
          exact .append _ _ ihitem ihrest
      | error e =>
          rcases ihrest with ⟨rest, hrest⟩
          refine ⟨rest, ?_⟩
          rw [callsOf_append, List.append_assoc]
          exact .append _ _ ihitem hrest
  | stop _ _ _ _ _ _ _ _ _ ih => exact ih

/-- A result whose record goes on, from that of a state, with the calls of the course
    that leads to its outcome, and these are nested. -/
def Setup.RecordsNested (setup : Setup σ) (fuel depth : Nat) (item : Item) (p : Progress σ)
    (result : Except ExpansionError String × Scene × Engine σ) : Prop :=
  ∃ events q, setup.Course fuel depth (.piece item) p result.1 events q ∧
    result.2.1.record = p.scene.record ++ callsOf events ∧ Nested events result.1

namespace Engine

/-- The calls of what an engine performs, and those of a run, are nested like brackets
    if it succeeds, and the front of such a word if it fails. They stand behind the calls
    that the record held before, which stay. The item and its depth are any, and tracing
    watchers may be on rules, on references and on look-ups, among others. -/
theorem performWith_nests (chooser : Chooser σ) (fuel : Nat) (engine : Engine σ)
    (rules : RuleSet) (scene : Scene) (depth : Nat) (item : Item) (root : Reference) :
    Setup.RecordsNested ⟨rules, engine.maxDepth, chooser⟩ fuel depth item
      ⟨scene, engine.source, engine.metrics⟩
      (engine.performWith chooser fuel rules scene depth item) ∧
    Setup.RecordsNested ⟨rules, engine.maxDepth, chooser⟩ fuel 0 (.reference root)
      ⟨scene, engine.source, engine.metrics⟩ (engine.runWith chooser fuel rules scene root) := by
  constructor
  · rcases course_performWith chooser fuel engine rules scene depth item with
      ⟨outcome, events, q, hcourse, hresult⟩
    rw [hresult]
    exact ⟨events, q, hcourse, congrArg Scene.record hcourse.scene_eq,
      Setup.nested_of_course hcourse⟩
  · rcases course_runWith chooser fuel engine rules scene root with
      ⟨outcome, events, q, hcourse, hresult⟩
    rw [hresult]
    exact ⟨events, q, hcourse, congrArg Scene.record hcourse.scene_eq,
      Setup.nested_of_course hcourse⟩

end Engine

end TextGrammar
