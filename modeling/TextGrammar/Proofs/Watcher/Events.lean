import TextGrammar.Watcher.Basic

/-!
# Events

What watchers do to a scene, as lists of events that can be told apart from the
scene itself.

A watcher acts on the scene in three ways: it records a call, stores a text or
counts a name up. Which of these it does depends on the text it is called with and
on nothing in the scene, and so does the text it returns. A chain therefore has
its events before a substitution and its events after one, whatever the scene, and
the scene after the calls is the scene before them with the events applied in
order.

## Main definitions

* `Event`: What a watcher does to a scene.
* `Namespace.writeAll`, `Scene.play`: The effect of events.
* `Watcher.rewrite?`, `Chain.rewrite?`: The text after the calls.
* `Chain.opening`, `Chain.closing`: The events before and after a substitution.
* `Watcher.Emits`: The events that a watcher can have.
* `Watcher.IsOwn`: The watchers that grammars have names for.

## Theorems

* `Chain.before_eq`, `Chain.after?_eq`: The calls of a chain by its events.
* `Watcher.eq_capture_of_emits`: Own watchers only store texts.
-/

namespace TextGrammar

/-- What a watcher does to a scene: it records a call, stores a text under a name,
    or counts a name up. -/
inductive Event where
  | record (call : Call)
  | capture (key text : String)
  | count (key : String)
deriving DecidableEq

/-- The calls that an event records. -/
def Event.calls : Event → List Call
  | .record call => [call]
  | _ => []

/-- The calls that events record. -/
def callsOf (events : List Event) : List Call := events.flatMap Event.calls

theorem callsOf_append (first second : List Event) :
    callsOf (first ++ second) = callsOf first ++ callsOf second :=
  List.flatMap_append

namespace Namespace

/-- What an event writes. -/
def write (data : Namespace) : Event → Namespace
  | .record _ => data
  | .capture key text => data.put key (.text text)
  | .count key =>
    data.put key (.number (match data.number? key with
      | some x => x + 1
      | none => 1))

/-- What events write one after the other. -/
def writeAll (data : Namespace) (events : List Event) : Namespace := events.foldl write data

theorem writeAll_append (data : Namespace) (first second : List Event) :
    data.writeAll (first ++ second) = (data.writeAll first).writeAll second :=
  List.foldl_append

end Namespace

namespace Scene

/-- The scene after some events. -/
def play (scene : Scene) (events : List Event) : Scene :=
  ⟨scene.data.writeAll events, scene.record ++ callsOf events⟩

theorem play_nil (scene : Scene) : scene.play [] = scene := by
  unfold play callsOf
  rw [List.flatMap_nil, List.append_nil]
  rfl

theorem play_append (scene : Scene) (first second : List Event) :
    scene.play (first ++ second) = (scene.play first).play second := by
  unfold play
  rw [Namespace.writeAll_append, callsOf_append, List.append_assoc]

end Scene

namespace Watcher

/-- What a watcher does before a substitution of the target. -/
def opening (w : Watcher) (target : String) : List Event :=
  match w with
  | .trace name => [.record (.before name target)]
  | .count key => [.count key]
  | _ => []

theorem before_eq (w : Watcher) (target : String) (scene : Scene) :
    w.before target scene = scene.play (w.opening target) := by
  cases w with
  | trace name => rfl
  | count key =>
      simp only [before, opening, Scene.play, callsOf, List.flatMap_cons, Event.calls,
        List.flatMap_nil, List.append_nil]
      rfl
  | _ => exact (Scene.play_nil scene).symm

/-- The text that a watcher makes of a text. -/
def rewrite? (w : Watcher) (text : String) : Except WatcherError String :=
  match w with
  | .capture _ | .idle | .count _ => .ok text
  | .sentence => .ok (Sentence.sentence text)
  | .trace name => .ok (name ++ "(" ++ text ++ ")")
  | .pluralise _ _ | .ordinal | .ordinalSuffix | .cardinal | .numeric => w.rewriteNumber text

/-- What a watcher does after a substitution of the target by a text. -/
def closing (w : Watcher) (target text : String) : List Event :=
  match w with
  | .trace name => [.record (.after name target text)]
  | .capture key => [.capture key text]
  | _ => []

/-- The same where the text may be missing, in which case the watcher is not called. -/
def ending (w : Watcher) (target : String) : Except WatcherError String → List Event
  | .error _ => []
  | .ok text => w.closing target text

/-- The text and the events do not depend on the scene. -/
theorem after?_eq (w : Watcher) (target text : String) (scene : Scene) :
    w.after? target text scene =
      (w.rewrite? text).map fun result => (result, scene.play (w.closing target text)) := by
  cases w with
  | capture key =>
      simp only [after?, rewrite?, closing, Scene.play, callsOf, List.flatMap_cons, Event.calls,
        List.flatMap_nil, List.append_nil]
      rfl
  | trace name => rfl
  | sentence | idle | count =>
      simp only [after?, rewrite?, closing, Scene.play_nil]
      rfl
  | _ =>
      -- These watchers rewrite numbers, and may fail to.
      simp only [after?, rewrite?, closing, Scene.play_nil]
      split <;> rename_i hresult <;> rw [hresult] <;> rfl

/-- A watcher that fails does nothing. -/
theorem closing_of_error {w : Watcher} {text : String} {e : WatcherError}
    (h : w.rewrite? text = .error e) (target : String) : w.closing target text = [] := by
  cases w with
  | capture key => exact absurd h nofun
  | trace name => exact absurd h nofun
  | _ => rfl

/-- An event is one that a watcher has before or after some substitution. -/
def Emits (w : Watcher) (event : Event) : Prop :=
  ∃ target, event ∈ w.opening target ∨ ∃ text, event ∈ w.closing target text

/-- The watchers that grammars have names for: captures and the filters. -/
def IsOwn : Watcher → Prop
  | .capture _ | .sentence | .pluralise _ _ | .ordinal | .ordinalSuffix | .cardinal => True
  | .idle | .numeric | .trace _ | .count _ => False

instance : (w : Watcher) → Decidable w.IsOwn
  | .capture _ | .sentence | .pluralise _ _ | .ordinal | .ordinalSuffix | .cardinal =>
    .isTrue trivial
  | .idle | .numeric | .trace _ | .count _ => .isFalse id

/-- Own watchers only store texts, under the names that they are given. -/
theorem eq_capture_of_emits {w : Watcher} (hown : w.IsOwn) {event : Event} (h : w.Emits event) :
    ∃ key text, event = .capture key text ∧ w = .capture key := by
  rcases h with ⟨target, hopening | ⟨text, hclosing⟩⟩
  · cases w with
    | trace name => exact absurd hown id
    | count key => exact absurd hown id
    | _ => exact absurd hopening List.not_mem_nil
  · cases w with
    | capture key => exact ⟨key, text, List.mem_singleton.1 hclosing, rfl⟩
    | trace name => exact absurd hown id
    | _ => exact absurd hclosing List.not_mem_nil

end Watcher

namespace Chain

/-- The events of a chain before a substitution, those of the first watcher first. -/
def opening (chain : Chain) (target : String) : List Event := chain.flatMap (·.opening target)

theorem before_eq (chain : Chain) (target : String) (scene : Scene) :
    chain.before target scene = scene.play (chain.opening target) := by
  induction chain generalizing scene with
  | nil => exact (Scene.play_nil scene).symm
  | cons w rest ih =>
      change before rest target (w.before target scene) = _
      rw [ih, Watcher.before_eq, ← Scene.play_append]
      rfl

/-- The text that a chain makes of a text. The last watcher acts first. -/
def rewrite? : Chain → String → Except WatcherError String
  | [], text => .ok text
  | w :: rest, text =>
    match rewrite? rest text with
    | .error e => .error e
    | .ok text => w.rewrite? text

/-- The events of a chain after a substitution, those of the last watcher first. -/
def closing : Chain → String → String → List Event
  | [], _, _ => []
  | w :: rest, target, text => closing rest target text ++ w.ending target (rewrite? rest text)

/-- The calls after a substitution give a text and events that do not depend on the
    scene. -/
theorem after?_eq (chain : Chain) (target text : String) (scene : Scene) :
    chain.after? target text scene =
      (chain.rewrite? text, scene.play (chain.closing target text)) := by
  induction chain with
  | nil => exact congrArg (Prod.mk _) (Scene.play_nil scene).symm
  | cons w rest ih =>
      rw [after?, ih, rewrite?, closing]
      cases hrest : rewrite? rest text with
      | error e => simp only [Watcher.ending, List.append_nil]
      | ok inner =>
          simp only [Watcher.ending]
          rw [Watcher.after?_eq, Scene.play_append]
          cases hw : w.rewrite? inner with
          | ok result => rfl
          | error e => rw [Watcher.closing_of_error hw, Scene.play_nil]; rfl

/-- Every event of a chain is one of a watcher in it. -/
theorem emits_of_mem_opening {chain : Chain} {target : String} {event : Event}
    (h : event ∈ chain.opening target) : ∃ w ∈ chain, w.Emits event := by
  rcases List.mem_flatMap.1 h with ⟨w, hw, hevent⟩
  exact ⟨w, hw, target, Or.inl hevent⟩

theorem emits_of_mem_closing {chain : Chain} {target text : String} {event : Event}
    (h : event ∈ chain.closing target text) : ∃ w ∈ chain, w.Emits event := by
  induction chain with
  | nil => exact absurd h List.not_mem_nil
  | cons w rest ih =>
      rcases List.mem_append.1 h with h | h
      · rcases ih h with ⟨v, hv, hevent⟩
        exact ⟨v, List.mem_cons_of_mem _ hv, hevent⟩
      · cases hrest : rewrite? rest text with
        | error e =>
            rw [hrest] at h
            exact absurd h List.not_mem_nil
        | ok inner =>
            rw [hrest] at h
            exact ⟨w, List.mem_cons_self .., target, Or.inr ⟨inner, h⟩⟩

end Chain

end TextGrammar
