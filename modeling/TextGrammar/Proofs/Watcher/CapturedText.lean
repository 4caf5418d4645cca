import TextGrammar.Proofs.Expansion.Execution
import TextGrammar.Proofs.Watcher.Events

/-!
# Captured Texts

Which text a capture leaves in the namespace.

The last watcher of a chain is called first after a substitution, so a capture is handed
what the watchers behind it have made of the text. Where several captures have one name,
the first of them is called last and overwrites the others. Calls after a substitution
write nothing else, and none of them reads the namespace, so neither the text nor what is
stored depends on what was there before.

A chain that is put around another one is the same as one chain, with the watchers of the
inner one behind. The watchers of a rule and of the reference that it is used for are called
in this way, which is why a capture of the rule counts where both have one.

## Main definitions

* `Watcher.callInTurn`: The text that watchers make of a text one after the other.
* `Chain.Settles`: The text and the stored texts after the calls of a chain.

## Theorems

* `Chain.callInTurn_reverse`: The text of a chain is made by its watchers in turn.
* `Chain.after?_append`: A chain around a chain.
* `Chain.get?_after?_of_not_mem`: Names without a capture keep what they hold.
* `Chain.settles_after?`: The calls of a chain.
* `Setup.fire_eq_append`: The use of a rule calls one chain.
* `Setup.settles_chains`: Chains, chains around chains, and the use of a rule.
-/

namespace TextGrammar

variable {σ : Type}

/-- The text that watchers make of a text when they are called after a substitution in the
    order given, each with the text that the one before it gave. None of them sees what
    another one does to the scene. -/
def Watcher.callInTurn (target : String) (scene : Scene) (watchers : List Watcher)
    (text : String) : Except WatcherError String :=
  watchers.foldlM (fun text w => (w.after? target text scene).map Prod.fst) text

/-- A watcher that is no capture of a name leaves it as it is. -/
theorem Watcher.get?_play_closing {w : Watcher} {key : String} (h : w ≠ .capture key)
    (target text : String) (scene : Scene) :
    (scene.play (w.closing target text)).data.get? key = scene.data.get? key := by
  cases w with
  | capture other =>
      have hne : other ≠ key := fun heq => h (heq ▸ rfl)
      exact (scene.data.get?_put other key _).trans (if_neg hne)
  | _ => rfl

namespace Chain

/-- The text of a chain is what its watchers make of the text in turn, the last one first. -/
theorem callInTurn_reverse (chain : Chain) (target text : String) (scene : Scene) :
    Watcher.callInTurn target scene chain.reverse text = chain.rewrite? text := by
  unfold Watcher.callInTurn
  induction chain with
  | nil => rfl
  | cons w rest ih =>
      -- The first watcher is the last one in turn, so its call closes the fold.
      rw [List.reverse_cons, List.foldlM_append, ih, rewrite?]
      cases rewrite? rest text with
      | error e => rfl
      | ok inner =>
          change ((w.after? target inner scene).map Prod.fst >>= pure) = w.rewrite? inner
          rw [bind_pure, Watcher.after?_eq]
          cases w.rewrite? inner with
          | error e => rfl
          | ok result => rfl

/-- A chain around another one is called with what the other one gives, unless that fails. -/
theorem after?_append (outer inner : Chain) (target text : String) (scene : Scene) :
    after? (outer ++ inner) target text scene =
      match inner.after? target text scene with
      | (.ok result, scene) => outer.after? target result scene
      | (.error e, scene) => (.error e, scene) := by
  induction outer with
  | nil =>
      rcases hinner : inner.after? target text scene with ⟨outcome, final⟩
      cases outcome with
      | error e => exact hinner
      | ok result => exact hinner
  | cons w rest ih =>
      rw [List.cons_append, after?, ih]
      rcases inner.after? target text scene with ⟨outcome, middle⟩
      cases outcome with
      | error e => rfl
      | ok result => rfl

/-- Names without a capture keep what they hold, whether the calls fail or not. -/
theorem get?_after?_of_not_mem {chain : Chain} {key : String} (h : .capture key ∉ chain)
    (target text : String) (scene : Scene) :
    (chain.after? target text scene).2.data.get? key = scene.data.get? key := by
  induction chain with
  | nil => rfl
  | cons w rest ih =>
      have hw : w ≠ .capture key := fun heq => h (heq ▸ List.mem_cons_self ..)
      have hrest := ih fun hmem => h (List.mem_cons_of_mem _ hmem)
      rw [after?]
      rcases hafter : after? rest target text scene with ⟨outcome, middle⟩
      rw [hafter] at hrest
      cases outcome with
      | error e => exact hrest
      | ok inner =>
          dsimp only at hrest ⊢
          rw [Watcher.after?_eq]
          cases w.rewrite? inner with
          | error e => exact hrest
          | ok result => exact (Watcher.get?_play_closing hw target inner middle).trans hrest

/-- What the calls of a chain after a substitution come to. The text is what its watchers
    make of the given one in turn, the last one first. A name with a capture holds what the
    watchers behind the first capture of this name make of the given text, unless they
    fail, in which case the chain fails like them. -/
structure Settles (chain : Chain) (target text : String) (scene : Scene)
    (outcome : Except WatcherError String) (final : Scene) : Prop where
  outcome_eq : outcome = Watcher.callInTurn target scene chain.reverse text
  stored : ∀ front key back, chain = front ++ .capture key :: back → .capture key ∉ front →
    match Watcher.callInTurn target scene back.reverse text with
    | .ok stored => final.data.get? key = some (.text stored)
    | .error e => outcome = .error e

theorem settles_after? (chain : Chain) (target text : String) (scene : Scene) :
    chain.Settles target text scene (chain.after? target text scene).1
      (chain.after? target text scene).2 where
  outcome_eq := by rw [callInTurn_reverse, after?_eq]
  stored := by
    rintro front key back rfl hfront
    rw [callInTurn_reverse, after?_append, after?, after?_eq back]
    cases rewrite? back text with
    | error e => rfl
    | ok stored =>
        -- The capture stores the text, and the watchers in front do not overwrite it.
        change (after? front target stored _).2.data.get? key = _
        rw [get?_after?_of_not_mem hfront]
        exact (Namespace.get?_put _ key key _).trans (if_pos rfl)

/-- The captures of an outer chain count, whatever the inner one captures. -/
theorem Settles.stored_of_outer {outer inner : Chain} {target text : String} {scene final : Scene}
    {outcome : Except WatcherError String}
    (h : Settles (outer ++ inner) target text scene outcome final) {front back : Chain}
    {key stored : String} (houter : outer = front ++ .capture key :: back)
    (hfront : .capture key ∉ front)
    (hstored : Watcher.callInTurn target scene (back ++ inner).reverse text = .ok stored) :
    final.data.get? key = some (.text stored) := by
  have hsplit : outer ++ inner = front ++ .capture key :: (back ++ inner) := by
    rw [houter, List.append_assoc, List.cons_append]
  have hcapture := h.stored front key (back ++ inner) hsplit hfront
  rwa [hstored] at hcapture

end Chain

namespace Setup

theorem callBefore_append (outer inner : Chain) (target : String) :
    (callBefore (outer ++ inner) target : Expansion σ Unit) = (do
      callBefore outer target
      callBefore inner target) := by
  refine Expansion.ext fun p => ?_
  change (Except.ok (), { p with scene := (outer ++ inner).before target p.scene }) =
    (Except.ok (), { p with scene := inner.before target (outer.before target p.scene) })
  unfold Chain.before
  rw [List.foldl_append]

theorem callAfter_append (outer inner : Chain) (target text : String) :
    (callAfter (outer ++ inner) target text : Expansion σ String) = (do
      let text ← callAfter inner target text
      callAfter outer target text) := by
  refine Expansion.ext fun p => ?_
  rw [Expansion.run_bind, run_callAfter, run_callAfter, Chain.close_eq_mapError,
    Chain.close_eq_mapError, Chain.after?_append]
  rcases inner.after? target text p.scene with ⟨outcome, middle⟩
  cases outcome with
  | error e => rfl
  | ok result =>
      change _ = (callAfter outer target result).run { p with scene := middle }
      rw [run_callAfter, Chain.close_eq_mapError]

/-- The use of a rule calls the watchers of the rule and those of the reference as one chain,
    the latter behind. -/
theorem fire_eq_append (expandItem : Item → Expansion σ String) (rule : RegisteredRule)
    (ref : Reference) :
    fire expandItem rule ref = (do
      callBefore (rule.watchers ++ ref.watchers) ref.tag.toText
      let parts ← rule.content.mapM expandItem
      callAfter (rule.watchers ++ ref.watchers) ref.tag.toText ("".intercalate parts)) := by
  unfold fire
  rw [callBefore_append]
  simp only [callAfter_append, bind_assoc]

theorem run_fire_eq_append (expandItem : Item → Expansion σ String) (rule : RegisteredRule)
    (ref : Reference) (p : Progress σ) :
    (fire expandItem rule ref).run p =
      match (rule.content.mapM expandItem).run { p with
        scene := (rule.watchers ++ ref.watchers).before ref.tag.toText p.scene } with
      | (.error e, q) => (.error e, q)
      | (.ok parts, q) =>
        let called := (rule.watchers ++ ref.watchers).after? ref.tag.toText
          ("".intercalate parts) q.scene
        (called.1.mapError fun _ => .undefinedNumeric, { q with scene := called.2 }) := by
  rw [fire_eq_append, callBefore, Expansion.run_modify_bind, Expansion.run_bind]
  rcases (rule.content.mapM expandItem).run { p with
    scene := (rule.watchers ++ ref.watchers).before ref.tag.toText p.scene } with ⟨outcome, q⟩
  cases outcome with
  | error e => rfl
  | ok parts =>
      dsimp only
      rw [run_callAfter, Chain.close_eq_mapError]

/-- What chains come to after a substitution, whatever the namespace. Every chain gives what
    its watchers make of the text in turn, and stores under each name that it captures the
    text that the first capture of the name is handed. A chain around another one acts on
    what the other one gives and leaves behind. The watchers of a rule that is used act
    around those of the reference: the joined pieces go through the chain of both, and where
    the rule captures a name, its capture counts, whether or not the reference captures it
    too. A template that fails is not called back. -/
theorem settles_chains (expandItem : Item → Expansion σ String) (rule : RegisteredRule)
    (ref : Reference) (p : Progress σ) :
    (∀ (chain : Chain) (target text : String) (scene : Scene), chain.Settles target text scene
      (chain.after? target text scene).1 (chain.after? target text scene).2) ∧
    (∀ (outer inner : Chain) (target text : String) (scene : Scene),
      Chain.after? (outer ++ inner) target text scene =
        match inner.after? target text scene with
        | (.ok result, scene) => outer.after? target result scene
        | (.error e, scene) => (.error e, scene)) ∧
    match (rule.content.mapM expandItem).run { p with
      scene := (rule.watchers ++ ref.watchers).before ref.tag.toText p.scene } with
    | (.error e, q) => (fire expandItem rule ref).run p = (.error e, q)
    | (.ok parts, q) => ∃ outcome final,
      (fire expandItem rule ref).run p =
        (outcome.mapError fun _ => .undefinedNumeric, { q with scene := final }) ∧
      Chain.Settles (rule.watchers ++ ref.watchers) ref.tag.toText ("".intercalate parts) q.scene
        outcome final ∧
      ∀ front key back stored, rule.watchers = front ++ .capture key :: back →
        .capture key ∉ front →
        Watcher.callInTurn ref.tag.toText q.scene (back ++ ref.watchers).reverse
          ("".intercalate parts) = .ok stored →
        final.data.get? key = some (.text stored) := by
  refine ⟨Chain.settles_after?, Chain.after?_append, ?_⟩
  rw [run_fire_eq_append]
  rcases (rule.content.mapM expandItem).run { p with
    scene := (rule.watchers ++ ref.watchers).before ref.tag.toText p.scene } with ⟨outcome, q⟩
  cases outcome with
  | error e => rfl
  | ok parts =>
      have hsettles := Chain.settles_after? (rule.watchers ++ ref.watchers) ref.tag.toText
        ("".intercalate parts) q.scene
      exact ⟨_, _, rfl, hsettles, fun _ _ _ _ hrule hfront hstored =>
        hsettles.stored_of_outer hrule hfront hstored⟩

/-- Two captures of one name around a filter: the outer one is handed the sentence. -/
example :
    (Chain.after? [.capture "k", .sentence, .capture "k"] "[t]" "hi" ⟨.empty, []⟩).2.data.get? "k" =
      some (.text "Hi.") := by cbv

end Setup

end TextGrammar
