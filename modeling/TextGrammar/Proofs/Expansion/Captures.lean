import TextGrammar.Proofs.Expansion.Course
import TextGrammar.Proofs.Expansion.Visited

/-!
# Captures

What a run can write, told from the watchers that it can come across.

Every event of an expansion belongs to a watcher of some rule that is used, of a
piece of the template of such a rule, or of the piece that the expansion starts
with. So whatever holds of the watchers on a set of tags that the rules do not lead
out of holds of the watcher behind every event. With watchers that only store
texts, the events are captures, and the namespace after them differs from the one
before in the way captures do: texts under the names that the captures have, in
their old places or behind all others.

## Main definitions

* `Item.watchers`: The watchers of a piece.
* `Subject.Forall`: All pieces of a subject have a property.
* `Rule.AllWatchers`: All watchers of a rule and its template have a property.
* `RuleSet.IsOwn`: All watchers of a rule set are own ones.
* `RuleSet.Captures`: The names that rules of reachable tags store texts under.
* `Namespace.Extends`: What captures do to a namespace.

## Theorems

* `Setup.emits_of_course`: Every event belongs to a watcher on the way.
* `Setup.captures_of_course`: With own watchers, the events are captures.
* `Namespace.extends_writeAll`: Captures extend a namespace.
* `Engine.extends_runWith_of_isOwn`: So does a run with own watchers.
-/

namespace TextGrammar

variable {σ : Type}

/-- The watchers of a piece. -/
def Item.watchers : Item → Chain
  | .lookup _ chain => chain
  | .reference ref => ref.watchers
  | _ => []

/-- All pieces of a subject have a property. -/
def Subject.Forall (Q : Item → Prop) : Subject → Prop
  | .piece item => Q item
  | .pieces content => ∀ item ∈ content, Q item

/-- All watchers of a rule, and of the pieces of its template, have a property. -/
def Rule.AllWatchers (A : Watcher → Prop) (rule : Rule) : Prop :=
  (∀ w ∈ rule.watchers, A w) ∧ ∀ item ∈ rule.content, ∀ w ∈ item.watchers, A w

instance (A : Watcher → Prop) [DecidablePred A] (rule : Rule) : Decidable (rule.AllWatchers A) :=
  inferInstanceAs (Decidable (_ ∧ _))

namespace RuleSet

/-- All watchers on rules, and in their templates, are own ones. -/
def IsOwn (rules : RuleSet) : Prop := ∀ rule ∈ rules.toList, rule.AllWatchers Watcher.IsOwn

instance (rules : RuleSet) : Decidable rules.IsOwn :=
  inferInstanceAs (Decidable (∀ rule ∈ rules.toList, _))

/-- A name is one that a rule of a reachable tag, or a piece of its template, stores a
    text under. -/
def Captures (rules : RuleSet) (root : Tag) (key : String) : Prop :=
  ∃ tag ∈ (Graph.ofRules rules).reachable root, ∃ rule ∈ rules.rulesFor tag,
    .capture key ∈ rule.watchers ∨ ∃ item ∈ rule.content, .capture key ∈ item.watchers

instance (rules : RuleSet) (root : Tag) (key : String) : Decidable (rules.Captures root key) :=
  inferInstanceAs (Decidable (∃ tag ∈ (Graph.ofRules rules).reachable root,
    ∃ rule ∈ rules.rulesFor tag, _ ∨ _))

/-- A root with rules is reachable from itself, so the tags of all rules are that a run
    can come to. -/
theorem mem_reachable_of_rule {rules : RuleSet} {root tag : Tag} {rule : RegisteredRule}
    (htag : tag = root ∨ tag ∈ (Graph.ofRules rules).reachable root)
    (hrule : rule ∈ rules.rulesFor tag) : tag ∈ (Graph.ofRules rules).reachable root := by
  rcases htag with rfl | htag
  · rcases (rules.mem_rulesFor tag rule).1 hrule with ⟨hmem, rfl⟩
    have hdefined : rule.tag ∈ (Graph.ofRules rules).defined := rules.tag_mem_tags rule hmem
    exact Graph.mem_reachable_self _ (Graph.defined_subset _ _ hdefined)
  · exact htag

end RuleSet

theorem Chain.emits_of_mem_enclose {chain : Chain} {target : String}
    {outcome : Except ExpansionError String} {events : List Event} {event : Event}
    (h : event ∈ chain.enclose target outcome events) :
    event ∈ events ∨ ∃ w ∈ chain, w.Emits event := by
  rcases List.mem_append.1 h with h | h
  · rcases List.mem_append.1 h with h | h
    · exact Or.inr (emits_of_mem_opening h)
    · exact Or.inl h
  · cases outcome with
    | error e => exact absurd h List.not_mem_nil
    | ok text => exact Or.inr (emits_of_mem_closing h)

/-- Every event of an expansion belongs to a watcher on the tags that the rules do not
    lead out of, or to one of the pieces that the expansion starts with. -/
theorem Setup.emits_of_course {setup : Setup σ} {P : Tag → Prop} {A : Watcher → Prop}
    (hclosed : setup.rules.IsClosed P)
    (hall : ∀ tag, P tag → ∀ rule ∈ setup.rules.rulesFor tag, rule.AllWatchers A)
    {fuel depth : Nat} {subject : Subject} {p q : Progress σ}
    {outcome : Except ExpansionError String} {events : List Event}
    (h : setup.Course fuel depth subject p outcome events q)
    (hsubject : subject.Forall fun item => item.Within P ∧ ∀ w ∈ item.watchers, A w) :
    ∀ event ∈ events, ∃ w, A w ∧ w.Emits event := by
  induction h with
  | text => exact fun event hevent => absurd hevent List.not_mem_nil
  | lookup _ _ key chain =>
      intro event hevent
      rcases Chain.emits_of_mem_enclose hevent with hevent | ⟨w, hw, hemits⟩
      · exact absurd hevent List.not_mem_nil
      · exact ⟨w, hsubject.2 w hw, hemits⟩
  | foreign => exact fun event hevent => absurd hevent List.not_mem_nil
  | failed => exact fun event hevent => absurd hevent List.not_mem_nil
  | unmatched => exact fun event hevent => absurd hevent List.not_mem_nil
  | exhausted => exact fun event hevent => absurd hevent List.not_mem_nil
  | fired _ _ ref _ _ _ rule _ _ _ _ hselect _ _ _ ih =>
      -- The rule is one for a tag of the set, and so are those that its template needs.
      have hrule := mem_rulesFor_of_selects _ _ _ _ hselect
      have hwithin := hclosed.within hsubject.1 hrule
      rcases hall _ hsubject.1 rule hrule with ⟨hwatchers, hpieces⟩
      intro event hevent
      rcases Chain.emits_of_mem_enclose hevent with hevent | ⟨w, hw, hemits⟩
      · rcases Chain.emits_of_mem_enclose hevent with hevent | ⟨w, hw, hemits⟩
        · exact ih (fun item hitem => ⟨hwithin item hitem, hpieces item hitem⟩) event hevent
        · exact ⟨w, hsubject.2 w hw, hemits⟩
      · exact ⟨w, hwatchers w hw, hemits⟩
  | nil => exact fun event hevent => absurd hevent List.not_mem_nil
  | cons _ _ item rest _ _ _ _ _ _ _ _ _ ihitem ihrest =>
      intro event hevent
      rcases List.mem_append.1 hevent with hevent | hevent
      · exact ihitem (hsubject item (List.mem_cons_self ..)) event hevent
      · exact ihrest (fun other hother => hsubject other (List.mem_cons_of_mem _ hother)) event
          hevent
  | stop _ _ item _ _ _ _ _ _ ih => exact ih (hsubject item (List.mem_cons_self ..))

/-- With own watchers, the events of an expansion from a root are captures under the
    names of the rules that are reachable, or of the root itself. -/
theorem Setup.captures_of_course {setup : Setup σ} {root : Reference}
    (hown : setup.rules.IsOwn) (hroot : ∀ w ∈ root.watchers, w.IsOwn)
    {fuel depth : Nat} {p q : Progress σ} {outcome : Except ExpansionError String}
    {events : List Event}
    (h : setup.Course fuel depth (.piece (.reference root)) p outcome events q) :
    ∀ event ∈ events, ∃ key text, event = .capture key text ∧
      (setup.rules.Captures root.tag key ∨ .capture key ∈ root.watchers) := by
  -- A capture is emitted by a watcher that the course has met. So the property of watchers has
  -- to name the key, beside the kind.
  let A : Watcher → Prop := fun w => w.IsOwn ∧ ∀ key, w = .capture key →
    setup.rules.Captures root.tag key ∨ .capture key ∈ root.watchers
  have hall : ∀ tag, tag = root.tag ∨ tag ∈ (Graph.ofRules setup.rules).reachable root.tag →
      ∀ rule ∈ setup.rules.rulesFor tag, rule.AllWatchers A := by
    intro tag htag rule hrule
    have hreached := RuleSet.mem_reachable_of_rule htag hrule
    have hmem := ((setup.rules.mem_rulesFor tag rule).1 hrule).1
    refine ⟨fun w hw => ⟨(hown rule hmem).1 w hw, ?_⟩, fun item hitem w hw =>
      ⟨(hown rule hmem).2 item hitem w hw, ?_⟩⟩
    · rintro key rfl
      exact Or.inl ⟨tag, hreached, rule, hrule, Or.inl hw⟩
    · rintro key rfl
      exact Or.inl ⟨tag, hreached, rule, hrule, Or.inr ⟨item, hitem, hw⟩⟩
  have hsubject : Subject.Forall (fun item => item.Within (fun tag => tag = root.tag ∨
      tag ∈ (Graph.ofRules setup.rules).reachable root.tag) ∧ ∀ w ∈ item.watchers, A w)
      (.piece (.reference root)) :=
    ⟨Or.inl rfl, fun w hw => ⟨hroot w hw, fun key hkey => Or.inr (hkey ▸ hw)⟩⟩
  intro event hevent
  rcases Setup.emits_of_course (setup.rules.isClosed_reachable root.tag) hall h hsubject event
    hevent with ⟨w, ⟨hw, hkeys⟩, hemits⟩
  rcases Watcher.eq_capture_of_emits hw hemits with ⟨key, text, rfl, rfl⟩
  exact ⟨key, text, rfl, hkeys key rfl⟩

namespace Namespace

/-- A namespace with texts written under some names: nothing under other names is
    changed, added or removed, what is changed or added is a text, and new names
    stand behind the old ones. -/
structure Extends (C : String → Prop) (initial final : Namespace) : Prop where
  get?_eq : ∀ key, ¬ C key → final.get? key = initial.get? key
  isText : ∀ key, final.get? key ≠ initial.get? key → ∃ s, final.get? key = some (.text s)
  keys_eq : ∃ new, final.keys = initial.keys ++ new

theorem extends_refl (C : String → Prop) (data : Namespace) : Extends C data data :=
  ⟨fun _ _ => rfl, fun _ h => absurd rfl h, [], (List.append_nil _).symm⟩

theorem keys_put (data : Namespace) (key : String) (d : Datum) :
    ∃ new, (data.put key d).keys = data.keys ++ new := by
  have h := Entries.keys_insert data.entries key d
  by_cases hmem : key ∈ data.entries.keys
  · exact ⟨[], by rw [if_pos hmem] at h; rw [List.append_nil]; exact h⟩
  · exact ⟨[key], by rw [if_neg hmem] at h; exact h⟩

/-- Captures under some names extend a namespace. -/
theorem extends_writeAll {C : String → Prop} {events : List Event}
    (hcaptures : ∀ event ∈ events, ∃ key text, event = .capture key text ∧ C key)
    (data : Namespace) : Extends C data (data.writeAll events) := by
  induction events generalizing data with
  | nil => exact extends_refl C data
  | cons event rest ih =>
      rcases hcaptures event (List.mem_cons_self ..) with ⟨key, text, rfl, hkey⟩
      have hrest := ih (fun other hother => hcaptures other (List.mem_cons_of_mem _ hother))
        (data.put key (.text text))
      have hput := data.get?_put key
      refine ⟨fun other hother => ?_, fun other hother => ?_, ?_⟩
      · have hne : key ≠ other := fun h => hother (h ▸ hkey)
        exact (hrest.get?_eq other hother).trans ((hput other _).trans (if_neg hne))
      · -- What the captures behind leave alone is the text that was stored first.
        by_cases hsame : (data.writeAll (.capture key text :: rest)).get? other =
            (data.put key (.text text)).get? other
        · rw [hput] at hsame
          by_cases hkey : key = other
          · rw [if_pos hkey] at hsame
            exact ⟨text, hsame⟩
          · rw [if_neg hkey] at hsame
            exact absurd hsame hother
        · exact hrest.isText other hsame
      · rcases hrest.keys_eq with ⟨more, hmore⟩
        rcases keys_put data key (.text text) with ⟨new, hnew⟩
        exact ⟨new ++ more, by rw [← List.append_assoc, ← hnew]; exact hmore⟩

end Namespace

/-- A run with own watchers extends the namespace by captures of the rules that are
    reachable, and by those of the root reference, whether it succeeds or fails. -/
theorem Engine.extends_runWith_of_isOwn (chooser : Chooser σ) (fuel : Nat) (engine : Engine σ)
    {rules : RuleSet} (hown : rules.IsOwn) (scene : Scene) (root : Reference)
    (hroot : ∀ w ∈ root.watchers, w.IsOwn) :
    Namespace.Extends (fun key => rules.Captures root.tag key ∨ .capture key ∈ root.watchers)
      scene.data (engine.runWith chooser fuel rules scene root).2.1.data := by
  rcases course_runWith chooser fuel engine rules scene root with
    ⟨outcome, events, q, hcourse, hresult⟩
  have hdata : q.scene.data = scene.data.writeAll events := congrArg Scene.data hcourse.scene_eq
  rw [hresult]
  change Namespace.Extends _ _ q.scene.data
  rw [hdata]
  exact Namespace.extends_writeAll (Setup.captures_of_course hown hroot hcourse) scene.data

end TextGrammar
