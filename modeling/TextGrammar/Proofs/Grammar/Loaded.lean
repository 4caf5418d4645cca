import TextGrammar.Proofs.Expansion.Captures
import TextGrammar.Proofs.Grammar.Template

/-!
# Loaded Grammars

What grammars that are written down can do to a namespace.

A text has names for captures and for the filters, and for no other watchers. So
all watchers of a rule that was read from a text are own ones, those of its header
as well as those of its template, and so are all watchers of a set that was filled
with such rules, even if loading ended with an error on the way. Runs on a loaded
set therefore write texts under the names of captures and nothing else.

## Main definitions

* `Grammar.Loaded`: The rule sets that come from loading texts.

## Theorems

* `RuleSet.mem_toList_add`: Registering a rule adds it and nothing else.
* `Grammar.allWatchers_of_readRuleChars`: Rules that were read have own watchers.
* `Grammar.Loaded.forall_rules`: Rules of loaded sets are like rules that were read.
* `Grammar.Loaded.isOwn`: So loaded sets have own watchers.
* `Engine.extends_runWith_of_loaded`: A run writes through captures alone.
-/

namespace TextGrammar

namespace RuleSet

theorem mem_insertGroup (rule r : RegisteredRule) (groups : List (Tag × List RegisteredRule)) :
    r ∈ (insertGroup rule groups).flatMap Prod.snd ↔ r = rule ∨ r ∈ groups.flatMap Prod.snd := by
  induction groups with
  | nil => simp [insertGroup]
  | cons entry rest ih =>
      obtain ⟨tag, group⟩ := entry
      rw [insertGroup]
      split
      · simp only [List.flatMap_cons, List.mem_append, mem_insertRule, or_assoc]
      · simp only [List.flatMap_cons, List.mem_append, ih]
        exact or_left_comm

/-- Registering a rule adds it and nothing else. -/
theorem mem_toList_add (rules : RuleSet) (rule : Rule) (r : RegisteredRule) :
    r ∈ (rules.add rule).2.toList ↔ r = (rules.add rule).1 ∨ r ∈ rules.toList := by
  unfold add
  split
  · exact mem_insertGroup _ r rules.groups
  · exact mem_insertGroup _ r rules.groups

theorem toRule_add (rules : RuleSet) (rule : Rule) : (rules.add rule).1.toRule = rule := by
  unfold add
  split <;> rfl

/-- What holds of all rules and of a new one holds of all when that is registered. -/
theorem forall_add {P : Rule → Prop} {rules : RuleSet} (h : ∀ r ∈ rules.toList, P r.toRule)
    {rule : Rule} (hrule : P rule) : ∀ r ∈ (rules.add rule).2.toList, P r.toRule := by
  intro r hr
  rcases (mem_toList_add rules rule r).1 hr with rfl | hr
  · rw [toRule_add]
    exact hrule
  · exact h r hr

end RuleSet

theorem IsFilter.isOwn {name : String} {args : List String} {w : Watcher}
    (h : IsFilter name args w) : w.IsOwn := by
  cases h <;> trivial

theorem WatcherForm.StandsFor.isOwn {form : WatcherForm} {w : Watcher} (h : form.StandsFor w) :
    w.IsOwn := by
  cases h with
  | capture key => trivial
  | filter name args w hfilter => exact hfilter.isOwn

theorem ItemForm.StandsFor.isOwn {form : ItemForm} {item : Item} (h : form.StandsFor item) :
    ∀ w ∈ item.watchers, w.IsOwn := by
  cases h with
  | text s => exact fun w hw => absurd hw List.not_mem_nil
  | lookup key ws chain hws => exact forall_of_forall₂ hws fun _ _ hw => hw.isOwn
  | reference tag labels ws chain hws => exact forall_of_forall₂ hws fun _ _ hw => hw.isOwn

namespace RuleOptions

/-- All watchers among the options are own ones. -/
def IsOwn (options : RuleOptions) : Prop := ∀ w, some w ∈ options.watchers → w.IsOwn

/-- The parts that options describe have the template that was given and the watchers
    of the options. -/
theorem of_check {tag : Tag} {content : Content} {options : RuleOptions} {parts : Rule.Parts}
    (h : options.check tag content = .ok parts) :
    parts.content = content ∧ parts.watchers = options.watchers.filterMap id := by
  unfold check at h
  dsimp only at h
  split at h
  · exact absurd h nofun
  · split at h
    · exact absurd h nofun
    · split at h
      · rw [← Except.ok.inj h]
        exact ⟨rfl, rfl⟩
      · exact absurd h nofun

end RuleOptions

namespace Rule

theorem of_create {parts : Parts} {rule : Rule} (h : create parts = .ok rule) :
    rule.content = parts.content ∧ rule.watchers = parts.watchers := by
  unfold create at h
  split at h
  · exact absurd h nofun
  · split at h
    · exact absurd h nofun
    · rw [← Except.ok.inj h]
      exact ⟨rfl, rfl⟩

/-- A rule built from a template and options has the watchers of both. -/
theorem allWatchers_of_build {tag : Tag} {content : Content} {options : RuleOptions} {rule : Rule}
    (h : build tag content options = .ok rule) (hoptions : options.IsOwn)
    (hcontent : ∀ item ∈ content, ∀ w ∈ item.watchers, w.IsOwn) :
    rule.AllWatchers Watcher.IsOwn := by
  unfold build at h
  split at h
  · exact absurd h nofun
  · rename_i parts hparts
    split at h
    · exact absurd h nofun
    · rename_i created hcreated
      cases h
      rcases RuleOptions.of_check hparts with ⟨htemplate, hwatchers⟩
      rcases of_create hcreated with ⟨htemplate', hwatchers'⟩
      refine ⟨fun w hw => ?_, fun item hitem => ?_⟩
      · rw [hwatchers', hwatchers, List.mem_filterMap] at hw
        rcases hw with ⟨option, hmem, hoption⟩
        exact hoptions w (hoption ▸ hmem)
      · rw [htemplate', htemplate] at hitem
        exact hcontent item hitem

end Rule

namespace Grammar

/-- Taking in an option of a header adds own watchers at most. -/
theorem isOwn_of_addOption {place : Place} {options more : RuleOptions} {form : OptionForm}
    (h : addOption place options form = .ok more) (hown : options.IsOwn) : more.IsOwn := by
  -- Only a watcher option adds to the watchers, and those that can be written are all own.
  cases form with
  | priority literal =>
      rcases (bind_eq_ok_iff _ _ _).1 h with ⟨i, _, hi⟩
      cases hi
      exact hown
  | minPriority literal =>
      rcases (bind_eq_ok_iff _ _ _).1 h with ⟨i, _, hi⟩
      cases hi
      exact hown
  | frequency literal =>
      cases h
      exact hown
  | guard text =>
      cases h
      exact hown
  | hashtag label =>
      cases h
      exact hown
  | watcher form =>
      rcases (bind_eq_ok_iff _ _ _).1 h with ⟨w, hw, hmore⟩
      cases hmore
      intro v hv
      rcases List.mem_append.1 hv with hv | hv
      · exact hown v hv
      · rw [Option.some.inj (List.mem_singleton.1 hv)]
        exact ((watcherOf_eq_ok_iff place form w).1 hw).isOwn

theorem isOwn_of_foldlM {place : Place} {forms : List OptionForm} {options more : RuleOptions}
    (h : forms.foldlM (addOption place) options = .ok more) (hown : options.IsOwn) :
    more.IsOwn := by
  induction forms generalizing options with
  | nil =>
      cases h
      exact hown
  | cons form rest ih =>
      rcases (bind_eq_ok_iff _ _ _).1 h with ⟨next, hnext, hrest⟩
      exact ih hrest (isOwn_of_addOption hnext hown)

/-- A template that was read has own watchers. -/
theorem isOwn_of_readContentChars {text : List Char} {place : Place} {content : Content}
    (h : readContentChars text place = .ok content) :
    ∀ item ∈ content, ∀ w ∈ item.watchers, w.IsOwn := by
  rcases (readContentChars_eq_ok_iff text place content).1 h with ⟨segments, _, hmeaning⟩
  exact forall_of_forall₂ hmeaning fun _ _ hitem => hitem.isOwn

/-- A rule that was read has own watchers. -/
theorem allWatchers_of_readRuleChars {text : List Char} {place : Place} {rule : Rule}
    (h : readRuleChars text place = .ok rule) : rule.AllWatchers Watcher.IsOwn := by
  unfold readRuleChars at h
  split at h
  · exact absurd h nofun
  · rcases (bind_eq_ok_iff _ _ _).1 h with ⟨⟨tag, options⟩, hheader, h⟩
    rcases (bind_eq_ok_iff _ _ _).1 h with ⟨content, hcontent, h⟩
    rcases (bind_eq_ok_iff _ _ _).1 hheader with ⟨form, _, hform⟩
    rcases (bind_eq_ok_iff _ _ _).1 hform with ⟨collected, hcollected, hpair⟩
    cases hpair
    have hoptions := isOwn_of_foldlM hcollected fun w hw => absurd hw List.not_mem_nil
    split at h
    · rename_i built hbuilt
      cases h
      exact Rule.allWatchers_of_build hbuilt hoptions (isOwn_of_readContentChars hcontent)
    all_goals exact absurd h nofun

/-- Rule sets that come from loading texts, one after the other, into an empty set. A
    text with an error leaves the rules in front of it. -/
inductive Loaded : RuleSet → Prop
  | empty : Loaded .empty
  | load (text : String) (file : Option String) (rules : RuleSet) (h : Loaded rules) :
      Loaded (load text file rules).2

section

variable {P : Rule → Prop}
  (hread : ∀ text place rule, readRuleChars text place = .ok rule → P rule)

include hread

theorem forall_loadLines {file : Option String} {lines : List LogicalLine} {rules : RuleSet}
    (h : ∀ r ∈ rules.toList, P r.toRule) :
    ∀ r ∈ (loadLines file rules lines).2.toList, P r.toRule := by
  induction lines generalizing rules with
  | nil => exact h
  | cons line rest ih =>
      rw [loadLines]
      split
      · exact h
      · rename_i rule hrule
        exact ih (RuleSet.forall_add h (hread _ _ rule hrule))

/-- What holds of every rule that is read holds of all rules of a loaded set. -/
theorem Loaded.forall_rules {rules : RuleSet} (h : Loaded rules) :
    ∀ r ∈ rules.toList, P r.toRule := by
  induction h with
  | empty => exact fun rule hrule => absurd hrule List.not_mem_nil
  | load text file rules _ ih =>
      unfold Grammar.load
      split
      · exact ih
      · exact forall_loadLines hread ih

end

/-- A loaded set has own watchers. -/
theorem Loaded.isOwn {rules : RuleSet} (h : Loaded rules) : rules.IsOwn :=
  h.forall_rules fun _ _ _ => allWatchers_of_readRuleChars

end Grammar

namespace Engine

/-- A run on a loaded set, whether it succeeds or fails, writes through the captures of
    the rules that are reachable from its root, and of the root itself. What is under any
    other name stays, no name is removed, new names stand behind the old ones, and all that
    is written is text. A capture on a rule that no chain of references leads to writes
    nothing. -/
theorem extends_runWith_of_loaded {σ : Type} (chooser : Chooser σ) (fuel : Nat)
    (engine : Engine σ) {rules : RuleSet} (hloaded : Grammar.Loaded rules) (scene : Scene)
    (root : Reference) (hroot : ∀ w ∈ root.watchers, w.IsOwn) :
    Namespace.Extends (fun key => rules.Captures root.tag key ∨ .capture key ∈ root.watchers)
      scene.data (engine.runWith chooser fuel rules scene root).2.1.data :=
  engine.extends_runWith_of_isOwn chooser fuel hloaded.isOwn scene root hroot

/-- A grammar with captures on a reference, on a look-up, and on a rule that no run from
    its root comes to. -/
def capturingText : String :=
  "root -> [name as hero] in [=place as spot]\nname -> Ann\nother (as lost) -> x\n"

theorem extends_runWith_capturingText :
    let rules := (Grammar.load capturingText none .empty).2
    let data : Namespace :=
      .ofEntries [("lost", .boolean true), ("spot", .number 0), ("place", .text "Rome")]
    let final := (Engine.runWith Chooser.weighted 10 ⟨none, Script.ofList [0], {}⟩ rules ⟨data, []⟩
      { tag := ⟨"root", none⟩ }).2.1.data
    Grammar.Loaded rules ∧
      Namespace.Extends (fun key => rules.Captures ⟨"root", none⟩ key ∨ .capture key ∈ ([] : Chain))
        data final ∧
      rules.Captures ⟨"root", none⟩ "hero" ∧ ¬ rules.Captures ⟨"root", none⟩ "lost" ∧
      final.keys = ["lost", "spot", "place", "hero"] := by
  have hloaded : Grammar.Loaded (Grammar.load capturingText none .empty).2 :=
    .load capturingText none .empty .empty
  refine ⟨hloaded, ?_, ?_, ?_, ?_⟩
  · exact extends_runWith_of_loaded Chooser.weighted 10 ⟨none, Script.ofList [0], {}⟩ hloaded
      ⟨.ofEntries [("lost", .boolean true), ("spot", .number 0), ("place", .text "Rome")], []⟩
      { tag := ⟨"root", none⟩ } nofun
  · decide +kernel
  · decide +kernel
  · decide +kernel

end Engine

end TextGrammar
