import TextGrammar.Proofs.Expansion.Captures

/-!
# Dependence on Data

That a run depends on the data that it can read, and on no other.

A run reads the namespace in two places, in the guards of the rules that it
considers and in its look-ups. All of these stand in rules of tags that are
reachable from the root. Two namespaces that agree on the names read there lead
through the same course: guards have the same values, so the same candidates are
found and the same one is chosen, and look-ups find the same texts. The events are
then the same too, and whatever an event does to a name, it does the same to both
namespaces if they agree on it before. So they go on to agree, and the next guard
and the next look-up cannot tell them apart either.

A capture makes namespaces agree on its name even if they did not before. With
watchers that only store texts, the namespaces after a run agree on everything that
the run has written as well.

## Main definitions

* `Namespace.Agree`: The same data, or none, under some names.
* `Rule.readNames`, `RuleSet.Reads`: The names that a rule reads, and those that rules
  of reachable tags read.
* `Progress.withData`: A state with other data.
* `Engine.Undergoes`: The events of a run.

## Theorems

* `Namespace.Agree.writeAll`, `Namespace.agree_of_captures`: Agreement after events.
* `Candidates.find_congr`: Candidates depend on the names that rules read.
* `Setup.course_withData`: The same course from a state with other data.
* `Engine.scene_of_undergoes`: A run changes its scene by its events.
* `Engine.runWith_of_agree`: Runs from namespaces that agree on what is read.
-/

namespace TextGrammar

variable {σ : Type}

/-- An event writes to a name. -/
def Event.Writes (key : String) : Event → Prop
  | .record _ => False
  | .capture name _ | .count name => key = name

namespace Namespace

/-- Two namespaces have the same data under some names, or both none. -/
def Agree (K : String → Prop) (a b : Namespace) : Prop := ∀ key, K key → a.get? key = b.get? key

variable {K : String → Prop} {a b : Namespace}

theorem Agree.put (h : Agree K a b) (key : String) (d : Datum) :
    Agree (fun other => K other ∨ other = key) (a.put key d) (b.put key d) := by
  intro other hother
  rw [get?_put, get?_put]
  by_cases heq : key = other
  · rw [if_pos heq, if_pos heq]
  · rw [if_neg heq, if_neg heq]
    exact h other (hother.resolve_right fun h => heq h.symm)

/-- Events keep an agreement: what they write depends on the name that they write. -/
theorem Agree.write (h : Agree K a b) (event : Event) :
    Agree K (a.write event) (b.write event) := by
  cases event with
  | record call => exact h
  | capture key text => exact fun other hother => h.put key (.text text) other (Or.inl hother)
  | count key =>
      intro other hother
      simp only [Namespace.write, get?_put]
      by_cases heq : key = other
      · rw [number?, number?, h key (heq ▸ hother), if_pos heq, if_pos heq]
      · rw [if_neg heq, if_neg heq]
        exact h other hother

theorem Agree.writeAll (h : Agree K a b) (events : List Event) :
    Agree K (a.writeAll events) (b.writeAll events) := by
  induction events generalizing a b with
  | nil => exact h
  | cons event rest ih => exact ih (h.write event)

/-- After captures, namespaces agree on what was written too. -/
theorem agree_of_captures {events : List Event}
    (hcaptures : ∀ event ∈ events, ∃ key text, event = .capture key text) (h : Agree K a b) :
    Agree (fun key => K key ∨ ∃ event ∈ events, event.Writes key)
      (a.writeAll events) (b.writeAll events) := by
  induction events generalizing K a b with
  | nil =>
      rintro key (hkey | ⟨event, hmem, _⟩)
      · exact h key hkey
      · exact absurd hmem List.not_mem_nil
  | cons event rest ih =>
      rcases hcaptures event (List.mem_cons_self ..) with ⟨key, text, rfl⟩
      -- The name that is captured first joins those that are agreed on.
      have hrest := ih (fun other hother => hcaptures other (List.mem_cons_of_mem _ hother))
        (h.put key (.text text))
      rintro other (hother | ⟨event, hmem, hwrites⟩)
      · exact hrest other (Or.inl (Or.inl hother))
      · rcases List.mem_cons.1 hmem with rfl | hmem
        · exact hrest other (Or.inl (Or.inr hwrites))
        · exact hrest other (Or.inr ⟨event, hmem, hwrites⟩)

theorem textFor_congr {key : String} (h : a.get? key = b.get? key) :
    a.textFor key = b.textFor key := by
  rw [textFor, textFor, h]

end Namespace

open Namespace

namespace Expression

variable {a b : Namespace}

theorem step_congr {i : Instruction} (h : ∀ name, i = .get name → a.get? name = b.get? name)
    (stack : Stack) : step a i stack = step b i stack := by
  cases i with
  | get name =>
      simp only [step, operand?_congr (h name rfl)]
  | literal d => rfl
  | not => cases stack <;> rfl
  | binary op =>
      cases stack with
      | nil => rfl
      | cons top rest => cases rest <;> rfl

theorem run_congr {instructions : List Instruction}
    (h : ∀ name, .get name ∈ instructions → a.get? name = b.get? name) (stack : Stack) :
    run a instructions stack = run b instructions stack := by
  induction instructions generalizing stack with
  | nil => rfl
  | cons i rest ih =>
      have hstep := step_congr (a := a) (b := b) (i := i)
        (fun name hi => h name (hi ▸ List.mem_cons_self ..)) stack
      rw [run, run, hstep]
      cases step b i stack with
      | none => rfl
      | some next => exact ih (fun name hname => h name (List.mem_cons_of_mem _ hname)) next

/-- The truth of a guard depends on the names that it gets. -/
theorem isTrue_congr {guard : Expression}
    (h : ∀ name, .get name ∈ guard.instructions → a.get? name = b.get? name) :
    guard.isTrue a = guard.isTrue b := by
  have hevaluate : guard.evaluate a = guard.evaluate b := by
    unfold evaluate
    split
    · rfl
    · rw [run_congr h]
  rw [isTrue, isTrue, hevaluate]

end Expression

/-- The names that an expression gets the data of. -/
def Expression.readNames (e : Expression) : List String :=
  e.instructions.filterMap fun i =>
    match i with
    | .get name => some name
    | _ => none

/-- The name that a piece looks up. -/
def Item.readName? : Item → Option String
  | .lookup key _ => some key
  | _ => none

namespace Rule

/-- The names that a rule reads, in its guard or in the look-ups of its template. -/
def readNames (rule : Rule) : List String :=
  rule.guard.toList.flatMap Expression.readNames ++ rule.content.filterMap Item.readName?

theorem mem_readNames_of_lookup {rule : Rule} {key : String} {chain : Chain}
    (h : .lookup key chain ∈ rule.content) : key ∈ rule.readNames :=
  List.mem_append_right _ (List.mem_filterMap.2 ⟨.lookup key chain, h, rfl⟩)

theorem mem_readNames_of_get {rule : Rule} {guard : Expression} {name : String}
    (hguard : rule.guard = some guard) (h : .get name ∈ guard.instructions) :
    name ∈ rule.readNames := by
  refine List.mem_append_left _ (List.mem_flatMap.2 ⟨guard, Option.mem_toList.2 hguard, ?_⟩)
  exact List.mem_filterMap.2 ⟨.get name, h, rfl⟩

/-- Whether a rule can be used depends on the names that it reads. -/
theorem canFire_congr {rule : Rule} {a b : Namespace} (h : Agree (· ∈ rule.readNames) a b) :
    rule.canFire a = rule.canFire b := by
  unfold canFire
  cases hguard : rule.guard with
  | none => rfl
  | some guard =>
      exact Expression.isTrue_congr fun name hname => h name (mem_readNames_of_get hguard hname)

end Rule

/-- A name is one that a rule of a reachable tag reads. -/
def RuleSet.Reads (rules : RuleSet) (root : Tag) (name : String) : Prop :=
  ∃ tag ∈ (Graph.ofRules rules).reachable root, ∃ rule ∈ rules.rulesFor tag, name ∈ rule.readNames

instance (rules : RuleSet) (root : Tag) (name : String) : Decidable (rules.Reads root name) :=
  inferInstanceAs (Decidable (∃ tag ∈ (Graph.ofRules rules).reachable root,
    ∃ rule ∈ rules.rulesFor tag, name ∈ rule.readNames))

namespace Candidates

variable {a b : Namespace}

theorem search_congr (ref : Reference) (floor : Option Int) {rules : List RegisteredRule}
    (h : ∀ rule ∈ rules, rule.canFire a = rule.canFire b) :
    search ref a floor rules = search ref b floor rules := by
  induction rules generalizing floor with
  | nil => rfl
  | cons first rest ih =>
      have hrest := fun floor => ih floor fun rule hrule => h rule (List.mem_cons_of_mem _ hrule)
      simp only [search, h first (List.mem_cons_self ..), hrest]

/-- The candidates for a reference depend on the names that the rules for its tag read. -/
theorem find_congr {rules : RuleSet} (ref : Reference)
    (h : ∀ rule ∈ rules.rulesFor ref.tag, Agree (· ∈ rule.readNames) a b) :
    find rules ref a = find rules ref b := by
  rw [find, find, search_congr ref none fun rule hrule => Rule.canFire_congr (h rule hrule)]

end Candidates

/-- The state with other data. -/
def Progress.withData (p : Progress σ) (data : Namespace) : Progress σ :=
  { p with scene := { p.scene with data := data } }

namespace Setup

variable {setup : Setup σ}

theorem selects_withData {depth : Nat} {ref : Reference} {p q : Progress σ}
    {outcome : Except ExpansionError (Option RegisteredRule)} {data : Namespace}
    (h : Selects setup depth ref p outcome q)
    (hfind : Candidates.find setup.rules ref p.scene.data = Candidates.find setup.rules ref data) :
    Selects setup depth ref (p.withData data) outcome (q.withData data) := by
  cases h with
  | malformed e he => exact .malformed e (hfind.symm.trans he)
  | unmatched found hfound hnil => exact .unmatched found (hfind.symm.trans hfound) hnil
  | refused found limit hfound hne hdeep =>
      exact .refused found limit (hfind.symm.trans hfound) hne hdeep
  | missed found source hfound hne hroom hchoose =>
      exact .missed found source (hfind.symm.trans hfound) hne hroom hchoose
  | chosen found rule source hfound hne hroom hchoose =>
      exact .chosen found rule source (hfind.symm.trans hfound) hne hroom hchoose

/-- From data that agree on all names that the rules for a closed set of tags read, an
    expansion takes the same course, and writes the same. -/
theorem course_withData {P : Tag → Prop} {K : String → Prop}
    (hclosed : setup.rules.IsClosed P)
    (hreads : ∀ tag, P tag → ∀ rule ∈ setup.rules.rulesFor tag, ∀ name ∈ rule.readNames, K name)
    {fuel depth : Nat} {subject : Subject} {p q : Progress σ}
    {outcome : Except ExpansionError String} {events : List Event} {data : Namespace}
    (h : setup.Course fuel depth subject p outcome events q)
    (hsubject : subject.Forall fun item => item.Within P ∧
      ∀ name chain, item = .lookup name chain → K name)
    (hagree : Agree K p.scene.data data) :
    setup.Course fuel depth subject (p.withData data) outcome events
      (q.withData (data.writeAll events)) := by
  have hselects : ∀ {depth : Nat} {ref : Reference} {p q : Progress σ} {data : Namespace}
      {outcome : Except ExpansionError (Option RegisteredRule)},
      P ref.tag → Agree K p.scene.data data → Selects setup depth ref p outcome q →
        Selects setup depth ref (p.withData data) outcome (q.withData data) := by
    intro depth ref p q data outcome htag hagree hselect
    refine selects_withData hselect (Candidates.find_congr ref fun rule hrule name hname => ?_)
    exact hagree name (hreads _ htag rule hrule name hname)
  induction h generalizing data with
  | text fuel depth s p => exact .text fuel depth s (p.withData data)
  | lookup fuel depth key chain p opened text hopened htext =>
      -- The events before the look-up keep the agreement on its name.
      have hname := hagree.writeAll (chain.opening (Item.lookupText key)) key
        (hsubject.2 key chain rfl)
      subst hopened
      simp only [Chain.enclose, writeAll_append]
      exact .lookup fuel depth key chain (p.withData data) _ text rfl
        (htext.trans (textFor_congr hname))
  | foreign fuel depth given p => exact .foreign fuel depth given (p.withData data)
  | failed fuel depth ref p q e hselect =>
      exact .failed fuel depth ref _ _ e (hselects hsubject.1 hagree hselect)
  | unmatched fuel depth ref p q hselect =>
      exact .unmatched fuel depth ref _ _ (hselects hsubject.1 hagree hselect)
  | exhausted depth ref p q rule hselect =>
      exact .exhausted depth ref _ _ rule (hselects hsubject.1 hagree hselect)
  | fired fuel depth ref p q r rule outcome inner target events hselect htarget hcontent hinner
      ih =>
      have hrule := mem_rulesFor_of_selects _ _ _ _ hselect
      have hwithin := hclosed.within hsubject.1 hrule
      -- Every name that the template looks up is one that its rule reads.
      have hcontent : Subject.Forall (fun item => item.Within P ∧
          ∀ name chain, item = .lookup name chain → K name) (.pieces rule.content) := by
        intro item hitem
        refine ⟨hwithin item hitem, ?_⟩
        rintro name chain rfl
        exact hreads _ hsubject.1 rule hrule name (Rule.mem_readNames_of_lookup hitem)
      have hstart : Agree K q.scene.data data := (scene_of_selects hselect).symm ▸ hagree
      have hcourse := ih hcontent
        ((hstart.writeAll (rule.watchers.opening target)).writeAll (ref.watchers.opening target))
      simp only [Chain.enclose, writeAll_append]
      exact .fired fuel depth ref _ _ _ rule outcome inner target events
        (hselects hsubject.1 hagree hselect) htarget hcourse hinner
  | nil fuel depth p => exact .nil fuel depth (p.withData data)
  | cons fuel depth item rest p q r text outcome events more hitem hrest ihitem ihrest =>
      -- The events of the first piece leave data behind that agree again.
      have hnext : Agree K q.scene.data (data.writeAll events) := by
        rw [hitem.scene_eq]
        exact hagree.writeAll events
      rw [writeAll_append]
      exact .cons fuel depth item rest _ _ _ text outcome events more
        (ihitem (hsubject item (List.mem_cons_self ..)) hagree)
        (ihrest (fun other hother => hsubject other (List.mem_cons_of_mem _ hother)) hnext)
  | stop fuel depth item rest p q e events hitem ih =>
      exact .stop fuel depth item rest _ _ e events
        (ih (hsubject item (List.mem_cons_self ..)) hagree)

end Setup

namespace Engine

/-- The events of a run, which are those of the course that the expansion of its root
    takes. -/
def Undergoes (chooser : Chooser σ) (fuel : Nat) (engine : Engine σ) (rules : RuleSet)
    (scene : Scene) (root : Reference) (events : List Event) : Prop :=
  ∃ outcome q, Setup.Course ⟨rules, engine.maxDepth, chooser⟩ fuel 0 (.piece (.reference root))
    ⟨scene, engine.source, engine.metrics⟩ outcome events q

/-- What a run writes and records is what its events do. -/
theorem scene_of_undergoes {chooser : Chooser σ} {fuel : Nat} {engine : Engine σ}
    {rules : RuleSet} {scene : Scene} {root : Reference} {events : List Event}
    (h : engine.Undergoes chooser fuel rules scene root events) :
    (engine.runWith chooser fuel rules scene root).2.1 = scene.play events := by
  rcases h with ⟨outcome, q, hcourse⟩
  rw [runWith_eq, Setup.run_of_course hcourse]
  exact hcourse.scene_eq

/-- A run depends on the data that it can read. From namespaces that agree on the names
    that rules of reachable tags read, runs with own watchers have the same outcome and
    leave the same engine, with its metrics and its source, and their events are the
    same. In the end, the namespaces agree on these names and on all that were written to. -/
theorem runWith_of_agree (chooser : Chooser σ) (fuel : Nat) (engine : Engine σ)
    {rules : RuleSet} (hown : rules.IsOwn) (root : Reference) (hroot : ∀ w ∈ root.watchers, w.IsOwn)
    (scene : Scene) (other : Namespace)
    (hagree : Agree (rules.Reads root.tag) scene.data other) :
    let first := engine.runWith chooser fuel rules scene root
    let second := engine.runWith chooser fuel rules { scene with data := other } root
    second.1 = first.1 ∧ second.2.2 = first.2.2 ∧
      ∃ events, engine.Undergoes chooser fuel rules scene root events ∧
        engine.Undergoes chooser fuel rules { scene with data := other } root events ∧
        Agree (fun key => rules.Reads root.tag key ∨ ∃ event ∈ events, event.Writes key)
          first.2.1.data second.2.1.data := by
  intro first second
  rcases course_runWith chooser fuel engine rules scene root with
    ⟨outcome, events, q, hcourse, hfirst⟩
  let P : Tag → Prop := fun tag => tag = root.tag ∨ tag ∈ (Graph.ofRules rules).reachable root.tag
  have hreads : ∀ tag, P tag → ∀ rule ∈ rules.rulesFor tag, ∀ name ∈ rule.readNames,
      rules.Reads root.tag name := fun tag htag rule hrule name hname =>
    ⟨tag, RuleSet.mem_reachable_of_rule htag hrule, rule, hrule, hname⟩
  have hsubject : (Subject.piece (.reference root)).Forall fun item => item.Within P ∧
      ∀ name chain, item = .lookup name chain → rules.Reads root.tag name := ⟨Or.inl rfl, nofun⟩
  let setup : Setup σ := ⟨rules, engine.maxDepth, chooser⟩
  have hother : setup.Course fuel 0 (.piece (.reference root))
      ⟨{ scene with data := other }, engine.source, engine.metrics⟩ outcome events
      (q.withData (other.writeAll events)) :=
    Setup.course_withData (rules.isClosed_reachable root.tag) hreads hcourse hsubject hagree
  have hsecond : second = finish engine.maxDepth (outcome, q.withData (other.writeAll events)) := by
    change engine.runWith chooser fuel rules _ root = _
    rw [runWith_eq, Setup.run_of_course hother]
  have hundergoes : engine.Undergoes chooser fuel rules scene root events := ⟨outcome, q, hcourse⟩
  have hundergoesOther : engine.Undergoes chooser fuel rules { scene with data := other } root
      events := ⟨outcome, _, hother⟩
  refine ⟨?_, ?_, events, hundergoes, hundergoesOther, ?_⟩
  · exact (congrArg Prod.fst hsecond).trans (congrArg Prod.fst hfirst).symm
  · exact (congrArg (·.2.2) hsecond).trans (congrArg (·.2.2) hfirst).symm
  · -- All events are captures, which leave the same text in both.
    rw [scene_of_undergoes hundergoes, scene_of_undergoes hundergoesOther]
    refine agree_of_captures (fun event hevent => ?_) hagree
    rcases Setup.captures_of_course hown hroot hcourse event hevent with ⟨key, text, heq, _⟩
    exact ⟨key, text, heq⟩

/-- A rule that looks a name up and captures the text, and whose template needs one of
    two rules with opposite guards. No run from its tag comes to the last rule. -/
def guardedPair : RuleSet :=
  RuleSet.ofList ([
    { tag := ⟨"a", none⟩,
      content := [.lookup "who" [.capture "seen"], .reference { tag := ⟨"b", none⟩ }] },
    { tag := ⟨"b", none⟩, content := [.text "x"], guard := some ⟨[.get "calm"]⟩ },
    { tag := ⟨"b", none⟩, content := [.text "y"], guard := some ⟨[.get "calm", .not]⟩ },
    { tag := ⟨"c", none⟩, content := [.lookup "lost" []] }].filterMap
      fun parts => (Rule.create parts).toOption)

theorem runWith_of_agree_guardedPair :
    let scene : Scene :=
      ⟨.ofEntries [("seen", .number 0), ("who", .text "Ann"), ("lost", .boolean true)], []⟩
    let other : Namespace := .ofEntries [("who", .text "Ann")]
    let root : Reference := { tag := ⟨"a", none⟩ }
    let engine : Engine Script := ⟨none, Script.ofList [0], {}⟩
    guardedPair.IsOwn ∧ Agree (guardedPair.Reads root.tag) scene.data other ∧
      ¬ guardedPair.Reads root.tag "seen" ∧ other.get? "seen" = none ∧
      (engine.runWith Chooser.weighted 5 guardedPair scene root).1.toOption = some "Anny" ∧
      let first := engine.runWith Chooser.weighted 5 guardedPair scene root
      let second := engine.runWith Chooser.weighted 5 guardedPair { scene with data := other } root
      second.1 = first.1 ∧ second.2.2 = first.2.2 ∧
        ∃ events, engine.Undergoes Chooser.weighted 5 guardedPair scene root events ∧
          engine.Undergoes Chooser.weighted 5 guardedPair { scene with data := other } root events ∧
          Agree (fun key => guardedPair.Reads root.tag key ∨ ∃ event ∈ events, event.Writes key)
            first.2.1.data second.2.1.data := by
  intro scene other root engine
  have hown : guardedPair.IsOwn := by decide +kernel
  have hnames : ∀ tag ∈ (Graph.ofRules guardedPair).reachable ⟨"a", none⟩,
      ∀ rule ∈ guardedPair.rulesFor tag, ∀ name ∈ rule.readNames, name = "who" ∨ name = "calm" := by
    decide +kernel
  have hagree : Agree (guardedPair.Reads root.tag) scene.data other := by
    rintro name ⟨tag, htag, rule, hrule, hname⟩
    rcases hnames tag htag rule hrule name hname with rfl | rfl
    · rfl
    · rfl
  refine ⟨hown, hagree, by decide +kernel, rfl, by decide +kernel, ?_⟩
  exact runWith_of_agree Chooser.weighted 5 engine hown root nofun scene other hagree

end Engine

end TextGrammar
