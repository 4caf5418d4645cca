import TextGrammar.Proofs.Grammar.Meaning

/-!
# Collected Options

What the options of a header come to, and the rule that they make.

Options are taken one after the other into those collected so far. A field that is
given again overwrites what came before, while labels and watchers add up. So the
collection is known at every point from the values taken up to there, and the checks
of the rule are made once, at the end.

## Main definitions

* `OptionValue.last`: The value of the last option of a kind.
* `Describes`: What options and a template say of a rule.
* `RuleOptions.ofValues`: Options as they are collected.
* `RuleOptions.partsOf`: The parts of a rule as they are collected.

## Theorems

* `Describes.eq`: What options and a template say of a rule is all there is to it.
* `Grammar.addOption_ofValues`: One option is taken into those in front of it.
* `Grammar.foldlM_addOption`: Options are collected one after the other.
* `RuleOptions.check_ofValues`: Options that were collected pass all checks.
* `Rule.build_ofValues`: They make the rule that they describe.
-/

namespace TextGrammar

open Spelling

namespace OptionValue

/-- The priority, if that is what is given. -/
def priority? : OptionValue → Option Int
  | .priority i => some i
  | _ => none

/-- The minimum priority, if that is what is given. -/
def minPriority? : OptionValue → Option Int
  | .minPriority i => some i
  | _ => none

/-- The frequency, if that is what is given. -/
def frequency? : OptionValue → Option Binary64
  | .frequency x => some x
  | _ => none

/-- The text of the guard, if that is what is given. -/
def guard? : OptionValue → Option String
  | .guard text => some text
  | _ => none

/-- The label, if that is what is given. -/
def hashtag? : OptionValue → Option String
  | .hashtag label => some label
  | _ => none

/-- The watcher, if that is what is given. -/
def watcher? : OptionValue → Option Watcher
  | .watcher w => some w
  | _ => none

variable {α : Type} (kind? : OptionValue → Option α)

/-- The value of the last option of a kind. -/
def last (values : List OptionValue) : Option α := (values.filterMap kind?).getLast?

theorem filterMap_concat (front : List OptionValue) (value : OptionValue) :
    (front ++ [value]).filterMap kind? = front.filterMap kind? ++ (kind? value).toList := by
  rw [List.filterMap_append, List.filterMap_cons, List.filterMap_nil]
  cases kind? value with
  | none => rfl
  | some a => rfl

theorem last_concat (front : List OptionValue) (value : OptionValue) :
    last kind? (front ++ [value]) = (kind? value).or (last kind? front) := by
  rw [last, filterMap_concat]
  cases kind? value with
  | none => rw [Option.toList_none, List.append_nil, Option.none_or, last]
  | some a => rw [Option.toList_some, List.getLast?_concat, Option.some_or]

/-- What options give comes from their forms. -/
theorem exists_of_mem_filterMap {kind? : OptionValue → Option α} {forms : List OptionForm}
    {values : List OptionValue} {a : α} (h : List.Forall₂ OptionForm.StandsFor forms values)
    (ha : a ∈ values.filterMap kind?) :
    ∃ form ∈ forms, ∃ value, form.StandsFor value ∧ kind? value = some a := by
  rcases List.mem_filterMap.1 ha with ⟨value, hvalue, hkind⟩
  rcases List.mem_iff_getElem.1 hvalue with ⟨i, hi, rfl⟩
  have hlength := h.length_eq
  exact ⟨forms[i], List.getElem_mem _, values[i], h.get (by omega) hi, hkind⟩

theorem hashtag_mem_of_label {forms : List OptionForm} {values : List OptionValue} {label : String}
    (h : List.Forall₂ OptionForm.StandsFor forms values)
    (hlabel : label ∈ values.filterMap hashtag?) : .hashtag label ∈ forms := by
  rcases exists_of_mem_filterMap h hlabel with ⟨form, hform, value, hvalue, hkind⟩
  cases hvalue <;> cases hkind
  exact hform

theorem guard_mem_of_last {forms : List OptionForm} {values : List OptionValue} {text : String}
    (h : List.Forall₂ OptionForm.StandsFor forms values)
    (hlast : last guard? values = some text) : .guard text ∈ forms := by
  rcases exists_of_mem_filterMap h (List.mem_of_getLast? hlast) with
    ⟨form, hform, value, hvalue, hkind⟩
  cases hvalue <;> cases hkind
  exact hform

theorem frequency_mem_of_last {forms : List OptionForm} {values : List OptionValue} {x : Binary64}
    (h : List.Forall₂ OptionForm.StandsFor forms values)
    (hlast : last frequency? values = some x) :
    ∃ literal, .frequency literal ∈ forms ∧ IsNumber literal x := by
  rcases exists_of_mem_filterMap h (List.mem_of_getLast? hlast) with
    ⟨form, hform, value, hvalue, hkind⟩
  cases hvalue <;> cases hkind
  exact ⟨_, hform, ‹_›⟩

end OptionValue

open OptionValue

/-- The guard that a text stands for, which is none if the text is blank. -/
def guardOf (text : String) : Option Expression :=
  if (Text.strip text.toList).isEmpty then none else (Expression.parse text).toOption

/-- A rule for a tag with the given options and template. Of two options for the same
    field the later one counts. The minimum priority is the priority unless a lower one
    was given. -/
structure Describes (tag : Tag) (values : List OptionValue) (content : Content) (rule : Rule) :
    Prop where
  tag : rule.tag = tag
  content : rule.content = content
  priority : rule.priority = (last priority? values).getD 1
  minPriority : rule.minPriority = min ((last minPriority? values).getD rule.priority) rule.priority
  frequency : rule.frequency = (last frequency? values).getD 1
  guard : rule.guard = (last guard? values).bind guardOf
  hashtags : rule.hashtags = sortedDistinct (values.filterMap hashtag?)
  watchers : rule.watchers = values.filterMap watcher?
  presetOrder : rule.presetOrder = none

/-- What options and a template say of a rule leaves nothing open. -/
theorem Describes.eq {tag : Tag} {values : List OptionValue} {content : Content}
    {rule other : Rule} (h : Describes tag values content rule)
    (hother : Describes tag values content other) : rule = other := by
  have hpriority : rule.priority = other.priority := h.priority.trans hother.priority.symm
  have hminimum : rule.minPriority = other.minPriority := by
    rw [h.minPriority, hother.minPriority, hpriority]
  have htag := h.tag.trans hother.tag.symm
  have hcontent := h.content.trans hother.content.symm
  have hfrequency := h.frequency.trans hother.frequency.symm
  have hguard := h.guard.trans hother.guard.symm
  have hhashtags := h.hashtags.trans hother.hashtags.symm
  have hwatchers := h.watchers.trans hother.watchers.symm
  have hpreset := h.presetOrder.trans hother.presetOrder.symm
  cases rule
  cases other
  subst htag hcontent hpriority hminimum hfrequency hguard hhashtags hwatchers hpreset
  rfl

namespace RuleOptions

/-- Labels as they are collected. -/
def ofLabels : List String → Option Value
  | [] => none
  | labels => some (.sequence (labels.map .text))

/-- Options as they are collected. -/
def ofValues (values : List OptionValue) : RuleOptions where
  priority := (last priority? values).map fun i => .number (.whole i)
  minPriority := (last minPriority? values).map fun i => .number (.whole i)
  frequency := (last frequency? values).map fun x => .number (.real x)
  guard := (last guard? values).map .text
  hashtags := ofLabels (values.filterMap hashtag?)
  watchers := (values.filterMap watcher?).map some

/-- One more option overwrites its field, or comes behind those that were collected. -/
theorem ofValues_concat (front : List OptionValue) (value : OptionValue) :
    ofValues (front ++ [value]) =
      match value with
      | .priority i => { ofValues front with priority := some (.number (.whole i)) }
      | .minPriority i => { ofValues front with minPriority := some (.number (.whole i)) }
      | .frequency x => { ofValues front with frequency := some (.number (.real x)) }
      | .guard text => { ofValues front with guard := some (.text text) }
      | .hashtag label =>
        { ofValues front with
          hashtags := some (.sequence ((front.filterMap hashtag?).map .text ++ [.text label])) }
      | .watcher w =>
        { ofValues front with watchers := (ofValues front).watchers ++ [some w] } := by
  have hlabels : ∀ (labels : List String) (label : String),
      ofLabels (labels ++ [label]) = some (.sequence (labels.map .text ++ [.text label])) := by
    intro labels label
    cases labels with
    | nil => rfl
    | cons first labels =>
        change some (Value.sequence ((first :: labels ++ [label]).map Value.text)) = _
        rw [List.map_append]
        rfl
  -- The last option of its own kind is the new one, and for other kinds it is not there.
  simp only [ofValues, last_concat, filterMap_concat]
  cases value with
  | priority i => simp only [hashtag?, watcher?, Option.toList_none, List.append_nil]; rfl
  | minPriority i => simp only [hashtag?, watcher?, Option.toList_none, List.append_nil]; rfl
  | frequency x => simp only [hashtag?, watcher?, Option.toList_none, List.append_nil]; rfl
  | guard text => simp only [hashtag?, watcher?, Option.toList_none, List.append_nil]; rfl
  | hashtag label =>
      simp only [hashtag?, watcher?, Option.toList_none, Option.toList_some, List.append_nil,
        hlabels]
      rfl
  | watcher w =>
      simp only [hashtag?, watcher?, Option.toList_none, Option.toList_some, List.append_nil,
        List.map_append]
      rfl

/-- The labels that were collected are those that are there. -/
theorem collected_ofLabels (labels : List String) :
    (match ofLabels labels with
      | some (.sequence vs) => vs
      | _ => []) = labels.map Value.text := by
  cases labels with
  | nil => rfl
  | cons first labels => rfl

/-- The parts of a rule as they were collected. -/
def partsOf (tag : Tag) (content : Content) (values : List OptionValue) : Rule.Parts where
  tag := tag
  content := content
  priority := (last priority? values).getD 1
  minPriority := last minPriority? values
  frequency := .real ((last frequency? values).getD 1)
  guard := (last guard? values).bind guardOf
  hashtags := values.filterMap hashtag?
  watchers := values.filterMap watcher?

end RuleOptions

namespace Grammar

theorem addOption_ofValues (place : Place) (front : List OptionValue) {form : OptionForm}
    {value : OptionValue} (h : form.StandsFor value) :
    addOption place (.ofValues front) form = .ok (.ofValues (front ++ [value])) := by
  rw [RuleOptions.ofValues_concat]
  cases h with
  | priority literal i hliteral hlimit =>
      rw [addOption, integerOf_eq "priority" hliteral hlimit]
      rfl
  | minPriority literal i hliteral hlimit =>
      rw [addOption, integerOf_eq "min_priority" hliteral hlimit]
      rfl
  | frequency literal x hliteral => rw [addOption, numberOf_eq hliteral]
  | guard text => rfl
  | hashtag label =>
      -- Labels are put behind those that were collected, of which there may be none.
      dsimp only
      rw [← RuleOptions.collected_ofLabels]
      rfl
  | watcher form w hw =>
      rw [addOption, (watcherOf_eq_ok_iff place form w).2 hw]
      rfl

/-- Options are collected one after the other. -/
theorem foldlM_addOption (place : Place) (front : List OptionValue) {forms : List OptionForm}
    {values : List OptionValue} (h : List.Forall₂ OptionForm.StandsFor forms values) :
    forms.foldlM (addOption place) (.ofValues front) = .ok (.ofValues (front ++ values)) := by
  induction h generalizing front with
  | nil =>
      rw [List.append_nil]
      rfl
  | cons hfirst hmore ih =>
      rw [List.foldlM_cons, addOption_ofValues place front hfirst]
      refine (ih _).trans ?_
      rw [List.append_assoc]
      rfl

end Grammar

namespace RuleOptions

theorem readGuard_last {guard : Option String}
    (h : ∀ text ∈ guard, ∃ e, Expression.parse text = .ok e) :
    readGuard ((guard.map Value.text).getD .null) = .ok (.ok (guard.bind guardOf)) := by
  cases guard with
  | none => rfl
  | some text =>
      rcases h text rfl with ⟨e, he⟩
      change readGuard (.text text) = .ok (.ok (guardOf text))
      unfold readGuard guardOf
      dsimp only
      split
      · rfl
      · rw [he]
        rfl

/-- Names have no number signs in front that could be taken away. -/
theorem bareLabel_of_isName {label : String} (h : IsName label.toList) :
    bareLabel label = label := by
  unfold bareLabel
  cases hlist : label.toList with
  | nil =>
      rw [hlist] at h
      exact h.elim
  | cons c more =>
      rw [hlist] at h
      have hc : (c == '#') = false := by
        refine beq_false_of_ne ?_
        rintro rfl
        exact absurd h.1 (by decide)
      rw [List.dropWhile_cons, hc, if_neg Bool.false_ne_true, ← hlist, String.ofList_toList]

theorem readHashtags_ofLabels {labels : List String} (h : ∀ label ∈ labels, IsName label.toList) :
    readHashtags ((ofLabels labels).getD .null) = .ok labels := by
  cases labels with
  | nil => rfl
  | cons first labels =>
      change Except.ok (((first :: labels).map Value.text).map fun v => bareLabel v.toText) = _
      refine congrArg Except.ok ?_
      rw [List.map_map]
      exact (List.map_congr_left fun label hlabel => bareLabel_of_isName (h label hlabel)).trans
        (List.map_id _)

theorem isSome_watchers (values : List OptionValue) :
    ((values.filterMap watcher?).map some).all Option.isSome = true := by
  rw [List.all_map]
  exact List.all_eq_true.2 fun _ _ => rfl

theorem check_ofValues (tag : Tag) (content : Content) {values : List OptionValue}
    (hlabels : ∀ label ∈ values.filterMap hashtag?, IsName label.toList)
    (hguard : ∀ text ∈ last guard? values, ∃ e, Expression.parse text = .ok e)
    (hfrequency : ∀ x ∈ last frequency? values, 0 ≤ x) :
    (ofValues values).check tag content = .ok (partsOf tag content values) := by
  unfold check partsOf
  dsimp only [ofValues]
  -- The checks are made field by field, in the order of the fields.
  rw [readGuard_last hguard]
  dsimp only
  rw [readHashtags_ofLabels hlabels]
  dsimp only
  have hgiven :
      ((values.filterMap watcher?).map some).filterMap id = values.filterMap watcher? := by
    rw [List.filterMap_map]
    exact List.filterMap_some
  rw [isSome_watchers, hgiven]
  -- Each number that may be missing is read or has its default.
  cases hx : last frequency? values with
  | none => cases last priority? values <;> cases last minPriority? values <;> rfl
  | some x =>
      have hread : readFrequency (.number (.real x)) = .ok x := if_pos (hfrequency x hx)
      dsimp only [Option.map_some]
      rw [hread]
      cases last priority? values <;> cases last minPriority? values <;> rfl

end RuleOptions

theorem Binary64.not_one_lt_zero : ¬ (1 : Binary64) < 0 := by decide +kernel

theorem Binary64.not_lt_zero_of_nonneg {x : Binary64} (h : 0 ≤ x) : ¬ x < 0 := by
  cases x with
  | nan => exact Bool.false_ne_true
  | infinity negative =>
      cases negative with
      | false => exact Bool.false_ne_true
      | true => exact absurd h Bool.false_ne_true
  | finite negative units valid =>
      -- The two zeros count as equal, and are not below one another.
      rw [finite_lt_zero]
      change (decide (Binary64.signed false 0 < Binary64.signed negative units) ||
        decide (Binary64.signed false 0 = Binary64.signed negative units)) = true at h
      rw [Bool.or_eq_true, decide_eq_true_eq, decide_eq_true_eq] at h
      have hzero : Binary64.signed false 0 = 0 := rfl
      omega

namespace Rule

theorem clampMinimum_eq_min (priority : Int) (given : Option Int) :
    clampMinimum priority given = min (given.getD priority) priority := by
  cases given with
  | none =>
      change priority = min priority priority
      omega
  | some m =>
      change (if priority < m then priority else m) = min m priority
      split
      · omega
      · omega

/-- Parts that were collected make the rule that they describe. -/
theorem create_partsOf (tag : Tag) (content : Content) {values : List OptionValue}
    (hx : ¬ (last frequency? values).getD 1 < 0) :
    ∃ rule, create (RuleOptions.partsOf tag content values) = .ok rule ∧
      Describes tag values content rule := by
  have hsign : ¬ (Quantity.real ((last frequency? values).getD 1)).isNegative = true := by
    rw [Quantity.isNegative, decide_eq_true_eq]
    exact hx
  exact ⟨_, (dif_neg hsign).trans rfl, rfl, rfl, rfl, clampMinimum_eq_min _ _, rfl, rfl, rfl, rfl,
    rfl⟩

/-- Options that were collected make the rule that they describe. -/
theorem build_ofValues (tag : Tag) (content : Content) {values : List OptionValue}
    (hlabels : ∀ label ∈ values.filterMap hashtag?, IsName label.toList)
    (hguard : ∀ text ∈ last guard? values, ∃ e, Expression.parse text = .ok e)
    (hfrequency : ∀ x ∈ last frequency? values, 0 ≤ x) :
    ∃ rule, build tag content (.ofValues values) = .ok rule ∧
      Describes tag values content rule := by
  have hx : ¬ (last frequency? values).getD 1 < 0 := by
    cases hlast : last frequency? values with
    | none => exact Binary64.not_one_lt_zero
    | some x => exact Binary64.not_lt_zero_of_nonneg (hfrequency x hlast)
  rcases create_partsOf tag content hx with ⟨rule, hrule, hdescribes⟩
  refine ⟨rule, ?_, hdescribes⟩
  rw [build, RuleOptions.check_ofValues tag content hlabels hguard hfrequency]
  dsimp only
  rw [hrule]

end Rule

end TextGrammar
