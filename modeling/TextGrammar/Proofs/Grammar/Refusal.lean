import TextGrammar.Proofs.Grammar.Collection
import TextGrammar.Proofs.Grammar.HeaderSoundness
import TextGrammar.Proofs.Grammar.Template

/-!
# Refused Options

In which ways the options of a header can be refused.

Some options give nothing to a rule, because an integer is too long or a filter is
unfit. They end the reading of the header where they stand. The others are collected,
and then they are of the kinds that their fields expect. So of all the checks at the
end only two can fail: the last guard may be no expression, and the last frequency
may be negative.

## Main definitions

* `OptionForm.Unfit`: Why an option gives nothing to a rule.
* `PassesChecks`: The two checks of collected options.

## Theorems

* `Grammar.foldlM_addOption_cases`: Options are all collected, or one is unfit.
* `Grammar.readHeader_eq_ok`, `Grammar.readHeader_cases`: How the reading of a header
  ends.
* `RuleOptions.check_cases`: How the checks of collected options end.
-/

namespace TextGrammar

open Spelling OptionValue

namespace Spelling

theorem Listed.exists_of_mem {α : Type} {R : α → List Char → List Char → Prop} {xs : List α}
    {cs rest : List Char} (h : Listed R xs cs rest) : ∀ x ∈ xs, ∃ cs rest, R x cs rest := by
  induction h with
  | last x cs middle rest hx hclose =>
      intro y hy
      rw [List.mem_singleton.1 hy]
      exact ⟨cs, middle, hx⟩
  | more x xs cs middle behind rest hx hcomma hxs ih =>
      exact List.forall_mem_cons.2 ⟨⟨cs, middle, hx⟩, ih⟩

/-- The options of a header are spelled somewhere in it. -/
theorem HeaderText.exists_of_mem {header : HeaderForm} {cs : List Char}
    (h : HeaderText header cs) : ∀ form ∈ header.options, ∃ cs rest, OptionText form cs rest := by
  rcases h with ⟨middle, rest, _, hoptions, _⟩
  generalize header.options = options at hoptions
  cases hoptions with
  | omitted => exact nofun
  | empty => exact nofun
  | listed _ _ _ _ _ hlist => exact hlist.exists_of_mem

end Spelling

/-- Why an option gives nothing to a rule: its integer has too many digits, or its filter
    is unfit. -/
inductive OptionForm.Unfit (place : Place) : OptionForm → LoadError → Prop
  | priority (literal : List Char)
      (h : Numeral.integerDigitLimit < literal.countP Char.isDigit) :
      Unfit place (.priority literal) (.tooManyDigits "priority" (literal.countP Char.isDigit))
  | minPriority (literal : List Char)
      (h : Numeral.integerDigitLimit < literal.countP Char.isDigit) :
      Unfit place (.minPriority literal)
        (.tooManyDigits "min_priority" (literal.countP Char.isDigit))
  | watcher (form : WatcherForm) (fault : FilterError) (h : form.Unfit fault) :
      Unfit place (.watcher form) (.grammar ⟨.filter fault, place.file, place.line⟩)

namespace Grammar

theorem integerOf_eq_error (option : String) {literal : List Char} {i : Int}
    (h : IsInteger literal i)
    (hlimit : Numeral.integerDigitLimit < literal.countP Char.isDigit) :
    integerOf option literal = .error (.tooManyDigits option (literal.countP Char.isDigit)) := by
  cases h with
  | intro s digits negative hsign hdigits =>
      have hsplit := Numeral.splitSign_append hsign (hdigits.lacksSign [])
      -- A sign is no digit, and everything behind it is one.
      have hcount : (s ++ digits).countP Char.isDigit = digits.length := by
        rw [List.countP_append, List.countP_eq_length.2 hdigits.2]
        cases hsign with
        | omitted => exact Nat.zero_add _
        | plus => exact Nat.zero_add _
        | minus => exact Nat.zero_add _
      rw [List.append_nil] at hsplit
      rw [hcount] at hlimit
      rw [integerOf, hsplit, hcount]
      dsimp only
      rw [if_pos hlimit]

/-- An option that is spelled gives something to a rule, or it is unfit. -/
theorem standsFor_or_unfit (place : Place) {form : OptionForm} {cs rest : List Char}
    (h : OptionText form cs rest) :
    (∃ value, form.StandsFor value) ∨ ∃ e, form.Unfit place e ∧
      ∀ options, addOption place options form = .error e := by
  -- Two kinds of option can be unfit: a whole number with too many digits, and a filter that
  -- does not exist or does not take its arguments.
  cases h with
  | priority literal i _ _ _ _ _ _ hliteral _ =>
      rcases Nat.lt_or_ge Numeral.integerDigitLimit (literal.countP Char.isDigit) with
        hlimit | hlimit
      · refine Or.inr ⟨_, .priority literal hlimit, fun options => ?_⟩
        rw [addOption, integerOf_eq_error "priority" hliteral hlimit]
        rfl
      · exact Or.inl ⟨_, .priority literal i hliteral hlimit⟩
  | minPriority literal i _ _ _ _ _ _ hliteral _ =>
      rcases Nat.lt_or_ge Numeral.integerDigitLimit (literal.countP Char.isDigit) with
        hlimit | hlimit
      · refine Or.inr ⟨_, .minPriority literal hlimit, fun options => ?_⟩
        rw [addOption, integerOf_eq_error "min_priority" hliteral hlimit]
        rfl
      · exact Or.inl ⟨_, .minPriority literal i hliteral hlimit⟩
  | frequency literal x _ _ _ _ _ _ hliteral _ =>
      exact Or.inl ⟨_, .frequency literal x hliteral⟩
  | guard text _ _ _ _ _ _ _ => exact Or.inl ⟨_, .guard text⟩
  | hashtag label _ _ _ => exact Or.inl ⟨_, .hashtag label⟩
  | watcher form _ _ _ _ =>
      cases hw : watcherOf place form with
      | ok w => exact Or.inl ⟨_, .watcher form w ((watcherOf_eq_ok_iff place form w).1 hw)⟩
      | error e =>
          rcases unfit_of_watcherOf hw with ⟨fault, hfault, rfl⟩
          refine Or.inr ⟨_, .watcher form fault hfault, fun options => ?_⟩
          rw [addOption, hw]
          rfl

/-- Options are all collected, or the first one that is unfit ends it. -/
theorem foldlM_addOption_cases (place : Place) {forms : List OptionForm}
    (h : ∀ form ∈ forms, ∃ cs rest, OptionText form cs rest) :
    (∃ values, List.Forall₂ OptionForm.StandsFor forms values) ∨
      ∃ form ∈ forms, ∃ e, form.Unfit place e ∧
        ∀ front, forms.foldlM (addOption place) (.ofValues front) = .error e := by
  induction forms with
  | nil => exact Or.inl ⟨[], .nil⟩
  | cons form rest ih =>
      rcases List.forall_mem_cons.1 h with ⟨⟨_, _, hform⟩, hrest⟩
      rcases standsFor_or_unfit place hform with ⟨value, hvalue⟩ | ⟨e, he, hadd⟩
      · rcases ih hrest with ⟨values, hvalues⟩ | ⟨other, hother, e, he, hfold⟩
        · exact Or.inl ⟨value :: values, .cons hvalue hvalues⟩
        · refine Or.inr ⟨other, List.mem_cons_of_mem form hother, e, he, fun front => ?_⟩
          rw [List.foldlM_cons, addOption_ofValues place front hvalue]
          exact hfold (front ++ [value])
      · refine Or.inr ⟨form, List.mem_cons_self, e, he, fun front => ?_⟩
        rw [List.foldlM_cons, hadd]
        rfl

/-- A header is read as its tag and the options that it gives. -/
theorem readHeader_eq_ok (place : Place) {header : HeaderForm} {text : List Char}
    {values : List OptionValue} (h : HeaderText header text)
    (hvalues : List.Forall₂ OptionForm.StandsFor header.options values) :
    readHeader text place = .ok (header.tag, .ofValues values) := by
  have hoptions := foldlM_addOption place [] hvalues
  rw [readHeader, Reader.header?_eq_ok h]
  exact (bind_eq_ok_iff _ _ _).2 ⟨header, rfl, (bind_eq_ok_iff _ _ _).2 ⟨_, hoptions, rfl⟩⟩

/-- A header is read as what it spells, or it spells none, or one of its options is
    unfit. -/
theorem readHeader_cases (text : List Char) (place : Place) :
    (∃ header values, HeaderText header text ∧
      List.Forall₂ OptionForm.StandsFor header.options values) ∨
    ((∀ header, ¬ HeaderText header text) ∧ ∃ column, readHeader text place =
      faultAt place (.unexpectedInput .header column (String.ofList text))) ∨
    ∃ header, HeaderText header text ∧ ∃ form ∈ header.options, ∃ e, form.Unfit place e ∧
      readHeader text place = .error e := by
  cases hread : Reader.header? text with
  | error rest =>
      refine Or.inr (Or.inl ⟨fun header hheader => ?_, Reader.column text rest, ?_⟩)
      · exact absurd (hread.symm.trans ((Reader.header?_eq_ok_iff text header).2 hheader)) nofun
      · rw [readHeader, hread]
        rfl
  | ok header =>
      have hheader := (Reader.header?_eq_ok_iff text header).1 hread
      rcases foldlM_addOption_cases place hheader.exists_of_mem with
        ⟨values, hvalues⟩ | ⟨form, hform, e, he, hfold⟩
      · exact Or.inl ⟨header, values, hheader, hvalues⟩
      · refine Or.inr (Or.inr ⟨header, hheader, form, hform, e, he, ?_⟩)
        rw [readHeader, hread]
        exact (bind_eq_error_iff _ _ _).2 (Or.inr ⟨header, rfl,
          (bind_eq_error_iff _ _ _).2 (Or.inl (hfold []))⟩)

/-- The labels of options that are spelled are names. -/
theorem isName_of_spelled {forms : List OptionForm} {values : List OptionValue}
    (h : ∀ form ∈ forms, ∃ cs rest, OptionText form cs rest)
    (hvalues : List.Forall₂ OptionForm.StandsFor forms values) :
    ∀ label ∈ values.filterMap hashtag?, IsName label.toList := by
  intro label hlabel
  rcases h _ (hashtag_mem_of_label hvalues hlabel) with ⟨cs, rest, hform⟩
  cases hform with
  | hashtag _ _ _ hname => exact hname.1

end Grammar

namespace Text

/-- What is stripped to nothing is blank. -/
theorem isBlank_of_strip_eq_nil {cs : List Char} (h : strip cs = []) :
    ∀ c ∈ cs, isBlank c = true := by
  have hrest : ∀ c ∈ cs.dropWhile isBlank, isBlank c = true := fun c hc =>
    List.dropWhile_eq_nil_iff.1 (List.reverse_eq_nil_iff.1 h) c (List.mem_reverse.2 hc)
  -- What is left in front of the end would start with a character that is not blank.
  refine List.dropWhile_eq_nil_iff.1 ?_
  cases hcs : cs.dropWhile isBlank with
  | nil => rfl
  | cons c more =>
      have hstop := List.head?_dropWhile_not isBlank cs
      rw [hcs] at hstop hrest
      exact absurd (hrest c List.mem_cons_self) (by simpa using hstop)

theorem words_of_isBlank {cs : List Char} (h : ∀ c ∈ cs, isBlank c = true) : words cs = [] := by
  unfold words
  induction cs with
  | nil => rfl
  | cons c rest ih =>
      rcases List.forall_mem_cons.1 h with ⟨hc, hrest⟩
      rw [wordsFrom, if_pos hc]
      exact ih hrest

end Text

namespace RuleOptions

theorem readGuard_eq_error {text word : String} (h : Expression.parse text = .error word) :
    readGuard (.text text) = .error word := by
  unfold readGuard
  dsimp only
  split
  · rename_i hblank
    have hwords :=
      Text.words_of_isBlank (Text.isBlank_of_strip_eq_nil (List.isEmpty_iff.1 hblank))
    rw [Expression.parse, hwords] at h
    exact absurd h nofun
  · rw [h]

theorem check_of_guard (tag : Tag) (content : Content) {values : List OptionValue}
    {text word : String} (hguard : last guard? values = some text)
    (h : Expression.parse text = .error word) :
    (ofValues values).check tag content = .error (.unknownWord word) := by
  unfold check
  dsimp only [ofValues]
  rw [hguard]
  dsimp only [Option.map_some, Option.getD_some]
  rw [readGuard_eq_error h]

theorem check_of_frequency (tag : Tag) (content : Content) {values : List OptionValue}
    {x : Binary64} (hlabels : ∀ label ∈ values.filterMap hashtag?, IsName label.toList)
    (hguard : ∀ text ∈ last guard? values, ∃ e, Expression.parse text = .ok e)
    (hfrequency : last frequency? values = some x) (h : ¬ 0 ≤ x) :
    (ofValues values).check tag content = .error (.invalid [⟨"frequency", .belowMinimum⟩]) := by
  have hread : readFrequency (.number (.real x)) = .error .belowMinimum := if_neg h
  unfold check
  dsimp only [ofValues]
  rw [readGuard_last hguard]
  dsimp only
  rw [readHashtags_ofLabels hlabels]
  dsimp only
  rw [isSome_watchers, hfrequency]
  dsimp only [Option.map_some]
  rw [hread]
  -- The other fields have been read, or have their defaults.
  cases last priority? values <;> cases last minPriority? values <;> rfl

end RuleOptions

namespace Binary64

/-- What is a number and not at least zero is below it. -/
theorem lt_zero_of_not_nonneg {x : Binary64} (hx : x.isNan = false) (h : ¬ 0 ≤ x) :
    x < 0 := by
  cases x with
  | nan object => cases hx
  | infinity negative =>
      cases negative with
      | false => exact absurd rfl h
      | true => rfl
  | finite negative units valid =>
      have hle : ¬ (decide (signed false 0 < signed negative units) ||
          decide (signed false 0 = signed negative units)) = true := h
      rw [Bool.or_eq_true, decide_eq_true_eq, decide_eq_true_eq] at hle
      have hzero : signed false 0 = 0 := rfl
      rw [finite_lt_zero]
      omega

end Binary64

/-- The value of a literal is a number. -/
theorem Spelling.IsNumber.isNan_eq_false {literal : List Char} {x : Binary64}
    (h : IsNumber literal x) : x.isNan = false := by
  cases h with
  | intro => exact Binary64.isNan_ofDecimal _ _

/-- The last guard is an expression, and the last frequency is not negative. -/
structure PassesChecks (values : List OptionValue) : Prop where
  guard : ∀ text ∈ last guard? values, ∃ e, Expression.parse text = .ok e
  frequency : ∀ x ∈ last frequency? values, 0 ≤ x

/-- Options that were collected pass all checks, or their guard is no expression, or
    their frequency is too low. -/
theorem RuleOptions.check_cases (tag : Tag) (content : Content) {values : List OptionValue}
    (hlabels : ∀ label ∈ values.filterMap hashtag?, IsName label.toList) :
    PassesChecks values ∨
    (∃ text word, last guard? values = some text ∧ Expression.parse text = .error word ∧
      (ofValues values).check tag content = .error (.unknownWord word)) ∨
    ∃ x, last frequency? values = some x ∧ ¬ 0 ≤ x ∧
      (ofValues values).check tag content = .error (.invalid [⟨"frequency", .belowMinimum⟩]) := by
  by_cases hguard : ∀ text ∈ last guard? values, ∃ e, Expression.parse text = .ok e
  · by_cases hfrequency : ∀ x ∈ last frequency? values, 0 ≤ x
    · exact Or.inl ⟨hguard, hfrequency⟩
    · rcases not_forall.1 hfrequency with ⟨x, hx⟩
      rcases Classical.not_imp.1 hx with ⟨hlast, hneg⟩
      exact Or.inr (Or.inr ⟨x, hlast, hneg,
        check_of_frequency tag content hlabels hguard hlast hneg⟩)
  · rcases not_forall.1 hguard with ⟨text, htext⟩
    rcases Classical.not_imp.1 htext with ⟨hlast, hno⟩
    cases hparse : Expression.parse text with
    | ok e => exact absurd ⟨e, hparse⟩ hno
    | error word =>
        exact Or.inr (Or.inl ⟨text, word, hlast, hparse, check_of_guard tag content hlast hparse⟩)

end TextGrammar
