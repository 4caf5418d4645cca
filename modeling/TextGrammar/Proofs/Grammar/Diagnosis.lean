import TextGrammar.Proofs.Grammar.Refusal

/-!
# Diagnosis

Which lines spell a rule, and what is wrong with the others.

A line is read in steps: it is cut at its first arrow, the header is read and its
options are collected, the template is read, and the options are checked. Each step
can go wrong in its own ways, and in no others. The place of a line has no part in
whether it is read, but it goes with every fault.

## Main definitions

* `Grammar.Spells`: A line spells a rule.
* `Grammar.Spoils`: A fault keeps a line from spelling one.
* `Grammar.TooLong`: An integer of a line has too many digits.

## Theorems

* `Grammar.spells_or_fails`: A line spells a rule, or something is wrong with it.
* `Grammar.readRuleChars_eq_ok_iff`: A line is read as the rule that it spells.
* `Grammar.readRuleChars_eq_error`: What is wrong with the other lines.
-/

namespace TextGrammar

open Spelling OptionValue

namespace Grammar

/-- A line spells a rule: the header in front of its first arrow and the template behind
    it say what the rule is, and the options pass the checks. -/
inductive Spells (text : List Char) (rule : Rule) : Prop
  | intro (left right : List Char) (header : HeaderForm) (values : List OptionValue)
      (content : Content) (segments : List (List Char × ItemForm))
      (hsplit : splitArrow? text = some (left, right))
      (hheader : HeaderText header (Text.strip left))
      (hvalues : List.Forall₂ OptionForm.StandsFor header.options values)
      (hsegments : Segmentation (Text.strip right) segments)
      (hcontent : List.Forall₂ (fun s item => s.2.StandsFor item) segments content)
      (hchecks : PassesChecks values) (hrule : Describes header.tag values content rule)

/-- The header of a line, which stands in front of the first arrow. -/
def HasHeader (text : List Char) (header : HeaderForm) : Prop :=
  ∃ left right, splitArrow? text = some (left, right) ∧ HeaderText header (Text.strip left)

/-- The template of a line, which stands behind the first arrow. -/
def HasTemplate (text : List Char) (segments : List (List Char × ItemForm)) : Prop :=
  ∃ left right, splitArrow? text = some (left, right) ∧ Segmentation (Text.strip right) segments

/-- A fault keeps a line from spelling a rule: there is no arrow, no header in front of it
    or no template behind it; a filter is unfit; or the guard or the frequency does not
    pass its check. -/
inductive Spoils (text : List Char) : GrammarFault → Prop
  | noArrow (h : ¬ ['-', '>'] <:+: text) : Spoils text (.missingArrow (String.ofList text))
  | noHeader (left right : List Char) (column : Nat)
      (hsplit : splitArrow? text = some (left, right))
      (h : ∀ header, ¬ HeaderText header (Text.strip left)) :
      Spoils text (.unexpectedInput .header column (String.ofList (Text.strip left)))
  | noTemplate (left right : List Char) (column : Nat)
      (hsplit : splitArrow? text = some (left, right))
      (h : ∀ segments, ¬ Segmentation (Text.strip right) segments) :
      Spoils text (.unexpectedInput .content column (String.ofList (Text.strip right)))
  | headerFilter (header : HeaderForm) (form : WatcherForm) (fault : FilterError)
      (hheader : HasHeader text header) (hform : .watcher form ∈ header.options)
      (h : form.Unfit fault) : Spoils text (.filter fault)
  | templateFilter (segments : List (List Char × ItemForm)) (s : List Char × ItemForm)
      (form : WatcherForm) (fault : FilterError) (hsegments : HasTemplate text segments)
      (hs : s ∈ segments) (hform : form ∈ s.2.watchers) (h : form.Unfit fault) :
      Spoils text (.filter fault)
  | badGuard (header : HeaderForm) (guard word : String) (hheader : HasHeader text header)
      (hguard : .guard guard ∈ header.options) (h : Expression.parse guard = .error word) :
      Spoils text (.unknownWord word)
  | negativeFrequency (header : HeaderForm) (literal : List Char) (x : Binary64)
      (hheader : HasHeader text header) (hliteral : .frequency literal ∈ header.options)
      (hx : IsNumber literal x) (h : x < 0) :
      Spoils text (.invalidOptions header.tag [⟨"frequency", .belowMinimum⟩])

/-- A priority in the header of a line has more digits than an integer may have. The
    fields are named as in the messages. -/
inductive TooLong (text : List Char) : String → Nat → Prop
  | priority (header : HeaderForm) (literal : List Char) (hheader : HasHeader text header)
      (hliteral : .priority literal ∈ header.options)
      (h : Numeral.integerDigitLimit < literal.countP Char.isDigit) :
      TooLong text "priority" (literal.countP Char.isDigit)
  | minPriority (header : HeaderForm) (literal : List Char) (hheader : HasHeader text header)
      (hliteral : .minPriority literal ∈ header.options)
      (h : Numeral.integerDigitLimit < literal.countP Char.isDigit) :
      TooLong text "min_priority" (literal.countP Char.isDigit)

/-- What is wrong with a line: a fault at its place, or an integer that is too long. -/
def Fails (text : List Char) (place : Place) (e : LoadError) : Prop :=
  (∃ fault, Spoils text fault ∧ e = .grammar ⟨fault, place.file, place.line⟩) ∨
    ∃ option digits, TooLong text option digits ∧ e = .tooManyDigits option digits

theorem not_infix_of_splitArrow? {text : List Char} (h : splitArrow? text = none) :
    ¬ ['-', '>'] <:+: text := by
  fun_induction splitArrow? text with
  | case1 => decide
  | case2 rest => exact absurd h nofun
  | case3 c rest hother ih =>
      rw [List.infix_cons_iff]
      rintro (⟨more, hmore⟩ | hinfix)
      · rcases List.cons.inj hmore with ⟨rfl, htail⟩
        exact hother more rfl htail.symm
      · exact ih (Option.map_eq_none_iff.1 h) hinfix

theorem readRuleChars_of_splitArrow? {text left right : List Char}
    (h : splitArrow? text = some (left, right)) (place : Place) :
    readRuleChars text place = (do
      let (tag, options) ← readHeader (Text.strip left) place
      let content ← readContentChars (Text.strip right) place
      match Rule.build tag content options with
      | .ok rule => .ok rule
      | .error (.options (.unknownWord word)) => faultAt place (.unknownWord word)
      | .error (.options (.invalid problems)) => faultAt place (.invalidOptions tag problems)
      | .error (.options (.notIterable _)) => faultAt place (.invalidOptions tag [])
      | .error (.parts _) => faultAt place (.invalidOptions tag [])) := by
  rewrite [readRuleChars, h]
  rfl

/-- If the header and the template of a line can be read, the checks of the options decide
    what comes of it. -/
theorem readRuleChars_of_parts {text left right : List Char} {header : HeaderForm}
    {values : List OptionValue} {content : Content} {place : Place}
    (hsplit : splitArrow? text = some (left, right)) (hheader : HeaderText header (Text.strip left))
    (hvalues : List.Forall₂ OptionForm.StandsFor header.options values)
    (hcontent : readContentChars (Text.strip right) place = .ok content) :
    readRuleChars text place =
      match Rule.build header.tag content (.ofValues values) with
      | .ok rule => .ok rule
      | .error (.options (.unknownWord word)) => faultAt place (.unknownWord word)
      | .error (.options (.invalid problems)) => faultAt place (.invalidOptions header.tag problems)
      | .error (.options (.notIterable _)) => faultAt place (.invalidOptions header.tag [])
      | .error (.parts _) => faultAt place (.invalidOptions header.tag []) := by
  rewrite [readRuleChars_of_splitArrow? hsplit, readHeader_eq_ok place hheader hvalues, hcontent]
  rfl

/-- A line that spells a rule is read as that rule, wherever it stands. -/
theorem readRuleChars_eq_ok {text : List Char} {rule : Rule} (h : Spells text rule)
    (place : Place) : readRuleChars text place = .ok rule := by
  cases h with
  | intro left right header values content segments hsplit hheader hvalues hsegments hcontent
      hchecks hrule =>
      have hlabels := isName_of_spelled hheader.exists_of_mem hvalues
      rcases Rule.build_ofValues header.tag content hlabels hchecks.guard hchecks.frequency with
        ⟨built, hbuilt, hdescribes⟩
      have hread := (readContentChars_eq_ok_iff _ place content).2 ⟨segments, hsegments, hcontent⟩
      rw [readRuleChars_of_parts hsplit hheader hvalues hread, hbuilt, hdescribes.eq hrule]

theorem fails_of_unfit {text : List Char} {place : Place} {header : HeaderForm}
    {form : OptionForm} {e : LoadError} (hheader : HasHeader text header)
    (hform : form ∈ header.options) (h : form.Unfit place e) : Fails text place e := by
  cases h with
  | priority literal hlimit =>
      exact Or.inr ⟨_, _, .priority header literal hheader hform hlimit, rfl⟩
  | minPriority literal hlimit =>
      exact Or.inr ⟨_, _, .minPriority header literal hheader hform hlimit, rfl⟩
  | watcher form fault hfault =>
      exact Or.inl ⟨_, .headerFilter header form fault hheader hform hfault, rfl⟩

/-- A line whose header and template can be read spells a rule, or an option does not
    pass its check. -/
theorem spells_or_fails_of_checks {text left right : List Char} {header : HeaderForm}
    {values : List OptionValue} {content : Content} {place : Place}
    (hsplit : splitArrow? text = some (left, right)) (hheader : HeaderText header (Text.strip left))
    (hvalues : List.Forall₂ OptionForm.StandsFor header.options values)
    (hcontent : readContentChars (Text.strip right) place = .ok content) :
    (∃ rule, Spells text rule) ∨
      ∃ e, readRuleChars text place = .error e ∧ Fails text place e := by
  have hlabels := isName_of_spelled hheader.exists_of_mem hvalues
  have hhas : HasHeader text header := ⟨left, right, hsplit, hheader⟩
  rw [readRuleChars_of_parts hsplit hheader hvalues hcontent]
  -- All parts can be read, so only the checks of the rule itself are left.
  rcases RuleOptions.check_cases header.tag content hlabels with
    hchecks | ⟨guard, word, hlast, hparse, hcheck⟩ | ⟨x, hlast, hneg, hcheck⟩
  · rcases (readContentChars_eq_ok_iff _ _ _).1 hcontent with ⟨segments, hsegments, hmeaning⟩
    rcases Rule.build_ofValues header.tag content hlabels hchecks.guard hchecks.frequency with
      ⟨rule, _, hrule⟩
    exact Or.inl ⟨rule, .intro left right header values content segments hsplit hheader hvalues
      hsegments hmeaning hchecks hrule⟩
  · refine Or.inr ⟨_, ?_, Or.inl ⟨_,
      .badGuard header guard word hhas (guard_mem_of_last hvalues hlast) hparse, rfl⟩⟩
    rw [Rule.build, hcheck]
    rfl
  · rcases frequency_mem_of_last hvalues hlast with ⟨literal, hliteral, hx⟩
    have hlt : x < 0 := Binary64.lt_zero_of_not_nonneg hx.isNan_eq_false hneg
    refine Or.inr ⟨_, ?_, Or.inl ⟨_,
      .negativeFrequency header literal x hhas hliteral hx hlt, rfl⟩⟩
    rw [Rule.build, hcheck]
    rfl

/-- A line spells a rule, or there is something wrong with it. -/
theorem spells_or_fails (text : List Char) (place : Place) :
    (∃ rule, Spells text rule) ∨
      ∃ e, readRuleChars text place = .error e ∧ Fails text place e := by
  cases hsplit : splitArrow? text with
  | none =>
      refine Or.inr ⟨_, ?_, Or.inl ⟨_, .noArrow (not_infix_of_splitArrow? hsplit), rfl⟩⟩
      rw [readRuleChars, hsplit]
      rfl
  | some sides =>
      obtain ⟨left, right⟩ := sides
      have hread := readRuleChars_of_splitArrow? hsplit place
      -- The header comes first, and an error in it is the one that is reported.
      rcases readHeader_cases (Text.strip left) place with
        ⟨header, values, hheader, hvalues⟩ | ⟨hno, column, hheader⟩ |
        ⟨header, hheader, form, hform, e, hunfit, he⟩
      · cases hcontent : readContentChars (Text.strip right) place with
        | ok content => exact spells_or_fails_of_checks hsplit hheader hvalues hcontent
        | error e =>
            refine Or.inr ⟨e, hread.trans ((bind_eq_error_iff _ _ _).2 (Or.inr ⟨_,
              readHeader_eq_ok place hheader hvalues,
              (bind_eq_error_iff _ _ _).2 (Or.inl hcontent)⟩)), Or.inl ?_⟩
            rcases readContentChars_eq_error hcontent with ⟨fault, rfl, ⟨hno, column, rfl⟩ |
              ⟨segments, hsegments, s, hs, w, hw, unfit, hunfit, rfl⟩⟩
            · exact ⟨_, .noTemplate left right column hsplit hno, rfl⟩
            · exact ⟨_, .templateFilter segments s w unfit ⟨left, right, hsplit, hsegments⟩ hs hw
                hunfit, rfl⟩
      · exact Or.inr ⟨_, hread.trans ((bind_eq_error_iff _ _ _).2 (Or.inl hheader)),
          Or.inl ⟨_, .noHeader left right column hsplit hno, rfl⟩⟩
      · exact Or.inr ⟨e, hread.trans ((bind_eq_error_iff _ _ _).2 (Or.inl he)),
          fails_of_unfit ⟨left, right, hsplit, hheader⟩ hform hunfit⟩

/-- A line is read as the rule that it spells, wherever it stands. -/
theorem readRuleChars_eq_ok_iff (text : List Char) (place : Place) (rule : Rule) :
    readRuleChars text place = .ok rule ↔ Spells text rule := by
  refine ⟨fun h => ?_, fun h => readRuleChars_eq_ok h place⟩
  rcases spells_or_fails text place with ⟨other, hother⟩ | ⟨e, he, _⟩
  · cases h.symm.trans (readRuleChars_eq_ok hother place)
    exact hother
  · exact absurd (h.symm.trans he) nofun

/-- A line that is not read has something wrong with it, and that is the error. -/
theorem readRuleChars_eq_error {text : List Char} {place : Place} {e : LoadError}
    (h : readRuleChars text place = .error e) : Fails text place e := by
  rcases spells_or_fails text place with ⟨rule, hrule⟩ | ⟨e', he', hfails⟩
  · exact absurd (h.symm.trans (readRuleChars_eq_ok hrule place)) nofun
  · cases h.symm.trans he'
    exact hfails

end Grammar

end TextGrammar
