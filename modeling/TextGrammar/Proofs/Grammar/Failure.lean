import TextGrammar.Proofs.Grammar.Diagnosis
import TextGrammar.Proofs.Grammar.Loading

/-!
# Loads that Fail

What a load that fails leaves, and what it reports.

If the text cannot be split into logical lines nothing is registered. Otherwise there
is a first line that spells no rule. The rules of the lines in front of it have been
registered, with consecutive numbers, and that is all that has happened to the set. What
is reported is wrong with that line, and carries the file and the number at which the
line starts, but for integers that are too long, which know no place.

The number is that of a physical line of the text. The logical lines start, one for one
and in their order, on the physical lines that are neither blank nor comments nor
indented, and they only grow from there.

## Main definitions

* `LogicalLine.starts`: The physical lines of a text that start logical ones.
* `LogicalLine.GoesOnAs`: A logical line has grown, and keeps its number.

## Theorems

* `LogicalLine.forall₂_starts`: Every logical line starts on its own physical line.
* `Grammar.presetOrder_of_reads`: Rules of a text bring no numbers of their own.
* `Grammar.grows_of_reads`: What the rules of logical lines do to a set.
* `Grammar.stops_of_load_eq_error`: A load that fails stops at a line, and says why.
-/

namespace TextGrammar

namespace LogicalLine

/-- What starts a logical line, among physical lines of which the number of the first is
    given: the lines that are neither blank nor comments nor indented. -/
def startsFrom (number : Nat) (lines : List (List Char)) : List LogicalLine :=
  ((lines.zipIdx number).filter fun p => decide (LineKind.of p.1 = .head)).map fun p =>
    ⟨Text.strip p.1, p.2⟩

/-- The physical lines of a text that start logical ones. -/
def starts (text : String) : List LogicalLine := startsFrom 1 (Text.lines text.toList)

/-- A logical line has grown from its start, and keeps its number. -/
def GoesOnAs (start line : LogicalLine) : Prop :=
  line.line = start.line ∧ start.text <+: line.text

theorem GoesOnAs.refl (line : LogicalLine) : line.GoesOnAs line := ⟨rfl, List.prefix_rfl⟩

theorem forall₂_goesOnAs_refl (lines : List LogicalLine) : List.Forall₂ GoesOnAs lines lines :=
  List.forall₂_same.2 fun line _ => .refl line

theorem GoesOnAs.of_extend {line result : LogicalLine} {more : List Char}
    (h : (line.extend more).GoesOnAs result) : line.GoesOnAs result :=
  ⟨h.1, (List.prefix_append _ _).trans h.2⟩

theorem startsFrom_of_ne_head (number : Nat) {raw : List Char} (h : LineKind.of raw ≠ .head)
    (rest : List (List Char)) : startsFrom number (raw :: rest) = startsFrom (number + 1) rest := by
  rw [startsFrom, List.zipIdx_cons, List.filter_cons_of_neg (by simpa using h)]
  rfl

theorem startsFrom_of_head (number : Nat) {raw : List Char} (h : LineKind.of raw = .head)
    (rest : List (List Char)) :
    startsFrom number (raw :: rest) =
      ⟨Text.strip raw, number⟩ :: startsFrom (number + 1) rest := by
  rw [startsFrom, List.zipIdx_cons, List.filter_cons_of_pos (by simpa using h)]
  rfl

/-- What is being collected and the physical lines that start something become the logical
    lines. -/
theorem forall₂_startsFrom {number : Nat} {mayContinue : Bool} {current : Option LogicalLine}
    {raws : List (List Char)} {lines : List LogicalLine}
    (h : splitFrom number mayContinue current raws = .ok lines) :
    List.Forall₂ GoesOnAs (current.toList ++ startsFrom number raws) lines := by
  induction raws generalizing number mayContinue current lines with
  | nil =>
      cases h
      rw [startsFrom, List.zipIdx_nil, List.filter_nil, List.map_nil, List.append_nil]
      exact forall₂_goesOnAs_refl _
  | cons raw rest ih =>
      rw [splitFrom] at h
      cases hkind : LineKind.of raw with
      | blank =>
          rw [hkind] at h
          rw [startsFrom_of_ne_head number (by rw [hkind]; exact nofun)]
          exact ih h
      | comment =>
          rw [hkind] at h
          rw [startsFrom_of_ne_head number (by rw [hkind]; exact nofun)]
          exact ih h
      | indented =>
          rw [hkind] at h
          rw [startsFrom_of_ne_head number (by rw [hkind]; exact nofun)]
          -- An indented line goes to the line that is being collected, which keeps its number.
          -- There is one unless a blank line or the start of the text is in front.
          cases mayContinue with
          | false => exact absurd h nofun
          | true =>
              have hrest := ih h
              cases current with
              | none => exact hrest
              | some line =>
                  cases hrest with
                  | cons hfirst hmore => exact .cons hfirst.of_extend hmore
      | head =>
          rw [hkind] at h
          rw [startsFrom_of_head number hkind]
          dsimp only at h
          -- A line that starts something ends what was collected so far, unchanged.
          cases hsplit : splitFrom (number + 1) true (some ⟨Text.strip raw, number⟩) rest with
          | error n =>
              rw [hsplit] at h
              exact absurd h nofun
          | ok found =>
              rw [hsplit] at h
              cases h
              exact List.rel_append (forall₂_goesOnAs_refl _) (ih hsplit)

/-- Logical lines start on physical ones, one for one and in their order. -/
theorem forall₂_starts {text : String} {lines : List LogicalLine} (h : split text = .ok lines) :
    List.Forall₂ GoesOnAs (starts text) lines :=
  forall₂_startsFrom h

/-- The logical line at a place starts on the physical line that is the start at it. -/
theorem exists_start {text : String} {front back : List LogicalLine} {line : LogicalLine}
    (h : split text = .ok (front ++ line :: back)) :
    ∃ start, (starts text)[front.length]? = some start ∧ start.GoesOnAs line := by
  have hstarts := forall₂_starts h
  have hi : front.length < (front ++ line :: back).length := by
    rw [List.length_append, List.length_cons]
    omega
  have hgoes := hstarts.get (hstarts.length_eq ▸ hi) hi
  rw [List.get_eq_getElem, List.get_eq_getElem, List.getElem_append_right (Nat.le_refl _)] at hgoes
  simp only [Nat.sub_self, List.getElem_cons_zero] at hgoes
  exact ⟨_, List.getElem?_eq_getElem (hstarts.length_eq ▸ hi), hgoes⟩

end LogicalLine

namespace Grammar

/-- Rules of a text bring no numbers of their own. -/
theorem presetOrder_of_reads {file : Option String} {line : LogicalLine} {rule : Rule}
    (h : Reads file line rule) : rule.presetOrder = none := by
  cases (readRuleChars_eq_ok_iff _ _ _).1 h with
  | intro _ _ _ _ _ _ _ _ _ _ _ _ hrule => exact hrule.presetOrder

/-- The rules of logical lines are registered in their order and get the next numbers. -/
theorem grows_of_reads {file : Option String} {lines : List LogicalLine} {list : List Rule}
    (h : List.Forall₂ (Reads file) lines list) (rules : RuleSet) :
    RuleSet.Grows rules (rules.addAll list)
        (list.mapIdx fun i rule => ⟨rule, rules.nextOrder + i⟩) ∧
      (rules.addAll list).nextOrder = rules.nextOrder + lines.length := by
  have hpreset := forall_of_forall₂ h fun _ _ => presetOrder_of_reads
  have hcount : list.countP (fun rule => rule.presetOrder.isNone) = list.length :=
    List.countP_eq_length.2 fun rule hrule => by rw [hpreset rule hrule]; rfl
  have hgrows := RuleSet.grows_addAll rules list
  rw [RuleSet.numberFrom_of_unnumbered _ _ hpreset] at hgrows
  refine ⟨hgrows, ?_⟩
  rw [RuleSet.nextOrder_addAll, hcount, h.length_eq]

/-- A load that fails reports an indented line that goes on with nothing, and leaves the
    set as it was, or it stops at the first line that spells no rule: the rules of the
    lines in front have been registered with consecutive numbers, nothing else has been
    changed, and what is wrong with the line is reported with the file and the number of
    the physical line on which it starts, unless it is an integer with too many digits. -/
theorem stops_of_load_eq_error {text : String} {file : Option String} {rules after : RuleSet}
    {e : LoadError} (h : load text file rules = (.error e, after)) :
    (∃ number, LogicalLine.split text = .error number ∧
      e = .grammar ⟨.nothingToContinue, file, some number⟩ ∧ after = rules) ∨
    ∃ front line back list, LogicalLine.split text = .ok (front ++ line :: back) ∧
      (∃ start, (LogicalLine.starts text)[front.length]? = some start ∧ start.GoesOnAs line) ∧
      List.Forall₂ (Reads file) front list ∧
      RuleSet.Grows rules after (list.mapIdx fun i rule => ⟨rule, rules.nextOrder + i⟩) ∧
      after.nextOrder = rules.nextOrder + front.length ∧
      ((∃ fault, Spoils line.text fault ∧ e = .grammar ⟨fault, file, some line.line⟩) ∨
        ∃ option digits, TooLong line.text option digits ∧ e = .tooManyDigits option digits) := by
  rcases (load_eq_error_iff text e).1 h with
    ⟨number, hsplit, he, hafter⟩ | ⟨front, line, back, list, hsplit, hfront, hline, rfl⟩
  · exact Or.inl ⟨number, hsplit, he, hafter.symm⟩
  · rcases grows_of_reads hfront rules with ⟨hgrows, hnext⟩
    exact Or.inr ⟨front, line, back, list, hsplit, LogicalLine.exists_start hsplit, hfront, hgrows,
      hnext, readRuleChars_eq_error hline⟩

/-- A text whose second rule has a negative frequency, on the second of its lines. -/
def negativeText : String := "a -> x\n# note\nb (freq=1,\n  freq=-1) -> y\nc -> z"

/-- The set to which it is loaded has a rule already. -/
def oneRule : RuleSet := (load "a (priority=0) -> w" none .empty).2

theorem stops_of_load_eq_error_negativeText :
    let after := (load negativeText (some "g.txt") oneRule).2
    let e : LoadError :=
      .grammar ⟨.invalidOptions ⟨"b", none⟩ [⟨"frequency", .belowMinimum⟩], some "g.txt", some 3⟩
    load negativeText (some "g.txt") oneRule = (.error e, after) ∧
    (after.toList.map fun rule => (rule.tag.name, rule.order)) = [("a", 1), ("a", 0)] ∧
    ((∃ number, LogicalLine.split negativeText = .error number ∧
      e = .grammar ⟨.nothingToContinue, some "g.txt", some number⟩ ∧ after = oneRule) ∨
    ∃ front line back list, LogicalLine.split negativeText = .ok (front ++ line :: back) ∧
      (∃ start, (LogicalLine.starts negativeText)[front.length]? = some start ∧
        start.GoesOnAs line) ∧
      List.Forall₂ (Reads (some "g.txt")) front list ∧
      RuleSet.Grows oneRule after (list.mapIdx fun i rule => ⟨rule, oneRule.nextOrder + i⟩) ∧
      after.nextOrder = oneRule.nextOrder + front.length ∧
      ((∃ fault, Spoils line.text fault ∧ e = .grammar ⟨fault, some "g.txt", some line.line⟩) ∨
        ∃ option digits, TooLong line.text option digits ∧ e = .tooManyDigits option digits)) := by
  intro after e
  have he : (load negativeText (some "g.txt") oneRule).1 = .error e := by decide +kernel
  have h : load negativeText (some "g.txt") oneRule = (.error e, after) :=
    Prod.fst_eq_iff.1 he
  exact ⟨h, by decide +kernel, stops_of_load_eq_error h⟩

end Grammar

end TextGrammar
