import TextGrammar.Proofs.Grammar.Meaning
import TextGrammar.Proofs.Registration.Growth

/-!
# Loading Line by Line

What the loading of a grammar text comes to, told from its logical lines.

All lines are split before the first one is read. Then the rules of the lines are
registered one after the other, up to the first line that cannot be read. The
set plays no part in the reading, so what is registered can be told beforehand.

## Main definitions

* `Grammar.Reads`: A logical line spells a rule.
* `Grammar.readableRules`: The rules of logical lines up to the first unreadable one.
* `Grammar.textRules`: Those of a text.

## Theorems

* `Grammar.snd_load`: Loading registers the readable rules, whether it fails or not.
* `Grammar.load_eq_ok_iff`: Loading succeeds if the text can be split and every line
  be read.
* `Grammar.load_eq_error_iff`: It fails with the error of the splitting, or with that
  of the first line that cannot be read.
-/

namespace TextGrammar

namespace Grammar

/-- The logical line of a file spells a rule. -/
def Reads (file : Option String) (line : LogicalLine) (rule : Rule) : Prop :=
  readRuleChars line.text ⟨file, some line.line⟩ = .ok rule

/-- The rules of logical lines up to the first one that cannot be read. -/
def readableRules (file : Option String) : List LogicalLine → List Rule
  | [] => []
  | line :: rest =>
    match readRuleChars line.text ⟨file, some line.line⟩ with
    | .ok rule => rule :: readableRules file rest
    | .error _ => []

/-- The rules of a text up to the first line that cannot be read. A text that cannot be
    split has none. -/
def textRules (text : String) (file : Option String) : List Rule :=
  match splitLines text file with
  | .ok lines => readableRules file lines
  | .error _ => []

variable {file : Option String} {rules after : RuleSet}

theorem snd_loadLines (file : Option String) (rules : RuleSet) (lines : List LogicalLine) :
    (loadLines file rules lines).2 = rules.addAll (readableRules file lines) := by
  induction lines generalizing rules with
  | nil => rfl
  | cons line rest ih =>
      rw [loadLines, readableRules]
      split
      · rename_i e he
        rw [he]
        rfl
      · rename_i rule hrule
        rw [hrule, ih]
        rfl

/-- Loading registers the rules that can be read, whether it fails or not. -/
theorem snd_load (text : String) (file : Option String) (rules : RuleSet) :
    (load text file rules).2 = rules.addAll (textRules text file) := by
  rw [load, textRules]
  split
  · rename_i e he
    rw [he]
    rfl
  · rename_i lines hlines
    rw [hlines]
    exact snd_loadLines file rules lines

theorem loadLines_eq_ok_iff (lines : List LogicalLine) :
    loadLines file rules lines = (.ok (), after) ↔
      ∃ list, List.Forall₂ (Reads file) lines list ∧ rules.addAll list = after := by
  induction lines generalizing rules with
  | nil =>
      constructor
      · intro h
        exact ⟨[], .nil, congrArg Prod.snd h⟩
      · rintro ⟨_, hlist, rfl⟩
        cases hlist
        rfl
  | cons line rest ih =>
      rw [loadLines]
      cases hread : readRuleChars line.text ⟨file, some line.line⟩ with
      | error e =>
          -- No rule can be read from the line, so no list can stand for the lines.
          refine ⟨fun h => absurd (congrArg Prod.fst h) nofun, ?_⟩
          rintro ⟨_, hlist, _⟩
          cases hlist with
          | cons hfirst _ => exact absurd (hread.symm.trans hfirst) nofun
      | ok rule =>
          constructor
          · intro h
            rcases ih.1 h with ⟨list, hlist, hafter⟩
            exact ⟨rule :: list, .cons hread hlist, hafter⟩
          · rintro ⟨_, hlist, hafter⟩
            cases hlist with
            | cons hfirst hrest =>
                cases hread.symm.trans hfirst
                exact ih.2 ⟨_, hrest, hafter⟩

theorem loadLines_eq_error_iff (lines : List LogicalLine) (e : LoadError) :
    loadLines file rules lines = (.error e, after) ↔
      ∃ front line back list, lines = front ++ line :: back ∧
        List.Forall₂ (Reads file) front list ∧
        readRuleChars line.text ⟨file, some line.line⟩ = .error e ∧
        rules.addAll list = after := by
  induction lines generalizing rules with
  | nil =>
      refine ⟨fun h => absurd (congrArg Prod.fst h) nofun, ?_⟩
      rintro ⟨front, line, back, list, hlines, _⟩
      exact absurd hlines.symm (List.append_ne_nil_of_right_ne_nil _ (List.cons_ne_nil _ _))
  | cons first rest ih =>
      rw [loadLines]
      cases hread : readRuleChars first.text ⟨file, some first.line⟩ with
      | error e' =>
          constructor
          · intro h
            cases h
            exact ⟨[], first, rest, [], rfl, .nil, hread, rfl⟩
          · rintro ⟨front, line, back, list, hlines, hfront, hline, hafter⟩
            -- The first line cannot be read, so none is in front of it.
            cases hfront with
            | nil =>
                cases hlines
                cases hread.symm.trans hline
                rw [← hafter]
                rfl
            | cons hfirst _ =>
                cases hlines
                exact absurd (hread.symm.trans hfirst) nofun
      | ok rule =>
          constructor
          · intro h
            rcases ih.1 h with ⟨front, line, back, list, rfl, hfront, hline, hafter⟩
            exact ⟨first :: front, line, back, rule :: list, rfl, .cons hread hfront, hline, hafter⟩
          · rintro ⟨front, line, back, list, hlines, hfront, hline, hafter⟩
            cases hfront with
            | nil =>
                cases hlines
                exact absurd (hread.symm.trans hline) nofun
            | cons hfirst hmore =>
                cases hlines
                cases hread.symm.trans hfirst
                exact ih.2 ⟨_, line, back, _, rfl, hmore, hline, hafter⟩

/-- Loading succeeds if the text can be split and every line be read, and then it
    registers the rules of all lines. -/
theorem load_eq_ok_iff (text : String) :
    load text file rules = (.ok (), after) ↔
      ∃ lines list, LogicalLine.split text = .ok lines ∧ List.Forall₂ (Reads file) lines list ∧
        rules.addAll list = after := by
  rw [load, splitLines]
  cases hsplit : LogicalLine.split text with
  | error number =>
      refine ⟨fun h => absurd (congrArg Prod.fst h) nofun, ?_⟩
      rintro ⟨_, _, h, _⟩
      exact nomatch h
  | ok lines =>
      refine (loadLines_eq_ok_iff lines).trans ⟨?_, ?_⟩
      · rintro ⟨list, hlist, hafter⟩
        exact ⟨lines, list, rfl, hlist, hafter⟩
      · rintro ⟨_, list, hlines, hlist, hafter⟩
        cases hlines
        exact ⟨list, hlist, hafter⟩

/-- Loading fails if the text cannot be split, and then the set stays as it is, or with
    the first line that cannot be read, and then the rules in front of it stay. -/
theorem load_eq_error_iff (text : String) (e : LoadError) :
    load text file rules = (.error e, after) ↔
      (∃ number, LogicalLine.split text = .error number ∧
        e = .grammar ⟨.nothingToContinue, file, some number⟩ ∧ rules = after) ∨
      ∃ front line back list, LogicalLine.split text = .ok (front ++ line :: back) ∧
        List.Forall₂ (Reads file) front list ∧
        readRuleChars line.text ⟨file, some line.line⟩ = .error e ∧
        rules.addAll list = after := by
  rw [load, splitLines]
  -- The text is split before the first rule is read, so an error of the split leaves the rules
  -- as they were.
  cases hsplit : LogicalLine.split text with
  | error number =>
      constructor
      · intro h
        cases h
        exact Or.inl ⟨number, rfl, rfl, rfl⟩
      · rintro (⟨_, hnumber, rfl, rfl⟩ | ⟨_, _, _, _, h, _⟩)
        · cases hnumber
          rfl
        · exact nomatch h
  | ok lines =>
      refine (loadLines_eq_error_iff lines e).trans ⟨?_, ?_⟩
      · rintro ⟨front, line, back, list, rfl, h⟩
        exact Or.inr ⟨front, line, back, list, rfl, h⟩
      · rintro (⟨_, h, _⟩ | ⟨front, line, back, list, hlines, h⟩)
        · exact nomatch h
        · cases hlines
          exact ⟨front, line, back, list, rfl, h⟩

end Grammar

end TextGrammar
