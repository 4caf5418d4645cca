import TextGrammar.Proofs.Grammar.Diagnosis
import TextGrammar.Proofs.Grammar.Loading

/-!
# Loading in Pieces

That a text with a blank line in it may be loaded in two pieces.

Two line feeds end the last line of whatever stands in front of them and add at least
one empty line, even behind a carriage return, which takes the first of them for its
own. A blank line ends the logical line that is being collected, and what is indented
behind it goes on with nothing, just as at the start of a text. So the logical lines of
the whole are those of the pieces, but for the numbers of those behind the blank line,
which have no part in what a line spells.

## Main definitions

* `LogicalLine.texts?`: The texts of logical lines, without their numbers.

## Theorems

* `Text.lines_append`: The lines of two texts with two line feeds between them.
* `LogicalLine.texts?_split_append`: Their logical lines.
* `Grammar.load_eq_ok_iff_spells`: Loading, told without numbers and places.
* `Grammar.load_append_iff`: Loading the whole is loading the pieces.
-/

namespace TextGrammar

namespace Text

/-- A character that is not the first of two that make one break is taken for itself. -/
theorem linesFrom_cons (c : Char) (rest : List Char) (line : Option (List Char))
    (h : ¬ (c = '\r' ∧ rest.head? = some '\n')) :
    linesFrom (c :: rest) line =
      if isLineBreak c then (line.getD []).reverse :: linesFrom rest none
      else linesFrom rest (some (c :: line.getD [])) := by
  rw [linesFrom]
  rintro more rfl rfl
  exact h ⟨rfl, rfl⟩

/-- Two line feeds end the line in front of them, if there is one, and what is behind
    them starts after at least one empty line. -/
theorem linesFrom_append (cs rest : List Char) (line : Option (List Char)) :
    ∃ n, linesFrom (cs ++ '\n' :: '\n' :: rest) line =
      linesFrom cs line ++ (List.replicate (n + 1) [] ++ linesFrom rest none) := by
  fun_induction linesFrom cs line with
  | case1 => exact ⟨1, rfl⟩
  | case2 line => exact ⟨0, rfl⟩
  | case3 more line ih =>
      rcases ih with ⟨n, ih⟩
      refine ⟨n, ?_⟩
      rw [List.cons_append, List.cons_append, linesFrom, ih]
      rfl
  | case4 c more line hother hbreak ih =>
      by_cases hpair : c = '\r' ∧ (more ++ '\n' :: '\n' :: rest).head? = some '\n'
      · -- The first line feed belongs to the carriage return, which ends the text.
        rcases hpair with ⟨rfl, hhead⟩
        cases more with
        | nil => exact ⟨0, rfl⟩
        | cons d more =>
            cases hhead
            exact absurd rfl (hother more rfl)
      · rcases ih with ⟨n, ih⟩
        refine ⟨n, ?_⟩
        rw [List.cons_append, linesFrom_cons _ _ _ hpair, if_pos hbreak, ih]
        rfl
  | case5 c more line hother hbreak ih =>
      rcases ih with ⟨n, ih⟩
      have hpair : ¬ (c = '\r' ∧ (more ++ '\n' :: '\n' :: rest).head? = some '\n') := by
        rintro ⟨rfl, _⟩
        exact hbreak rfl
      refine ⟨n, ?_⟩
      rw [List.cons_append, linesFrom_cons _ _ _ hpair, if_neg hbreak, ih]

end Text

namespace LogicalLine

/-- The texts of logical lines, without their numbers. -/
def texts? (result : Except Nat (List LogicalLine)) : Option (List (List Char)) :=
  result.toOption.map fun lines => lines.map text

/-- The texts of the logical lines of physical ones. The arguments are whether an
    indented line may follow, the text that is being collected, and the lines. -/
def collect : Bool → Option (List Char) → List (List Char) → Option (List (List Char))
  | _, current, [] => some current.toList
  | mayContinue, current, raw :: rest =>
    match LineKind.of raw with
    | .blank => collect false current rest
    | .comment => collect mayContinue current rest
    | .indented =>
      if mayContinue then collect true (current.map (· ++ ' ' :: Text.strip raw)) rest else none
    | .head => (collect true (some (Text.strip raw)) rest).map (current.toList ++ ·)

/-- The texts are collected without regard to the numbers of the lines. -/
theorem texts?_splitFrom (number : Nat) (mayContinue : Bool) (current : Option LogicalLine)
    (lines : List (List Char)) :
    texts? (splitFrom number mayContinue current lines) =
      collect mayContinue (current.map text) lines := by
  induction lines generalizing number mayContinue current with
  | nil =>
      cases current with
      | none => rfl
      | some l => rfl
  | cons raw rest ih =>
      rw [splitFrom, collect]
      -- Only the line numbers differ, and they are dropped. So each kind of line is one step
      -- on both sides, and an indented line without a line in front fails on both.
      cases LineKind.of raw with
      | blank => exact ih (number + 1) false current
      | comment => exact ih (number + 1) mayContinue current
      | indented =>
          cases mayContinue with
          | false => rfl
          | true =>
              refine (ih (number + 1) true _).trans ?_
              cases current with
              | none => rfl
              | some l => rfl
      | head =>
          have hrest : texts? (splitFrom (number + 1) true (some ⟨Text.strip raw, number⟩) rest) =
              collect true (some (Text.strip raw)) rest := ih (number + 1) true _
          -- The line in front, if there is one, is complete and stands before the rest.
          dsimp only
          cases hsplit : splitFrom (number + 1) true (some ⟨Text.strip raw, number⟩) rest with
          | error n =>
              rw [hsplit] at hrest
              rw [← hrest]
              rfl
          | ok found =>
              rw [hsplit] at hrest
              rw [← hrest]
              cases current with
              | none => rfl
              | some l => rfl

/-- What is being collected is the first text if no indented line may follow. -/
theorem collect_false (current : Option (List Char)) (lines : List (List Char)) :
    collect false current lines = (collect false none lines).map (current.toList ++ ·) := by
  induction lines with
  | nil => exact congrArg some (List.append_nil _).symm
  | cons raw rest ih =>
      rw [collect, collect]
      cases LineKind.of raw with
      | blank => exact ih
      | comment => exact ih
      | indented => rfl
      | head =>
          cases collect true (some (Text.strip raw)) rest with
          | none => rfl
          | some texts => rfl

/-- Empty lines at the start are passed over. -/
theorem collect_replicate (n : Nat) (lines : List (List Char)) :
    collect false none (List.replicate n [] ++ lines) = collect false none lines := by
  induction n with
  | zero => rfl
  | succ n ih => exact ih

/-- The texts of two pieces with an empty line between them are those of the pieces. -/
theorem collect_append (mayContinue : Bool) (current : Option (List Char))
    (front back : List (List Char)) :
    collect mayContinue current (front ++ [] :: back) =
      (collect mayContinue current front).bind fun texts =>
        (collect false none back).map (texts ++ ·) := by
  induction front generalizing mayContinue current with
  | nil => exact collect_false current back
  | cons raw rest ih =>
      rw [List.cons_append, collect, collect]
      -- The empty line is behind all of them, so it does not meet the line that is collected
      -- now.
      cases LineKind.of raw with
      | blank => exact ih false current
      | comment => exact ih mayContinue current
      | indented =>
          cases mayContinue with
          | false => rfl
          | true => exact ih true _
      | head =>
          dsimp only
          rw [ih]
          -- Both halves have to succeed, and the new text stands in front of both.
          cases collect true (some (Text.strip raw)) rest with
          | none => rfl
          | some texts =>
              cases collect false none back with
              | none => rfl
              | some more =>
                  exact congrArg some (List.append_assoc _ _ _).symm

/-- The logical lines of two texts with two line feeds between them are those of the
    texts, but for their numbers. -/
theorem texts?_split_append (first second : String) :
    texts? (split (first ++ "\n\n" ++ second)) =
      (texts? (split first)).bind fun texts => (texts? (split second)).map (texts ++ ·) := by
  have hchars : (first ++ "\n\n" ++ second).toList =
      first.toList ++ '\n' :: '\n' :: second.toList := by
    rw [String.toList_append, String.toList_append, List.append_assoc]
    rfl
  rcases Text.linesFrom_append first.toList second.toList none with ⟨n, hlines⟩
  simp only [split, texts?_splitFrom, Text.lines, hchars, hlines]
  rw [List.replicate_succ, List.cons_append]
  refine (collect_append _ _ _ _).trans ?_
  rw [collect_replicate]
  rfl

end LogicalLine

namespace Grammar

theorem forall₂_append_iff {α β : Type} {R : α → β → Prop} {xs ys : List α} {zs : List β} :
    List.Forall₂ R (xs ++ ys) zs ↔
      ∃ front back, List.Forall₂ R xs front ∧ List.Forall₂ R ys back ∧ front ++ back = zs := by
  constructor
  · intro h
    induction xs generalizing zs with
    | nil => exact ⟨[], zs, .nil, h, rfl⟩
    | cons x xs ih =>
        cases h with
        | cons hfirst hrest =>
            rcases ih hrest with ⟨front, back, hfront, hback, rfl⟩
            exact ⟨_ :: front, back, .cons hfirst hfront, hback, rfl⟩
  · rintro ⟨front, back, hfront, hback, rfl⟩
    exact List.rel_append hfront hback

theorem texts?_eq_some_iff (result : Except Nat (List LogicalLine)) (texts : List (List Char)) :
    LogicalLine.texts? result = some texts ↔
      ∃ lines, result = .ok lines ∧ lines.map LogicalLine.text = texts := by
  cases result with
  | error n => exact ⟨nofun, fun ⟨_, h, _⟩ => nomatch h⟩
  | ok lines =>
      constructor
      · intro h
        exact ⟨lines, rfl, Option.some.inj h⟩
      · rintro ⟨_, h, rfl⟩
        cases h
        rfl

/-- Loading succeeds if the text can be split and all lines spell rules. Neither the
    numbers of the lines nor the file has a part in it. -/
theorem load_eq_ok_iff_spells {file : Option String} {rules after : RuleSet} (text : String) :
    load text file rules = (.ok (), after) ↔
      ∃ texts list, LogicalLine.texts? (LogicalLine.split text) = some texts ∧
        List.Forall₂ Spells texts list ∧ rules.addAll list = after := by
  have hreads : Reads file = fun line rule => Spells line.text rule :=
    funext fun line => funext fun rule => propext (readRuleChars_eq_ok_iff _ _ rule)
  rw [load_eq_ok_iff, hreads]
  constructor
  · rintro ⟨lines, list, hsplit, hlist, hafter⟩
    exact ⟨_, list, (texts?_eq_some_iff _ _).2 ⟨lines, hsplit, rfl⟩,
      List.forall₂_map_left_iff.2 hlist, hafter⟩
  · rintro ⟨texts, list, htexts, hlist, hafter⟩
    rcases (texts?_eq_some_iff _ _).1 htexts with ⟨lines, hsplit, rfl⟩
    exact ⟨lines, list, hsplit, List.forall₂_map_left_iff.1 hlist, hafter⟩

/-- Loading a text with a blank line in it is loading the piece in front of it and then
    the one behind it: either both succeed or the whole fails, and what is left in the
    set is the same, with the same tags in the same order, and the same rules with the
    same numbers. The pieces may come from any files. -/
theorem load_append_iff (first second : String) (whole front back : Option String)
    (rules after : RuleSet) :
    load (first ++ "\n\n" ++ second) whole rules = (.ok (), after) ↔
      ∃ middle, load first front rules = (.ok (), middle) ∧
        load second back middle = (.ok (), after) := by
  simp only [load_eq_ok_iff_spells, LogicalLine.texts?_split_append]
  constructor
  · rintro ⟨texts, list, htexts, hlist, rfl⟩
    rcases Option.bind_eq_some_iff.1 htexts with ⟨xs, hxs, hmap⟩
    rcases Option.map_eq_some_iff.1 hmap with ⟨ys, hys, rfl⟩
    rcases forall₂_append_iff.1 hlist with ⟨some, more, hsome, hmore, rfl⟩
    exact ⟨rules.addAll some, ⟨xs, some, hxs, hsome, rfl⟩, ys, more, hys, hmore,
      (rules.addAll_append some more).symm⟩
  · rintro ⟨_, ⟨xs, some, hxs, hsome, rfl⟩, ys, more, hys, hmore, rfl⟩
    refine ⟨xs ++ ys, some ++ more, ?_, List.rel_append hsome hmore, rules.addAll_append some more⟩
    exact Option.bind_eq_some_iff.2 ⟨xs, hxs, Option.map_eq_some_iff.2 ⟨ys, hys, rfl⟩⟩

-- The carriage return takes one of the two line feeds, and the comment ends no line.
example : (load "a -> x\r\n\n# note\na -> y\n  z" none .empty).2.toList.map
    (fun r => (r.content.toText, r.order)) = [("x", 0), ("y z", 1)] := by
  decide +kernel

end Grammar

end TextGrammar
