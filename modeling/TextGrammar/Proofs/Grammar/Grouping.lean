import TextGrammar.Proofs.Grammar.Pieces

/-!
# Groups of Lines

Which physical lines make up a logical one.

Every line that is neither blank nor a comment nor indented is the head of a group, and
the indented lines between it and the next head belong to it. The text of the logical
line is that of the group, with white space stripped off each line and a space between
them. An indented line needs something to go on with: the nearest line in front of it
that is no comment must be there and must not be blank. If one lacks that, the text is
not split, and the first such line is reported.

A blank line does not end the group that is being collected. It only keeps indented
lines from following, so that in a text that is split the groups are contiguous but for
comments and blank lines in them. Comments are not seen at all.

## Main definitions

* `LogicalLine.AllowsIndent`: An indented line may follow some lines.
* `LogicalLine.Strays`: The line at a place is indented and goes on with nothing.
* `LogicalLine.Contributes`: A line belongs to a group.
* `LogicalLine.headsFrom`, `LogicalLine.group`: The heads, with the numbers of their
  lines, and the lines of their groups.
* `LogicalLine.ofHead`: The logical line of a head.

## Theorems

* `LineKind.of_eq`: The kinds of lines by two of their characters.
* `LogicalLine.splitFrom_cases`: Lines are grouped, or there is one that strays.
* `LogicalLine.flatMap_group`: The groups hold every head and indented line once.
* `LogicalLine.collect_filter`: Comments change nothing.
* `Grammar.splitLines_grouped`: All this for the lines of a text.
-/

namespace TextGrammar

namespace Text

theorem dropEndWhile_cons {p : Char → Bool} {c : Char} (hc : p c = false) (cs : List Char) :
    dropEndWhile p (c :: cs) = c :: dropEndWhile p cs := by
  unfold dropEndWhile
  rw [List.reverse_cons, List.dropWhile_append]
  cases hrest : cs.reverse.dropWhile p with
  | nil =>
      rw [List.isEmpty_nil, if_pos rfl, List.dropWhile_cons_of_neg (by rw [hc]; exact nofun)]
      rfl
  | cons d more =>
      rw [List.isEmpty_cons, if_neg Bool.false_ne_true, List.reverse_append]
      rfl

/-- Stripping leaves the first character that is no white space in front. -/
theorem head?_strip (cs : List Char) : (strip cs).head? = cs.find? fun c => !isBlank c := by
  have hfind := List.find?_eq_head?_dropWhile_not (fun c => !isBlank c) cs
  simp only [Bool.not_not] at hfind
  rw [hfind, strip, trim]
  cases hrest : cs.dropWhile isBlank with
  | nil => rfl
  | cons c more =>
      have hstop := List.head?_dropWhile_not isBlank cs
      rw [hrest] at hstop
      rw [dropEndWhile_cons (by simpa using hstop)]
      rfl

end Text

/-- The kind of a line is told by its first character and by the first that is no white
    space. -/
theorem LineKind.of_eq (line : List Char) :
    LineKind.of line =
      match line.find? fun c => !Text.isBlank c with
      | none => .blank
      | some c =>
        if c = '#' then .comment
        else if line.head?.any Text.isBlank then .indented else .head := by
  rw [← Text.head?_strip]
  unfold LineKind.of
  -- The first character behind the blanks is the first one of the stripped line.
  cases hstrip : Text.strip line with
  | nil => rfl
  | cons c more =>
      cases line with
      | nil => exact absurd hstrip nofun
      | cons d rest =>
          rw [List.head?_cons, List.head?_cons, Option.any_some]
          by_cases hc : c = '#'
          · subst hc
            rfl
          · dsimp only
            rw [if_neg hc]
            split
            · contradiction
            · exact absurd (List.cons.inj ‹c :: more = '#' :: _›).1 hc
            · cases ‹d :: rest = _ :: _›
              rfl
            · contradiction

namespace LogicalLine

/-- The nearest of some lines to those behind them, not counting comments. -/
def nearest (front : List (List Char)) : Option (List Char) :=
  (front.filter fun raw => decide (LineKind.of raw ≠ .comment)).getLast?

/-- An indented line may follow some lines: the nearest one that is no comment is there,
    and is not blank. -/
def AllowsIndent (front : List (List Char)) : Prop :=
  ∃ raw ∈ nearest front, LineKind.of raw ≠ .blank

instance (front : List (List Char)) : Decidable (AllowsIndent front) :=
  inferInstanceAs (Decidable (∃ raw ∈ nearest front, _))

/-- The line at a place is indented, and goes on with nothing. -/
def Strays (lines : List (List Char)) (i : Nat) : Prop :=
  (∃ raw ∈ lines[i]?, LineKind.of raw = .indented) ∧ ¬ AllowsIndent (lines.take i)

instance (lines : List (List Char)) (i : Nat) : Decidable (Strays lines i) :=
  inferInstanceAs (Decidable ((∃ raw ∈ lines[i]?, _) ∧ _))

/-- A line that belongs to a group: a head or an indented one. -/
def Contributes (raw : List Char) : Prop :=
  LineKind.of raw = .head ∨ LineKind.of raw = .indented

instance (raw : List Char) : Decidable (Contributes raw) := inferInstanceAs (Decidable (_ ∨ _))

/-- The indented lines up to the next head. -/
def continuation (behind : List (List Char)) : List (List Char) :=
  (behind.takeWhile fun raw => decide (LineKind.of raw ≠ .head)).filter fun raw =>
    decide (LineKind.of raw = .indented)

/-- The heads among some lines with their numbers, that of the first line being given. -/
def headsFrom (number : Nat) (lines : List (List Char)) : List (List Char × Nat) :=
  (lines.zipIdx number).filter fun p => decide (LineKind.of p.1 = .head)

/-- The lines of the group of a head. Lines are numbered from one, so those behind a line
    are what is left without as many as its number. -/
def group (lines : List (List Char)) (head : List Char × Nat) : List (List Char) :=
  head.1 :: continuation (lines.drop head.2)

/-- The logical line of a head: its group without white space at the ends of lines, but
    with a space between them. -/
def ofHead (lines : List (List Char)) (head : List Char × Nat) : LogicalLine :=
  ⟨[' '].intercalate ((group lines head).map Text.strip), head.2⟩

variable {front rest : List (List Char)} {raw : List Char}

theorem not_allowsIndent_nil : ¬ AllowsIndent [] := fun ⟨_, h, _⟩ => absurd h nofun

/-- A comment leaves it as it was whether an indented line may follow. -/
theorem allowsIndent_concat_comment (h : LineKind.of raw = .comment) :
    AllowsIndent (front ++ [raw]) ↔ AllowsIndent front := by
  simp [AllowsIndent, nearest, h]

/-- Behind any other line, an indented one may follow unless that line is blank. -/
theorem allowsIndent_concat (h : LineKind.of raw ≠ .comment) :
    AllowsIndent (front ++ [raw]) ↔ LineKind.of raw ≠ .blank := by
  simp [AllowsIndent, nearest, h]

/-- One may always follow a line that belongs to a group. -/
theorem allowsIndent_concat_of_contributes (h : Contributes raw) :
    AllowsIndent (front ++ [raw]) := by
  rcases h with hkind | hkind
  · exact (allowsIndent_concat (hkind.trans_ne (by decide))).2 (hkind.trans_ne (by decide))
  · exact (allowsIndent_concat (hkind.trans_ne (by decide))).2 (hkind.trans_ne (by decide))

theorem strays_length :
    Strays (front ++ raw :: rest) front.length ↔
      LineKind.of raw = .indented ∧ ¬ AllowsIndent front := by
  rw [Strays, List.getElem?_append_right (Nat.le_refl _), Nat.sub_self, List.getElem?_cons_zero,
    List.take_left]
  simp only [Option.mem_def, Option.some.injEq, exists_eq_left']

theorem not_strays_length (h : LineKind.of raw ≠ .indented) :
    ¬ Strays (front ++ raw :: rest) front.length :=
  fun hstrays => h (strays_length.1 hstrays).1

theorem continuation_of_head (h : LineKind.of raw = .head) : continuation (raw :: rest) = [] := by
  simp [continuation, h]

theorem continuation_of_indented (h : LineKind.of raw = .indented) :
    continuation (raw :: rest) = raw :: continuation rest := by
  simp [continuation, h]

/-- Blank lines and comments are passed over. -/
theorem continuation_of_ne (hhead : LineKind.of raw ≠ .head)
    (hindented : LineKind.of raw ≠ .indented) : continuation (raw :: rest) = continuation rest := by
  simp [continuation, hhead, hindented]

theorem headsFrom_of_head (number : Nat) (h : LineKind.of raw = .head) :
    headsFrom number (raw :: rest) = (raw, number) :: headsFrom (number + 1) rest := by
  rw [headsFrom, List.zipIdx_cons, List.filter_cons_of_pos (by simpa using h)]
  rfl

theorem headsFrom_of_ne_head (number : Nat) (h : LineKind.of raw ≠ .head) :
    headsFrom number (raw :: rest) = headsFrom (number + 1) rest := by
  rw [headsFrom, List.zipIdx_cons, List.filter_cons_of_neg (by simpa using h)]
  rfl

/-- The logical line that is being collected, with more lines behind it. -/
def extendAll (line : LogicalLine) (more : List (List Char)) : LogicalLine :=
  more.foldl (fun line raw => line.extend (Text.strip raw)) line

theorem extendAll_eq (first : List Char) (number : Nat) (more : List (List Char)) :
    extendAll ⟨first, number⟩ more =
      ⟨[' '].intercalate (first :: more.map Text.strip), number⟩ := by
  induction more generalizing first with
  | nil => rw [List.map_nil, List.intercalate_singleton]; rfl
  | cons raw more ih =>
      have hmore := ih (first ++ ' ' :: Text.strip raw)
      rw [List.map_cons, List.intercalate_cons_cons]
      refine hmore.trans ?_
      cases more with
      | nil => simp
      | cons next more => simp [List.intercalate_cons_cons]

/-- The group of a line that has some in front of it goes on with those behind it. -/
theorem group_length :
    group (front ++ raw :: rest) (raw, front.length + 1) = raw :: continuation rest := by
  rw [group, ← List.drop_drop, List.drop_left, List.drop_one, List.tail_cons]

/-- The logical line of a head is the head with the indented lines up to the next one. -/
theorem ofHead_length :
    ofHead (front ++ raw :: rest) (raw, front.length + 1) =
      extendAll ⟨Text.strip raw, front.length + 1⟩ (continuation rest) := by
  rw [extendAll_eq, ofHead, group_length, List.map_cons]

/-- What the collecting of lines comes to, from a place of all lines on: there is a first
    one that strays and is reported with its number, or there is none and the result is
    as expected. -/
def SplitsTo (lines : List (List Char)) (n : Nat) (expected : List LogicalLine)
    (result : Except Nat (List LogicalLine)) : Prop :=
  (∃ i, n ≤ i ∧ Strays lines i ∧ (∀ j, n ≤ j → j < i → ¬ Strays lines j) ∧
    result = .error (i + 1)) ∨
  (∀ i, n ≤ i → ¬ Strays lines i) ∧ result = .ok expected

/-- A line that does not stray may be left out of account. -/
theorem SplitsTo.of_succ {lines : List (List Char)} {n : Nat} {expected : List LogicalLine}
    {result : Except Nat (List LogicalLine)} (hn : ¬ Strays lines n)
    (h : SplitsTo lines (n + 1) expected result) : SplitsTo lines n expected result := by
  have hfrom : ∀ j, n ≤ j → (n + 1 ≤ j → ¬ Strays lines j) → ¬ Strays lines j := by
    intro j hj hlater
    rcases Nat.eq_or_lt_of_le hj with rfl | hlt
    · exact hn
    · exact hlater hlt
  rcases h with ⟨i, hle, hstrays, hfirst, hresult⟩ | ⟨hnone, hresult⟩
  · exact Or.inl ⟨i, Nat.le_of_succ_le hle, hstrays,
      fun j hj hlt => hfrom j hj fun hle => hfirst j hle hlt, hresult⟩
  · exact Or.inr ⟨fun i hi => hfrom i hi (hnone i), hresult⟩

/-- Lines behind some others are grouped, or there is one that strays. What is being
    collected goes on with the indented lines up to the next head. -/
theorem splitFrom_cases (front rest : List (List Char)) {mayContinue : Bool}
    (hmay : mayContinue = true ↔ AllowsIndent front) (current : Option LogicalLine) :
    SplitsTo (front ++ rest) front.length
      ((current.map fun line => line.extendAll (continuation rest)).toList ++
        (headsFrom (front.length + 1) rest).map (ofHead (front ++ rest)))
      (splitFrom (front.length + 1) mayContinue current rest) := by
  induction rest generalizing front mayContinue current with
  | nil =>
      refine Or.inr ⟨fun i hi => ?_, ?_⟩
      · rintro ⟨⟨raw, hraw, _⟩, _⟩
        rw [List.append_nil, List.getElem?_eq_none hi] at hraw
        exact absurd hraw (Option.not_mem_none raw)
      · cases current <;> rfl
  | cons raw rest ih =>
      have hih := @ih (front ++ [raw])
      rw [← List.append_cons, List.length_append, List.length_singleton] at hih
      rw [splitFrom]
      cases hkind : LineKind.of raw with
      | blank =>
          -- What is being collected stays so, but cannot go on with the next line.
          have hhead : LineKind.of raw ≠ .head := hkind.trans_ne (by decide)
          have hindented : LineKind.of raw ≠ .indented := hkind.trans_ne (by decide)
          have hnext : false = true ↔ AllowsIndent (front ++ [raw]) :=
            iff_of_false Bool.false_ne_true fun h =>
              (allowsIndent_concat (hkind.trans_ne (by decide))).1 h hkind
          rw [continuation_of_ne hhead hindented, headsFrom_of_ne_head _ hhead]
          exact (hih hnext current).of_succ (not_strays_length hindented)
      | comment =>
          have hhead : LineKind.of raw ≠ .head := hkind.trans_ne (by decide)
          have hindented : LineKind.of raw ≠ .indented := hkind.trans_ne (by decide)
          rw [continuation_of_ne hhead hindented, headsFrom_of_ne_head _ hhead]
          exact (hih (hmay.trans (allowsIndent_concat_comment hkind).symm) current).of_succ
            (not_strays_length hindented)
      | indented =>
          have hhead : LineKind.of raw ≠ .head := hkind.trans_ne (by decide)
          cases mayContinue with
          | false =>
              have hnot : ¬ AllowsIndent front := fun h => Bool.false_ne_true (hmay.2 h)
              exact Or.inl ⟨front.length, Nat.le_refl _, strays_length.2 ⟨hkind, hnot⟩,
                fun j hj hlt => absurd hj (Nat.not_le.2 hlt), rfl⟩
          | true =>
              have hnot : ¬ Strays (front ++ raw :: rest) front.length := fun h =>
                (strays_length.1 h).2 (hmay.1 rfl)
              have hnext : true = true ↔ AllowsIndent (front ++ [raw]) :=
                iff_of_true rfl (allowsIndent_concat_of_contributes (Or.inr hkind))
              have hrest :=
                (hih hnext (current.map fun line => line.extend (Text.strip raw))).of_succ hnot
              rw [continuation_of_indented hkind, headsFrom_of_ne_head _ hhead]
              rw [Option.map_map] at hrest
              exact hrest
      | head =>
          have hnext : true = true ↔ AllowsIndent (front ++ [raw]) :=
            iff_of_true rfl (allowsIndent_concat_of_contributes (Or.inl hkind))
          have hrest := (hih hnext (some ⟨Text.strip raw, front.length + 1⟩)).of_succ
            (not_strays_length (hkind.trans_ne (by decide)))
          rw [continuation_of_head hkind, headsFrom_of_head _ hkind, List.map_cons,
            ofHead_length]
          -- The line that was being collected is put in front of what follows.
          rcases hrest with ⟨i, hle, hi, hfirst, hresult⟩ | ⟨hnone, hresult⟩
          · rw [hresult]
            exact Or.inl ⟨i, hle, hi, hfirst, rfl⟩
          · rw [hresult]
            refine Or.inr ⟨hnone, ?_⟩
            cases current <;> rfl

/-- What goes on in front of the first head, and the groups of the heads, hold every line
    that belongs to a group once and in order. -/
theorem continuation_append_flatMap_group (front rest : List (List Char)) :
    continuation rest ++ (headsFrom (front.length + 1) rest).flatMap (group (front ++ rest)) =
      rest.filter fun raw => decide (Contributes raw) := by
  induction rest generalizing front with
  | nil => rfl
  | cons raw rest ih =>
      -- The groups are cut out of the whole text, of which the line is now behind.
      have hrest := ih (front ++ [raw])
      rw [← List.append_cons, List.length_append, List.length_singleton] at hrest
      cases hkind : LineKind.of raw with
      | head =>
          rw [continuation_of_head hkind, headsFrom_of_head _ hkind, List.flatMap_cons,
            group_length, List.filter_cons_of_pos (by simp [Contributes, hkind]), ← hrest]
          rfl
      | indented =>
          rw [continuation_of_indented hkind, headsFrom_of_ne_head _ (hkind.trans_ne (by decide)),
            List.filter_cons_of_pos (by simp [Contributes, hkind]), ← hrest]
          rfl
      | blank =>
          rw [continuation_of_ne (hkind.trans_ne (by decide)) (hkind.trans_ne (by decide)),
            headsFrom_of_ne_head _ (hkind.trans_ne (by decide)),
            List.filter_cons_of_neg (by simp [Contributes, hkind]), hrest]
      | comment =>
          rw [continuation_of_ne (hkind.trans_ne (by decide)) (hkind.trans_ne (by decide)),
            headsFrom_of_ne_head _ (hkind.trans_ne (by decide)),
            List.filter_cons_of_neg (by simp [Contributes, hkind]), hrest]

/-- If no line strays, none is indented in front of the first head. -/
theorem continuation_eq_nil (front rest : List (List Char)) (hfront : ¬ AllowsIndent front)
    (h : ∀ i, ¬ Strays (front ++ rest) i) : continuation rest = [] := by
  induction rest generalizing front with
  | nil => rfl
  | cons raw rest ih =>
      have hnext := fun hnot => ih (front ++ [raw]) hnot (List.append_cons front raw rest ▸ h)
      cases hkind : LineKind.of raw with
      | head => exact continuation_of_head hkind
      | indented => exact absurd (strays_length.2 ⟨hkind, hfront⟩) (h front.length)
      | blank =>
          rw [continuation_of_ne (hkind.trans_ne (by decide)) (hkind.trans_ne (by decide))]
          refine hnext fun hallows => ?_
          exact (allowsIndent_concat (hkind.trans_ne (by decide))).1 hallows hkind
      | comment =>
          rw [continuation_of_ne (hkind.trans_ne (by decide)) (hkind.trans_ne (by decide))]
          exact hnext fun hallows => hfront ((allowsIndent_concat_comment hkind).1 hallows)

/-- The groups of lines of which none strays hold every head and indented line once and in
    order. -/
theorem flatMap_group {lines : List (List Char)} (h : ∀ i, ¬ Strays lines i) :
    (headsFrom 1 lines).flatMap (group lines) =
      lines.filter fun raw => decide (Contributes raw) := by
  have hall := continuation_append_flatMap_group [] lines
  rw [continuation_eq_nil [] lines not_allowsIndent_nil h] at hall
  exact hall

/-- Comments have no part in the texts that are collected. -/
theorem collect_filter (mayContinue : Bool) (current : Option (List Char))
    (lines : List (List Char)) :
    collect mayContinue current (lines.filter fun raw => decide (LineKind.of raw ≠ .comment)) =
      collect mayContinue current lines := by
  induction lines generalizing mayContinue current with
  | nil => rfl
  | cons raw rest ih =>
      cases hkind : LineKind.of raw with
      | comment =>
          rw [List.filter_cons_of_neg (by simp [hkind]), ih, collect, hkind]
      | blank =>
          rw [List.filter_cons_of_pos (by simp [hkind]), collect, collect, hkind]
          exact ih false current
      | indented =>
          rw [List.filter_cons_of_pos (by simp [hkind]), collect, collect, hkind]
          dsimp only
          rw [ih]
      | head =>
          rw [List.filter_cons_of_pos (by simp [hkind]), collect, collect, hkind]
          dsimp only
          rw [ih]

/-- Texts with the same lines but for comments have logical lines with the same texts, or
    neither has any. -/
theorem texts?_split_congr {text other : String}
    (h : ((Text.lines text.toList).filter fun raw => decide (LineKind.of raw ≠ .comment)) =
      (Text.lines other.toList).filter fun raw => decide (LineKind.of raw ≠ .comment)) :
    texts? (split text) = texts? (split other) := by
  rw [split, split, texts?_splitFrom, texts?_splitFrom, ← collect_filter, h, collect_filter]

end LogicalLine

namespace Grammar

open LogicalLine

/-- The lines of a text are grouped, or the first that strays is reported. -/
theorem splitLines_cases (text : String) (file : Option String) :
    let lines := Text.lines text.toList
    (∃ i, Strays lines i ∧ (∀ j < i, ¬ Strays lines j) ∧
      splitLines text file = .error (.grammar ⟨.nothingToContinue, file, some (i + 1 : Nat)⟩)) ∨
    (∀ i, ¬ Strays lines i) ∧
      splitLines text file = .ok ((headsFrom 1 lines).map (ofHead lines)) := by
  intro lines
  have hmay : false = true ↔ AllowsIndent [] := iff_of_false Bool.false_ne_true not_allowsIndent_nil
  rw [splitLines, split]
  rcases splitFrom_cases [] lines hmay none with ⟨i, _, hi, hfirst, hresult⟩ | ⟨hnone, hresult⟩
  · refine Or.inl ⟨i, hi, fun j hj => hfirst j (Nat.zero_le j) hj, ?_⟩
    rw [show splitFrom 1 false none lines = _ from hresult]
    rfl
  · refine Or.inr ⟨fun i => hnone i (Nat.zero_le i), ?_⟩
    rw [show splitFrom 1 false none lines = _ from hresult]
    rfl

/-- The lines of a text are grouped exactly if every indented line has a line in front of
    it that is no comment and the nearest of these is not blank. There is one logical line
    for each head, in their order and with their numbers, and its text is that of the head
    and of the indented lines up to the next head, stripped and with a space between
    them; together the groups hold every head and every indented line once. Otherwise the
    first indented line without that is reported, with its number and the file. Lines that
    are comments may come or go anywhere without a change to the texts or the success.
    The kind of a line is told by its first character and by the first that is no white
    space. -/
theorem splitLines_grouped (text : String) (file : Option String) :
    let lines := Text.lines text.toList
    (∀ result, splitLines text file = .ok result ↔
      (∀ i, ¬ Strays lines i) ∧ result = (headsFrom 1 lines).map (ofHead lines)) ∧
    (∀ e, splitLines text file = .error e ↔
      ∃ i, Strays lines i ∧ (∀ j < i, ¬ Strays lines j) ∧
        e = .grammar ⟨.nothingToContinue, file, some (i + 1 : Nat)⟩) ∧
    ((∀ i, ¬ Strays lines i) →
      (headsFrom 1 lines).flatMap (group lines) =
        lines.filter fun raw => decide (Contributes raw)) ∧
    (∀ other : String,
      (lines.filter fun raw => decide (LineKind.of raw ≠ .comment)) =
        ((Text.lines other.toList).filter fun raw => decide (LineKind.of raw ≠ .comment)) →
      texts? (split text) = texts? (split other)) ∧
    ∀ line, LineKind.of line =
      match line.find? fun c => !Text.isBlank c with
      | none => .blank
      | some c =>
        if c = '#' then .comment
        else if line.head?.any Text.isBlank then .indented else .head := by
  intro lines
  refine ⟨?_, ?_, flatMap_group, fun other => texts?_split_congr, LineKind.of_eq⟩
  · intro result
    rcases splitLines_cases text file with ⟨i, hi, _, hresult⟩ | ⟨hnone, hresult⟩
    · rw [hresult]
      exact iff_of_false nofun fun h => h.1 i hi
    · rw [hresult, Except.ok.injEq, eq_comm]
      exact (and_iff_right hnone).symm
  · intro e
    rcases splitLines_cases text file with ⟨i, hi, hfirst, hresult⟩ | ⟨hnone, hresult⟩
    · rw [hresult]
      refine ⟨fun h => ⟨i, hi, hfirst, (Except.error.inj h).symm⟩, ?_⟩
      rintro ⟨j, hj, hbefore, rfl⟩
      -- There is only one first line that strays.
      have hle : i ≤ j := Nat.le_of_not_lt fun hlt => hfirst j hlt hj
      have hge : j ≤ i := Nat.le_of_not_lt fun hlt => hbefore i hlt hi
      rw [Nat.le_antisymm hle hge]
    · rw [hresult]
      exact iff_of_false nofun fun ⟨i, hi, _⟩ => hnone i hi

/-- A blank line keeps the line in the fourth place from going on with the first, whether
    or not there is a comment between them. -/
theorem splitLines_blankBetween :
    splitLines "a -> x\n\n# more\n  y" none =
      .error (.grammar ⟨.nothingToContinue, none, some 4⟩) :=
  ((splitLines_grouped _ _).2.1 _).2 ⟨3, by decide +kernel, by decide +kernel, rfl⟩

end Grammar

end TextGrammar
