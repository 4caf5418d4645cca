import TextGrammar.Proofs.Grammar.Grouping
import TextGrammar.Proofs.Grammar.RoundTrip

/-!
# Text Taken Verbatim

Which texts can be written as the whole template of a rule.

Behind a backslash every character stands for itself, white space included. So each text
has a spelling that starts and ends with no bare white space, and it is the template that
this spelling is read as.

A rule does not come to its reader unharmed, however. The line is stripped of the white
space around it, and so is what stands behind the arrow, and neither looks for a backslash
in front of what goes. At the start a backslash stands in the way. At the end it does
not: the white space goes, and the backslash stays, with nothing behind it to escape. So
the texts that can be written are those that do not end with white space, and the escape
makes up for the stripping at the start only.

## Main definitions

* `Rendering.verbatim`: A text with a backslash in front of brackets, backslashes and the
  white space at its ends.

## Theorems

* `Rendering.literal_verbatim`: The text is spelled by that.
* `Grammar.readContent_verbatim`: And read as it was, on its own.
* `Grammar.load_arrow`: A line for the tag `a` is stripped of the white space at its end,
  and what stands behind the arrow decides what comes of it.
* `Grammar.not_blank_of_readRule`: No rule has a text for a template that ends with white
  space.
* `Grammar.load_verbatim`: What comes of a text on a line.
-/

namespace TextGrammar

open Spelling

namespace Spelling.Escaped

variable {mayBePlain mayBeEscaped : Char → Prop} {raw text : List Char}

/-- A spelling holds nothing but backslashes and what it spells. -/
theorem mem (h : Escaped mayBePlain mayBeEscaped raw text) {c : Char} (hc : c ∈ raw) :
    c = '\\' ∨ c ∈ text := by
  induction h with
  | nil => exact absurd hc List.not_mem_nil
  | plain d raw text _ _ ih =>
      rcases List.mem_cons.1 hc with rfl | hc
      · exact Or.inr List.mem_cons_self
      · exact (ih hc).imp_right (List.mem_cons_of_mem d)
  | escaped d raw text _ _ ih =>
      rcases List.mem_cons.1 hc with rfl | hc
      · exact Or.inl rfl
      · rcases List.mem_cons.1 hc with rfl | hc
        · exact Or.inr List.mem_cons_self
        · exact (ih hc).imp_right (List.mem_cons_of_mem d)

/-- A spelling ends like what it spells. -/
theorem getLast?_eq (h : Escaped mayBePlain mayBeEscaped raw text) :
    raw.getLast? = text.getLast? := by
  induction h with
  | nil => rfl
  | plain c raw text _ _ ih => rw [List.getLast?_cons, List.getLast?_cons, ih]
  | escaped c raw text _ _ ih =>
      rw [List.getLast?_cons, List.getLast?_cons, List.getLast?_cons, ih]
      rfl

end Spelling.Escaped

namespace Text

/-- What was stripped does not end with white space. -/
theorem isBlank_of_getLast?_strip (cs : List Char) :
    ∀ c ∈ (strip cs).getLast?, isBlank c = false := by
  intro c hc
  rw [strip, trim, dropEndWhile, List.getLast?_reverse] at hc
  have hstop := List.head?_dropWhile_not isBlank (cs.dropWhile isBlank).reverse
  rw [Option.mem_def.1 hc] at hstop
  exact hstop

theorem isLineBreak_of_any {cs : List Char} (h : cs.any isLineBreak = false) :
    ∀ c ∈ cs, isLineBreak c = false := fun c hc =>
  Bool.eq_false_iff.2 (List.any_eq_false.1 h c hc)

theorem linesFrom_of_unbroken {cs : List Char} (h : ∀ c ∈ cs, isLineBreak c = false)
    (line : List Char) : linesFrom cs (some line) = [line.reverse ++ cs] := by
  induction cs generalizing line with
  | nil => exact congrArg (fun l => [l]) (List.append_nil _).symm
  | cons c rest ih =>
      rcases List.forall_mem_cons.1 h with ⟨hc, hrest⟩
      have hpair : ¬ (c = '\r' ∧ rest.head? = some '\n') := by
        rintro ⟨rfl, _⟩
        exact absurd hc (by decide)
      rw [linesFrom_cons _ _ _ hpair, hc, if_neg Bool.false_ne_true, ih hrest, Option.getD_some,
        List.reverse_cons, List.append_assoc]
      rfl

/-- A text without breaks is a single line, if it is not empty. -/
theorem lines_of_unbroken {cs : List Char} (h : ∀ c ∈ cs, isLineBreak c = false)
    (hne : cs ≠ []) : lines cs = [cs] := by
  cases cs with
  | nil => exact absurd rfl hne
  | cons c rest =>
      rcases List.forall_mem_cons.1 h with ⟨hc, hrest⟩
      have hpair : ¬ (c = '\r' ∧ rest.head? = some '\n') := by
        rintro ⟨rfl, _⟩
        exact absurd hc (by decide)
      rw [lines, linesFrom_cons _ _ _ hpair, hc, if_neg Bool.false_ne_true]
      exact linesFrom_of_unbroken hrest [c]

end Text

namespace Rendering

/-- A character cannot stand for itself: it is a bracket or a backslash, or white space
    with nothing else on one of its sides. -/
def NeedsBackslash (front : Bool) (c : Char) (rest : List Char) : Prop :=
  c = '[' ∨ c = '\\' ∨ (Text.isBlank c = true ∧ (front = true ∨ rest.all Text.isBlank = true))

instance (front : Bool) (c : Char) (rest : List Char) : Decidable (NeedsBackslash front c rest) :=
  inferInstanceAs (Decidable (_ ∨ _ ∨ _ ∧ (_ ∨ _)))

/-- A text with a backslash in front of what needs one. The first argument says whether
    there is nothing but white space in front of the text. -/
def verbatimFrom : Bool → List Char → List Char
  | _, [] => []
  | front, c :: rest =>
    if NeedsBackslash front c rest then '\\' :: c :: verbatimFrom (front && Text.isBlank c) rest
    else c :: verbatimFrom (front && Text.isBlank c) rest

/-- A text with a backslash in front of each opening bracket, each backslash, and all the
    white space at its ends. -/
def verbatim (cs : List Char) : List Char := verbatimFrom true cs

theorem literal_verbatimFrom (front : Bool) (cs : List Char) :
    Literal (verbatimFrom front cs) cs := by
  induction cs generalizing front with
  | nil => exact .nil
  | cons c rest ih =>
      rw [verbatimFrom]
      by_cases hc : NeedsBackslash front c rest
      · rw [if_pos hc]
        exact .escaped c _ rest trivial (ih _)
      · rw [if_neg hc]
        exact .plain c _ rest ⟨fun h => hc (Or.inl h), fun h => hc (Or.inr (Or.inl h))⟩ (ih _)

/-- White space at the end is escaped, and has no part in what is in front of it. -/
theorem verbatimFrom_concat (front : Bool) (cs : List Char) {w : Char}
    (hw : Text.isBlank w = true) :
    verbatimFrom front (cs ++ [w]) = verbatimFrom front cs ++ ['\\', w] := by
  induction cs generalizing front with
  | nil => exact if_pos (Or.inr (Or.inr ⟨hw, Or.inr rfl⟩))
  | cons c rest ih =>
      have hneeds : NeedsBackslash front c (rest ++ [w]) ↔ NeedsBackslash front c rest := by
        unfold NeedsBackslash
        rw [List.all_append, List.all_cons, hw, Bool.true_and, List.all_nil, Bool.and_true]
      simp only [List.cons_append, verbatimFrom, hneeds, ih]
      split
      · rfl
      · rfl

theorem literal_verbatim (cs : List Char) : Literal (verbatim cs) cs := literal_verbatimFrom true cs

/-- No bare white space stands in front. -/
theorem isBlank_of_head?_verbatim (cs : List Char) :
    ∀ c ∈ (verbatim cs).head?, Text.isBlank c = false := by
  intro c hc
  cases cs with
  | nil => cases hc
  | cons d rest =>
      rw [verbatim, verbatimFrom] at hc
      by_cases hd : NeedsBackslash true d rest
      · rw [if_pos hd] at hc
        cases hc
        decide
      · rw [if_neg hd] at hc
        cases hc
        exact Bool.eq_false_iff.2 fun h => hd (Or.inr (Or.inr ⟨h, Or.inl rfl⟩))

theorem verbatim_ne_nil {cs : List Char} (h : cs ≠ []) : verbatim cs ≠ [] := by
  intro hnil
  have hliteral := literal_verbatim cs
  rw [hnil] at hliteral
  cases hliteral
  exact h rfl

theorem isLineBreak_of_mem_verbatim {cs : List Char} (h : ∀ c ∈ cs, Text.isLineBreak c = false) :
    ∀ c ∈ verbatim cs, Text.isLineBreak c = false := by
  intro c hc
  rcases (literal_verbatim cs).mem hc with rfl | hc
  · decide
  · exact h c hc

end Rendering

open Rendering

namespace Token

/-- A last backslash is left by the literal text in front of it. -/
theorem literalText_backslash {raw text : List Char} (h : Literal raw text) :
    literalText (raw ++ ['\\']) = (text, ['\\']) := by
  induction h with
  | nil => rfl
  | plain c raw text hc h ih =>
      rw [List.cons_append, literalText, ih]
      · exact hc.1
      · exact fun _ _ hescape _ => hc.2 hescape
      · exact fun hescape _ => hc.2 hescape
  | escaped c raw text hc h ih =>
      rw [List.cons_append, List.cons_append, literalText, ih]

end Token

namespace Reader

/-- Literal text with a backslash at its end is no template, and the backslash is where
    reading stops. -/
theorem template?_backslash {raw text : List Char} (h : Literal raw text) :
    template? (raw ++ ['\\']) = .error ['\\'] := by
  rw [template?, List.length_append]
  cases h with
  | nil => rfl
  | plain c raw text hc h =>
      have hraw : Literal (c :: raw) (c :: text) := .plain c raw text hc h
      rw [templateFrom_literal (hraw.not_endsLiteral (List.cons_ne_nil _ _) _)
        (Token.literalText_backslash hraw) (List.cons_ne_nil _ _)]
      rfl
  | escaped c raw text hc h =>
      have hraw : Literal ('\\' :: c :: raw) (c :: text) := .escaped c raw text hc h
      rw [templateFrom_literal (hraw.not_endsLiteral (List.cons_ne_nil _ _) _)
        (Token.literalText_backslash hraw) (List.cons_ne_nil _ _)]
      rfl

/-- The last character of a line has the columns of all others in front of it. -/
theorem column_last {before : List Char} (h : ∀ c ∈ before, Text.isLineBreak c = false)
    (c : Char) : column (before ++ [c]) [c] = before.length + 1 := by
  have hfeed : ∀ d ∈ before.reverse, (d != '\n') = true := by
    intro d hd
    rw [bne_iff_ne]
    rintro rfl
    exact absurd (h '\n' (List.mem_reverse.1 hd)) (by decide)
  rw [column, List.length_append, Nat.add_sub_cancel, List.take_left,
    List.takeWhile_eq_self_iff.2 hfeed, List.length_reverse]

end Reader

namespace Grammar

/-- On its own, the text is read back from its spelling. -/
theorem readContent_verbatim {cs : List Char} (hne : cs ≠ []) (place : Place) :
    readContentChars (verbatim cs) place = .ok [.text (String.ofList cs)] := by
  have hliteral : Literal (verbatim cs) (String.ofList cs).toList := by
    rw [String.toList_ofList]
    exact literal_verbatim cs
  have hsegments := Segmentation.cons
    (.literal _ _ hliteral (verbatim_ne_nil hne)) .nil fun _ => nofun
  rw [List.append_nil] at hsegments
  exact (readContentChars_eq_ok_iff _ _ _).2 ⟨_, hsegments, .cons (.text _) .nil⟩

/-- Literal text with a backslash behind it is refused at its last column. -/
theorem readContent_backslash {raw text : List Char} (h : Literal raw text)
    (hbreak : ∀ c ∈ raw, Text.isLineBreak c = false) (place : Place) :
    readContentChars (raw ++ ['\\']) place =
      .error (.grammar ⟨.unexpectedInput .content (raw ++ ['\\']).length
        (String.ofList (raw ++ ['\\'])), place.file, place.line⟩) := by
  rw [readContentChars, Reader.template?_backslash h, located, Reader.column_last hbreak,
    List.length_append]
  rfl

/-- The front of a line for the tag `a`. -/
def arrow : List Char := ['a', ' ', '-', '>', ' ']

section Line

variable {body back : List Char}

theorem strip_arrow (hne : body ≠ []) (hlast : ∀ c ∈ body.getLast?, Text.isBlank c = false)
    (hback : ∀ c ∈ back, Text.isBlank c = true) :
    Text.strip (arrow ++ (body ++ back)) = arrow ++ body := by
  have hends : ∀ c ∈ (arrow ++ body).getLast?, Text.isBlank c = false := by
    rwa [List.getLast?_append_of_ne_nil _ hne]
  have hfront : ∀ c ∈ (arrow ++ body).head?, Text.isBlank c = false := by
    intro c hc
    cases hc
    decide
  have hstrip := Text.strip_append [] back nofun hback hfront hends
  rwa [List.append_assoc] at hstrip

/-- A line for the tag `a` is read as a rule with what stands behind the arrow, if that
    is a template. -/
theorem readRuleChars_arrow (place : Place)
    (hhead : ∀ c ∈ body.head?, Text.isBlank c = false)
    (hlast : ∀ c ∈ body.getLast?, Text.isBlank c = false) :
    (∀ content, readContentChars body place = .ok content →
      ∃ rule, Describes ⟨"a", none⟩ [] content rule ∧
        readRuleChars (arrow ++ body) place = .ok rule) ∧
    ∀ e, readContentChars body place = .error e →
      readRuleChars (arrow ++ body) place = .error e := by
  -- The header is a tag without options, and stripping takes no more than the blank behind the
  -- arrow.
  have hsplit : splitArrow? (arrow ++ body) = some (['a', ' '], ' ' :: body) := rfl
  have hheader : HeaderText ⟨⟨"a", none⟩, []⟩ (Text.strip ['a', ' ']) :=
    headerText_render (show HeaderForm.WellFormed ⟨⟨"a", none⟩, []⟩ by decide) nofun
  have hright : Text.strip (' ' :: body) = body := by
    have hstrip := Text.strip_append [' '] [] (List.all_eq_true.1 (by decide)) nofun hhead hlast
    rwa [List.append_nil] at hstrip
  constructor
  · intro content hcontent
    have hbuild : ∃ rule, Rule.build ⟨"a", none⟩ content (.ofValues []) = .ok rule ∧
        Describes ⟨"a", none⟩ [] content rule :=
      Rule.build_ofValues ⟨"a", none⟩ content nofun
        (fun text htext => absurd htext (Option.not_mem_none text))
        (fun x hx => absurd hx (Option.not_mem_none x))
    rcases hbuild with ⟨rule, hrule, hdescribes⟩
    refine ⟨rule, hdescribes, ?_⟩
    rw [readRuleChars_of_parts hsplit hheader .nil (by rw [hright]; exact hcontent), hrule]
  · intro e he
    rw [readRuleChars_of_splitArrow? hsplit, hright]
    exact (bind_eq_error_iff _ _ _).2 (Or.inr ⟨_, readHeader_eq_ok place hheader .nil,
      (bind_eq_error_iff _ _ _).2 (Or.inl he)⟩)

/-- A text of one line for the tag `a` is loaded without the white space at its end. -/
theorem load_arrow (hhead : ∀ c ∈ body.head?, Text.isBlank c = false) (hne : body ≠ [])
    (hlast : ∀ c ∈ body.getLast?, Text.isBlank c = false)
    (hback : ∀ c ∈ back, Text.isBlank c = true)
    (hbreak : ∀ c ∈ body ++ back, Text.isLineBreak c = false) (file : Option String)
    (rules : RuleSet) :
    (∀ content, readContentChars body ⟨file, some 1⟩ = .ok content →
      ∃ rule, Describes ⟨"a", none⟩ [] content rule ∧
        load ("a -> " ++ String.ofList (body ++ back)) file rules =
          (.ok (), (rules.add rule).2)) ∧
    ∀ e, readContentChars body ⟨file, some 1⟩ = .error e →
      load ("a -> " ++ String.ofList (body ++ back)) file rules = (.error e, rules) := by
  have hchars : ("a -> " ++ String.ofList (body ++ back)).toList = arrow ++ (body ++ back) := by
    rw [String.toList_append]
    exact congrArg (arrow ++ ·) String.toList_ofList
  have hunbroken : ∀ c ∈ arrow ++ (body ++ back), Text.isLineBreak c = false :=
    List.forall_mem_append.2 ⟨Text.isLineBreak_of_any (by decide), hbreak⟩
  have hkind : LineKind.of (arrow ++ (body ++ back)) = .head := (LineKind.of_eq _).trans rfl
  -- There is one line, and it is the first of a rule.
  have hsplit : LogicalLine.split ("a -> " ++ String.ofList (body ++ back)) =
      .ok [⟨arrow ++ body, 1⟩] := by
    rw [LogicalLine.split, hchars, Text.lines_of_unbroken hunbroken (List.cons_ne_nil _ _),
      LogicalLine.splitFrom, hkind, strip_arrow hne hlast hback]
    rfl
  rcases readRuleChars_arrow ⟨file, some 1⟩ hhead hlast with ⟨hok, herror⟩
  constructor
  · intro content hcontent
    rcases hok content hcontent with ⟨rule, hdescribes, hrule⟩
    exact ⟨rule, hdescribes, (load_eq_ok_iff _).2 ⟨_, [rule], hsplit, .cons hrule .nil, rfl⟩⟩
  · intro e he
    exact (load_eq_error_iff _ e).2
      (Or.inr ⟨[], ⟨arrow ++ body, 1⟩, [], [], hsplit, .nil, herror e he, rfl⟩)

end Line

/-- No rule has a text for a template that ends with white space, however it is
    written. -/
theorem not_blank_of_readRule {line t : String} {place : Place} {rule : Rule}
    (h : readRule line place = .ok rule) (hcontent : rule.content = [.text t]) :
    ∀ c ∈ t.toList.getLast?, Text.isBlank c = false := by
  cases (readRuleChars_eq_ok_iff _ _ _).1 h with
  | intro left right header values content segments hsplit hheader hvalues hsegments hmeaning
      hchecks hrule =>
      rw [hrule.content] at hcontent
      subst hcontent
      cases hmeaning with
      | cons hfirst hrest =>
          rename_i s segments
          cases hrest
          rcases s with ⟨raw, form⟩
          rcases hsegments.of_cons with ⟨rest, hright, hsegment, hnone, _⟩
          cases hfirst
          cases hsegment with
          | literal _ _ hliteral hne =>
              rw [← hliteral.getLast?_eq]
              have hlast := Text.isBlank_of_getLast?_strip right
              rwa [hright, ← hnone.joined, List.flatMap_nil, List.append_nil] at hlast
          | bracketed body _ hbody => cases hbody

/-- Without white space at its end, the text is loaded as the template of a rule. -/
theorem load_verbatim_of_not_blank {cs : List Char} (hne : cs ≠ [])
    (hbreak : ∀ c ∈ cs, Text.isLineBreak c = false)
    (hlast : ∀ c ∈ cs.getLast?, Text.isBlank c = false) (file : Option String) (rules : RuleSet) :
    ∃ rule, Describes ⟨"a", none⟩ [] [.text (String.ofList cs)] rule ∧
      load ("a -> " ++ String.ofList (verbatim cs)) file rules = (.ok (), (rules.add rule).2) := by
  have hlast' : ∀ c ∈ (verbatim cs).getLast?, Text.isBlank c = false := by
    rwa [(literal_verbatim cs).getLast?_eq]
  have hunbroken : ∀ c ∈ verbatim cs ++ [], Text.isLineBreak c = false := by
    rw [List.append_nil]
    exact isLineBreak_of_mem_verbatim hbreak
  -- There is nothing at the end that goes with the strip.
  have hload := load_arrow (isBlank_of_head?_verbatim cs) (verbatim_ne_nil hne) hlast'
    (List.forall_mem_nil _) hunbroken file rules
  rw [List.append_nil] at hload
  exact hload.1 _ (readContent_verbatim hne _)

/-- White space at the end of a text leaves a backslash behind that escapes nothing. -/
theorem load_verbatim_of_blank {cs : List Char} {w : Char} (hw : Text.isBlank w = true)
    (hbreak : ∀ c ∈ cs ++ [w], Text.isLineBreak c = false) (file : Option String)
    (rules : RuleSet) :
    load ("a -> " ++ String.ofList (verbatim (cs ++ [w]))) file rules =
      (.error (.grammar ⟨.unexpectedInput .content (verbatim (cs ++ [w])).dropLast.length
        (String.ofList (verbatim (cs ++ [w])).dropLast), file, some 1⟩), rules) := by
  have hunbroken := isLineBreak_of_mem_verbatim hbreak
  have hhead := isBlank_of_head?_verbatim (cs ++ [w])
  -- The last blank is stripped, so that a backslash is left with nothing behind it.
  have hsplit : verbatim (cs ++ [w]) = (verbatim cs ++ ['\\']) ++ [w] := by
    rw [verbatim, verbatimFrom_concat true cs hw, List.append_assoc]
    rfl
  have hne : verbatim cs ++ ['\\'] ≠ [] :=
    List.append_ne_nil_of_right_ne_nil _ (List.cons_ne_nil _ _)
  rw [hsplit] at hunbroken hhead ⊢
  rw [List.head?_append_of_ne_nil _ hne] at hhead
  rw [List.dropLast_concat]
  have hlast : ∀ c ∈ (verbatim cs ++ ['\\']).getLast?, Text.isBlank c = false := by
    rw [List.getLast?_concat]
    intro c hc
    cases hc
    decide
  have hbefore : ∀ c ∈ verbatim cs, Text.isLineBreak c = false := fun c hc =>
    hunbroken c (List.mem_append_left _ (List.mem_append_left _ hc))
  exact (load_arrow hhead hne hlast (List.forall_mem_singleton.2 hw) hunbroken file rules).2 _
    (readContent_backslash (literal_verbatim cs) hbefore _)

/-- The spelling of a text is read as that text where it is a template of its own. On a
    line for a rule it is the template of that rule if the text does not end with white
    space. If it does, the last character of the line goes and the backslash in front of
    it is what reading stops at; and no other line makes a rule with that template
    either. -/
theorem load_verbatim (t : String) (hne : t ≠ "")
    (hbreak : ∀ c ∈ t.toList, Text.isLineBreak c = false) :
    (∀ place, readContentChars (verbatim t.toList) place = .ok [.text t]) ∧
    ((∀ c ∈ t.toList.getLast?, Text.isBlank c = false) → ∀ file rules,
      ∃ rule, Describes ⟨"a", none⟩ [] [.text t] rule ∧
        load ("a -> " ++ String.ofList (verbatim t.toList)) file rules =
          (.ok (), (rules.add rule).2)) ∧
    ((∃ c ∈ t.toList.getLast?, Text.isBlank c = true) →
      (∀ file rules, load ("a -> " ++ String.ofList (verbatim t.toList)) file rules =
        (.error (.grammar ⟨.unexpectedInput .content (verbatim t.toList).dropLast.length
          (String.ofList (verbatim t.toList).dropLast), file, some 1⟩), rules)) ∧
      ∀ line place rule, readRule line place = .ok rule → rule.content ≠ [.text t]) := by
  have hcs : t.toList ≠ [] := fun h => hne (String.toList_inj.1 h)
  refine ⟨fun place => ?_, fun hlast file rules => ?_, fun hlast => ?_⟩
  · rw [readContent_verbatim hcs, String.ofList_toList]
  · have hload := load_verbatim_of_not_blank hcs hbreak hlast file rules
    rwa [String.ofList_toList] at hload
  · rcases hlast with ⟨w, hw, hblank⟩
    rcases List.getLast?_eq_some_iff.1 hw with ⟨cs, hsplit⟩
    refine ⟨?_, fun line place rule hrule hcontent => ?_⟩
    · rw [hsplit] at hbreak ⊢
      exact load_verbatim_of_blank hblank hbreak
    · have hnot := not_blank_of_readRule hrule hcontent w hw
      exact Bool.false_ne_true (hnot.symm.trans hblank)

/-- A space and a bracket at the start, and a backslash at the end. -/
theorem load_verbatim_bracket :
    " [x\\" ≠ "" ∧ (∀ c ∈ " [x\\".toList, Text.isLineBreak c = false) ∧
      ∃ rule, Describes ⟨"a", none⟩ [] [.text " [x\\"] rule ∧
        load "a -> \\ \\[x\\\\" none .empty = (.ok (), (RuleSet.empty.add rule).2) := by
  have hne : " [x\\" ≠ "" := by decide
  have hbreak : ∀ c ∈ " [x\\".toList, Text.isLineBreak c = false :=
    Text.isLineBreak_of_any (by decide)
  have hlast : ∀ c ∈ " [x\\".toList.getLast?, Text.isBlank c = false := by
    intro c hc
    cases hc
    decide
  exact ⟨hne, hbreak, (load_verbatim " [x\\" hne hbreak).2.1 hlast none .empty⟩

/-- So not every text can be written: of a letter and a space, the space goes. -/
theorem load_escapedSpace :
    ¬ ∀ t : String, t ≠ "" → (∀ c ∈ t.toList, Text.isLineBreak c = false) →
      ∃ rule, rule.content = [.text t] ∧
        load ("a -> " ++ String.ofList (verbatim t.toList)) none .empty =
          (.ok (), (RuleSet.empty.add rule).2) := by
  intro h
  rcases h "x " (by decide) (Text.isLineBreak_of_any (by decide)) with ⟨rule, _, hload⟩
  have hfails :
      (load ("a -> " ++ String.ofList (verbatim "x ".toList)) none .empty).1.isOk = false := by
    decide +kernel
  rw [hload] at hfails
  cases hfails

end Grammar

end TextGrammar
