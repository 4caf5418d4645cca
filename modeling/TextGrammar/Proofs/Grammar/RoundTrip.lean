import TextGrammar.Proofs.Grammar.Diagnosis
import TextGrammar.Proofs.Grammar.Rendering

/-!
# Round Trip

That reading a rule gives back what was rendered.

The line is cut at its first arrow, which is the one that was put there as long as
the header holds none. What is left on either side is stripped of the spaces around
the arrow, and nothing else goes with them if the template neither starts nor ends
with white space. The header and the template are then read as they were spelled.

## Theorems

* `Text.strip_append`: White space goes from both ends.
* `Grammar.splitArrow?_append`: A line is cut at its first arrow.
* `Grammar.readHeader_render`, `Grammar.readContent_render`: Either side is read as it
  was rendered.
* `Grammar.readRule_render`: A rule that was rendered is read as it was.
-/

namespace TextGrammar

open Spelling Rendering OptionValue

namespace Text

/-- White space around a text that has none at its own ends is all that goes. -/
theorem strip_append (front back : List Char) {cs : List Char}
    (hfront : ∀ c ∈ front, isBlank c = true)
    (hback : ∀ c ∈ back, isBlank c = true) (hhead : ∀ c ∈ cs.head?, isBlank c = false)
    (hlast : ∀ c ∈ cs.getLast?, isBlank c = false) : strip (front ++ (cs ++ back)) = cs := by
  have hdropEnd : dropEndWhile isBlank (cs ++ back) = cs := by
    have hback' : ∀ c ∈ back.reverse, isBlank c = true :=
      fun c hc => hback c (List.mem_reverse.1 hc)
    have hlast' : ∀ c ∈ cs.reverse.head?, isBlank c = false := by
      rwa [List.head?_reverse]
    rw [dropEndWhile, List.reverse_append, (takeWhile_append_of_stop hback' hlast').2,
      List.reverse_reverse]
  unfold strip trim
  cases cs with
  -- A text of white space only is gone before its end is looked at.
  | nil =>
      have hall : ∀ c ∈ front ++ ([] ++ back), isBlank c = true := by
        intro c hc
        rcases List.mem_append.1 hc with hc | hc
        · exact hfront c hc
        · exact hback c hc
      rw [List.dropWhile_eq_nil_iff.2 hall]
      rfl
  | cons c cs =>
      have hdrop := (takeWhile_append_of_stop hfront (show ∀ x ∈ (c :: cs ++ back).head?,
        isBlank x = false from hhead)).2
      rw [hdrop, hdropEnd]

/-- The characters of names are no white space. -/
theorem isBlank_of_isNameRest {c : Char} (h : Token.isNameRest c = true) : isBlank c = false := by
  -- All of them lie between the digits and the small letters.
  have hcode : 48 ≤ c.toNat ∧ c.toNat ≤ 122 := by
    rcases Bool.or_eq_true_iff.1 h with halphanum | hline
    · rcases Bool.or_eq_true_iff.1 halphanum with halpha | hdigit
      · rcases Bool.or_eq_true_iff.1 halpha with hupper | hlower
        · rcases of_decide_eq_true hupper with ⟨hlow, hhigh⟩
          have hlow : 65 ≤ c.toNat := UInt32.le_iff_toNat_le.1 hlow
          have hhigh : c.toNat ≤ 90 := UInt32.le_iff_toNat_le.1 hhigh
          omega
        · rcases Bool.and_eq_true_iff.1 hlower with ⟨hlow, hhigh⟩
          have hlow : 97 ≤ c.toNat := UInt32.le_iff_toNat_le.1 (of_decide_eq_true hlow)
          have hhigh : c.toNat ≤ 122 := UInt32.le_iff_toNat_le.1 (of_decide_eq_true hhigh)
          omega
      · have hcode : 48 ≤ c.toNat ∧ c.toNat ≤ 57 := Char.isDigit_iff_toNat.1 hdigit
        omega
    · rw [eq_of_beq hline]
      decide
  simp only [isBlank, Bool.or_eq_false_iff, Bool.and_eq_false_iff, decide_eq_false_iff_not,
    beq_eq_false_iff_ne]
  omega

end Text

namespace Grammar

/-- A line is cut at an arrow if there is none in front. The character in front of it
    does no harm, because the arrow itself starts with no angle. -/
theorem splitArrow?_append (left right : List Char) (h : ¬ ['-', '>'] <:+: left) :
    splitArrow? (left ++ '-' :: '>' :: right) = some (left, right) := by
  induction left with
  | nil => rfl
  | cons c left ih =>
      have hmore := ih fun hinfix => h (List.infix_cons hinfix)
      rw [List.cons_append, splitArrow?, hmore]
      · rfl
      -- The only other way to be cut is at an arrow that starts with this character.
      · rintro more rfl hnext
        cases left with
        | nil => exact absurd (List.cons.inj hnext).1 (by decide)
        | cons d left =>
            rcases List.cons.inj hnext with ⟨rfl, _⟩
            exact h ⟨[], left, rfl⟩

/-- The space in front of the arrow makes no other arrow of a header. -/
theorem not_infix_append_space {cs : List Char} (h : ¬ ['-', '>'] <:+: cs) :
    ¬ ['-', '>'] <:+: cs ++ [' '] := by
  rw [List.infix_concat_iff, List.suffix_concat_iff]
  rintro ((hnil | ⟨front, hfront, _⟩) | hinfix)
  · exact absurd hnil nofun
  · have hlast := congrArg List.getLast? hfront
    rw [List.getLast?_concat] at hlast
    exact absurd hlast (by decide)
  · exact h hinfix

end Grammar

namespace Rendering

theorem isBlank_of_isName {cs : List Char} (h : IsName cs) : ∀ c ∈ cs, Text.isBlank c = false :=
  fun c hc => Text.isBlank_of_isNameRest (h.isNameRest c hc)

/-- The text of a tag holds no white space. -/
theorem isBlank_of_mem_tag {t : Tag} (h : t.WellFormed) :
    ∀ c ∈ t.render, Text.isBlank c = false := by
  rcases t with ⟨name, context⟩
  rcases h with ⟨hname, hcontext⟩
  intro c hc
  cases context with
  | none => exact isBlank_of_isName hname c hc
  | some context =>
      rcases List.mem_append.1 hc with hc | hc
      · exact isBlank_of_isName (hcontext context rfl) c hc
      · rcases List.mem_cons.1 hc with rfl | hc
        · decide
        · exact isBlank_of_isName hname c hc

theorem tag_ne_nil {t : Tag} (h : t.WellFormed) : t.render ≠ [] := by
  rcases t with ⟨name, context⟩
  rcases h with ⟨hname, _⟩
  cases context with
  | none =>
      intro hnil
      rw [show name.toList = [] from hnil] at hname
      exact hname
  | some context => exact List.append_ne_nil_of_right_ne_nil _ (List.cons_ne_nil _ _)

/-- A list in parentheses ends with the closing one. -/
theorem exists_listed_eq {α : Type} (render : α → List Char) (xs : List α) :
    ∃ front, listed render xs = front ++ [')'] := by
  induction xs with
  | nil => exact ⟨[], rfl⟩
  | cons x more ih =>
      cases more with
      | nil => exact ⟨render x, rfl⟩
      | cons y more =>
          rcases ih with ⟨front, hfront⟩
          refine ⟨render x ++ ',' :: ' ' :: front, ?_⟩
          rw [listed, hfront, List.append_assoc]
          · rfl
          · exact List.cons_ne_nil y more

/-- A header that was rendered has no white space at its ends. -/
theorem isBlank_ends_header {header : HeaderForm} (h : header.WellFormed) :
    (∀ c ∈ header.render.head?, Text.isBlank c = false) ∧
      ∀ c ∈ header.render.getLast?, Text.isBlank c = false := by
  rcases header with ⟨t, options⟩
  rcases h with ⟨htag, _⟩
  have hblank := isBlank_of_mem_tag htag
  refine ⟨fun c hc => ?_, fun c hc => ?_⟩
  · rw [HeaderForm.render, List.head?_append_of_ne_nil _ (tag_ne_nil htag)] at hc
    exact hblank c (List.mem_of_mem_head? hc)
  · cases options with
    | nil =>
        rw [HeaderForm.render, parenthesized, List.append_nil] at hc
        exact hblank c (List.mem_of_mem_getLast? hc)
    | cons option options =>
        -- The header ends with the parenthesis of its options.
        rcases exists_listed_eq OptionForm.render (option :: options) with ⟨front, hfront⟩
        have hend :
            HeaderForm.render ⟨t, option :: options⟩ = (t.render ++ '(' :: front) ++ [')'] := by
          rw [HeaderForm.render, parenthesized, hfront, List.append_assoc]
          · rfl
          · exact List.cons_ne_nil option options
        rw [hend, List.getLast?_concat] at hc
        cases hc
        decide

end Rendering

namespace Grammar

/-- A header that was rendered is read as its tag and the options that it gives. -/
theorem readHeader_render (place : Place) {header : HeaderForm} {values : List OptionValue}
    (h : header.WellFormed)
    (hvalues : List.Forall₂ OptionForm.StandsFor header.options values) :
    readHeader header.render place = .ok (header.tag, .ofValues values) :=
  readHeader_eq_ok place (headerText_render h (exists_of_forall₂ hvalues)) hvalues

/-- A template that was rendered is read as what its forms stand for. -/
theorem readContent_render (place : Place) {forms : List ItemForm} {content : Content}
    (h : ∀ form ∈ forms, form.WellFormed)
    (hmaximal : forms.IsChain fun a b => ¬ (a.IsText ∧ b.IsText))
    (hcontent : List.Forall₂ ItemForm.StandsFor forms content) :
    readContentChars (template forms) place = .ok content :=
  (readContentChars_eq_ok_iff _ place content).2
    ⟨_, segmentation_render h (exists_of_forall₂ hcontent) hmaximal,
      List.forall₂_map_left_iff.2 hcontent⟩

/-- The labels among options are names if those in their forms are. -/
theorem isName_of_mem_labels {forms : List OptionForm} {values : List OptionValue}
    (h : ∀ form ∈ forms, form.WellFormed)
    (hvalues : List.Forall₂ OptionForm.StandsFor forms values) :
    ∀ label ∈ values.filterMap hashtag?, IsName label.toList :=
  fun _ hlabel => h _ (hashtag_mem_of_label hvalues hlabel)

/-- Reading a rule undoes rendering: if the options and the template mean something, the
    header holds no arrow, the template has no white space at its ends, the last guard is
    an expression and the last frequency is not negative, then the rule is read, and it is
    the one that was rendered. The text of its tag names the same tag on its own. -/
theorem readRule_render (place : Place) (header : HeaderForm) (forms : List ItemForm)
    (values : List OptionValue) (content : Content) (hheader : header.WellFormed)
    (hforms : ∀ form ∈ forms, form.WellFormed)
    (hmaximal : forms.IsChain fun a b => ¬ (a.IsText ∧ b.IsText))
    (hvalues : List.Forall₂ OptionForm.StandsFor header.options values)
    (hcontent : List.Forall₂ ItemForm.StandsFor forms content)
    (harrow : ¬ ['-', '>'] <:+: header.render)
    (hfront : ∀ c ∈ (template forms).head?, Text.isBlank c = false)
    (hback : ∀ c ∈ (template forms).getLast?, Text.isBlank c = false)
    (hguard : ∀ text ∈ last guard? values, ∃ e, Expression.parse text = .ok e)
    (hfrequency : ∀ x ∈ last frequency? values, 0 ≤ x) :
    Tag.parse (String.ofList header.tag.render) = header.tag ∧
      ∃ rule, readRule (String.ofList (Rendering.rule header forms)) place = .ok rule ∧
        Describes header.tag values content rule := by
  refine ⟨Tag.parse_render hheader.1, ?_⟩
  -- The line is cut where the header ends, and the spaces of the arrow go.
  have hsplit : splitArrow? (Rendering.rule header forms) =
      some (header.render ++ [' '], ' ' :: template forms) := by
    have hcut := splitArrow?_append _ (' ' :: template forms) (not_infix_append_space harrow)
    rwa [List.append_assoc] at hcut
  have hspace : ∀ c ∈ [' '], Text.isBlank c = true := List.all_eq_true.1 (by decide)
  have hleft : Text.strip (header.render ++ [' ']) = header.render :=
    Text.strip_append [] [' '] nofun hspace (isBlank_ends_header hheader).1
      (isBlank_ends_header hheader).2
  have hright : Text.strip (' ' :: template forms) = template forms := by
    have hstrip := Text.strip_append [' '] [] hspace nofun hfront hback
    rwa [List.append_nil] at hstrip
  -- Either side is read for itself, and what they give makes the rule.
  rcases Rule.build_ofValues header.tag content (isName_of_mem_labels hheader.2 hvalues) hguard
    hfrequency with ⟨rule, hrule, hdescribes⟩
  refine ⟨rule, ?_, hdescribes⟩
  rw [readRule, String.toList_ofList, readRuleChars, hsplit]
  dsimp only
  rw [hleft, hright, readHeader_render place hheader hvalues]
  refine (bind_eq_ok_iff _ _ _).2 ⟨_, rfl, ?_⟩
  refine (bind_eq_ok_iff _ _ _).2 ⟨_, readContent_render place hforms hmaximal hcontent, ?_⟩
  rw [hrule]

/-- A rule with a context, a priority that is given twice, a string with a quote in it,
    and a bracket that is escaped. -/
theorem readRule_render_twoPriorities :
    ∃ rule, readRule
        "big.cat(priority=2, #t, priority=-1, if=\"a?\", as k) -> \\[ [dog #x Pluralise(\"\\\"s\")]"
        ⟨none, none⟩ = .ok rule ∧
      Describes ⟨"cat", some "big"⟩
        [.priority 2, .hashtag "t", .priority (-1), .guard "a?", .watcher (.capture "k")]
        [.text "[ ", .reference ⟨⟨"dog", none⟩, ["x"], [.pluralise "" "\"s"]⟩] rule := by
  have hfilter : WatcherForm.StandsFor (.filter "Pluralise" ["\"s"]) (.pluralise "" "\"s") :=
    .filter _ _ _ (.plural _ _ (Or.inr (by decide)))
  have htwo : OptionForm.StandsFor (.priority ['2']) (.priority 2) :=
    .priority _ _ (.intro [] ['2'] false .omitted ⟨nofun, List.all_eq_true.1 (by decide)⟩)
      (by decide)
  have hone : OptionForm.StandsFor (.priority ['-', '1']) (.priority (-1)) :=
    .priority _ _ (.intro ['-'] ['1'] true .minus ⟨nofun, List.all_eq_true.1 (by decide)⟩)
      (by decide)
  have hmaximal : ∀ ref labels ws, ¬ (ItemForm.IsText (.text "[ ") ∧
      ItemForm.IsText (.reference ref labels ws)) := by
    rintro ref labels ws ⟨_, s, hs⟩
    cases hs
  exact (readRule_render ⟨none, none⟩
    ⟨⟨"cat", some "big"⟩, [.priority ['2'], .hashtag "t", .priority ['-', '1'], .guard "a?",
      .watcher (.capture "k")]⟩
    [.text "[ ", .reference ⟨"dog", none⟩ ["x"] [.filter "Pluralise" ["\"s"]]] _ _ (by decide)
    (by decide) (List.isChain_pair.2 (hmaximal _ _ _))
    (.cons htwo (.cons (.hashtag "t") (.cons hone (.cons (.guard "a?")
      (.cons (.watcher _ _ (.capture "k")) .nil)))))
    (.cons (.text _) (.cons (.reference _ _ _ _ (.cons hfilter .nil)) .nil))
    (by decide +kernel) (fun c hc => by cases hc; decide) (fun c hc => by cases hc; decide)
    (fun text htext => by cases htext; exact ⟨_, rfl⟩)
    (fun x hx => absurd hx (Option.not_mem_none x))).2

end Grammar

end TextGrammar
