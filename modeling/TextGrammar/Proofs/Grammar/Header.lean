import TextGrammar.Proofs.Grammar.Literal
import TextGrammar.Proofs.Grammar.Reading

/-!
# Headers

That a header is read as the tag and the options which it spells.

The words of fields are no filters in a header, whatever follows them, so an option
that is a watcher has another name.

## Main definitions

* `Spelling.NamesField`: The words of fields.
* `Spelling.OptionText`: Options.
* `Spelling.HeaderText`: Headers.

## Theorems

* `Reader.complete_option`: Options are read.
* `Reader.header?_eq_ok`: Headers are read.
-/

namespace TextGrammar

namespace Spelling

/-- The words with which the fields of a header start. -/
def NamesField (name : String) : Prop := name ∈ ["priority", "min", "freq", "if"]

/-- An option: a field with its value, a label, or a watcher. -/
inductive OptionText : OptionForm → List Char → List Char → Prop
  | priority (literal : List Char) (i : Int) (cs middle behind rest : List Char)
      (hword : Word "priority" cs middle) (hmark : Mark '=' middle behind)
      (hliteral : IsInteger literal i) (hspaced : Spaced literal behind rest) :
      OptionText (.priority literal) cs rest
  | minPriority (literal : List Char) (i : Int) (cs middle behind rest : List Char)
      (hword : Word "min" cs middle) (hmark : Mark '=' middle behind)
      (hliteral : IsInteger literal i) (hspaced : Spaced literal behind rest) :
      OptionText (.minPriority literal) cs rest
  | frequency (literal : List Char) (x : Binary64) (cs middle behind rest : List Char)
      (hword : Word "freq" cs middle) (hmark : Mark '=' middle behind)
      (hliteral : IsNumber literal x) (hspaced : Spaced literal behind rest) :
      OptionText (.frequency literal) cs rest
  | guard (text : String) (cs middle behind rest : List Char) (hword : Word "if" cs middle)
      (hmark : Mark '=' middle behind) (hquoted : Quoted text behind rest) :
      OptionText (.guard text) cs rest
  | hashtag (label : String) (cs rest : List Char) (hlabel : Label label cs rest) :
      OptionText (.hashtag label) cs rest
  | watcher (form : WatcherForm) (cs rest : List Char) (hform : WatcherText form cs rest)
      (hfield : ∀ name args, form = .filter name args → ¬ NamesField name) :
      OptionText (.watcher form) cs rest

/-- A header: a tag, and options in parentheses. -/
def HeaderText (header : HeaderForm) (cs : List Char) : Prop :=
  ∃ middle rest, TagName header.tag cs middle ∧
    Parenthesized OptionText header.options middle rest ∧ ∀ c ∈ rest, Token.isIgnored c = true

theorem OptionText.next? {form : OptionForm} {cs rest : List Char} (h : OptionText form cs rest) :
    Spelling.next? cs = some '#' ∨ (Spelling.next? cs).any Token.isNameStart = true := by
  cases h with
  | priority _ _ _ _ _ _ hword _ _ _ => exact Or.inr hword.next?
  | minPriority _ _ _ _ _ _ hword _ _ _ => exact Or.inr hword.next?
  | frequency _ _ _ _ _ _ hword _ _ _ => exact Or.inr hword.next?
  | guard _ _ _ _ _ hword _ _ => exact Or.inr hword.next?
  | hashtag _ _ _ hlabel => exact Or.inl hlabel.next?
  | watcher _ _ _ hform _ => exact Or.inr hform.next?

theorem Spaced.length_le {raw cs rest : List Char} (h : Spaced raw cs rest) :
    rest.length ≤ cs.length := by
  rcases h with ⟨blanks, _, rfl⟩
  simp only [List.length_append]
  omega

theorem OptionText.length_lt {form : OptionForm} {cs rest : List Char}
    (h : OptionText form cs rest) : rest.length < cs.length := by
  cases h with
  | priority _ _ _ middle behind _ hword hmark _ hspaced =>
      exact hspaced.length_le.trans_lt (hmark.length_lt.trans hword.length_lt)
  | minPriority _ _ _ middle behind _ hword hmark _ hspaced =>
      exact hspaced.length_le.trans_lt (hmark.length_lt.trans hword.length_lt)
  | frequency _ _ _ middle behind _ hword hmark _ hspaced =>
      exact hspaced.length_le.trans_lt (hmark.length_lt.trans hword.length_lt)
  | guard _ _ middle behind _ hword hmark hquoted =>
      exact hquoted.length_lt.trans (hmark.length_lt.trans hword.length_lt)
  | hashtag _ _ _ hlabel => exact hlabel.length_lt
  | watcher _ _ _ hform _ => exact hform.length_lt

/-- A number ends where an option does. -/
theorem endsNumber_of_next? {rest : List Char}
    (h : next? rest = some ',' ∨ next? rest = some ')') : EndsNumber rest := by
  intro c hc
  cases rest with
  | nil => exact absurd hc nofun
  | cons d rest =>
      cases hc
      -- White space ends a number, and so does the mark that comes next without it.
      by_cases hignored : Token.isIgnored c = true
      · have hmem := mem_of_isIgnored hignored
        simp only [List.mem_cons, List.not_mem_nil, or_false] at hmem
        rcases hmem with rfl | rfl | rfl | rfl | rfl
        all_goals decide
      · rw [next?, List.dropWhile_cons_of_neg hignored] at h
        rcases h with h | h
        · cases h
          decide
        · cases h
          decide

theorem isIgnored_of_isDigit {c : Char} (h : c.isDigit = true) : Token.isIgnored c = false :=
  isIgnored_eq_false (by decide) h

/-- A sign and what stands behind it are no white space. -/
theorem IsSign.isIgnored {sign cs : List Char} {negative : Bool} (h : IsSign sign negative)
    (hcs : ∀ c ∈ cs.head?, Token.isIgnored c = false) :
    ∀ c ∈ (sign ++ cs).head?, Token.isIgnored c = false := by
  cases h with
  | omitted => exact hcs
  | plus =>
      intro c hc
      cases hc
      decide
  | minus =>
      intro c hc
      cases hc
      decide

theorem IsDigits.isIgnored {digits : List Char} (h : IsDigits digits) (rest : List Char) :
    ∀ c ∈ (digits ++ rest).head?, Token.isIgnored c = false := by
  rcases h.exists_cons with ⟨d, more, rfl, hd⟩
  intro c hc
  cases hc
  exact isIgnored_of_isDigit hd

theorem IsInteger.isIgnored {literal : List Char} {i : Int} (h : IsInteger literal i)
    (rest : List Char) : ∀ c ∈ (literal ++ rest).head?, Token.isIgnored c = false := by
  cases h with
  | intro sign digits negative hsign hdigits =>
      rw [List.append_assoc]
      exact hsign.isIgnored (hdigits.isIgnored rest)

theorem IsNumber.isIgnored {literal : List Char} {x : Binary64} (h : IsNumber literal x)
    (rest : List Char) : ∀ c ∈ (literal ++ rest).head?, Token.isIgnored c = false := by
  cases h with
  | intro sign mantissa whole fraction exponent negative power hsign hmantissa hexponent =>
      rw [List.append_assoc, List.append_assoc]
      refine hsign.isIgnored ?_
      rcases hmantissa.exists_cons with ⟨d, more, rfl, hd | rfl⟩
      · intro c hc
        cases hc
        exact isIgnored_of_isDigit hd
      · intro c hc
        cases hc
        decide

end Spelling

open Spelling

namespace Reader

/-- A literal is read if its class of tokens takes it. -/
theorem token_of_spaced {read? : List Char → Option (List Char × List Char)}
    {literal rest : List Char} {c : Cursor} (h : Spaced literal c.rest rest)
    (hraw : ∀ x ∈ (literal ++ rest).head?, Token.isIgnored x = false)
    (hread : read? (literal ++ rest) = some (literal, rest)) :
    token read? c = .ok (literal, ⟨c.ahead, rest⟩) := by
  refine (token_eq_ok _ _ _ _).2 ⟨?_, rfl⟩
  rw [← hread]
  exact congrArg read? (h.ahead hraw)

/-- An option that starts with a name is read as the name says. -/
theorem option_of_name {c c₁ : Cursor} {word : String} (h : name c = .ok (word, c₁)) :
    option c = (
      if word = "priority" then do
        mark '='
        return .priority (← token Token.integer?)
      else if word = "min" then do
        mark '='
        return .minPriority (← token Token.integer?)
      else if word = "freq" then do
        mark '='
        return .frequency (← token Token.number?)
      else if word = "if" then do
        mark '='
        return .guard (← quoted)
      else do
        return .watcher (← watcherAfter word) : Reader OptionForm) c₁ := by
  have hword : Word word c.rest c₁.rest := sound_name _ _ _ h
  have hne : Spelling.next? c.rest ≠ some '#' := ne_of_isNameStart (by decide) hword.next?
  change (if Spelling.next? c.rest = some '#' then _ else _ : Reader OptionForm) c = _
  rw [if_neg hne]
  exact bind_of_ok h

/-- The word of a field and its equals sign are read one after the other. -/
theorem read_field {field : String} {c : Cursor} {middle behind : List Char}
    (hword : Word field c.rest middle) (hmark : Mark '=' middle behind) :
    ∃ c₁ c₂, name c = .ok (field, c₁) ∧ mark '=' c₁ = .ok ((), c₂) ∧ c₂.rest = behind := by
  rcases complete_name c field middle hword trivial with ⟨c₁, hc₁, rfl⟩
  rcases complete_mark (by decide) c₁ () behind hmark trivial with ⟨c₂, hc₂, rfl⟩
  exact ⟨c₁, c₂, hc₁, hc₂, rfl⟩

/-- So are they with the literal of a number behind them. -/
theorem read_literal {field : String} {read? : List Char → Option (List Char × List Char)}
    {literal : List Char} {c : Cursor} {middle behind rest : List Char}
    (hword : Word field c.rest middle) (hmark : Mark '=' middle behind)
    (hspaced : Spaced literal behind rest)
    (hraw : ∀ x ∈ (literal ++ rest).head?, Token.isIgnored x = false)
    (hread : read? (literal ++ rest) = some (literal, rest)) :
    ∃ c₁ c₂ d, name c = .ok (field, c₁) ∧ mark '=' c₁ = .ok ((), c₂) ∧
      token read? c₂ = .ok (literal, d) ∧ d.rest = rest := by
  rcases read_field hword hmark with ⟨c₁, c₂, hc₁, hc₂, rfl⟩
  exact ⟨c₁, c₂, _, hc₁, hc₂, token_of_spaced hspaced hraw hread, rfl⟩

theorem complete_option : Complete option OptionText fun o => o = some ',' ∨ o = some ')' := by
  intro c form rest h hfollow
  -- A comma or a parenthesis goes on with no number, and opens no arguments.
  have hnumber : EndsNumber rest := endsNumber_of_next? hfollow
  have hdigit : ∀ x ∈ rest.head?, x.isDigit = false := fun x hx => (hnumber x hx).1
  cases h with
  | priority literal i _ middle behind _ hword hmark hliteral hspaced =>
      rcases read_literal hword hmark hspaced (hliteral.isIgnored rest)
        (Token.integer?_append hliteral hdigit) with ⟨c₁, c₂, d, hc₁, hc₂, hd, hrest⟩
      exact ⟨d, (option_of_name hc₁).trans ((bind_of_ok hc₂).trans (bind_of_ok hd)), hrest⟩
  | minPriority literal i _ middle behind _ hword hmark hliteral hspaced =>
      rcases read_literal hword hmark hspaced (hliteral.isIgnored rest)
        (Token.integer?_append hliteral hdigit) with ⟨c₁, c₂, d, hc₁, hc₂, hd, hrest⟩
      exact ⟨d, (option_of_name hc₁).trans ((bind_of_ok hc₂).trans (bind_of_ok hd)), hrest⟩
  | frequency literal x _ middle behind _ hword hmark hliteral hspaced =>
      rcases read_literal hword hmark hspaced (hliteral.isIgnored rest)
        (Token.number?_append hliteral hnumber) with ⟨c₁, c₂, d, hc₁, hc₂, hd, hrest⟩
      exact ⟨d, (option_of_name hc₁).trans ((bind_of_ok hc₂).trans (bind_of_ok hd)), hrest⟩
  | guard text _ middle behind _ hword hmark hquoted =>
      rcases read_field hword hmark with ⟨c₁, c₂, hc₁, hc₂, rfl⟩
      rcases complete_quoted c₂ text rest hquoted trivial with ⟨d, hd, rfl⟩
      refine ⟨d, (option_of_name hc₁).trans ?_, rfl⟩
      exact (bind_of_ok hc₂).trans (bind_of_ok hd)
  | hashtag label _ _ hlabel =>
      rcases complete_hashtag c label rest hlabel trivial with ⟨d, hd, rfl⟩
      refine ⟨d, ?_, rfl⟩
      change (if Spelling.next? c.rest = some '#' then _ else _ : Reader OptionForm) c = _
      rw [if_pos hlabel.next?]
      exact bind_of_ok hd
  | watcher form _ _ hform hfield =>
      have hparenthesis : Spelling.next? rest ≠ some '(' := by
        rcases hfollow with h | h
        · rw [h]
          decide
        · rw [h]
          decide
      rcases complete_watcherAfter hform hparenthesis with ⟨word, middle, hword, hname, hafter⟩
      rcases complete_name c word middle hword trivial with ⟨c₁, hc₁, rfl⟩
      rcases hafter c₁ rfl with ⟨d, hd, rfl⟩
      -- The words of fields are taken, but neither the capture word nor a filter is one.
      have hno : ¬ NamesField word := by
        rcases hname with rfl | ⟨args, hargs⟩
        · unfold NamesField
          decide
        · exact hfield word args hargs
      simp only [NamesField, List.mem_cons, List.not_mem_nil, or_false, not_or] at hno
      rcases hno with ⟨hpriority, hmin, hfreq, hif⟩
      refine ⟨d, (option_of_name hc₁).trans ?_, rfl⟩
      rw [if_neg hpriority, if_neg hmin, if_neg hfreq, if_neg hif]
      exact bind_of_ok hd

theorem complete_options :
    Complete (parenthesized option) (Parenthesized OptionText) (· ≠ some '(') := by
  refine complete_parenthesized complete_option (fun _ _ _ => OptionText.length_lt) ?_
  intro form cs rest h
  rcases h.next? with hnext | hnext
  · rw [hnext]
    decide
  · exact ne_of_isNameStart (by decide) hnext

theorem next?_of_isIgnored {rest : List Char} (h : ∀ c ∈ rest, Token.isIgnored c = true) :
    Spelling.next? rest = none := by
  rw [Spelling.next?, List.dropWhile_eq_nil_iff.2 h]
  rfl

theorem header?_eq_ok {header : HeaderForm} {cs : List Char} (h : HeaderText header cs) :
    header? cs = .ok header := by
  rcases header with ⟨t, options⟩
  rcases h with ⟨middle, rest, htag, hoptions, hrest⟩
  dsimp only at htag hoptions
  have hend : Spelling.next? rest = none := next?_of_isIgnored hrest
  -- The tag is over, because no dot comes next but a parenthesis or nothing.
  have hdot : Spelling.next? middle ≠ some '.' := by
    cases hoptions with
    | omitted => exact hend ▸ nofun
    | empty _ _ _ hopen _ =>
        rw [hopen.next? (by decide)]
        decide
    | listed _ _ _ _ hopen _ =>
        rw [hopen.next? (by decide)]
        decide
  rcases complete_tag (Cursor.start cs) t middle htag hdot with ⟨c₁, hc₁, rfl⟩
  rcases complete_options c₁ options rest hoptions (hend ▸ nofun) with ⟨c₂, hc₂, rfl⟩
  have hread : (do return HeaderForm.mk (← tag) (← parenthesized option) : Reader HeaderForm)
      (Cursor.start cs) = .ok (⟨t, options⟩, c₂) := (bind_of_ok hc₁).trans (bind_of_ok hc₂)
  have hahead : c₂.ahead = [] := List.dropWhile_eq_nil_iff.2 hrest
  rw [header?, hread]
  dsimp only
  rw [hahead]

end Reader

end TextGrammar
