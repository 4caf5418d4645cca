import TextGrammar.Expression.Parsing
import TextGrammar.Proofs.Grammar.Meaning
import TextGrammar.Proofs.Number.ReadBack

/-!
# Text of Expressions

That the text of an expression is read as that expression.

An expression is read from words, and its own text has a word for each of its
instructions. Where an instruction is no number, that word is the one it was read from,
and so it is read in the same way again, whatever it looks like. A number is written anew,
perhaps with other characters, but numbers are what is tried first, and the new word is
read as the same number.

It remains that words are put together with spaces and taken apart at white space of any
kind. No word holds any, those that were read because they were cut there and those of
numbers because they are written in ASCII.

## Theorems

* `Text.words_intercalate`: Words with spaces between them are those words.
* `Instruction.ofWord?_cases`: An instruction is a number, or is written as it was read.
* `Instruction.ofWord?_toText`: An instruction is read back from its text.
* `Expression.parse_eq_ok_iff`: An expression is read word by word.
* `Expression.parse_toText`: An expression is read back from its text.
-/

namespace TextGrammar

namespace Text

/-- Characters without white space go to the word that is being collected. -/
theorem wordsFrom_append {w : List Char} (hw : ∀ c ∈ w, isBlank c = false)
    (rest run : List Char) : wordsFrom (w ++ rest) run = wordsFrom rest (w.reverse ++ run) := by
  induction w generalizing run with
  | nil => rfl
  | cons c w ih =>
      rcases List.forall_mem_cons.1 hw with ⟨hc, hw⟩
      rw [List.cons_append, wordsFrom, hc, if_neg Bool.false_ne_true, ih hw, List.reverse_cons,
        List.append_assoc]
      rfl

theorem isBlank_of_mem_wordsFrom {cs run : List Char} (hrun : ∀ c ∈ run, isBlank c = false) :
    ∀ w ∈ wordsFrom cs run, ∀ c ∈ w, isBlank c = false := by
  have hreverse : ∀ c ∈ run.reverse, isBlank c = false := fun c hc => hrun c (List.mem_reverse.1 hc)
  induction cs generalizing run with
  | nil =>
      cases run with
      | nil => exact List.forall_mem_nil _
      | cons d run => exact List.forall_mem_singleton.2 hreverse
  | cons c rest ih =>
      have hempty := ih (List.forall_mem_nil _) (List.forall_mem_nil _)
      rw [wordsFrom]
      by_cases hc : isBlank c = true
      · rw [if_pos hc]
        split
        · exact hempty
        · exact List.forall_mem_cons.2 ⟨hreverse, hempty⟩
      · rw [if_neg hc]
        have hmore : ∀ d ∈ c :: run, isBlank d = false :=
          List.forall_mem_cons.2 ⟨Bool.eq_false_iff.2 hc, hrun⟩
        exact ih hmore fun d hd => hmore d (List.mem_reverse.1 hd)

/-- A word is not empty and holds no white space. -/
def IsWord (w : List Char) : Prop := w ≠ [] ∧ ∀ c ∈ w, isBlank c = false

theorem isWord_of_mem_words (cs : List Char) : ∀ w ∈ words cs, IsWord w := fun w hw =>
  ⟨words_ne_nil cs w hw, isBlank_of_mem_wordsFrom (List.forall_mem_nil _) w hw⟩

/-- Words with spaces between them are taken apart at the spaces. -/
theorem words_intercalate {ws : List (List Char)} (h : ∀ w ∈ ws, IsWord w) :
    words ([' '].intercalate ws) = ws := by
  induction ws with
  | nil => rfl
  | cons w ws ih =>
      rcases List.forall_mem_cons.1 h with ⟨⟨hne, hw⟩, hws⟩
      have hmore := ih hws
      unfold words at hmore ⊢
      have hrun : w.reverse.isEmpty = false := by
        rwa [List.isEmpty_eq_false_iff, ne_eq, List.reverse_eq_nil_iff]
      cases ws with
      | nil =>
          -- The last word ends with the text.
          have hlast := wordsFrom_append hw [] []
          rw [List.append_nil, List.append_nil] at hlast
          rw [List.intercalate_singleton, hlast]
          cases hreverse : w.reverse with
          | nil => exact absurd (List.reverse_eq_nil_iff.1 hreverse) hne
          | cons c run =>
              rw [wordsFrom, ← hreverse, List.reverse_reverse]
              exact fun h => List.cons_ne_nil c run h
      | cons next more =>
          have hspace : isBlank ' ' = true := by decide
          rw [List.intercalate_cons_cons, List.append_assoc, wordsFrom_append hw, List.append_nil,
            List.singleton_append, wordsFrom, if_pos hspace, hrun, if_neg Bool.false_ne_true,
            List.reverse_reverse, hmore]

end Text

namespace Instruction

variable {word : String} {i : Instruction}

/-- An instruction that was read is a number, or is written as it was read. -/
theorem ofWord?_cases (h : ofWord? word = some i) :
    (∃ x, Numeral.read? word = some x ∧ i = .literal (.number x)) ∨
      ((∀ d, i ≠ .literal d) ∧ i.toText = word) := by
  unfold ofWord? at h
  cases hnumber : Numeral.read? word with
  | some x =>
      rw [hnumber] at h
      cases h
      exact Or.inl ⟨_, rfl, rfl⟩
  | none =>
      rw [hnumber] at h
      dsimp only at h
      refine Or.inr ?_
      split at h
      · rename_i hword
        cases h
        exact ⟨nofun, (eq_of_beq hword).symm⟩
      split at h
      · rename_i op hop
        cases h
        have hsymbol := List.find?_some hop
        exact ⟨nofun, eq_of_beq hsymbol⟩
      split at h
      · rename_i c rest hreverse
        cases h
        refine ⟨nofun, String.toList_inj.1 ?_⟩
        -- What was in front of the question mark is put there again.
        have hword := congrArg List.reverse hreverse
        rw [List.reverse_reverse, List.reverse_cons] at hword
        rw [toText, String.toList_append, String.toList_ofList, hword]
        rfl
      · exact absurd h nofun

/-- An instruction is read back from its text, unless it is the negative zero. -/
theorem ofWord?_toText (h : ofWord? word = some i)
    (hzero : i ≠ .literal (.number (.signedZero true))) : ofWord? i.toText = some i := by
  rcases ofWord?_cases h with ⟨x, hx, rfl⟩ | ⟨_, hword⟩
  · have hread : Numeral.read? x.display = some x.anew :=
      Numeral.read?_display fun hx => hzero (by rw [hx])
    rw [toText, Datum.toText, ofWord?, hread, Numeral.anew_of_read? hx]
  · rwa [hword]

/-- The text of an instruction that was read is a word. -/
theorem isWord_toText (h : ofWord? word = some i) (hword : Text.IsWord word.toList)
    (hzero : i ≠ .literal (.number (.signedZero true))) : Text.IsWord i.toText.toList := by
  rcases ofWord?_cases h with ⟨x, _, rfl⟩ | ⟨_, htext⟩
  · have hx : x ≠ .signedZero true := fun hx => hzero (by rw [hx])
    rw [toText, Datum.toText]
    refine ⟨fun hnil => ?_, fun c hc => (Numeral.isPlain_of_mem_display hx c hc).1⟩
    -- The empty text is no number.
    have hread := Numeral.read?_display hx
    rw [Numeral.read?, hnil] at hread
    cases hread
  · rwa [htext]

/-- An instruction that was read equals itself, unless it is not a number. -/
theorem equal_self (h : ofWord? word = some i) (hnan : i ≠ .literal (.number .nan)) :
    i.equal i = true := by
  cases i with
  | get name => exact beq_self_eq_true name
  | not => rfl
  | binary op => exact beq_self_eq_true op
  | literal d =>
      rcases ofWord?_cases h with ⟨x, hread, hx⟩ | ⟨hno, _⟩
      · cases hx
        cases x with
        | nan object =>
            -- What is read is a fresh object.
            cases Numeral.anew_of_read? hread
            exact absurd rfl hnan
        | infinity negative =>
            exact Bool.or_eq_true_iff.2 (Or.inl (beq_self_eq_true negative))
        | finite negative units valid =>
            exact Bool.or_eq_true_iff.2 (Or.inl (decide_eq_true rfl))
      · exact absurd rfl (hno d)

end Instruction

namespace Expression

theorem ofWords_eq_ok_iff (ws : List String) (is : List Instruction) :
    ofWords ws = .ok is ↔ List.Forall₂ (fun w i => Instruction.ofWord? w = some i) ws is := by
  induction ws generalizing is with
  | nil =>
      rw [List.forall₂_nil_left_iff, ofWords, Except.ok.injEq, eq_comm]
  | cons w ws ih =>
      rw [ofWords, List.forall₂_cons_left_iff]
      cases hw : Instruction.ofWord? w with
      | none => exact ⟨nofun, fun ⟨_, _, h, _⟩ => nomatch h⟩
      | some i =>
          dsimp only
          cases hws : ofWords ws with
          | error other =>
              refine ⟨nofun, fun ⟨_, rest, _, hrest, _⟩ => ?_⟩
              exact absurd (hws.symm.trans ((ih rest).2 hrest)) nofun
          | ok rest =>
              constructor
              · intro h
                cases h
                exact ⟨i, rest, rfl, (ih rest).1 hws, rfl⟩
              · rintro ⟨_, _, h, hrest, rfl⟩
                cases h
                cases hws.symm.trans ((ih _).2 hrest)
                rfl

/-- An expression is read word by word. -/
theorem parse_eq_ok_iff (text : String) (e : Expression) :
    parse text = .ok e ↔
      List.Forall₂ (fun word i => Instruction.ofWord? word = some i)
        ((Text.words text.toList).map String.ofList) e.instructions := by
  rw [← ofWords_eq_ok_iff, parse]
  cases ofWords ((Text.words text.toList).map String.ofList) with
  | error w => exact ⟨nofun, nofun⟩
  | ok is =>
      rcases e with ⟨is'⟩
      rw [Except.ok.injEq, Except.ok.injEq, mk.injEq]

/-- Each instruction of an expression that was read is read from a word. -/
theorem exists_word_of_mem {text : String} {e : Expression} (h : parse text = .ok e) :
    ∀ i ∈ e.instructions, ∃ word : String,
      Text.IsWord word.toList ∧ Instruction.ofWord? word = some i := by
  have hread := (parse_eq_ok_iff text e).1 h
  rw [List.forall₂_map_left_iff] at hread
  intro i hi
  have hboth := (List.forall₂_and_left _ _).2 ⟨Text.isWord_of_mem_words text.toList, hread⟩
  rcases Grammar.exists_of_forall₂ hboth.flip i hi with ⟨w, hw, hi⟩
  exact ⟨String.ofList w, by rwa [String.toList_ofList], hi⟩

/-- The words of the text of an expression are the texts of its instructions. -/
theorem words_toText {e : Expression} (h : ∀ i ∈ e.instructions, Text.IsWord i.toText.toList) :
    (Text.words e.toText.toList).map String.ofList = e.instructions.map Instruction.toText := by
  have hwords : ∀ w ∈ (e.instructions.map Instruction.toText).map String.toList,
      Text.IsWord w := by
    simpa only [List.forall_mem_map] using h
  rw [toText, String.toList_intercalate]
  refine (congrArg (List.map String.ofList) (Text.words_intercalate hwords)).trans ?_
  simp only [List.map_map, Function.comp_def, String.ofList_toList]

/-- An expression equals itself if all its instructions do. -/
theorem equal_self {e : Expression} (h : ∀ i ∈ e.instructions, i.equal i = true) :
    e.equal e = true := by
  rw [equal, Bool.and_eq_true, List.all_eq_true]
  refine ⟨beq_self_eq_true e.size, fun pair hpair => ?_⟩
  rcases List.mem_iff_getElem.1 hpair with ⟨n, hn, rfl⟩
  rw [List.getElem_zip]
  exact h _ (List.getElem_mem _)

/-- An expression that was read, and has no negative zero among its numbers, is read back
    from its text with the same instructions. It equals itself if all its numbers are
    numbers. A negative zero is written like the other zero, and so comes back as that. -/
theorem parse_toText (text : String) (e : Expression) (h : parse text = .ok e)
    (hzero : .literal (.number (.signedZero true)) ∉ e.instructions) :
    parse e.toText = .ok e ∧
      (.literal (.number .nan) ∉ e.instructions → e.equal e = true) := by
  have hword := exists_word_of_mem h
  refine ⟨?_, fun hnan => equal_self fun i hi => ?_⟩
  · have hwords : ∀ i ∈ e.instructions, Text.IsWord i.toText.toList := by
      intro i hi
      rcases hword i hi with ⟨word, hw, hread⟩
      exact Instruction.isWord_toText hread hw fun hi' => hzero (hi' ▸ hi)
    rw [parse_eq_ok_iff, words_toText hwords, List.forall₂_map_left_iff, List.forall₂_same]
    intro i hi
    rcases hword i hi with ⟨word, _, hread⟩
    exact Instruction.ofWord?_toText hread fun hi' => hzero (hi' ▸ hi)
  · rcases hword i hi with ⟨word, _, hread⟩
    exact Instruction.equal_self hread fun hi' => hnan (hi' ▸ hi)

/-- A number that is written with other characters than it was read from, beside names that
    look like that number and like an operator. -/
theorem parse_toText_rewritten :
    ∃ e : Expression,
      parse "1e2\u30001e2? +?\t+" = .ok e ∧
      .literal (.number (.signedZero true)) ∉ e.instructions ∧
      .literal (.number .nan) ∉ e.instructions ∧
      e.toText = "100 1e2? +? +" ∧ parse e.toText = .ok e ∧ e.equal e = true := by
  let hundred : Binary64 := .ofDecimal false ⟨1, 2⟩
  let e : Expression :=
    ⟨[.literal (.number hundred), .get "1e2", .get "+", .binary .add]⟩
  have hparse : parse "1e2\u30001e2? +?\t+" = .ok e := rfl
  have hzero : .literal (.number (.signedZero true)) ∉ e.instructions := by
    have hne : Binary64.signedZero true ≠ hundred := by decide +kernel
    simpa [e] using hne
  have hnan : .literal (.number .nan) ∉ e.instructions := by
    have hne : Binary64.nan ≠ hundred := by decide +kernel
    simpa [e] using hne
  have hread := parse_toText _ e hparse hzero
  exact ⟨e, hparse, hzero, hnan, by decide +kernel, hread.1, hread.2 hnan⟩

end Expression

end TextGrammar
