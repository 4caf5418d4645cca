import TextGrammar.Proofs.Text.Capitals
import TextGrammar.Watcher.Basic

/-!
# Texts as Sentences

What the sentence filter does to a text, and that it does nothing to a sentence.

The last character alone decides what becomes of the end. A mark that ends sentences stays,
a soft pause gives way to a period, and behind anything else a period is added. The first
character is capitalized after that, so it may be the soft pause that is already gone, or
the mark that stays and is its own capital.

Whatever the text was, what comes out ends with a mark that ends sentences and starts with a
capital. A second call finds the mark and adds nothing, and a capital has no other capital,
even where one character is capitalized by several.

## Main definitions

* `Sentence.Normalises`: How a sentence is made of a text.

## Theorems

* `Sentence.close_concat`: The end of a text by its last character.
* `Sentence.capitalize_capitalize`: A capital stays, whatever is put behind.
* `Sentence.close_cases`: What is taken off the end, and what is put there.
* `Sentence.sentence_sentence`: A sentence is a sentence of itself.
* `Watcher.sentence_normalises`: The sentence filter.
-/

namespace TextGrammar

namespace Sentence

/-- The end of a text is decided by its last character. -/
theorem close_concat (front : List Char) (last : Char) :
    close (front ++ [last]) =
      if isTerminal last then (front ++ [last], [])
      else if isSoftPause last then (front, ['.'])
      else (front ++ [last], ['.']) := by
  rw [close, List.getLast?_concat, List.dropLast_concat]

/-- A mark that ends sentences is one of three, and its own capital. -/
theorem uppercase_of_isTerminal {c : Char} (h : isTerminal c = true) : Text.uppercase c = [c] := by
  simp only [isTerminal, Bool.or_eq_true, beq_iff_eq] at h
  rcases h with (rfl | rfl) | rfl
  · decide +kernel
  · decide +kernel
  · decide +kernel

/-- Only the first character is looked at. -/
theorem capitalize_eq (cs : List Char) :
    capitalize cs = (cs.take 1).flatMap Text.uppercase ++ cs.drop 1 := by
  cases cs with
  | nil => rfl
  | cons c rest =>
      rw [capitalize, List.take_succ_cons, List.take_zero, List.flatMap_singleton]
      rfl

/-- A capital stays, whatever is put behind the text. Where there is no text to be
    capitalized, what is put there comes first itself. -/
theorem capitalize_capitalize (cs ending : List Char) (hending : capitalize ending = ending) :
    capitalize (capitalize cs ++ ending) = capitalize cs ++ ending := by
  cases cs with
  | nil => exact hending
  | cons c rest =>
      rcases Text.uppercase_first c with ⟨first, more, hcapital, hfirst⟩
      rw [capitalize, hcapital]
      simp only [List.cons_append, capitalize, hfirst, List.nil_append]

/-- Capitalizing keeps the mark at the end. -/
theorem exists_capitalize_concat (front : List Char) {mark : Char} (h : isTerminal mark = true) :
    ∃ others, capitalize (front ++ [mark]) = others ++ [mark] := by
  cases front with
  | nil =>
      -- The mark comes first itself, and is its own capital.
      refine ⟨[], ?_⟩
      rw [List.nil_append, capitalize, uppercase_of_isTerminal h]
      rfl
  | cons c rest =>
      refine ⟨Text.uppercase c ++ rest, ?_⟩
      rw [List.cons_append, capitalize, List.append_assoc]

/-- A text that ends with a mark is a sentence once it is capitalized. -/
theorem close_of_isTerminal (front : List Char) {mark : Char} (h : isTerminal mark = true) :
    close (front ++ [mark]) = (front ++ [mark], []) := by
  rw [close_concat, if_pos h]

/-- What a text consists of, and what is added to it. A mark that ends sentences is kept, a
    soft pause gives way to a period, and any other character gets one. -/
theorem close_cases (cs : List Char) :
    (cs = [] ∧ close cs = ([], [])) ∨
      ∃ front last, cs = front ++ [last] ∧
        ((isTerminal last = true ∧ close cs = (cs, [])) ∨
          (isSoftPause last = true ∧ close cs = (front, ['.'])) ∨ close cs = (cs, ['.'])) := by
  rcases List.eq_nil_or_concat cs with rfl | ⟨front, last, rfl⟩
  · exact Or.inl ⟨rfl, rfl⟩
  · rw [List.concat_eq_append, close_concat]
    refine Or.inr ⟨front, last, rfl, ?_⟩
    by_cases hterminal : isTerminal last = true
    · exact Or.inl ⟨hterminal, if_pos hterminal⟩
    · rw [if_neg hterminal]
      by_cases hpause : isSoftPause last = true
      · exact Or.inr (Or.inl ⟨hpause, if_pos hpause⟩)
      · exact Or.inr (Or.inr (if_neg hpause))

/-- What is put behind a text is nothing or a period. -/
theorem ending_cases (cs : List Char) : (close cs).2 = [] ∨ (close cs).2 = ['.'] := by
  rcases close_cases cs with ⟨_, hclose⟩ | ⟨_, _, _, ⟨_, hclose⟩ | ⟨_, hclose⟩ | hclose⟩
  · exact Or.inl (by rw [hclose])
  · exact Or.inl (by rw [hclose])
  · exact Or.inr (by rw [hclose])
  · exact Or.inr (by rw [hclose])

/-- What is taken off a text is nothing or a soft pause. -/
theorem exists_pause (cs : List Char) :
    ∃ pause, cs = (close cs).1 ++ pause ∧
      (pause = [] ∨ ∃ mark, pause = [mark] ∧ isSoftPause mark = true) := by
  rcases close_cases cs with
    ⟨hnil, hclose⟩ | ⟨front, last, hcs, ⟨_, hclose⟩ | ⟨hpause, hclose⟩ | hclose⟩
  · exact ⟨[], by rw [hclose, hnil]; rfl, Or.inl rfl⟩
  · exact ⟨[], by rw [hclose, List.append_nil], Or.inl rfl⟩
  · exact ⟨[last], by rw [hclose]; exact hcs, Or.inr ⟨last, rfl, hpause⟩⟩
  · exact ⟨[], by rw [hclose, List.append_nil], Or.inl rfl⟩

/-- A text that is not empty ends as a sentence does. -/
theorem exists_mark {cs : List Char} (hne : cs ≠ []) :
    ∃ others mark, capitalize (close cs).1 ++ (close cs).2 = others ++ [mark] ∧
      isTerminal mark = true := by
  rcases close_cases cs with
    ⟨hnil, _⟩ | ⟨front, last, hcs, ⟨hterminal, hclose⟩ | ⟨_, hclose⟩ | hclose⟩
  · exact absurd hnil hne
  · rcases exists_capitalize_concat front hterminal with ⟨others, hothers⟩
    refine ⟨others, last, ?_, hterminal⟩
    rw [hclose, hcs, List.append_nil, hothers]
  · exact ⟨capitalize front, '.', by rw [hclose], rfl⟩
  · exact ⟨capitalize cs, '.', by rw [hclose], rfl⟩

/-- How a sentence is made of a text. Only the empty text makes an empty one, and every
    other one ends as a sentence does. To come there, at most one soft pause is taken off the
    end, the first character of what is left is put in upper case, and at most one period is
    added. A mark that ends sentences is kept as the end. -/
structure Normalises (text result : List Char) : Prop where
  eq_nil_iff : result = [] ↔ text = []
  ends : result ≠ [] → ∃ others mark, result = others ++ [mark] ∧ isTerminal mark = true
  changes : ∃ body pause ending, text = body ++ pause ∧
    (pause = [] ∨ ∃ mark, pause = [mark] ∧ isSoftPause mark = true) ∧
    (ending = [] ∨ ending = ['.']) ∧
    result = (body.take 1).flatMap Text.uppercase ++ body.drop 1 ++ ending ∧
    ∀ others mark, text = others ++ [mark] → isTerminal mark = true → pause = [] ∧ ending = []

theorem toList_sentence (text : String) :
    (sentence text).toList = capitalize (close text.toList).1 ++ (close text.toList).2 := by
  rw [sentence, String.toList_ofList]

theorem normalises_sentence (text : String) : Normalises text.toList (sentence text).toList := by
  rw [toList_sentence]
  have hnil : text.toList = [] →
      capitalize (close text.toList).1 ++ (close text.toList).2 = [] := by
    intro h
    rw [h]
    rfl
  constructor
  · -- What is made of a text that is not empty has a mark at its end.
    refine ⟨fun hresult => Classical.byContradiction fun hne => ?_, hnil⟩
    rcases exists_mark hne with ⟨others, mark, hmark, _⟩
    rw [hmark] at hresult
    exact List.append_ne_nil_of_right_ne_nil others (List.cons_ne_nil mark []) hresult
  · exact fun hresult => exists_mark fun h => hresult (hnil h)
  · rcases exists_pause text.toList with ⟨pause, hsplit, hpause⟩
    refine ⟨_, pause, _, hsplit, hpause, ending_cases text.toList, ?_, ?_⟩
    · rw [capitalize_eq]
    · intro others mark hmark hterminal
      rw [hmark, close_of_isTerminal others hterminal] at hsplit ⊢
      exact ⟨List.self_eq_append_right.1 hsplit, rfl⟩

/-- A sentence is a sentence of itself. -/
theorem sentence_sentence (text : String) : sentence (sentence text) = sentence text := by
  refine String.toList_inj.1 ?_
  rw [toList_sentence (sentence text)]
  by_cases hempty : text.toList = []
  · rw [toList_sentence, hempty]
    rfl
  · -- The mark at the end is found, so that nothing is taken off or added.
    rcases exists_mark hempty with ⟨others, mark, hmark, hterminal⟩
    have hclose : close (sentence text).toList = ((sentence text).toList, []) := by
      rw [toList_sentence, hmark, close_of_isTerminal others hterminal]
    rw [hclose, List.append_nil, toList_sentence]
    refine capitalize_capitalize _ _ ?_
    rcases ending_cases text.toList with hending | hending
    · rw [hending]
      rfl
    · rw [hending, capitalize, uppercase_of_isTerminal rfl]
      rfl

end Sentence

/-- The sentence filter makes of every text a sentence that differs from it at the first
    character and at the end only, and leaves that as it is when it is called once more.
    An empty text stays empty, and every other one comes to end with a mark. One soft
    pause gives way to it, and where there is a mark already, nothing is added. -/
theorem Watcher.sentence_normalises (text : String) :
    ∃ result, Sentence.Normalises text.toList result.toList ∧
      ∀ (target : String) (scene : Scene),
        sentence.after? target text scene = .ok (result, scene) ∧
          sentence.after? target result scene = .ok (result, scene) := by
  refine ⟨Sentence.sentence text, Sentence.normalises_sentence text, fun target scene => ?_⟩
  refine ⟨rfl, ?_⟩
  rw [after?, Sentence.sentence_sentence]

-- The one character is a soft pause, so nothing is left to be capitalized.
example : Sentence.sentence "-" = "." := by decide

end TextGrammar
