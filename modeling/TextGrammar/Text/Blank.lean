/-!
# Blank Characters

White space, and the cutting of a text at it.

## Main definitions

* `isBlank`: The white space characters, including the four separators
  U+001C to U+001F.
* `strip`: A text without the white space at its ends.
* `words`: The maximal runs without white space.

## Theorems

* `words_ne_nil`: No word is empty.
-/

namespace TextGrammar

namespace Text

/-- White space: the controls from tab to carriage return, the four ASCII
    separators, next line, and the spaces and separators of every width. -/
def isBlank (c : Char) : Bool :=
  let code := c.toNat
  (0x09 ≤ code && code ≤ 0x0D) || (0x1C ≤ code && code ≤ 0x20) || code == 0x85 ||
    code == 0xA0 || code == 0x1680 || (0x2000 ≤ code && code ≤ 0x200A) || code == 0x2028 ||
    code == 0x2029 || code == 0x202F || code == 0x205F || code == 0x3000

/-- The text without the characters of a class at its end. -/
def dropEndWhile (p : Char → Bool) (cs : List Char) : List Char :=
  (cs.reverse.dropWhile p).reverse

/-- The text without the characters of a class at either end. -/
def trim (p : Char → Bool) (cs : List Char) : List Char :=
  dropEndWhile p (cs.dropWhile p)

/-- The text without white space at either end. -/
def strip (cs : List Char) : List Char := trim isBlank cs

/-- The maximal runs of characters without white space, in order. The second
    argument is the run being collected, in reverse. -/
def wordsFrom : List Char → List Char → List (List Char)
  | [], [] => []
  | [], run => [run.reverse]
  | c :: rest, run =>
    if isBlank c then
      (if run.isEmpty then wordsFrom rest [] else run.reverse :: wordsFrom rest [])
    else
      wordsFrom rest (c :: run)

/-- The maximal runs of characters without white space, in order. -/
def words (cs : List Char) : List (List Char) := wordsFrom cs []

theorem wordsFrom_ne_nil (cs run : List Char) : ∀ w ∈ wordsFrom cs run, w ≠ [] := by
  induction cs generalizing run with
  | nil =>
      intro w hw
      cases run with
      | nil => simp [wordsFrom] at hw
      | cons c rest =>
          simp only [wordsFrom, List.mem_singleton] at hw
          simp [hw]
  | cons c rest ih =>
      intro w hw
      simp only [wordsFrom] at hw
      split at hw
      · split at hw
        · exact ih [] w hw
        · rename_i hrun
          rcases List.mem_cons.1 hw with rfl | hmem
          · simpa using hrun
          · exact ih [] w hmem
      · exact ih _ w hw

/-- No word is empty. -/
theorem words_ne_nil (cs : List Char) : ∀ w ∈ words cs, w ≠ [] :=
  wordsFrom_ne_nil cs []

end Text

end TextGrammar
