/-!
# Order of Texts

Sorting by text. Texts are ordered by the code points of their characters.

## Main definitions

* `sortedDistinct`: A set of words as a sorted list.
* `sortBy`: Things sorted by a text that each of them has.
-/

namespace TextGrammar

/-- Put a word into a sorted list that may already hold it. -/
def insertSorted (word : String) : List String → List String
  | [] => [word]
  | w :: rest =>
    if word < w then word :: w :: rest
    else if word = w then w :: rest
    else w :: insertSorted word rest

/-- The words of a list in ascending order by code point, each once. This is the
    form in which sets of words are kept. -/
def sortedDistinct (words : List String) : List String := words.foldr insertSorted []

/-- Put a thing into a list sorted by a text, in front of those with the same one. -/
def insertBy {α : Type} (key : α → String) (x : α) : List α → List α
  | [] => [x]
  | y :: rest => if key y < key x then y :: insertBy key x rest else x :: y :: rest

/-- The things of a list in ascending order of a text. Those with the same text
    keep their order. -/
def sortBy {α : Type} (key : α → String) (xs : List α) : List α := xs.foldr (insertBy key) []

end TextGrammar
