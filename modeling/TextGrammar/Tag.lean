/-!
# Tags

The names that rules expand. A tag may belong to a context, and two tags are
the same when both name and context are.

## Main definitions

* `Tag`: A name with an optional context.
* `Tag.parse`: The tag written as `name` or `context.name`.
* `Tag.toText`: The tag in brackets.
-/

namespace TextGrammar

/-- A name with an optional context. -/
structure Tag where
  name : String
  context : Option String := none
deriving DecidableEq, Inhabited

namespace Tag

/-- The tag a text names: what stands before the first dot is the context. -/
def parse (text : String) : Tag :=
  let cs := text.toList
  match cs.dropWhile (· != '.') with
  | _ :: name => ⟨String.ofList name, some (String.ofList (cs.takeWhile (· != '.')))⟩
  | [] => ⟨text, none⟩

/-- The tag in brackets, which is also what an unmatched reference leaves. -/
def toText (tag : Tag) : String :=
  match tag.context with
  | some context => "[" ++ context ++ "." ++ tag.name ++ "]"
  | none => "[" ++ tag.name ++ "]"

end Tag

end TextGrammar
