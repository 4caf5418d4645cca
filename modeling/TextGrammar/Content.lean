import TextGrammar.Tag
import TextGrammar.Watcher.Basic

/-!
# Content

The templates that rules expand to: literal text, look-ups in the namespace and
references to tags.

## Main definitions

* `Reference`: A tag to be expanded, with the labels that rules must share and
  the watchers around it.
* `Item`: One piece of a template.
* `Content`: A template.
* `Content.references`: The references of a template, in order.
-/

namespace TextGrammar

/-- A tag to be expanded. Its labels are a sorted list without repetition. -/
structure Reference where
  tag : Tag
  hashtags : List String := []
  watchers : Chain := []
deriving DecidableEq

/-- One piece of a template. A foreign piece is a bare text or nothing at all,
    which templates can be given but cannot expand. -/
inductive Item where
  | text (s : String)
  | lookup (key : String) (watchers : Chain)
  | reference (ref : Reference)
  | foreign (given : Option String)
deriving DecidableEq

namespace Item

/-- The text of a look-up, which is also what a look-up of a missing name leaves. -/
def lookupText (key : String) : String := "[=" ++ key ++ "]"

/-- A foreign piece as messages show it. -/
def foreignText : Option String → String
  | some s => Text.quoted s
  | none => "None"

/-- The piece as text. -/
def toText : Item → String
  | .text s => s
  | .lookup key _ => lookupText key
  | .reference ref => ref.tag.toText
  | .foreign (some s) => s
  | .foreign none => foreignText none

end Item

/-- A template. -/
abbrev Content := List Item

namespace Content

/-- The template of a plain text: one piece, or none for the empty text. -/
def ofText (s : String) : Content := if s == "" then [] else [.text s]

/-- The template as text. -/
def toText (content : Content) : String := "".intercalate (content.map Item.toText)

/-- The references of a template, in order. -/
def references (content : Content) : List Reference :=
  content.filterMap fun item => match item with
    | .reference ref => some ref
    | _ => none

end Content

end TextGrammar
