import TextGrammar.Tag

/-!
# Forms

What a line of a grammar spells, before filters are looked up and options are
checked.

## Main definitions

* `WatcherForm`: A capture, or a filter with arguments.
* `ItemForm`: A piece of a template.
* `OptionForm`: An option in a header.
* `HeaderForm`: The left side of a rule.
-/

namespace TextGrammar

/-- A watcher as it is spelled: `as key`, or a filter name with arguments. -/
inductive WatcherForm where
  | capture (key : String)
  | filter (name : String) (args : List String)
deriving DecidableEq

/-- A piece of a template as it is spelled. The labels are in the order in which
    they stand. -/
inductive ItemForm where
  | text (s : String)
  | lookup (key : String) (watchers : List WatcherForm)
  | reference (tag : Tag) (hashtags : List String) (watchers : List WatcherForm)
deriving DecidableEq

/-- An option as it is spelled. Numbers are kept as their characters. -/
inductive OptionForm where
  | priority (literal : List Char)
  | minPriority (literal : List Char)
  | frequency (literal : List Char)
  | guard (text : String)
  | hashtag (label : String)
  | watcher (w : WatcherForm)
deriving DecidableEq

/-- The left side of a rule as it is spelled. -/
structure HeaderForm where
  tag : Tag
  options : List OptionForm
deriving DecidableEq

end TextGrammar
