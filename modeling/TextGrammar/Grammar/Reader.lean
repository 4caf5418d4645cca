import TextGrammar.Grammar.Form
import TextGrammar.Grammar.Token

/-!
# Reading Forms

The reading of headers and templates from their characters, token by token.

A reader that meets something it does not expect gives the characters from that
place on. If the text ends too early the place is where the last token starts,
which is the nearest thing that a message can point at.

The loops take a bound on their steps. Every step reads a token, so that the
length of the text is always enough.

## Main definitions

* `Cursor`: The characters still to be read.
* `Reader.template?`: The pieces of a template.
* `Reader.header?`: The tag and the options of a header.
* `Reader.column`: The column of a place in a text.
-/

namespace TextGrammar

/-- The characters still to be read, and those from the start of the last token
    on. -/
structure Cursor where
  lastToken : List Char
  rest : List Char

/-- Computations that read from a cursor. They fail with the place that was not
    expected. -/
abbrev Reader := StateT Cursor (Except (List Char))

namespace Cursor

/-- The place at the start of a text. -/
def start (text : List Char) : Cursor := ⟨text, text⟩

/-- The characters from the next token on. -/
def ahead (c : Cursor) : List Char := c.rest.dropWhile Token.isIgnored

/-- The first character of the next token. -/
def next? (c : Cursor) : Option Char := c.ahead.head?

/-- The place that was not expected: the next token, or the last one if there is
    none. -/
def unexpected (c : Cursor) : List Char :=
  match c.ahead with
  | [] => c.lastToken
  | rest => rest

end Cursor

namespace Reader

/-- Fail at the present place. -/
def fail {α : Type} : Reader α := fun c => .error c.unexpected

/-- The first character of the next token. -/
def next? : Reader (Option Char) := fun c => .ok (c.next?, c)

/-- Read a token of a class. -/
def token (read? : List Char → Option (List Char × List Char)) : Reader (List Char) := fun c =>
  match read? c.ahead with
  | some (text, rest) => .ok (text, ⟨c.ahead, rest⟩)
  | none => .error c.unexpected

/-- Read a name. -/
def name : Reader String := do return String.ofList (← token Token.name?)

/-- Read a label. -/
def hashtag : Reader String := do return String.ofList (← token Token.hashtag?)

/-- Read a string. -/
def quoted : Reader String := do return String.ofList (← token Token.quoted?)

/-- Read a given character. -/
def mark (m : Char) : Reader Unit := fun c =>
  match c.ahead with
  | x :: rest => if x = m then .ok ((), ⟨x :: rest, rest⟩) else .error c.unexpected
  | [] => .error c.unexpected

/-- Read a given character if it comes next, and say whether it did. -/
def markIfNext (m : Char) : Reader Bool := do
  if (← next?) = some m then
    mark m
    return true
  else
    return false

/-- A bound on the steps of a loop from the present place. -/
def bound : Reader Nat := fun c => .ok (c.rest.length + 1, c)

/-- Read a tag: a name, or two with a dot between. -/
def tag : Reader Tag := do
  let first ← name
  if ← markIfNext '.' then
    return ⟨← name, some first⟩
  else
    return ⟨first, none⟩

/-- Read things with commas between, and the closing parenthesis. -/
def listFrom {α : Type} (thing : Reader α) : Nat → Reader (List α)
  | 0 => fail
  | n + 1 => do
    let x ← thing
    -- A comma promises one more thing, so none may stand before the parenthesis.
    if ← markIfNext ',' then
      return x :: (← listFrom thing n)
    else
      mark ')'
      return [x]

/-- Read things in parentheses, which may be empty or missing altogether. -/
def parenthesized {α : Type} (thing : Reader α) : Reader (List α) := do
  if ← markIfNext '(' then
    if ← markIfNext ')' then
      return []
    else
      listFrom thing (← bound)
  else
    return []

/-- Read what follows the first word of a watcher. -/
def watcherAfter (word : String) : Reader WatcherForm := do
  -- The word of a capture is no filter, whatever follows it.
  if word = "as" then
    return .capture (← name)
  else
    return .filter word (← parenthesized quoted)

/-- Read things as long as their first characters come next. -/
def manyFrom {α : Type} (starts : Char → Bool) (thing : Reader α) : Nat → Reader (List α)
  | 0 => return []
  | n + 1 => do
    if ((← next?).map starts).getD false then
      let x ← thing
      return x :: (← manyFrom starts thing n)
    else
      return []

/-- Read labels as long as number signs come next. -/
def hashtags : Reader (List String) := do
  manyFrom (· == '#') hashtag (← bound)

/-- Read watchers as long as names come next. -/
def watchers : Reader (List WatcherForm) := do
  manyFrom Token.isNameStart (do watcherAfter (← name)) (← bound)

/-- Read what stands in brackets, behind the opening one. -/
def bracket : Reader ItemForm := do
  if ← markIfNext '=' then
    let key ← name
    let ws ← watchers
    mark ']'
    return .lookup key ws
  else
    let t ← tag
    let labels ← hashtags
    let ws ← watchers
    mark ']'
    return .reference t labels ws

/-- The pieces of a template up to its end. -/
def templateFrom : Nat → List Char → Except (List Char) (List ItemForm)
  | _, [] => .ok []
  -- Not reached from the start: each piece takes at least one character.
  | 0, rest => .error rest
  | n + 1, '[' :: rest =>
    match bracket ⟨'[' :: rest, rest⟩ with
    | .error place => .error place
    | .ok (item, c) => (templateFrom n c.rest).map (item :: ·)
  | n + 1, cs =>
    match Token.literalText cs with
    -- A backslash at the very end escapes nothing.
    | ([], _) => .error cs
    | (text, rest) => (templateFrom n rest).map (.text (String.ofList text) :: ·)

/-- The pieces of a template, or the place that was not expected. -/
def template? (cs : List Char) : Except (List Char) (List ItemForm) :=
  templateFrom (cs.length + 1) cs

/-- Read one option: a label, a field with its value, or a watcher. -/
def option : Reader OptionForm := do
  if (← next?) = some '#' then
    return .hashtag (← hashtag)
  else
    let word ← name
    if word = "priority" then
      mark '='
      return .priority (← token Token.integer?)
    else if word = "min" then
      mark '='
      return .minPriority (← token Token.integer?)
    else if word = "freq" then
      mark '='
      return .frequency (← token Token.number?)
    else if word = "if" then
      mark '='
      return .guard (← quoted)
    else
      -- Whether there is such a filter is not a question of form.
      return .watcher (← watcherAfter word)

/-- The tag and the options of a header, or the place that was not expected. -/
def header? (cs : List Char) : Except (List Char) HeaderForm :=
  match (do return HeaderForm.mk (← tag) (← parenthesized option) : Reader HeaderForm)
      (Cursor.start cs) with
  | .error place => .error place
  | .ok (form, c) =>
    -- Nothing but white space may follow.
    match c.ahead with
    | [] => .ok form
    | rest => .error rest

/-- The column of a place in a text, which is given by the characters from there
    on. Columns count from one, anew on each line. -/
def column (text place : List Char) : Nat :=
  let before := text.take (text.length - place.length)
  (before.reverse.takeWhile (· != '\n')).length + 1

end Reader

end TextGrammar
