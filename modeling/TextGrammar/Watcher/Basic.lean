import TextGrammar.Namespace
import TextGrammar.Watcher.NumberWords
import TextGrammar.Watcher.Sentence

/-!
# Watchers

What is attached to rules and references to act around their substitution.

A watcher is called with the tag before it is replaced and with the text that
replaced it afterwards, which it may rewrite. The watchers of one place form a
chain: they are called before in the order in which they were attached, and
after in the opposite order, like scopes that are left again.

## Main definitions

* `Watcher`: The kinds of watchers.
* `Call`: One line of the record that tracing watchers keep.
* `Scene`: What watchers act on, the namespace and the record.
* `Watcher.before`, `Watcher.after?`: The two calls of a watcher.
* `Chain.before`, `Chain.after?`: The calls of a chain.
* `Watcher.ofFilter?`: The watcher for a filter name with arguments.
-/

namespace TextGrammar

/-- What can be attached to a rule or a reference. -/
inductive Watcher where
  /-- Stores the text under a name. -/
  | capture (key : String)
  /-- Makes the text a sentence. -/
  | sentence
  /-- Puts one of two texts in the place of a number. -/
  | pluralise (singular plural : String)
  /-- Spells a number as an ordinal. -/
  | ordinal
  /-- Puts the ordinal suffix behind a number. -/
  | ordinalSuffix
  /-- Spells a number as a cardinal. -/
  | cardinal
  /-- Does nothing. -/
  | idle
  /-- Rewrites numbers, but does not say how. -/
  | numeric
  /-- Records its calls, and marks the text with its name. -/
  | trace (name : String)
  /-- Counts its calls in the namespace. -/
  | count (key : String)
deriving DecidableEq

/-- A call that a tracing watcher recorded. -/
inductive Call where
  | before (name target : String)
  | after (name target text : String)
deriving DecidableEq

/-- The call as a line of text. -/
def Call.toText : Call → String
  | .before name target => "before " ++ name ++ " " ++ target
  | .after name target text => "after " ++ name ++ " " ++ target ++ " " ++ text

/-- What watchers act on: the namespace, and the record of traced calls. -/
structure Scene where
  data : Namespace
  record : List Call

/-- A watcher that rewrites numbers without saying how met one. -/
inductive WatcherError where
  | undefinedNumeric
deriving DecidableEq

namespace Watcher

/-- The text a filter makes of a number, if it is one that rewrites numbers and
    says how. -/
def ofNumber? : Watcher → Binary64 → Except WatcherError (Option String)
  | .pluralise singular plural, x => .ok (some (if x.equal 1 then singular else plural))
  | .ordinal, x => .ok (some (NumberWords.ordinal x))
  | .ordinalSuffix, x => .ok (some (NumberWords.withOrdinalSuffix x))
  | .cardinal, x => .ok (some (NumberWords.cardinal x))
  | .numeric, _ => .error .undefinedNumeric
  | _, _ => .ok none

/-- The text a filter makes of a number as it was given. Only a plural can be told
    of an integer that is too large for a double. -/
def ofQuantity? (w : Watcher) (q : Quantity) : Except StoreError (Option String) :=
  match w with
  | .pluralise singular plural => .ok (some (if q.isOne then singular else plural))
  | _ =>
    match q.toBinary64? with
    | none => .error .tooLarge
    | some x => .ok ((w.ofNumber? x).toOption.join)

/-- The text after a filter that rewrites numbers. A text that is no number
    passes through. -/
def rewriteNumber (w : Watcher) (text : String) : Except WatcherError String :=
  match Numeral.read? text with
  | none => .ok text
  | some x =>
    match w.ofNumber? x with
    -- Other watchers are not asked to rewrite numbers, and would leave them.
    | .ok result => .ok (result.getD text)
    | .error e => .error e

/-- The call before a substitution of the target, which is given by its text. -/
def before (w : Watcher) (target : String) (scene : Scene) : Scene :=
  match w with
  | .trace name => { scene with record := scene.record ++ [.before name target] }
  -- A name with a datum that is no number is counted anew from one.
  | .count key =>
    let next := match scene.data.number? key with
      | some x => x + 1
      | none => 1
    { scene with data := scene.data.put key (.number next) }
  | _ => scene

/-- The call after a substitution: the text as the watcher leaves it, and the
    scene. -/
def after? (w : Watcher) (target text : String) (scene : Scene) :
    Except WatcherError (String × Scene) :=
  match w with
  | .capture key => .ok (text, { scene with data := scene.data.put key (.text text) })
  | .sentence => .ok (Sentence.sentence text, scene)
  | .trace name =>
    .ok (name ++ "(" ++ text ++ ")",
      { scene with record := scene.record ++ [.after name target text] })
  | .idle => .ok (text, scene)
  | .count _ => .ok (text, scene)
  | .pluralise _ _ | .ordinal | .ordinalSuffix | .cardinal | .numeric =>
    match w.rewriteNumber text with
    | .ok result => .ok (result, scene)
    | .error e => .error e

end Watcher

/-- The watchers of one place, in the order in which they were attached. -/
abbrev Chain := List Watcher

namespace Chain

/-- The calls before a substitution, the first watcher first. -/
def before (chain : Chain) (target : String) (scene : Scene) : Scene :=
  chain.foldl (fun scene w => w.before target scene) scene

/-- The calls after a substitution, the last watcher first. When one of them
    fails, the scene is as the calls before it left it. -/
def after? : Chain → String → String → Scene → Except WatcherError String × Scene
  | [], _, text, scene => (.ok text, scene)
  | w :: rest, target, text, scene =>
    -- The watchers behind act first, and one that fails keeps the first from acting.
    match after? rest target text scene with
    | (.error e, scene) => (.error e, scene)
    | (.ok text, scene) =>
      match w.after? target text scene with
      | .ok (text, scene) => (.ok text, scene)
      | .error e => (.error e, scene)

end Chain

/-- Why a filter cannot be attached. -/
inductive FilterError where
  | unknown (name : String)
  | tooMany (name : String) (count : Nat)
  | notAllowed (name : String)
deriving DecidableEq

/-- The text of the error. -/
def FilterError.message : FilterError → String
  | .unknown name => "Unknown filter '" ++ name ++ "'"
  | .tooMany name count =>
    "Filter '" ++ name ++ "' takes at most 2 arguments, got " ++ toString count
  | .notAllowed name => "Filter '" ++ name ++ "' takes no arguments"

namespace Watcher

/-- The filters that grammars name, by their lowercase names. -/
def filters : List (String × Watcher) :=
  [("sentence", .sentence), ("pluralize", .pluralise "" "s"), ("pluralise", .pluralise "" "s"),
    ("ordinal", .ordinal), ("ordinalsuffix", .ordinalSuffix), ("cardinal", .cardinal)]

/-- The watcher for a filter name with arguments. Names are matched without
    regard to case; that ASCII letters are lowered is enough, because no other
    character has a lowercase form made of the letters that occur. The plural
    filter takes a plural, or a singular and a plural, and the others take
    nothing. -/
def ofFilter? (name : String) (args : List String) : Except FilterError Watcher :=
  match filters.lookup (String.ofList (name.toList.map Char.toLower)) with
  | none => .error (.unknown name)
  | some (.pluralise singular plural) =>
    match args with
    | [] => .ok (.pluralise singular plural)
    | [many] => .ok (.pluralise singular many)
    | [one, many] => .ok (.pluralise one many)
    | _ => .error (.tooMany name args.length)
  | some w => if args.isEmpty then .ok w else .error (.notAllowed name)

end Watcher

end TextGrammar
