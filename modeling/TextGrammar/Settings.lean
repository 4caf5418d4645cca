import TextGrammar.Validation

/-!
# Settings

The settings of an engine: how deep rules may nest, and the seed of its draws.

Settings come as plain values or from environment variables. In the environment
the depth limit can be switched off by a word or by zero, while an empty seed is
none at all.

## Main definitions

* `Settings`: A depth limit and a seed, either of which may be absent.
* `SettingValues`: Settings as they are given.
* `SettingValues.check`: The settings that values describe.
* `SettingValues.ofEnvironment`: The values that environment variables give.
-/

namespace TextGrammar

/-- The settings of an engine. Without a limit rules nest without bound, and
    without a seed the draws cannot be foreseen. -/
structure Settings where
  maxDepth : Option Nat
  seed : Option Int
deriving DecidableEq

/-- The depth limit that holds unless another one is given. -/
def defaultMaxDepth : Nat := 100

/-- Settings as they are given. A setting that is not given has its default,
    which is something else than giving nothing as its value. -/
structure SettingValues where
  maxDepth : Option Value := none
  seed : Option Value := none

namespace SettingValues

/-- A depth limit: nothing, or an integer that is at least one. -/
def readMaxDepth : Value → Except ProblemKind (Option Nat)
  | .null => .ok none
  | v =>
    match v.readInteger with
    | .error k => .error k
    | .ok i => if 1 ≤ i then .ok (some i.toNat) else .error .belowMinimum

/-- A seed: nothing, or an integer. -/
def readSeed : Value → Except ProblemKind (Option Int)
  | .null => .ok none
  | v =>
    match v.readInteger with
    | .error k => .error k
    | .ok i => .ok (some i)

/-- The settings that values describe, or everything that is wrong with them. -/
def check (values : SettingValues) : Except (List Problem) Settings :=
  let maxDepth : Except ProblemKind (Option Nat) := match values.maxDepth with
    | none => .ok (some defaultMaxDepth)
    | some v => readMaxDepth v
  let seed : Except ProblemKind (Option Int) := match values.seed with
    | none => .ok none
    | some v => readSeed v
  match maxDepth, seed with
  | .ok maxDepth, .ok seed => .ok ⟨maxDepth, seed⟩
  | .error k, .ok _ => .error [⟨"max_depth", k⟩]
  | .ok _, .error k => .error [⟨"seed", k⟩]
  | .error j, .error k => .error [⟨"max_depth", j⟩, ⟨"seed", k⟩]

/-- The variable that holds the depth limit. -/
def maxDepthVariable : String := "TAGWEAVE_MAX_DEPTH"

/-- The variable that holds the seed. -/
def seedVariable : String := "TAGWEAVE_SEED"

/-- Whether the text of a depth limit switches it off. Only ASCII letters are
    lowered: no other character has one of the letters of the word as its
    lowercase form. -/
def switchesOff (text : String) : Bool :=
  let word := String.ofList ((Text.strip text.toList).map Char.toLower)
  word == "0" || word == "none" || word == ""

/-- The values that environment variables give. -/
def ofEnvironment (environment : List (String × String)) : SettingValues :=
  { maxDepth := (environment.lookup maxDepthVariable).map fun text =>
      if switchesOff text then .null else .text text
    seed := match environment.lookup seedVariable with
      | none | some "" => none
      | some text => some (.text text) }

/-- The values that describe given settings. -/
def ofSettings (s : Settings) : SettingValues :=
  { maxDepth := some (match s.maxDepth with
      | some n => .number (.whole n)
      | none => .null)
    seed := some (match s.seed with
      | some i => .number (.whole i)
      | none => .null) }

end SettingValues

end TextGrammar
