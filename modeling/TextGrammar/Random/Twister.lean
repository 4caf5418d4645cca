import TextGrammar.Random.Source

/-!
# The Twister

The Mersenne twister with a period of `2 ^ 19937 - 1`, seeded by an integer of
any size.

A seed is cut into words of 32 bits, the least significant first, and these
are mixed into the state. A draw takes two outputs and makes a number with 53
bits of them, which lies from zero up to but not including one.

## Main definitions

* `Twister`: The words of the state and the place of the next one.
* `Twister.ofSeed`: The state for an integer. Its sign does not matter.
* `Twister.nextWord`: An output of 32 bits.
* `Twister.nextDraw`: A number from zero up to one.
-/

namespace TextGrammar

/-- The state of the generator. -/
structure Twister where
  words : Array UInt32
  index : Nat

namespace Twister

/-- The number of words in the state. -/
def size : Nat := 624

/-- The distance between the two words that a new word combines. -/
def shift : Nat := 397

/-- The word at a place. -/
def word (ws : Array UInt32) (i : Nat) : UInt32 := ws.getD i 0

/-- A word mixed with its own upper bits. -/
def mixed (w : UInt32) : UInt32 := w ^^^ (w >>> 30)

/-- The state grown from one word. -/
def ofWord (seed : UInt32) : Array UInt32 :=
  (List.range (size - 1)).foldl
    (fun ws i => ws.push (1812433253 * mixed (word ws i) + UInt32.ofNat (i + 1))) #[seed]

/-- The place after `i` when the words are mixed in a circle. On the way round,
    the last word is copied to the first place, which is then passed over. -/
def advance (ws : Array UInt32) (i : Nat) : Array UInt32 × Nat :=
  if i + 1 < size then (ws, i + 1) else (ws.setIfInBounds 0 (word ws (size - 1)), 1)

/-- Mix the words of a key into the state, going round as long as there are
    steps left. The arguments are the state, its place and the place in the key. -/
def absorb (key : Array UInt32) : Nat → Array UInt32 → Nat → Nat → Array UInt32 × Nat
  | 0, ws, i, _ => (ws, i)
  | steps + 1, ws, i, j =>
    let w := (word ws i ^^^ (mixed (word ws (i - 1)) * 1664525)) + word key j + UInt32.ofNat j
    let (ws, i) := advance (ws.setIfInBounds i w) i
    -- A short key is read over and over until all words are mixed.
    absorb key steps ws i (if j + 1 < key.size then j + 1 else 0)

/-- Stir the state as long as there are steps left. -/
def stir : Nat → Array UInt32 → Nat → Array UInt32
  | 0, ws, _ => ws
  | steps + 1, ws, i =>
    let w := (word ws i ^^^ (mixed (word ws (i - 1)) * 1566083941)) - UInt32.ofNat i
    let (ws, i) := advance (ws.setIfInBounds i w) i
    stir steps ws i

/-- The state for a key. -/
def ofKey (key : Array UInt32) : Twister :=
  let (ws, i) := absorb key (max size key.size) (ofWord 19650218) 1 0
  ⟨(stir (size - 1) ws i).setIfInBounds 0 0x80000000, size⟩

/-- The words of 32 bits of a natural number, the least significant first. The
    first argument bounds their number. -/
def wordsOf : Nat → Nat → List UInt32
  | 0, _ => []
  | bound + 1, n =>
    if n = 0 then [] else UInt32.ofNat (n % Nat.pow 2 32) :: wordsOf bound (n / Nat.pow 2 32)

/-- The key for a seed: the words of its magnitude, and one zero for zero. -/
def keyOf (seed : Int) : Array UInt32 :=
  match wordsOf (seed.natAbs.log2 / 32 + 1) seed.natAbs with
  | [] => #[0]
  | ws => ws.toArray

/-- The state for a seed. -/
def ofSeed (seed : Int) : Twister := ofKey (keyOf seed)

/-- Make the next words of the state, going on from a place as long as there are
    steps left. -/
def twistFrom : Nat → Nat → Array UInt32 → Array UInt32
  | 0, _, ws => ws
  | steps + 1, i, ws =>
    let y := (word ws i &&& 0x80000000) ||| (word ws ((i + 1) % size) &&& 0x7FFFFFFF)
    let odd : UInt32 := if y &&& 1 == 1 then 0x9908B0DF else 0
    -- Words at later places are still the old ones, and those at earlier places new.
    let w := word ws ((i + shift) % size) ^^^ (y >>> 1) ^^^ odd
    twistFrom steps (i + 1) (ws.setIfInBounds i w)

/-- A word of the state as it is put out. -/
def temper (w : UInt32) : UInt32 :=
  let w := w ^^^ (w >>> 11)
  let w := w ^^^ ((w <<< 7) &&& 0x9D2C5680)
  let w := w ^^^ ((w <<< 15) &&& 0xEFC60000)
  w ^^^ (w >>> 18)

/-- An output, and the state after it. -/
def nextWord (t : Twister) : UInt32 × Twister :=
  -- New words are made once all of them have been put out.
  let t := if t.index < size then t else ⟨twistFrom size 0 t.words, 0⟩
  (temper (word t.words t.index), { t with index := t.index + 1 })

/-- A number from zero up to but not including one, and the state after it: the
    upper 27 bits of one output and the upper 26 of the next. -/
def nextDraw (t : Twister) : Binary64 × Twister :=
  let (high, t) := t.nextWord
  let (low, t) := t.nextWord
  (Binary64.ofRatio ((high >>> 5).toNat * Nat.pow 2 26 + (low >>> 6).toNat) (Nat.pow 2 53), t)

instance : DrawSource Twister := ⟨nextDraw⟩

end Twister

end TextGrammar
