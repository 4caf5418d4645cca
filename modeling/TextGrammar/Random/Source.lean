import TextGrammar.Number.Binary64

/-!
# Sources of Draws

Where the random numbers of a run come from: any state from which a number and
the next state can be had.

## Main definitions

* `DrawSource`: A state that yields numbers.
* `Script`: Numbers given beforehand, over and over.
-/

namespace TextGrammar

/-- States that yield one number after the other. -/
class DrawSource (σ : Type) where
  next : σ → Binary64 × σ

/-- Given numbers, repeated from the start when they are used up, and the count
    of those used so far. Without any number it yields zero. -/
structure Script where
  draws : List Binary64
  used : Nat

/-- The script at its start. -/
def Script.ofList (draws : List Binary64) : Script := ⟨draws, 0⟩

instance : DrawSource Script where
  next script :=
    ((script.draws[script.used % script.draws.length]?).getD 0,
      { script with used := script.used + 1 })

/-- Two kinds of sources as one: a state of either kind yields what it would. -/
instance {σ τ : Type} [DrawSource σ] [DrawSource τ] : DrawSource (σ ⊕ τ) where
  next
    | .inl s => ((DrawSource.next s).1, .inl (DrawSource.next s).2)
    | .inr t => ((DrawSource.next t).1, .inr (DrawSource.next t).2)

end TextGrammar
