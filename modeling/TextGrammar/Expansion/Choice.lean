/-!
# Weighted Choice

The choice of one of several things by their weights.

A draw between zero and one is scaled to the sum of the weights. The things are
then passed in order, each taking its weight off what is left, and the first one
whose weight covers the rest is chosen.

The arithmetic is a parameter. With exact numbers some thing is always reached;
with rounded ones the rest may outlast them all.

## Main definitions

* `WeightedChoice.total`: The sum of the weights, added in order.
* `WeightedChoice.pick`: The first thing that covers what is left.
* `WeightedChoice.choose`: The thing that a draw stands for.

## Theorems

* `WeightedChoice.mem_of_pick`: What is chosen is one of the things.
-/

namespace TextGrammar

namespace WeightedChoice

variable {W α : Type} [Zero W] [Add W] [Sub W] [Mul W] [LE W] [DecidableLE W]

/-- The sum of the weights, added in order from zero. -/
def total (weight : α → W) (xs : List α) : W := xs.foldl (fun sum x => sum + weight x) 0

/-- The first thing whose weight covers what is left when it is reached. -/
def pick (weight : α → W) : W → List α → Option α
  | _, [] => none
  | left, x :: rest => if left ≤ weight x then some x else pick weight (left - weight x) rest

/-- The thing that a draw between zero and one stands for. -/
def choose (weight : α → W) (draw : W) (xs : List α) : Option α :=
  pick weight (draw * total weight xs) xs

omit [Zero W] [Add W] [Mul W] in
/-- What is chosen is one of the things. -/
theorem mem_of_pick (weight : α → W) (left : W) (xs : List α) (x : α)
    (h : pick weight left xs = some x) : x ∈ xs := by
  induction xs generalizing left with
  | nil => exact absurd h (by simp only [pick, reduceCtorEq, not_false_eq_true])
  | cons y rest ih =>
      rw [pick] at h
      split at h
      · rw [Option.some.inj h]
        exact List.mem_cons_self ..
      · exact List.mem_cons_of_mem _ (ih _ h)

end WeightedChoice

end TextGrammar
