import Mathlib.Algebra.Order.BigOperators.Group.List
import Mathlib.Algebra.Order.Field.Basic
import Mathlib.Algebra.Order.Ring.Unbundled.Rat
import Mathlib.Tactic.Linarith
import TextGrammar.Expansion.Engine

/-!
# Exact Choice

The weighted choice with exact numbers in the place of rounded ones.

Scaled to the sum of the weights, the draws between zero and one fall into
adjacent intervals, one for each thing in order and as long as its weight. What
is in front of a thing is passed as long as the draw lies above all of it, so
every thing with a weight is chosen by the draw in the middle of its interval.

## Main definitions

* `Binary64.IsFinite`, `Binary64.toRat`: The finite numbers and their values.
* `Chooser.exact`: The choice by exact frequencies, with draws from a list.

## Theorems

* `WeightedChoice.total_eq_sum`: The total is the sum of the weights.
* `WeightedChoice.pick_append`: What is in front of a thing is passed.
* `WeightedChoice.exists_draw`: Some draw chooses a thing with a weight.
-/

namespace TextGrammar

namespace Binary64

/-- Neither infinite nor not a number. -/
def IsFinite : Binary64 → Prop
  | .finite .. => True
  | _ => False

instance (x : Binary64) : Decidable x.IsFinite :=
  match x with
  | .finite .. => .isTrue trivial
  | .infinity _ => .isFalse id
  | .nan _ => .isFalse id

/-- The value of a finite number, and zero for the others. -/
def toRat : Binary64 → ℚ
  | .finite negative units _ => signed negative units / Number.unitsPerOne
  | _ => 0

theorem unitsPerOne_pos : (0 : ℚ) < Number.unitsPerOne := Nat.cast_pos.2 Number.unitsPerOne_pos

/-- A number that is not below zero has no negative value. -/
theorem toRat_nonneg {x : Binary64} (h : ¬ x < 0) : 0 ≤ x.toRat := by
  cases x with
  | nan => exact le_refl 0
  | infinity negative => exact le_refl 0
  | finite negative units valid =>
      rw [finite_lt_zero, not_lt] at h
      exact div_nonneg (Int.cast_nonneg h) unitsPerOne_pos.le

/-- A finite number above zero has a positive value. -/
theorem toRat_pos {x : Binary64} (hfinite : x.IsFinite) (h : 0 < x) : 0 < x.toRat := by
  cases x with
  | nan => exact absurd hfinite id
  | infinity negative => exact absurd hfinite id
  | finite negative units valid =>
      have hsigned : 0 < signed negative units := of_decide_eq_true h
      exact div_pos (Int.cast_pos.2 hsigned) unitsPerOne_pos

end Binary64

namespace WeightedChoice

variable {α K : Type} [Field K] [LinearOrder K] [IsStrictOrderedRing K] (weight : α → K)

omit [LinearOrder K] [IsStrictOrderedRing K] in
/-- The total is the sum of the weights. -/
theorem total_eq_sum (xs : List α) : total weight xs = (xs.map weight).sum := by
  unfold total
  rw [List.sum_eq_foldl, List.foldl_map]

theorem sum_nonneg {xs : List α} (h : ∀ x ∈ xs, 0 ≤ weight x) : 0 ≤ (xs.map weight).sum := by
  refine List.sum_nonneg fun w hw => ?_
  rcases List.mem_map.1 hw with ⟨x, hx, rfl⟩
  exact h x hx

/-- Things are passed as long as what is left exceeds their weights together. -/
theorem pick_append (left : K) (front back : List α) (hnonneg : ∀ x ∈ front, 0 ≤ weight x)
    (hleft : (front.map weight).sum < left) :
    pick weight left (front ++ back) = pick weight (left - (front.map weight).sum) back := by
  induction front generalizing left with
  | nil => rw [List.nil_append, List.map_nil, List.sum_nil, sub_zero]
  | cons x rest ih =>
      have hrest := fun y hy => hnonneg y (List.mem_cons_of_mem _ hy)
      have hsum := sum_nonneg weight hrest
      rw [List.map_cons, List.sum_cons] at hleft ⊢
      -- More than all weights together is left, hence more than the first one.
      rw [List.cons_append, pick, if_neg (by linarith), ih _ hrest (by linarith)]
      rw [sub_sub]

/-- Some draw chooses a thing with a weight, namely the one in the middle of its
    interval. -/
theorem exists_draw (xs : List α) (hnonneg : ∀ x ∈ xs, 0 ≤ weight x) (x : α) (hx : x ∈ xs)
    (hpos : 0 < weight x) : ∃ draw, 0 ≤ draw ∧ draw < 1 ∧ choose weight draw xs = some x := by
  rcases List.append_of_mem hx with ⟨front, back, rfl⟩
  have hfront := sum_nonneg weight fun y hy => hnonneg y (List.mem_append_left _ hy)
  have hback := sum_nonneg weight fun y hy =>
    hnonneg y (List.mem_append_right _ (List.mem_cons_of_mem _ hy))
  have htotal : total weight (front ++ x :: back) =
      (front.map weight).sum + (weight x + (back.map weight).sum) := by
    rw [total_eq_sum, List.map_append, List.sum_append, List.map_cons, List.sum_cons]
  have htotal_pos : 0 < total weight (front ++ x :: back) := by linarith
  -- Only the value of the middle matters from here on.
  obtain ⟨middle, hmiddle⟩ : ∃ middle, middle = (front.map weight).sum + weight x / 2 := ⟨_, rfl⟩
  refine ⟨middle / total weight (front ++ x :: back), ?_, ?_, ?_⟩
  · exact div_nonneg (by linarith) htotal_pos.le
  · rw [div_lt_one htotal_pos]
    linarith
  · have hleft : middle / total weight (front ++ x :: back) *
        total weight (front ++ x :: back) = middle := div_mul_cancel₀ _ htotal_pos.ne'
    have hskip : (front.map weight).sum < middle := by linarith
    rw [choose, hleft, pick_append weight middle front (x :: back)
      (fun y hy => hnonneg y (List.mem_append_left _ hy)) hskip, pick, if_pos (by linarith)]

end WeightedChoice

/-- The choice by the exact values of the frequencies. Each choice takes the next
    draw of a list, and there is none when the list is used up. -/
def Chooser.exact : Chooser (List ℚ) where
  choose
    | _, [] => (none, [])
    | candidates, draw :: rest =>
      (WeightedChoice.choose (fun r => r.frequency.toRat) draw candidates.rules, rest)
  mem_of_choose := by
    intro candidates draws rule h
    cases draws with
    | nil => exact absurd h nofun
    | cons draw rest => exact WeightedChoice.mem_of_pick _ _ candidates.rules rule h

end TextGrammar
