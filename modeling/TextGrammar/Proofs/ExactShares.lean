import TextGrammar.Proofs.ExactChoice

/-!
# Exact Shares

Which draws choose which place of a list, with exact numbers.

The weights are laid end to end. A draw that is scaled to the sum of all of them falls
on one place: above the weights in front of it, and not above its own. So a draw on a
border belongs to the place that ends there, and the lowest draw to the first place,
whatever its weight. What falls on a place is as long as its weight, which leaves
nothing to a place without weight behind the first one.

A list may hold the same thing twice, and what is chosen does not tell the two apart.
Therefore the places are spoken of here. They are found by the same choice, made among
the things together with their places.

## Main definitions

* `WeightedChoice.chosenPlace`: The place of the thing that a draw stands for.
* `WeightedChoice.weightBefore`: The sum of the weights in front of a place.
* `WeightedChoice.FallsOn`: The places on which a draw falls.

## Theorems

* `WeightedChoice.choose_eq_chosenPlace`: The choice is what stands at the place.
* `WeightedChoice.chosenPlace_of_fallsOn`: A place on which the draw falls is chosen.
* `WeightedChoice.exists_fallsOn`: Every draw falls on the first place that covers it.
* `WeightedChoice.choose_divides`: The draws are divided by the weights.
-/

namespace TextGrammar

namespace WeightedChoice

section Places

variable {W α β : Type} [Zero W] [Add W] [Sub W] [Mul W] [LE W] [DecidableLE W]

omit [Sub W] [Mul W] [LE W] [DecidableLE W] in
theorem total_map (weight : β → W) (f : α → β) (xs : List α) :
    total weight (xs.map f) = total (fun x => weight (f x)) xs := by
  rw [total, total, List.foldl_map]

omit [Zero W] [Add W] [Mul W] in
theorem pick_map (weight : β → W) (f : α → β) (left : W) (xs : List α) :
    pick weight left (xs.map f) = (pick (fun x => weight (f x)) left xs).map f := by
  induction xs generalizing left with
  | nil => rfl
  | cons x rest ih =>
      rw [List.map_cons, pick, pick]
      split
      · rfl
      · exact ih _

/-- A choice looks at the weights and at nothing else. -/
theorem choose_map (weight : β → W) (f : α → β) (draw : W) (xs : List α) :
    choose weight draw (xs.map f) = (choose (fun x => weight (f x)) draw xs).map f := by
  rw [choose, choose, pick_map, total_map]

/-- The place of the thing that a draw stands for. -/
def chosenPlace (weight : α → W) (draw : W) (xs : List α) : Option Nat :=
  (choose (fun p : α × Nat => weight p.1) draw xs.zipIdx).map Prod.snd

/-- What is chosen is the thing at the place that is chosen. -/
theorem choose_eq_chosenPlace (weight : α → W) (draw : W) (xs : List α) :
    choose weight draw xs = (chosenPlace weight draw xs).bind fun i => xs[i]? := by
  have hnumbered := choose_map weight Prod.fst draw xs.zipIdx
  rw [List.zipIdx_map_fst] at hnumbered
  rw [hnumbered, chosenPlace]
  cases hchosen : choose (fun p : α × Nat => weight p.1) draw xs.zipIdx with
  | none => rfl
  | some p =>
      have hmem : p ∈ xs.zipIdx := mem_of_pick _ _ _ p hchosen
      exact (List.mem_zipIdx_iff_getElem?.1 hmem).symm

end Places

section Shares

variable {α K : Type} [Field K] [LinearOrder K] [IsStrictOrderedRing K] (weight : α → K)

/-- The sum of the weights in front of a place. -/
def weightBefore (xs : List α) (i : Nat) : K := ((xs.take i).map weight).sum

/-- A draw that is scaled to the sum of the weights falls on a place if it lies above
    the weights in front of it and not above those up to it. The first place has
    nothing in front that the draw could fail to exceed. -/
def FallsOn (draw : K) (xs : List α) (i : Nat) : Prop :=
  (0 < i → weightBefore weight xs i < draw * total weight xs) ∧
    draw * total weight xs ≤ weightBefore weight xs (i + 1)

omit [LinearOrder K] [IsStrictOrderedRing K] in
theorem weightBefore_zero (xs : List α) : weightBefore weight xs 0 = 0 := rfl

omit [LinearOrder K] [IsStrictOrderedRing K] in
theorem weightBefore_succ {xs : List α} {i : Nat} (hi : i < xs.length) :
    weightBefore weight xs (i + 1) = weightBefore weight xs i + weight xs[i] := by
  rw [weightBefore, weightBefore, ← List.take_concat_get' xs i hi, List.map_append,
    List.sum_append, List.map_singleton, List.sum_singleton]

omit [LinearOrder K] [IsStrictOrderedRing K] in
theorem weightBefore_length (xs : List α) :
    weightBefore weight xs xs.length = total weight xs := by
  rw [weightBefore, List.take_length, total_eq_sum]

variable {weight} {xs : List α} {draw : K}

/-- A place on which the draw falls is chosen: what is in front of it is passed, and it
    covers what is left. -/
theorem chosenPlace_of_fallsOn (hnonneg : ∀ x ∈ xs, 0 ≤ weight x) {i : Nat}
    (hi : i < xs.length) (h : FallsOn weight draw xs i) :
    chosenPlace weight draw xs = some i := by
  rcases h with ⟨habove, hcovered⟩
  rw [weightBefore_succ weight hi] at hcovered
  have hsplit : xs.zipIdx =
      (xs.take i).zipIdx ++ (xs[i], i) :: (xs.drop (i + 1)).zipIdx (i + 1) := by
    have hparts : (xs.take i ++ xs.drop i).zipIdx =
        (xs.take i).zipIdx ++ (xs.drop i).zipIdx (0 + (xs.take i).length) := List.zipIdx_append
    rwa [List.take_append_drop, List.drop_eq_getElem_cons hi, List.length_take_of_le hi.le,
      Nat.zero_add, List.zipIdx_cons] at hparts
  have htotal : total (fun p : α × Nat => weight p.1) xs.zipIdx = total weight xs := by
    rw [← total_map, List.zipIdx_map_fst]
  have hfront : ((xs.take i).zipIdx.map fun p => weight p.1).sum = weightBefore weight xs i := by
    rw [weightBefore, ← total_eq_sum, ← total_eq_sum, ← total_map, List.zipIdx_map_fst]
  have hnonneg' : ∀ p ∈ (xs.take i).zipIdx, 0 ≤ weight p.1 := fun p hp =>
    hnonneg p.1 (List.mem_of_mem_take (List.fst_mem_of_mem_zipIdx hp))
  have hpick : pick (fun p : α × Nat => weight p.1) (draw * total weight xs) xs.zipIdx =
      some (xs[i], i) := by
    rw [hsplit]
    rcases Nat.eq_zero_or_pos i with rfl | hpos
    · -- Nothing is in front, and nothing has to be passed.
      rw [weightBefore_zero, zero_add] at hcovered
      exact if_pos hcovered
    · rw [pick_append _ _ _ _ hnonneg' (by rw [hfront]; exact habove hpos), hfront]
      exact if_pos (by linarith)
  rw [chosenPlace, choose, htotal, hpick, Option.map_some]

/-- Every draw falls on the first place that covers it. The last place covers all draws,
    because no draw is scaled to more than the sum of the weights. -/
theorem exists_fallsOn (hne : xs ≠ []) (hnonneg : ∀ x ∈ xs, 0 ≤ weight x) (hdraw : draw < 1) :
    ∃ i, i < xs.length ∧ FallsOn weight draw xs i ∧
      ∀ j < i, weightBefore weight xs (j + 1) < draw * total weight xs := by
  have hlength : 0 < xs.length := List.length_pos_iff.2 hne
  have hscaled : draw * total weight xs ≤ total weight xs :=
    mul_le_of_le_one_left (by rw [total_eq_sum]; exact sum_nonneg weight hnonneg) hdraw.le
  have hlast : draw * total weight xs ≤ weightBefore weight xs (xs.length - 1 + 1) := by
    rwa [Nat.sub_add_cancel hlength, weightBefore_length]
  have hcovered : ∃ i, draw * total weight xs ≤ weightBefore weight xs (i + 1) := ⟨_, hlast⟩
  have hfirst : ∀ j < Nat.find hcovered, weightBefore weight xs (j + 1) < draw * total weight xs :=
    fun j hj => not_le.1 (Nat.find_min hcovered hj)
  refine ⟨Nat.find hcovered, ?_, ⟨fun hpos => ?_, Nat.find_spec hcovered⟩, hfirst⟩
  · have hle := Nat.find_min' hcovered hlast
    omega
  · -- The place in front does not cover the draw.
    have hfront := hfirst (Nat.find hcovered - 1) (by omega)
    rwa [Nat.sub_add_cancel hpos] at hfront

/-- A place is chosen by the draws that fall on it, and by no others. -/
theorem chosenPlace_eq_some_iff (hne : xs ≠ []) (hnonneg : ∀ x ∈ xs, 0 ≤ weight x)
    (hdraw : draw < 1) {i : Nat} (hi : i < xs.length) :
    chosenPlace weight draw xs = some i ↔ FallsOn weight draw xs i := by
  refine ⟨fun h => ?_, chosenPlace_of_fallsOn hnonneg hi⟩
  rcases exists_fallsOn hne hnonneg hdraw with ⟨j, hj, hfalls, _⟩
  have hchosen := chosenPlace_of_fallsOn hnonneg hj hfalls
  rw [h] at hchosen
  rwa [Option.some.inj hchosen]

/-- Draws are divided among the places of a list by the weights. The choice never fails,
    and is what stands at the first place that covers the draw when it is scaled to the
    sum of the weights. Every draw falls on exactly one place: on the first if it is
    not above the weight there, and on another if it is above the weights in front and
    not above those up to it. The two borders of a place are as far apart as it
    weighs, and no draw chooses a place without weight behind the first one. -/
theorem choose_divides (hne : xs ≠ []) (hnonneg : ∀ x ∈ xs, 0 ≤ weight x) (hdraw : draw < 1) :
    (∃ (i : Nat) (hi : i < xs.length), choose weight draw xs = some xs[i] ∧
      chosenPlace weight draw xs = some i ∧
      draw * total weight xs ≤ weightBefore weight xs (i + 1) ∧
      ∀ j < i, ¬ draw * total weight xs ≤ weightBefore weight xs (j + 1)) ∧
    (∃! i, i < xs.length ∧ FallsOn weight draw xs i) ∧
    (∀ hfirst : 0 < xs.length,
      chosenPlace weight draw xs = some 0 ↔ draw * total weight xs ≤ weight xs[0]) ∧
    ∀ (i : Nat) (hi : i < xs.length), 0 < i →
      (chosenPlace weight draw xs = some i ↔
        weightBefore weight xs i < draw * total weight xs ∧
          draw * total weight xs ≤ weightBefore weight xs (i + 1)) ∧
      weightBefore weight xs (i + 1) - weightBefore weight xs i = weight xs[i] ∧
      (weight xs[i] = 0 → chosenPlace weight draw xs ≠ some i) := by
  have hiff := fun (i : Nat) (hi : i < xs.length) =>
    chosenPlace_eq_some_iff hne hnonneg hdraw hi
  rcases exists_fallsOn hne hnonneg hdraw with ⟨i, hi, hfalls, hfirst⟩
  have hchosen := chosenPlace_of_fallsOn hnonneg hi hfalls
  refine ⟨⟨i, hi, ?_, hchosen, hfalls.2, fun j hj => not_le.2 (hfirst j hj)⟩,
    ⟨i, ⟨hi, hfalls⟩, ?_⟩, fun hzero => ?_, fun k hk hpos => ⟨?_, ?_, fun hweight h => ?_⟩⟩
  · rw [choose_eq_chosenPlace, hchosen, Option.bind_some, List.getElem?_eq_getElem hi]
  · rintro j ⟨hj, hother⟩
    have hsame := (chosenPlace_of_fallsOn hnonneg hj hother).symm.trans hchosen
    exact Option.some.inj hsame
  · rw [hiff 0 hzero, FallsOn, weightBefore_succ weight hzero, weightBefore_zero, zero_add]
    exact and_iff_right nofun
  · rw [hiff k hk, FallsOn]
    exact and_congr_left fun _ => ⟨fun h => h hpos, fun h _ => h⟩
  · rw [weightBefore_succ weight hk, add_sub_cancel_left]
  · -- Both borders of the place would be one.
    rcases (hiff k hk).1 h with ⟨habove, hcovered⟩
    rw [weightBefore_succ weight hk, hweight, add_zero] at hcovered
    exact absurd (habove hpos) (not_lt.2 hcovered)

end Shares

/-- Rules with the frequencies 0, 1, 0 and 3. -/
def unevenRules : List Rule :=
  [0, 1, 0, 3].filterMap fun frequency =>
    (Rule.create { tag := ⟨"a", none⟩, frequency := .whole frequency }).toOption

/-- A quarter of the sum is where the second of four rules ends. So it is the second one
    that is chosen, and not the third, which has no weight. -/
theorem choose_divides_unevenRules :
    let weight := fun rule : Rule => rule.frequency.toRat
    let draw : ℚ := 1 / 4
    unevenRules ≠ [] ∧ (∀ rule ∈ unevenRules, 0 ≤ weight rule) ∧ draw < 1 ∧
    unevenRules.map weight = [0, 1, 0, 3] ∧
    chosenPlace weight draw unevenRules = some 1 ∧
    (∃ (i : Nat) (hi : i < unevenRules.length),
      choose weight draw unevenRules = some unevenRules[i] ∧
      chosenPlace weight draw unevenRules = some i ∧
      draw * total weight unevenRules ≤ weightBefore weight unevenRules (i + 1) ∧
      ∀ j < i, ¬ draw * total weight unevenRules ≤ weightBefore weight unevenRules (j + 1)) ∧
    chosenPlace weight draw unevenRules ≠ some 2 := by
  intro weight draw
  have hne : unevenRules ≠ [] := by decide +kernel
  have hnonneg : ∀ rule ∈ unevenRules, 0 ≤ weight rule :=
    fun rule _ => Binary64.toRat_nonneg rule.frequency_nonneg
  have hdraw : draw < 1 := by decide +kernel
  have hdivides := choose_divides hne hnonneg hdraw
  exact ⟨hne, hnonneg, hdraw, by decide +kernel, by decide +kernel, hdivides.1,
    (hdivides.2.2.2 2 (by decide +kernel) (by decide)).2.2 (by decide +kernel)⟩

end WeightedChoice

end TextGrammar
