import TextGrammar.Proofs.ExactShares
import TextGrammar.Proofs.RoundedChoice

/-!
# Positive Choice

When the weighted choice passes things without weight.

A thing is chosen when its weight covers what is left of the draw. As long as something
is left, only a thing with a weight can do so, and passing a thing leaves something
again: in double precision too, where a difference of numbers that are not equal is never
rounded to nothing. So all depends on what is left at first. If that is nothing, the
first thing is chosen, whatever its weight.

Nothing is left at first for the draw zero, and also for a draw that comes to zero when
it is scaled to the sum of the weights, as one half does for a sum that is the least
number above zero. With exact numbers there is no such draw but zero.

## Theorems

* `WeightedChoice.exists_of_pick`: What is true of the rest while things are passed is
  true of it where one is chosen.
* `WeightedChoice.pick_pos`, `WeightedChoice.pick_of_le_zero`: The choice from something
  and from nothing.
* `Candidates.choose_positive_iff`: The candidates of which only those with a frequency are
  chosen.
* `Candidates.choose_weightlessFirst`: Two lists that are not of this kind.
-/

namespace TextGrammar

open Number

namespace Binary64

theorem finite_le_iff {negative : Bool} {units : Nat} {valid : IsMagnitude units} {y : Binary64}
    {n : Nat} (hy : y.HasUnits n) :
    finite negative units valid ≤ y ↔ signed negative units ≤ n := by
  cases hy with
  | intro negative' units' valid' _ hy =>
      change (decide (signed negative units < signed negative' units') ||
        decide (signed negative units = signed negative' units')) = true ↔ _
      rw [hy, Bool.or_eq_true, decide_eq_true_eq, decide_eq_true_eq]
      omega

/-- What is at most zero is at most everything that is not below zero. -/
theorem le_of_le_zero {x y : Binary64} {n : Nat} (hy : y.HasUnits n) (hx : x ≤ 0) : x ≤ y := by
  cases x with
  | nan => exact absurd hx Bool.false_ne_true
  | infinity negative =>
      cases negative with
      | true => cases hy; rfl
      | false => exact absurd hx Bool.false_ne_true
  | finite negative units valid =>
      rw [finite_le_iff hasUnits_zero] at hx
      rw [finite_le_iff hy]
      exact hx.trans (Int.natCast_nonneg n)

/-- What is at least something is above zero. -/
theorem pos_of_le {x y : Binary64} {n : Nat} (hy : y.HasUnits n) (hx : ¬ x ≤ 0) (hle : x ≤ y) :
    0 < y := by
  refine (lt_iff hasUnits_zero hy).2 (Nat.pos_of_ne_zero ?_)
  rintro rfl
  refine hx ?_
  cases x with
  | nan => exact absurd hle Bool.false_ne_true
  | infinity negative => cases hy; exact hle
  | finite negative units valid =>
      rw [finite_le_iff hy] at hle
      exact (finite_le_iff hasUnits_zero).2 hle

/-- The difference to a smaller number is not rounded to nothing. -/
theorem not_sub_le_zero {x y : Binary64} {n : Nat} (hy : y.HasUnits n) (hx : ¬ x ≤ 0)
    (hle : ¬ x ≤ y) : ¬ x - y ≤ 0 := by
  cases x with
  | nan => cases hy; exact Bool.false_ne_true
  | infinity negative =>
      cases negative with
      | true => exact absurd rfl hx
      | false => cases hy; exact Bool.false_ne_true
  | finite negative units valid =>
      rw [finite_le_iff hy] at hle
      obtain ⟨a, ha⟩ := Int.eq_ofNat_of_zero_le (show 0 ≤ signed negative units by omega)
      have hunits : HasUnits (.finite negative units valid) a := .intro _ _ _ _ ha
      -- One unit is a short count, and so a bound that rounding keeps.
      have hone : roundRatio 1 1 = 1 := roundRatio_one ⟨1, by decide⟩
      have hmono : roundRatio 1 1 ≤ roundRatio (a - n) 1 := roundRatio_mono (by omega)
      rw [le_iff (hasUnits_sub hunits hy (by omega)) hasUnits_zero]
      omega

/-- A number with a positive value is above zero. -/
theorem pos_of_toRat_pos {x : Binary64} (h : 0 < x.toRat) : 0 < x := by
  cases x with
  | nan => exact absurd h (lt_irrefl 0)
  | infinity negative => exact absurd h (lt_irrefl 0)
  | finite negative units valid =>
      have hsigned : (0 : ℚ) < signed negative units :=
        (div_pos_iff_of_pos_right unitsPerOne_pos).1 h
      exact decide_eq_true (Int.cast_pos.1 hsigned)

end Binary64

open Binary64

namespace WeightedChoice

section Passing

variable {W α : Type} [Sub W] [LE W] [DecidableLE W] {weight : α → W} {P : W → Prop}

/-- What is true of the rest at first, and stays so when a thing is passed, is true of
    the rest that the chosen thing covers. -/
theorem exists_of_pick {xs : List α}
    (hpass : ∀ x ∈ xs, ∀ left, P left → ¬ left ≤ weight x → P (left - weight x)) {left : W}
    (hleft : P left) {x : α} (h : pick weight left xs = some x) :
    ∃ rest, P rest ∧ rest ≤ weight x := by
  induction xs generalizing left with
  | nil => exact absurd h nofun
  | cons y rest ih =>
      rw [pick] at h
      split at h
      · rename_i hcovered
        rw [← Option.some.inj h]
        exact ⟨left, hleft, hcovered⟩
      · rename_i hpassed
        exact ih (fun z hz => hpass z (List.mem_cons_of_mem _ hz))
          (hpass y (List.mem_cons_self ..) left hleft hpassed) h

end Passing

section Rounded

variable {α : Type} {weight : α → Binary64} {xs : List α}

/-- As long as something is left, only a thing with a weight is chosen. -/
theorem pick_pos (hunits : ∀ x ∈ xs, ∃ n, (weight x).HasUnits n) {left : Binary64}
    (hleft : ¬ left ≤ 0) {x : α} (h : pick weight left xs = some x) : 0 < weight x := by
  have hpass : ∀ x ∈ xs, ∀ left, ¬ left ≤ 0 → ¬ left ≤ weight x → ¬ left - weight x ≤ 0 :=
    fun x hx left hleft hpassed => by
      rcases hunits x hx with ⟨n, hn⟩
      exact not_sub_le_zero hn hleft hpassed
  rcases exists_of_pick hpass hleft h with ⟨rest, hrest, hcovered⟩
  rcases hunits x (mem_of_pick weight left xs x h) with ⟨n, hn⟩
  exact pos_of_le hn hrest hcovered

/-- With nothing left, the first thing is chosen. -/
theorem pick_of_le_zero (hunits : ∀ x ∈ xs, ∃ n, (weight x).HasUnits n) {left : Binary64}
    (hleft : left ≤ 0) : pick weight left xs = xs.head? := by
  cases xs with
  | nil => rfl
  | cons x rest =>
      rcases hunits x (List.mem_cons_self ..) with ⟨n, hn⟩
      rw [pick, if_pos (le_of_le_zero hn hleft), List.head?_cons]

end Rounded

section Exact

variable {α K : Type} [Field K] [LinearOrder K] [IsStrictOrderedRing K] (weight : α → K)

/-- With exact numbers, every draw above zero chooses a thing with a weight, if there
    is any. -/
theorem exists_choose_pos {xs : List α} (hnonneg : ∀ x ∈ xs, 0 ≤ weight x)
    (hpos : ∃ x ∈ xs, 0 < weight x) {draw : K} (hdraw : 0 < draw) (hone : draw < 1) :
    ∃ x, choose weight draw xs = some x ∧ 0 < weight x := by
  rcases hpos with ⟨y, hy, hweight⟩
  have hsum : 0 < total weight xs := by
    have hle := List.single_le_sum (l := xs.map weight)
      (fun w hw => by rcases List.mem_map.1 hw with ⟨x, hx, rfl⟩; exact hnonneg x hx)
      (weight y) (List.mem_map_of_mem hy)
    rw [total_eq_sum]
    exact hweight.trans_le hle
  rcases exists_fallsOn (List.ne_nil_of_mem hy) hnonneg hone with ⟨i, hi, hfalls, _⟩
  have hchoose : choose weight draw xs = some xs[i] := by
    rw [choose_eq_chosenPlace, chosenPlace_of_fallsOn hnonneg hi hfalls, Option.bind_some,
      List.getElem?_eq_getElem hi]
  have hpass : ∀ x ∈ xs, ∀ left : K, 0 < left → ¬ left ≤ weight x → 0 < left - weight x :=
    fun _ _ _ _ hpassed => sub_pos.2 (not_le.1 hpassed)
  rcases exists_of_pick hpass (mul_pos hdraw hsum) hchoose with ⟨rest, hrest, hcovered⟩
  exact ⟨xs[i], hchoose, hrest.trans_le hcovered⟩

end Exact

end WeightedChoice

namespace Candidates

open WeightedChoice

/-- All draws choose a rule with a frequency exactly if the candidates are covered and the
    first one has a frequency. Whatever is chosen by any draw has one, except the first
    candidate for a draw that comes to nothing when it is scaled to the sum of the
    frequencies, and for such a draw the first candidate is chosen. With exact numbers,
    every draw above zero chooses a rule with a frequency, in whatever order the
    candidates are. -/
theorem choose_positive_iff (rules : List RegisteredRule)
    (hfinite : ∀ rule ∈ rules, rule.frequency.IsFinite)
    (hpos : ∃ rule ∈ rules, 0 < rule.frequency) :
    let found := ofList rules
    ((∀ draw, IsDraw draw → ∃ rule, found.choose draw = some rule ∧ 0 < rule.frequency) ↔
      found.IsCovered ∧ ∃ first ∈ rules.head?, 0 < first.frequency) ∧
    (∀ draw rule, found.choose draw = some rule →
      0 < rule.frequency ∨ draw * found.totalFrequency ≤ 0 ∧ rules.head? = some rule) ∧
    (∀ draw, draw * found.totalFrequency ≤ 0 → found.choose draw = rules.head?) ∧
    ∀ draw : ℚ, 0 < draw → draw < 1 →
      ∃ rule, WeightedChoice.choose (fun rule : RegisteredRule => rule.frequency.toRat) draw
        rules = some rule ∧ 0 < rule.frequency := by
  intro found
  have hunits : ∀ rule ∈ rules, ∃ n, rule.frequency.HasUnits n := fun rule hrule =>
    exists_hasUnits (hfinite rule hrule) rule.frequency_nonneg
  have hnothing : ∀ draw, draw * found.totalFrequency ≤ 0 → found.choose draw = rules.head? :=
    fun draw => pick_of_le_zero hunits
  have hsomething : ∀ draw rule, found.choose draw = some rule →
      0 < rule.frequency ∨ draw * found.totalFrequency ≤ 0 ∧ rules.head? = some rule := by
    intro draw rule hchoose
    by_cases hleft : draw * found.totalFrequency ≤ 0
    · exact Or.inr ⟨hleft, (hnothing draw hleft).symm.trans hchoose⟩
    · exact Or.inl (pick_pos hunits hleft hchoose)
  have hcovered : found.IsCovered ↔ ∀ draw, IsDraw draw → found.choose draw ≠ none :=
    (choose_ne_none_iff (fun rule : RegisteredRule => rule.frequency)
      fun rule _ => rule.frequency_nonneg).symm
  refine ⟨⟨fun h => ?_, ?_⟩, hsomething, hnothing, fun draw hdraw hone => ?_⟩
  · have hall : found.IsCovered := hcovered.2 fun draw hdraw hnone => by
      rcases h draw hdraw with ⟨rule, hchoose, _⟩
      exact absurd (hnone.symm.trans hchoose) nofun
    -- The draw zero leaves nothing of a finite sum, and so chooses the first candidate.
    rcases exists_hasUnits_foldl _ rules 0 ⟨0, hasUnits_zero⟩ hunits hall.1 with ⟨t, ht⟩
    have hscaled := (hasUnits_part hasUnits_zero (Nat.zero_le _) ht).1
    have hzero : 0 * found.totalFrequency ≤ 0 := by
      refine (le_iff hscaled hasUnits_zero).2 (roundRatio_le unitsPerOne_pos isShort_zero ?_)
      rw [Nat.zero_mul]
      exact Nat.zero_le _
    rcases h 0 isDraw_zero with ⟨first, hchoose, hfrequency⟩
    exact ⟨hall, first, (hnothing 0 hzero).symm.trans hchoose, hfrequency⟩
  · rintro ⟨hall, first, hfirst, hfrequency⟩ draw hdraw
    obtain ⟨rule, hchoose⟩ := Option.ne_none_iff_exists'.1 (hcovered.1 hall draw hdraw)
    refine ⟨rule, hchoose, ?_⟩
    rcases hsomething draw rule hchoose with hfrequency | ⟨_, hhead⟩
    · exact hfrequency
    · rwa [← Option.some.inj (hfirst.symm.trans hhead)]
  · rcases hpos with ⟨rule, hrule, hfrequency⟩
    rcases exists_choose_pos (fun rule : RegisteredRule => rule.frequency.toRat)
      (fun rule _ => toRat_nonneg rule.frequency_nonneg)
      ⟨rule, hrule, toRat_pos (hfinite rule hrule) hfrequency⟩ hdraw hone with
      ⟨chosen, hchoose, hchosen⟩
    exact ⟨chosen, hchoose, pos_of_toRat_pos hchosen⟩

/-- Rules with the given frequencies, in their order. -/
def rulesOf (frequencies : List Quantity) : List RegisteredRule :=
  (RuleSet.ofList (frequencies.filterMap fun frequency =>
    (Rule.create { tag := ⟨"a", none⟩, frequency := frequency }).toOption)).toList

/-- Behind a rule with a frequency, one without is not chosen by any draw. -/
theorem choose_positive_weightlessSecond :
    (∀ rule ∈ rulesOf [.whole 1, .whole 0, .whole 2], rule.frequency.IsFinite) ∧
      (∃ rule ∈ rulesOf [.whole 1, .whole 0, .whole 2], 0 < rule.frequency) ∧
      ∀ draw, IsDraw draw →
        ∃ rule, (ofList (rulesOf [.whole 1, .whole 0, .whole 2])).choose draw = some rule ∧
          0 < rule.frequency := by
  have hfinite : ∀ rule ∈ rulesOf [.whole 1, .whole 0, .whole 2], rule.frequency.IsFinite := by
    decide +kernel
  have hpos : ∃ rule ∈ rulesOf [.whole 1, .whole 0, .whole 2], 0 < rule.frequency := by
    decide +kernel
  have hiff := (choose_positive_iff _ hfinite hpos).1
  refine ⟨hfinite, hpos, hiff.2 ⟨And.intro ?_ ?_, ?_⟩⟩
  · decide +kernel
  · decide +kernel
  · decide +kernel

/-- In front of a rule with a frequency, one without is chosen by the draw zero, and by
    one half if the other one has the least frequency above zero. -/
theorem choose_weightlessFirst :
    ((∀ rule ∈ rulesOf [.whole 0, .whole 1], rule.frequency.IsFinite) ∧
      (∃ rule ∈ rulesOf [.whole 0, .whole 1], 0 < rule.frequency) ∧ IsDraw 0 ∧
      ¬ ∃ rule, (ofList (rulesOf [.whole 0, .whole 1])).choose 0 = some rule ∧
        0 < rule.frequency) ∧
    (∀ rule ∈ rulesOf [.whole 0, .real (ofUnits false 1 1)], rule.frequency.IsFinite) ∧
      (∃ rule ∈ rulesOf [.whole 0, .real (ofUnits false 1 1)], 0 < rule.frequency) ∧
      IsDraw (ofRatio 1 2) ∧
      ¬ ∃ rule, (ofList (rulesOf [.whole 0, .real (ofUnits false 1 1)])).choose (ofRatio 1 2) =
        some rule ∧ 0 < rule.frequency := by
  have hnot : ∀ (choice : Option RegisteredRule),
      (choice.all fun rule => decide (¬ 0 < rule.frequency)) = true →
        ¬ ∃ rule, choice = some rule ∧ 0 < rule.frequency := by
    rintro choice hall ⟨rule, rfl, hpos⟩
    exact of_decide_eq_true hall hpos
  refine ⟨⟨?_, ?_, isDraw_zero, hnot _ ?_⟩, ?_, ?_, ?_, hnot _ ?_⟩
  · decide +kernel
  · decide +kernel
  · decide +kernel
  · decide +kernel
  · decide +kernel
  · decide +kernel
  · decide +kernel

end Candidates

end TextGrammar
