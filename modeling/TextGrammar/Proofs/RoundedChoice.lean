import TextGrammar.Proofs.ExactChoice
import TextGrammar.Proofs.Number.Rounding

/-!
# Rounded Choice

When the weighted choice reaches one of the things, in double precision.

The sum of the weights is taken by additions from the front, and a scaled draw is
used up by subtractions from the front. Each step rounds on its own, so the two
need not meet, and a draw close to one may outlast all weights. A sum that is
infinite or not a number leaves no draw to be used up, and reaches nothing from
the outset.

Both things can be told from two draws. Scaling, subtracting and comparing keep
the order of numbers under rounding, so what reaches something leaves nothing for
smaller draws to miss: the greatest number below one is the worst of all draws. A
sum that is not finite is missed by the draw zero.

Where the weights are whole multiples of one power of two, no more than 2 ^ 53 of
them together, nothing is rounded but the scaled draw, and that is never more than
the sum. Whole weights with a sum of up to 2 ^ 53 are of this kind.

## Main definitions

* `WeightedChoice.IsGrained`: Weights whose sums are exact.
* `Candidates.IsCovered`: Candidates with a finite sum that the greatest draw does
  not miss.

## Theorems

* `WeightedChoice.pick_ne_none_of_le`: What is not missed from somewhere is not
  missed from below.
* `WeightedChoice.choose_ne_none_iff`: The choices that no draw makes miss.
* `WeightedChoice.choose_ne_none_of_isGrained`: Exact sums are such choices.
-/

namespace TextGrammar

open Number

namespace Binary64

theorem isFinite_of_add {x y : Binary64} (h : (x + y).IsFinite) : x.IsFinite ∧ y.IsFinite := by
  cases x with
  | nan => exact absurd h id
  | infinity negative =>
      cases y with
      | nan => exact absurd h id
      | infinity negative' => cases negative <;> cases negative' <;> exact absurd h id
      | finite negative' units' valid' => exact absurd h id
  | finite negative units valid =>
      cases y with
      | nan => exact absurd h id
      | infinity negative' => exact absurd h id
      | finite negative' units' valid' => exact ⟨trivial, trivial⟩

theorem HasUnits.isFinite {x : Binary64} {n : Nat} (h : x.HasUnits n) : x.IsFinite := by
  cases h with
  | intro negative units valid _ _ => exact trivial

theorem exists_hasUnits {x : Binary64} (hfinite : x.IsFinite) (hnonneg : ¬ x < 0) :
    ∃ n, x.HasUnits n := by
  cases x with
  | nan => exact absurd hfinite id
  | infinity negative => exact absurd hfinite id
  | finite negative units valid =>
      rw [finite_lt_zero] at hnonneg
      obtain ⟨n, hn⟩ := Int.eq_ofNat_of_zero_le (Int.not_lt.1 hnonneg)
      exact ⟨n, .intro _ _ _ _ hn⟩

/-- A finite sum has a count of units if the terms have. -/
theorem exists_hasUnits_add {x y : Binary64} {a b : Nat} (hx : x.HasUnits a) (hy : y.HasUnits b)
    (hfinite : (x + y).IsFinite) : ∃ n, (x + y).HasUnits n := by
  by_cases hne : a + b = 0
  · rcases Nat.add_eq_zero_iff.1 hne with ⟨rfl, rfl⟩
    exact ⟨0, hasUnits_add_zero hx hy⟩
  · rw [add_eq_ofUnits hx hy hne] at hfinite ⊢
    by_cases hlt : roundRatio (a + b) 1 < unitLimit
    · exact ⟨_, hasUnits_ofUnits (fun hneg => absurd hneg Bool.false_ne_true) hlt⟩
    · unfold ofUnits at hfinite
      rw [dif_neg hlt] at hfinite
      exact absurd hfinite id

/-- Nothing of what is not finite is no number. -/
theorem zero_mul_of_not_isFinite {x : Binary64} (h : ¬ x.IsFinite) : 0 * x = nan .fresh := by
  cases x with
  | nan => rfl
  | infinity negative => rfl
  | finite negative units valid => exact absurd trivial h

/-- The units of a finite number without its sign, and none of the others. -/
def magnitude : Binary64 → Nat
  | .finite _ units _ => units
  | _ => 0

theorem hasUnits_magnitude {x : Binary64} (hfinite : x.IsFinite) (hnonneg : ¬ x < 0) :
    x.HasUnits x.magnitude := by
  rcases exists_hasUnits hfinite hnonneg with ⟨n, hn⟩
  cases hn with
  | intro negative units valid _ hn =>
      have hunits := (eq_of_signed hn).1
      exact .intro _ _ _ _ (hn.trans (by rw [magnitude, hunits]))

end Binary64

open Binary64

namespace WeightedChoice

variable {α : Type} (weight : α → Binary64)

/-- From no number on, nothing is reached. -/
theorem pick_nan (object : NanObject) (xs : List α) : pick weight (nan object) xs = none := by
  induction xs generalizing object with
  | nil => rfl
  | cons x rest ih =>
      have hle : ¬ nan object ≤ weight x := Bool.false_ne_true
      rw [pick, if_neg hle]
      exact ih .fresh

/-- If something is reached from a number on, then it is so from all smaller ones. -/
theorem pick_ne_none_of_le (xs : List α) (hunits : ∀ x ∈ xs, ∃ n, (weight x).HasUnits n)
    {left more : Binary64} {a b : Nat} (hleft : left.HasUnits a) (hmore : more.HasUnits b)
    (hab : a ≤ b) (h : pick weight more xs ≠ none) : pick weight left xs ≠ none := by
  induction xs generalizing left more a b with
  | nil => exact h
  | cons x rest ih =>
      rcases hunits x (List.mem_cons_self ..) with ⟨n, hn⟩
      rw [pick] at h ⊢
      by_cases hcovered : a ≤ n
      · rw [if_pos ((le_iff hleft hn).2 hcovered)]
        exact Option.some_ne_none _
      · -- What is left of the smaller number is still the smaller one.
        rw [if_neg fun hle => hcovered ((le_iff hleft hn).1 hle)]
        rw [if_neg fun hle => absurd ((le_iff hmore hn).1 hle) (by omega)] at h
        refine ih (fun y hy => hunits y (List.mem_cons_of_mem _ hy))
          (hasUnits_sub hleft hn (by omega)) (hasUnits_sub hmore hn (by omega)) ?_ h
        exact roundRatio_mono (by omega)

theorem isFinite_of_foldl (xs : List α) (start : Binary64)
    (h : (xs.foldl (fun sum x => sum + weight x) start).IsFinite) :
    start.IsFinite ∧ ∀ x ∈ xs, (weight x).IsFinite := by
  induction xs generalizing start with
  | nil => exact ⟨h, fun x hx => absurd hx List.not_mem_nil⟩
  | cons x rest ih =>
      rcases ih (start + weight x) h with ⟨hsum, hrest⟩
      rcases isFinite_of_add hsum with ⟨hstart, hx⟩
      refine ⟨hstart, fun y hy => ?_⟩
      rcases List.mem_cons.1 hy with rfl | hy
      · exact hx
      · exact hrest y hy

theorem exists_hasUnits_foldl (xs : List α) (start : Binary64) (hstart : ∃ a, start.HasUnits a)
    (hunits : ∀ x ∈ xs, ∃ n, (weight x).HasUnits n)
    (h : (xs.foldl (fun sum x => sum + weight x) start).IsFinite) :
    ∃ t, (xs.foldl (fun sum x => sum + weight x) start).HasUnits t := by
  induction xs generalizing start with
  | nil => exact hstart
  | cons x rest ih =>
      rcases hstart with ⟨a, ha⟩
      rcases hunits x (List.mem_cons_self ..) with ⟨n, hn⟩
      have hsum := (isFinite_of_foldl weight rest (start + weight x) h).1
      exact ih (start + weight x) (exists_hasUnits_add ha hn hsum)
        (fun y hy => hunits y (List.mem_cons_of_mem _ hy)) h

/-- No draw misses all things exactly if the sum of the weights is finite and the
    greatest draw does not. -/
theorem choose_ne_none_iff {xs : List α} (hnonneg : ∀ x ∈ xs, ¬ weight x < 0) :
    (∀ draw, IsDraw draw → choose weight draw xs ≠ none) ↔
      (total weight xs).IsFinite ∧ choose weight belowOne xs ≠ none := by
  constructor
  · intro h
    refine ⟨?_, h belowOne isDraw_belowOne⟩
    by_contra hfinite
    have hzero := h 0 isDraw_zero
    rw [choose, zero_mul_of_not_isFinite hfinite, pick_nan] at hzero
    exact hzero rfl
  · rintro ⟨hfinite, hworst⟩ draw hdraw
    have hunits : ∀ x ∈ xs, ∃ n, (weight x).HasUnits n := fun x hx =>
      exists_hasUnits ((isFinite_of_foldl weight xs 0 hfinite).2 x hx) (hnonneg x hx)
    rcases exists_hasUnits_foldl weight xs 0 ⟨0, hasUnits_zero⟩ hunits hfinite with ⟨t, ht⟩
    rcases hdraw.exists_hasUnits with ⟨d, hd, hle⟩
    -- The draw is scaled to at most what the greatest one is scaled to.
    have hleft := (hasUnits_part hd (Nat.le_trans hle unitsBelowOne_le) ht).1
    have hmore := (hasUnits_part hasUnits_belowOne unitsBelowOne_le ht).1
    exact pick_ne_none_of_le weight xs hunits hleft hmore
      (roundRatio_mono (Nat.mul_le_mul_right t hle)) hworst

/-- The sum of the units of the weights. -/
def sumUnits (xs : List α) : Nat := (xs.map fun x => (weight x).magnitude).sum

theorem sumUnits_cons (x : α) (rest : List α) :
    sumUnits weight (x :: rest) = (weight x).magnitude + sumUnits weight rest := by
  rw [sumUnits, List.map_cons, List.sum_cons]
  rfl

/-- Finite weights that are whole multiples of a power of two, no more than 2 ^ 53 of
    them together, with a finite sum. -/
structure IsGrained (grain : Nat) (xs : List α) : Prop where
  isFinite : ∀ x ∈ xs, (weight x).IsFinite
  dvd : ∀ x ∈ xs, Nat.pow 2 grain ∣ (weight x).magnitude
  sum_le : sumUnits weight xs ≤ Nat.pow 2 53 * Nat.pow 2 grain
  sum_lt : sumUnits weight xs < unitLimit

variable {weight} {grain : Nat}

theorem IsGrained.of_cons {x : α} {rest : List α} (h : IsGrained weight grain (x :: rest)) :
    IsGrained weight grain rest := by
  have hsum := sumUnits_cons weight x rest
  refine ⟨fun y hy => h.isFinite y (List.mem_cons_of_mem _ hy),
    fun y hy => h.dvd y (List.mem_cons_of_mem _ hy), ?_, ?_⟩
  · exact Nat.le_trans (by omega) h.sum_le
  · exact Nat.lt_of_le_of_lt (by omega) h.sum_lt

/-- Fewer weights are so too. -/
theorem IsGrained.of_sublist {xs ys : List α} (hsub : ys.Sublist xs)
    (h : IsGrained weight grain xs) : IsGrained weight grain ys := by
  have hsum : sumUnits weight ys ≤ sumUnits weight xs :=
    (hsub.map fun x => (weight x).magnitude).sum_le_sum fun n _ => Nat.zero_le n
  exact ⟨fun x hx => h.isFinite x (hsub.subset hx), fun x hx => h.dvd x (hsub.subset hx),
    Nat.le_trans hsum h.sum_le, Nat.lt_of_le_of_lt hsum h.sum_lt⟩

/-- Weights of one have exact sums, up to 2 ^ 53 of them. -/
theorem isGrained_of_forall_eq_one {xs : List α} (hone : ∀ x ∈ xs, weight x = 1)
    (hlength : xs.length ≤ Nat.pow 2 53) : IsGrained weight unitExponent xs := by
  have hunits : ∀ x ∈ xs, (weight x).magnitude = Nat.pow 2 unitExponent := fun x hx => by
    rw [hone x hx]
    decide +kernel
  have hsum : sumUnits weight xs = xs.length * Nat.pow 2 unitExponent := by
    rw [sumUnits, List.map_congr_left hunits, List.map_const', List.sum_replicate_nat]
  have hle := Nat.mul_le_mul_right (Nat.pow 2 unitExponent) hlength
  refine ⟨fun x hx => ?_, fun x hx => dvd_of_eq (hunits x hx).symm, hsum.trans_le hle, ?_⟩
  · have hx' : (weight x).HasUnits unitsPerOne := (hone x hx).symm ▸ hasUnits_one
    exact hx'.isFinite
  · exact (hsum.trans_le hle).trans_lt (by decide +kernel)

/-- Their sum is not rounded. -/
theorem hasUnits_foldl_of_isGrained {xs : List α} (hnonneg : ∀ x ∈ xs, ¬ weight x < 0)
    (hfinite : ∀ x ∈ xs, (weight x).IsFinite)
    (hdvd : ∀ x ∈ xs, Nat.pow 2 grain ∣ (weight x).magnitude) {start : Binary64} {a : Nat}
    (ha : start.HasUnits a) (hstart : Nat.pow 2 grain ∣ a)
    (hle : a + sumUnits weight xs ≤ Nat.pow 2 53 * Nat.pow 2 grain)
    (hlt : a + sumUnits weight xs < unitLimit) :
    (xs.foldl (fun sum x => sum + weight x) start).HasUnits (a + sumUnits weight xs) := by
  induction xs generalizing start a with
  | nil => exact ha
  | cons x rest ih =>
      have hx := hasUnits_magnitude (hfinite x (List.mem_cons_self ..))
        (hnonneg x (List.mem_cons_self ..))
      rw [sumUnits_cons, ← Nat.add_assoc] at hle hlt ⊢
      have hgrain := Nat.dvd_add hstart (hdvd x (List.mem_cons_self ..))
      have hround : roundRatio (a + (weight x).magnitude) 1 = a + (weight x).magnitude :=
        roundRatio_one (isShort_of_dvd hgrain (by omega))
      have hnext := hasUnits_add ha hx (by omega)
      rw [hround] at hnext
      exact ih (fun y hy => hnonneg y (List.mem_cons_of_mem _ hy))
        (fun y hy => hfinite y (List.mem_cons_of_mem _ hy))
        (fun y hy => hdvd y (List.mem_cons_of_mem _ hy)) hnext hgrain hle hlt

/-- From anything up to their sum on, something is reached, since no difference is
    rounded. -/
theorem pick_ne_none_of_isGrained {xs : List α} (hne : xs ≠ [])
    (hnonneg : ∀ x ∈ xs, ¬ weight x < 0) (h : IsGrained weight grain xs) {left : Binary64}
    {a : Nat} (ha : left.HasUnits a) (hle : a ≤ sumUnits weight xs) :
    pick weight left xs ≠ none := by
  induction xs generalizing left a with
  | nil => exact absurd rfl hne
  | cons x rest ih =>
      have hx := hasUnits_magnitude (h.isFinite x (List.mem_cons_self ..))
        (hnonneg x (List.mem_cons_self ..))
      rw [sumUnits_cons] at hle
      rw [pick]
      by_cases hcovered : a ≤ (weight x).magnitude
      · rw [if_pos ((le_iff ha hx).2 hcovered)]
        exact Option.some_ne_none _
      · rw [if_neg fun hle => hcovered ((le_iff ha hx).1 hle)]
        have hbound := Nat.le_trans hle (sumUnits_cons weight x rest ▸ h.sum_le)
        have hshort : IsShort (a - (weight x).magnitude) :=
          isShort_sub ha.isShort hbound (h.dvd x (List.mem_cons_self ..)) (by omega)
        have hnext := hasUnits_sub ha hx (by omega)
        rw [roundRatio_one hshort] at hnext
        refine ih ?_ (fun y hy => hnonneg y (List.mem_cons_of_mem _ hy)) h.of_cons hnext (by omega)
        -- More than the first weight is left, so there are others.
        rintro rfl
        have hnil : sumUnits weight [] = 0 := rfl
        omega

/-- No draw misses all of some things if the sums of their weights are exact. -/
theorem choose_ne_none_of_isGrained {xs : List α} (hne : xs ≠ [])
    (hnonneg : ∀ x ∈ xs, ¬ weight x < 0) (h : IsGrained weight grain xs) {draw : Binary64}
    (hdraw : draw.IsDraw) : choose weight draw xs ≠ none := by
  have ht : (total weight xs).HasUnits (0 + sumUnits weight xs) := by
    refine hasUnits_foldl_of_isGrained hnonneg h.isFinite h.dvd hasUnits_zero (Nat.dvd_zero _)
      ?_ ?_
    · rw [Nat.zero_add]
      exact h.sum_le
    · rw [Nat.zero_add]
      exact h.sum_lt
  rw [Nat.zero_add] at ht
  rcases hdraw.exists_hasUnits with ⟨d, hd, hle⟩
  rcases hasUnits_part hd (Nat.le_trans hle unitsBelowOne_le) ht with ⟨hleft, hpart⟩
  exact pick_ne_none_of_isGrained hne hnonneg h hleft hpart

end WeightedChoice

namespace Candidates

/-- The sum of the frequencies is finite, and the greatest draw does not miss all
    candidates. -/
def IsCovered (found : Candidates) : Prop :=
  found.totalFrequency.IsFinite ∧ found.choose belowOne ≠ none

/-- A search leaves out rules and changes nothing else. -/
theorem sublist_of_search {ref : Reference} {data : Namespace} {floor : Option Int}
    {rules found : List RegisteredRule} (h : search ref data floor rules = .ok found) :
    found.Sublist rules := by
  induction rules generalizing floor found with
  | nil =>
      rw [search, Except.ok.injEq] at h
      rw [← h]
  | cons first rest ih =>
      rw [search] at h
      split at h
      · rw [← Except.ok.inj h]
        exact List.nil_sublist _
      · split at h
        · exact (ih h).cons first
        · split at h
          · cases h
          · exact (ih h).cons first
          · split at h
            · cases h
            · rename_i more hmore
              rw [← Except.ok.inj h]
              exact (ih hmore).cons_cons first

theorem eq_ofList_of_find {rules : RuleSet} {ref : Reference} {data : Namespace}
    {found : Candidates} (h : find rules ref data = .ok found) :
    found = ofList found.rules ∧ found.rules.Sublist (rules.rulesFor ref.tag) := by
  unfold find at h
  split at h
  · exact absurd h nofun
  · rename_i list hlist
    rw [← Except.ok.inj h]
    exact ⟨rfl, sublist_of_search hlist⟩

/-- The candidates for a reference are covered exactly if no draw misses them all. -/
theorem isCovered_iff {rules : RuleSet} {ref : Reference} {data : Namespace} {found : Candidates}
    (h : find rules ref data = .ok found) :
    found.IsCovered ↔ ∀ draw, IsDraw draw → found.choose draw ≠ none := by
  unfold IsCovered
  rw [(eq_ofList_of_find h).1]
  exact (WeightedChoice.choose_ne_none_iff (fun rule : RegisteredRule => rule.frequency)
    fun rule _ => rule.frequency_nonneg).symm

end Candidates

end TextGrammar
