import Mathlib.Order.Lattice
import Mathlib.Order.RelClasses

/-!
# Sorted Lists

Lists that are in the order of a key, and the stable sort that puts them there.

A list in order is determined by its parts of equal key. Sorting keeps these parts as
they are when it is stable, so whatever is in order and has the same parts is what
sorting gives.

## Theorems

* `eq_of_filter_eq`: Lists in order with the same parts are equal.
* `pairwise_mergeSort_key`: Sorting gives a list in order.
* `filter_mergeSort_key`: Sorting keeps the parts of equal key.
* `eq_mergeSort_key`: A list in order with the same parts is the sorted one.
-/

namespace TextGrammar

section

variable {α κ : Type} (key : α → κ) {r : κ → κ → Prop} [Std.Refl r]

theorem key_of_mem_cons {x : α} {xs : List α}
    (h : (x :: xs).Pairwise fun a b => r (key a) (key b)) : ∀ z ∈ x :: xs, r (key x) (key z) := by
  intro z hz
  rcases List.mem_cons.1 hz with rfl | hz
  · exact Std.Refl.refl _
  · exact (List.pairwise_cons.1 h).1 z hz

variable [DecidableEq κ]

omit [Std.Refl r] in
/-- The part of a list with the key of its first element starts with that element. -/
theorem filter_key_cons (x : α) (xs : List α) :
    (x :: xs).filter (fun z => decide (key z = key x)) =
      x :: xs.filter fun z => decide (key z = key x) :=
  List.filter_cons_of_pos (decide_eq_true rfl)

/-- The first elements of two lists that hold the same for each key are in both. -/
theorem mem_of_filter_eq {y : α} {xs ys : List α}
    (h : ∀ k, xs.filter (fun z => decide (key z = k)) =
      (y :: ys).filter fun z => decide (key z = k)) : y ∈ xs := by
  have hpart := h (key y)
  rw [filter_key_cons] at hpart
  have hmem : y ∈ xs.filter fun z => decide (key z = key y) := by
    rw [hpart]
    exact List.mem_cons_self ..
  exact (List.mem_filter.1 hmem).1

/-- Two lists in the order of a key are equal if they hold the same for each key, in the
    same order. -/
theorem eq_of_filter_eq [Std.Antisymm r] {xs ys : List α}
    (hx : xs.Pairwise fun a b => r (key a) (key b))
    (hy : ys.Pairwise fun a b => r (key a) (key b))
    (h : ∀ k, xs.filter (fun z => decide (key z = k)) =
      ys.filter fun z => decide (key z = k)) : xs = ys := by
  induction xs generalizing ys with
  | nil =>
      cases ys with
      | nil => rfl
      | cons y ys => exact absurd (mem_of_filter_eq key h) List.not_mem_nil
  | cons x xs ih =>
      cases ys with
      | nil => exact absurd (mem_of_filter_eq key fun k => (h k).symm) List.not_mem_nil
      | cons y ys =>
          -- Each of the first elements has the first key of its own list, and is in the
          -- other one.
          have hxy := key_of_mem_cons key hx y (mem_of_filter_eq key h)
          have hyx := key_of_mem_cons key hy x (mem_of_filter_eq key fun k => (h k).symm)
          have hkey : key x = key y := Std.Antisymm.antisymm _ _ hxy hyx
          have hfirst := h (key y)
          rw [filter_key_cons, ← hkey, filter_key_cons] at hfirst
          rcases List.cons.inj hfirst with ⟨rfl, htail⟩
          have hrest : xs = ys := by
            refine ih (List.pairwise_cons.1 hx).2 (List.pairwise_cons.1 hy).2 fun k => ?_
            by_cases hk : key x = k
            · subst hk
              exact htail
            · have hpart := h k
              rw [List.filter_cons_of_neg (by rwa [decide_eq_true_eq]),
                List.filter_cons_of_neg (by rwa [decide_eq_true_eq])] at hpart
              exact hpart
          rw [hrest]

end

section

variable {α κ : Type} [LinearOrder κ] (key : α → κ)

theorem decide_key_trans (a b c : α) (hab : decide (key a ≤ key b) = true)
    (hbc : decide (key b ≤ key c) = true) : decide (key a ≤ key c) = true :=
  decide_eq_true ((of_decide_eq_true hab).trans (of_decide_eq_true hbc))

theorem decide_key_total (a b : α) :
    (decide (key a ≤ key b) || decide (key b ≤ key a)) = true := by
  rw [Bool.or_eq_true, decide_eq_true_eq, decide_eq_true_eq]
  exact le_total _ _

/-- Sorting gives a list in the order of the key. -/
theorem pairwise_mergeSort_key (xs : List α) :
    (xs.mergeSort fun a b => decide (key a ≤ key b)).Pairwise fun a b => key a ≤ key b :=
  (List.pairwise_mergeSort (decide_key_trans key) (decide_key_total key) xs).imp of_decide_eq_true

/-- Sorting keeps what has one key in its order. -/
theorem filter_mergeSort_key (xs : List α) (k : κ) :
    (xs.mergeSort fun a b => decide (key a ≤ key b)).filter (fun z => decide (key z = k)) =
      xs.filter fun z => decide (key z = k) := by
  have hpart : (xs.filter fun z => decide (key z = k)).Pairwise
      fun a b => decide (key a ≤ key b) = true := by
    refine List.pairwise_of_forall_mem_list fun a ha b hb => decide_eq_true ?_
    rw [of_decide_eq_true (List.mem_filter.1 ha).2, of_decide_eq_true (List.mem_filter.1 hb).2]
  -- What is in order already comes through the sort, and nothing else has the key.
  have hsub := (List.sublist_mergeSort (decide_key_trans key) (decide_key_total key) hpart
    List.filter_sublist).filter fun z => decide (key z = k)
  simp only [List.filter_filter, Bool.and_self] at hsub
  refine (hsub.eq_of_length ?_).symm
  exact ((List.mergeSort_perm xs _).filter _).length_eq.symm

/-- A list in order that holds the same for each key is what sorting gives. -/
theorem eq_mergeSort_key {xs ys : List α} (hsorted : ys.Pairwise fun a b => key a ≤ key b)
    (h : ∀ k, ys.filter (fun z => decide (key z = k)) =
      xs.filter fun z => decide (key z = k)) :
    ys = xs.mergeSort fun a b => decide (key a ≤ key b) :=
  eq_of_filter_eq key hsorted (pairwise_mergeSort_key key xs) fun k =>
    (h k).trans (filter_mergeSort_key key xs k).symm

end

end TextGrammar
