import TextGrammar.Text.Uppercase

/-!
# Capitals Have No Capitals

That the first character of an uppercase mapping is its own uppercase mapping.

The mapping is a table, so this is a fact about the table: no code point that has a capital
is the first one of a capital. Going through all pairs of code points would take long. Each
of the two sets is therefore taken as a number that has a bit for every code point in the
set, and the two numbers have no bit in common.

## Main definitions

* `codeMask`: A set of code points as the bits of a number.
* `casedCodes`: The code points that have a capital.
* `firstCapitals`: The first code points of capitals.

## Theorems

* `testBit_codeMask`: The bits are those of the code points.
* `uppercase_of_not_mem_casedCodes`, `uppercase_cases`: The mapping by these sets.
* `uppercase_first`: The first character of a capital is its own capital.
-/

namespace TextGrammar

namespace Text

/-- How far the code points of a run are from its first one. -/
def CaseRun.offsets (run : CaseRun) : List Nat :=
  (List.range ((run.last - run.first) / run.step + 1)).map (run.step * ·)

/-- The code points that have a capital other than themselves. -/
def casedCodes : List Nat :=
  (caseRuns.flatMap fun run => run.offsets.map (run.first + ·)) ++ caseExpansions.map Prod.fst

/-- The first code points of capitals. -/
def firstCapitals : List Nat :=
  (caseRuns.flatMap fun run => run.offsets.map (run.capital + ·)) ++
    caseExpansions.filterMap fun entry => entry.2.head?

/-- The number whose bits are set at the given places. -/
def codeMask (codes : List Nat) : Nat := codes.foldr (fun code mask => mask ||| 1 <<< code) 0

theorem testBit_codeMask {codes : List Nat} {code : Nat} (h : code ∈ codes) :
    (codeMask codes).testBit code = true := by
  induction codes with
  | nil => exact absurd h List.not_mem_nil
  | cons other rest ih =>
      change (codeMask rest ||| 1 <<< other).testBit code = true
      rw [Nat.testBit_or, Bool.or_eq_true]
      rcases List.mem_cons.1 h with rfl | hrest
      · exact Or.inr (by rw [Nat.one_shiftLeft, Nat.testBit_two_pow_self])
      · exact Or.inl (ih hrest)

/-- No first code point of a capital has a capital itself. -/
theorem not_mem_casedCodes {code : Nat} (h : code ∈ firstCapitals) : code ∉ casedCodes := by
  have hapart : codeMask casedCodes &&& codeMask firstCapitals = 0 := by decide +kernel
  intro hcased
  -- A code point in both sets would be a bit of both numbers.
  have hbit := congrArg (fun mask => Nat.testBit mask code) hapart
  simp only [Nat.testBit_and, testBit_codeMask hcased, testBit_codeMask h, Nat.zero_testBit,
    Bool.and_self, Bool.true_eq_false] at hbit

theorem isValidChar_of_mem_firstCapitals {code : Nat} (h : code ∈ firstCapitals) :
    code.isValidChar := by
  have hall : (firstCapitals.all fun code => decide code.isValidChar) = true := by decide +kernel
  exact of_decide_eq_true (List.all_eq_true.1 hall code h)

/-- A run maps its code points by keeping their distance from the first one. -/
theorem CaseRun.exists_of_capital? {run : CaseRun} {code capital : Nat}
    (h : run.capital? code = some capital) :
    ∃ offset ∈ run.offsets, code = run.first + offset ∧ capital = run.capital + offset := by
  unfold CaseRun.capital? at h
  split at h
  · rename_i hrun
    simp only [Bool.and_eq_true, decide_eq_true_eq, beq_iff_eq] at hrun
    rcases hrun with ⟨⟨hfirst, hlast⟩, hstep⟩
    have hoffset := Nat.div_add_mod (code - run.first) run.step
    have hle : (code - run.first) / run.step ≤ (run.last - run.first) / run.step :=
      Nat.div_le_div_right (by omega)
    refine ⟨code - run.first, List.mem_map.2 ⟨_, List.mem_range.2 (Nat.lt_succ_of_le hle), ?_⟩,
      by omega, (Option.some.inj h).symm⟩
    omega
  · cases h

theorem uppercase_of_not_mem_casedCodes {c : Char} (h : c.toNat ∉ casedCodes) :
    uppercase c = [c] := by
  have hexpansion : caseExpansions.lookup c.toNat = none := by
    refine List.lookup_eq_none_iff.2 fun entry hentry => bne_iff_ne.2 fun heq => h ?_
    exact List.mem_append_right _ (heq ▸ List.mem_map_of_mem hentry)
  have hrun : caseRuns.findSome? (CaseRun.capital? · c.toNat) = none := by
    refine List.findSome?_eq_none_iff.2 fun run hmem => Option.eq_none_iff_forall_ne_some.2 ?_
    intro capital hcapital
    rcases CaseRun.exists_of_capital? hcapital with ⟨offset, hoffset, hcode, _⟩
    refine h (List.mem_append_left _ (List.mem_flatMap.2 ⟨run, hmem, ?_⟩))
    exact hcode ▸ List.mem_map_of_mem hoffset
  rw [uppercase, hexpansion]
  dsimp only
  rw [hrun]

/-- What a capital starts with is its own capital. -/
theorem uppercase_of_mem_firstCapitals {code : Nat} (h : code ∈ firstCapitals) :
    uppercase (Char.ofNat code) = [Char.ofNat code] := by
  have hcode : (Char.ofNat code).toNat = code := by
    rw [Char.ofNat, dif_pos (isValidChar_of_mem_firstCapitals h)]
    rfl
  refine uppercase_of_not_mem_casedCodes ?_
  rw [hcode]
  exact not_mem_casedCodes h

/-- A character is its own capital, or its capital starts with one of those in the table. -/
theorem uppercase_cases (c : Char) :
    uppercase c = [c] ∨
      ∃ code ∈ firstCapitals, ∃ rest, uppercase c = Char.ofNat code :: rest := by
  have hne : ∀ entry ∈ caseExpansions, entry.2 ≠ [] := by decide +kernel
  unfold uppercase
  split
  · -- Expansions are looked up before the runs.
    rename_i codes hlookup
    rcases List.lookup_eq_some_iff.1 hlookup with ⟨front, back, hsplit, _⟩
    have hmem : (c.toNat, codes) ∈ caseExpansions := by
      rw [hsplit]
      exact List.mem_append_right _ List.mem_cons_self
    cases codes with
    | nil => exact absurd rfl (hne _ hmem)
    | cons code more =>
        refine Or.inr ⟨code, List.mem_append_right _ ?_, _, rfl⟩
        exact List.mem_filterMap.2 ⟨_, hmem, rfl⟩
  · split
    · rename_i code hfound
      rcases List.exists_of_findSome?_eq_some hfound with ⟨run, hrun, hcapital⟩
      rcases CaseRun.exists_of_capital? hcapital with ⟨offset, hoffset, _, hcode⟩
      refine Or.inr ⟨code, List.mem_append_left _ (List.mem_flatMap.2 ⟨run, hrun, ?_⟩), [], rfl⟩
      exact hcode ▸ List.mem_map_of_mem hoffset
    · exact Or.inl rfl

/-- The first character of an uppercase mapping is its own uppercase mapping. -/
theorem uppercase_first (c : Char) :
    ∃ first rest, uppercase c = first :: rest ∧ uppercase first = [first] := by
  rcases uppercase_cases c with hself | ⟨code, hcode, rest, hcapital⟩
  · exact ⟨c, [], hself, hself⟩
  · exact ⟨Char.ofNat code, rest, hcapital, uppercase_of_mem_firstCapitals hcode⟩

end Text

end TextGrammar
