import TextGrammar.Expansion.Candidates

/-!
# The Candidates Without a Scan

What the search for candidates finds, said without an order of search.

The search passes the rules of a tag once, with a floor that only rises, and
leaves at the first rule below it. That a rule is left out can therefore be the
work of a rule in front of it only, and it is not obvious that the rules behind
have no say. They have none because a minimum priority never exceeds the
priority: a rule behind cannot ask for more than its own priority, which those
in front of it reach anyway. So the floor that counts is that of all eligible
rules, wherever they stand, and the candidates are a filter of the rule set.

## Main definitions

* `Reference.SharesLabel`: A rule has a label that the reference asks for.
* `Rule.GuardHolds`: The guard of a rule is absent or true.
* `Candidates.Eligible`: Both.
* `Candidates.InReach`: No eligible rule of the tag has a minimum priority above
  the priority of a rule.

## Theorems

* `Candidates.search_eq_filter`: What a search finds from a floor on.
* `Candidates.exists_inReach`: The first eligible rule is in reach.
* `Candidates.find_eq_filter`: The candidates are the eligible rules in reach.
-/

namespace TextGrammar

/-- A reference accepts rules with one of its labels, and all when it has none. -/
def Reference.SharesLabel (ref : Reference) (rule : Rule) : Prop :=
  ref.hashtags = [] ∨ ∃ label ∈ ref.hashtags, label ∈ rule.hashtags

instance (ref : Reference) (rule : Rule) : Decidable (ref.SharesLabel rule) :=
  inferInstanceAs (Decidable (_ ∨ _))

theorem Reference.accepts_iff (ref : Reference) (rule : Rule) :
    ref.accepts rule = true ↔ ref.SharesLabel rule := by
  simp only [accepts, SharesLabel, Bool.or_eq_true, List.isEmpty_iff, List.any_eq_true,
    List.contains_iff_mem]

instance (guard : Expression) (data : Namespace) : Decidable (guard.isTrue data = .ok true) :=
  match guard.isTrue data with
  | .ok true => .isTrue rfl
  | .ok false => .isFalse nofun
  | .error _ => .isFalse nofun

/-- The guard of a rule is absent or true. -/
def Rule.GuardHolds (rule : Rule) (data : Namespace) : Prop :=
  ∀ guard ∈ rule.guard, guard.isTrue data = .ok true

instance (rule : Rule) (data : Namespace) : Decidable (rule.GuardHolds data) :=
  inferInstanceAs (Decidable (∀ guard ∈ rule.guard, _))

theorem Rule.canFire_eq_true_iff (rule : Rule) (data : Namespace) :
    rule.canFire data = .ok true ↔ rule.GuardHolds data := by
  unfold canFire GuardHolds
  cases rule.guard with
  | none => simp only [Option.mem_def, reduceCtorEq, false_implies, implies_true]
  | some guard => simp only [Option.mem_def, Option.some.injEq, forall_eq']

namespace Candidates

/-- Labels and guard allow a rule for a reference. -/
def Eligible (ref : Reference) (data : Namespace) (rule : Rule) : Prop :=
  ref.SharesLabel rule ∧ rule.GuardHolds data

instance (ref : Reference) (data : Namespace) (rule : Rule) : Decidable (Eligible ref data rule) :=
  inferInstanceAs (Decidable (_ ∧ _))

/-- No eligible rule in a list has a minimum priority above the priority of a rule. -/
def InReach (ref : Reference) (data : Namespace) (rules : List RegisteredRule) (rule : Rule) :
    Prop :=
  ∀ other ∈ rules, Eligible ref data other.toRule → other.minPriority ≤ rule.priority

instance (ref : Reference) (data : Namespace) (rules : List RegisteredRule) (rule : Rule) :
    Decidable (InReach ref data rules rule) :=
  inferInstanceAs (Decidable (∀ other ∈ rules, _))

variable {ref : Reference} {data : Namespace}

theorem inReach_cons (first : RegisteredRule) (rest : List RegisteredRule) (rule : Rule) :
    InReach ref data (first :: rest) rule ↔
      (Eligible ref data first.toRule → first.minPriority ≤ rule.priority) ∧
        InReach ref data rest rule := by
  unfold InReach
  rw [List.forall_mem_cons]

/-- No rule behind asks for more than its own priority, which the first one has. -/
theorem inReach_first (first : RegisteredRule) (rest : List RegisteredRule)
    (hsorted : ∀ r ∈ rest, r.priority ≤ first.priority) :
    InReach ref data (first :: rest) first.toRule := by
  rw [inReach_cons]
  refine ⟨fun _ => first.minPriority_le, fun other hother _ => ?_⟩
  have := hsorted other hother
  have := other.minPriority_le
  omega

theorem isBelow_of_le (p q : Int) (floor : Option Int) (hle : p ≤ q)
    (h : isBelow q floor = true) : isBelow p floor = true := by
  cases floor with
  | none => exact h
  | some f =>
      simp only [isBelow, decide_eq_true_eq] at h ⊢
      omega

theorem isBelow_raise (p m : Int) (floor : Option Int) :
    isBelow p (some (raise floor m)) = true ↔ isBelow p floor = true ∨ p < m := by
  cases floor with
  | none =>
      change decide (p < m) = true ↔ false = true ∨ p < m
      rw [decide_eq_true_eq, Bool.false_eq_true, false_or]
  | some f =>
      change decide (p < if f < m then m else f) = true ↔ decide (p < f) = true ∨ p < m
      rw [decide_eq_true_eq, decide_eq_true_eq]
      split <;> omega

/-- What a search with a floor keeps of a list. -/
def Kept (ref : Reference) (data : Namespace) (floor : Option Int) (rules : List RegisteredRule)
    (rule : Rule) : Prop :=
  Eligible ref data rule ∧ ¬ isBelow rule.priority floor = true ∧ InReach ref data rules rule

instance (floor : Option Int) (rules : List RegisteredRule) (rule : Rule) :
    Decidable (Kept ref data floor rules rule) :=
  inferInstanceAs (Decidable (_ ∧ _ ∧ _))

/-- A rule below the floor ends the search, and rightly: all behind are below too. -/
theorem filter_kept_of_isBelow (floor : Option Int) (first : RegisteredRule)
    (rest : List RegisteredRule) (hsorted : ∀ r ∈ rest, r.priority ≤ first.priority)
    (hbelow : isBelow first.priority floor = true) :
    (first :: rest).filter (fun r => decide (Kept ref data floor (first :: rest) r.toRule)) =
      [] := by
  refine List.filter_eq_nil_iff.2 fun r hr => ?_
  rw [decide_eq_true_eq]
  rintro ⟨_, hfloor, _⟩
  rcases List.mem_cons.1 hr with rfl | hr
  · exact hfloor hbelow
  · exact hfloor (isBelow_of_le _ _ floor (hsorted r hr) hbelow)

/-- A rule that is not eligible is passed over, and has no say about the others. -/
theorem filter_kept_of_not_eligible (floor : Option Int) (first : RegisteredRule)
    (rest : List RegisteredRule) (hnot : ¬ Eligible ref data first.toRule) :
    (first :: rest).filter (fun r => decide (Kept ref data floor (first :: rest) r.toRule)) =
      rest.filter fun r => decide (Kept ref data floor rest r.toRule) := by
  have hfirst : ¬ Kept ref data floor (first :: rest) first.toRule := fun h => hnot h.1
  rw [List.filter_cons, if_neg (by rwa [decide_eq_true_eq])]
  refine List.filter_congr fun r _ => decide_eq_decide.2 ?_
  unfold Kept
  -- Its minimum priority does not count, since only those of eligible rules do.
  have hvacuous : Eligible ref data first.toRule → first.minPriority ≤ r.priority :=
    fun h => absurd h hnot
  rw [inReach_cons, and_iff_right hvacuous]

/-- An eligible rule at or above the floor is kept, and raises the floor for the
    rules behind it. -/
theorem filter_kept_of_eligible (floor : Option Int) (first : RegisteredRule)
    (rest : List RegisteredRule) (hsorted : ∀ r ∈ rest, r.priority ≤ first.priority)
    (habove : ¬ isBelow first.priority floor = true) (helig : Eligible ref data first.toRule) :
    (first :: rest).filter (fun r => decide (Kept ref data floor (first :: rest) r.toRule)) =
      first :: rest.filter fun r =>
        decide (Kept ref data (some (raise floor first.minPriority)) rest r.toRule) := by
  have hfirst : Kept ref data floor (first :: rest) first.toRule :=
    ⟨helig, habove, inReach_first first rest hsorted⟩
  rw [List.filter_cons, if_pos (by rwa [decide_eq_true_eq])]
  congr 1
  refine List.filter_congr fun r _ => decide_eq_decide.2 ?_
  unfold Kept
  -- To be above the raised floor is to be above the old one and in reach of the first
  -- rule.
  rw [inReach_cons, isBelow_raise]
  constructor
  · rintro ⟨he, hfloor, hmin, hrest⟩
    have := hmin helig
    exact ⟨he, not_or.2 ⟨hfloor, by omega⟩, hrest⟩
  · rintro ⟨he, hfloor, hrest⟩
    rcases not_or.1 hfloor with ⟨hfloor, hmin⟩
    exact ⟨he, hfloor, fun _ => by omega, hrest⟩

/-- What a search finds from a floor on, in a list with descending priorities all
    of whose guards have a value. -/
theorem search_eq_filter (floor : Option Int) (rules : List RegisteredRule)
    (hsorted : rules.Pairwise fun a b => b.priority ≤ a.priority)
    (hguards : ∀ r ∈ rules, ∃ b, r.canFire data = .ok b) :
    search ref data floor rules =
      .ok (rules.filter fun r => decide (Kept ref data floor rules r.toRule)) := by
  induction rules generalizing floor with
  | nil => rfl
  | cons first rest ih =>
      rcases List.pairwise_cons.1 hsorted with ⟨hfirst, hrest⟩
      -- The floor changes along the list, so the hypothesis is taken for all floors.
      have hih := fun floor => ih floor hrest fun r hr => hguards r (List.mem_cons_of_mem _ hr)
      rw [search]
      by_cases hbelow : isBelow first.priority floor = true
      · rw [if_pos hbelow, filter_kept_of_isBelow floor first rest hfirst hbelow]
      · rw [if_neg hbelow]
        rcases hguards first (List.mem_cons_self ..) with ⟨b, hb⟩
        rw [hb]
        by_cases haccepts : ref.accepts first.toRule = true
        · rw [haccepts]
          cases b with
          | false =>
              have hnot : ¬ Eligible ref data first.toRule := fun h =>
                absurd (hb.symm.trans ((Rule.canFire_eq_true_iff _ _).2 h.2))
                  (by simp only [Except.ok.injEq, Bool.false_eq_true, not_false_eq_true])
              rw [filter_kept_of_not_eligible floor first rest hnot, ← hih]
              rfl
          | true =>
              have helig : Eligible ref data first.toRule :=
                ⟨(Reference.accepts_iff _ _).1 haccepts, (Rule.canFire_eq_true_iff _ _).1 hb⟩
              rw [filter_kept_of_eligible floor first rest hfirst hbelow helig]
              simp only [Bool.not_true, Bool.false_eq_true, if_false, hih]
        · have hnot : ¬ Eligible ref data first.toRule := fun h =>
            haccepts ((Reference.accepts_iff _ _).2 h.1)
          rw [filter_kept_of_not_eligible floor first rest hnot, ← hih,
            Bool.eq_false_iff.2 haccepts]
          rfl

/-- The first eligible rule of an ordered list is in reach. -/
theorem exists_inReach (rules : List RegisteredRule)
    (hsorted : rules.Pairwise fun a b => b.priority ≤ a.priority)
    (h : ∃ r ∈ rules, Eligible ref data r.toRule) :
    ∃ r ∈ rules, Eligible ref data r.toRule ∧ InReach ref data rules r.toRule := by
  induction rules with
  | nil =>
      rcases h with ⟨r, hr, _⟩
      exact absurd hr List.not_mem_nil
  | cons first rest ih =>
      rcases List.pairwise_cons.1 hsorted with ⟨hfirst, hrest⟩
      by_cases helig : Eligible ref data first.toRule
      · exact ⟨first, List.mem_cons_self .., helig, inReach_first first rest hfirst⟩
      · -- A rule that is not eligible keeps nothing behind it out of reach.
        have hbehind : ∃ r ∈ rest, Eligible ref data r.toRule := by
          rcases h with ⟨r, hr, hr'⟩
          rcases List.mem_cons.1 hr with rfl | hr
          · exact absurd hr' helig
          · exact ⟨r, hr, hr'⟩
        rcases ih hrest hbehind with ⟨r, hr, hr', hreach⟩
        exact ⟨r, List.mem_cons_of_mem _ hr, hr', (inReach_cons _ _ _).2
          ⟨fun h => absurd h helig, hreach⟩⟩

/-- Without a floor, a search finds something as soon as a rule is eligible. -/
theorem filter_kept_ne_nil_iff (rules : List RegisteredRule)
    (hsorted : rules.Pairwise fun a b => b.priority ≤ a.priority) :
    rules.filter (fun r => decide (Kept ref data none rules r.toRule)) ≠ [] ↔
      ∃ r ∈ rules, Eligible ref data r.toRule := by
  constructor
  · intro hne
    rcases List.exists_mem_of_ne_nil _ hne with ⟨r, hr⟩
    rcases List.mem_filter.1 hr with ⟨hmem, hr⟩
    exact ⟨r, hmem, (decide_eq_true_eq.mp hr).1⟩
  · intro h
    rcases exists_inReach rules hsorted h with ⟨r, hr, helig, hreach⟩
    have hkept : Kept ref data none rules r.toRule := ⟨helig, Bool.false_ne_true, hreach⟩
    exact List.ne_nil_of_mem (List.mem_filter.2 ⟨hr, decide_eq_true hkept⟩)

/-- The candidates for a reference are the eligible rules of its tag that no
    eligible rule of the tag asks to leave out, in the order in which rules are
    tried: by falling priority, and among equal ones by the order of the rules. There
    are some as soon as there is an eligible rule. The guards need only have truth
    values; that the search stops early, at rules below its floor, does not show. -/
theorem find_eq_filter (rules : RuleSet) (ref : Reference) (data : Namespace)
    (hguards : ∀ r ∈ rules.toList, r.tag = ref.tag → ∃ b, r.canFire data = .ok b) :
    ∃ found, find rules ref data = .ok found ∧
      found.rules = rules.toList.filter (fun r => decide (r.tag = ref.tag ∧
        Eligible ref data r.toRule ∧ ∀ other ∈ rules.toList, other.tag = ref.tag →
          Eligible ref data other.toRule → other.minPriority ≤ r.priority)) ∧
      found.rules.Pairwise (fun a b =>
        b.priority < a.priority ∨ (b.priority = a.priority ∧ a.order ≤ b.order)) ∧
      (found.rules ≠ [] ↔ ∃ r ∈ rules.toList, r.tag = ref.tag ∧ Eligible ref data r.toRule) := by
  have hordered : (rules.rulesFor ref.tag).Pairwise fun a b =>
      b.priority < a.priority ∨ (b.priority = a.priority ∧ a.order ≤ b.order) := by
    refine (rules.pairwise_rulesFor ref.tag).imp fun {a b} hab => ?_
    rw [RegisteredRule.precedes_iff] at hab
    omega
  have hsorted : (rules.rulesFor ref.tag).Pairwise fun a b => b.priority ≤ a.priority :=
    hordered.imp fun {a b} hab => by omega
  have hsearch := @search_eq_filter ref data none (rules.rulesFor ref.tag) hsorted
    fun r hr => by
      rcases (rules.mem_rulesFor ref.tag r).1 hr with ⟨hmem, htag⟩
      exact hguards r hmem htag
  -- Without a floor, what a search keeps are the eligible rules in reach.
  have hkept : (rules.rulesFor ref.tag).filter
        (fun r => decide (Kept ref data none (rules.rulesFor ref.tag) r.toRule)) =
      rules.toList.filter (fun r => decide (r.tag = ref.tag ∧ Eligible ref data r.toRule ∧
        ∀ other ∈ rules.toList, other.tag = ref.tag → Eligible ref data other.toRule →
          other.minPriority ≤ r.priority)) := by
    rw [← rules.filter_tag_toList, List.filter_filter]
    refine List.filter_congr fun r _ => ?_
    rw [← Bool.decide_and]
    refine decide_eq_decide.2 ?_
    simp only [Kept, InReach, isBelow, Bool.false_eq_true, not_false_eq_true, true_and,
      List.mem_filter, decide_eq_true_eq, and_imp]
    exact and_comm.trans (and_congr_right fun _ => Iff.rfl)
  refine ⟨_, by rw [find, hsearch], hkept, ?_, ?_⟩
  · exact hordered.filter _
  · refine (filter_kept_ne_nil_iff _ hsorted).trans ?_
    constructor
    · rintro ⟨r, hr, helig⟩
      rcases (rules.mem_rulesFor ref.tag r).1 hr with ⟨hmem, htag⟩
      exact ⟨r, hmem, htag, helig⟩
    · rintro ⟨r, hmem, htag, helig⟩
      exact ⟨r, (rules.mem_rulesFor ref.tag r).2 ⟨hmem, htag⟩, helig⟩

/-- Three rules of one tag. The first asks to leave out priorities below one, and
    the guard of the second reads a name. -/
def threeTiers : RuleSet :=
  RuleSet.ofList ([
    { tag := ⟨"a", none⟩, priority := 2, minPriority := some 1 },
    { tag := ⟨"a", none⟩, guard := some ⟨[.get "k"]⟩ },
    { tag := ⟨"a", none⟩, priority := 0 } ].filterMap fun parts => (Rule.create parts).toOption)

/-- Without the name the second rule is not eligible, and the third one is left
    out for the sake of the first. -/
theorem find_threeTiers :
    (∀ r ∈ threeTiers.toList, r.tag = ⟨"a", none⟩ → ∃ b, r.canFire Namespace.empty = .ok b) ∧
      ∃ found, find threeTiers { tag := ⟨"a", none⟩ } Namespace.empty = .ok found ∧
        found.rules.map (fun r => r.order) = [0] := by
  have hguards : ∀ r ∈ threeTiers.toList, (r.canFire Namespace.empty).isOk = true := by
    decide +kernel
  -- Having a value is not a Boolean test as such, so it is read off one.
  have h : ∀ r ∈ threeTiers.toList, r.tag = ⟨"a", none⟩ →
      ∃ b, r.canFire Namespace.empty = .ok b := by
    intro r hr _
    have hok := hguards r hr
    cases hvalue : r.canFire Namespace.empty with
    | ok b => exact ⟨b, rfl⟩
    | error e =>
        rw [hvalue] at hok
        exact absurd hok Bool.false_ne_true
  rcases find_eq_filter threeTiers { tag := ⟨"a", none⟩ } Namespace.empty h with
    ⟨found, hfound, hrules, _⟩
  refine ⟨h, found, hfound, ?_⟩
  rw [hrules]
  decide +kernel

end Candidates

end TextGrammar
