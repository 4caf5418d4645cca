import Mathlib.Data.Nat.Find
import TextGrammar.Proofs.Candidates
import TextGrammar.Proofs.Expression.Tree

/-!
# Malformed Guards

Which guards without a value make a search fail.

A guard is malformed when its instructions spell no sequence of trees, and then it has
no value in any namespace. The search fails at the first such guard that it reads. It
reads the guards of rules with a label that is asked for, as long as it has not fallen
below its floor. The floor is told from the rules that were passed: a priority is below
it exactly if some eligible rule among them has a minimum priority above.

What keeps a guard from being read are therefore its labels and the eligible rules in
front of it, and as in the search for candidates the rules behind have no say.

## Main definitions

* `Expression.IsMalformed`, `Rule.HasMalformedGuard`: Instructions that spell no trees.
* `Candidates.SurfacesAt`: The guard at a place of a list is malformed, and is read.
* `Candidates.IsFloor`: A floor that some rules in front have set.

## Theorems

* `Expression.isTrue_eq_error_iff`: The error of a malformed guard.
* `Candidates.IsFloor.concat`: How the floor goes on from one rule to the next.
* `Candidates.search_eq_error_iff`: A search fails at the first guard that surfaces.
* `Candidates.find_eq_error_iff`: So does the search for the candidates of a reference.
-/

namespace TextGrammar

open ExpressionTree

namespace Expression

/-- The instructions spell no sequence of trees. -/
def IsMalformed (e : Expression) : Prop := ¬ ∃ trees, e.instructions = sequence trees

/-- An instruction that lacks operands is the only one. -/
theorem Lacks.unique {p : List Instruction} {i j : Instruction} (hi : Lacks p i)
    (hj : Lacks p j) : i = j := by
  have hrun := (run_of_lacks Namespace.empty hi).symm.trans (run_of_lacks Namespace.empty hj)
  exact Except.error.inj hrun

/-- Where an instruction lacks operands, the instructions spell no sequence of trees. -/
theorem not_sequence_of_lacks {p : List Instruction} {i : Instruction} (h : Lacks p i) :
    ¬ ∃ trees, p = sequence trees := by
  rintro ⟨trees, hseq⟩
  have hrun := run_sequence_nil Namespace.empty trees
  rw [← hseq, run_of_lacks Namespace.empty h] at hrun
  exact absurd hrun nofun

theorem isMalformed_iff (e : Expression) : e.IsMalformed ↔ ∃ i, Lacks e.instructions i :=
  ⟨(sequence_or_lacks e.instructions).resolve_left, fun ⟨_, h⟩ => not_sequence_of_lacks h⟩

/-- The truth value is missing exactly if an instruction lacks operands, in whatever
    namespace. -/
theorem isTrue_eq_error_iff (e : Expression) (data : Namespace) (error : EvaluationError) :
    e.isTrue data = .error error ↔
      ∃ i, Lacks e.instructions i ∧ error = .notEnoughOperands i e := by
  rcases e with ⟨p⟩
  unfold isTrue
  rcases sequence_or_lacks p with ⟨trees, rfl⟩ | ⟨i, hlacks⟩
  · -- Without trees the value is one, and otherwise it is that of the last tree.
    have hnone : ¬ ∃ i, Lacks (sequence trees) i := fun ⟨_, h⟩ =>
      not_sequence_of_lacks h ⟨trees, rfl⟩
    have hvalue : ∃ d, evaluate ⟨sequence trees⟩ data = .ok d := by
      by_cases hne : trees = []
      · subst hne
        exact ⟨_, rfl⟩
      · exact ⟨_, evaluate_of_sequence data trees hne⟩
    rcases hvalue with ⟨d, hd⟩
    rw [hd]
    exact ⟨fun h => absurd h nofun, fun ⟨i, h, _⟩ => absurd ⟨i, h⟩ hnone⟩
  · rw [evaluate_of_lacks data hlacks]
    constructor
    · intro h
      exact ⟨i, hlacks, (Except.error.inj h).symm⟩
    · rintro ⟨j, hj, rfl⟩
      rw [hlacks.unique hj]

/-- Whether a guard is malformed shows in the namespace without entries. -/
instance (e : Expression) : Decidable e.IsMalformed :=
  decidable_of_iff ((e.isTrue Namespace.empty).isOk = false) <| by
    rw [isMalformed_iff]
    cases h : e.isTrue Namespace.empty with
    | ok holds =>
        refine iff_of_false nofun fun ⟨i, hlacks⟩ => ?_
        have herror := (e.isTrue_eq_error_iff Namespace.empty _).2 ⟨i, hlacks, rfl⟩
        exact absurd (h.symm.trans herror) nofun
    | error reason =>
        rcases (e.isTrue_eq_error_iff Namespace.empty reason).1 h with ⟨i, hlacks, _⟩
        exact iff_of_true rfl ⟨i, hlacks⟩

end Expression

namespace Rule

/-- The rule has a guard, and that is malformed. -/
def HasMalformedGuard (rule : Rule) : Prop := ∃ guard ∈ rule.guard, guard.IsMalformed

instance (rule : Rule) : Decidable rule.HasMalformedGuard :=
  inferInstanceAs (Decidable (∃ guard ∈ rule.guard, _))

theorem canFire_eq_error_iff (rule : Rule) (data : Namespace) (e : EvaluationError) :
    rule.canFire data = .error e ↔
      ∃ guard ∈ rule.guard, ∃ i, Expression.Lacks guard.instructions i ∧
        e = .notEnoughOperands i guard := by
  unfold canFire
  cases rule.guard with
  | none => simp only [reduceCtorEq, Option.mem_def, false_and, exists_false]
  | some guard =>
      simp only [Option.mem_def, Option.some.injEq, exists_eq_left']
      exact guard.isTrue_eq_error_iff data e

theorem hasMalformedGuard_iff (rule : Rule) (data : Namespace) :
    rule.HasMalformedGuard ↔ ∃ e, rule.canFire data = .error e := by
  simp only [HasMalformedGuard, Expression.isMalformed_iff, canFire_eq_error_iff]
  constructor
  · rintro ⟨guard, hguard, i, hlacks⟩
    exact ⟨_, guard, hguard, i, hlacks, rfl⟩
  · rintro ⟨_, guard, hguard, i, hlacks, _⟩
    exact ⟨guard, hguard, i, hlacks⟩

end Rule

namespace Candidates

/-- The guard at a place of a list is malformed, and is read: the rule there has a label
    that is asked for, and no eligible rule in front of it has a minimum priority above
    its priority. -/
def SurfacesAt (ref : Reference) (data : Namespace) (rules : List RegisteredRule) (i : Nat)
    (rule : RegisteredRule) : Prop :=
  rules[i]? = some rule ∧ ref.SharesLabel rule.toRule ∧ rule.toRule.HasMalformedGuard ∧
    InReach ref data (rules.take i) rule.toRule

/-- A floor as some rules that were passed have set it: below it are the rules that they
    ask to leave out. -/
def IsFloor (ref : Reference) (data : Namespace) (front : List RegisteredRule)
    (floor : Option Int) : Prop :=
  ∀ rule : Rule, isBelow rule.priority floor = true ↔ ¬ InReach ref data front rule

variable {ref : Reference} {data : Namespace}

theorem inReach_append (front back : List RegisteredRule) (rule : Rule) :
    InReach ref data (front ++ back) rule ↔
      InReach ref data front rule ∧ InReach ref data back rule := by
  unfold InReach
  rw [List.forall_mem_append]

theorem isFloor_nil : IsFloor ref data [] none :=
  fun _ => iff_of_false Bool.false_ne_true fun h => h fun _ hother => absurd hother nofun

/-- The floor behind one more rule: that rule raises it if it is eligible. -/
theorem IsFloor.concat {front : List RegisteredRule} {floor : Option Int}
    (h : IsFloor ref data front floor) (first : RegisteredRule) :
    (Eligible ref data first.toRule →
      IsFloor ref data (front ++ [first]) (some (raise floor first.minPriority))) ∧
    (¬ Eligible ref data first.toRule → IsFloor ref data (front ++ [first]) floor) := by
  have hlast : ∀ rule : Rule, InReach ref data (front ++ [first]) rule ↔
      InReach ref data front rule ∧
        (Eligible ref data first.toRule → first.minPriority ≤ rule.priority) := by
    intro rule
    rw [inReach_append, inReach_cons]
    exact and_congr_right fun _ => and_iff_left fun _ hother => absurd hother List.not_mem_nil
  constructor
  · intro helig rule
    rw [isBelow_raise, h rule, hlast, not_and_or, ← Int.not_le]
    exact or_congr_right (not_congr ⟨fun hle _ => hle, fun hle => hle helig⟩)
  · intro hnot rule
    rw [h rule, hlast]
    exact not_congr (and_iff_left fun helig => absurd helig hnot).symm

/-- From a place on, the first guard that surfaces is one with a certain error. -/
def FailsFrom (ref : Reference) (data : Namespace) (rules : List RegisteredRule) (n : Nat)
    (e : EvaluationError) : Prop :=
  ∃ i rule, n ≤ i ∧ SurfacesAt ref data rules i rule ∧ rule.canFire data = .error e ∧
    ∀ j other, n ≤ j → j < i → ¬ SurfacesAt ref data rules j other

theorem failsFrom_of_surfacesAt {rules : List RegisteredRule} {n : Nat} {rule : RegisteredRule}
    (h : SurfacesAt ref data rules n rule) (e : EvaluationError) :
    FailsFrom ref data rules n e ↔ rule.canFire data = .error e := by
  constructor
  · rintro ⟨i, other, hle, hother, he, hfirst⟩
    rcases Nat.eq_or_lt_of_le hle with rfl | hlt
    · rw [Option.some.inj (h.1.symm.trans hother.1)]
      exact he
    · exact absurd h (hfirst n rule (Nat.le_refl n) hlt)
  · intro he
    exact ⟨n, rule, Nat.le_refl n, h, he, fun j _ hle hlt => absurd hlt (Nat.not_lt.2 hle)⟩

theorem failsFrom_succ {rules : List RegisteredRule} {n : Nat}
    (h : ∀ rule, ¬ SurfacesAt ref data rules n rule) (e : EvaluationError) :
    FailsFrom ref data rules n e ↔ FailsFrom ref data rules (n + 1) e := by
  constructor
  · rintro ⟨i, rule, hle, hrule, he, hfirst⟩
    rcases Nat.eq_or_lt_of_le hle with rfl | hlt
    · exact absurd hrule (h rule)
    · exact ⟨i, rule, hlt, hrule, he, fun j other hj => hfirst j other (Nat.le_of_succ_le hj)⟩
  · rintro ⟨i, rule, hle, hrule, he, hfirst⟩
    refine ⟨i, rule, Nat.le_of_succ_le hle, hrule, he, fun j other hj hlt => ?_⟩
    rcases Nat.eq_or_lt_of_le hj with rfl | hj
    · exact h other
    · exact hfirst j other hj hlt

/-- Nothing surfaces from a rule below the floor on. -/
theorem not_failsFrom_of_isBelow {front rest : List RegisteredRule} {first : RegisteredRule}
    {floor : Option Int} (hfloor : IsFloor ref data front floor)
    (hsorted : ∀ r ∈ rest, r.priority ≤ first.priority)
    (hbelow : isBelow first.priority floor = true) (e : EvaluationError) :
    ¬ FailsFrom ref data (front ++ first :: rest) front.length e := by
  rintro ⟨i, rule, hle, ⟨hget, _, _, hreach⟩, _⟩
  rw [List.getElem?_append_right hle] at hget
  have hpriority : rule.priority ≤ first.priority := by
    rcases List.mem_cons.1 (List.mem_of_getElem? hget) with rfl | hrest
    · exact Int.le_refl _
    · exact hsorted rule hrest
  -- What has set the floor in front keeps all rules from here on out of reach.
  have hout := (hfloor rule.toRule).1 (isBelow_of_le _ _ floor hpriority hbelow)
  rw [List.take_append, List.take_of_length_le hle, inReach_append] at hreach
  exact hout hreach.1

/-- The rule behind some others surfaces if nothing but its guard is wrong. -/
theorem surfacesAt_length (front rest : List RegisteredRule) (first rule : RegisteredRule) :
    SurfacesAt ref data (front ++ first :: rest) front.length rule ↔
      first = rule ∧ ref.SharesLabel rule.toRule ∧ rule.toRule.HasMalformedGuard ∧
        InReach ref data front rule.toRule := by
  unfold SurfacesAt
  rw [List.getElem?_append_right (Nat.le_refl _), Nat.sub_self, List.getElem?_cons_zero,
    Option.some.injEq, List.take_left]

/-- A rule that does not surface is passed. -/
theorem failsFrom_concat {front rest : List RegisteredRule} {first : RegisteredRule}
    (h : ¬ (ref.SharesLabel first.toRule ∧ first.toRule.HasMalformedGuard))
    (e : EvaluationError) :
    FailsFrom ref data (front ++ first :: rest) front.length e ↔
      FailsFrom ref data (front ++ [first] ++ rest) (front ++ [first]).length e := by
  have hpassed : ∀ rule, ¬ SurfacesAt ref data (front ++ first :: rest) front.length rule := by
    intro rule hrule
    rcases (surfacesAt_length front rest first rule).1 hrule with ⟨rfl, hlabel, hguard, _⟩
    exact h ⟨hlabel, hguard⟩
  rw [failsFrom_succ hpassed, List.append_assoc, List.length_append]
  rfl

theorem ok_ne_error {α : Type} (a : α) (e : EvaluationError) : Except.ok a ≠ .error e := nofun

/-- A search fails at the first guard that surfaces, and with the error of that. The
    rules in front of the list are those that the search has passed. -/
theorem search_eq_error_iff {floor : Option Int} {front rules : List RegisteredRule}
    (hfloor : IsFloor ref data front floor)
    (hsorted : rules.Pairwise fun a b => b.priority ≤ a.priority) (e : EvaluationError) :
    search ref data floor rules = .error e ↔
      FailsFrom ref data (front ++ rules) front.length e := by
  induction rules generalizing floor front with
  | nil =>
      refine iff_of_false (ok_ne_error _ e) ?_
      rintro ⟨i, rule, hle, ⟨hget, _⟩, _⟩
      rw [List.append_nil, List.getElem?_eq_none hle] at hget
      exact absurd hget.symm (Option.some_ne_none rule)
  | cons first rest ih =>
      rcases List.pairwise_cons.1 hsorted with ⟨hfirst, hrest⟩
      rw [search]
      -- The search asks for the floor, for the labels and for the guard, in this order, and
      -- only the guard can fail. What it does not get to cannot surface either.
      by_cases hbelow : isBelow first.priority floor = true
      · rw [if_pos hbelow]
        exact iff_of_false (ok_ne_error _ e) (not_failsFrom_of_isBelow hfloor hfirst hbelow e)
      · rw [if_neg hbelow]
        have hreach : InReach ref data front first.toRule :=
          not_not.1 fun hout => hbelow ((hfloor first.toRule).2 hout)
        by_cases haccepts : ref.accepts first.toRule = true
        · rw [haccepts, Bool.not_true, if_neg Bool.false_ne_true]
          have hlabel := (Reference.accepts_iff _ _).1 haccepts
          cases hfire : first.canFire data with
          -- The first rule surfaces, so the error is that of its guard.
          | error reason =>
              have hguard := (Rule.hasMalformedGuard_iff _ data).2 ⟨reason, hfire⟩
              have hsurfaces := (surfacesAt_length front rest first first).2
                ⟨rfl, hlabel, hguard, hreach⟩
              rw [failsFrom_of_surfacesAt hsurfaces, hfire]
              simp only [Except.error.injEq]
          | ok holds =>
              have hpassed : ¬ (ref.SharesLabel first.toRule ∧ first.toRule.HasMalformedGuard) := by
                rintro ⟨_, hguard⟩
                rcases (Rule.hasMalformedGuard_iff _ data).1 hguard with ⟨e, he⟩
                exact absurd (hfire.symm.trans he) (ok_ne_error _ e)
              -- It is passed from here on, and has raised the floor if its guard holds.
              rw [failsFrom_concat hpassed]
              cases holds with
              | false =>
                  refine ih ((hfloor.concat first).2 fun helig => ?_) hrest
                  have htrue := (Rule.canFire_eq_true_iff _ _).2 helig.2
                  exact absurd (Except.ok.inj (hfire.symm.trans htrue)) Bool.false_ne_true
              | true =>
                  have helig : Eligible ref data first.toRule :=
                    ⟨hlabel, (Rule.canFire_eq_true_iff _ _).1 hfire⟩
                  rw [← ih ((hfloor.concat first).1 helig) hrest]
                  dsimp only
                  cases search ref data (some (raise floor first.minPriority)) rest with
                  | error reason => exact Iff.rfl
                  | ok found => exact iff_of_false (ok_ne_error _ e) (ok_ne_error _ e)
        · have hlabel : ¬ ref.SharesLabel first.toRule := fun h =>
            haccepts ((Reference.accepts_iff _ _).2 h)
          rw [Bool.eq_false_iff.2 haccepts, Bool.not_false, if_pos rfl,
            failsFrom_concat fun h => hlabel h.1]
          exact ih ((hfloor.concat first).2 fun helig => hlabel helig.1) hrest

/-- The rules behind another one in order have no say about it. -/
theorem inReach_take {rules : List RegisteredRule}
    (hsorted : rules.Pairwise fun a b => b.priority ≤ a.priority) {i : Nat}
    {rule : RegisteredRule} (h : rules[i]? = some rule) :
    InReach ref data (rules.take i) rule.toRule ↔ InReach ref data rules rule.toRule := by
  rcases List.getElem?_eq_some_iff.1 h with ⟨hi, rfl⟩
  have hsplit := List.take_append_drop i rules
  rw [List.drop_eq_getElem_cons hi] at hsplit
  rw [← hsplit] at hsorted
  have hbehind : InReach ref data (rules[i] :: rules.drop (i + 1)) rules[i].toRule :=
    inReach_first _ _ (List.pairwise_cons.1 (List.pairwise_append.1 hsorted).2.1).1
  have hwhole : InReach ref data rules rules[i].toRule ↔
      InReach ref data (rules.take i) rules[i].toRule ∧
        InReach ref data (rules[i] :: rules.drop (i + 1)) rules[i].toRule := by
    rw [← inReach_append, hsplit]
  rw [hwhole, and_iff_left hbehind]

/-- The search for candidates fails at the first guard that surfaces among the rules of
    the tag, in the order in which they are tried, and the error names the first
    instruction of that guard that lacks operands. It fails whenever some guard
    surfaces. So malformed guards do no harm on rules without the labels that are asked
    for, and on rules that an eligible one asks to leave out. -/
theorem find_eq_error_iff (rules : RuleSet) (ref : Reference) (data : Namespace) :
    (∀ e, find rules ref data = .error e ↔
      ∃ i rule, SurfacesAt ref data (rules.rulesFor ref.tag) i rule ∧
        (∀ j < i, ∀ other, ¬ SurfacesAt ref data (rules.rulesFor ref.tag) j other) ∧
        ∃ guard ∈ rule.guard, ∃ instruction, Expression.Lacks guard.instructions instruction ∧
          e = .notEnoughOperands instruction guard) ∧
    ((∃ e, find rules ref data = .error e) ↔
      ∃ i rule, SurfacesAt ref data (rules.rulesFor ref.tag) i rule) ∧
    ((∀ rule ∈ rules.toList, rule.tag = ref.tag → rule.HasMalformedGuard →
        ¬ ref.SharesLabel rule.toRule ∨ ∃ other ∈ rules.toList, other.tag = ref.tag ∧
          Eligible ref data other.toRule ∧ rule.priority < other.minPriority) →
      ∃ found, find rules ref data = .ok found) := by
  have hsorted := rules.pairwise_priority_rulesFor ref.tag
  have hfind : ∀ e, find rules ref data = .error e ↔
      FailsFrom ref data (rules.rulesFor ref.tag) 0 e := by
    intro e
    rw [← List.nil_append (rules.rulesFor ref.tag), ← List.length_nil,
      ← search_eq_error_iff isFloor_nil hsorted e]
    unfold find
    cases search ref data none (rules.rulesFor ref.tag) with
    | error reason => simp only [Except.error.injEq]
    | ok found => exact iff_of_false nofun nofun
  have hsome : (∃ e, find rules ref data = .error e) ↔
      ∃ i rule, SurfacesAt ref data (rules.rulesFor ref.tag) i rule := by
    constructor
    · rintro ⟨e, he⟩
      rcases (hfind e).1 he with ⟨i, rule, _, hrule, _⟩
      exact ⟨i, rule, hrule⟩
    · intro hexists
      classical
      -- Of all places where a guard surfaces, the first one has the error.
      rcases Nat.find_spec hexists with ⟨rule, hrule⟩
      rcases (Rule.hasMalformedGuard_iff _ data).1 hrule.2.2.1 with ⟨e, he⟩
      refine ⟨e, (hfind e).2 ⟨_, rule, Nat.zero_le _, hrule, he, fun j other _ hlt h => ?_⟩⟩
      exact Nat.find_min hexists hlt ⟨other, h⟩
  refine ⟨fun e => ?_, hsome, fun hharmless => ?_⟩
  · rw [hfind e]
    simp only [FailsFrom, Rule.canFire_eq_error_iff, Nat.zero_le, true_and, true_implies]
    constructor
    · rintro ⟨i, rule, hrule, he, hfirst⟩
      exact ⟨i, rule, hrule, fun j hlt other => hfirst j other hlt, he⟩
    · rintro ⟨i, rule, hrule, hfirst, he⟩
      exact ⟨i, rule, hrule, he, fun j other hlt => hfirst j hlt other⟩
  · cases hresult : find rules ref data with
    | ok found => exact ⟨found, rfl⟩
    | error e =>
        rcases hsome.1 ⟨e, hresult⟩ with ⟨i, rule, hget, hlabel, hguard, hreach⟩
        rcases (rules.mem_rulesFor _ _).1 (List.mem_of_getElem? hget) with ⟨hmem, htag⟩
        rw [inReach_take hsorted hget] at hreach
        rcases hharmless rule hmem htag hguard with hnot | ⟨other, hother, hsame, helig, hlt⟩
        · exact absurd hlabel hnot
        · have hle := hreach other ((rules.mem_rulesFor _ _).2 ⟨hother, hsame⟩) helig
          omega

/-- Rules of one tag, two of them with malformed guards: the first one, which has a label
    of its own, and the last one, which the one in front of it asks to leave out. -/
def guardedTiers : RuleSet :=
  RuleSet.ofList ([
    { tag := ⟨"a", none⟩, priority := 3, hashtags := ["dark"], guard := some ⟨[.not]⟩ },
    { tag := ⟨"a", none⟩, priority := 2, hashtags := ["light"], guard := some ⟨[.get "calm"]⟩ },
    { tag := ⟨"a", none⟩, priority := 1, hashtags := ["light"],
      guard := some ⟨[.get "calm", .binary .and]⟩ }].filterMap
      fun parts => (Rule.create parts).toOption)

/-- The guard of the last rule is only read when that of the second one does not hold. -/
theorem find_guardedTiers :
    let ref : Reference := { tag := ⟨"a", none⟩, hashtags := ["light"] }
    (∃ rule ∈ guardedTiers.toList, ref.SharesLabel rule.toRule ∧ rule.HasMalformedGuard) ∧
      (∃ found, find guardedTiers ref (.ofEntries [("calm", .boolean true)]) = .ok found) ∧
      ∃ i rule, SurfacesAt ref Namespace.empty (guardedTiers.rulesFor ref.tag) i rule := by
  intro ref
  refine ⟨by decide +kernel, ?_, ?_⟩
  · exact (find_eq_error_iff guardedTiers ref _).2.2 (by decide +kernel)
  · refine (find_eq_error_iff guardedTiers ref Namespace.empty).2.1.1 ?_
    cases h : find guardedTiers ref Namespace.empty with
    | error e => exact ⟨e, rfl⟩
    | ok found =>
        have hfails : (find guardedTiers ref Namespace.empty).isOk = false := by decide +kernel
        rw [h] at hfails
        exact absurd hfails nofun

end Candidates

end TextGrammar
