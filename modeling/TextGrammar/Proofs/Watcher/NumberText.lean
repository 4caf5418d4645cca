import TextGrammar.Proofs.Expansion.Execution
import TextGrammar.Proofs.Number.Ordinal
import TextGrammar.Proofs.Number.ReadBack
import TextGrammar.Proofs.Watcher.Events

/-!
# Numbers on Their Way Through Text

What filters that rewrite numbers are handed, and what they hand on.

A look-up turns the number under a name into text before its watchers are called, so a
filter has to read the number back. It gets the number that was stored, with one exception:
the negative zero is read as the other zero. No filter tells the two apart, as one asks
whether a number is one, and the others ask which integer it is. A filter on a look-up
therefore gives what it makes of the number itself.

What the filters for ordinals and cardinals give is text again, and may meet a filter of
the same kind. It is either a number in the form in which generated text contains it, which
is read back and spelled in the same way once more, or it is no number at all: the words are
none, and behind the figures of an ordinal there is a letter with which no exponent starts.

## Main definitions

* `Watcher.RewritesNumbers`: The filters that rewrite numbers and say how.
* `Watcher.SpellsNumbers`: Those of them that spell numbers, whatever they are asked for.

## Theorems

* `Numeral.readChars?_append_of_endsNumber`: Figures with a letter behind are no number.
* `Watcher.ofNumber?_signedZero`: Filters do not tell the two zeros apart.
* `Watcher.rewriteNumber_display`: A filter on the text of a number.
* `Setup.lookup_rewrites`: A filter on the look-up of a number.
* `Watcher.SpellsNumbers.spelled_cases`: What is spelled is no number, or one as it is written.
* `Watcher.after?_idempotent`: A filter on what it gave itself.
-/

namespace TextGrammar

open Number Spelling

/-- The filters that rewrite numbers and say how. -/
inductive Watcher.RewritesNumbers : Watcher → Prop
  | pluralise (singular plural : String) : RewritesNumbers (.pluralise singular plural)
  | ordinal : RewritesNumbers .ordinal
  | ordinalSuffix : RewritesNumbers .ordinalSuffix
  | cardinal : RewritesNumbers .cardinal

/-- The filters that spell a number as an ordinal or a cardinal. -/
inductive Watcher.SpellsNumbers : Watcher → Prop
  | ordinal : SpellsNumbers .ordinal
  | ordinalSuffix : SpellsNumbers .ordinalSuffix
  | cardinal : SpellsNumbers .cardinal

theorem Watcher.SpellsNumbers.rewritesNumbers {w : Watcher} (h : w.SpellsNumbers) :
    w.RewritesNumbers := by
  cases h with
  | ordinal => exact .ordinal
  | ordinalSuffix => exact .ordinalSuffix
  | cardinal => exact .cardinal

namespace Numeral

/-- An exponent starts with an `e`. -/
theorem readExponent?_eq_none {c : Char} (rest : List Char) (h : c ≠ 'e' ∧ c ≠ 'E') :
    readExponent? (c :: rest) = none := by
  have hletter : ¬ (c == 'e' || c == 'E') = true := by
    rw [Bool.or_eq_true, beq_iff_eq, beq_iff_eq]
    exact fun hc => hc.elim h.1 h.2
  rw [readExponent?, if_neg hletter]

/-- Figures are no number if what stands behind them does not continue one. -/
theorem readChars?_append_of_endsNumber {digits rest : List Char} (hdigits : IsDigits digits)
    (hplain : ∀ c ∈ rest, IsPlain c) (hne : rest ≠ []) (hrest : EndsNumber rest) :
    readChars? (digits ++ rest) = none := by
  have hdecimal : readDecimal? (digits ++ rest) = none := by
    have hstop : ∀ c ∈ rest.head?, c.isDigit = false := fun c hc => (hrest c hc).1
    rcases takeWhile_append_of_stop hdigits.2 hstop with ⟨htake, hdrop⟩
    cases rest with
    | nil => exact absurd rfl hne
    | cons c more =>
        rcases hrest c rfl with ⟨_, hpoint, hletter⟩
        unfold readDecimal?
        dsimp only
        rw [htake, hdrop]
        -- There is no point, so the rest would have to be an exponent.
        split
        · rename_i hcons
          exact absurd (List.cons.inj hcons).1 hpoint
        · dsimp only
          rw [readExponent?_eq_none more hletter, Option.map_none, ite_self]
  rw [readChars?_of_isPlain, readPlain?, ← List.nil_append (digits ++ rest),
    splitSign_append .omitted (hdigits.lacksSign rest)]
  · dsimp only
    rw [readWord?_eq_none false (.plain digits hdigits) rest, hdecimal]
    rfl
  · exact List.forall_mem_append.2 ⟨fun c hc => isPlain_of_isDigit (hdigits.2 c hc), hplain⟩

end Numeral

namespace NumberWords

/-- The suffix of an ordinal is two letters, and no exponent starts with the first one. -/
theorem toList_suffixFor (n : Nat) :
    ∃ first second, (suffixFor n).toList = [first, second] ∧
      (Numeral.IsPlain first ∧ Numeral.IsPlain second) ∧
        first.isDigit = false ∧ first ≠ '.' ∧ first ≠ 'e' ∧ first ≠ 'E' := by
  unfold suffixFor
  split
  · exact ⟨'t', 'h', rfl, by decide⟩
  · split
    · exact ⟨'s', 't', rfl, by decide⟩
    · exact ⟨'n', 'd', rfl, by decide⟩
    · exact ⟨'r', 'd', rfl, by decide⟩
    · exact ⟨'t', 'h', rfl, by decide⟩

/-- Figures with the suffix of an ordinal are no number. -/
theorem read?_suffixed (n : Nat) : Numeral.read? (toString n ++ suffixFor n) = none := by
  rcases toList_suffixFor n with ⟨first, second, hsuffix, hplain, hfirst⟩
  have hends : EndsNumber [first, second] := by
    intro c hc
    cases hc
    exact hfirst
  rw [Numeral.read?, String.toList_append, Nat.toString_eq_repr, Nat.toList_repr, hsuffix]
  refine Numeral.readChars?_append_of_endsNumber (isDigits_toDigits n) ?_
    (List.cons_ne_nil first [second]) hends
  exact List.forall_mem_cons.2 ⟨hplain.1, List.forall_mem_singleton.2 hplain.2⟩

/-- The words for numbers below ten are no numbers, but for the figure that stands for
    zero among the cardinals. -/
theorem read?_words :
    (∀ word ∈ ordinalWords, Numeral.read? word = none) ∧
      ∀ word ∈ cardinalWords, Numeral.read? word = none ∨ word = "0" := by
  decide

end NumberWords

namespace Binary64

/-- Both zeros are the integer zero. -/
theorem toInt?_signedZero (negative : Bool) : (signedZero negative).toInt? = some 0 := by
  rw [signedZero, toInt?, Nat.zero_mod, if_pos rfl, Nat.zero_div]
  cases negative <;> rfl

theorem display_signedZero (negative : Bool) : (signedZero negative).display = "0" := by
  rw [display, toInt?_signedZero]
  rfl

theorem equal_signedZero (negative : Bool) (x : Binary64) :
    (signedZero negative).equal x = (signedZero false).equal x := by
  cases negative <;> cases x <;> rfl

end Binary64

namespace Watcher

variable {w : Watcher} {x : Binary64} {s : String}

/-- Filters ask of a number whether it is one, which integer it is and how it is written. In
    neither respect do the two zeros differ. -/
theorem ofNumber?_signedZero (w : Watcher) (negative : Bool) :
    w.ofNumber? (.signedZero negative) = w.ofNumber? (.signedZero false) := by
  have hint := Binary64.toInt?_signedZero
  have hdisplay := Binary64.display_signedZero
  cases w with
  | pluralise singular plural => rw [ofNumber?, ofNumber?, Binary64.equal_signedZero]
  | ordinal | ordinalSuffix | cardinal =>
    simp only [ofNumber?, NumberWords.ordinal, NumberWords.cardinal, NumberWords.wordFor?,
      NumberWords.withOrdinalSuffix, hint, hdisplay]
  | _ => rfl

/-- Nor does it matter to them which object is not a number. -/
theorem ofNumber?_anew (w : Watcher) (x : Binary64) : w.ofNumber? x.anew = w.ofNumber? x := by
  cases x with
  | nan object => cases w <;> rfl
  | infinity negative => rfl
  | finite negative units valid => rfl

/-- These filters make a text of every number. -/
theorem RewritesNumbers.exists_ofNumber? (hw : w.RewritesNumbers) (x : Binary64) :
    ∃ s, w.ofNumber? x = .ok (some s) := by
  cases hw with
  | pluralise => exact ⟨_, rfl⟩
  | ordinal => exact ⟨_, rfl⟩
  | ordinalSuffix => exact ⟨_, rfl⟩
  | cardinal => exact ⟨_, rfl⟩

/-- The number that is read in a text decides what a filter makes of the text. -/
theorem rewriteNumber_of_read? {text : String} (hread : Numeral.read? text = some x)
    (h : w.ofNumber? x = .ok (some s)) : w.rewriteNumber text = .ok s := by
  rw [rewriteNumber, hread]
  dsimp only
  rw [h]
  rfl

/-- A filter makes of a number that has become text what it makes of the number. -/
theorem rewriteNumber_display (h : w.ofNumber? x = .ok (some s)) :
    w.rewriteNumber x.display = .ok s := by
  by_cases hx : x = .signedZero true
  · -- What is read back is the other zero.
    have hne : Binary64.signedZero false ≠ .signedZero true := by decide
    have hread := Numeral.read?_display hne
    rw [Binary64.display_signedZero, ← Binary64.display_signedZero true, ← hx] at hread
    refine rewriteNumber_of_read? hread ?_
    rwa [ofNumber?_anew, ← ofNumber?_signedZero w true, ← hx]
  · rw [← ofNumber?_anew] at h
    exact rewriteNumber_of_read? (Numeral.read?_display hx) h

/-- A number that is given as a double is rewritten like one that is read. -/
theorem RewritesNumbers.ofQuantity?_real (hw : w.RewritesNumbers) :
    (w.ofQuantity? (.real x) = .ok (some s)) ↔ w.ofNumber? x = .ok (some s) := by
  cases hw with
  | pluralise singular plural =>
      rw [ofQuantity?, ofNumber?, Quantity.isOne]
      simp only [Except.ok.injEq]
  | ordinal | ordinalSuffix | cardinal =>
      simp only [ofQuantity?, Quantity.toBinary64?, ofNumber?, Except.toOption, Option.join_some,
        Except.ok.injEq]

/-- A filter that rewrites numbers leaves the scene alone. -/
theorem RewritesNumbers.after?_eq (hw : w.RewritesNumbers) (target text : String) (scene : Scene) :
    w.after? target text scene = (w.rewriteNumber text).map fun result => (result, scene) := by
  rw [Watcher.after?_eq]
  cases hw <;> simp only [closing, Scene.play_nil] <;> rfl

theorem RewritesNumbers.lookup_eq (hw : w.RewritesNumbers) {key : String} {scene : Scene}
    (hkey : scene.data.get? key = some (.number x)) (h : w.ofNumber? x = .ok (some s)) :
    scene.lookup key [w] = (.ok s, scene) := by
  have hbefore : Chain.before [w] (Item.lookupText key) scene = scene := by
    cases hw <;> rfl
  have hafter : w.after? (Item.lookupText key) x.display scene = .ok (s, scene) := by
    rw [hw.after?_eq, rewriteNumber_display h]
    rfl
  have hclose : Chain.close [w] (Item.lookupText key) x.display scene = (.ok s, scene) := by
    simp only [Chain.close, Chain.after?, hafter]
  rw [Scene.lookup, hbefore, hkey]
  exact hclose

end Watcher

namespace Setup

variable {σ : Type}

/-- A look-up whose only watcher is a filter that rewrites numbers gives what the filter
    makes of the number under the name, at any place of a run, and changes nothing. That the
    number becomes text before the filter is called makes no difference. -/
theorem lookup_rewrites {w : Watcher} (hw : w.RewritesNumbers) {key : String} {x : Binary64}
    {scene : Scene} (hkey : scene.data.get? key = some (.number x)) :
    ∃ s, w.ofQuantity? (.real x) = .ok (some s) ∧
      (∀ (setup : Setup σ) (fuel depth : Nat) (source : σ) (metrics : Metrics),
        (setup.expand fuel depth (.lookup key [w])).run ⟨scene, source, metrics⟩ =
          (.ok s, ⟨scene, source, metrics⟩)) ∧
      ∀ (chooser : Chooser σ) (fuel : Nat) (engine : Engine σ) (rules : RuleSet) (depth : Nat),
        engine.performWith chooser fuel rules scene depth (.lookup key [w]) =
          (.ok s, scene, engine) := by
  rcases hw.exists_ofNumber? x with ⟨s, hs⟩
  have hrun : ∀ (setup : Setup σ) (fuel depth : Nat) (source : σ) (metrics : Metrics),
      (setup.expand fuel depth (.lookup key [w])).run ⟨scene, source, metrics⟩ =
        (.ok s, ⟨scene, source, metrics⟩) := by
    intro setup fuel depth source metrics
    rw [expand, run_expandLookup]
    dsimp only
    rw [hw.lookup_eq hkey hs]
  refine ⟨s, hw.ofQuantity?_real.2 hs, hrun, fun chooser fuel engine rules depth => ?_⟩
  rw [Engine.performWith, hrun]

/-- The negative zero is stored, written without its sign, and spelled as an ordinal. -/
theorem lookup_rewrites_negativeZero :
    let scene : Scene := ⟨Namespace.empty.put "n" (.number (.signedZero true)), []⟩
    Watcher.ordinal.RewritesNumbers ∧
      scene.data.get? "n" = some (.number (.signedZero true)) ∧
      ∀ engine : Engine Script,
        engine.performWith Chooser.weighted 0 .empty scene 0 (.lookup "n" [.ordinal]) =
          (.ok "0th", scene, engine) := by
  intro scene
  have hkey : scene.data.get? "n" = some (.number (.signedZero true)) := rfl
  have hzeroth : NumberWords.ordinal (.signedZero true) = "0th" := by
    rw [NumberWords.ordinal, NumberWords.wordFor?, Binary64.toInt?_signedZero]
    rfl
  rcases lookup_rewrites (σ := Script) .ordinal hkey with ⟨s, hs, _, hperform⟩
  have hspelled := Watcher.RewritesNumbers.ordinal.ofQuantity?_real.1 hs
  rw [Watcher.ofNumber?, hzeroth] at hspelled
  cases hspelled
  exact ⟨.ordinal, hkey, fun engine => hperform _ 0 engine _ 0⟩

end Setup

namespace NumberWords

variable {x : Binary64}

/-- Only natural numbers have words. -/
theorem wordFor?_eq_some {words : List String} {word : String}
    (h : wordFor? words x = some word) :
    ∃ n : Nat, x.toInt? = some (n : Int) ∧ words[n]? = some word := by
  unfold wordFor? at h
  split at h
  · rename_i n hint
    exact ⟨n, hint, h⟩
  · cases h

theorem withOrdinalSuffix_cases (x : Binary64) :
    Numeral.read? (withOrdinalSuffix x) = none ∨ withOrdinalSuffix x = x.display := by
  by_cases hx : ∃ n : Nat, x.HasUnits (n * unitsPerOne)
  · rcases hx with ⟨n, hn⟩
    rw [withOrdinalSuffix_of_hasUnits hn]
    exact Or.inl (read?_suffixed n)
  · exact Or.inr (eq_display fun n hn => hx ⟨n, hn⟩).1

theorem ordinal_cases (x : Binary64) :
    Numeral.read? (ordinal x) = none ∨ ordinal x = x.display := by
  unfold ordinal
  cases hword : wordFor? ordinalWords x with
  | none => exact withOrdinalSuffix_cases x
  | some word =>
      rcases wordFor?_eq_some hword with ⟨n, _, hget⟩
      exact Or.inl (read?_words.1 word (List.mem_of_getElem? hget))

theorem cardinal_cases (x : Binary64) :
    Numeral.read? (cardinal x) = none ∨ cardinal x = x.display := by
  unfold cardinal
  cases hword : wordFor? cardinalWords x with
  | none => exact Or.inr rfl
  | some word =>
      rcases wordFor?_eq_some hword with ⟨n, hint, hget⟩
      rcases read?_words.2 word (List.mem_of_getElem? hget) with hnone | rfl
      · exact Or.inl hnone
      · -- The figure for zero is also how zero is written, whatever its sign.
        have hzero : n = 0 := by
          cases n with
          | zero => rfl
          | succ n =>
              have hmem : "0" ∈ cardinalWords.tail := List.mem_of_getElem? hget
              exact absurd hmem (by decide)
        rw [hzero] at hint
        refine Or.inr ?_
        dsimp only
        rw [Binary64.display, hint]
        rfl

end NumberWords

namespace Watcher

variable {w : Watcher}

/-- What is spelled is no number, or it is a number as generated text contains it. -/
theorem SpellsNumbers.spelled_cases (hw : w.SpellsNumbers) {x : Binary64} {s : String}
    (h : w.ofNumber? x = .ok (some s)) : Numeral.read? s = none ∨ s = x.display := by
  cases hw with
  | ordinal =>
      cases h
      exact NumberWords.ordinal_cases x
  | ordinalSuffix =>
      cases h
      exact NumberWords.withOrdinalSuffix_cases x
  | cardinal =>
      cases h
      exact NumberWords.cardinal_cases x

/-- A text that is no number is left alone. -/
theorem rewriteNumber_of_read?_eq_none {text : String} (h : Numeral.read? text = none) :
    w.rewriteNumber text = .ok text := by
  rw [rewriteNumber, h]

/-- A filter that spells numbers leaves a text that is no number alone and spells the number
    that it reads in any other one, however that is written. Called once more on what it
    gave, it changes nothing. -/
theorem after?_idempotent (hw : w.SpellsNumbers) (text : String) :
    ∃ result,
      (match Numeral.read? text with
        | none => result = text
        | some x => w.ofQuantity? (.real x) = .ok (some result)) ∧
      ∀ (target : String) (scene : Scene),
        w.after? target text scene = .ok (result, scene) ∧
          w.after? target result scene = .ok (result, scene) := by
  have hcall : ∀ {text result : String}, w.rewriteNumber text = .ok result →
      ∀ target scene, w.after? target text scene = .ok (result, scene) := by
    intro text result hresult target scene
    rw [hw.rewritesNumbers.after?_eq, hresult]
    rfl
  -- What is not a number stays as it is. The text of a number is either no number, or reads as
  -- the same one and is written the same.
  cases hread : Numeral.read? text with
  | none =>
      have hleft := hcall (rewriteNumber_of_read?_eq_none hread)
      exact ⟨text, rfl, fun target scene => ⟨hleft target scene, hleft target scene⟩⟩
  | some x =>
      rcases hw.rewritesNumbers.exists_ofNumber? x with ⟨s, hs⟩
      have hagain : w.rewriteNumber s = .ok s := by
        rcases hw.spelled_cases hs with hnone | rfl
        · exact rewriteNumber_of_read?_eq_none hnone
        · exact rewriteNumber_display hs
      exact ⟨s, hw.rewritesNumbers.ofQuantity?_real.2 hs, fun target scene =>
        ⟨hcall (rewriteNumber_of_read? hread hs) target scene, hcall hagain target scene⟩⟩

/-- A number with an underscore and an exponent is spelled with a suffix, and what has the
    suffix is no number. -/
theorem after?_idempotent_underscore :
    ordinalSuffix.SpellsNumbers ∧ ∀ (target : String) (scene : Scene),
      ordinalSuffix.after? target "1_2e1" scene = .ok ("120th", scene) ∧
        ordinalSuffix.after? target "120th" scene = .ok ("120th", scene) := by
  have hspelled : ordinalSuffix.rewriteNumber "1_2e1" = .ok "120th" := by decide +kernel
  rcases after?_idempotent .ordinalSuffix "1_2e1" with ⟨result, _, hcalls⟩
  have hfirst := (hcalls "" ⟨.empty, []⟩).1
  rw [RewritesNumbers.ordinalSuffix.after?_eq, hspelled] at hfirst
  cases hfirst
  exact ⟨.ordinalSuffix, hcalls⟩

end Watcher

end TextGrammar
