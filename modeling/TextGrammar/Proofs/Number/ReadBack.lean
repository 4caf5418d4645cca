import TextGrammar.Proofs.Grammar.Literal
import TextGrammar.Proofs.Number.DecimalValue

/-!
# Reading Numbers Back

That a number is read back from its text.

A finite number that is not an integer is written as the shortest decimal that is read as
that number, in one of three layouts. Each layout keeps the value of the decimal, because
all it does with the digits is to put zeros on either side and a point among them. So the
layout is read like the decimal. An integer is written with all its digits, which are read
back one by one, and a count of whole ones has few enough significant bits to be left
alone by rounding. The one number that is not read back is the negative zero, which is
written like the other.

The reader takes more than what is written. It takes white space around a number, digits
of other scripts, and underscores. None of these occurs in the text of a number, so all of
them are passed over.

## Main definitions

* `Spelling.IsUnsigned`: The characters of a number without its sign, and a decimal that
  is read like them.
* `Binary64.anew`: The number made anew, as reading makes it.
* `Numeral.IsPlain`: A character that reading takes as it is.

## Theorems

* `Decimal.isUnsigned_positional`, `Decimal.isUnsigned_scientific`: Layouts keep the value.
* `Binary64.isNumber_numeralChars`: The numeral of a finite number spells it.
* `Binary64.isNumber_display`: And so does the text of one, but for the negative zero.
* `Numeral.read?_display`: A number is read back from its text.
-/

namespace TextGrammar

open Number Spelling

/-- The number made anew: not a number is another object then. -/
def Binary64.anew : Binary64 → Binary64
  | .nan _ => .nan .fresh
  | x => x

theorem Binary64.anew_of_isNan_eq_false {x : Binary64} (h : x.isNan = false) : x.anew = x := by
  cases x with
  | nan object => cases h
  | infinity negative => rfl
  | finite negative units valid => rfl

namespace Text

/-- What is cut off at the end are copies of the character to be cut. -/
theorem dropEndWhile_append_replicate (a : Char) (cs : List Char) :
    dropEndWhile (· == a) cs ++
      List.replicate (cs.length - (dropEndWhile (· == a) cs).length) a = cs := by
  have hsplit : dropEndWhile (· == a) cs ++ (cs.reverse.takeWhile (· == a)).reverse = cs := by
    rw [dropEndWhile, ← List.reverse_append, List.takeWhile_append_dropWhile, List.reverse_reverse]
  have hcopies : (cs.reverse.takeWhile (· == a)).reverse =
      List.replicate (cs.length - (dropEndWhile (· == a) cs).length) a := by
    refine List.eq_replicate_iff.2 ⟨?_, fun c hc => ?_⟩
    · have hlength := congrArg List.length hsplit
      rw [List.length_append] at hlength
      omega
    · exact eq_of_beq (List.all_eq_true.1 List.all_takeWhile c (List.mem_reverse.1 hc))
  rw [← hcopies, hsplit]

theorem mem_of_mem_dropEndWhile {p : Char → Bool} {cs : List Char} {c : Char}
    (h : c ∈ dropEndWhile p cs) : c ∈ cs :=
  List.mem_reverse.1 ((List.dropWhile_suffix p).subset (List.mem_reverse.1 h))

/-- Nothing is cut off where there is nothing to cut. -/
theorem trim_eq_self {p : Char → Bool} {cs : List Char} (h : ∀ c ∈ cs, p c = false) :
    trim p cs = cs := by
  have hdrop : ∀ ds : List Char, (∀ c ∈ ds, p c = false) → ds.dropWhile p = ds := by
    intro ds hds
    have hhead : ∀ c ∈ ds.head?, p c = false := fun c hc => hds c (List.mem_of_mem_head? hc)
    exact (takeWhile_append_of_stop (List.forall_mem_nil _) hhead).2
  rw [trim, hdrop cs h, dropEndWhile, hdrop _ fun c hc => h c (List.mem_reverse.1 hc),
    List.reverse_reverse]

end Text

/-- Zeros behind digits are a power of ten. -/
theorem ofDigitChars_append_zeros (digits : List Char) (k : Nat) :
    Nat.ofDigitChars 10 (digits ++ List.replicate k '0') 0 =
      Nat.ofDigitChars 10 digits 0 * Nat.pow 10 k := by
  rw [Nat.ofDigitChars_append, Nat.ofDigitChars_replicate_zero, Nat.mul_comm]
  rfl

/-- Zeros in front of digits are nothing. -/
theorem ofDigitChars_zeros_append (digits : List Char) (k : Nat) :
    Nat.ofDigitChars 10 (List.replicate k '0' ++ digits) 0 = Nat.ofDigitChars 10 digits 0 := by
  rw [Nat.ofDigitChars_append, Nat.ofDigitChars_replicate_zero, Nat.mul_zero]

theorem isDigit_of_mem_zeros {k : Nat} : ∀ c ∈ List.replicate k '0', c.isDigit = true := by
  intro c hc
  rw [List.eq_of_mem_replicate hc]
  rfl

theorem isDigits_toDigits (n : Nat) : IsDigits (Nat.toDigits 10 n) :=
  ⟨Nat.toDigits_ne_nil, fun _ hc => Nat.isDigit_of_mem_toDigits (by decide) (by decide) hc⟩

/-- The characters of a number without its sign, with a decimal that is read like them. -/
inductive Spelling.IsUnsigned : List Char → Decimal → Prop
  | intro (mantissa whole fraction exponent : List Char) (power : Int) (d : Decimal)
      (hmantissa : IsMantissa mantissa whole fraction) (hexponent : IsExponent exponent power)
      (hvalue : ∀ negative, Binary64.ofDecimal negative
        ⟨Nat.ofDigitChars 10 (whole ++ fraction) 0, power - fraction.length⟩ =
          Binary64.ofDecimal negative d) :
      IsUnsigned (mantissa ++ exponent) d

theorem Spelling.IsUnsigned.isNumber {cs sign : List Char} {d : Decimal} {negative : Bool}
    (h : IsUnsigned cs d) (hsign : IsSign sign negative) :
    IsNumber (sign ++ cs) (.ofDecimal negative d) := by
  cases h with
  | intro m whole fraction e power d hmantissa hexponent hvalue =>
      rw [← hvalue]
      exact .intro sign m whole fraction e negative power hsign hmantissa hexponent

/-- Digits on one side of a point at least, and no exponent. -/
theorem Spelling.IsUnsigned.pointed {d : Decimal} (whole fraction : List Char)
    (hwhole : ∀ c ∈ whole, c.isDigit = true) (hfraction : ∀ c ∈ fraction, c.isDigit = true)
    (hne : whole ≠ [] ∨ fraction ≠ [])
    (hvalue : ∀ negative, Binary64.ofDecimal negative
      ⟨Nat.ofDigitChars 10 (whole ++ fraction) 0, 0 - fraction.length⟩ =
        Binary64.ofDecimal negative d) :
    IsUnsigned (whole ++ '.' :: fraction) d := by
  have h := IsUnsigned.intro _ whole fraction [] 0 d (.pointed whole fraction hwhole hfraction hne)
    .omitted hvalue
  rwa [List.append_nil] at h

namespace Decimal

/-- A power of ten is written with a sign and all its digits, and zeros in front. -/
theorem isExponent_power (width : Nat) (power : Int) :
    IsExponent ('e' :: (if power < 0 then '-' else '+') ::
      List.replicate (width - (Nat.toDigits 10 power.natAbs).length) '0' ++
        Nat.toDigits 10 power.natAbs) power := by
  generalize width - (Nat.toDigits 10 power.natAbs).length = zeros
  have hvalue : Nat.ofDigitChars 10
      (List.replicate zeros '0' ++ Nat.toDigits 10 power.natAbs) 0 = power.natAbs := by
    rw [ofDigitChars_zeros_append, Nat.ofDigitChars_ten_toDigits]
  have hdigits : IsDigits (List.replicate zeros '0' ++ Nat.toDigits 10 power.natAbs) := by
    rcases isDigits_toDigits power.natAbs with ⟨hne, hpower⟩
    exact ⟨List.append_ne_nil_of_right_ne_nil _ hne,
      List.forall_mem_append.2 ⟨isDigit_of_mem_zeros, hpower⟩⟩
  by_cases hnegative : power < 0
  · have hliteral := IsInteger.intro ['-'] _ true .minus hdigits
    rw [hvalue, if_pos rfl, show -(power.natAbs : Int) = power by omega] at hliteral
    rw [if_pos hnegative]
    exact .given 'e' _ power (Or.inl rfl) hliteral
  · have hliteral := IsInteger.intro ['+'] _ false .plus hdigits
    rw [hvalue, if_neg Bool.false_ne_true, show (power.natAbs : Int) = power by omega]
      at hliteral
    rw [if_neg hnegative]
    exact .given 'e' _ power (Or.inl rfl) hliteral

section Digits

variable {digits : List Char} (hdigits : ∀ c ∈ digits, c.isDigit = true)

include hdigits

/-- Digits with a point among or around them have the value of the digits. -/
theorem isUnsigned_positional (exponent : Int) :
    IsUnsigned (positional digits exponent) ⟨Nat.ofDigitChars 10 digits 0, exponent⟩ := by
  unfold positional
  dsimp only
  by_cases hwhole : 0 ≤ exponent
  · -- The zeros in front of the point and the one behind it are a power of ten.
    rw [if_pos hwhole]
    refine .pointed _ ['0'] ?_ (List.forall_mem_singleton.2 rfl) (Or.inr (List.cons_ne_nil _ _))
      fun negative => ?_
    · exact List.forall_mem_append.2 ⟨hdigits, isDigit_of_mem_zeros⟩
    · rw [List.append_assoc, show ['0'] = List.replicate 1 '0' from rfl,
        List.replicate_append_replicate, ofDigitChars_append_zeros, Binary64.ofDecimal_shift,
        List.length_replicate]
      congr 2
      omega
  rw [if_neg hwhole]
  by_cases hpoint : 0 < (digits.length : Int) + exponent
  · -- What is behind the point is what the exponent says.
    rw [if_pos hpoint]
    refine .pointed _ _ (fun c hc => hdigits c (List.mem_of_mem_take hc))
      (fun c hc => hdigits c (List.mem_of_mem_drop hc)) (Or.inl fun hnil => ?_) fun negative => ?_
    · have hlength := congrArg List.length hnil
      rw [List.length_take, List.length_nil] at hlength
      omega
    · rw [List.take_append_drop, List.length_drop]
      congr 2
      omega
  · -- The zeros between the point and the digits fill up the exponent.
    rw [if_neg hpoint]
    refine .pointed ['0'] (List.replicate _ '0' ++ digits) (List.forall_mem_singleton.2 rfl) ?_
      (Or.inl (List.cons_ne_nil _ _)) fun negative => ?_
    · exact List.forall_mem_append.2 ⟨isDigit_of_mem_zeros, hdigits⟩
    · rw [show ['0'] = List.replicate 1 '0' from rfl, ofDigitChars_zeros_append,
        ofDigitChars_zeros_append, List.length_append, List.length_replicate]
      congr 2
      omega

/-- Digits with a power of ten have the value of the digits. -/
theorem isUnsigned_scientific (width : Nat) (exponent : Int) :
    IsUnsigned (scientific width digits (digits.length - 1 + exponent))
      ⟨Nat.ofDigitChars 10 digits 0, exponent⟩ := by
  have hpower := isExponent_power width (digits.length - 1 + exponent)
  unfold scientific
  dsimp only
  rw [List.append_assoc]
  cases digits with
  | nil =>
      -- There are no digits, and either decimal is a zero.
      refine .intro ['0'] ['0'] [] _ _ _
        (.plain ['0'] ⟨List.cons_ne_nil _ _, List.forall_mem_singleton.2 rfl⟩) hpower
        fun negative => ?_
      rw [show Nat.ofDigitChars 10 (['0'] ++ []) 0 = 0 from rfl, Nat.ofDigitChars_nil,
        Binary64.ofDecimal_zero, Binary64.ofDecimal_zero]
  | cons d rest =>
      rcases List.forall_mem_cons.1 hdigits with ⟨hd, hrest⟩
      have hfirst : ∀ c ∈ [d], c.isDigit = true := List.forall_mem_singleton.2 hd
      cases rest with
      | nil =>
          refine .intro [d] [d] [] _ _ _ (.plain [d] ⟨List.cons_ne_nil d [], hfirst⟩) hpower
            fun negative => ?_
          rw [List.append_nil, List.length_singleton, List.length_nil]
          congr 2
          omega
      | cons next rest =>
          refine .intro (d :: '.' :: next :: rest) [d] (next :: rest) _ _ _
            (.pointed [d] (next :: rest) hfirst hrest (Or.inl (List.cons_ne_nil d []))) hpower
            fun negative => ?_
          rw [List.singleton_append, List.length_cons]
          congr 2
          omega

end Digits

theorem isDigit_of_mem_significant (d : Decimal) : ∀ c ∈ d.significant.1, c.isDigit = true :=
  fun c hc => (isDigits_toDigits d.digits).2 c (Text.mem_of_mem_dropEndWhile hc)

/-- The zeros at the end that are no significant digits are in the exponent. -/
theorem ofDecimal_significant (negative : Bool) (d : Decimal) :
    Binary64.ofDecimal negative ⟨Nat.ofDigitChars 10 d.significant.1 0, d.significant.2⟩ =
      Binary64.ofDecimal negative d := by
  rcases d with ⟨m, exponent⟩
  have hdigits := Text.dropEndWhile_append_replicate '0' (Nat.toDigits 10 m)
  have hvalue := congrArg (fun cs => Nat.ofDigitChars 10 cs 0) hdigits
  rw [ofDigitChars_append_zeros, Nat.ofDigitChars_ten_toDigits] at hvalue
  unfold significant
  dsimp only
  rw [← Binary64.ofDecimal_shift, hvalue]

/-- In whatever layout, a decimal is read by its value. -/
theorem isUnsigned_layOut (layout : NumeralLayout) (d : Decimal) :
    ∃ e, IsUnsigned (d.layOut layout) e ∧
      ∀ negative, Binary64.ofDecimal negative e = Binary64.ofDecimal negative d := by
  have hdigits := isDigit_of_mem_significant d
  refine ⟨⟨Nat.ofDigitChars 10 d.significant.1 0, d.significant.2⟩, ?_, fun negative =>
    ofDecimal_significant negative d⟩
  unfold layOut
  dsimp only
  split
  · exact isUnsigned_positional hdigits d.significant.2
  · exact isUnsigned_scientific hdigits layout.exponentWidth d.significant.2

end Decimal

namespace Binary64

theorem isSign_signText (negative : Bool) : IsSign (signText negative) negative := by
  cases negative with
  | false => exact .omitted
  | true => exact .minus

/-- The numeral of a finite number spells it, the sign of zero included. -/
theorem isNumber_numeralChars (negative : Bool) {units : Nat} (valid : IsMagnitude units) :
    IsNumber (finite negative units valid).numeralChars (.finite negative units valid) := by
  unfold numeralChars
  dsimp only
  by_cases hzero : units = 0
  · subst hzero
    have hdigit : ∀ c ∈ ['0'], c.isDigit = true := List.forall_mem_singleton.2 rfl
    have hvalue : IsUnsigned ['0', '.', '0'] ⟨0, -1⟩ :=
      .pointed ['0'] ['0'] hdigit hdigit (Or.inl (List.cons_ne_nil _ _)) fun other => by
        rw [show Nat.ofDigitChars 10 (['0'] ++ ['0']) 0 = 0 from rfl, ofDecimal_zero,
          ofDecimal_zero]
    have hnumber := hvalue.isNumber (isSign_signText negative)
    rwa [ofDecimal_zero] at hnumber
  · rcases (Decimal.shortest units).isUnsigned_layOut NumeralLayout.standard with
      ⟨d, hlayOut, hvalue⟩
    have hnumber := hlayOut.isNumber (isSign_signText negative)
    rw [hvalue, ofDecimal_shortest negative valid] at hnumber
    rwa [if_neg hzero]

/-- Whole ones are read as they are, if they are a number at all. -/
theorem ofDecimal_natural (negative : Bool) {units n : Nat} (valid : IsMagnitude units)
    (hunits : n * unitsPerOne = units) :
    ofDecimal negative ⟨n, 0⟩ = .finite negative units valid := by
  have hvalue := ofDecimal_eq_ofUnits negative n 0 0
  rw [show Nat.pow 10 0 = 1 from rfl, Nat.mul_one, hunits] at hvalue
  exact hvalue.trans (ofUnits_eq_finite negative valid (roundRatio_one valid.1))

/-- The digits of an integer with its sign spell that many whole ones, unless they are
    nothing with a minus sign. -/
theorem isNumber_signed (negative : Bool) {units n : Nat} (valid : IsMagnitude units)
    (hunits : n * unitsPerOne = units) (hsign : negative = true → n ≠ 0) :
    IsNumber (toString (signed negative n)).toList (.finite negative units valid) := by
  have hchars : (toString (signed negative n)).toList =
      signText negative ++ Nat.toDigits 10 n := by
    cases negative with
    | false => exact Nat.toList_repr
    | true =>
        -- An integer below zero is the successor of one, with a minus sign in front.
        cases n with
        | zero => exact absurd rfl (hsign rfl)
        | succ n =>
            change ("-" ++ (n + 1).repr).toList = _
            rw [String.toList_append, Nat.toList_repr]
            rfl
  have hunsigned := IsUnsigned.intro _ (Nat.toDigits 10 n) [] [] 0 ⟨n, 0⟩
    (.plain _ (isDigits_toDigits n)) .omitted fun other => by
      rw [List.append_nil, Nat.ofDigitChars_ten_toDigits]
      rfl
  have hnumber := hunsigned.isNumber (isSign_signText negative)
  rw [List.append_nil, ofDecimal_natural negative valid hunits] at hnumber
  rwa [hchars]

/-- The text of a finite number spells it, unless it is the negative zero. -/
theorem isNumber_display (negative : Bool) {units : Nat} (valid : IsMagnitude units)
    (hzero : negative = true → units ≠ 0) :
    IsNumber (finite negative units valid).display.toList (.finite negative units valid) := by
  unfold display toInt?
  dsimp only
  by_cases hwhole : units % unitsPerOne = 0
  · rw [if_pos hwhole]
    have hunits := Nat.div_mul_cancel (Nat.dvd_of_mod_eq_zero hwhole)
    refine isNumber_signed negative valid hunits fun hnegative hn => hzero hnegative ?_
    rw [← hunits, hn, Nat.zero_mul]
  · rw [if_neg hwhole]
    dsimp only
    rw [numeral, String.toList_ofList]
    exact isNumber_numeralChars negative valid

end Binary64

namespace Numeral

/-- A character that reading takes as it is: no white space, no underscore, and no digit
    of another script. -/
def IsPlain (c : Char) : Prop := Text.isBlank c = false ∧ c ≠ '_' ∧ toPlainDigit c = c

instance (c : Char) : Decidable (IsPlain c) := inferInstanceAs (Decidable (_ ∧ _ ∧ _))

theorem isPlain_of_all {cs : List Char} (h : (cs.all fun c => decide (IsPlain c)) = true) :
    ∀ c ∈ cs, IsPlain c := fun c hc => of_decide_eq_true (List.all_eq_true.1 h c hc)

theorem isPlain_of_isDigit {c : Char} (h : c.isDigit = true) : IsPlain c := by
  have hall : ∀ code ∈ List.range' 48 10, IsPlain (Char.ofNat code) := by decide
  have hcode : 48 ≤ c.toNat ∧ c.toNat ≤ 57 := Char.isDigit_iff_toNat.1 h
  rw [← Char.ofNat_toNat c]
  exact hall _ (List.mem_range'_1.2 (by omega))

theorem isPlain_of_mem_sign {sign : List Char} {negative : Bool} (h : IsSign sign negative) :
    ∀ c ∈ sign, IsPlain c := by
  cases h with
  | omitted => exact List.forall_mem_nil _
  | plus => exact List.forall_mem_singleton.2 (by decide)
  | minus => exact List.forall_mem_singleton.2 (by decide)

theorem isPlain_of_mem_integer {literal : List Char} {i : Int} (h : IsInteger literal i) :
    ∀ c ∈ literal, IsPlain c := by
  cases h with
  | intro sign digits negative hsign hdigits =>
      exact List.forall_mem_append.2 ⟨isPlain_of_mem_sign hsign, fun c hc =>
        isPlain_of_isDigit (hdigits.2 c hc)⟩

/-- A number in ASCII holds nothing that reading would change. -/
theorem isPlain_of_mem_number {literal : List Char} {x : Binary64} (h : IsNumber literal x) :
    ∀ c ∈ literal, IsPlain c := by
  cases h with
  | intro sign m whole fraction e negative power hsign hmantissa hexponent =>
      refine List.forall_mem_append.2
        ⟨isPlain_of_mem_sign hsign, List.forall_mem_append.2 ⟨?_, ?_⟩⟩
      · cases hmantissa with
        | plain _ hwhole => exact fun c hc => isPlain_of_isDigit (hwhole.2 c hc)
        | pointed _ _ hwhole hfraction _ =>
            refine List.forall_mem_append.2 ⟨fun c hc => isPlain_of_isDigit (hwhole c hc), ?_⟩
            exact List.forall_mem_cons.2 ⟨by decide, fun c hc =>
              isPlain_of_isDigit (hfraction c hc)⟩
      · cases hexponent with
        | omitted => exact List.forall_mem_nil _
        | given letter literal _ hletter hliteral =>
            refine List.forall_mem_cons.2 ⟨?_, isPlain_of_mem_integer hliteral⟩
            rcases hletter with rfl | rfl
            · decide
            · decide

theorem dropUnderscores?_eq_self {cs : List Char} (h : ∀ c ∈ cs, IsPlain c) (afterDigit : Bool) :
    dropUnderscores? afterDigit cs = some cs := by
  induction cs generalizing afterDigit with
  | nil => rfl
  | cons c rest ih =>
      rcases List.forall_mem_cons.1 h with ⟨hc, hrest⟩
      rw [dropUnderscores?, ih hrest]
      · rfl
      · exact fun _ _ hline _ => hc.2.1 hline
      · exact fun hline _ => hc.2.1 hline

/-- What holds nothing that reading would change is read as it is. -/
theorem readChars?_of_isPlain {cs : List Char} (h : ∀ c ∈ cs, IsPlain c) :
    readChars? cs = readPlain? cs := by
  have hpadding : ∀ c ∈ cs, isPadding c = false := by
    intro c hc
    unfold isPadding
    rw [(h c hc).1, Bool.false_and]
  have hdigits : cs.map toPlainDigit = cs := by
    refine (List.map_congr_left fun c hc => (h c hc).2.2).trans (List.map_id' cs)
  rw [readChars?, Text.trim_eq_self hpadding, hdigits, dropUnderscores?_eq_self h]

theorem ne_zero_of_ne_signedZero {negative : Bool} {units : Nat} {valid : IsMagnitude units}
    (h : Binary64.finite negative units valid ≠ .signedZero true) :
    negative = true → units ≠ 0 := by
  rintro rfl rfl
  exact h rfl

/-- The text of a number holds no white space, nor anything else that reading would
    change. -/
theorem isPlain_of_mem_display {x : Binary64} (hx : x ≠ .signedZero true) :
    ∀ c ∈ x.display.toList, IsPlain c := by
  cases x with
  | nan object =>
      change ∀ c ∈ (Binary64.nan .fresh).display.toList, IsPlain c
      exact isPlain_of_all (by decide)
  | infinity negative =>
      cases negative with
      | false => exact isPlain_of_all (by decide)
      | true => exact isPlain_of_all (by decide)
  | finite negative units valid =>
      exact isPlain_of_mem_number
        (Binary64.isNumber_display negative valid (ne_zero_of_ne_signedZero hx))

/-- A number is read back from its text, unless it is the negative zero. Not a number is read
    back as another object. -/
theorem read?_display {x : Binary64} (hx : x ≠ .signedZero true) :
    read? x.display = some x.anew := by
  cases x with
  | nan object =>
      change read? (Binary64.nan .fresh).display = some (.nan .fresh)
      rfl
  | infinity negative => cases negative <;> rfl
  | finite negative units valid =>
      have hnumber := Binary64.isNumber_display negative valid (ne_zero_of_ne_signedZero hx)
      rw [read?, readChars?_of_isPlain (isPlain_of_mem_number hnumber), readPlain?_eq hnumber]
      rfl

/-- What is read is made anew. -/
theorem anew_of_read? {text : String} {x : Binary64} (h : read? text = some x) : x.anew = x := by
  have hword : ∀ {negative : Bool} {cs : List Char} {y : Binary64},
      readWord? negative cs = some y → y.anew = y := by
    intro negative cs y hy
    unfold readWord? at hy
    dsimp only at hy
    split at hy
    · cases hy
      rfl
    split at hy
    · cases hy
      rfl
    · cases hy
  unfold read? readChars? readPlain? at h
  split at h
  · dsimp only at h
    split at h
    · rename_i hy
      cases h
      exact hword hy
    · rcases Option.map_eq_some_iff.1 h with ⟨d, _, rfl⟩
      exact Binary64.anew_of_isNan_eq_false (Binary64.isNan_ofDecimal _ _)
  · cases h

end Numeral

end TextGrammar
