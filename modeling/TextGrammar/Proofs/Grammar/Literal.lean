import TextGrammar.Grammar.Load
import TextGrammar.Proofs.Grammar.Spelling

/-!
# Number Literals

What the numbers in headers look like and what they stand for.

A literal goes on as far as it can, so what follows it is asked to be no part of a
number. The value of a number is that of its digits with the point left out, times a
power of ten, rounded once.

## Main definitions

* `Spelling.IsInteger`: Integers and their values.
* `Spelling.IsNumber`: Numbers and their values.
* `Spelling.EndsNumber`: The end of a number.

## Theorems

* `Token.integer?_append`, `Token.number?_append`: Literals are read to their ends.
* `Numeral.readPlain?_eq`, `Grammar.integerOf_eq`, `Grammar.numberOf_eq`: Literals are
  given their values.
-/

namespace TextGrammar

namespace Spelling

/-- An optional sign, with whether it is a minus sign. -/
inductive IsSign : List Char → Bool → Prop
  | omitted : IsSign [] false
  | plus : IsSign ['+'] false
  | minus : IsSign ['-'] true

/-- At least one digit. -/
def IsDigits (digits : List Char) : Prop := digits ≠ [] ∧ ∀ c ∈ digits, c.isDigit = true

/-- An integer with an optional sign, and its value. -/
inductive IsInteger : List Char → Int → Prop
  | intro (sign digits : List Char) (negative : Bool) (hsign : IsSign sign negative)
      (hdigits : IsDigits digits) :
      IsInteger (sign ++ digits)
        (if negative then -(Nat.ofDigitChars 10 digits 0 : Int) else Nat.ofDigitChars 10 digits 0)

/-- Digits with an optional point among or around them, and those on either side of
    it. -/
inductive IsMantissa : List Char → List Char → List Char → Prop
  | plain (whole : List Char) (hwhole : IsDigits whole) : IsMantissa whole whole []
  | pointed (whole fraction : List Char) (hwhole : ∀ c ∈ whole, c.isDigit = true)
      (hfraction : ∀ c ∈ fraction, c.isDigit = true) (hne : whole ≠ [] ∨ fraction ≠ []) :
      IsMantissa (whole ++ '.' :: fraction) whole fraction

/-- An optional exponent, and its value. -/
inductive IsExponent : List Char → Int → Prop
  | omitted : IsExponent [] 0
  | given (e : Char) (literal : List Char) (power : Int) (he : e = 'e' ∨ e = 'E')
      (h : IsInteger literal power) : IsExponent (e :: literal) power

/-- A number with an optional sign and an optional exponent, and its value. -/
inductive IsNumber : List Char → Binary64 → Prop
  | intro (sign mantissa whole fraction exponent : List Char) (negative : Bool) (power : Int)
      (hsign : IsSign sign negative) (hmantissa : IsMantissa mantissa whole fraction)
      (hexponent : IsExponent exponent power) :
      IsNumber (sign ++ (mantissa ++ exponent))
        (.ofDecimal negative
          ⟨Nat.ofDigitChars 10 (whole ++ fraction) 0, power - fraction.length⟩)

/-- No number goes on with these characters. -/
def EndsNumber (rest : List Char) : Prop :=
  ∀ c ∈ rest.head?, c.isDigit = false ∧ c ≠ '.' ∧ c ≠ 'e' ∧ c ≠ 'E'

/-- No sign stands in front of these characters. -/
def LacksSign (cs : List Char) : Prop := ∀ c ∈ cs.head?, c ≠ '+' ∧ c ≠ '-'

theorem lacksSign_of_isDigit {c : Char} (cs : List Char) (h : c.isDigit = true) :
    LacksSign (c :: cs) := by
  rintro d hd
  cases hd
  refine ⟨?_, ?_⟩
  · rintro rfl
    exact absurd h (by decide)
  · rintro rfl
    exact absurd h (by decide)

theorem IsDigits.exists_cons {digits : List Char} (h : IsDigits digits) :
    ∃ c more, digits = c :: more ∧ c.isDigit = true := by
  rcases h with ⟨hne, hdigits⟩
  cases digits with
  | nil => exact absurd rfl hne
  | cons c more => exact ⟨c, more, rfl, hdigits c List.mem_cons_self⟩

/-- A mantissa starts with a digit or with the point. -/
theorem IsMantissa.exists_cons {mantissa whole fraction : List Char}
    (h : IsMantissa mantissa whole fraction) :
    ∃ c more, mantissa = c :: more ∧ (c.isDigit = true ∨ c = '.') := by
  cases h with
  | plain _ hwhole =>
      rcases hwhole.exists_cons with ⟨c, more, hcons, hc⟩
      exact ⟨c, more, hcons, Or.inl hc⟩
  | pointed _ _ hwhole hfraction hne =>
      cases whole with
      | nil => exact ⟨'.', fraction, rfl, Or.inr rfl⟩
      | cons c whole => exact ⟨c, _, rfl, Or.inl (hwhole c List.mem_cons_self)⟩

theorem IsDigits.lacksSign {digits : List Char} (h : IsDigits digits) (rest : List Char) :
    LacksSign (digits ++ rest) := by
  rcases h.exists_cons with ⟨c, more, rfl, hc⟩
  exact lacksSign_of_isDigit _ hc

theorem IsMantissa.lacksSign {mantissa whole fraction : List Char}
    (h : IsMantissa mantissa whole fraction) (rest : List Char) : LacksSign (mantissa ++ rest) := by
  rcases h.exists_cons with ⟨c, more, rfl, hc | rfl⟩
  · exact lacksSign_of_isDigit _ hc
  · intro c hc
    cases hc
    decide

theorem isEmpty_and_eq_false {whole fraction : List Char} (hne : whole ≠ [] ∨ fraction ≠ []) :
    ¬ (whole.isEmpty && fraction.isEmpty) = true := by
  rw [Bool.and_eq_true, List.isEmpty_iff, List.isEmpty_iff]
  exact fun h => hne.elim (fun hwhole => hwhole h.1) fun hfraction => hfraction h.2

theorem beq_letter {e : Char} (he : e = 'e' ∨ e = 'E') : (e == 'e' || e == 'E') = true := by
  rcases he with rfl | rfl
  · rfl
  · rfl

/-- Digits end at the point behind them, and those behind it where the digits end. -/
theorem runs_of_pointed {whole fraction rest : List Char}
    (hwhole : ∀ c ∈ whole, c.isDigit = true) (hfraction : ∀ c ∈ fraction, c.isDigit = true)
    (hrest : ∀ c ∈ rest.head?, c.isDigit = false) :
    ((whole ++ '.' :: (fraction ++ rest)).takeWhile Char.isDigit = whole ∧
      (whole ++ '.' :: (fraction ++ rest)).dropWhile Char.isDigit = '.' :: (fraction ++ rest)) ∧
    (fraction ++ rest).takeWhile Char.isDigit = fraction ∧
      (fraction ++ rest).dropWhile Char.isDigit = rest := by
  refine ⟨takeWhile_append_of_stop hwhole ?_, takeWhile_append_of_stop hfraction hrest⟩
  intro c hc
  cases hc
  rfl

end Spelling

open Spelling

namespace Token

theorem sign_append {s cs : List Char} {negative : Bool} (h : IsSign s negative)
    (hcs : LacksSign cs) : sign (s ++ cs) = (s, cs) := by
  cases h with
  | plus => rfl
  | minus => rfl
  | omitted =>
      cases cs with
      | nil => rfl
      | cons c cs =>
          rcases hcs c rfl with ⟨hplus, hminus⟩
          rw [List.nil_append, sign]
          · rintro more hmore
            exact hplus (List.cons.inj hmore).1
          · rintro more hmore
            exact hminus (List.cons.inj hmore).1

theorem digits?_append {ds rest : List Char} (h : IsDigits ds)
    (hrest : ∀ c ∈ rest.head?, c.isDigit = false) : digits? (ds ++ rest) = some (ds, rest) := by
  rcases h with ⟨hne, hdigits⟩
  rcases takeWhile_append_of_stop hdigits hrest with ⟨htake, hdrop⟩
  rw [digits?, htake, hdrop, if_neg]
  rwa [List.isEmpty_iff]

theorem integer?_append {literal rest : List Char} {i : Int} (h : IsInteger literal i)
    (hrest : ∀ c ∈ rest.head?, c.isDigit = false) :
    integer? (literal ++ rest) = some (literal, rest) := by
  cases h with
  | intro s ds negative hsign hdigits =>
      rw [List.append_assoc, integer?, sign_append hsign (hdigits.lacksSign rest)]
      dsimp only
      rw [digits?_append hdigits hrest]
      rfl

theorem mantissa?_append {m whole fraction rest : List Char} (h : IsMantissa m whole fraction)
    (hrest : ∀ c ∈ rest.head?, c.isDigit = false ∧ c ≠ '.') :
    mantissa? (m ++ rest) = some (m, rest) := by
  have hdigit : ∀ c ∈ rest.head?, c.isDigit = false := fun c hc => (hrest c hc).1
  unfold mantissa?
  cases h with
  | plain _ hwhole =>
      rcases takeWhile_append_of_stop hwhole.2 hdigit with ⟨htake, hdrop⟩
      have hne : ¬ m.isEmpty = true := by
        rw [List.isEmpty_iff]
        exact hwhole.1
      rw [htake, hdrop]
      dsimp only
      -- The digits are not followed by a point, which would belong to the number.
      split
      · exact absurd rfl (hrest _ rfl).2
      · rw [if_neg hne]
  | pointed _ _ hwhole hfraction hne =>
      rcases runs_of_pointed hwhole hfraction hdigit with ⟨⟨htake, hdrop⟩, htake', hdrop'⟩
      rw [List.append_assoc, List.cons_append, htake, hdrop]
      -- Behind the point the reader looks at the fraction, and at what is left of both.
      change (if (whole.isEmpty && ((fraction ++ rest).takeWhile Char.isDigit).isEmpty) = true
        then none else some (whole ++ '.' :: _, _)) = _
      rw [htake', hdrop', if_neg (isEmpty_and_eq_false hne)]

theorem exponent_append {e rest : List Char} {power : Int} (h : IsExponent e power)
    (hrest : EndsNumber rest) : exponent (e ++ rest) = (e, rest) := by
  cases h with
  | omitted =>
      cases rest with
      | nil => rfl
      | cons c rest =>
          rcases hrest c rfl with ⟨_, _, hlower, hupper⟩
          rw [List.nil_append, exponent, beq_false_of_ne hlower, beq_false_of_ne hupper]
          rfl
  | given e literal _ he h =>
      rw [List.cons_append, exponent, if_pos (beq_letter he),
        integer?_append h fun c hc => (hrest c hc).1]

/-- An exponent is no part of the digits in front, and neither is what ends a number. -/
theorem ends_of_isExponent {e rest : List Char} {power : Int} (h : IsExponent e power)
    (hrest : EndsNumber rest) : ∀ c ∈ (e ++ rest).head?, c.isDigit = false ∧ c ≠ '.' := by
  cases h with
  | omitted => exact fun c hc => ⟨(hrest c hc).1, (hrest c hc).2.1⟩
  | given e literal _ he h =>
      intro c hc
      cases hc
      rcases he with rfl | rfl
      · decide
      · decide

theorem number?_append {literal rest : List Char} {x : Binary64} (h : IsNumber literal x)
    (hrest : EndsNumber rest) : number? (literal ++ rest) = some (literal, rest) := by
  cases h with
  | intro s m whole fraction e negative power hsign hmantissa hexponent =>
      have hmantissa' := mantissa?_append hmantissa (ends_of_isExponent hexponent hrest)
      rw [List.append_assoc, List.append_assoc, number?,
        sign_append hsign (hmantissa.lacksSign (e ++ rest))]
      dsimp only
      rw [hmantissa', Option.map_some]
      dsimp only
      rw [exponent_append hexponent hrest, List.append_assoc]

end Token

namespace Numeral

theorem splitSign_append {s cs : List Char} {negative : Bool} (h : IsSign s negative)
    (hcs : LacksSign cs) : splitSign (s ++ cs) = (negative, cs) := by
  cases h with
  | plus => rfl
  | minus => rfl
  | omitted =>
      cases cs with
      | nil => rfl
      | cons c cs =>
          rcases hcs c rfl with ⟨hplus, hminus⟩
          rw [List.nil_append, splitSign]
          · rintro more hmore
            exact hminus (List.cons.inj hmore).1
          · rintro more hmore
            exact hplus (List.cons.inj hmore).1

theorem readExponent?_eq {e : List Char} {power : Int} (h : IsExponent e power) :
    readExponent? e = some power := by
  cases h with
  | omitted => rfl
  | given e literal _ he h =>
      cases h with
      | intro s digits negative hsign hdigits =>
          have hfit : ¬ (digits.isEmpty || !digits.all Char.isDigit) = true := by
            rw [List.all_eq_true.2 hdigits.2, Bool.not_true, Bool.or_false, List.isEmpty_iff]
            exact hdigits.1
          have hsplit := splitSign_append hsign (hdigits.lacksSign [])
          rw [List.append_nil] at hsplit
          rw [readExponent?, if_pos (beq_letter he), hsplit]
          dsimp only
          rw [if_neg hfit]

/-- The exponent is no part of the digits in front. -/
theorem stops_of_isExponent {e : List Char} {power : Int} (h : IsExponent e power) :
    ∀ c ∈ e.head?, c.isDigit = false ∧ c ≠ '.' := by
  have hends := Token.ends_of_isExponent h (show EndsNumber [] from nofun)
  rwa [List.append_nil] at hends

/-- A numeral with its digits told apart from its exponent. -/
theorem readDecimal?_of_split {cs whole fraction e : List Char} {power : Int}
    (hwhole : cs.takeWhile Char.isDigit = whole)
    (hrest : (∃ more, cs.dropWhile Char.isDigit = '.' :: more ∧
        more.takeWhile Char.isDigit = fraction ∧ more.dropWhile Char.isDigit = e) ∨
      (cs.dropWhile Char.isDigit = e ∧ fraction = [] ∧ ∀ c ∈ e.head?, c ≠ '.'))
    (hne : whole ≠ [] ∨ fraction ≠ []) (hpower : readExponent? e = some power) :
    readDecimal? cs =
      some ⟨Nat.ofDigitChars 10 (whole ++ fraction) 0, power - fraction.length⟩ := by
  have hdigits := isEmpty_and_eq_false hne
  unfold readDecimal?
  rw [hwhole]
  rcases hrest with ⟨more, hrest, rfl, rfl⟩ | ⟨hrest, rfl, hpoint⟩
  · rw [hrest]
    change (if (whole.isEmpty && (more.takeWhile Char.isDigit).isEmpty) = true then none
      else (readExponent? (more.dropWhile Char.isDigit)).map _) = _
    rw [if_neg hdigits, hpower]
    rfl
  · rw [hrest]
    dsimp only
    split
    · exact absurd rfl (hpoint _ rfl)
    · dsimp only
      rw [if_neg hdigits, hpower]
      rfl

theorem readDecimal?_eq {m whole fraction e : List Char} {power : Int}
    (hmantissa : IsMantissa m whole fraction) (hexponent : IsExponent e power) :
    readDecimal? (m ++ e) =
      some ⟨Nat.ofDigitChars 10 (whole ++ fraction) 0, power - fraction.length⟩ := by
  have hstops := stops_of_isExponent hexponent
  have hdigit : ∀ c ∈ e.head?, c.isDigit = false := fun c hc => (hstops c hc).1
  have hpower := readExponent?_eq hexponent
  cases hmantissa with
  | plain _ hwhole =>
      rcases takeWhile_append_of_stop hwhole.2 hdigit with ⟨htake, hdrop⟩
      exact readDecimal?_of_split htake (Or.inr ⟨hdrop, rfl, fun c hc => (hstops c hc).2⟩)
        (Or.inl hwhole.1) hpower
  | pointed _ _ hwhole hfraction hne =>
      rcases runs_of_pointed hwhole hfraction hdigit with ⟨⟨htake, hdrop⟩, hbehind⟩
      rw [List.append_assoc, List.cons_append]
      exact readDecimal?_of_split htake (Or.inl ⟨_, hdrop, hbehind⟩) hne hpower

theorem toLower_of_isDigit {c : Char} (h : c.isDigit = true) : c.toLower = c := by
  -- Digits have lower codes than capital letters, which alone are changed.
  refine dif_neg fun hupper => ?_
  have hnine : c.toNat ≤ 57 := (Char.isDigit_iff_toNat.1 h).2
  have hletter : 65 ≤ c.toNat := UInt32.le_iff_toNat_le.1 hupper.1
  omega

theorem readWord?_eq_none_of_head (negative : Bool) {c : Char} (cs : List Char)
    (h : c.toLower ≠ 'i' ∧ c.toLower ≠ 'n') : readWord? negative (c :: cs) = none := by
  -- Every word starts with one of the two letters.
  have hword : ∀ (first : Char) (word : String) (more : List Char),
      word.toList = first :: more → c.toLower ≠ first →
        (String.ofList ((c :: cs).map Char.toLower) == word) = false := by
    intro first word more hlist hne
    refine beq_false_of_ne fun heq => ?_
    rw [← heq, String.toList_ofList, List.map_cons] at hlist
    exact hne (List.cons.inj hlist).1
  unfold readWord?
  dsimp only
  rw [hword 'i' "inf" _ rfl h.1, hword 'i' "infinity" _ rfl h.1, hword 'n' "nan" _ rfl h.2]
  rfl

theorem readWord?_eq_none (negative : Bool) {m whole fraction : List Char}
    (h : IsMantissa m whole fraction) (rest : List Char) :
    readWord? negative (m ++ rest) = none := by
  have hdigit : ∀ c : Char, c.isDigit = true → c.toLower ≠ 'i' ∧ c.toLower ≠ 'n' := by
    intro c hc
    rw [toLower_of_isDigit hc]
    refine ⟨?_, ?_⟩
    · rintro rfl
      exact absurd hc (by decide)
    · rintro rfl
      exact absurd hc (by decide)
  rcases h.exists_cons with ⟨c, cs, rfl, hc | rfl⟩
  · exact readWord?_eq_none_of_head negative _ (hdigit c hc)
  · exact readWord?_eq_none_of_head negative _ (by decide)

/-- A number is read as its value. -/
theorem readPlain?_eq {literal : List Char} {x : Binary64} (h : IsNumber literal x) :
    readPlain? literal = some x := by
  cases h with
  | intro s m whole fraction e negative power hsign hmantissa hexponent =>
      rw [readPlain?, splitSign_append hsign (hmantissa.lacksSign e)]
      dsimp only
      -- Infinity and what is not a number are words, with which no literal starts.
      rw [readWord?_eq_none negative hmantissa, readDecimal?_eq hmantissa hexponent]
      rfl

end Numeral

namespace Grammar

theorem integerOf_eq (option : String) {literal : List Char} {i : Int} (h : IsInteger literal i)
    (hlimit : literal.countP Char.isDigit ≤ Numeral.integerDigitLimit) :
    integerOf option literal = .ok i := by
  cases h with
  | intro s digits negative hsign hdigits =>
      -- A sign is no digit, so the limit is one on the number of digits.
      have hcount : digits.length ≤ Numeral.integerDigitLimit := by
        rw [List.countP_append, List.countP_eq_length.2 hdigits.2] at hlimit
        omega
      have hsplit := Numeral.splitSign_append hsign (hdigits.lacksSign [])
      rw [List.append_nil] at hsplit
      rw [integerOf, hsplit]
      dsimp only
      rw [if_neg (Nat.not_lt.2 hcount)]

theorem numberOf_eq {literal : List Char} {x : Binary64} (h : IsNumber literal x) :
    numberOf literal = x := by
  rw [numberOf, Numeral.readPlain?_eq h]
  rfl

end Grammar

end TextGrammar
