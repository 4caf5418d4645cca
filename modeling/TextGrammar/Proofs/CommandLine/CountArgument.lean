import TextGrammar.CommandLine.Request
import TextGrammar.Proofs.Number.ReadBack

/-!
# The Argument of the Count

What the count in a command line has a part in.

The arguments of a command are told apart first, and here a count is one like any
other: it is no option, although it may start with a dash. Then they are read from the
front. Reading comes to the option `--count` and takes the argument behind it as its
value, or it breaks off before, or it has come to a double dash, and then neither of the
two arguments is an option and they are too many. So whatever stands around them, with
another count the uses of options are the same but for one value.

Two command lines that differ in a count therefore ask for the same, or for requests
that differ in the number of runs. They ask for the same if help was asked for, if there
is a mistake, or if the option is used again behind.

## Main definitions

* `CommandLine.IsCountText`: An argument that is read as a certain count.
* `CommandLine.LacksDigits`: Options that cannot be taken for negative numbers.
* `CommandLine.SameKinds`: The arguments of two command lines, told apart.
* `CommandLine.SameUses`: What two command lines come to when they are scanned.
* `CommandLine.SameButCount`, `CommandLine.Request.SameButCount`: Requests that differ in
  the number of runs at most.

## Theorems

* `CommandLine.sameKinds_of_classify`, `CommandLine.sameUses_of_scan`: The two stages of
  reading.
* `CommandLine.sameButCount_ofArguments`: What both command lines ask for.
* `CommandLine.isCountText_toString`: Integers are counts.
-/

namespace TextGrammar

open Spelling

namespace CommandLine

/-- An argument that is read as a count, and that neither the program nor the command
    takes for an option. -/
structure IsCountText (s : String) (i : Int) : Prop where
  reads : readInteger? s = some i
  plain_program : ArgumentKind.of? programOptions s = some .plain
  plain_run : ArgumentKind.of? runOptions s = some .plain

/-- What is no option is not the double dash, with which long options begin. -/
theorem IsCountText.ne_dashes {s : String} {i : Int} (h : IsCountText s i) : s ≠ "--" := by
  rintro rfl
  exact absurd h.plain_run (by decide)

section Integers

variable {specs : List OptionSpec} {literal : List Char} {i : Int}

/-- The integer of a literal with few enough digits. -/
theorem readInteger?_eq (h : IsInteger literal i)
    (hlimit : literal.countP Char.isDigit ≤ Numeral.integerDigitLimit) :
    readInteger? (String.ofList literal) = some i := by
  -- A literal has no padding and no digits of other scripts, so it is read as it stands.
  have hplain := Numeral.isPlain_of_mem_integer h
  have hpadding : ∀ c ∈ literal, Numeral.isPadding c = false := fun c hc => by
    rw [Numeral.isPadding, (hplain c hc).1, Bool.false_and]
  have hmap : literal.map Numeral.toPlainDigit = literal :=
    (List.map_congr_left fun c hc => (hplain c hc).2.2).trans (List.map_id' literal)
  unfold readInteger?
  rw [String.toList_ofList, Text.trim_eq_self hpadding, hmap]
  dsimp only
  cases h with
  | intro sign digits negative hsign hdigits =>
      have hcount : digits.length ≤ Numeral.integerDigitLimit := by
        rw [List.countP_append, List.countP_eq_length.2 hdigits.2] at hlimit
        omega
      have hsplit := Numeral.splitSign_append hsign (hdigits.lacksSign [])
      rw [List.append_nil] at hsplit
      have hkeep : Numeral.dropUnderscores? false digits = some digits :=
        Numeral.dropUnderscores?_eq_self
          (fun c hc => Numeral.isPlain_of_isDigit (hdigits.2 c hc)) false
      rw [hsplit]
      dsimp only
      rw [hkeep, Option.bind_some, List.isEmpty_eq_false_iff.2 hdigits.1,
        List.all_eq_true.2 hdigits.2, decide_eq_false (Nat.not_lt.2 hcount)]
      rfl

/-- Digits with a minus sign look like a negative number. -/
theorem looksNegative_of_isDigits {digits : List Char} (h : IsDigits digits) :
    looksNegative ('-' :: digits) = true := by
  have hdigit : ∀ c ∈ digits, (Text.digitValue? c).isSome = true := by
    have hall : ∀ code ∈ List.range' 48 10, (Text.digitValue? (Char.ofNat code)).isSome = true := by
      decide
    intro c hc
    have hcode : 48 ≤ c.toNat ∧ c.toNat ≤ 57 := Char.isDigit_iff_toNat.1 (h.2 c hc)
    rw [← Char.ofNat_toNat c]
    exact hall _ (List.mem_range'_1.2 (by omega))
  have hlast : ('-' :: digits).getLast? ≠ some '\n' := by
    intro hlast
    rcases List.mem_cons.1 (List.mem_of_getLast? hlast) with hsign | hmem
    · exact absurd hsign (by decide)
    · exact absurd (h.2 _ hmem) (by decide)
  have hkeep : dropFinalLineFeed ('-' :: digits) = '-' :: digits :=
    if_neg (ne_true_of_eq_false (beq_false_of_ne hlast))
  unfold looksNegative
  simp only [hkeep, List.dropWhile_eq_nil_iff.2 hdigit, List.isEmpty_eq_false_iff.2 h.1,
    Bool.not_false]

/-- No option is a dash with a digit behind it. -/
def LacksDigits (specs : List OptionSpec) : Prop :=
  ∀ spec ∈ specs, ∀ name ∈ spec.names, ∀ c ∈ name.toList[1]?, c.isDigit = false

instance (specs : List OptionSpec) : Decidable (LacksDigits specs) :=
  decidable_of_iff
    (specs.all fun spec => spec.names.all fun name =>
      name.toList[1]?.toList.all fun c => !c.isDigit)
    (by simp [LacksDigits])

theorem LacksDigits.ne_name (hspecs : LacksDigits specs) {spec : OptionSpec} (hspec : spec ∈ specs)
    {name : String} (hname : name ∈ spec.names) {d : Char} (hd : d.isDigit = true)
    (rest : List Char) : name.toList ≠ '-' :: d :: rest := by
  intro heq
  have hdigit := hspecs spec hspec name hname d (by rw [heq]; rfl)
  exact absurd (hd.symm.trans hdigit) (by decide)

/-- Nothing is named by a dash and digits, or short for that. -/
theorem LacksDigits.of?_negative (hspecs : LacksDigits specs) {digits : List Char}
    (h : IsDigits digits) :
    ArgumentKind.of? specs (String.ofList ('-' :: digits)) = some .plain := by
  have hnegative := looksNegative_of_isDigits h
  rcases digits with _ | ⟨d, rest⟩
  · exact absurd rfl h.1
  have hd : d.isDigit = true := h.2 d (List.mem_cons_self ..)
  have hdash : d ≠ '-' := by
    rintro rfl
    exact absurd hd (by decide)
  -- The text is not the name of an option, as it stands or up to an equals sign.
  have hfind : findOption? specs (cutAtEquals ('-' :: d :: rest)).1 = none := by
    have hequals : (d != '=') = true := by
      rw [bne_iff_ne]
      rintro rfl
      exact absurd hd (by decide)
    have hcut : (cutAtEquals ('-' :: d :: rest)).1 = '-' :: d :: rest.takeWhile (· != '=') := by
      simp only [cutAtEquals, List.takeWhile_cons, hequals, show ('-' != '=') = true from rfl,
        if_true]
    rw [hcut, findOption?, List.find?_eq_none]
    intro spec hspec hcontains
    have hname := List.contains_iff_mem.1 hcontains
    exact hspecs.ne_name hspec hname hd _ String.toList_ofList
  -- Nor does the name of an option begin with it, or with its first digit.
  have habbreviated : abbreviated specs ('-' :: d :: rest) = [] := by
    rw [abbreviated]
    · refine List.flatMap_eq_nil_iff.2 fun spec hspec =>
        List.filterMap_eq_nil_iff.2 fun name hname => ?_
      have hshort : ¬ (name == String.ofList ['-', d]) = true := by
        intro heq
        rw [eq_of_beq heq] at hname
        exact hspecs.ne_name hspec hname hd [] String.toList_ofList
      have hbegins : ¬ ('-' :: d :: rest).isPrefixOf name.toList = true := by
        intro hprefix
        rcases List.isPrefixOf_iff_prefix.1 hprefix with ⟨more, hmore⟩
        exact hspecs.ne_name hspec hname hd (rest ++ more) hmore.symm
      rw [if_neg hshort, if_neg hbegins]
    · exact hdash
  unfold ArgumentKind.of?
  rw [String.toList_ofList]
  dsimp only
  rw [hfind, habbreviated, hnegative]
  rfl

/-- An integer is no option. -/
theorem LacksDigits.of?_integer (hspecs : LacksDigits specs) (h : IsInteger literal i) :
    ArgumentKind.of? specs (String.ofList literal) = some .plain := by
  cases h with
  | intro sign digits negative hsign hdigits =>
      cases hsign with
      | minus => exact hspecs.of?_negative hdigits
      | plus =>
          unfold ArgumentKind.of?
          rw [String.toList_ofList]
          rfl
      | omitted =>
          rcases digits with _ | ⟨d, rest⟩
          · exact absurd rfl hdigits.1
          have hd : d.isDigit = true := hdigits.2 d (List.mem_cons_self ..)
          unfold ArgumentKind.of?
          rw [String.toList_ofList]
          dsimp only
          split
          · rename_i heq
            rw [(List.cons.inj heq).1] at hd
            exact absurd hd (by decide)
          · rfl

/-- Integers are counts, unless they are very long. -/
theorem isCountText_of_isInteger (h : IsInteger literal i)
    (hlimit : literal.countP Char.isDigit ≤ Numeral.integerDigitLimit) :
    IsCountText (String.ofList literal) i :=
  ⟨readInteger?_eq h hlimit, LacksDigits.of?_integer (by decide) h,
    LacksDigits.of?_integer (by decide) h⟩

theorem isInteger_toString (i : Int) : IsInteger (toString i).toList i := by
  cases i with
  | ofNat n =>
      have hinteger := IsInteger.intro [] _ false .omitted (isDigits_toDigits n)
      rw [Nat.ofDigitChars_ten_toDigits] at hinteger
      change IsInteger n.repr.toList n
      rw [Nat.toList_repr]
      exact hinteger
  | negSucc n =>
      have hinteger := IsInteger.intro ['-'] _ true .minus (isDigits_toDigits (n + 1))
      rw [Nat.ofDigitChars_ten_toDigits] at hinteger
      change IsInteger ("-" ++ (n + 1).repr).toList (-((n + 1 : Nat) : Int))
      rw [String.toList_append, Nat.toList_repr]
      exact hinteger

/-- The text of an integer is a count. -/
theorem isCountText_toString (i : Int)
    (hlimit : (toString i).toList.countP Char.isDigit ≤ Numeral.integerDigitLimit) :
    IsCountText (toString i) i := by
  have hcount := isCountText_of_isInteger (isInteger_toString i) hlimit
  rwa [String.ofList_toList] at hcount

end Integers

section Kinds

variable {specs : List OptionSpec}

theorem classify_cons {arg : String} (h : arg ≠ "--") (rest : List String) :
    ArgumentKind.classify specs (arg :: rest) =
      (ArgumentKind.of? specs arg).bind fun kind =>
        (ArgumentKind.classify specs rest).map ((arg, kind) :: ·) := by
  rw [ArgumentKind.classify, if_neg (ne_true_of_eq_false (beq_false_of_ne h))]
  cases ArgumentKind.of? specs arg with
  | none => rfl
  | some kind => cases ArgumentKind.classify specs rest <;> rfl

theorem map_fst_classify {args : List String} {kinds : List (String × ArgumentKind)}
    (h : ArgumentKind.classify specs args = some kinds) : kinds.map Prod.fst = args := by
  induction args generalizing kinds with
  | nil =>
      cases h
      rfl
  | cons arg rest ih =>
      by_cases hdashes : arg = "--"
      · subst hdashes
        cases h
        rw [List.map_cons, List.map_map]
        exact congrArg _ (List.map_id' rest)
      · rw [classify_cons hdashes] at h
        rcases Option.bind_eq_some_iff.1 h with ⟨kind, _, hkinds⟩
        rcases Option.map_eq_some_iff.1 hkinds with ⟨more, hmore, rfl⟩
        rw [List.map_cons, ih hmore]

/-- Another argument that is no option leaves it open whether the arguments can be told
    apart. -/
theorem isSome_classify_congr {s t : String} (hs : ArgumentKind.of? specs s = some .plain)
    (ht : ArgumentKind.of? specs t = some .plain) (hs' : s ≠ "--") (ht' : t ≠ "--")
    (front back : List String) :
    (ArgumentKind.classify specs (front ++ s :: back)).isSome =
      (ArgumentKind.classify specs (front ++ t :: back)).isSome := by
  induction front with
  | nil =>
      rw [List.nil_append, List.nil_append, classify_cons hs', classify_cons ht', hs, ht]
      simp only [Option.bind_some, Option.isSome_map]
  | cons arg rest ih =>
      rw [List.cons_append, List.cons_append]
      by_cases hdashes : arg = "--"
      · subst hdashes
        rfl
      · rw [classify_cons hdashes, classify_cons hdashes]
        cases ArgumentKind.of? specs arg with
        | none => rfl
        | some kind => simpa only [Option.bind_some, Option.isSome_map] using ih

/-- What may be an option is not taken for a double dash. -/
theorem of?_ne_dashes {arg : String} {kind : ArgumentKind}
    (h : ArgumentKind.of? specs arg = some kind) : kind ≠ .dashes := by
  rintro rfl
  unfold ArgumentKind.of? at h
  dsimp only at h
  repeat' split at h
  all_goals exact absurd h nofun

/-- The arguments of two command lines that differ in a count, told apart. The option is
    recognised in both, or it stands behind a double dash. -/
inductive SameKinds (s t : String) :
    List (String × ArgumentKind) → List (String × ArgumentKind) → Prop
  | option (arg : String) (rest : List (String × ArgumentKind)) :
      SameKinds s t ((arg, .known ⟨.count, false, none⟩) :: (s, .plain) :: rest)
        ((arg, .known ⟨.count, false, none⟩) :: (t, .plain) :: rest)
  | behind (front back : List String) (option : String) :
      SameKinds s t
        (("--", .dashes) :: (front ++ option :: s :: back).map fun arg => (arg, .plain))
        (("--", .dashes) :: (front ++ option :: t :: back).map fun arg => (arg, .plain))
  | cons (arg : String) (kind : ArgumentKind) (kinds others : List (String × ArgumentKind))
      (hkind : kind ≠ .dashes) (h : SameKinds s t kinds others) :
      SameKinds s t ((arg, kind) :: kinds) ((arg, kind) :: others)

end Kinds

section Reading

variable {s t : String} {n m : Int}

/-- With another count the same arguments are recognised, if all of them can be told
    apart at all. -/
theorem sameKinds_of_classify (hs : IsCountText s n) (ht : IsCountText t m)
    (front back : List String) :
    (ArgumentKind.classify runOptions (front ++ "--count" :: s :: back) = none ∧
      ArgumentKind.classify runOptions (front ++ "--count" :: t :: back) = none) ∨
    ∃ kinds others,
      ArgumentKind.classify runOptions (front ++ "--count" :: s :: back) = some kinds ∧
      ArgumentKind.classify runOptions (front ++ "--count" :: t :: back) = some others ∧
      SameKinds s t kinds others := by
  induction front with
  | nil =>
      have hdashes : "--count" ≠ "--" := by decide
      have hoption : ArgumentKind.of? runOptions "--count" =
          some (.known ⟨.count, false, none⟩) := by decide
      rw [List.nil_append, List.nil_append, classify_cons hdashes, classify_cons hdashes,
        classify_cons hs.ne_dashes, classify_cons ht.ne_dashes, hs.plain_run, ht.plain_run, hoption]
      cases ArgumentKind.classify runOptions back with
      | none => exact Or.inl ⟨rfl, rfl⟩
      | some rest => exact Or.inr ⟨_, _, rfl, rfl, .option "--count" rest⟩
  | cons arg rest ih =>
      rw [List.cons_append, List.cons_append]
      -- Behind two dashes nothing is an option, so the count is a positional argument on both
      -- sides.
      by_cases hdashes : arg = "--"
      · subst hdashes
        exact Or.inr ⟨_, _, rfl, rfl, .behind rest back "--count"⟩
      · rw [classify_cons hdashes, classify_cons hdashes]
        cases hkind : ArgumentKind.of? runOptions arg with
        | none => exact Or.inl ⟨rfl, rfl⟩
        | some kind =>
            rcases ih with ⟨hfirst, hsecond⟩ | ⟨kinds, others, hfirst, hsecond, hsame⟩
            · rw [hfirst, hsecond]
              exact Or.inl ⟨rfl, rfl⟩
            · rw [hfirst, hsecond]
              exact Or.inr ⟨_, _, rfl, rfl, .cons arg kind kinds others (of?_ne_dashes hkind) hsame⟩

/-- What two command lines come to when they are scanned: the same, or the same uses of
    options but for the value of one, which is the count. -/
inductive SameUses (s t : String) :
    List OptionUse × Option Ending → List OptionUse × Option Ending → Prop
  | same (result : List OptionUse × Option Ending) : SameUses s t result result
  | count (front back : List OptionUse) (ending : Option Ending) :
      SameUses s t (front ++ ⟨.count, s⟩ :: back, ending) (front ++ ⟨.count, t⟩ :: back, ending)

theorem SameUses.prepend {x y : List OptionUse × Option Ending} (h : SameUses s t x y)
    (uses : List OptionUse) : SameUses s t (uses ++ x.1, x.2) (uses ++ y.1, y.2) := by
  cases h with
  | same => exact .same _
  | count front back ending =>
      rw [← List.append_assoc, ← List.append_assoc]
      exact .count (uses ++ front) back ending

end Reading

section Scan

variable {specs : List OptionSpec}

/-- The scan behind an option that waits for a value. -/
def scanValue (specs : List OptionSpec) (e : Ending) (uses : List OptionUse) (role : OptionRole) :
    List (String × ArgumentKind) → List OptionUse × Option Ending
  | (value, .plain) :: rest =>
    let (more, ending) := scan specs e rest
    (uses ++ ⟨role, value⟩ :: more, ending)
  | _ => ([], none)

theorem scan_known (e : Ending) (arg : String) (m : OptionMatch)
    (rest : List (String × ArgumentKind)) :
    scan specs e ((arg, .known m) :: rest) =
      match Recognised.ofMatch? specs m with
      | none => ([], none)
      | some r =>
        match r.waiting with
        | none => (r.uses ++ (scan specs e rest).1, (scan specs e rest).2)
        | some role => scanValue specs e r.uses role rest := by
  rw [scan]
  cases Recognised.ofMatch? specs m with
  | none => rfl
  | some r =>
      rcases r with ⟨uses, waiting⟩
      cases waiting with
      | none => rfl
      | some role =>
          cases rest with
          | nil => rfl
          | cons next rest =>
              rcases next with ⟨value, kind⟩
              cases kind <;> rfl

/-- The first argument that is no option is the positional one. -/
theorem scan_first (leftOver : Bool) (arg : String) {rest : List (String × ArgumentKind)}
    (hrest : ∀ next ∈ rest.head?, next.2 ≠ .dashes) :
    scan specs ⟨none, leftOver⟩ ((arg, .plain) :: rest) = scan specs ⟨some arg, leftOver⟩ rest := by
  rw [scan]
  rintro next more rfl
  exact hrest _ rfl rfl

/-- Behind a double dash nothing is an option, and a second argument is too much. -/
theorem scan_plains (target : String) (leftOver : Bool) {args : List String} (hne : args ≠ []) :
    scan specs ⟨some target, leftOver⟩ (args.map fun arg => (arg, .plain)) =
      ([], some ⟨some target, true⟩) := by
  induction args generalizing leftOver with
  | nil => exact absurd rfl hne
  | cons arg rest ih =>
      rw [List.map_cons, scan]
      by_cases hrest : rest = []
      · subst hrest
        rw [List.map_nil, scan]
      · exact ih true hrest

/-- Only the first of the arguments behind a double dash can have a part in what the
    reading comes to. -/
theorem scan_behind (specs : List OptionSpec) (e : Ending) (front back : List String)
    (option : String) : ∃ ending, ∀ s, scan specs e
      (("--", .dashes) :: (front ++ option :: s :: back).map fun arg => (arg, .plain)) =
        ([], ending) := by
  rcases e with ⟨target, leftOver⟩
  cases target with
  | some target =>
      refine ⟨some ⟨some target, true⟩, fun s => ?_⟩
      rw [scan]
      · exact scan_plains target true (List.append_ne_nil_of_right_ne_nil _ (List.cons_ne_nil _ _))
      · exact nofun
  | none =>
      cases front with
      | nil =>
          refine ⟨some ⟨some option, true⟩, fun s => ?_⟩
          exact scan_plains option leftOver (List.cons_ne_nil s back)
      | cons arg rest =>
          refine ⟨some ⟨some arg, true⟩, fun s => ?_⟩
          exact scan_plains arg leftOver
            (List.append_ne_nil_of_right_ne_nil rest (List.cons_ne_nil option (s :: back)))

/-- A scan comes to the same uses of options, but for the value of the count. -/
theorem sameUses_of_scan {s t : String} {kinds others : List (String × ArgumentKind)}
    (h : SameKinds s t kinds others) :
    (∀ e, SameUses s t (scan runOptions e kinds) (scan runOptions e others)) ∧
      ∀ e uses role, SameUses s t (scanValue runOptions e uses role kinds)
        (scanValue runOptions e uses role others) := by
  induction h with
  | option arg rest =>
      have hmatch : Recognised.ofMatch? runOptions ⟨.count, false, none⟩ = some ⟨[], some .count⟩ :=
        by decide
      refine ⟨fun e => ?_, fun e uses role => .same _⟩
      rw [scan_known, scan_known, hmatch]
      exact .count [] (scan runOptions e rest).1 (scan runOptions e rest).2
  | behind front back option =>
      refine ⟨fun e => ?_, fun e uses role => .same _⟩
      rcases scan_behind runOptions e front back option with ⟨ending, hending⟩
      rw [hending, hending]
      exact .same _
  | cons arg kind kinds others hkind h ih =>
      constructor
      · rintro ⟨target, leftOver⟩
        cases kind with
        | dashes => exact absurd rfl hkind
        | unknown =>
            rw [scan, scan]
            exact ih.1 _
        | known m =>
            rw [scan_known, scan_known]
            cases Recognised.ofMatch? runOptions m with
            | none => exact .same _
            | some r =>
                rcases r with ⟨uses, waiting⟩
                cases waiting with
                | none => exact (ih.1 _).prepend uses
                | some role => exact ih.2 _ uses role
        | plain =>
            cases target with
            | some target =>
                rw [scan, scan]
                exact ih.1 _
            | none =>
                -- A double dash goes with a positional argument in front of it.
                cases h with
                | option more rest =>
                    rw [scan_first _ _ (by rintro _ ⟨⟩; nofun),
                      scan_first _ _ (by rintro _ ⟨⟩; nofun)]
                    exact ih.1 _
                | behind front back option =>
                    have hplains : ∀ count, scan runOptions ⟨none, leftOver⟩ ((arg, .plain) ::
                        ("--", .dashes) :: (front ++ option :: count :: back).map fun arg =>
                          (arg, .plain)) = ([], some ⟨some arg, true⟩) := fun count =>
                      scan_plains arg leftOver
                        (List.append_ne_nil_of_right_ne_nil _ (List.cons_ne_nil _ _))
                    rw [hplains, hplains]
                    exact .same _
                | cons next kind kinds others hnext =>
                    rw [scan_first _ _ (by rintro _ ⟨⟩; exact hnext),
                      scan_first _ _ (by rintro _ ⟨⟩; exact hnext)]
                    exact ih.1 _
      · intro e uses role
        cases kind with
        | plain =>
            have hvalue := (ih.1 e).prepend (uses ++ [⟨role, arg⟩])
            rw [List.append_assoc, List.append_assoc] at hvalue
            exact hvalue
        | _ => exact .same _

end Scan

/-- Requests for runs that differ in the number of runs at most. -/
inductive SameButCount (n m : Int) : RunRequest → RunRequest → Prop
  | same (r : RunRequest) : SameButCount n m r r
  | count (r : RunRequest) : SameButCount n m { r with count := n } { r with count := m }

/-- Two readings of uses of options that both end in the same request, or both go on with
    requests that differ in the number of runs at most. -/
def GoOnAlike (n m : Int) (x y : Except Request RunRequest) : Prop :=
  (∃ request, x = .error request ∧ y = .error request) ∨
    ∃ a b, x = .ok a ∧ y = .ok b ∧ SameButCount n m a b

namespace SameButCount

variable {n m : Int} {a b : RunRequest}

/-- A use of an option acts on both requests alike. -/
theorem actOn (h : SameButCount n m a b) (use : OptionUse) :
    GoOnAlike n m (use.actOn a) (use.actOn b) := by
  cases h with
  | same =>
      cases huse : use.actOn a with
      | error request => exact Or.inl ⟨request, rfl, rfl⟩
      | ok r => exact Or.inr ⟨r, r, rfl, rfl, .same r⟩
  | count r =>
      rcases use with ⟨role, value⟩
      cases role with
      | help => exact Or.inl ⟨_, rfl, rfl⟩
      | verbose => exact Or.inr ⟨_, _, rfl, rfl, .count r⟩
      | root => exact Or.inr ⟨_, _, rfl, rfl, .count { r with root := value }⟩
      | assignment =>
          exact Or.inr ⟨_, _, rfl, rfl, .count { r with assignments := r.assignments ++ [value] }⟩
      | showData => exact Or.inr ⟨_, _, rfl, rfl, .count { r with showData := true }⟩
      | seed =>
          simp only [OptionUse.actOn]
          cases readInteger? value with
          | none => exact Or.inl ⟨_, rfl, rfl⟩
          | some i => exact Or.inr ⟨_, _, rfl, rfl, .count { r with seed := some i }⟩
      | maxDepth =>
          simp only [OptionUse.actOn]
          cases readInteger? value with
          | none => exact Or.inl ⟨_, rfl, rfl⟩
          | some i => exact Or.inr ⟨_, _, rfl, rfl, .count { r with maxDepth := some i }⟩
      | count =>
          -- From here on, what was asked for in front is forgotten.
          simp only [OptionUse.actOn]
          cases readInteger? value with
          | none => exact Or.inl ⟨_, rfl, rfl⟩
          | some i => exact Or.inr ⟨_, _, rfl, rfl, .same { r with count := i }⟩

/-- So do uses of options one after the other. -/
theorem foldlM (h : SameButCount n m a b) (uses : List OptionUse) :
    GoOnAlike n m (uses.foldlM (fun r use => use.actOn r) a)
      (uses.foldlM (fun r use => use.actOn r) b) := by
  induction uses generalizing a b with
  | nil => exact Or.inr ⟨a, b, rfl, rfl, h⟩
  | cons use rest ih =>
      rw [List.foldlM_cons, List.foldlM_cons]
      rcases h.actOn use with ⟨request, ha, hb⟩ | ⟨r, r', ha, hb, hsame⟩
      · rw [ha, hb]
        exact Or.inl ⟨request, rfl, rfl⟩
      · rw [ha, hb]
        exact ih hsame

end SameButCount

/-- What is asked for is the same, or it is runs, and only their number differs. -/
inductive Request.SameButCount (n m : Int) : Request → Request → Prop
  | same (request : Request) : SameButCount n m request request
  | run (r : RunRequest) :
      SameButCount n m (.run { r with count := n }) (.run { r with count := m })

section Request

variable {s t : String} {n m : Int}

/-- The value of the count has its effect where it is used. -/
theorem goOnAlike_count (hs : IsCountText s n) (ht : IsCountText t m)
    (front back : List OptionUse) (r : RunRequest) :
    GoOnAlike n m ((front ++ ⟨.count, s⟩ :: back).foldlM (fun r use => use.actOn r) r)
      ((front ++ ⟨.count, t⟩ :: back).foldlM (fun r use => use.actOn r) r) := by
  rw [List.foldlM_append, List.foldlM_append]
  cases front.foldlM (fun r use => OptionUse.actOn use r) r with
  | error request => exact Or.inl ⟨request, rfl, rfl⟩
  | ok r =>
      have hact : ∀ {text : String} {i : Int}, readInteger? text = some i →
          OptionUse.actOn ⟨.count, text⟩ r = .ok { r with count := i } := by
        intro text i htext
        simp only [OptionUse.actOn, htext]
      have hok : ∀ {β : Type} (f : RunRequest → Except Request β), (Except.ok r >>= f) = f r :=
        fun _ => rfl
      rw [hok, hok, List.foldlM_cons, List.foldlM_cons, hact hs.reads, hact ht.reads]
      exact (SameButCount.count r).foldlM back

/-- What the arguments of the command ask for. -/
theorem sameButCount_ofCommand (hs : IsCountText s n) (ht : IsCountText t m)
    (front back : List String) :
    Request.SameButCount n m (ofCommand runOptions .run (front ++ "--count" :: s :: back))
      (ofCommand runOptions .run (front ++ "--count" :: t :: back)) := by
  unfold ofCommand
  -- Classified alike, then used alike: the two line up until the count is stored.
  rcases sameKinds_of_classify hs ht front back with
    ⟨hfirst, hsecond⟩ | ⟨kinds, others, hfirst, hsecond, hsame⟩
  · rw [hfirst, hsecond]
    exact .same _
  · rw [hfirst, hsecond]
    have huses := (sameUses_of_scan hsame).1 ⟨none, false⟩
    dsimp only
    generalize scan runOptions ⟨none, false⟩ kinds = x at huses ⊢
    generalize scan runOptions ⟨none, false⟩ others = y at huses ⊢
    cases huses with
    | same => exact .same _
    | count front back ending =>
        dsimp only
        rcases goOnAlike_count hs ht front back {} with
          ⟨request, hx, hy⟩ | ⟨a, b, hx, hy, hab⟩
        · rw [hx, hy]
          exact .same _
        · rw [hx, hy]
          -- Only an ending with all that is required makes a request, and it differs in the
          -- count.
          rcases ending with _ | ⟨_ | target, _ | _⟩
          · exact .same _
          · exact .same _
          · exact .same _
          · cases hab with
            | same => exact .same _
            | count r => exact .run { r with target := target }
          · exact .same _

/-- What arguments behind the name of the command ask for, if they can be told apart by
    the program. -/
theorem ofArguments_run (args : List String) :
    Request.ofArguments ("run" :: args) =
      if (ArgumentKind.classify programOptions args).isSome then ofCommand runOptions .run args
      else .mistake := by
  have hname : "run" ≠ "--" := by decide
  have hplain : ArgumentKind.of? programOptions "run" = some .plain := by decide
  have hcommand : ofNamedCommand "run" args = ofCommand runOptions .run args :=
    if_pos (beq_self_eq_true "run")
  unfold Request.ofArguments
  rw [classify_cons hname, hplain]
  cases hkinds : ArgumentKind.classify programOptions args with
  | none => rfl
  | some kinds =>
      simp only [Option.bind_some, Option.map_some, Option.isSome_some, if_true, fromProgram,
        map_fst_classify hkinds, hcommand]
      cases ofCommand runOptions .run args <;> rfl

/-- Two command lines that differ in a count ask for the same, or for requests that
    differ in the number of runs. -/
theorem sameButCount_ofArguments (hs : IsCountText s n) (ht : IsCountText t m)
    (front back : List String) :
    Request.SameButCount n m
      (Request.ofArguments ("run" :: (front ++ "--count" :: s :: back)))
      (Request.ofArguments ("run" :: (front ++ "--count" :: t :: back))) := by
  have hsome := isSome_classify_congr hs.plain_program ht.plain_program hs.ne_dashes ht.ne_dashes
    (front ++ ["--count"]) back
  simp only [List.append_assoc, List.singleton_append] at hsome
  rw [ofArguments_run, ofArguments_run, hsome]
  split
  · exact sameButCount_ofCommand hs ht front back
  · exact .same _

end Request

end CommandLine

end TextGrammar
